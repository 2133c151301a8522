import Mathlib.Data.Nat.Bitwise
import Mathlib.Data.Nat.Size

/-!
# Numbers as sets of bits

`BitsLe a b` says that every bit of `a` is one of `b`. It implies `a ≤ b`, and unlike `≤` it is kept
by the bitwise operations, so bounds of bitwise expressions are proved through it.
-/

namespace RadvXclipse.Lib

open Nat Bool

/-- Every bit of `a` is a bit of `b`. -/
def BitsLe (a b : ℕ) : Prop := ∀ i, a.testBit i = true → b.testBit i = true

section

variable {a b c d : ℕ}

lemma BitsLe.le (h : BitsLe a b) : a ≤ b := le_of_testBit h

lemma BitsLe.refl (a : ℕ) : BitsLe a a := fun _ h => h

section

variable (h : BitsLe a b)
include h

lemma BitsLe.trans (h' : BitsLe b c) : BitsLe a c := fun i hi => h' i (h i hi)

theorem BitsLe.and (h' : BitsLe c d) : BitsLe (a &&& c) (b &&& d) := by
  intro i hi
  rw [testBit_and, and_eq_true] at hi ⊢
  exact ⟨h i hi.1, h' i hi.2⟩

theorem BitsLe.or (h' : BitsLe c d) : BitsLe (a ||| c) (b ||| d) := by
  intro i hi
  rw [testBit_or, or_eq_true] at hi ⊢
  exact hi.imp (h i) (h' i)

lemma BitsLe.xor (h' : BitsLe c d) : BitsLe (a ^^^ c) (b ||| d) := by
  intro i hi
  rw [testBit_xor] at hi
  rw [testBit_or, or_eq_true]
  cases ha : a.testBit i with
  | true => exact .inl (h i ha)
  | false =>
    rw [ha, false_xor] at hi
    exact .inr (h' i hi)

lemma BitsLe.shiftLeft (k : ℕ) : BitsLe (a <<< k) (b <<< k) := by
  intro i hi
  rw [testBit_shiftLeft, and_eq_true] at hi ⊢
  exact ⟨hi.1, h _ hi.2⟩

end

lemma BitsLe.and_left (a b : ℕ) : BitsLe (a &&& b) a := by
  intro i hi
  rw [testBit_and, and_eq_true] at hi
  exact hi.1

lemma BitsLe.and_right (a b : ℕ) : BitsLe (a &&& b) b := by
  intro i hi
  rw [testBit_and, and_eq_true] at hi
  exact hi.2

/-- All bits of a number are below its size. -/
theorem bitsLe_mask {n : ℕ} (h : a < 2 ^ n) : BitsLe a (2 ^ n - 1) := by
  intro i hi
  rw [testBit_two_pow_sub_one, decide_eq_true_iff]
  by_contra hge
  have hlt : a < 2 ^ i := lt_of_lt_of_le h (Nat.pow_le_pow_right (by omega) (by omega))
  rw [testBit_lt_two_pow hlt] at hi
  exact absurd hi (by decide)

lemma BitsLe.mod_two_pow (h : BitsLe a b) (n : ℕ) : BitsLe (a % 2 ^ n) (b % 2 ^ n) := by
  intro i hi
  rw [testBit_mod_two_pow, and_eq_true] at hi ⊢
  exact ⟨hi.1, h i hi.2⟩

/-- Bits above `n` are lost on both sides. -/
theorem BitsLe.le_mod {n : ℕ} (h : BitsLe a b) (ha : a < 2 ^ n) : a ≤ b % 2 ^ n := by
  have hmod := (h.mod_two_pow n).le
  rwa [mod_eq_of_lt ha] at hmod

/-- Two sets of bits of one mask. -/
theorem BitsLe.or_le (ha : BitsLe a c) (hb : BitsLe b c) : BitsLe (a ||| b) c := by
  have h := ha.or hb
  rwa [Nat.or_self] at h

/-- Masks of fewer bits. -/
theorem bitsLe_two_pow_sub_one {m n : ℕ} (h : m ≤ n) : BitsLe (2 ^ m - 1) (2 ^ n - 1) := by
  apply bitsLe_mask
  have hpow : 2 ^ m ≤ 2 ^ n := Nat.pow_le_pow_right (by omega) h
  have hpos := Nat.two_pow_pos m
  omega

/-- The complement of a word, as part of that of a longer one. -/
theorem bitsLe_not {n m : ℕ} (ha : a < 2 ^ n) (hnm : n ≤ m) : BitsLe (2 ^ n - 1 - a) (2 ^ m - 1 - a) := by
  intro i hi
  have hn : 2 ^ n - 1 - a = 2 ^ n - (a + 1) := by omega
  have hm : 2 ^ m - 1 - a = 2 ^ m - (a + 1) := by omega
  have ham : a < 2 ^ m := lt_of_lt_of_le ha (Nat.pow_le_pow_right (by omega) hnm)
  rw [hn, testBit_two_pow_sub_succ ha, and_eq_true, decide_eq_true_iff] at hi
  rw [hm, testBit_two_pow_sub_succ ham, and_eq_true, decide_eq_true_iff]
  exact ⟨lt_of_lt_of_le hi.1 hnm, hi.2⟩

end

end RadvXclipse.Lib
