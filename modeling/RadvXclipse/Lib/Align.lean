import Mathlib.Data.Nat.Bitwise
import Mathlib.Tactic.Ring
import Mathlib.Tactic.Linarith

/-!
# Rounding up to a multiple

`alignUp v a` is the least multiple of `a` that is at least `v`. The C macro computes it
with masks on fixed-width words (`alignPot`), where the addition can wrap; `toNat_alignPot`
says that for a power of two the word operation is `alignUp` modulo the word size, wrap
included, so everything else is stated about `alignUp`.
-/

namespace RadvXclipse.Lib

open Nat

/-- The least multiple of `a` that is at least `v` (for `a > 0`). -/
def alignUp (v a : ℕ) : ℕ := (v + a - 1) / a * a

lemma dvd_alignUp (v a : ℕ) : a ∣ alignUp v a := dvd_mul_left a _

section

variable {v a m w k : ℕ}

section

variable (ha : 0 < a)
include ha

lemma le_alignUp (v : ℕ) : v ≤ alignUp v a := by
  unfold alignUp
  have hdm := div_add_mod (v + a - 1) a
  have hmod := mod_lt (v + a - 1) ha
  have hcomm : a * ((v + a - 1) / a) = (v + a - 1) / a * a := mul_comm _ _
  omega

lemma alignUp_lt (v : ℕ) : alignUp v a < v + a := by
  unfold alignUp
  have hle := div_mul_le_self (v + a - 1) a
  omega

/-- A multiple of `a` above `v` is above `alignUp v a`. -/
theorem alignUp_le_of_dvd (hd : a ∣ m) (hv : v ≤ m) : alignUp v a ≤ m := by
  obtain ⟨k, rfl⟩ := hd
  have hk : (v + a - 1) / a ≤ k := by
    apply le_of_lt_succ
    rw [Nat.div_lt_iff_lt_mul ha, succ_mul, mul_comm]
    omega
  calc (v + a - 1) / a * a ≤ k * a := Nat.mul_le_mul_right a hk
    _ = a * k := mul_comm k a

lemma alignUp_eq_self (hd : a ∣ v) : alignUp v a = v :=
  le_antisymm (alignUp_le_of_dvd ha hd le_rfl) (le_alignUp ha v)

lemma alignUp_mono (h : v ≤ w) : alignUp v a ≤ alignUp w a :=
  alignUp_le_of_dvd ha (dvd_alignUp w a) (h.trans (le_alignUp ha w))

/-- Adding a multiple of `a` commutes with rounding up. -/
theorem alignUp_add_of_dvd (hd : a ∣ m) : alignUp (m + v) a = m + alignUp v a := by
  obtain ⟨k, rfl⟩ := hd
  unfold alignUp
  rw [show a * k + v + a - 1 = (v + a - 1) + a * k by omega, add_mul_div_left _ _ ha,
    add_mul, mul_comm k a, add_comm]

end

/-! ## The word-level macro -/

/-- `ALIGN_POT`: round up to a power of two with a mask, on `w`-bit words. -/
def alignPot {w : ℕ} (x pot : BitVec w) : BitVec w := (x + pot - 1#w) &&& ~~~(pot - 1#w)

/-- Clearing the low `k` bits of a word. -/
theorem toNat_and_not_mask (hk : k < w) (y : BitVec w) :
    (y &&& ~~~(BitVec.ofNat w (2 ^ k) - 1#w)).toNat = y.toNat / 2 ^ k * 2 ^ k := by
  have hm : BitVec.ofNat w (2 ^ k) - 1#w = BitVec.ofNat w (2 ^ k - 1) := by
    apply BitVec.eq_of_toNat_eq
    have h1 : 2 ^ k < 2 ^ w := Nat.pow_lt_pow_right (by norm_num) hk
    have h2 : 0 < 2 ^ k := Nat.two_pow_pos k
    simp only [BitVec.toNat_sub, BitVec.toNat_ofNat]
    rw [mod_eq_of_lt h1, mod_eq_of_lt (show 1 < 2 ^ w by omega),
      mod_eq_of_lt (show 2 ^ k - 1 < 2 ^ w by omega),
      show 2 ^ w - 1 + 2 ^ k = (2 ^ k - 1) + 2 ^ w by omega, add_mod_right,
      mod_eq_of_lt (by omega)]
  rw [hm]
  apply eq_of_testBit_eq
  intro i
  rw [testBit_mul_two_pow, testBit_div_two_pow, BitVec.testBit_toNat, BitVec.getLsbD_and,
    BitVec.getLsbD_not, BitVec.getLsbD_ofNat, testBit_two_pow_sub_one, BitVec.testBit_toNat]
  by_cases hki : k ≤ i
  · have hsub : i - k + k = i := by omega
    by_cases hi : i < w
    · simp [hki, hi, hsub]
    · simp [hki, hi, hsub, BitVec.getLsbD_of_ge y i (by omega)]
  · by_cases hi : i < w <;> simp [hki, hi, show i < k by omega]

/-- For a power of two below the word size, the macro is `alignUp` modulo the word size. -/
theorem toNat_alignPot (hk : k < w) (x : ℕ) :
    (alignPot (BitVec.ofNat w x) (BitVec.ofNat w (2 ^ k))).toNat = alignUp x (2 ^ k) % 2 ^ w := by
  have hkw : 2 ^ k < 2 ^ w := Nat.pow_lt_pow_right (by norm_num) hk
  have hk0 : 0 < 2 ^ k := Nat.two_pow_pos k
  have hadd : (BitVec.ofNat w x + BitVec.ofNat w (2 ^ k) - 1#w).toNat = (x + 2 ^ k - 1) % 2 ^ w := by
    rw [show BitVec.ofNat w x + BitVec.ofNat w (2 ^ k) - 1#w = BitVec.ofNat w (x + 2 ^ k - 1) by
      apply BitVec.eq_of_toNat_eq
      simp only [BitVec.toNat_sub, BitVec.toNat_add, BitVec.toNat_ofNat]
      rw [mod_eq_of_lt hkw, mod_eq_of_lt (show 1 < 2 ^ w by omega), mod_add_mod,
        add_mod_mod, show 2 ^ w - 1 + (x + 2 ^ k) = x + 2 ^ k - 1 + 2 ^ w by omega,
        add_mod_right], BitVec.toNat_ofNat]
  unfold alignPot alignUp
  rw [toNat_and_not_mask hk, hadd]
  -- `2 ^ k` divides `2 ^ w`, so the quotient commutes with the reduction
  rw [show (2 : ℕ) ^ w = 2 ^ k * 2 ^ (w - k) by rw [← pow_add]; congr 1; omega,
    mod_mul_right_div_self, mul_comm (_ / _) (2 ^ k), mul_mod_mul_left, mul_comm]

end

end RadvXclipse.Lib
