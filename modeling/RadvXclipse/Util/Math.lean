import RadvXclipse.Lib.Align
import Mathlib.Data.Nat.Log

/-!
# Integer helpers of `src/util`

The parts of `u_math.h` that the driver computes sizes and classes with. `uint32_t` values are
natural numbers below `2 ^ 32`; where an operation may wrap it says so.
-/

namespace RadvXclipse.Util

open Lib Nat

/-- `UINT32_MAX`. -/
def uint32Max : ℕ := 2 ^ 32 - 1

/-- `x + y` on `uint32_t`. -/
def add32 (x y : ℕ) : ℕ := (x + y) % 2 ^ 32

/-- `x - y` on `uint32_t`. -/
def sub32 (x y : ℕ) : ℕ := (x + 2 ^ 32 - y) % 2 ^ 32

lemma add32_of_lt {x y : ℕ} (h : x + y < 2 ^ 32) : add32 x y = x + y := mod_eq_of_lt h

lemma sub32_of_le {x y : ℕ} (h : y ≤ x) (hx : x < 2 ^ 32) : sub32 x y = x - y := by
  simp only [sub32]
  omega

/-- `x + y` on `uint64_t`. -/
def add64 (x y : ℕ) : ℕ := (x + y) % 2 ^ 64

/-- `x - y` on `uint64_t`. -/
def sub64 (x y : ℕ) : ℕ := (x + 2 ^ 64 - y) % 2 ^ 64

lemma add64_of_lt {x y : ℕ} (h : x + y < 2 ^ 64) : add64 x y = x + y := mod_eq_of_lt h

lemma sub64_of_le {x y : ℕ} (h : y ≤ x) (hx : x < 2 ^ 64) : sub64 x y = x - y := by
  simp only [sub64]
  omega

/-- `align`. -/
def align (value alignment : ℕ) : ℕ :=
  (alignPot (BitVec.ofNat 32 value) (BitVec.ofNat 32 alignment)).toNat

lemma align_two_pow {k : ℕ} (hk : k < 32) (v : ℕ) : align v (2 ^ k) = alignUp v (2 ^ k) % 2 ^ 32 :=
  toNat_alignPot hk v

/-- `align64`. -/
def align64 (value alignment : ℕ) : ℕ :=
  (alignPot (BitVec.ofNat 64 value) (BitVec.ofNat 64 alignment)).toNat

/-- `util_logbase2`. -/
def utilLogbase2 (n : ℕ) : ℕ := Nat.log 2 (n ||| 1)

/-- `util_logbase2_64`. -/
def utilLogbase264 (n : ℕ) : ℕ := Nat.log 2 (n ||| 1)

/-- `util_is_power_of_two_or_zero64`. -/
def isPowerOfTwoOrZero64 (v : ℕ) : Bool := v &&& sub64 v 1 = 0

lemma isPowerOfTwoOrZero64_iff {v : ℕ} (hpos : 0 < v) (hv : v < 2 ^ 64) :
    isPowerOfTwoOrZero64 v = true ↔ ∃ k, v = 2 ^ k := by
  unfold isPowerOfTwoOrZero64
  rw [sub64_of_le hpos hv, decide_eq_true_iff, and_sub_one_eq_zero_iff_isPowerOfTwo (by omega)]
  exact Iff.rfl

lemma exists_two_pow_lt {v n : ℕ} (hpos : 0 < v) (hv : v < 2 ^ n) (hn : n ≤ 64)
    (h : isPowerOfTwoOrZero64 v = true) : ∃ k < n, v = 2 ^ k := by
  have hlt : v < 2 ^ 64 := lt_of_lt_of_le hv (Nat.pow_le_pow_right (by omega) hn)
  obtain ⟨k, rfl⟩ := (isPowerOfTwoOrZero64_iff hpos hlt).mp h
  exact ⟨k, (Nat.pow_lt_pow_iff_right (by omega)).mp hv, rfl⟩

lemma utilLogbase264_two_pow (k : ℕ) : utilLogbase264 (2 ^ k) = k := by
  unfold utilLogbase264
  cases k with
  | zero => decide
  | succ k =>
    have hor : 2 ^ (k + 1) ||| 1 = 2 ^ (k + 1) + 1 := by
      have h := two_pow_add_eq_or_of_lt (i := k + 1) (b := 1) (Nat.one_lt_two_pow (by omega)) 1
      rw [mul_one] at h
      exact h.symm
    have hle : 2 ^ 1 ≤ 2 ^ (k + 1) := Nat.pow_le_pow_right (by omega) (by omega)
    apply log_eq_of_pow_le_of_lt_pow
    · omega
    · rw [pow_succ 2 (k + 1)]
      omega

/-- `util_logbase2_ceil`. -/
def utilLogbase2Ceil (n : ℕ) : ℕ := if n ≤ 1 then 0 else 1 + utilLogbase2 (n - 1)

/-- `ffs`: one plus the index of the lowest set bit, zero if there is none. -/
def ffs (x : BitVec 32) : ℕ :=
  match (List.range 32).find? fun i => x.getLsbD i with
  | some i => i + 1
  | none => 0

/-- `ffsll`. -/
def ffsll (x : ℕ) : ℕ :=
  match (List.range 64).find? fun i => x.testBit i with
  | some i => i + 1
  | none => 0

lemma ffsll_eq {a i : ℕ} (hi : i < 64) (hbit : a.testBit i = true) (hlow : ∀ j < i, a.testBit j = false) :
    ffsll a = i + 1 := by
  have hfind : (List.range 64).find? (fun i => a.testBit i) = some i := by
    rw [List.find?_range_eq_some]
    refine ⟨hbit, by simpa using hi, fun j hj => ?_⟩
    rw [hlow j hj]
    rfl
  unfold ffsll
  rw [hfind]

lemma ffsll_two_pow {k : ℕ} (hk : k < 64) : ffsll (2 ^ k) = k + 1 :=
  ffsll_eq hk testBit_two_pow_self fun _ hj => testBit_two_pow_of_ne (by omega)

end RadvXclipse.Util
