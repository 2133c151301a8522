import Mathlib.Data.Nat.Bitwise

/-!
# Fields of bits

`field x off n` is the number in the `n` bits of `x` from bit `off` on. A reader that keeps part of
`x` in a window and shifts the window along reads the same fields as one that reads each field where
it is: a window is a field, and a field of a field is a field.
-/

namespace RadvXclipse.Lib

open Nat

/-- The `n` bits of `x` from bit `off` on. -/
def field (x off n : ℕ) : ℕ := x >>> off % 2 ^ n

section Field

variable {x off n m k : ℕ}

lemma testBit_field (x off n i : ℕ) :
    (field x off n).testBit i = (decide (i < n) && x.testBit (off + i)) := by
  unfold field
  rw [testBit_mod_two_pow, testBit_shiftRight]

lemma field_lt (x off n : ℕ) : field x off n < 2 ^ n := mod_lt _ (Nat.two_pow_pos n)

lemma field_lt_of_le (x off : ℕ) (h : n ≤ m) : field x off n < 2 ^ m :=
  lt_of_lt_of_le (field_lt x off n) (Nat.pow_le_pow_right (by decide) h)

@[simp] lemma field_width_zero (x off : ℕ) : field x off 0 = 0 := mod_one _

lemma field_eq_zero_of_lt (h : x < 2 ^ off) : field x off n = 0 := by
  unfold field
  rw [shiftRight_eq_div_pow, div_eq_of_lt h, zero_mod]

/-- A field of a window is a field of what the window shows. -/
theorem field_field {o : ℕ} (h : o + n ≤ m) : field (field x off m) o n = field x (off + o) n := by
  apply eq_of_testBit_eq
  intro i
  rw [testBit_field, testBit_field, testBit_field, add_assoc]
  by_cases hi : i < n
  · have him : o + i < m := by omega
    simp only [hi, him, decide_true, Bool.true_and]
  · simp only [hi, decide_false, Bool.false_and]

/-- A window moves on by `k` bits. -/
theorem field_shift (h : k ≤ m) : field x off m >>> k = field x (off + k) (m - k) := by
  apply eq_of_testBit_eq
  intro i
  rw [testBit_shiftRight, testBit_field, testBit_field, add_assoc]
  have hlt : k + i < m ↔ i < m - k := by omega
  simp only [hlt]

lemma field_mod (h : n ≤ m) : field x off m % 2 ^ n = field x off n := by
  have hwindow : field (field x off m) 0 n = field x (off + 0) n := field_field (by omega)
  rwa [add_zero, field, shiftRight_zero] at hwindow

/-- Two windows side by side are one. -/
theorem field_append (x off n m : ℕ) : field x off n ||| field x (off + n) m <<< n = field x off (n + m) := by
  apply eq_of_testBit_eq
  intro i
  rw [testBit_or, testBit_shiftLeft, testBit_field, testBit_field, testBit_field]
  by_cases hi : i < n
  · have hge : ¬ n ≤ i := by omega
    have hlt : i < n + m := by omega
    simp only [hi, hge, hlt, decide_true, decide_false, Bool.true_and, Bool.false_and, Bool.or_false]
  · have hge : n ≤ i := by omega
    have hsum : off + n + (i - n) = off + i := by omega
    have hlt : i - n < m ↔ i < n + m := by omega
    simp only [hi, hge, hsum, hlt, decide_true, decide_false, Bool.true_and, Bool.false_and, Bool.false_or]

/-- The same with the numbers added. -/
theorem field_add (x off n m : ℕ) : field x off (n + m) = field x off n + 2 ^ n * field x (off + n) m := by
  rw [← field_append, Nat.or_comm, shiftLeft_eq, mul_comm _ (2 ^ n),
    ← two_pow_add_eq_or_of_lt (field_lt x off n), add_comm]

/-- A mask of `n` bits from bit `off` on leaves a field where it is. -/
theorem and_mask (x off n : ℕ) : x &&& (2 ^ n - 1) <<< off = field x off n <<< off := by
  apply eq_of_testBit_eq
  intro i
  rw [testBit_and, testBit_shiftLeft, testBit_shiftLeft, testBit_two_pow_sub_one, testBit_field]
  by_cases hi : off ≤ i
  · rw [Nat.add_sub_cancel' hi]
    simp only [hi, decide_true, Bool.true_and]
    exact Bool.and_comm _ _
  · simp only [hi, decide_false, Bool.false_and, Bool.and_false]

end Field

/-- Clearing a bit that is set. -/
theorem ldiff_two_pow_add {x k : ℕ} (h : x.testBit k = true) : ldiff x (2 ^ k) + 2 ^ k = x := by
  have hlow : x % 2 ^ k < 2 ^ (k + 1) := by
    omega
  have hclear : ldiff x (2 ^ k) = 2 ^ (k + 1) * (x / 2 ^ (k + 1)) + x % 2 ^ k := by
    apply eq_of_testBit_eq
    intro i
    rw [testBit_ldiff, testBit_two_pow_mul_add _ hlow, testBit_two_pow,
      testBit_mod_two_pow, testBit_div_two_pow]
    by_cases hik : i < k + 1
    · rw [if_pos hik]
      by_cases heq : k = i
      · simp [heq]
      · have : i < k := by omega
        simp [heq, this]
    · rw [if_neg hik, Nat.sub_add_cancel (by omega)]
      simp [show k ≠ i by omega]
  have hbit : x / 2 ^ k % 2 = 1 := by
    rw [testBit_eq_decide_div_mod_eq] at h
    exact of_decide_eq_true h
  have hmod : x % 2 ^ (k + 1) = x % 2 ^ k + 2 ^ k := by
    rw [mod_pow_succ, hbit, mul_one]
  have hdiv := div_add_mod x (2 ^ (k + 1))
  omega

end RadvXclipse.Lib
