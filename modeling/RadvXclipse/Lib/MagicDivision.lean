import Mathlib.Tactic.Linarith
import Mathlib.Tactic.Ring

/-!
# Division by multiplication

A quotient by a fixed `D` is the high part of a product with a fixed `m`: `n * m / P = n / D`, where
`m` is `P / D` rounded up or down. The lemmas here say how far `n` may go for a given rounding
error. `P` is a power of two where they are used, but need not be.
-/

namespace RadvXclipse.Lib

open Nat

section

variable {n m D P δ ρ : ℕ}

/-! ## Rounding up -/

/-- The product, scaled by the divisor: the quotient in units of `P * D`, and what is left of it. -/
theorem mul_mul_eq_of_up (hm : m * D = P + δ) : n * m * D = n / D * P * D + (n % D * P + n * δ) := by
  have hn : n = D * (n / D) + n % D := (div_add_mod n D).symm
  calc n * m * D = n * P + n * δ := by rw [mul_assoc, hm, mul_add]
    _ = (D * (n / D) + n % D) * P + n * δ := by rw [← hn]
    _ = n / D * P * D + (n % D * P + n * δ) := by ring

lemma mul_div_eq_of_up (hm : m * D = P + δ) (h : n % D * P + n * δ < D * P) : n * m / P = n / D := by
  have hD : 0 < D := pos_of_ne_zero fun hzero => by simp [hzero] at h
  have hkey := mul_mul_eq_of_up (n := n) hm
  apply Nat.div_eq_of_lt_le
  · apply Nat.le_of_mul_le_mul_right _ hD
    omega
  · apply Nat.lt_of_mul_lt_mul_right (a := D)
    calc n * m * D < n / D * P * D + D * P := by omega
      _ = (n / D + 1) * P * D := by ring

/-- A product with a negative `n` is rounded down, away from the quotient. -/
theorem lt_mul_of_up (hm : m * D = P + δ) (hn : 0 < n) (hδ : 0 < δ) : n / D * P < n * m := by
  have hkey := mul_mul_eq_of_up (n := n) hm
  have hpos : 0 < n * δ := mul_pos hn hδ
  apply Nat.lt_of_mul_lt_mul_right (a := D)
  omega

lemma mul_le_of_up (hD : 0 < D) (hm : m * D = P + δ) (h : n % D * P + n * δ ≤ D * P) :
    n * m ≤ (n / D + 1) * P := by
  have hkey := mul_mul_eq_of_up (n := n) hm
  apply Nat.le_of_mul_le_mul_right _ hD
  calc n * m * D ≤ n / D * P * D + D * P := by omega
    _ = (n / D + 1) * P * D := by ring

/-! ## Rounding down -/

/-- With the multiplier rounded down, one more than the dividend is multiplied. -/
theorem succ_mul_div_eq_of_down (hD : 0 < D) (hm : m * D + ρ = P) (hρ : 0 < ρ) (h : (n + 1) * ρ ≤ P) :
    (n + 1) * m / P = n / D := by
  have hn : n = D * (n / D) + n % D := (div_add_mod n D).symm
  have hr : n % D < D := mod_lt n hD
  have hkey : (n + 1) * m * D + (n + 1) * ρ = n / D * P * D + (n % D + 1) * P := by
    calc (n + 1) * m * D + (n + 1) * ρ = (n + 1) * (m * D + ρ) := by ring
      _ = (D * (n / D) + n % D + 1) * P := by rw [hm, ← hn]
      _ = n / D * P * D + (n % D + 1) * P := by ring
  have hle : (n % D + 1) * P ≤ D * P := Nat.mul_le_mul_right P hr
  have hpos : 0 < (n + 1) * ρ := mul_pos (succ_pos n) hρ
  have hge : P ≤ (n % D + 1) * P := Nat.le_mul_of_pos_left P (succ_pos _)
  apply Nat.div_eq_of_lt_le
  · apply Nat.le_of_mul_le_mul_right _ hD
    omega
  · apply Nat.lt_of_mul_lt_mul_right (a := D)
    calc (n + 1) * m * D < n / D * P * D + D * P := by omega
      _ = (n / D + 1) * P * D := by ring

/-! ## Quotients of doubled numbers -/

lemma two_mul_div_mod (x : ℕ) (hD : 0 < D) :
    (D ≤ 2 * (x % D) → 2 * x / D = 2 * (x / D) + 1 ∧ 2 * x % D = 2 * (x % D) - D) ∧
    (2 * (x % D) < D → 2 * x / D = 2 * (x / D) ∧ 2 * x % D = 2 * (x % D)) := by
  have hx : x = D * (x / D) + x % D := (div_add_mod x D).symm
  have hr : x % D < D := mod_lt x hD
  constructor
  · intro h
    have hsplit : 2 * x = 2 * (x % D) - D + D * (2 * (x / D) + 1) := by
      have hexp : D * (2 * (x / D) + 1) = 2 * (D * (x / D)) + D := by ring
      omega
    rw [hsplit, add_mul_div_left _ _ hD, add_mul_mod_self_left, div_eq_of_lt (by omega),
      mod_eq_of_lt (by omega), zero_add]
    exact ⟨rfl, rfl⟩
  · intro h
    have hsplit : 2 * x = 2 * (x % D) + D * (2 * (x / D)) := by
      have hexp : D * (2 * (x / D)) = 2 * (D * (x / D)) := by ring
      omega
    rw [hsplit, add_mul_div_left _ _ hD, add_mul_mod_self_left, div_eq_of_lt h,
      mod_eq_of_lt h, zero_add]
    exact ⟨rfl, rfl⟩

/-! ## Powers of two -/

/-- A multiplier rounded up, for a divisor of `c` bits, still has only `w` bits. -/
theorem two_pow_div_succ_lt {w c e : ℕ} (hlo : 2 ^ (c - 1) < D) (hc : c ≤ w) (hw : 2 ≤ w) (he : e < c) :
    2 ^ (w + e) / D + 1 < 2 ^ w := by
  have hD : 0 < D := lt_of_le_of_lt (zero_le _) hlo
  have hexp : 2 ^ (w + e) ≤ 2 ^ w * 2 ^ (c - 1) := by
    rw [← pow_add]
    exact Nat.pow_le_pow_right (by omega) (by omega)
  have hhalf : 2 * 2 ^ (c - 1) ≤ 2 ^ w := by
    rw [← pow_succ']
    exact Nat.pow_le_pow_right (by omega) (by omega)
  have hfour : 4 ≤ 2 ^ w := Nat.pow_le_pow_right (show 0 < 2 by omega) hw
  have hprod : 2 ^ (w + e) < (2 ^ w - 1) * D := by
    calc 2 ^ (w + e) ≤ 2 ^ w * 2 ^ (c - 1) := hexp
      _ < 2 ^ w * 2 ^ (c - 1) + (2 ^ w - 1 - 2 ^ (c - 1)) := by omega
      _ = (2 ^ w - 1) * (2 ^ (c - 1) + 1) := by
        rw [mul_add, Nat.sub_mul]
        have hle : 2 ^ (c - 1) ≤ 2 ^ w * 2 ^ (c - 1) := Nat.le_mul_of_pos_left _ (by omega)
        omega
      _ ≤ (2 ^ w - 1) * D := Nat.mul_le_mul_left _ hlo
  have hdiv := (Nat.div_lt_iff_lt_mul hD).mpr hprod
  omega

end

end RadvXclipse.Lib
