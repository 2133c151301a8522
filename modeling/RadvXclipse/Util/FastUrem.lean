import RadvXclipse.Lib.MagicDivision
import RadvXclipse.Util.Math

/-!
# Remainders by multiplication

The model of `src/util/fast_urem_by_const.h`. The magic number is `2 ^ 64 / d`, rounded up, so the
low 64 bits of its product with `n` are the fractional part of `n / d`, and `d` times that is the
remainder.
-/

namespace RadvXclipse.Util

open Lib Nat

/-- `REMAINDER_MAGIC`. -/
def remainderMagic (divisor : ℕ) : ℕ := ((2 ^ 64 - 1) / divisor + 1) % 2 ^ 64

/-- `_mul32by64_hi` with a product of 128 bits. -/
def mul32by64Hi (a b : ℕ) : ℕ := (b * a) >>> 64 % 2 ^ 32

/-- `_mul32by64_hi` with products of 64 bits. -/
def mul32by64HiParts (a b : ℕ) : ℕ :=
  let b0 := b % 2 ^ 32
  let b1 := b >>> 32 % 2 ^ 32
  add64 ((a * b0 % 2 ^ 64) >>> 32) (a * b1 % 2 ^ 64) >>> 32 % 2 ^ 32

/-- `util_fast_urem32`, for one of the two multiplications. -/
def utilFastUrem32 (mulHi : ℕ → ℕ → ℕ) (n d magic : ℕ) : ℕ := mulHi d (magic * n % 2 ^ 64)

lemma mul32by64HiParts_eq {a b : ℕ} (ha : a < 2 ^ 32) (hb : b < 2 ^ 64) :
    mul32by64HiParts a b = mul32by64Hi a b := by
  have hsplit := mod_add_div b (2 ^ 32)
  have hb1 : b / 2 ^ 32 < 2 ^ 32 := Nat.div_lt_of_lt_mul hb
  have hlow : a * (b % 2 ^ 32) ≤ (2 ^ 32 - 1) * (2 ^ 32 - 1) := Nat.mul_le_mul (by omega) (by omega)
  have hprod : b * a = a * (b % 2 ^ 32) + 2 ^ 32 * (a * (b / 2 ^ 32)) := by
    conv_lhs => rw [← hsplit]
    ring
  unfold mul32by64HiParts mul32by64Hi add64
  simp only [shiftRight_eq_div_pow]
  rw [hprod, mod_eq_of_lt hb1]
  omega

/-- The fractional part of `n / d` and the remainder. -/
theorem frac_mul_div {n d : ℕ} (hn : n < 2 ^ 32) (hd : 0 < d) (hd' : d < 2 ^ 32) :
    remainderMagic d * n % 2 ^ 64 * d / 2 ^ 64 = n % d := by
  have hr := mod_lt (2 ^ 64 - 1) hd
  have hsplit := div_add_mod (2 ^ 64 - 1) d
  unfold remainderMagic
  generalize (2 ^ 64 - 1) / d = q at *
  generalize (2 ^ 64 - 1) % d = r at *
  -- the magic number is too large by less than one `d`-th
  have hmagic : (q + 1) * d = 2 ^ 64 + (d - 1 - r) := by
    rw [add_mul, mul_comm _ d]
    omega
  have hsmall : n * (d - 1 - r) < 2 ^ 32 * 2 ^ 32 := Nat.mul_lt_mul'' hn (by omega)
  have hmod := mod_lt n hd
  have hlt : n % d * 2 ^ 64 + n * (d - 1 - r) < d * 2 ^ 64 := by omega
  have hquot := mul_div_eq_of_up hmagic hlt
  have hfull := mul_mul_eq_of_up (n := n) hmagic
  have hfrac : n * (q + 1) % 2 ^ 64 * d = n % d * 2 ^ 64 + n * (d - 1 - r) := by
    have hdiv := div_add_mod (n * (q + 1)) (2 ^ 64)
    rw [hquot] at hdiv
    rw [← hdiv, add_mul, mul_comm (2 ^ 64) (n / d)] at hfull
    exact Nat.add_left_cancel hfull
  rw [mod_mul_mod, mul_comm _ n, hfrac]
  omega

/-- With either multiplication the result is the remainder. -/
theorem utilFastUrem32_eq {n d : ℕ} (hn : n < 2 ^ 32) (hd : 1 ≤ d) (hd' : d < 2 ^ 32) :
    utilFastUrem32 mul32by64Hi n d (remainderMagic d) = n % d ∧
      utilFastUrem32 mul32by64HiParts n d (remainderMagic d) = n % d := by
  have hhi : utilFastUrem32 mul32by64Hi n d (remainderMagic d) = n % d := by
    have hlt : n % d < 2 ^ 32 := (mod_lt n hd).trans hd'
    rw [utilFastUrem32, mul32by64Hi, shiftRight_eq_div_pow, frac_mul_div hn hd hd', mod_eq_of_lt hlt]
  refine ⟨hhi, ?_⟩
  rw [utilFastUrem32, mul32by64HiParts_eq hd' (mod_lt _ (by decide))]
  exact hhi

theorem utilFastUrem32_eq_max :
    utilFastUrem32 mul32by64Hi (2 ^ 32 - 1) (2 ^ 32 - 2) (remainderMagic (2 ^ 32 - 2)) =
      (2 ^ 32 - 1) % (2 ^ 32 - 2) ∧
      utilFastUrem32 mul32by64HiParts (2 ^ 32 - 1) (2 ^ 32 - 2) (remainderMagic (2 ^ 32 - 2)) =
        (2 ^ 32 - 1) % (2 ^ 32 - 2) :=
  utilFastUrem32_eq (by decide) (by decide) (by decide)

end RadvXclipse.Util
