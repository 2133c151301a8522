import RadvXclipse.Nir.Opcodes
import Mathlib.Data.Nat.Digits.Defs
import Mathlib.Tactic.LinearCombination

/-!
# The high half of a product of 64 bits

`lower_mul_high64` multiplies numbers of four limbs, one row for each limb of the first. The upper
limbs of a source are zero, or its sign in a signed product. Limbs are lists, the lowest one first;
those of the result that are not written yet, to which nothing is added, are zero.
-/

namespace RadvXclipse.Nir

open List Nat Option
open BitVec hiding cast_ofNat

/-- A 64-bit `iadd`, which fails where it overflows. -/
def checkedIadd (a b : ℕ) : Option ℕ := if a + b < 2 ^ 64 then some (a + b) else none

/-- The inner loop on `res[i]` and the limbs above it, with the carry that is the last limb. -/
def mulRow (x : ℕ) : (y32 res : List ℕ) → (carry : ℕ) → Option (List ℕ)
  | y :: y32, r :: res, carry => do
    let tmp ← checkedIadd (x * y) r
    let tmp ← checkedIadd tmp carry
    let res ← mulRow x y32 res (tmp >>> 32)
    return tmp % 2 ^ 32 :: res
  | _, _, carry => some [carry]

/-- The outer loop from `res[i]` on. The rows after the first one leave `res[i]` alone. -/
def mulRows (y32 : List ℕ) : (x32 res : List ℕ) → Option (List ℕ)
  | x :: x32, res => do
    let res ← mulRow x y32 res 0
    let rest ← mulRows y32 x32 res.tail
    return res.headI :: rest
  | [], res => some res

/-- `x32` and `y32`. -/
def limbs32 (signExtend : Bool) (x : BitVec 64) : List ℕ :=
  let hi := (x >>> 32).setWidth 32
  let ext := if signExtend then (ishr hi 31).toNat else 0
  [(x.setWidth 32).toNat, hi.toNat, ext, ext]

/-- `lower_mul_high64`, which fails where an addition overflows. -/
def lowerMulHigh64 (x y : BitVec 64) (signExtend : Bool) : Option (BitVec 64) := do
  let res ← mulRows (limbs32 signExtend y) (limbs32 signExtend x) [0, 0, 0, 0]
  return BitVec.ofNat 64 (res.getD 2 0 + res.getD 3 0 * 2 ^ 32)

section Rows

variable {x32 y32 res : List ℕ} (hy : ∀ y ∈ y32, y < 2 ^ 32)
include hy

/-- A row adds its product, and no sum in it overflows. -/
theorem mulRow_eq {x carry : ℕ} (hx : x < 2 ^ 32) (hres : ∀ r ∈ res, r < 2 ^ 32)
    (hc : carry < 2 ^ 32) (hlen : res.length = y32.length) :
    ∃ r t, mulRow x y32 res carry = some (r :: t) ∧ t.length = y32.length ∧ (∀ s ∈ r :: t, s < 2 ^ 32) ∧
      ofDigits (2 ^ 32) (r :: t) = x * ofDigits (2 ^ 32) y32 + ofDigits (2 ^ 32) res + carry := by
  induction y32 generalizing res carry with
  | nil =>
    obtain rfl := eq_nil_of_length_eq_zero hlen
    exact ⟨carry, [], rfl, rfl, by simpa using hc, by simp⟩
  | cons y y32 ih =>
    obtain ⟨r, res, rfl⟩ := exists_cons_of_length_eq_add_one hlen
    rw [forall_mem_cons] at hy hres
    have hle : x * y ≤ (2 ^ 32 - 1) * (2 ^ 32 - 1) := Nat.mul_le_mul (by omega) (by omega)
    have hr := hres.1
    obtain ⟨s, t, heq, hlen, hlt, hval⟩ := ih hy.2 hres.2 (show (x * y + r + carry) >>> 32 < 2 ^ 32 by omega)
      (Nat.succ.inj hlen)
    refine ⟨(x * y + r + carry) % 2 ^ 32, s :: t, ?_, congrArg (· + 1) hlen, ?_, ?_⟩
    · rw [mulRow, checkedIadd, if_pos (by omega), bind_eq_bind, bind_some, checkedIadd, if_pos (by omega)]
      simp [heq]
    · exact forall_mem_cons.mpr ⟨mod_lt _ (by decide), hlt⟩
    · rw [ofDigits_cons, hval, ofDigits_cons, ofDigits_cons, shiftRight_eq_div_pow]
      linear_combination mod_add_div (x * y + r + carry) (2 ^ 32)

/-- The rows add the product. -/
theorem mulRows_eq (hx : ∀ x ∈ x32, x < 2 ^ 32) (hres : ∀ r ∈ res, r < 2 ^ 32)
    (hlen : res.length = y32.length) :
    ∃ t, mulRows y32 x32 res = some t ∧ (∀ s ∈ t, s < 2 ^ 32) ∧
      ofDigits (2 ^ 32) t = ofDigits (2 ^ 32) x32 * ofDigits (2 ^ 32) y32 + ofDigits (2 ^ 32) res := by
  induction x32 generalizing res with
  | nil => exact ⟨res, rfl, hres, by simp⟩
  | cons x x32 ih =>
    rw [forall_mem_cons] at hx
    obtain ⟨r, t, heq, hlen', hlt, hval⟩ := mulRow_eq hy hx.1 hres (Nat.two_pow_pos 32) hlen
    rw [forall_mem_cons] at hlt
    obtain ⟨u, heq', hlt', hval'⟩ := ih hx.2 hlt.2 hlen'
    refine ⟨r :: u, ?_, forall_mem_cons.mpr ⟨hlt.1, hlt'⟩, ?_⟩
    · simp [mulRows, heq, heq']
    · rw [ofDigits_cons] at hval ⊢
      rw [hval', ofDigits_cons]
      linear_combination hval

end Rows

/-! ## The product -/

section Product

variable (x y : BitVec 64) (signExtend : Bool)

lemma toNat_ishr_31 (h : BitVec 32) : (ishr h 31).toNat = if 2 ^ 31 ≤ h.toNat then 2 ^ 32 - 1 else 0 := by
  have hishr : ishr h 31 = h.sshiftRight 31 := rfl
  rw [hishr, BitVec.sshiftRight, toNat_ofInt, Int.shiftRight_eq_div_pow, toInt_eq_toNat_cond]
  split_ifs <;> omega

/-- The limbs of a source, with what they stand for. -/
theorem limbs32_spec : (∀ l ∈ limbs32 signExtend x, l < 2 ^ 32) ∧ ofDigits (2 ^ 32) (limbs32 signExtend x) =
    x.toNat + if signExtend then if 2 ^ 63 ≤ x.toNat then 2 ^ 128 - 2 ^ 64 else 0 else 0 := by
  have hx := x.isLt
  have hhi : ((x >>> 32).setWidth 32).toNat = x.toNat / 2 ^ 32 := by
    rw [toNat_setWidth, toNat_ushiftRight, shiftRight_eq_div_pow]
    omega
  have hsign : 2 ^ 31 ≤ x.toNat / 2 ^ 32 ↔ 2 ^ 63 ≤ x.toNat := by omega
  simp only [limbs32, toNat_ishr_31, hhi, hsign, toNat_setWidth, forall_mem_cons, ofDigits_cons, ofDigits_nil]
  cases signExtend with
  | false =>
    simp
    omega
  | true => split_ifs <;> simp <;> omega

/-- The third and the fourth limb. -/
theorem ofNat_getD {res : List ℕ} (h : ∀ r ∈ res, r < 2 ^ 32) :
    BitVec.ofNat 64 (res.getD 2 0 + res.getD 3 0 * 2 ^ 32) =
      BitVec.ofNat 64 (ofDigits (2 ^ 32) res / 2 ^ 64) := by
  apply eq_of_toNat_eq
  rw [toNat_ofNat, toNat_ofNat]
  rcases res with _ | ⟨a, _ | ⟨b, _ | ⟨c, _ | ⟨d, t⟩⟩⟩⟩ <;> simp [ofDigits_cons] at h ⊢ <;> omega

/-- The result is the high half of the product, and no addition overflows. -/
theorem lowerMulHigh64_eq :
    lowerMulHigh64 x y signExtend = some (if signExtend then imulHigh x y else umulHigh x y) := by
  obtain ⟨hx, hvx⟩ := limbs32_spec x signExtend
  obtain ⟨hy, hvy⟩ := limbs32_spec y signExtend
  obtain ⟨res, heq, hlt, hval⟩ := mulRows_eq hy hx (show ∀ r ∈ [0, 0, 0, 0], r < 2 ^ 32 by decide) rfl
  have hzero : ofDigits (2 ^ 32) [0, 0, 0, 0] = 0 := rfl
  rw [hvx, hvy, hzero, add_zero] at hval
  rw [lowerMulHigh64, heq, bind_eq_bind, bind_some, ofNat_getD hlt, hval]
  cases signExtend with
  | false => simp [umulHigh]
  | true =>
    -- modulo `2 ^ 128` the limbs are the signed numbers
    have hint : ∀ z : BitVec 64, ((z.toNat + if 2 ^ 63 ≤ z.toNat then 2 ^ 128 - 2 ^ 64
        else 0 : ℕ) : ℤ) = z.toInt + 2 ^ 128 * if 2 ^ 63 ≤ z.toNat then 1 else 0 := by
      intro z
      rw [toInt_eq_toNat_cond]
      split_ifs <;> omega
    have hmul : ∀ a b c d : ℤ, (a + 2 ^ 128 * c) * (b + 2 ^ 128 * d) =
        a * b + 2 ^ 64 * (2 ^ 64 * (a * d + c * b + 2 ^ 128 * c * d)) := by
      intros
      ring
    simp only [if_true]
    rw [← ofInt_natCast, Int.natCast_ediv, Int.natCast_mul, hint, hint, hmul, imulHigh, cast_pow,
      cast_ofNat, Int.add_mul_ediv_left _ _ (by decide)]
    refine congrArg some (eq_of_toInt_eq ?_)
    rw [toInt_ofInt, toInt_ofInt]
    exact Int.add_mul_bmod_self_left _ (2 ^ 64) _

end Product

end RadvXclipse.Nir
