import RadvXclipse.Nir.IdivConst
import RadvXclipse.Util.FastUdiv

/-!
# Unsigned divisions by constants

What the functions of the builder compute, and that `build_udiv` and `build_umod` divide.
-/

namespace RadvXclipse.Nir

open Util Lib Nat BitVec

section

variable {N w : ℕ} {v : ℕ → BitVec N} {x : Def N w}

/-! ## Immediates -/

lemma ofInt_lowBits (w : ℕ) (y : ℤ) : BitVec.ofInt w (lowBits w y) = BitVec.ofInt w y := by
  have hpos : (0 : ℤ) < 2 ^ w := by positivity
  have hnonneg : 0 ≤ y % 2 ^ w := Int.emod_nonneg y hpos.ne'
  apply eq_of_toNat_eq
  rw [toNat_ofInt, toNat_ofInt]
  unfold lowBits
  push_cast
  rw [Int.toNat_of_nonneg hnonneg, Int.emod_emod]

lemma toNat_ofInt_natCast {k : ℕ} (hk : k < 2 ^ w) : (BitVec.ofInt w (k : ℤ)).toNat = k := by
  rw [ofInt_natCast, toNat_ofNat, mod_eq_of_lt hk]

lemma eval_iaddImm (v : ℕ → BitVec N) (x : Def N w) (y : ℤ) :
    (iaddImm x y).eval v = x.eval v + BitVec.ofInt w y := by
  rw [← ofInt_lowBits w y]
  unfold iaddImm
  split
  · next hzero =>
    rw [hzero]
    simp
  · rfl

lemma eval_iandImm (v : ℕ → BitVec N) (x : Def N w) (y : ℤ) :
    (iandImm x y).eval v = x.eval v &&& BitVec.ofInt w y := by
  rw [← ofInt_lowBits w y]
  unfold iandImm
  split
  · next hzero =>
    rw [hzero]
    simp [Def.eval]
  · split
    · next hones =>
      have hall : BitVec.ofInt w ((2 ^ w - 1 : ℕ) : ℤ) = BitVec.allOnes w := by
        apply eq_of_toNat_eq
        rw [toNat_ofInt_natCast (by omega), toNat_allOnes]
      rw [hones, hall, and_allOnes]
    · rfl

lemma eval_imulImm (h : IntSize w) (lowerBitops : Bool) (v : ℕ → BitVec N) (x : Def N w) (y : ℤ) :
    (imulImm lowerBitops x y).eval v = x.eval v * BitVec.ofInt w y := by
  have hlow : lowBits w y < 2 ^ w := by
    have hpos : (0 : ℤ) < 2 ^ w := by positivity
    unfold lowBits
    have hcast : ((2 ^ w : ℕ) : ℤ) = 2 ^ w := by
      rfl
    omega
  rw [← ofInt_lowBits w y]
  unfold imulImm
  split
  · next hzero =>
    rw [hzero]
    simp [Def.eval]
  · next hzero =>
    split
    · next hone =>
      rw [hone]
      simp
    · split
      · next hpow =>
        obtain ⟨k, hkw, hk⟩ := exists_two_pow_lt (pos_of_ne_zero hzero) hlow h.le hpow.2
        have hle := h.le
        show Nir.ishl (x.eval v) (BitVec.ofInt 32 ((ffsll (lowBits w y) - 1 : ℕ) : ℤ)) = _
        unfold Nir.ishl
        rw [hk, ffsll_two_pow (by omega), Nat.add_sub_cancel, shiftAmount_ofInt h hkw,
          shiftLeft_eq_mul_twoPow]
        congr 1
        apply eq_of_toNat_eq
        rw [toNat_twoPow, ofInt_natCast, toNat_ofNat]
      · rfl

lemma ite_ushrImm (n : Def N w) (k : ℕ) : (if k ≠ 0 then ushrImm n k else n) = ushrImm n k := by
  rw [ushrImm, ite_not]
  split_ifs <;> rfl

lemma toNat_ushrImm (h : IntSize w) (v : ℕ → BitVec N) (x : Def N w) {k : ℕ} (hk : k < w) :
    ((ushrImm x k).eval v).toNat = (x.eval v).toNat / 2 ^ k := by
  unfold ushrImm
  split
  · next hzero => rw [hzero, pow_zero, Nat.div_one]
  · show (Nir.ushr (x.eval v) (BitVec.ofInt 32 k)).toNat = _
    unfold Nir.ushr
    rw [shiftAmount_ofInt h hk, toNat_ushiftRight, shiftRight_eq_div_pow]

lemma ieq_eq_zero_iff (a b : BitVec w) : Nir.ieq a b = 0 ↔ a ≠ b := by
  unfold Nir.ieq
  rw [ofBool_eq_zero_iff]
  exact not_congr toInt_inj

lemma toNat_b2i (hw : 0 < w) {c : BitVec 1} {P : Prop} [Decidable P] (hc : c = 0 ↔ ¬ P) :
    (Nir.b2i w c).toNat = if P then 1 else 0 := by
  have hone : 1 < 2 ^ w := Nat.one_lt_two_pow (by omega)
  unfold Nir.b2i
  simp only [hc, ite_not]
  split
  · show (BitVec.ofNat w 1).toNat = 1
    rw [toNat_ofNat, mod_eq_of_lt hone]
  · simp

/-! ## Unsigned division -/

lemma toNat_udiv (a b : BitVec w) : (Nir.udiv a b).toNat = a.toNat / b.toNat := by
  unfold Nir.udiv
  split
  · next hzero => simp [hzero]
  · have hle : a.toNat / b.toNat ≤ a.toNat := Nat.div_le_self _ _
    rw [toNat_ofNat, mod_eq_of_lt (by omega)]

lemma toNat_magicUdiv (h : IntSize w) {m : FastUdivInfo} {bits D : ℕ} (hm : m.Divides w bits D)
    (v : ℕ → BitVec N) (n : Def N w) :
    ((magicUdiv m n).eval v).toNat = m.quotient w (n.eval v).toNat := by
  have hpre := toNat_ushrImm h v n hm.preShift
  unfold magicUdiv FastUdivInfo.quotient
  simp only [ite_ushrImm]
  generalize ushrImm n m.preShift = n1 at hpre
  have hinc : ((if m.increment ≠ 0 then .binop .uaddSat n1 (.imm w m.increment)
    else n1 : Def N w).eval v).toNat =
      min ((n.eval v).toNat / 2 ^ m.preShift + m.increment) (2 ^ w - 1) := by
    rw [← hpre]
    split
    · show (Nir.uaddSat (n1.eval v) (BitVec.ofInt w m.increment)).toNat = _
      unfold Nir.uaddSat
      rw [toNat_ofInt_natCast hm.increment]
      split
      · rw [toNat_ofNat, mod_eq_of_lt (by omega), min_eq_right (by omega)]
      · rw [toNat_add, toNat_ofInt_natCast hm.increment, mod_eq_of_lt (by omega), min_eq_left (by omega)]
    · next hzero => rw [not_not.mp hzero, add_zero, min_eq_left (by omega)]
  generalize (if m.increment ≠ 0 then .binop .uaddSat n1 (.imm w m.increment) else n1 : Def N w) = n2 at hinc
  have hmul : ((Def.binop .umulHigh n2 (.imm w m.multiplier)).eval v).toNat =
      min ((n.eval v).toNat / 2 ^ m.preShift + m.increment) (2 ^ w - 1) * m.multiplier / 2 ^ w := by
    rw [← hinc]
    show (Nir.umulHigh (n2.eval v) (BitVec.ofInt w m.multiplier)).toNat = _
    unfold Nir.umulHigh
    rw [toNat_ofInt_natCast hm.multiplier, toNat_ofNat, mod_eq_of_lt]
    rw [Nat.div_lt_iff_lt_mul (Nat.two_pow_pos w)]
    exact Nat.mul_lt_mul'' (n2.eval v).isLt hm.multiplier
  rw [← hmul]
  exact toNat_ushrImm h v _ hm.postShift

/-- `build_udiv` divides. -/
theorem eval_buildUdiv (h : IntSize w) (n : Def N w) {d : ℕ} (hd : d < 2 ^ w) :
    ∃ q, buildUdiv n d = some q ∧ ∀ v, (q.eval v).toNat = (n.eval v).toNat / d := by
  have hw : 0 < w := by
    have hge := h.ge
    omega
  have hdouble := h.double
  have hle64 : 2 ^ w ≤ 2 ^ 64 := Nat.pow_le_pow_right (by omega) h.le
  unfold buildUdiv
  dsimp only
  split
  · next hzero =>
    refine ⟨_, rfl, fun v => ?_⟩
    rw [hzero, Nat.div_zero]
    simp [Def.eval]
  · next hzero =>
    split
    · -- only the largest dividend has a quotient
      next hmax =>
      refine ⟨_, rfl, fun v => ?_⟩
      have hconst : (BitVec.ofInt w ((2 ^ w - 1 : ℕ) : ℤ)).toNat = 2 ^ w - 1 := toNat_ofInt_natCast (by omega)
      show (Nir.b2i w (Nir.ieq (n.eval v) (BitVec.ofInt w ((2 ^ w - 1 : ℕ) : ℤ)))).toNat = _
      rw [toNat_b2i hw (P := (n.eval v).toNat = 2 ^ w - 1)
        (by rw [ieq_eq_zero_iff, ne_eq, ← toNat_inj, hconst]), hmax]
      split
      · next heq => rw [heq, Nat.div_self (by omega)]
      · next heq => rw [div_eq_of_lt (by omega)]
    · split
      · -- the quotient is zero or one
        next hbig =>
        refine ⟨_, rfl, fun v => ?_⟩
        have hconst : (BitVec.ofInt w (d : ℤ)).toNat = d := toNat_ofInt_natCast hd
        show (Nir.b2i w (Nir.uge (n.eval v) (BitVec.ofInt w (d : ℤ)))).toNat = _
        unfold Nir.uge
        rw [toNat_b2i hw (ofBool_eq_zero_iff _), hconst]
        split
        · exact (Nat.div_eq_of_lt_le (by omega) (by omega)).symm
        · rw [div_eq_of_lt (by omega)]
      · next hsmall =>
        split
        · next hpow =>
          obtain ⟨k, hk, rfl⟩ := exists_two_pow_lt (pos_of_ne_zero hzero) hd h.le hpow
          refine ⟨_, rfl, fun v => ?_⟩
          rw [utilLogbase264_two_pow, toNat_ushrImm h v n hk]
        · next hpow =>
          have hge := h.ge
          have hnot : ∀ k, d ≠ 2 ^ k := fun k hk =>
            hpow ((isPowerOfTwoOrZero64_iff (by omega) (by omega)).mpr ⟨k, hk⟩)
          obtain ⟨m, hm, hdiv⟩ :=
            computeFastUdivInfo_divides (show 2 ≤ w by omega) h.le (by omega) (by omega) hnot
          refine ⟨magicUdiv m n, by rw [hm]; rfl, fun v => ?_⟩
          rw [toNat_magicUdiv h hdiv, hdiv.quotient _ (n.eval v).isLt]

/-! ## Unsigned remainder -/

lemma toNat_umod {a b : BitVec w} (hb : b.toNat ≠ 0) : (Nir.umod a b).toNat = a.toNat % b.toNat := by
  have hle : a.toNat % b.toNat ≤ a.toNat := mod_le _ _
  unfold Nir.umod
  rw [if_neg hb, toNat_ofNat, mod_eq_of_lt (by omega)]

/-- A mask of the low bits. -/
theorem toNat_and_mask {k : ℕ} (hk : k ≤ w) (a : BitVec w) :
    (a &&& BitVec.ofInt w ((2 ^ k : ℕ) - 1 : ℤ)).toNat = a.toNat % 2 ^ k := by
  have hpos := Nat.two_pow_pos k
  have hle : 2 ^ k ≤ 2 ^ w := Nat.pow_le_pow_right (by omega) hk
  have hcast : ((2 ^ k : ℕ) - 1 : ℤ) = ((2 ^ k - 1 : ℕ) : ℤ) := by omega
  rw [hcast, toNat_and, toNat_ofInt_natCast (by omega), and_two_pow_sub_one_eq_mod]

/-- `build_umod` gives the remainder. -/
theorem eval_buildUmod (h : IntSize w) (lowerBitops : Bool) (n : Def N w) {d : ℕ} (hd : d < 2 ^ w)
    (hpos : 0 < d) :
    ∃ q, buildUmod lowerBitops n d = some q ∧ ∀ v, (q.eval v).toNat = (n.eval v).toNat % d := by
  unfold buildUmod
  rw [if_neg (by omega)]
  split
  · next hpow =>
    obtain ⟨k, hk, rfl⟩ := exists_two_pow_lt hpos hd h.le hpow
    refine ⟨_, rfl, fun v => ?_⟩
    rw [eval_iandImm, toNat_and_mask hk.le]
  · obtain ⟨q, hq, heval⟩ := eval_buildUdiv h n hd
    refine ⟨_, by rw [hq]; rfl, fun v => ?_⟩
    -- the product with the quotient does not wrap
    have hprod : (n.eval v).toNat / d * d ≤ (n.eval v).toNat := div_mul_le_self _ _
    have hsplit := mod_add_div' (n.eval v).toNat d
    have hmul : (q.eval v * BitVec.ofInt w (d : ℤ)).toNat = (n.eval v).toNat / d * d := by
      rw [toNat_mul, heval, toNat_ofInt_natCast hd, mod_eq_of_lt (by omega)]
    show (n.eval v - (imulImm lowerBitops q d).eval v).toNat = _
    rw [eval_imulImm h, toNat_sub_of_le (by rw [le_def, hmul]; exact hprod), hmul]
    omega

end

end RadvXclipse.Nir
