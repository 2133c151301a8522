import RadvXclipse.Nir.IdivConstUnsigned
import RadvXclipse.Util.FastSdiv

/-!
# Signed divisions by constants

The values of signed definitions are computed as integers: a word is `BitVec.ofInt` of any integer
that it stands for, and sums and products of words are those of the integers.
-/

namespace RadvXclipse.Nir

open Util Lib Nat
open BitVec hiding sub_eq_add_neg

section

variable {N w : ℕ} {v : ℕ → BitVec N}

/-! ## Words as integers -/

lemma ofInt_sub (w : ℕ) (x y : ℤ) : BitVec.ofInt w x - BitVec.ofInt w y = BitVec.ofInt w (x - y) := by
  rw [BitVec.sub_eq_add_neg, ← ofInt_neg, ← ofInt_add, sub_eq_add_neg]

lemma sub_ofInt (a : BitVec w) (y : ℤ) : a - BitVec.ofInt w y = BitVec.ofInt w (a.toInt - y) := by
  rw [← ofInt_sub, ofInt_toInt]

/-- The most negative word is its own negative. -/
theorem IntSize.ofInt_neg_intMin (h : IntSize w) :
    BitVec.ofInt w (-intMin w) = BitVec.ofInt w (intMin w) := by
  have hdouble := h.double_int
  have hneg : -intMin w = intMin w + ((2 ^ w : ℕ) : ℤ) := by
    unfold intMin
    push_cast
    omega
  apply eq_of_toInt_eq
  rw [hneg, BitVec.toInt_ofInt, BitVec.toInt_ofInt, Int.add_bmod_right]

lemma ineg_eq_neg (h : IntSize w) (a : BitVec w) : Nir.ineg a = -a := by
  unfold Nir.ineg
  split
  · next hmin => rw [← ofInt_toInt (x := a), hmin, ← ofInt_neg, h.ofInt_neg_intMin]
  · rfl

lemma toNat_iabs (a : BitVec w) : (Nir.iabs a).toNat = a.toInt.natAbs := by
  have hcond := toInt_eq_toNat_cond a
  unfold Nir.iabs
  split
  · rw [toNat_neg, mod_eq_of_lt] <;> split at hcond <;> omega
  · split at hcond <;> omega

lemma ilt_zero_eq_zero_iff (a : BitVec w) : Nir.ilt a (BitVec.ofInt w 0) = 0 ↔ ¬ a.toInt < 0 := by
  unfold Nir.ilt
  rw [ofBool_eq_zero_iff]
  simp

lemma ofInt_inj_of_bounds (h : IntSize w) {x y : ℤ} (hx : intMin w ≤ x) (hx' : x < 2 ^ (w - 1))
    (hy : intMin w ≤ y) (hy' : y < 2 ^ (w - 1)) : BitVec.ofInt w x = BitVec.ofInt w y ↔ x = y := by
  constructor
  · intro heq
    have htoInt := congrArg BitVec.toInt heq
    rwa [h.toInt_ofInt hx hx', h.toInt_ofInt hy hy'] at htoInt
  · exact congrArg _

/-- A definition is compared with a constant. -/
theorem ieq_ofInt_eq_zero_iff (h : IntSize w) (a : BitVec w) {y : ℤ} (hy : intMin w ≤ y)
    (hy' : y < 2 ^ (w - 1)) :
    Nir.ieq a (BitVec.ofInt w y) = 0 ↔ a.toInt ≠ y := by
  rw [ieq_eq_zero_iff]
  conv_lhs => rw [← ofInt_toInt (x := a)]
  exact not_congr (ofInt_inj_of_bounds h (intMin_le_toInt a) toInt_lt hy hy')

lemma ieq_intMin_eq_zero_iff (h : IntSize w) (a : BitVec w) :
    Nir.ieq a (BitVec.ofInt w (intMin w)) = 0 ↔ a.toInt ≠ intMin w := by
  have hpos : (0 : ℤ) < 2 ^ (w - 1) := by positivity
  exact ieq_ofInt_eq_zero_iff h a (le_refl _) (by unfold intMin; omega)

/-! ## Division by multiplication -/

lemma toInt_ishrImm (h : IntSize w) (v : ℕ → BitVec N) (x : Def N w) {k : ℕ} (hk : k < w) :
    ((ishrImm x k).eval v).toInt = (x.eval v).toInt / 2 ^ k := by
  unfold ishrImm
  split
  · next hzero => rw [hzero, pow_zero, Int.ediv_one]
  · show (Nir.ishr (x.eval v) (BitVec.ofInt 32 k)).toInt = _
    unfold Nir.ishr
    rw [shiftAmount_ofInt h hk, toInt_sshiftRight, Int.shiftRight_eq_div_pow]
    rfl

/-- The sign bit as a word. -/
theorem eval_ushrImm_sign (h : IntSize w) (v : ℕ → BitVec N) (x : Def N w) :
    (ushrImm x (w - 1)).eval v = BitVec.ofInt w (if (x.eval v).toInt < 0 then 1 else 0) := by
  have hge := h.ge
  have hdouble := h.double
  have hcond := toInt_eq_toNat_cond (x.eval v)
  apply eq_of_toNat_eq
  rw [toNat_ushrImm h v x (by omega)]
  split
  · rw [Nat.div_eq_of_lt_le (k := 1) (by split at hcond <;> omega) (by omega)]
    exact (toNat_ofInt_natCast (k := 1) (Nat.one_lt_two_pow (by omega))).symm
  · rw [div_eq_of_lt (by split at hcond <;> omega)]
    exact (toNat_ofInt_natCast (k := 0) (by omega)).symm

section

variable (h : IntSize w) {m : FastSdivInfo} {d : ℤ} (hm : m.Divides w d) (v : ℕ → BitVec N)
  (n : Def N w)
include h hm

lemma toInt_magicHigh : ((magicHigh m d n).eval v).toInt = m.high w d (n.eval v).toInt := by
  have hn : BitVec.ofInt w (n.eval v).toInt = n.eval v := ofInt_toInt
  have hhigh := hm.high (n.eval v).toInt (intMin_le_toInt _) toInt_lt
  have hmul : (Def.binop .imulHigh n (.imm w m.multiplier)).eval v =
      BitVec.ofInt w ((n.eval v).toInt * m.multiplier / 2 ^ w) := by
    show Nir.imulHigh (n.eval v) (BitVec.ofInt w m.multiplier) = _
    unfold Nir.imulHigh
    rw [h.toInt_ofInt hm.multiplier_ge hm.multiplier_lt]
  have hadd : ((if 0 < d ∧ m.multiplier < 0 then .binop .iadd (.binop .imulHigh n (.imm w m.multiplier)) n
      else .binop .imulHigh n (.imm w m.multiplier) : Def N w).eval v) =
        BitVec.ofInt w ((n.eval v).toInt * m.multiplier / 2 ^ w +
          if 0 < d ∧ m.multiplier < 0 then (n.eval v).toInt else 0) := by
    split
    · show (Def.binop .imulHigh n (.imm w m.multiplier)).eval v + n.eval v = _
      rw [hmul, ofInt_add, hn]
    · rw [hmul, add_zero]
  have hres : (magicHigh m d n).eval v = BitVec.ofInt w (m.high w d (n.eval v).toInt) := by
    unfold magicHigh FastSdivInfo.high
    dsimp only
    split
    · rw [← ofInt_sub, ← hadd, hn]
      rfl
    · rw [hadd, sub_zero]
  rw [hres, h.toInt_ofInt hhigh.1 hhigh.2]

lemma eval_magicIdiv : (magicIdiv m d n).eval v = BitVec.ofInt w ((n.eval v).toInt.tdiv d) := by
  have hquot := hm.quotient (n.eval v).toInt (intMin_le_toInt _) toInt_lt
  unfold FastSdivInfo.quotient at hquot
  have hskip : (if m.shift ≠ 0 then ishrImm (magicHigh m d n) m.shift else magicHigh m d n) =
      ishrImm (magicHigh m d n) m.shift := by
    rw [ishrImm, ite_not]
    split_ifs <;> rfl
  have hshift := toInt_ishrImm h v (magicHigh m d n) hm.shift
  rw [toInt_magicHigh h hm] at hshift
  unfold magicIdiv
  dsimp only
  rw [hskip]
  generalize ishrImm (magicHigh m d n) m.shift = res at hshift
  show res.eval v + (ushrImm res (w - 1)).eval v = _
  rw [eval_ushrImm_sign h, ← ofInt_toInt (x := res.eval v),
    h.toInt_ofInt (intMin_le_toInt _) toInt_lt, ← ofInt_add, hshift, hquot]

end

/-! ## Division -/

lemma inot_eq_zero_iff (a : BitVec 1) : Nir.inot a = 0 ↔ a ≠ 0 := by
  revert a
  decide

lemma eval_idiv_two_pow (h : IntSize w) (v : ℕ → BitVec N) (n : Def N w) {d : ℤ} {k : ℕ}
    (hk : k < w) (habs : d.natAbs = 2 ^ k) :
    (Def.bcsel (if d < 0 then .unop .inot (cmpImm .ilt n 0) else cmpImm .ilt n 0)
      (.unop .ineg (ushrImm (.unop .iabs n) k)) (ushrImm (.unop .iabs n) k)).eval v =
        BitVec.ofInt w ((n.eval v).toInt.tdiv d) := by
  have huq : (ushrImm (.unop .iabs n) k).eval v =
      BitVec.ofInt w (((n.eval v).toInt.natAbs / d.natAbs : ℕ) : ℤ) := by
    apply eq_of_toNat_eq
    have hshift := toNat_ushrImm h v (.unop .iabs n) hk
    have hlt := ((ushrImm (.unop .iabs n) k).eval v).isLt
    rw [show (Def.unop .iabs n).eval v = Nir.iabs (n.eval v) from rfl, toNat_iabs] at hshift
    rw [hshift, habs] at *
    rw [toNat_ofInt_natCast hlt]
  have hcond : (if d < 0 then .unop .inot (cmpImm .ilt n 0)
      else cmpImm .ilt n 0 : Def N 1).eval v = 0 ↔ ((n.eval v).toInt < 0 ↔ d < 0) := by
    have hlt : (cmpImm .ilt n 0).eval v = Nir.ilt (n.eval v) (BitVec.ofInt w 0) := rfl
    split
    · next hd =>
      show Nir.inot ((cmpImm .ilt n 0).eval v) = 0 ↔ _
      rw [inot_eq_zero_iff, hlt, ne_eq, ilt_zero_eq_zero_iff]
      omega
    · next hd =>
      rw [hlt, ilt_zero_eq_zero_iff]
      omega
  show Nir.bcsel _ (Nir.ineg ((ushrImm (.unop .iabs n) k).eval v)) ((ushrImm (.unop .iabs n) k).eval v) = _
  unfold Nir.bcsel
  rw [ineg_eq_neg h, huq, tdiv_eq_natAbs]
  by_cases hsame : (n.eval v).toInt < 0 ↔ d < 0
  · rw [if_pos (hcond.mpr hsame), if_pos hsame]
  · rw [if_neg fun hzero => hsame (hcond.mp hzero), if_neg hsame, ofInt_neg]

/-- The bounds of a divisor other than the most negative one. -/
theorem natAbs_lt_of_bounds {d : ℤ} (hge : intMin w ≤ d) (hlt : d < 2 ^ (w - 1)) (hne : d ≠ intMin w) :
    d.natAbs < 2 ^ (w - 1) := by
  have hcast : ((2 ^ (w - 1) : ℕ) : ℤ) = 2 ^ (w - 1) := by
    rfl
  unfold intMin at hge hne
  omega

/-- Only the most negative dividend has a quotient by the most negative divisor. -/
theorem tdiv_intMin {x : ℤ} (hge : intMin w ≤ x) (hlt : x < 2 ^ (w - 1)) (hne : x ≠ intMin w) :
    x.tdiv (intMin w) = 0 := by
  have hsmall : x.natAbs < (intMin w).natAbs := by
    unfold intMin at hge hne ⊢
    omega
  rw [tdiv_eq_natAbs, div_eq_of_lt hsmall]
  simp

/-- `build_idiv` gives the quotient, wrapped if it is out of range. -/
theorem eval_buildIdiv (h : IntSize w) (n : Def N w) {d : ℤ} (hge : intMin w ≤ d) (hlt : d < 2 ^ (w - 1)) :
    ∃ q, buildIdiv n d = some q ∧ ∀ v, q.eval v = BitVec.ofInt w ((n.eval v).toInt.tdiv d) := by
  have hge8 := h.ge
  unfold buildIdiv
  split
  · next hmin =>
    refine ⟨_, rfl, fun v => ?_⟩
    have hpos : (0 : ℤ) < 2 ^ (w - 1) := by positivity
    have hcond := ieq_intMin_eq_zero_iff h (n.eval v)
    show Nir.b2i w (Nir.ieq (n.eval v) (BitVec.ofInt w (intMin w))) = _
    unfold Nir.b2i
    by_cases heq : (n.eval v).toInt = intMin w
    · rw [if_neg (by rw [hcond]; exact not_not.mpr heq), heq, hmin, Int.tdiv_self (by unfold intMin; omega)]
      rfl
    · rw [if_pos (hcond.mpr heq), hmin, tdiv_intMin (intMin_le_toInt _) toInt_lt heq]
      rfl
  · next hmin =>
    have habs := natAbs_lt_of_bounds hge hlt hmin
    have hle := h.le
    dsimp only
    split
    · next hzero =>
      refine ⟨_, rfl, fun v => ?_⟩
      rw [hzero, Int.tdiv_zero]
      rfl
    · split
      · next hone =>
        refine ⟨_, rfl, fun v => ?_⟩
        rw [hone, Int.tdiv_one, ofInt_toInt]
      · split
        · next hneg =>
          refine ⟨_, rfl, fun v => ?_⟩
          show Nir.ineg (n.eval v) = _
          rw [ineg_eq_neg h, hneg, Int.tdiv_neg, Int.tdiv_one, ofInt_neg, ofInt_toInt]
        · split
          · next hpow =>
            obtain ⟨k, hkw, hk⟩ := exists_two_pow_lt (by omega) habs (by omega) hpow
            refine ⟨_, rfl, fun v => ?_⟩
            rw [hk, utilLogbase264_two_pow]
            exact eval_idiv_two_pow h v n (by omega) hk
          · next hpow =>
            rcases computeFastSdivInfo_divides (show 3 ≤ w by omega) h.le (show 2 ≤ d.natAbs by omega) habs
              with ⟨m, hm, hdiv⟩
            refine ⟨magicIdiv m d n, by rw [hm]; rfl, fun v => eval_magicIdiv h hdiv v n⟩

end

end RadvXclipse.Nir
