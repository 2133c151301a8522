import RadvXclipse.Nir.IdivConstSigned

/-!
# Signed remainders by constants, and the pass

`build_irem` and `build_imod`, and from all builders that `nir_opt_idiv_const` keeps the values.
-/

namespace RadvXclipse.Nir

open Util Lib Option Int
open BitVec hiding sub_eq_add_neg neg_neg

section

variable {N w : ℕ} {v : ℕ → BitVec N}

lemma bcsel_eq_ite {c : BitVec 1} {p : Prop} [Decidable p] (h : c = 0 ↔ ¬ p) (a b : BitVec w) :
    Nir.bcsel c a b = if p then a else b := by
  unfold Nir.bcsel
  simp only [h, ite_not]

/-! ## Masks -/

variable {k : ℕ} {D d : ℤ}

lemma ofInt_and_mask (hk : k ≤ w) (t : ℤ) :
    BitVec.ofInt w t &&& BitVec.ofInt w (2 ^ k - 1) = BitVec.ofInt w (t % 2 ^ k) := by
  have hmask := toNat_and_mask hk (BitVec.ofInt w t)
  push_cast at hmask
  have hnat : ((BitVec.ofInt w t).toNat : ℤ) = t % 2 ^ w := by
    rw [toNat_ofInt]
    exact toNat_of_nonneg (emod_nonneg t (by positivity))
  -- the part of `t` above the word does not matter
  have hmod : (((BitVec.ofInt w t).toNat % 2 ^ k : ℕ) : ℤ) = t % 2 ^ k := by
    push_cast
    rw [hnat, emod_emod_of_dvd t (pow_dvd_pow 2 hk)]
  apply eq_of_toNat_eq
  rw [hmask, ← hmod, toNat_ofInt_natCast ((Nat.mod_le _ _).trans_lt (BitVec.isLt _))]

/-- The negative of a power of two is the complement of a mask. -/
theorem ofInt_neg_two_pow (w k : ℕ) : BitVec.ofInt w (-2 ^ k) = ~~~BitVec.ofInt w (2 ^ k - 1) := by
  rw [not_eq_neg_add, ← ofInt_neg, ← ofInt_ofNat, ofInt_sub]
  congr 1
  ring

/-- Clearing the low bits rounds down. -/
theorem ofInt_and_neg_two_pow (hk : k ≤ w) (t : ℤ) :
    BitVec.ofInt w t &&& BitVec.ofInt w (-2 ^ k) = BitVec.ofInt w (t / 2 ^ k * 2 ^ k) := by
  have hsplit : ∀ a b : BitVec w, (a &&& ~~~b) + (a &&& b) = a := by
    intro a b
    rw [add_eq_or_of_and_eq_zero]
    · ext i hi
      grind
    · ext i hi
      grind
  rw [ofInt_neg_two_pow, BitVec.eq_sub_iff_add_eq.mpr (hsplit _ _),
    ofInt_and_mask hk, ofInt_sub, emod_def, sub_sub_cancel, mul_comm]

/-- Setting the high bits. -/
theorem ofInt_or_neg_two_pow (hk : k ≤ w) (t : ℤ) :
    BitVec.ofInt w t ||| BitVec.ofInt w (-2 ^ k) = BitVec.ofInt w (t % 2 ^ k - 2 ^ k) := by
  have hor : ∀ a b : BitVec w, a ||| ~~~b = (a &&& b) + ~~~b := by
    intro a b
    rw [add_eq_or_of_and_eq_zero]
    · ext i hi
      grind
    · ext i hi
      grind
  rw [ofInt_neg_two_pow, hor, ofInt_and_mask hk, ← ofInt_neg_two_pow, ← ofInt_add, sub_eq_add_neg]

/-! ## Remainders with the sign of the dividend -/

/-- A quotient rounded towards zero is rounded down after an addition. -/
theorem tdiv_eq_ediv_add (hD : 0 < D) (x : ℤ) : x.tdiv D = (if x < 0 then x + (D - 1) else x) / D := by
  split
  · next hx =>
    have hneg : x.tdiv D = -(-x / D) := by
      rw [← Int.tdiv_eq_ediv_of_nonneg (show 0 ≤ -x by omega), Int.neg_tdiv, neg_neg]
    have hr := emod_nonneg (-x) hD.ne'
    have hr' := emod_lt_of_pos (-x) hD
    have hsplit := emod_add_mul_ediv (-x) D
    have hshift : x + (D - 1) = D - 1 - -x % D + D * -(-x / D) := by
      rw [mul_neg]
      omega
    have hzero : (D - 1 - -x % D) / D = 0 := ediv_eq_zero_of_lt (by omega) (by omega)
    rw [hneg, hshift, add_mul_ediv_left _ _ hD.ne', hzero, zero_add]
  · next hx => exact tdiv_eq_ediv_of_nonneg (by omega)

lemma intMin_le_of_nonneg (w : ℕ) {x : ℤ} (hx : 0 ≤ x) : intMin w ≤ x := by
  have hpos : (0 : ℤ) < 2 ^ (w - 1) := by positivity
  unfold intMin
  omega

/-- `build_irem` gives the remainder. -/
theorem eval_buildIrem (h : IntSize w) (lowerBitops : Bool) (n : Def N w) (hge : intMin w ≤ d)
    (hlt : d < 2 ^ (w - 1)) (hne : d ≠ 0) :
    ∃ q, buildIrem lowerBitops n d = some q ∧ ∀ v, q.eval v = BitVec.ofInt w ((n.eval v).toInt.tmod d) := by
  unfold buildIrem
  rw [if_neg hne]
  split
  · next hmin =>
    refine ⟨_, rfl, fun v => ?_⟩
    show Nir.bcsel (Nir.ieq (n.eval v) (BitVec.ofInt w (intMin w))) (BitVec.ofInt w 0) (n.eval v) = _
    rw [bcsel_eq_ite (ieq_intMin_eq_zero_iff h (n.eval v)), hmin]
    split
    · next heq => rw [heq, tmod_self]
    · next heq =>
      rw [tmod_def, tdiv_intMin (intMin_le_toInt _) toInt_lt heq]
      simp
  · next hmin =>
    have habs := natAbs_lt_of_bounds hge hlt hmin
    have hle := h.le
    have hsign : (if d < 0 then -d else d) = (d.natAbs : ℤ) := by
      split <;> omega
    have hmod : ∀ x : ℤ, x.tmod d = x.tmod (d.natAbs : ℤ) := by
      intro x
      rcases natAbs_eq d with hd | hd
      · rw [← hd]
      · conv_lhs => rw [hd, tmod_neg]
    have hDpos : (0 : ℤ) < (d.natAbs : ℤ) := by omega
    dsimp only
    rw [hsign, toNat_natCast]
    split
    · next hpow =>
      obtain ⟨k, hkw, hk⟩ := exists_two_pow_lt (by omega) habs (by omega) hpow
      have hk : (d.natAbs : ℤ) = 2 ^ k := by exact_mod_cast hk
      refine ⟨_, rfl, fun v => ?_⟩
      have htmp : (Def.bcsel (cmpImm .ilt n 0) (iaddImm n ((d.natAbs : ℤ) - 1)) n).eval v =
          BitVec.ofInt w (if (n.eval v).toInt < 0 then (n.eval v).toInt + ((d.natAbs : ℤ) - 1)
            else (n.eval v).toInt) := by
        show Nir.bcsel (Nir.ilt (n.eval v) (BitVec.ofInt w 0))
          ((iaddImm n ((d.natAbs : ℤ) - 1)).eval v) (n.eval v) = _
        rw [bcsel_eq_ite (ilt_zero_eq_zero_iff _), eval_iaddImm, apply_ite (BitVec.ofInt w),
          ofInt_add, ofInt_toInt]
      show n.eval v - (iandImm _ _).eval v = _
      rw [eval_iandImm, htmp, hmod, tmod_def, tdiv_eq_ediv_add hDpos, hk,
        ofInt_and_neg_two_pow (by omega), sub_ofInt, mul_comm]
    · obtain ⟨q, hq, heval⟩ := eval_buildIdiv h n (intMin_le_of_nonneg w hDpos.le) (by exact_mod_cast habs)
      refine ⟨_, by rw [hq]; rfl, fun v => ?_⟩
      show n.eval v - (imulImm lowerBitops q (d.natAbs : ℤ)).eval v = _
      rw [eval_imulImm h, heval, ← ofInt_mul, hmod, tmod_def, sub_ofInt, mul_comm]

/-! ## Remainders with the sign of the divisor -/

/-- The integer that `imod` stands for. -/
def imodInt (x d : ℤ) : ℤ := if x.tmod d = 0 ∨ (0 ≤ x ↔ 0 ≤ d) then x.tmod d else x.tmod d + d

lemma imodInt_of_pos (hd : 0 < d) (x : ℤ) : imodInt x d = x % d := by
  have hlt := emod_lt_of_pos x hd
  simp only [imodInt, tmod_eq_emod, dvd_iff_emod_eq_zero]
  split_ifs <;> omega

lemma imodInt_of_neg (hD : 0 < D) (x : ℤ) : imodInt x (-D) = if x % D = 0 then 0 else x % D - D := by
  rw [imodInt, tmod_neg, tmod_eq_emod]
  split_ifs <;> omega

lemma ior_eq_zero_iff (a b : BitVec 1) : Nir.ior a b = 0 ↔ a = 0 ∧ b = 0 := by
  revert a b
  decide

/-- The most negative divisor. -/
theorem eval_imod_intMin (h : IntSize w) (v : ℕ → BitVec N) (n : Def N w) :
    (Def.bcsel (.binop .ior (.cmp .ult (.imm w (intMin w)) n) (cmpImm .ieq n 0)) n
      (.binop .iadd (.imm w (intMin w)) n)).eval v = BitVec.ofInt w
    (imodInt (n.eval v).toInt (intMin w)) := by
  have hdouble := h.double_int
  have hdouble' := h.double
  have hpos : (0 : ℤ) < 2 ^ (w - 1) := by positivity
  have hneg : intMin w = -2 ^ (w - 1) := rfl
  have hcast : ((2 ^ (w - 1) : ℕ) : ℤ) = 2 ^ (w - 1) := by
    rfl
  have hnge := intMin_le_toInt (n.eval v)
  have hnlt := toInt_lt (x := n.eval v)
  have hcond := toInt_eq_toNat_cond (n.eval v)
  have hmin : (BitVec.ofInt w (intMin w)).toNat = 2 ^ (w - 1) := by
    have htoInt := h.toInt_ofInt (le_refl (intMin w)) (by omega)
    have hcond := toInt_eq_toNat_cond (BitVec.ofInt w (intMin w))
    split at hcond <;> omega
  -- the test is that the dividend is negative but not the most negative one, or zero
  have htest : Nir.ior (Nir.ult (BitVec.ofInt w (intMin w)) (n.eval v))
    (Nir.ieq (n.eval v) (BitVec.ofInt w 0)) = 0 ↔
      ¬ ((n.eval v).toInt ≤ 0 ∧ (n.eval v).toInt ≠ intMin w) := by
    rw [ior_eq_zero_iff, ieq_ofInt_eq_zero_iff h _ (intMin_le_of_nonneg w (le_refl 0)) hpos]
    unfold Nir.ult
    rw [ofBool_eq_zero_iff, hmin, hneg]
    split at hcond <;> omega
  show Nir.bcsel (Nir.ior (Nir.ult (BitVec.ofInt w (intMin w)) (n.eval v)) (Nir.ieq (n.eval v) (BitVec.ofInt w 0)))
    (n.eval v) (BitVec.ofInt w (intMin w) + n.eval v) = _
  have hn : n.eval v = BitVec.ofInt w (n.eval v).toInt := ofInt_toInt.symm
  rw [bcsel_eq_ite htest, hneg, imodInt_of_neg hpos]
  generalize (n.eval v).toInt = x at hn hnge hnlt
  rw [hn, ← ofInt_add, ← apply_ite (BitVec.ofInt w)]
  by_cases hmost : x = -2 ^ (w - 1)
  · -- twice the most negative value wraps to zero
    have hwrap : BitVec.ofInt w (-2 ^ (w - 1) + -2 ^ (w - 1)) = BitVec.ofInt w 0 := by
      rw [show -2 ^ (w - 1) + -2 ^ (w - 1) = -(2 : ℤ) ^ w by omega]
      exact eq_of_toNat_eq (by simp [toNat_ofInt])
    simp [hmost, hwrap]
  · have hmod : x % 2 ^ (w - 1) = if x < 0 then x + 2 ^ (w - 1) else x := by
      split
      · rw [← add_emod_right, emod_eq_of_lt (by omega) (by omega)]
      · exact emod_eq_of_lt (by omega) hnlt
    congr 1
    split_ifs <;> omega

/-- A negative power of two. -/
theorem eval_imod_neg_two_pow (h : IntSize w) (v : ℕ → BitVec N) (n : Def N w) (hk : k < w - 1) :
    (Def.bcsel (.cmp .ieq (.binop .ior n (.imm w (-2 ^ k))) (.imm w (-2 ^ k))) (.imm w 0)
      (.binop .ior n (.imm w (-2 ^ k)))).eval v = BitVec.ofInt w (imodInt (n.eval v).toInt (-2 ^ k)) := by
  have hpos : (0 : ℤ) < 2 ^ k := by positivity
  have hlt : (2 : ℤ) ^ k < 2 ^ (w - 1) := pow_lt_pow_right₀ (by decide) hk
  have hor := ofInt_or_neg_two_pow (show k ≤ w by omega) (n.eval v).toInt
  rw [ofInt_toInt] at hor
  have hcond : Nir.ieq (BitVec.ofInt w ((n.eval v).toInt % 2 ^ k - 2 ^ k))
      (BitVec.ofInt w (-2 ^ k)) = 0 ↔ ¬ (n.eval v).toInt % 2 ^ k = 0 := by
    have hmin : intMin w = -2 ^ (w - 1) := rfl
    rw [ieq_ofInt_eq_zero_iff h _ (by omega) (by omega), h.toInt_ofInt (by omega) (by omega)]
    omega
  show Nir.bcsel (Nir.ieq (n.eval v ||| BitVec.ofInt w (-2 ^ k)) (BitVec.ofInt w (-2 ^ k)))
    (BitVec.ofInt w 0) (n.eval v ||| BitVec.ofInt w (-2 ^ k)) = _
  rw [hor, imodInt_of_neg hpos, bcsel_eq_ite hcond, apply_ite (BitVec.ofInt w)]

/-- The remainder of `build_irem` is moved to the side of the divisor. -/
theorem eval_imod_of_irem (h : IntSize w) (v : ℕ → BitVec N) (n rem : Def N w) (hge : intMin w ≤ d)
    (hlt : d < 2 ^ (w - 1)) (hne : d ≠ 0)
    (hrem : rem.eval v = BitVec.ofInt w ((n.eval v).toInt.tmod d)) :
    (Def.bcsel (.binop .ior (.cmp .ieq rem (.imm w 0))
      (if d < 0 then .cmp .ilt n (.imm w 0) else .cmp .ige n (.imm w 0))) rem
        (iaddImm rem d)).eval v = BitVec.ofInt w (imodInt (n.eval v).toInt d) := by
  have hpos : (0 : ℤ) < 2 ^ (w - 1) := by positivity
  have hcast : ((2 ^ (w - 1) : ℕ) : ℤ) = 2 ^ (w - 1) := by
    rfl
  have hmod : ((n.eval v).toInt.tmod d).natAbs < d.natAbs := by
    rw [natAbs_tmod]
    exact Nat.mod_lt _ (by omega)
  have hmin' : intMin w = -(2 ^ (w - 1)) := rfl
  have hzero : Nir.ieq (rem.eval v) (BitVec.ofInt w 0) = 0 ↔ (n.eval v).toInt.tmod d ≠ 0 := by
    rw [ieq_ofInt_eq_zero_iff h _ (intMin_le_of_nonneg w (le_refl 0)) hpos, hrem,
      h.toInt_ofInt (by omega) (by omega)]
  have hsame : (if d < 0 then .cmp .ilt n (.imm w 0)
      else .cmp .ige n (.imm w 0) : Def N 1).eval v = 0 ↔ ¬ (0 ≤ (n.eval v).toInt ↔ 0 ≤ d) := by
    split
    · show Nir.ilt (n.eval v) (BitVec.ofInt w 0) = 0 ↔ _
      rw [ilt_zero_eq_zero_iff]
      omega
    · show Nir.ige (n.eval v) (BitVec.ofInt w 0) = 0 ↔ _
      unfold Nir.ige
      rw [ofBool_eq_zero_iff, h.toInt_ofInt (intMin_le_of_nonneg w (le_refl 0)) hpos]
      omega
  show Nir.bcsel (Nir.ior (Nir.ieq (rem.eval v) (BitVec.ofInt w 0)) _) (rem.eval v)
    ((iaddImm rem d).eval v) = _
  rw [bcsel_eq_ite ((ior_eq_zero_iff _ _).trans ((and_congr hzero hsame).trans not_or.symm)),
    imodInt, eval_iaddImm, hrem, apply_ite (BitVec.ofInt w), ofInt_add]

/-- `build_imod` gives the remainder. -/
theorem eval_buildImod (h : IntSize w) (lowerBitops : Bool) (n : Def N w) (hge : intMin w ≤ d)
    (hlt : d < 2 ^ (w - 1)) (hne : d ≠ 0) :
    ∃ q, buildImod lowerBitops n d = some q ∧
      ∀ v, q.eval v = BitVec.ofInt w (imodInt (n.eval v).toInt d) := by
  unfold buildImod
  rw [if_neg hne]
  split
  · next hmin =>
    subst hmin
    exact ⟨_, rfl, fun v => eval_imod_intMin h v n⟩
  · next hmin =>
    have habs := natAbs_lt_of_bounds hge hlt hmin
    have hle := h.le
    split
    · next hpow =>
      obtain ⟨k, hkw, hk⟩ := exists_two_pow_lt (n := w - 1) (by omega) (by omega) (by omega) hpow.2
      have hd : d = 2 ^ k := by
        rw [← toNat_of_nonneg hpow.1.le, hk]
        rfl
      refine ⟨_, rfl, fun v => ?_⟩
      rw [imodInt_of_pos hpow.1, eval_iandImm, hd, ← ofInt_and_mask (by omega), ofInt_toInt]
    · split
      · next hpow =>
        obtain ⟨k, hkw, hk⟩ := exists_two_pow_lt (n := w - 1) (by omega) (by omega) (by omega) hpow.2
        have hd : d = -2 ^ k := by
          rw [← neg_neg d, ← toNat_of_nonneg (show 0 ≤ -d by omega), hk]
          rfl
        subst hd
        exact ⟨_, rfl, fun v => eval_imod_neg_two_pow h v n hkw⟩
      · obtain ⟨q, hq, heval⟩ := eval_buildIrem h lowerBitops n hge hlt hne
        exact ⟨_, by rw [hq]; rfl, fun v => eval_imod_of_irem h v n q hge hlt hne (heval v)⟩

end

/-! ## The pass -/

/-- The only sources for which the pass changes the value: the constant evaluation of an overflowing
quotient is zero, and the instructions give the wrapped quotient. -/
def Overflows {w : ℕ} (op : DivOp) (a b : BitVec w) : Prop := op = .idiv ∧ a.toInt = intMin w ∧ b.toInt = -1

section Pass

variable {N : ℕ}

/-- The unsigned divisor, as the pass computes it from the signed one. -/
theorem lowBits_toInt (h : IntSize N) (b : BitVec N) :
    lowBits 64 (if N < 64 then ((b.toInt % 2 ^ N).toNat : ℤ) else b.toInt) = b.toNat := by
  have hle := h.le
  have hnat : (b.toInt % 2 ^ N).toNat = b.toNat := by
    have htoNat := toNat_ofInt (n := N) b.toInt
    rw [ofInt_toInt] at htoNat
    exact htoNat.symm
  split
  · rw [hnat]
    have hpow : 2 ^ N ≤ 2 ^ 64 := Nat.pow_le_pow_right (by omega) hle
    unfold lowBits
    omega
  · have hN : N = 64 := by omega
    subst hN
    exact hnat

/-- An overflowing remainder is zero. -/
theorem tmod_neg_one (x : ℤ) : x.tmod (-1) = 0 := by
  rw [tmod_neg, tmod_one]

lemma ofInt_zero_eq (w : ℕ) : BitVec.ofInt w 0 = 0 := rfl

lemma idiv_eq {a b : BitVec N} (ho : ¬ Overflows .idiv a b) :
    Nir.idiv a b = BitVec.ofInt N (a.toInt.tdiv b.toInt) := by
  unfold Nir.idiv
  split
  · next hundef =>
    rcases hundef with hzero | hover
    · rw [hzero, Int.tdiv_zero, ofInt_zero_eq]
    · exact absurd ⟨rfl, hover⟩ ho
  · rfl

lemma irem_eq {a b : BitVec N} (hb : b.toInt ≠ 0) : Nir.irem a b = BitVec.ofInt N (a.toInt.tmod b.toInt) := by
  unfold Nir.irem
  split
  · next hundef =>
    rcases hundef with hzero | hover
    · exact absurd hzero hb
    · rw [hover.2, tmod_neg_one, ofInt_zero_eq]
  · rfl

lemma imod_eq {a b : BitVec N} (hb : b.toInt ≠ 0) :
    Nir.imod a b = BitVec.ofInt N (imodInt a.toInt b.toInt) := by
  unfold Nir.imod imodInt
  split
  · next hundef =>
    rcases hundef with hzero | hover
    · exact absurd hzero hb
    · rw [hover.2, tmod_neg_one, if_pos (.inl rfl), ofInt_zero_eq]
  · split
    · rfl
    · rfl

/-- The overflowing quotient, wrapped. -/
theorem toInt_overflow (h : IntSize N) : (BitVec.ofInt N ((intMin N).tdiv (-1))).toInt = intMin N := by
  have hpos : (0 : ℤ) < 2 ^ (N - 1) := by positivity
  rw [Int.tdiv_neg, Int.tdiv_one, h.ofInt_neg_intMin, h.toInt_ofInt (le_refl _) (by unfold intMin; omega)]

/-- One component of the new definition. -/
theorem eval_buildComponent (h : IntSize N) (lowerBitops : Bool) (op : DivOp) (n : Def N N) (b : BitVec N) :
    ∃ q, buildComponent lowerBitops op n b.toInt = some q ∧
      ∀ v, (¬ Overflows op (n.eval v) b → q.eval v = op.eval (n.eval v) b) ∧
        (Overflows op (n.eval v) b → (q.eval v).toInt = intMin N) := by
  have hge := intMin_le_toInt b
  have hlt := toInt_lt (x := b)
  have hlow := lowBits_toInt h b
  have hkeeps : ∀ {op' : DivOp} {q : Def N N}, op' ≠ .idiv → (∀ v, q.eval v = op'.eval (n.eval v) b) →
      ∀ v, (¬ Overflows op' (n.eval v) b → q.eval v = op'.eval (n.eval v) b) ∧
        (Overflows op' (n.eval v) b → (q.eval v).toInt = intMin N) :=
    fun hne heval v => ⟨fun _ => heval v, fun ho => absurd ho.1 hne⟩
  unfold buildComponent
  cases op with
  | udiv =>
    simp only [DivOp.isUint, true_and]
    rw [hlow]
    obtain ⟨q, hq, heval⟩ := eval_buildUdiv h n b.isLt
    exact ⟨q, hq, hkeeps (by decide) fun v => eq_of_toNat_eq ((heval v).trans (toNat_udiv _ _).symm)⟩
  | umod =>
    simp only [DivOp.isUint, true_and]
    rw [hlow]
    by_cases hzero : b.toNat = 0
    · exact ⟨.imm N 0, if_pos hzero, hkeeps (by decide) fun v => (if_pos hzero).symm⟩
    · obtain ⟨q, hq, heval⟩ := eval_buildUmod h lowerBitops n b.isLt (pos_of_ne_zero hzero)
      exact ⟨q, hq, hkeeps (by decide) fun v => eq_of_toNat_eq ((heval v).trans (toNat_umod hzero).symm)⟩
  | idiv =>
    obtain ⟨q, hq, heval⟩ := eval_buildIdiv h n hge hlt
    refine ⟨q, hq, fun v => ⟨fun ho => (heval v).trans (idiv_eq ho).symm, fun ho => ?_⟩⟩
    rw [heval, ho.2.1, ho.2.2, toInt_overflow h]
  | irem =>
    by_cases hzero : b.toInt = 0
    · exact ⟨.imm N 0, if_pos hzero, hkeeps (by decide) fun v => (if_pos (.inl hzero)).symm⟩
    · obtain ⟨q, hq, heval⟩ := eval_buildIrem h lowerBitops n hge hlt hzero
      exact ⟨q, hq, hkeeps (by decide) fun v => (heval v).trans (irem_eq hzero).symm⟩
  | imod =>
    by_cases hzero : b.toInt = 0
    · exact ⟨.imm N 0, if_pos hzero, hkeeps (by decide) fun v => (if_pos (.inl hzero)).symm⟩
    · obtain ⟨q, hq, heval⟩ := eval_buildImod h lowerBitops n hge hlt hzero
      exact ⟨q, hq, hkeeps (by decide) fun v => (heval v).trans (imod_eq hzero).symm⟩

/-- For every bit size, divisor, dividend and `min_bit_size` the pass ends, it replaces the
divisions of at least `min_bit_size` bits by a constant, and each component keeps its value, but for
the quotient of the most negative value by minus one. If the pass replaces that, the new value is
the most negative value. -/
theorem optIdivConstInstr_keeps (s : BitSize) (lowerBitops : Bool) (minBitSize : ℕ)
    (alu : AluInstr s.bits) :
    ∃ r, optIdivConstInstr lowerBitops minBitSize alu = some r ∧
      (r ≠ none ↔ minBitSize ≤ s.bits ∧ alu.src1 ≠ none) ∧
      ∀ (v0 v1 : ℕ → BitVec s.bits) (comp : ℕ), comp < alu.numComponents →
        let a := v0 (alu.swizzle0 comp)
        let b := alu.src1.getD v1 (alu.swizzle1 comp)
        (¬ Overflows alu.op a b → newValue alu v0 v1 comp r = some (alu.eval v0 v1 comp)) ∧
        (Overflows alu.op a b → r ≠ none →
          newValue alu v0 v1 comp r = some (BitVec.ofInt s.bits (intMin s.bits))) := by
  have h := s.intSize
  unfold optIdivConstInstr
  split
  · next hsmall =>
    exact ⟨none, rfl, ⟨fun hne => absurd rfl hne, fun hlarge => absurd hsmall (by omega)⟩,
      fun _ _ _ _ => ⟨fun _ => rfl, fun _ hne => absurd rfl hne⟩⟩
  · next hlarge =>
    cases hsrc : alu.src1 with
    | none =>
      exact ⟨none, rfl, ⟨fun hne => absurd rfl hne, fun hconst => absurd rfl hconst.2⟩,
        fun _ _ _ _ => ⟨fun _ => rfl, fun _ hne => absurd rfl hne⟩⟩
    | some c =>
      choose q hq heval using fun comp => eval_buildComponent h lowerBitops alu.op _ _
      have hbuild : (fun comp => buildComponent lowerBitops alu.op (.channel (alu.swizzle0 comp))
          (c (alu.swizzle1 comp)).toInt) = fun comp => pure (q comp) := funext hq
      refine ⟨some ((List.range alu.numComponents).map q), ?_,
        ⟨fun _ => ⟨by omega, some_ne_none c⟩, fun _ => some_ne_none _⟩,
        fun v0 v1 comp hcomp => ?_⟩
      · dsimp only
        rw [hbuild, List.mapM_pure]
        rfl
      have hnew : newValue alu v0 v1 comp (some ((List.range alu.numComponents).map q)) =
          some ((q comp).eval v0) := by
        simp [newValue, hcomp]
      rw [hnew]
      refine ⟨fun ho => ?_, fun ho _ => ?_⟩
      · rw [(heval comp v0).1 ho]
        unfold AluInstr.eval
        rw [hsrc]
        rfl
      · rw [← (heval comp v0).2 ho, ofInt_toInt]

/-- A vector of two divisions of 16 bits. -/
theorem optIdivConstInstr_keeps_vec2 :
    let alu : AluInstr BitSize.s16.bits := ⟨.idiv, 2, id, some fun i => if i = 0 then 7 else -6, id⟩
    let v : ℕ → BitVec BitSize.s16.bits := fun i => if i = 0 then -100 else 1000
    ∃ r, optIdivConstInstr false 8 alu = some r ∧ r ≠ none ∧ newValue alu v v 0 r = some (-14) ∧
      newValue alu v v 1 r = some (-166) := by
  intro alu v
  obtain ⟨r, hr, hnew, hkeeps⟩ := optIdivConstInstr_keeps .s16 false 8 alu
  have h0 : alu.eval v v 0 = -14 := by decide
  have h1 : alu.eval v v 1 = -166 := by decide
  refine ⟨r, hr, hnew.mpr ⟨by decide, some_ne_none _⟩, ?_, ?_⟩
  · rw [← h0]
    exact (hkeeps v v 0 (by decide)).1 fun ho => absurd ho.2.1 (by decide)
  · rw [← h1]
    exact (hkeeps v v 1 (by decide)).1 fun ho => absurd ho.2.1 (by decide)

/-- The pass replaces a quotient by minus one by a negation; the constant evaluation of the quotient
of the most negative value is zero. -/
theorem idiv_overflow_changes :
    let alu : AluInstr 32 := ⟨.idiv, 1, id, some fun _ => -1, id⟩
    let v : ℕ → BitVec 32 := fun _ => BitVec.ofInt 32 (intMin 32)
    ∃ r, optIdivConstInstr false 0 alu = some r ∧
      newValue alu v v 0 r = some (BitVec.ofInt 32 (intMin 32)) ∧ alu.eval v v 0 = 0 :=
  ⟨some [.unop .ineg (.channel 0)], rfl, by decide, by decide⟩

end Pass

end RadvXclipse.Nir
