import RadvXclipse.Nir.RangeAlu

/-!
# How large the bounds are, and where the rules are right

The bound of a result has no more bits than those of the sources. `aluOk_iff` says that `AluOk`
cannot be weakened.
-/

namespace RadvXclipse.Nir

open Lib Util Nat

section Rules

variable {op : AluOp} {w : ℕ} {size : ℕ → ℕ} {c : ℕ → Option ℕ} {x src : ℕ → ℕ}

/-! ## Sizes of the bounds -/

lemma bitsLe_bitmask_of_le {a n : ℕ} (hn : n ≤ 32) (h : a ≤ bitmask n) : BitsLe a (bitmask n) := by
  have hpos := Nat.two_pow_pos n
  rw [bitmask_of_le hn] at h ⊢
  exact bitsLe_mask (by omega)

section Fits

variable {n : ℕ}

section

variable (h : AluSources op w size c src)
include h

/-- The operands of bitwise rules stay in the mask that the bounds of the sources are in. -/
theorem AluSources.bits_fit (hn : n ≤ 32) (hsrc : ∀ i, size i = w → src i ≤ bitmask n) {i : ℕ}
    (hi : size i = w) :
    BitsLe (lastBitMask (src i)) (bitmask n) ∧ ∀ k, c i = some k → BitsLe k (bitmask n) := by
  refine ⟨bitsLe_bitmask hn (hsrc i hi), fun k hc => ?_⟩
  rw [← h.src_const i k hc]
  exact bitsLe_bitmask_of_le hn (hsrc i hi)

/-- If the bounds of the sources have no more than `n` bits, where `n` is at least the bit size,
then the bound of the result does not either. -/
theorem AluSources.getAluUub_le (hn : n ≤ 32) (hw : w ≤ n)
    (hsrc : ∀ i, size i = w → src i ≤ bitmask n) : getAluUub op w c src ≤ bitmask n := by
  have hmax : bitmask w ≤ bitmask n := bitmask_mono hw
  have hbits := fun {i} => h.bits_fit (i := i) hn hsrc
  have hselect : ∀ {u v : ℕ}, u ≤ bitmask n → v ≤ bitmask n → (if u > v then u else v) ≤ bitmask n := by
    intro u v hu hv
    split <;> assumption
  have hfull : w = 32 → bitmask n = 2 ^ 32 - 1 := by
    intro h32
    rw [show n = 32 by omega]
    rfl
  have hstore : ∀ a, w = 32 → a % 2 ^ 32 ≤ bitmask n := by
    intro a h32
    omega
  have hconst : ∀ k m, (if k ≠ 0 then min (min m (bitmask w)) (bitmask w / k * k) else 0) ≤ bitmask n := by
    intro k m
    split
    · exact (min_le_left _ _).trans ((min_le_right _ _).trans hmax)
    · exact zero_le _
  have hext : ∀ p : Prop, [Decidable p] → ∀ m, src 0 ≤ bitmask n →
      (if p then bitmask w else min (src 0) m) ≤ bitmask n := by
    intro p _ m h0
    split
    · exact hmax
    · exact (min_le_left _ _).trans h0
  cases op with
  | umin =>
    have h0 := hsrc 0 h.typed.2.1
    have h1 := hsrc 1 h.typed.2.2
    simp only [getAluUub]
    split <;> assumption
  | imin | imax | umax => exact hselect (hsrc 0 h.typed.2.1) (hsrc 1 h.typed.2.2)
  | iand =>
    have h0 := hbits h.typed.2.1
    have h1 := hbits h.typed.2.2
    simp only [getAluUub]
    split
    · exact ((BitsLe.and_left _ _).trans h1.1).le
    · exact ((BitsLe.and_left _ _).trans h0.1).le
    · exact ((BitsLe.and_left _ _).trans h0.1).le
  | ior | ixor =>
    have h0 := hbits h.typed.2.1
    have h1 := hbits h.typed.2.2
    simp only [getAluUub]
    split
    case h_1 k hc => exact (h1.1.or_le (h0.2 k hc)).le
    case h_2 k _ hc => exact (h0.1.or_le (h1.2 k hc)).le
    case h_3 => exact (h0.1.or_le h1.1).le
  | ishl =>
    simp only [getAluUub]
    split
    · exact (min_le_left _ _).trans ((min_le_right _ _).trans hmax)
    · exact (min_le_right _ _).trans hmax
  | imul =>
    simp only [getAluUub]
    split
    · exact hconst _ _
    · exact hconst _ _
    · exact (min_le_right _ _).trans hmax
  | ushr =>
    have h0 := hsrc 0 h.typed.2.2.1
    simp only [getAluUub]
    split
    · exact (shiftRight_le _ _).trans h0
    · exact h0
  | ishr =>
    have h0 := hsrc 0 h.typed.2.2.1
    simp only [getAluUub]
    split
    · split
      · exact (shiftRight_le _ _).trans h0
      · exact h0
    · exact h0
  | iadd | u2u => exact (min_le_right _ _).trans hmax
  | umod =>
    have h1 := hsrc 1 h.typed.2.2.2
    simp only [getAluUub]
    split <;> omega
  | udiv =>
    have h0 := hsrc 0 h.typed.2.2.1
    simp only [getAluUub]
    split
    · split
      · exact (Nat.div_le_self _ _).trans h0
      · exact zero_le _
    · exact h0
  | bcsel | b32csel => exact hselect (hsrc 1 h.typed.2.2.1) (hsrc 2 h.typed.2.2.2)
  | ubfe => exact (bitmask_mono (min_le_right _ _)).trans hmax
  | bfi =>
    have h32 := h.typed.1
    have h0 := hbits (h.typed.2.1.trans h32.symm)
    have h2 := hbits (h.typed.2.2.2.trans h32.symm)
    simp only [getAluUub]
    split
    · split
      · exact h2.1.le
      · exact hstore _ h32
    · exact (h0.1.or_le h2.1).le
  | bfm =>
    simp only [getAluUub]
    split
    · exact hstore _ h.typed.1
    · exact bitmask_mono (by have := h.typed.1; omega)
  | bitfieldSelect =>
    have h0 := hbits h.typed.2.1
    have h1 := hbits h.typed.2.2.1
    have h2 := hbits h.typed.2.2.2
    simp only [getAluUub]
    split
    · exact (mod_le _ _).trans
        (((BitsLe.and_right _ _).trans h1.1).or_le ((BitsLe.and_right _ _).trans h2.1)).le
    · exact (((BitsLe.and_left _ _).trans h0.1).or_le h2.1).le
  | msad4x8 =>
    rw [hfull h.typed.1]
    exact min_le_right _ _
  | extractU8 | extractU16 => exact (min_le_left _ _).trans (hsrc 0 h.typed.2.2.1)
  | extractI8 | extractI16 => exact hext _ _ (hsrc 0 h.typed.2.2.1)
  | b2i =>
    have hpos := h.typed.1.pos
    exact (show 1 ≤ bitmask 1 by decide).trans (bitmask_mono (by omega))
  | bitCount =>
    have hlast := utilLastBit64_le (h.src_lt 0)
    rw [hfull h.typed.1]
    simp only [getAluUub]
    omega

lemma AluSources.getAluUub_lt (hw : w ≤ 32) : getAluUub op w c src < 2 ^ 32 := by
  have hle := h.getAluUub_le (n := 32) le_rfl hw fun i _ => le_sub_one_of_lt (h.src_lt i)
  exact lt_of_le_of_lt hle (bitmask_lt 32)

end

end Fits

/-! ## Where the rules are right -/

/-- A negative value grows unless all its bits are set. -/
theorem lt_toNat_sshiftRight {a k : ℕ} (ha : 2 ^ (w - 1) ≤ a) (hlt : a < 2 ^ w - 1) (hk : k ≠ 0) :
    a < ((BitVec.ofNat w a).sshiftRight k).toNat := by
  have hpow : 2 ^ 1 ≤ 2 ^ k := Nat.pow_le_pow_right (by omega) (by omega)
  have hdiv : (2 ^ w - 1 - a) / 2 ^ k < 2 ^ w - 1 - a := Nat.div_lt_self (by omega) (by omega)
  rw [toNat_sshiftRight_ofNat (by omega), if_neg (by omega), shiftRight_eq_div_pow]
  omega

lemma AluCall.ishrOk_of_le (h : AluCall .ishr w size c x x)
    (hle : AluOp.ishr.eval w (size 0) x ≤ getAluUub .ishr w c x) : IshrOk w c x := by
  obtain ⟨hw, _, h0, _⟩ := h.typed
  have hx0 : x 0 < 2 ^ w := h0 ▸ h.value_lt 0
  have hdouble := Nat.two_pow_pred_mul_two hw.pos
  unfold IshrOk
  by_contra hbad
  push Not at hbad
  obtain ⟨hk, hneg, hones⟩ := hbad
  rw [h.ishr_eval] at hle
  by_cases hall : x 0 = 2 ^ w - 1
  · -- only a logical shift by a constant is too small
    obtain ⟨h32, hc⟩ := hones hall
    obtain ⟨k, hc⟩ := Option.ne_none_iff_exists'.mp hc
    have hlow : w ≤ 16 := by
      rcases hw with rfl | rfl | rfl | rfl <;> omega
    have hpow : 2 ^ w ≤ 2 ^ 16 := Nat.pow_le_pow_right (by omega) hlow
    have hhalf : x 0 >>> (x 1 &&& (w - 1)) ≤ x 0 / 2 := by
      rw [shiftRight_eq_div_pow]
      exact div_le_div_left
        (Nat.pow_le_pow_right (show 0 < 2 by omega) (one_le_iff_ne_zero.mpr hk)) (by omega)
    have hzero : 2 ^ w - 1 - x 0 = 0 := by omega
    simp only [getAluUub, hc] at hle
    rw [toNat_sshiftRight_ofNat hx0, if_neg (by omega), hzero, zero_shiftRight, if_pos (by omega),
      ← (h.const 1 k hc)] at hle
    omega
  · have hgrow := lt_toNat_sshiftRight hneg (by omega) hk
    have hsrc : getAluUub .ishr w c x ≤ x 0 := by
      simp only [getAluUub]
      split
      · split
        · exact shiftRight_le _ _
        · exact le_rfl
      · exact le_rfl
    omega

/-- `AluOk` is exactly what the values have to satisfy: without it the bound is already wrong if the
bounds of the sources are their values. -/
theorem aluOk_iff (htyped : op.Typed w size) (hsize : ∀ i, size i ≤ 32) (hx : ∀ i, x i < 2 ^ size i)
    (hc : ∀ i k, c i = some k → x i = k) :
    AluOk op w c x ↔ ∀ src, AluCall op w size c x src → op.eval w (size 0) x ≤ getAluUub op w c src := by
  have hself : AluCall op w size c x x :=
    ⟨⟨htyped, hsize, fun i => lt_two_pow_32 (hsize i) (hx i), hc⟩, hx, fun _ => le_rfl, hc⟩
  constructor
  · intro hok src h
    exact h.eval_le hok
  · intro h
    cases op with
    | ishr => exact hself.ishrOk_of_le (h x hself)
    | imul => exact hself.imul_le_iff.mp (h x hself)
    | _ => trivial

end Rules

end RadvXclipse.Nir
