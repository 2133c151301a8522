import RadvXclipse.Lib.BitSubset
import RadvXclipse.Nir.RangeAnalysis

/-!
# The rules of ALU instructions

Each rule of `get_alu_uub` is compared with the opcode: if the bounds of the sources hold, so does
the bound of the result. Two rules need more. The rule of `ishr` forgets that negative values grow,
and that of `imul` with a constant forgets that products wrap. `AluOk` is what the values have to
satisfy there.
-/

namespace RadvXclipse.Nir

open Lib Util Option Nat AluOp
open BitVec hiding shiftLeft_eq shiftLeft_zero shiftLeft_add

/-! ## Masks -/

section Masks

variable {a u n : ℕ}

lemma bitmask_lt (n : ℕ) : bitmask n < 2 ^ 32 := by
  unfold bitmask uint32Max
  by_cases h : n ≥ 32
  · rw [if_pos h]
    omega
  · rw [if_neg h]
    have hpow : 2 ^ n ≤ 2 ^ 32 := Nat.pow_le_pow_right (by omega) (by omega)
    omega

lemma bitmask_of_le (h : n ≤ 32) : bitmask n = 2 ^ n - 1 := by
  unfold bitmask uint32Max
  by_cases hn : n ≥ 32
  · rw [if_pos hn, le_antisymm h hn]
  · rw [if_neg hn]

lemma mod_le_bitmask (h : n ≤ 32) (a : ℕ) : a % 2 ^ n ≤ bitmask n := by
  rw [bitmask_of_le h]
  exact le_sub_one_of_lt (mod_lt a (Nat.two_pow_pos n))

lemma bitmask_mono {m : ℕ} (h : m ≤ n) : bitmask m ≤ bitmask n := by
  by_cases hn : n ≤ 32
  · have hpow : 2 ^ m ≤ 2 ^ n := Nat.pow_le_pow_right (by omega) h
    rw [bitmask_of_le hn, bitmask_of_le (h.trans hn)]
    omega
  · have hlt := bitmask_lt m
    have hmax : bitmask n = 2 ^ 32 - 1 := if_pos (by omega)
    omega

lemma lt_utilLastBit64 (u : ℕ) : u < 2 ^ utilLastBit64 u := by
  unfold utilLastBit64
  by_cases h : u = 0
  · rw [if_pos h, h]
    decide
  · rw [if_neg h]
    exact lt_pow_succ_log_self (by omega) u

lemma utilLastBit64_le (h : u < 2 ^ n) : utilLastBit64 u ≤ n := by
  unfold utilLastBit64
  by_cases hu : u = 0
  · rw [if_pos hu]
    exact zero_le n
  · rw [if_neg hu]
    exact log_lt_of_lt_pow hu h

/-- The bits of a number are in the mask of its bound. -/
theorem bitsLe_lastBitMask (h : a ≤ u) (hu : u < 2 ^ 32) : BitsLe a (lastBitMask u) := by
  unfold lastBitMask
  rw [bitmask_of_le (utilLastBit64_le hu)]
  exact bitsLe_mask (lt_of_le_of_lt h (lt_utilLastBit64 u))

/-- A mask does not have more bits than the bound of the number it is made of. -/
theorem bitsLe_bitmask (hn : n ≤ 32) (h : u ≤ bitmask n) : BitsLe (lastBitMask u) (bitmask n) := by
  have hpos := Nat.two_pow_pos n
  have hmask := bitmask_of_le hn
  have hlast : lastBitMask u ≤ bitmask n := bitmask_mono (utilLastBit64_le (by omega))
  rw [hmask] at hlast ⊢
  exact bitsLe_mask (by omega)

end Masks

/-! ## Calls of the rules -/

/-- The arguments of `get_alu_uub`: the bound of a constant is its value. -/
structure AluSources (op : AluOp) (w : ℕ) (size : ℕ → ℕ) (c : ℕ → Option ℕ) (src : ℕ → ℕ) : Prop where
  typed : op.Typed w size
  size_le : ∀ i, size i ≤ 32
  src_lt : ∀ i, src i < 2 ^ 32
  src_const : ∀ i k, c i = some k → src i = k

/-- A call of `get_alu_uub` for an instruction with the sources `x`: the bounds of the sources
hold. -/
structure AluCall (op : AluOp) (w : ℕ) (size : ℕ → ℕ) (c : ℕ → Option ℕ) (x src : ℕ → ℕ) : Prop
    extends AluSources op w size c src where
  value_lt : ∀ i, x i < 2 ^ size i
  le : ∀ i, x i ≤ src i
  const : ∀ i k, c i = some k → x i = k

/-- What the rule of `ishr` needs: the shifted value is not negative, or it does not change. -/
def IshrOk (w : ℕ) (c : ℕ → Option ℕ) (x : ℕ → ℕ) : Prop :=
  x 1 &&& (w - 1) = 0 ∨ x 0 < 2 ^ (w - 1) ∨ (x 0 = 2 ^ w - 1 ∧ (w = 32 ∨ c 1 = none))

/-- What the rule of `imul` needs: the wrapped product with a constant is at most some multiple of
the constant that does not wrap. -/
def ImulOk (w : ℕ) (c : ℕ → Option ℕ) (x : ℕ → ℕ) : Prop :=
  ∀ k, (c 0).or (c 1) = some k → ∃ m, k * m < 2 ^ w ∧ x 0 * x 1 % 2 ^ w ≤ k * m

/-- What the rule of an opcode needs of the sources. -/
def AluOk (op : AluOp) (w : ℕ) (c : ℕ → Option ℕ) (x : ℕ → ℕ) : Prop :=
  match op with
  | .ishr => IshrOk w c x
  | .imul => ImulOk w c x
  | _ => True

lemma HasBound.le {w : ℕ} (h : HasBound w) : w ≤ 32 := by
  unfold HasBound at h
  omega

lemma HasBound.pos {w : ℕ} (h : HasBound w) : 0 < w := by
  unfold HasBound at h
  omega

lemma lt_two_pow_32 {w k : ℕ} (hw : w ≤ 32) (h : k < 2 ^ w) : k < 2 ^ 32 :=
  lt_of_lt_of_le h (Nat.pow_le_pow_right (by omega) hw)

section Rules

variable {op : AluOp} {w : ℕ} {size : ℕ → ℕ} {c : ℕ → Option ℕ} {x src : ℕ → ℕ}

variable {i n a b r d k : ℕ}

/-- A source as a word. -/
theorem AluCall.toNat_src (h : AluCall op w size c x src) (hsize : size i = n) :
    (BitVec.ofNat n (x i)).toNat = x i := by
  have hlt := h.value_lt i
  rw [hsize] at hlt
  rw [toNat_ofNat, mod_eq_of_lt hlt]

theorem AluCall.bits (h : AluCall op w size c x src) (i : ℕ) : BitsLe (x i) (lastBitMask (src i)) :=
  bitsLe_lastBitMask (h.le i) (h.src_lt i)

/-! ### Minima, maxima and selections -/

lemma AluCall.umin_le (h : AluCall .umin w size c x src) :
    AluOp.umin.eval w (size 0) x ≤ getAluUub .umin w c src := by
  have h0 := h.le 0
  have h1 := h.le 1
  simp only [eval, getAluUub, umin]
  rw [h.toNat_src h.typed.2.1, h.toNat_src h.typed.2.2]
  split
  · rw [h.toNat_src h.typed.2.1]
    split <;> omega
  · rw [h.toNat_src h.typed.2.2]
    split <;> omega

/-- A selection is one of the two sources. -/
theorem AluCall.selection_le (h : AluCall op w size c x src) {j : ℕ} (hi : size i = w)
    (hj : size j = w) {v : BitVec w} (hv : v = BitVec.ofNat w (x i) ∨ v = BitVec.ofNat w (x j)) :
    v.toNat ≤ if src i > src j then src i else src j := by
  have hxi := h.le i
  have hxj := h.le j
  rcases hv with rfl | rfl
  · rw [h.toNat_src hi]
    split <;> omega
  · rw [h.toNat_src hj]
    split <;> omega

/-! ### Bitwise opcodes -/

lemma AluCall.iand_le (h : AluCall .iand w size c x src) :
    AluOp.iand.eval w (size 0) x ≤ getAluUub .iand w c src := by
  have h0 := h.bits 0
  have h1 := h.bits 1
  simp only [eval, getAluUub, Nir.iand, toNat_and]
  rw [h.toNat_src h.typed.2.1, h.toNat_src h.typed.2.2]
  split
  case h_1 k hc =>
    rw [Nat.and_comm, (h.const 0 k hc)]
    exact (h1.and (.refl k)).le
  case h_2 k _ hc =>
    rw [(h.const 1 k hc)]
    exact (h0.and (.refl k)).le
  case h_3 => exact (h0.and h1).le

/-- The bound that `ior` and `ixor` share. -/
theorem AluCall.bitsLe_or (h : AluCall op w size c x src)
    (hr : ∀ a b, BitsLe (x 0) a → BitsLe (x 1) b → BitsLe r (a ||| b)) :
    r ≤ match c 0, c 1 with
      | some k, _ => lastBitMask (src 1) ||| k
      | none, some k => lastBitMask (src 0) ||| k
      | none, none => lastBitMask (src 0) ||| lastBitMask (src 1) := by
  have h0 := h.bits 0
  have h1 := h.bits 1
  split
  case h_1 k hc =>
    rw [Nat.or_comm]
    apply (hr k _ _ h1).le
    rw [(h.const 0 k hc)]
    exact .refl k
  case h_2 k _ hc =>
    apply (hr _ k h0 _).le
    rw [(h.const 1 k hc)]
    exact .refl k
  case h_3 => exact (hr _ _ h0 h1).le

lemma AluCall.ior_le (h : AluCall .ior w size c x src) :
    AluOp.ior.eval w (size 0) x ≤ getAluUub .ior w c src := by
  simp only [eval, getAluUub, Nir.ior, toNat_or]
  rw [h.toNat_src h.typed.2.1, h.toNat_src h.typed.2.2]
  exact h.bitsLe_or fun a b ha hb => ha.or hb

lemma AluCall.ixor_le (h : AluCall .ixor w size c x src) :
    AluOp.ixor.eval w (size 0) x ≤ getAluUub .ixor w c src := by
  simp only [eval, getAluUub, Nir.ixor, toNat_xor]
  rw [h.toNat_src h.typed.2.1, h.toNat_src h.typed.2.2]
  exact h.bitsLe_or fun a b ha hb => ha.xor hb

lemma AluCall.bitfieldSelect_le (h : AluCall .bitfieldSelect w size c x src) :
    AluOp.bitfieldSelect.eval w (size 0) x ≤ getAluUub .bitfieldSelect w c src := by
  obtain ⟨hw, h0, h1, h2⟩ := h.typed
  have hx0 : x 0 < 2 ^ w := h0 ▸ h.value_lt 0
  have hlt := lt_two_pow_32 hw.le
    (bitfieldSelect (BitVec.ofNat w (x 0)) (BitVec.ofNat w (x 1)) (BitVec.ofNat w (x 2))).isLt
  simp only [eval, getAluUub]
  have heval : (bitfieldSelect (BitVec.ofNat w (x 0)) (BitVec.ofNat w (x 1)) (BitVec.ofNat w (x 2))).toNat =
      x 0 &&& x 1 ||| 2 ^ w - 1 - x 0 &&& x 2 := by
    unfold bitfieldSelect
    rw [toNat_or, toNat_and, toNat_and, toNat_not, h.toNat_src h0, h.toNat_src h1, h.toNat_src h2]
  rw [heval] at hlt ⊢
  split
  case h_1 k hc =>
    have hk := (h.const 0 k hc)
    rw [← hk]
    refine BitsLe.le_mod ?_ hlt
    exact ((BitsLe.refl _).and (h.bits 1)).or ((bitsLe_not hx0 (by have := hw.le; omega)).and (h.bits 2))
  case h_2 =>
    exact (((h.bits 0).and (h.bits 1)).or ((BitsLe.and_right _ _).trans (h.bits 2))).le

/-! ### Shifts -/

lemma shiftAmount_ofNat (hn : n < 2 ^ 32) : shiftAmount w (BitVec.ofNat 32 n) = n &&& (w - 1) := by
  unfold shiftAmount
  rw [toNat_ofNat, mod_eq_of_lt hn]

/-- Multiples of `d` up to `m`. -/
theorem le_div_mul_of_dvd {m : ℕ} (hd : d ∣ r) (hr : r ≤ m) : r ≤ m / d * d := by
  calc r = r / d * d := (Nat.div_mul_cancel hd).symm
    _ ≤ m / d * d := Nat.mul_le_mul_right d (Nat.div_le_div_right hr)

lemma AluCall.ishl_le (h : AluCall .ishl w size c x src) :
    AluOp.ishl.eval w (size 0) x ≤ getAluUub .ishl w c src := by
  obtain ⟨hw, _, h0, h1⟩ := h.typed
  have hle := hw.le
  have hx1 : x 1 < 2 ^ 32 := h1 ▸ h.value_lt 1
  have heval : AluOp.ishl.eval w (size 0) x = x 0 * 2 ^ (x 1 &&& (w - 1)) % 2 ^ w := by
    simp only [eval, Nir.ishl]
    rw [shiftAmount_ofNat hx1, toNat_shiftLeft, h.toNat_src h0, shiftLeft_eq]
  rw [heval]
  have hmax := mod_le_bitmask hle (x 0 * 2 ^ (x 1 &&& (w - 1)))
  have hshift : x 1 &&& (w - 1) ≤ min (src 1) (w - 1) := le_min (and_le_left.trans (h.le 1)) and_le_right
  -- without overflow the bound is the shifted bound
  have hfirst : x 0 * 2 ^ (x 1 &&& (w - 1)) % 2 ^ w ≤
      min (if utilLastBit64 (src 0) + min (src 1) (w - 1) ≤ w then src 0 * 2 ^ min (src 1) (w - 1) % 2 ^ 32
        else bitmask w) (bitmask w) := by
    apply le_min _ hmax
    split
    · rename_i hlast
      have hlt : src 0 * 2 ^ min (src 1) (w - 1) < 2 ^ 32 :=
        calc src 0 * 2 ^ min (src 1) (w - 1)
            < 2 ^ utilLastBit64 (src 0) * 2 ^ min (src 1) (w - 1) :=
              Nat.mul_lt_mul_of_pos_right (lt_utilLastBit64 _) (Nat.two_pow_pos _)
          _ = 2 ^ (utilLastBit64 (src 0) + min (src 1) (w - 1)) := (pow_add 2 _ _).symm
          _ ≤ 2 ^ 32 := Nat.pow_le_pow_right (by omega) (by omega)
      rw [mod_eq_of_lt hlt]
      exact (mod_le _ _).trans (Nat.mul_le_mul (h.le 0) (Nat.pow_le_pow_right (by omega) hshift))
    · exact hmax
  simp only [getAluUub]
  split
  case h_1 k hc =>
    apply le_min hfirst
    rw [← (h.const 1 k hc)]
    apply le_div_mul_of_dvd _ hmax
    have hlt : x 1 &&& (w - 1) ≤ w := by omega
    exact (dvd_mod_iff (pow_dvd_pow 2 hlt)).mpr (dvd_mul_left _ _)
  case h_2 => exact hfirst

lemma shiftRight_le_shiftRight (h : a ≤ b) (k : ℕ) : a >>> k ≤ b >>> k := by
  rw [shiftRight_eq_div_pow, shiftRight_eq_div_pow]
  exact Nat.div_le_div_right h

lemma AluCall.ushr_le (h : AluCall .ushr w size c x src) :
    AluOp.ushr.eval w (size 0) x ≤ getAluUub .ushr w c src := by
  obtain ⟨_, _, h0, h1⟩ := h.typed
  have hx1 : x 1 < 2 ^ 32 := h1 ▸ h.value_lt 1
  simp only [eval, Nir.ushr, getAluUub]
  rw [shiftAmount_ofNat hx1, toNat_ushiftRight, h.toNat_src h0]
  split
  case h_1 k hc =>
    rw [(h.const 1 k hc)]
    exact shiftRight_le_shiftRight (h.le 0) _
  case h_2 => exact (shiftRight_le _ _).trans (h.le 0)

/-- The sign fills the top bits. -/
theorem toNat_sshiftRight_ofNat (ha : a < 2 ^ w) :
    ((BitVec.ofNat w a).sshiftRight k).toNat =
      if a < 2 ^ (w - 1) then a >>> k else 2 ^ w - 1 - (2 ^ w - 1 - a) >>> k := by
  rw [toNat_sshiftRight, msb_eq_decide, toNat_ofNat, mod_eq_of_lt ha, ← ite_not]
  simp only [decide_eq_true_iff, not_le]

section

variable (h : AluCall .ishr w size c x src)
include h

lemma AluCall.ishr_eval :
    AluOp.ishr.eval w (size 0) x = ((BitVec.ofNat w (x 0)).sshiftRight (x 1 &&& (w - 1))).toNat := by
  have hx1 : x 1 < 2 ^ 32 := h.typed.2.2.2 ▸ h.value_lt 1
  simp only [eval, Nir.ishr]
  rw [shiftAmount_ofNat hx1]

/-- The rule is right if the shift is logical. -/
theorem AluCall.ishr_le_of_lt (heval : AluOp.ishr.eval w (size 0) x = x 0 >>> (x 1 &&& (w - 1))) :
    AluOp.ishr.eval w (size 0) x ≤ getAluUub .ishr w c src := by
  have hshift := heval.le.trans (shiftRight_le_shiftRight (h.le 0) _)
  have hsrc := hshift.trans (shiftRight_le _ _)
  simp only [getAluUub]
  split
  case h_1 k hc =>
    rw [← (h.const 1 k hc)]
    split
    · exact hshift
    · exact hsrc
  case h_2 => exact hsrc

lemma AluCall.ishr_le (hok : IshrOk w c x) : AluOp.ishr.eval w (size 0) x ≤ getAluUub .ishr w c src := by
  obtain ⟨hw, _, h0, _⟩ := h.typed
  have hx0 : x 0 < 2 ^ w := h0 ▸ h.value_lt 0
  rcases hok with hzero | hlt | ⟨hones, hrule⟩
  · apply h.ishr_le_of_lt
    rw [h.ishr_eval, hzero, sshiftRight_zero, h.toNat_src h0, shiftRight_zero]
  · apply h.ishr_le_of_lt
    rw [h.ishr_eval, toNat_sshiftRight_ofNat hx0, if_pos hlt]
  · -- all bits are set, before and after the shift
    have heval : AluOp.ishr.eval w (size 0) x ≤ src 0 := by
      have hpow : 2 ^ (w - 1) < 2 ^ w := Nat.pow_lt_pow_right (by omega) (by have := hw.pos; omega)
      have hle := h.le 0
      have hzero : 2 ^ w - 1 - x 0 = 0 := by omega
      rw [h.ishr_eval, toNat_sshiftRight_ofNat hx0, if_neg (by omega), hzero, zero_shiftRight]
      omega
    simp only [getAluUub]
    split
    case h_1 k hc =>
      rcases hrule with rfl | hnone
      · have hle := h.le 0
        rw [if_neg (by omega)]
        exact heval
      · rw [hc] at hnone
        exact absurd hnone (by simp)
    case h_2 => exact heval

end

/-! ### Arithmetic -/

section

variable (h : AluCall .imul w size c x src)
include h

lemma AluCall.imul_eval : AluOp.imul.eval w (size 0) x = x 0 * x 1 % 2 ^ w := by
  simp only [eval, Nir.imul, toNat_mul]
  rw [h.toNat_src h.typed.2.2.1, h.toNat_src h.typed.2.2.2]

/-- The bound before a constant is looked at. -/
theorem AluCall.imul_le_product :
    x 0 * x 1 % 2 ^ w ≤ min (if src 0 = 0 ∨ src 0 * src 1 % 2 ^ 32 / src 0 = src 1 then src 0 * src 1 % 2 ^ 32
      else bitmask w) (bitmask w) := by
  have hmax := mod_le_bitmask h.typed.1.le (x 0 * x 1)
  apply le_min _ hmax
  split
  · rename_i hdiv
    have hproduct : src 0 * src 1 % 2 ^ 32 = src 0 * src 1 := by
      rcases hdiv with hzero | hdiv
      · rw [hzero, Nat.zero_mul]
        rfl
      · apply le_antisymm (mod_le _ _)
        nth_rewrite 1 [← hdiv]
        exact mul_div_le _ _
    rw [hproduct]
    exact (mod_le _ _).trans (Nat.mul_le_mul (h.le 0) (h.le 1))
  · exact hmax

lemma AluCall.imul_le_iff : AluOp.imul.eval w (size 0) x ≤ getAluUub .imul w c src ↔ ImulOk w c x := by
  have hproduct := h.imul_le_product
  have hmax : bitmask w = 2 ^ w - 1 := bitmask_of_le h.typed.1.le
  have hpos := Nat.two_pow_pos w
  -- a constant is zero, or the rule takes the last multiple of it
  have hconst : ∀ k m, (k = 0 → x 0 * x 1 = 0) → x 0 * x 1 % 2 ^ w ≤ m →
      (x 0 * x 1 % 2 ^ w ≤ (if k ≠ 0 then min m (bitmask w / k * k) else 0) ↔
        ∃ n, k * n < 2 ^ w ∧ x 0 * x 1 % 2 ^ w ≤ k * n) := by
    intro k m hzero hm
    by_cases hk : k = 0
    · simp [hk, hzero hk, hpos]
    · rw [if_pos hk, le_min_iff, and_iff_right hm]
      constructor
      · intro hle
        have hlast := div_mul_le_self (bitmask w) k
        rw [mul_comm _ k] at hle hlast
        exact ⟨bitmask w / k, by omega, hle⟩
      · rintro ⟨n, hn, hle⟩
        have hdiv : n ≤ bitmask w / k := by
          rw [Nat.le_div_iff_mul_le (pos_of_ne_zero hk), mul_comm]
          omega
        rw [mul_comm _ k]
        exact hle.trans (Nat.mul_le_mul_left k hdiv)
  rw [h.imul_eval]
  simp only [getAluUub]
  unfold ImulOk
  cases hc0 : c 0 with
  | some k =>
    simp only [some_or, some_inj, forall_eq']
    exact hconst k _ (fun hk => by rw [h.const 0 k hc0, hk, Nat.zero_mul]) hproduct
  | none =>
    cases hc1 : c 1 with
    | some k =>
      simp only [none_or, some_inj, forall_eq']
      exact hconst k _ (fun hk => by rw [h.const 1 k hc1, hk, Nat.mul_zero]) hproduct
    | none => exact iff_of_true hproduct nofun

end

lemma AluCall.iadd_le (h : AluCall .iadd w size c x src) :
    AluOp.iadd.eval w (size 0) x ≤ getAluUub .iadd w c src := by
  have hmax := mod_le_bitmask h.typed.1.le (x 0 + x 1)
  simp only [eval, Nir.iadd, toNat_add, getAluUub]
  rw [h.toNat_src h.typed.2.2.1, h.toNat_src h.typed.2.2.2]
  apply le_min _ hmax
  split
  · rename_i hsum
    have hle := mod_le (x 0 + x 1) (2 ^ w)
    have h0 := h.le 0
    have h1 := h.le 1
    have hs1 := h.src_lt 1
    unfold add32 at hsum ⊢
    omega
  · exact hmax

lemma AluCall.umod_le (h : AluCall .umod w size c x src) :
    AluOp.umod.eval w (size 0) x ≤ getAluUub .umod w c src := by
  have h1 := h.le 1
  simp only [eval, Nir.umod, getAluUub]
  rw [h.toNat_src h.typed.2.2.1, h.toNat_src h.typed.2.2.2]
  by_cases hzero : x 1 = 0
  · rw [if_pos hzero]
    exact zero_le _
  · have hlt := mod_lt (x 0) (pos_of_ne_zero hzero)
    have hle := mod_le (x 0 % x 1) (2 ^ w)
    rw [if_neg hzero, if_pos (by omega), toNat_ofNat]
    omega

lemma AluCall.udiv_le (h : AluCall .udiv w size c x src) :
    AluOp.udiv.eval w (size 0) x ≤ getAluUub .udiv w c src := by
  simp only [eval, Nir.udiv, getAluUub]
  rw [h.toNat_src h.typed.2.2.1, h.toNat_src h.typed.2.2.2]
  by_cases hzero : x 1 = 0
  · rw [if_pos hzero]
    exact zero_le _
  · rw [if_neg hzero, toNat_ofNat]
    apply (mod_le _ _).trans
    split
    case h_1 k hc =>
      have hk := (h.const 1 k hc)
      rw [hk] at hzero
      rw [if_pos hzero, hk]
      exact Nat.div_le_div_right (h.le 0)
    case h_2 => exact (Nat.div_le_self _ _).trans (h.le 0)

lemma absDiffByte_le (ha : a < 2 ^ 8) (hb : b < 2 ^ 8) : absDiffByte a b ≤ 255 := by
  unfold absDiffByte
  split <;> omega

lemma AluCall.msad4x8_le (h : AluCall .msad4x8 w size c x src) :
    AluOp.msad4x8.eval w (size 0) x ≤ getAluUub .msad4x8 w c src := by
  have hbyte : ∀ a b i : ℕ, absDiffByte (a / 2 ^ (i * 8) % 2 ^ 8) (b / 2 ^ (i * 8) % 2 ^ 8) ≤ 255 := by
    intro a b i
    exact absDiffByte_le (mod_lt _ (by decide)) (mod_lt _ (by decide))
  have h2 := h.le 2
  have hmod : ∀ a : ℕ, a % 2 ^ 32 ≤ min a uint32Max := fun a =>
    le_min (mod_le a _) (le_sub_one_of_lt (mod_lt a (by decide)))
  simp only [eval, Nir.msad4x8, getAluUub]
  rw [toNat_ofNat, h.toNat_src h.typed.2.1, h.toNat_src h.typed.2.2.1, h.toNat_src h.typed.2.2.2]
  have hb0 := hbyte (x 0) (x 1) 0
  have hb1 := hbyte (x 0) (x 1) 1
  have hb2 := hbyte (x 0) (x 1) 2
  have hb3 := hbyte (x 0) (x 1) 3
  exact (hmod _).trans (min_le_min_right _ (by omega))

/-! ### Fields -/

lemma toNat_ushiftRight_lt {a : BitVec 32} {bits : ℕ} (h : 32 ≤ bits + k) :
    (a >>> k).toNat < 2 ^ bits := by
  rw [toNat_ushiftRight, shiftRight_eq_div_pow]
  apply Nat.div_lt_of_lt_mul
  calc a.toNat < 2 ^ 32 := a.isLt
    _ ≤ 2 ^ (k + bits) := Nat.pow_le_pow_right (by omega) (by omega)
    _ = 2 ^ k * 2 ^ bits := pow_add 2 k bits

/-- A field has no more bits than its width says. -/
theorem toNat_ubfe_lt (a b d : BitVec 32) : (Nir.ubfe a b d).toNat < 2 ^ (d.toNat % 32) := by
  have hlt := mod_lt d.toNat (show 0 < 32 by decide)
  unfold Nir.ubfe
  by_cases hzero : d.toNat % 32 = 0
  · rw [if_pos hzero]
    exact Nat.two_pow_pos _
  · rw [if_neg hzero]
    by_cases hsum : b.toNat % 32 + d.toNat % 32 < 32
    · rw [if_pos hsum]
      exact toNat_ushiftRight_lt (by omega)
    · rw [if_neg hsum]
      exact toNat_ushiftRight_lt (by omega)

lemma AluCall.ubfe_le (h : AluCall .ubfe w size c x src) :
    AluOp.ubfe.eval w (size 0) x ≤ getAluUub .ubfe w c src := by
  have hw := h.typed.1
  have h2 := h.le 2
  have hlt := toNat_ubfe_lt (BitVec.ofNat 32 (x 0)) (BitVec.ofNat 32 (x 1)) (BitVec.ofNat 32 (x 2))
  rw [h.toNat_src h.typed.2.2.2] at hlt
  have hbits : x 2 % 32 ≤ min (src 2) w := by
    omega
  have hmono := bitmask_mono hbits
  rw [bitmask_of_le (by omega)] at hmono
  simp only [eval, getAluUub]
  omega

lemma AluCall.bfm_le (h : AluCall .bfm w size c x src) :
    AluOp.bfm.eval w (size 0) x ≤ getAluUub .bfm w c src := by
  have h0 := h.le 0
  have h1 := h.le 1
  have hm0 : x 0 % 32 ≤ min (src 0) 31 := by omega
  have hpow : 2 ^ (x 0 % 32) ≤ 2 ^ 31 := Nat.pow_le_pow_right (by omega) (by omega)
  have hpos := Nat.two_pow_pos (x 0 % 32)
  simp only [eval, Nir.bfm, getAluUub]
  rw [toNat_shiftLeft, h.toNat_src h.typed.2.1, h.toNat_src h.typed.2.2, toNat_ofNat,
    mod_eq_of_lt (show 2 ^ (x 0 % 32) - 1 < 2 ^ 32 by omega)]
  split
  case h_1 k hc =>
    have hk : k &&& 0x1f = x 1 % 32 := by
      rw [(h.const 1 k hc)]
      exact and_two_pow_sub_one_eq_mod k 5
    rw [hk, bitmask_of_le (by omega)]
    exact (((bitsLe_two_pow_sub_one hm0).shiftLeft _).mod_two_pow 32).le
  case h_2 =>
    -- the highest bit is below the sum of the two amounts
    have hlt : (2 ^ (x 0 % 32) - 1) <<< (x 1 % 32) < 2 ^ (x 0 % 32 + x 1 % 32) := by
      rw [shiftLeft_eq, pow_add]
      exact Nat.mul_lt_mul_of_pos_right (by omega) (Nat.two_pow_pos _)
    have hmod := mod_le ((2 ^ (x 0 % 32) - 1) <<< (x 1 % 32)) (2 ^ 32)
    by_cases hsum : min (src 0) 31 + min (src 1) 31 ≤ 32
    · have hmono : 2 ^ (x 0 % 32 + x 1 % 32) ≤ 2 ^ (min (src 0) 31 + min (src 1) 31) :=
        Nat.pow_le_pow_right (by omega) (by omega)
      rw [min_eq_left hsum, bitmask_of_le hsum]
      omega
    · rw [min_eq_right (by omega), bitmask_of_le (by omega)]
      omega

/-- The loop of `bfi` shifts by the index of the lowest bit. -/
theorem alignInsert_eq {fuel : ℕ} {tmp : BitVec 32} (insert : BitVec 32) (hi : tmp.getLsbD i = true)
    (hlow : ∀ j < i, tmp.getLsbD j = false) (hfuel : i < fuel) :
    alignInsert fuel tmp insert = insert <<< i := by
  induction fuel generalizing i tmp insert with
  | zero => omega
  | succ fuel ih =>
    unfold alignInsert
    cases i with
    | zero => rw [if_pos hi, BitVec.shiftLeft_zero]
    | succ i =>
      have hbit := hlow 0 (by omega)
      rw [if_neg (by rw [hbit]; decide), ih (insert <<< 1) (i := i)]
      · rw [← BitVec.shiftLeft_add, add_comm]
      · rw [getLsbD_ushiftRight, add_comm]
        exact hi
      · intro j hj
        rw [getLsbD_ushiftRight]
        exact hlow (1 + j) (by omega)
      · omega

lemma exists_lowest_bit (ha : a < 2 ^ n) (hne : a ≠ 0) :
    ∃ i < n, a.testBit i = true ∧ ∀ j < i, a.testBit j = false := by
  have hex : ∃ i, a.testBit i = true := exists_testBit_of_ne_zero hne
  refine ⟨Nat.find hex, ?_, Nat.find_spec hex, fun j hj => ?_⟩
  · by_contra hge
    have hbit := Nat.find_spec hex
    rw [testBit_lt_two_pow (lt_of_lt_of_le ha (Nat.pow_le_pow_right (by omega) (by omega)))] at hbit
    exact absurd hbit (by decide)
  · exact Bool.eq_false_iff.mpr (Nat.find_min hex hj)

/-- `bfi` on numbers. -/
theorem toNat_bfi (ha : a < 2 ^ 32) (hb : b < 2 ^ 32) (hd : d < 2 ^ 32) (hne : a ≠ 0) :
    (Nir.bfi (BitVec.ofNat 32 a) (BitVec.ofNat 32 b) (BitVec.ofNat 32 d)).toNat =
      d &&& (2 ^ 32 - 1 - a) ||| b <<< (ffsll a - 1) % 2 ^ 32 &&& a := by
  obtain ⟨i, hi, hbit, hlow⟩ := exists_lowest_bit ha hne
  have hmask : BitVec.ofNat 32 a ≠ 0 := by
    intro h
    have hz := congrArg BitVec.toNat h
    rw [toNat_ofNat, mod_eq_of_lt ha] at hz
    exact hne hz
  have hget : ∀ j < 32, (BitVec.ofNat 32 a).getLsbD j = a.testBit j := by
    intro j hj
    rw [getLsbD_ofNat, decide_eq_true hj, Bool.true_and]
  unfold Nir.bfi
  rw [if_neg hmask, alignInsert_eq (i := i) _ (by rw [hget i hi]; exact hbit)
      (fun j hj => by rw [hget j (by omega)]; exact hlow j hj) hi, ffsll_eq (by omega) hbit hlow,
    toNat_or, toNat_and, toNat_and, toNat_not, toNat_shiftLeft,
    toNat_ofNat, toNat_ofNat, toNat_ofNat, mod_eq_of_lt ha, mod_eq_of_lt hb,
    mod_eq_of_lt hd, Nat.add_sub_cancel]

lemma AluCall.bfi_le (h : AluCall .bfi w size c x src) :
    AluOp.bfi.eval w (size 0) x ≤ getAluUub .bfi w c src := by
  obtain ⟨_, h0, h1, h2⟩ := h.typed
  have hx0 : x 0 < 2 ^ 32 := h0 ▸ h.value_lt 0
  have hx1 : x 1 < 2 ^ 32 := h1 ▸ h.value_lt 1
  have hx2 : x 2 < 2 ^ 32 := h2 ▸ h.value_lt 2
  simp only [eval, getAluUub]
  by_cases hzero : x 0 = 0
  · -- an empty mask leaves the base
    have hbase : (Nir.bfi (BitVec.ofNat 32 (x 0)) (BitVec.ofNat 32 (x 1)) (BitVec.ofNat 32 (x 2))).toNat = x 2 := by
      rw [hzero]
      exact h.toNat_src h2
    rw [hbase]
    split
    case h_1 k hc =>
      rw [if_pos (by rw [← (h.const 0 k hc), hzero])]
      exact (h.bits 2).le
    case h_2 => exact (h.bits 2).le.trans right_le_or
  · have hlt := (Nir.bfi (BitVec.ofNat 32 (x 0)) (BitVec.ofNat 32 (x 1)) (BitVec.ofNat 32 (x 2))).isLt
    rw [toNat_bfi hx0 hx1 hx2 hzero] at hlt ⊢
    split
    case h_1 k hc =>
      rw [← (h.const 0 k hc), if_neg hzero]
      refine BitsLe.le_mod ?_ hlt
      rw [Nat.or_comm, Nat.and_comm, Nat.and_comm (x 2)]
      have hmod : BitsLe (x 1 <<< (ffsll (x 0) - 1) % 2 ^ 32) (x 1 <<< (ffsll (x 0) - 1)) := by
        intro i hi
        rw [testBit_mod_two_pow, Bool.and_eq_true] at hi
        exact hi.2
      exact ((BitsLe.refl _).and (hmod.trans ((h.bits 1).shiftLeft _))).or
        ((bitsLe_not hx0 (by omega)).and (h.bits 2))
    case h_2 =>
      rw [Nat.or_comm]
      exact (((BitsLe.and_right _ _).trans (h.bits 0)).or ((BitsLe.and_left _ _).trans (h.bits 2))).le

/-! ### Parts of words -/

lemma toNat_extractU_le (k : ℕ) (a b : BitVec w) : (extractU k a b).toNat ≤ min a.toNat (2 ^ k - 1) := by
  unfold extractU
  dsimp only
  split
  · exact zero_le _
  · rw [toNat_ofNat]
    apply (mod_le _ _).trans
    exact le_min ((mod_le _ _).trans (Nat.div_le_self _ _)) (by omega)

lemma toNat_extractI_le (hk : 0 < k) {a : BitVec w} (b : BitVec w) (ha : a.toNat < 2 ^ (k - 1)) :
    (extractI k a b).toNat ≤ a.toNat := by
  unfold extractI
  dsimp only
  split
  · exact zero_le _
  · generalize b.toNat * k % 2 ^ 32 = shift
    have hdiv : a.toNat / 2 ^ shift ≤ a.toNat := Nat.div_le_self _ _
    have hdouble := Nat.two_pow_pred_mul_two hk
    -- the field is not negative
    have hint : (BitVec.ofNat k (a.toNat / 2 ^ shift)).toInt = ((a.toNat / 2 ^ shift : ℕ) : ℤ) := by
      rw [toInt_eq_toNat_cond, toNat_ofNat, mod_eq_of_lt (by omega), if_pos (by omega)]
    rw [hint, ofInt_natCast, toNat_ofNat]
    exact (mod_le _ _).trans hdiv

lemma AluCall.extractU_le (h : AluCall op w size c x src) (k : ℕ) (h0 : size 0 = w) :
    (extractU k (BitVec.ofNat w (x 0)) (BitVec.ofNat w (x 1))).toNat ≤ min (src 0) (2 ^ k - 1) := by
  have hle := toNat_extractU_le k (BitVec.ofNat w (x 0)) (BitVec.ofNat w (x 1))
  rw [h.toNat_src h0] at hle
  exact hle.trans (min_le_min_right _ (h.le 0))

lemma AluCall.extractI_le (h : AluCall op w size c x src) (hk : 0 < k) (h0 : size 0 = w) :
    (extractI k (BitVec.ofNat w (x 0)) (BitVec.ofNat w (x 1))).toNat ≤
      if src 0 ≥ 2 ^ (k - 1) then bitmask w else min (src 0) (2 ^ (k - 1) - 1) := by
  split
  · have hlt := (extractI k (BitVec.ofNat w (x 0)) (BitVec.ofNat w (x 1))).isLt
    rw [bitmask_of_le (h0 ▸ h.size_le 0)]
    omega
  · have hle := h.le 0
    have hval := h.toNat_src h0
    have hext := toNat_extractI_le hk (BitVec.ofNat w (x 1)) (a := BitVec.ofNat w (x 0)) (by omega)
    omega

lemma AluCall.b2i_le (h : AluCall .b2i w size c x src) :
    AluOp.b2i.eval w (size 0) x ≤ getAluUub .b2i w c src := by
  have hpow : 1 < 2 ^ w := Nat.one_lt_two_pow (by have := h.typed.1.pos; omega)
  simp only [eval, Nir.b2i, getAluUub]
  split
  · exact zero_le 1
  · have hone : (1 : BitVec w).toNat = 1 % 2 ^ w := toNat_ofNat 1 w
    rw [hone, mod_eq_of_lt hpow]

/-- Above the highest bit there is nothing to count. -/
theorem countBits_le {L : ℕ} (a : BitVec n) (ha : a.toNat < 2 ^ L) (m : ℕ) :
    countBits a m ≤ min m L := by
  induction m with
  | zero => exact zero_le _
  | succ m ih =>
    unfold countBits
    by_cases hbit : a.getLsbD m = true
    · have hlt : m < L := by
        by_contra hge
        have hpow : 2 ^ L ≤ 2 ^ m := Nat.pow_le_pow_right (by omega) (by omega)
        have hzero : a.toNat.testBit m = false := testBit_lt_two_pow (by omega)
        rw [testBit_toNat, hbit] at hzero
        exact absurd hzero (by decide)
      rw [if_pos hbit]
      omega
    · rw [if_neg hbit]
      omega

lemma AluCall.bitCount_le (h : AluCall .bitCount w size c x src) :
    AluOp.bitCount.eval w (size 0) x ≤ getAluUub .bitCount w c src := by
  simp only [eval, Nir.bitCount, getAluUub, toNat_ofNat]
  apply (mod_le _ _).trans
  apply (countBits_le (L := utilLastBit64 (src 0)) _ _ _).trans (min_le_right _ _)
  rw [h.toNat_src rfl]
  exact lt_of_le_of_lt (h.le 0) (lt_utilLastBit64 _)

lemma AluCall.u2u_le (h : AluCall .u2u w size c x src) :
    AluOp.u2u.eval w (size 0) x ≤ getAluUub .u2u w c src := by
  simp only [eval, getAluUub, toNat_setWidth]
  rw [h.toNat_src rfl]
  exact le_min ((mod_le _ _).trans (h.le 0)) (mod_le_bitmask h.typed.1.le _)

/-- The bound that `get_alu_uub` computes from the bounds of the sources. -/
theorem AluCall.eval_le (h : AluCall op w size c x src) (hok : AluOk op w c x) :
    op.eval w (size 0) x ≤ getAluUub op w c src := by
  cases op with
  | umin => exact h.umin_le
  | imin | imax | umax => exact h.selection_le h.typed.2.1 h.typed.2.2 (ite_eq_or_eq ..)
  | iand => exact h.iand_le
  | ior => exact h.ior_le
  | ixor => exact h.ixor_le
  | ishl => exact h.ishl_le
  | imul => exact h.imul_le_iff.mpr hok
  | ushr => exact h.ushr_le
  | ishr => exact h.ishr_le hok
  | iadd => exact h.iadd_le
  | umod => exact h.umod_le
  | udiv => exact h.udiv_le
  | bcsel | b32csel => exact h.selection_le h.typed.2.2.1 h.typed.2.2.2 (ite_eq_or_eq ..).symm
  | ubfe => exact h.ubfe_le
  | bfi => exact h.bfi_le
  | bfm => exact h.bfm_le
  | bitfieldSelect => exact h.bitfieldSelect_le
  | msad4x8 => exact h.msad4x8_le
  | extractU8 => exact h.extractU_le 8 h.typed.2.2.1
  | extractI8 => exact h.extractI_le (k := 8) (by decide) h.typed.2.2.1
  | extractU16 => exact h.extractU_le 16 h.typed.2.2.1
  | extractI16 => exact h.extractI_le (k := 16) (by decide) h.typed.2.2.1
  | b2i => exact h.b2i_le
  | bitCount => exact h.bitCount_le
  | u2u => exact h.u2u_le

end Rules

end RadvXclipse.Nir
