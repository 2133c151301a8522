import RadvXclipse.Nir.RangeSound

/-!
# `nir_unsigned_upper_bound` and `nir_is_op_nuw`

What the two functions promise, for every shader, every execution and every table that earlier calls
have left.
-/

namespace RadvXclipse.Nir

open Lib Util List Option Nat

section ShaderBounds

variable {sh : Shader} {ι : Type} {E : Execution sh ι} {s : Scalar}

/-! ## ALU instructions -/

variable {op : AluOp} {srcs : List Scalar} {us : List ℕ}

variable {t : Scalar} {α : Type} {f : Scalar → α} {d : α} {j w ub0 fuel : ℕ} {ht ht' : ℕ → Option ℕ}

lemma constant_eq_some {k : ℕ} (h : sh.constant t = some k) : sh.instr t = .const k := by
  unfold Shader.constant at h
  split at h
  · rename_i v hv
    rw [hv, some_inj.mp h]
  · exact absurd h (by simp)

lemma srcAt_of_some (h : srcs[j]? = some t) : srcAt srcs f d j = f t := by
  unfold srcAt
  rw [h]
  rfl

lemma srcAt_of_none (h : srcs[j]? = none) : srcAt srcs f d j = d := by
  unfold srcAt
  rw [h]
  rfl

/-- The sources of a supported instruction have bounds. -/
theorem hasBound_source (h : sh.instr s = .alu op srcs)
    (hsize : op = .u2u ∨ op = .bitCount → srcAt srcs sh.bitSize 0 0 ≤ 32) (ht : srcs[j]? = some t) :
    HasBound (sh.bitSize t) := by
  have htyped := sh.alu_typed s op srcs h
  have hj : j < op.numInputs := by
    rw [← htyped.1]
    exact (List.getElem?_eq_some_iff.mp ht).1
  have hbound := htyped.2.size_bound hsize hj
  rwa [srcAt_of_some ht] at hbound

/-- A source and the result of its query, or none of both. -/
theorem Execution.source_cases (hus : Forall₂ E.Bound srcs us) (j : ℕ) :
    (∃ t ∈ srcs, srcs[j]? = some t ∧ E.Bound t (us.getD j 0)) ∨ (srcs[j]? = none ∧ us.getD j 0 = 0) := by
  rcases forall₂_srcAt hus j with ⟨t, u, hmem, ht, hu, hP⟩ | ⟨ht, hu⟩
  · left
    rw [getD_eq_getElem?_getD, hu]
    exact ⟨t, hmem, ht, hP⟩
  · right
    rw [getD_eq_getElem?_getD, hu]
    exact ⟨ht, rfl⟩

section

variable (h : sh.instr s = .alu op srcs)
include h

section

variable (hsize : op = .u2u ∨ op = .bitCount → srcAt srcs sh.bitSize 0 0 ≤ 32)
include hsize

lemma querySources_alu : querySources sh s = srcs := by
  rw [querySources, h]
  refine if_neg ?_
  rintro (hsup | ⟨rfl, hgt⟩)
  · unfold aluSupported at hsup
    split at hsup
    · have hle := hsize (.inl rfl)
      exact absurd hle (of_decide_eq_false hsup)
    · cases hsup
  · have hle := hsize (.inr rfl)
    omega

section

variable (hus : Forall₂ E.Bound srcs us)
include hus

/-- The queries of an ALU instruction are the arguments of its rule. -/
theorem Execution.aluSources :
    AluSources op (sh.bitSize s) (srcAt srcs sh.bitSize 0) (srcAt srcs sh.constant none) (us.getD · 0) where
  typed := (sh.alu_typed s op srcs h).2
  size_le j := by
    rcases E.source_cases hus j with ⟨t, _, ht, _⟩ | ⟨ht, _⟩
    · rw [srcAt_of_some ht]
      exact (hasBound_source h hsize ht).le
    · rw [srcAt_of_none ht]
      exact zero_le 32
  src_lt j := by
    rcases E.source_cases hus j with ⟨t, _, _, hP⟩ | ⟨_, hu⟩
    · exact hP.lt
    · rw [hu]
      decide
  src_const j k hk := by
    rcases E.source_cases hus j with ⟨t, _, ht, hP⟩ | ⟨ht, _⟩
    · -- the result of a constant is the constant
      rw [srcAt_of_some ht] at hk
      have hinstr := constant_eq_some hk
      have hlt := lt_two_pow_32 (hasBound_source h hsize ht).le (sh.const_lt t k hinstr)
      rw [← mod_eq_of_lt hlt]
      exact hP.const k hinstr
    · rw [srcAt_of_none ht] at hk
      exact absurd hk (by simp)

/-- They are a call of the rule in every invocation. -/
theorem Execution.aluCall (hok : E.Ok s) (i : ι) :
    AluCall op (sh.bitSize s) (srcAt srcs sh.bitSize 0) (srcAt srcs sh.constant none) (srcAt srcs (E.val i) 0)
      (us.getD · 0) where
  toAluSources := E.aluSources h hsize hus
  value_lt j := by
    rcases E.source_cases hus j with ⟨t, _, ht, _⟩ | ⟨ht, _⟩
    · rw [srcAt_of_some ht, srcAt_of_some ht]
      exact E.val_lt i t
    · rw [srcAt_of_none ht]
      exact Nat.two_pow_pos _
  le j := by
    rcases E.source_cases hus j with ⟨t, hmem, ht, hP⟩ | ⟨ht, _⟩
    · rw [srcAt_of_some ht]
      exact hP.le (hasBound_source h hsize ht) (hok.source (by rw [querySources_alu h hsize]; exact hmem)) i
    · rw [srcAt_of_none ht]
      exact zero_le _
  const j k hk := by
    rcases E.source_cases hus j with ⟨t, _, ht, _⟩ | ⟨ht, _⟩
    · rw [srcAt_of_some ht] at hk ⊢
      exact E.const i t k (constant_eq_some hk)
    · rw [srcAt_of_none ht] at hk
      exact absurd hk (by simp)

lemma Execution.bound_alu :
    E.Bound s (getAluUub op (sh.bitSize s) (srcAt srcs sh.constant none) (us.getD · 0) % 2 ^ 32) := by
  have hsources := E.aluSources h hsize hus
  apply Execution.Bound.of_result (by simp [h])
  · intro hw
    exact hsources.getAluUub_lt hw.le
  · intro _ hok i
    rw [E.alu i s op srcs h]
    exact (E.aluCall h hsize hus hok i).eval_le (hok s .refl i op srcs h)
  · intro hw hleaves
    apply hsources.getAluUub_le hw.le le_rfl
    intro j hj
    rcases E.source_cases hus j with ⟨t, hmem, ht, hP⟩ | ⟨_, hu⟩
    · rw [srcAt_of_some ht] at hj
      rw [← hj]
      exact hP.fits (hasBound_source h hsize ht)
        (hleaves.source (by rw [querySources_alu h hsize]; exact hmem))
    · rw [hu]
      exact zero_le _

end

end

end

/-- An instruction without a rule. -/
theorem Execution.bound_bitmask (hconst : ∀ v, sh.instr s ≠ .const v) :
    E.Bound s (bitmask (sh.bitSize s) % 2 ^ 32) := by
  apply Execution.Bound.of_result hconst
  · exact fun _ => bitmask_lt _
  · exact fun hw _ i => E.le_bitmask hw i
  · exact fun _ _ => le_rfl

/-- The bits of a word of 64 bits are counted without a query. -/
theorem Execution.bound_bitCount (h : sh.instr s = .alu .bitCount srcs) :
    E.Bound s (srcAt srcs sh.bitSize 0 0 % 2 ^ 32) := by
  obtain ⟨hw, hsize⟩ := (sh.alu_typed s _ srcs h).2
  have hle : srcAt srcs sh.bitSize 0 0 ≤ 64 := by
    rcases hsize with hsize | hsize
    · have := hsize.le
      omega
    · exact hsize.le
  apply Execution.Bound.of_result (by simp [h])
  · intro _
    omega
  · intro _ _ i
    rw [E.alu i s _ srcs h]
    apply (mod_le _ _).trans
    exact (countBits_le _ (BitVec.isLt _) _).trans (min_le_left _ _)
  · intro _ _
    rw [hw]
    exact hle.trans (by decide)

/-! ## Queries -/

/-- The results of the queries of an instruction bound its values. -/
theorem Execution.transfer (E : Execution sh ι) : (uub sh).Transfer E.Bound := by
  intro s us hus
  change Forall₂ E.Bound (querySources sh s) us at hus
  change E.Bound s (queryResult sh s us)
  unfold queryResult queryBound
  unfold querySources at hus
  cases hinstr : sh.instr s with
  | const v => exact E.bound_const hinstr
  | other => exact E.bound_bitmask (by simp [hinstr])
  | intrinsic k srcs =>
    rw [hinstr] at hus
    have htyped := sh.intrinsic_typed s k srcs hinstr
    cases k with
    | leaf k => exact E.bound_leaf hinstr
    | mbcnt =>
      obtain ⟨a, t, rfl⟩ := length_eq_two.mp htyped.2.2
      cases hus with
      | cons ht hnil =>
        cases hnil
        exact E.bound_mbcnt hinstr ht
    | scan op kind =>
      cases srcs with
      | nil => exact absurd htyped.2 (by simp)
      | cons t srcs =>
        cases hus with
        | cons ht hnil =>
          cases hnil
          exact E.bound_scan hinstr ht
    | lane =>
      cases srcs with
      | nil => exact absurd htyped.2 (by simp)
      | cons t srcs =>
        cases hus with
        | cons ht hnil => exact E.bound_lane hinstr ht
    | twoLanes =>
      rcases srcs with _ | ⟨t, _ | ⟨t', srcs⟩⟩
      · exact absurd htyped.2.2 (by simp)
      · exact absurd htyped.2.2 (by simp)
      · cases hus with
        | cons ht hus =>
          cases hus with
          | cons ht' hnil => exact E.bound_twoLanes hinstr ht ht'
  | alu op srcs =>
    rw [hinstr] at hus
    dsimp only at hus ⊢
    by_cases hsup : aluSupported sh op srcs = false
    · rw [if_pos hsup]
      exact E.bound_bitmask (by simp [hinstr])
    · rw [if_neg hsup]
      by_cases hcount : op = .bitCount ∧ srcAt srcs sh.bitSize 0 0 > 32
      · rw [if_pos hcount]
        rw [hcount.1] at hinstr
        exact E.bound_bitCount hinstr
      · rw [if_neg (by rintro (h | h); exact hsup h; exact hcount h)] at hus
        rw [if_neg hcount]
        apply E.bound_alu hinstr _ hus
        rintro (rfl | rfl)
        · by_contra hgt
          apply hsup
          simp only [aluSupported, decide_eq_false_iff_not]
          exact hgt
        · by_contra hgt
          exact hcount ⟨rfl, by omega⟩

/-! ## Unsigned wraps -/

lemma nuwTest_exact {op : NuwOp} {ub1 a b : ℕ} (hw : w ≤ 32) (hub0 : ub0 ≤ bitmask w)
    (ha : a ≤ ub0) (hb : b ≤ ub1) (h : nuwTest op w ub0 ub1 = true) : op.exact a b < 2 ^ w := by
  have hpos := Nat.two_pow_pos w
  have hpow : 2 ^ w ≤ 2 ^ 32 := Nat.pow_le_pow_right (by omega) hw
  rw [bitmask_of_le hw] at hub0
  cases op with
  | iadd =>
    simp only [nuwTest, decide_eq_true_iff] at h
    rw [sub32_of_le hub0 (by omega)] at h
    show a + b < 2 ^ w
    omega
  | ishl =>
    have hlast : utilLastBit64 ub0 ≤ w := utilLastBit64_le (by omega)
    simp only [nuwTest, decide_eq_true_iff] at h
    rw [sub32_of_le hlast (by omega)] at h
    calc a * 2 ^ b < 2 ^ utilLastBit64 ub0 * 2 ^ b :=
          Nat.mul_lt_mul_of_pos_right (lt_of_le_of_lt ha (lt_utilLastBit64 ub0)) (Nat.two_pow_pos b)
      _ = 2 ^ (utilLastBit64 ub0 + b) := (pow_add 2 _ _).symm
      _ ≤ 2 ^ w := Nat.pow_le_pow_right (by omega) (by omega)
  | imul =>
    simp only [nuwTest, decide_eq_true_iff] at h
    have hmul : a * b ≤ 2 ^ w - 1 := by
      rcases h with hzero | hle
      · rw [show a = 0 by omega, zero_mul]
        exact zero_le _
      · calc a * b ≤ ub0 * ((2 ^ w - 1) / ub0) := Nat.mul_le_mul ha (hb.trans hle)
          _ ≤ 2 ^ w - 1 := mul_div_le _ _
    show a * b < 2 ^ w
    omega

/-- The test is right for all operations exactly if the first bound is a value of the bit size. -/
theorem nuwTest_iff (hw : HasBound w) (hub0 : ub0 < 2 ^ 32) :
    ub0 ≤ bitmask w ↔ ∀ op ub1 a b, a ≤ ub0 → b ≤ ub1 → a < 2 ^ w → b < 2 ^ w →
      nuwTest op w ub0 ub1 = true → NuwOp.exact op a b < 2 ^ w := by
  constructor
  · intro h op ub1 a b ha hb _ _ htest
    exact nuwTest_exact hw.le h ha hb htest
  · intro h
    by_contra hgt
    have hone : 1 < 2 ^ w := Nat.one_lt_two_pow (by have := hw.pos; omega)
    rw [bitmask_of_le hw.le] at hgt
    -- the difference of the masks wraps, and the largest value plus one passes
    have htest : nuwTest .iadd w ub0 1 = true := by
      show decide (sub32 (2 ^ w - 1) ub0 ≥ 1) = true
      rw [decide_eq_true_iff]
      unfold sub32
      omega
    have hexact := h .iadd 1 (2 ^ w - 1) 1 (by omega) le_rfl (by omega) hone htest
    have hsum : 2 ^ w - 1 + 1 < 2 ^ w := hexact
    omega

/-- The two bounds that `nir_is_op_nuw` tests. -/
theorem isOpNuw_eq_some {op : NuwOp} {r : Bool} (h : isOpNuw sh fuel ht op s t = some (r, ht')) :
    ∃ ub0 ht1 ub1, unsignedUpperBound sh fuel ht s = some (ub0, ht1) ∧
      unsignedUpperBound sh fuel ht1 t = some (ub1, ht') ∧ nuwTest op (sh.bitSize s) ub0 ub1 = r := by
  obtain ⟨⟨ub0, ht1⟩, h0, h⟩ := bind_eq_some_iff.mp h
  obtain ⟨⟨ub1, ht2⟩, h1, h⟩ := bind_eq_some_iff.mp h
  cases h
  exact ⟨ub0, ht1, ub1, h0, h1, rfl⟩

theorem Queried.bound (h : Queried sh ht) (E : Execution sh ι) {u : ℕ}
    (hret : unsignedUpperBound sh fuel ht s = some (u, ht')) : E.Bound s u :=
  ((h.table E.transfer).of_perform (uub_ok sh) E.transfer hret).1

lemma Queried.isOpNuw_exact {op : NuwOp} (h : Queried sh ht) (E : Execution sh ι)
    (hs : HasBound (sh.bitSize s)) (htw : HasBound (sh.bitSize t)) (hoks : E.Ok s) (hokt : E.Ok t)
    (hfit : LeavesFit sh s) (hret : isOpNuw sh fuel ht op s t = some (true, ht')) (i : ι) :
    op.exact (E.val i s) (E.val i t) < 2 ^ sh.bitSize s := by
  obtain ⟨ub0, ht1, ub1, h0, h1, htest⟩ := isOpNuw_eq_some hret
  have hb0 := h.bound E h0
  have hb1 := (h.query h0).bound E h1
  exact nuwTest_exact hs.le (hb0.fits hs hfit) (hb0.le hs hoks i) (hb1.le htw hokt i) htest

/-! ## The two functions -/

/-- Every query returns, and where the ALU instructions below a scalar are `AluOk` all its values
are at most the result. Where also the bounds of the intrinsics below the first source are values of
their bit size, an operation that `nir_is_op_nuw` accepts does not wrap. Neither condition can be
weakened for a single rule or test. -/
theorem unsignedUpperBound_sound (sh : Shader) {ι : Type} (E : Execution sh ι) :
    (∀ ht s, Queried sh ht → ∃ fuel u ht', unsignedUpperBound sh fuel ht s = some (u, ht') ∧ Queried sh ht' ∧
      (HasBound (sh.bitSize s) → E.Ok s → ∀ i, E.val i s ≤ u)) ∧
    (∀ ht op s t fuel ht', Queried sh ht → HasBound (sh.bitSize s) → HasBound (sh.bitSize t) → E.Ok s → E.Ok t →
      LeavesFit sh s → isOpNuw sh fuel ht op s t = some (true, ht') →
      ∀ i, NuwOp.exact op (E.val i s) (E.val i t) < 2 ^ sh.bitSize s) ∧
    (∀ op w size c x, AluOp.Typed op w size → (∀ i, size i ≤ 32) → (∀ i, x i < 2 ^ size i) →
      (∀ i k, c i = some k → x i = k) →
      (AluOk op w c x ↔ ∀ src, AluCall op w size c x src → op.eval w (size 0) x ≤ getAluUub op w c src)) ∧
    (∀ w ub0, HasBound w → ub0 < 2 ^ 32 →
      (ub0 ≤ bitmask w ↔ ∀ op ub1 a b, a ≤ ub0 → b ≤ ub1 → a < 2 ^ w → b < 2 ^ w → nuwTest op w ub0 ub1 = true →
        NuwOp.exact op a b < 2 ^ w)) := by
  refine ⟨?_, ?_, ?_, ?_⟩
  · intro ht s hht
    obtain ⟨fuel, u, ht', hret, hu, hht'⟩ := hht.returns E.transfer s
    exact ⟨fuel, u, ht', hret, hht', hu.le⟩
  · intro ht op s t fuel ht' hht hs htw hoks hokt hfit hret
    exact hht.isOpNuw_exact E hs htw hoks hokt hfit hret
  · intro op w size c x htyped hsize hx hc
    exact aluOk_iff htyped hsize hx hc
  · intro w ub0 hw hub0
    exact nuwTest_iff hw hub0

end ShaderBounds

/-! ## A shader -/

/-- The first component of a definition. -/
def Scalar.of (index : ℕ) : Scalar := ⟨⟨index % (2 ^ 28 - 1), mod_lt _ (by decide)⟩, 0⟩

/-- An argument that is at most `2 ^ 31`, shifted and increased; a byte, multiplied; and a
normalized channel that is loaded as a word of 16 bits. -/
def shaderInstr : ℕ → Instr
  | 0 => .intrinsic (.leaf (.loadArg (2 ^ 31))) []
  | 1 => .const 1
  | 2 => .alu .ishr [.of 0, .of 1]
  | 3 => .alu .iadd [.of 0, .of 1]
  | 4 => .intrinsic (.leaf .other) []
  | 5 => .const 7
  | 6 => .alu .imul [.of 4, .of 5]
  | 7 => .intrinsic (.leaf (.loadTypedBuffer (some ⟨8, true, false⟩))) []
  | 8 => .const 1
  | _ => .other

def shaderBitSize : ℕ → ℕ
  | 4 | 5 | 6 => 8
  | 7 | 8 => 16
  | _ => 32

/-- The instructions, one by one. -/
theorem shaderInstr_cases {Q : ℕ → Prop} (h0 : Q 0) (h1 : Q 1) (h2 : Q 2) (h3 : Q 3) (h4 : Q 4)
    (h5 : Q 5) (h6 : Q 6)
    (h7 : Q 7) (h8 : Q 8) (h : ∀ n, shaderInstr n = .other → Q n) (n : ℕ) : Q n := by
  by_cases hn : n < 9
  · interval_cases n <;> assumption
  · have hother : ∀ k, shaderInstr (k + 9) = .other := fun _ => rfl
    have heq := hother (n - 9)
    rw [show n - 9 + 9 = n by omega] at heq
    exact h n heq

lemma shaderInstr_srcs (n : ℕ) : ∀ t ∈ (shaderInstr n).srcs, (t.index : ℕ) < n := by
  induction n using shaderInstr_cases with
  | h n hn =>
    rw [hn]
    exact forall_mem_nil _
  | _ => decide

section

variable {n : ℕ} {srcs : List Scalar} {k : Intrinsic}

lemma shaderInstr_alu {op : AluOp} (h : shaderInstr n = .alu op srcs) :
    (n = 2 ∧ op = .ishr ∧ srcs = [.of 0, .of 1]) ∨ (n = 3 ∧ op = .iadd ∧ srcs = [.of 0, .of 1]) ∨
      (n = 6 ∧ op = .imul ∧ srcs = [.of 4, .of 5]) := by
  induction n using shaderInstr_cases with
  | h n hn => simp [hn] at h
  | _ => simp_all [shaderInstr]

lemma shaderInstr_const {v : ℕ} (h : shaderInstr n = .const v) :
    (n = 1 ∧ v = 1) ∨ (n = 5 ∧ v = 7) ∨ (n = 8 ∧ v = 1) := by
  induction n using shaderInstr_cases with
  | h n hn => simp [hn] at h
  | _ => simp_all [shaderInstr]

lemma shaderInstr_intrinsic (h : shaderInstr n = .intrinsic k srcs) :
    (n = 0 ∧ k = .leaf (.loadArg (2 ^ 31))) ∨ (n = 4 ∧ k = .leaf .other) ∨
      (n = 7 ∧ k = .leaf (.loadTypedBuffer (some ⟨8, true, false⟩))) := by
  induction n using shaderInstr_cases with
  | h n hn => simp [hn] at h
  | _ => simp_all [shaderInstr]

/-- There are no intrinsics with sources in the shader. -/
theorem shaderInstr_leaf (h : shaderInstr n = .intrinsic k srcs) : ∃ l, k = .leaf l := by
  rcases shaderInstr_intrinsic h with ⟨_, rfl⟩ | ⟨_, rfl⟩ | ⟨_, rfl⟩
  · exact ⟨_, rfl⟩
  · exact ⟨_, rfl⟩
  · exact ⟨_, rfl⟩

end

def shader : Shader where
  info :=
    { stageUsesWorkgroup := true, isTessCtrl := false, workgroupSizeVariable := false,
      workgroupSize := fun _ => 1,
      maxWorkgroupInvocations := 0, maxWorkgroupCount := fun _ => 0, tcsVerticesOut :=
        0, maxSubgroupSize := 64,
      minSubgroupSize := 64, apiSubgroupSize := 0, maxSamples := 0, fui := fun _ => 0x3f800000,
      maxSubgroupSize_lt := by decide }
  instr s := shaderInstr s.index
  bitSize s := shaderBitSize s.index
  acyclic := ⟨fun s => s.index, fun s t ht => shaderInstr_srcs s.index t ht⟩
  const_lt s v h := by
    rcases shaderInstr_const h with ⟨hn, rfl⟩ | ⟨hn, rfl⟩ | ⟨hn, rfl⟩ <;> rw [hn] <;> decide
  alu_typed s op srcs h := by
    rcases shaderInstr_alu h with ⟨hn, rfl, rfl⟩ | ⟨hn, rfl, rfl⟩ | ⟨hn, rfl, rfl⟩ <;> rw [hn]
    · exact ⟨rfl, .inr (.inr (.inr rfl)), by decide, rfl, rfl⟩
    · exact ⟨rfl, .inr (.inr (.inr rfl)), by decide, rfl, rfl⟩
    · exact ⟨rfl, .inr (.inl rfl), by decide, rfl, rfl⟩
  intrinsic_typed s k srcs h := by
    obtain ⟨l, rfl⟩ := shaderInstr_leaf h
    trivial

/-- The values in one invocation. -/
def shaderVal : ℕ → ℕ
  | 0 => 2 ^ 31
  | 1 => 1
  | 2 => 2 ^ 31 + 2 ^ 30
  | 3 => 2 ^ 31 + 1
  | 4 => 73
  | 5 => 7
  | 6 => 255
  | 7 => 2 ^ 16 - 1
  | 8 => 1
  | _ => 0

def shaderExecution : Execution shader Unit where
  val _ s := shaderVal s.index
  val_lt _ s := by
    show shaderVal s.index < 2 ^ shaderBitSize s.index
    generalize (s.index : ℕ) = n
    unfold shaderVal
    split <;> first | decide | exact Nat.two_pow_pos _
  const _ s v h := by
    rcases shaderInstr_const h with ⟨hn, rfl⟩ | ⟨hn, rfl⟩ | ⟨hn, rfl⟩ <;> rw [hn] <;> rfl
  alu _ s op srcs h := by
    rcases shaderInstr_alu h with ⟨hn, rfl, rfl⟩ | ⟨hn, rfl, rfl⟩ | ⟨hn, rfl, rfl⟩ <;>
      simp only [shader, hn] <;> decide
  leaf _ s k srcs h := by
    rcases shaderInstr_intrinsic h with ⟨hn, hk⟩ | ⟨hn, hk⟩ | ⟨hn, hk⟩ <;> cases hk <;>
      simp only [shader, hn] <;> generalize s.comp = comp <;> revert comp <;> decide
  mbcnt _ s srcs h := by
    obtain ⟨l, hl⟩ := shaderInstr_leaf h
    cases hl
  lane _ s srcs h := by
    obtain ⟨l, hl⟩ := shaderInstr_leaf h
    cases hl
  twoLanes _ s srcs h := by
    obtain ⟨l, hl⟩ := shaderInstr_leaf h
    cases hl
  scan _ s op kind srcs h := by
    obtain ⟨l, hl⟩ := shaderInstr_leaf h
    cases hl

/-- The bounds of the shift and of the product are below their values, and a sum that wraps is
accepted. -/
theorem unsignedUpperBound_too_small :
    (unsignedUpperBound shader 10 (fun _ => none) (.of 2)).map Prod.fst = some (2 ^ 31) ∧
    2 ^ 31 < shaderExecution.val () (.of 2) ∧
    (unsignedUpperBound shader 10 (fun _ => none) (.of 6)).map Prod.fst = some 252 ∧
    252 < shaderExecution.val () (.of 6) ∧
    (isOpNuw shader 10 (fun _ => none) .iadd (.of 7) (.of 8)).map Prod.fst = some true ∧
    2 ^ shader.bitSize (.of 7) ≤
      NuwOp.iadd.exact (shaderExecution.val () (.of 7)) (shaderExecution.val () (.of 8)) := by
  refine ⟨?_, ?_, ?_, ?_, ?_, ?_⟩
  all_goals decide

/-- The sum below the shift. -/
theorem shaderExecution_ok : shaderExecution.Ok (.of 3) := by
  have hbelow : ∀ t, Below shader (.of 3) t → t = .of 3 ∨ t = .of 0 ∨ t = .of 1 := by
    intro t ht
    induction ht with
    | refl => exact .inl rfl
    | tail _ hstep ih =>
      rcases ih with rfl | rfl | rfl
      · right
        exact mem_pair.mp hstep
      · exact absurd hstep not_mem_nil
      · exact absurd hstep not_mem_nil
  intro t ht i op srcs h
  rcases hbelow t ht with rfl | rfl | rfl
  · have h3 : shaderInstr 3 = .alu op srcs := h
    rcases shaderInstr_alu h3 with ⟨hn, _⟩ | ⟨_, rfl, _⟩ | ⟨hn, _⟩
    · exact absurd hn (by decide)
    · trivial
    · exact absurd hn (by decide)
  · cases h
  · cases h

/-- The sum is at most its bound. -/
theorem unsignedUpperBound_sound_sum :
    ∃ fuel u ht', unsignedUpperBound shader fuel (fun _ => none) (.of 3) = some (u, ht') ∧
    shaderExecution.val () (.of 3) ≤ u := by
  obtain ⟨fuel, u, ht', hret, _, hle⟩ := (unsignedUpperBound_sound shader shaderExecution).1 _ (.of 3) .empty
  exact ⟨fuel, u, ht', hret, hle (.inr (.inr (.inr rfl))) shaderExecution_ok ()⟩

end RadvXclipse.Nir
