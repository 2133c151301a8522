import RadvXclipse.Descriptor.SupportOrder

/-!
# Permuted bindings

The arrays of a create info, and what is left of them when the application lists the bindings in
another order. `permuted_iff` says exactly when the order does not matter.
-/

namespace RadvXclipse.Descriptor

open Lib Util List Function Option Nat Bool CreateInfo

/-- The arrays parallel to `n` bindings, where they are there. -/
structure Arrays (n : ℕ) where
  flags : BitVec 32
  bindingFlags : Option (Fin n → BitVec 32)
  mutableLists : Option (Fin n → List DescriptorType)

variable {variableCount : Bool}

namespace Arrays

variable {n : ℕ}

def info (A : Arrays n) (b : Fin n → Binding) : CreateInfo where
  flags := A.flags
  pBindings := ofFn b
  pBindingFlags := A.bindingFlags.map ofFn
  pMutableDescriptorTypeLists := A.mutableLists.map ofFn

/-- The arrays in another order. -/
def permute (A : Arrays n) (σ : Equiv.Perm (Fin n)) : Arrays n where
  flags := A.flags
  bindingFlags := A.bindingFlags.map (· ∘ σ)
  mutableLists := A.mutableLists.map (· ∘ σ)

/-- The size and alignment of the list of types of a row, if it can be used. -/
def types (pdev : PhysicalDevice) (A : Arrays n) (j : Fin n) : Option (ℕ × ℕ) :=
  mutableDescriptorTypeSizeAlignment pdev ((A.mutableLists.map (· j)).getD [])

/-- Whether a row asks for a variable descriptor count. -/
def variableAt (A : Arrays n) (j : Fin n) : Bool :=
  match A.bindingFlags.map (· j) with
  | some flags => flags &&& variableDescriptorCountBit ≠ 0
  | none => false

lemma info_typeList (pdev : PhysicalDevice) (A : Arrays n) (b : Fin n → Binding) (j : Fin n) :
    mutableDescriptorTypeSizeAlignment pdev ((A.info b).typeList j) = A.types pdev j := by
  unfold types typeList info
  cases A.mutableLists <;> simp

lemma info_variableAt (A : Arrays n) (b : Fin n → Binding) (j : Fin n) :
    (A.info b).variableAt j = A.variableAt j := by
  unfold variableAt CreateInfo.variableAt info
  cases A.bindingFlags <;> simp

lemma permute_variableAt (A : Arrays n) (σ : Equiv.Perm (Fin n)) (j : Fin n) :
    (A.permute σ).variableAt j = A.variableAt (σ j) := by
  unfold variableAt permute
  cases A.bindingFlags <;> rfl

section

variable {pdev : PhysicalDevice} {A A' : Arrays n} {b : Fin n → Binding}

/-- Bindings and arrays that are permuted together are a reordering. -/
theorem reordered (A : Arrays n) (hb : Injective fun i => (b i).binding) (σ : Equiv.Perm (Fin n)) :
    Reordered (A.info b) ((A.permute σ).info (b ∘ σ)) where
  flags := rfl
  perm := (σ.ofFn_comp_perm b).symm
  nodup := by
    show ((ofFn b).map Binding.binding).Nodup
    rw [map_ofFn]
    exact nodup_ofFn.mpr hb
  bits := by
    have hlen : (A.info b).pBindings.length = n := length_ofFn
    rw [hlen]
    constructor
    · intro ⟨j, hj, hv⟩
      have hrow := A.info_variableAt b ⟨j, hj⟩
      refine ⟨σ.symm ⟨j, hj⟩, (σ.symm ⟨j, hj⟩).isLt, ?_⟩
      rw [info_variableAt, permute_variableAt, Equiv.apply_symm_apply, ← hrow]
      exact hv
    · intro ⟨j, hj, hv⟩
      have hrow := (A.permute σ).info_variableAt (b ∘ σ) ⟨j, hj⟩
      refine ⟨σ ⟨j, hj⟩, (σ ⟨j, hj⟩).isLt, ?_⟩
      rw [info_variableAt, ← permute_variableAt, ← hrow]
      exact hv

/-- When the arrays look the same at every position: the lists of types have the same sizes, and the
bits for variable descriptor counts, if they are asked for, are at the same positions or at the last
one (unless its list cannot be used). -/
structure Agree (pdev : PhysicalDevice) (variableCount : Bool) (A A' : Arrays n) : Prop where
  types : ∀ j, A.types pdev j = A'.types pdev j
  bits : variableCount = true → (∀ j, A.variableAt j = A'.variableAt j) ∨
    ∃ last : Fin n, last.val = n - 1 ∧ A.types pdev last ≠ none ∧
      A.variableAt last = true ∧ A'.variableAt last = true

lemma exists_of_mem_zipIdx {bj : Binding × ℕ} (h : bj ∈ (A.info b).sorted.zipIdx) :
    ∃ j : Fin n, bj.2 = j := by
  have hlt := (mem_zipIdx' h).1
  rw [length_sorted] at hlt
  exact ⟨⟨bj.2, hlt.trans_eq length_ofFn⟩, rfl⟩

lemma Agree.typesAgree (h : Agree pdev variableCount A A')
    (b b' : Fin n → Binding) : TypesAgree pdev (A.info b) (A'.info b') (A.info b).sorted := by
  intro bj hbj _
  obtain ⟨j, hj⟩ := exists_of_mem_zipIdx hbj
  rw [hj, info_typeList, info_typeList, h.types j]

lemma Agree.flagsAgree (h : Agree pdev true A A') (b b' : Fin n → Binding) :
    FlagsAgree pdev (A.info b) (A'.info b') (A.info b).sorted := by
  have hlen : (A.info b).sorted.length = n := (A.info b).length_sorted.trans length_ofFn
  unfold FlagsAgree
  rw [hlen]
  rcases h.bits rfl with hbits | ⟨last, hlast, htypes, hbit, hbit'⟩
  · refine .inl fun j hj => ?_
    have hrow := hbits ⟨j, hj⟩
    rw [← info_variableAt A b, ← info_variableAt A' b'] at hrow
    exact hrow
  · have hne : (A.info b).sorted ≠ [] := by
      rw [← length_pos_iff, hlen]
      exact last.pos
    refine .inr ⟨_, getLast?_eq_getLast_of_ne_nil hne, ?_, ?_, ?_⟩
    · unfold unsupportedTypes
      rw [← hlast, info_typeList]
      simp [htypes]
    · rw [← hlast, info_variableAt]
      exact hbit
    · rw [← hlast, info_variableAt]
      exact hbit'

end

end Arrays

/-! ## Bindings that show a difference -/

/-- Bindings numbered from zero without any descriptors. -/
def probe {n : ℕ} (T : Fin n → DescriptorType) (i : Fin n) : Binding := ⟨i, T i, 0, 0, none⟩

lemma align64_zero (a : ℕ) : align64 0 a = 0 := by
  have hzero : ∀ x : BitVec 64, x &&& ~~~x = 0#64 := by
    intro x
    ext i hi
    simp
  unfold align64 alignPot
  rw [show BitVec.ofNat 64 0 + BitVec.ofNat 64 a - 1#64 = BitVec.ofNat 64 a - 1#64 by simp, hzero]
  rfl

namespace Arrays

section Probe

variable {n : ℕ} {pdev : PhysicalDevice} {A : Arrays n} {T : Fin n → DescriptorType}

lemma probe_injective : Injective fun i => (probe T i).binding := Fin.val_injective

lemma sorted_probe : (A.info (probe T)).sorted = ofFn (probe T) := by
  have hlt : (ofFn (probe T)).Pairwise fun a b => a.binding ≤ b.binding := by
    rw [pairwise_ofFn]
    intro i j hij
    exact le_of_lt hij
  apply Perm.eq_of_pairwise _ (createSortedBindings_pairwise _) hlt (createSortedBindings_perm _)
  intro a b ha hb hab hba
  have hnodup : ((ofFn (probe T)).map Binding.binding).Nodup := by
    rw [map_ofFn]
    exact nodup_ofFn.mpr probe_injective
  have ha' : a ∈ ofFn (probe T) := (createSortedBindings_perm _).mem_iff.mp ha
  exact inj_on_of_nodup_map hnodup ha' hb (le_antisymm hab hba)

lemma mem_zipIdx_probe {bi : Binding × ℕ} :
    bi ∈ (ofFn (probe T)).zipIdx ↔ ∃ k : Fin n, bi = (probe T k, (k : ℕ)) := by
  obtain ⟨b, i⟩ := bi
  rw [mk_mem_zipIdx_iff_getElem?, List.getElem?_ofFn]
  constructor
  · intro h
    split_ifs at h with hi
    cases h
    exact ⟨⟨i, hi⟩, rfl⟩
  · intro ⟨k, hk⟩
    cases hk
    rw [dif_pos k.isLt]

/-- No descriptors, no bytes. -/
theorem supportSize_probe (k : Fin n) (i : ℕ) :
    (probe T k).arraySize * (A.info (probe T)).supportSize pdev (probe T k) i = 0 := by
  by_cases ht : T k = .inlineUniformBlock
  · have hsize : (A.info (probe T)).supportSize pdev (probe T k) i = 0 := by
      unfold supportSize probe
      rw [ht]
    rw [hsize, mul_zero]
  · have harray : (probe T k).arraySize = 0 := by
      unfold Binding.arraySize probe
      rw [if_neg ht]
    rw [harray, zero_mul]

/-- One iteration over them: the size stays zero, only an unusable list of types is unsupported. -/
theorem supportBinding_probe (first pass : ℕ) (k : Fin n) {st : SupportState} (hst : st.size = 0) :
    (A.info (probe T)).supportBinding pdev first pass st (probe T k, (k : ℕ)) =
      { supported := st.supported && !decide (T k = .mutableExt ∧ A.types pdev k = none)
        size := 0
        maxVariableDescriptorCount :=
          if !skips pass ((A.info (probe T)).supportAlignment pdev (probe T k) k) first && A.variableAt k then
            st.maxVariableDescriptorCount.map fun _ =>
              min uint32Max ((A.info (probe T)).maxCount pdev (probe T k) k 0)
          else st.maxVariableDescriptorCount } := by
  have htypes : (A.info (probe T)).unsupportedTypes pdev (probe T k) k =
      decide (T k = .mutableExt ∧ A.types pdev k = none) := by
    unfold unsupportedTypes
    rw [info_typeList]
    rfl
  have hcount : ¬ (A.info (probe T)).maxCount pdev (probe T k) k 0 < (probe T k).arraySize := by
    unfold maxCount Binding.arraySize
    by_cases ht : (probe T k).descriptorType = .inlineUniformBlock
    · rw [if_pos ht, if_pos ht]
      decide
    · rw [if_neg ht, if_neg ht]
      exact not_lt_zero _
  simp only [supportBinding, htypes, hst, align64_zero, supportSize_probe, info_variableAt]
  cases hskips : skips pass _ first with
  | true => simp
  | false => simp [hcount, add64]

lemma bindingAlignment_probe (k : Fin n) :
    (A.info (probe T)).bindingAlignment pdev (probe T k) k =
      if T k = .mutableExt then ((A.types pdev k).getD (0, 0)).2 else descriptorAlignment (T k) := by
  unfold bindingAlignment
  rw [info_typeList]
  rfl

lemma supportAlignment_probe (k : Fin n) :
    (A.info (probe T)).supportAlignment pdev (probe T k) k =
      if T k = .mutableExt then ((A.types pdev k).map Prod.snd).getD 32 else descriptorAlignment (T k) := by
  unfold supportAlignment
  rw [info_typeList]
  rfl

/-- An iteration of a pass over the probe. -/
def probeStep (pdev : PhysicalDevice) (A : Arrays n) (T : Fin n → DescriptorType) (pass : ℕ) :
    SupportState → Binding × ℕ → SupportState :=
  (A.info (probe T)).supportBinding pdev ((A.info (probe T)).firstAlignment pdev (ofFn (probe T))) pass

/-- The state at the end of the support loop. -/
def answer (pdev : PhysicalDevice) (A : Arrays n) (T : Fin n → DescriptorType) (variableCount : Bool) :
    SupportState :=
  (A.info (probe T)).supportLoop pdev (ofFn (probe T)) ⟨true, 0, if variableCount then some 0 else none⟩

lemma answer_of_sameSupport {σ : Equiv.Perm (Fin n)}
    (h : SameSupport pdev variableCount (A.info (probe T)) ((A.permute σ).info (probe T ∘ σ))) :
    (A.answer pdev T variableCount).supported = ((A.permute σ).answer pdev T variableCount).supported ∧
    (A.answer pdev T variableCount).maxVariableDescriptorCount =
      ((A.permute σ).answer pdev T variableCount).maxVariableDescriptorCount := by
  have heq := h true 0
  simp only [getDescriptorSetLayoutSupport, (A.reordered probe_injective σ).sorted, sorted_probe,
    Bool.not_true, Bool.false_and, Bool.false_eq_true, if_false, Prod.mk.injEq] at heq
  exact heq

/-- What each iteration keeps while there are no bytes holds at the end. -/
theorem answer_invariant {P : SupportState → Prop}
    (hinit : P ⟨true, 0, if variableCount then some 0 else none⟩)
    (hstep : ∀ pass k st, st.size = 0 → P st →
      P (A.probeStep pdev T pass st (probe T k, (k : ℕ)))) : P (A.answer pdev T variableCount) := by
  have hpass : ∀ pass st, st.size = 0 ∧ P st →
      ((ofFn (probe T)).zipIdx.foldl (A.probeStep pdev T pass) st).size = 0 ∧
      P ((ofFn (probe T)).zipIdx.foldl (A.probeStep pdev T pass) st) := by
    intro pass st hst
    apply foldl_invariant (P := fun st : SupportState => st.size = 0 ∧ P st) hst
    intro bi hbi st hst
    obtain ⟨k, rfl⟩ := mem_zipIdx_probe.mp hbi
    refine ⟨?_, hstep pass k st hst.1 hst.2⟩
    rw [probeStep, supportBinding_probe _ pass k hst.1]
  have hboth := hpass 1 _ (hpass 0 _ ⟨rfl, hinit⟩)
  exact hboth.2

lemma supported_of_usable (h : ∀ k, T k = .mutableExt → A.types pdev k ≠ none) (variableCount : Bool) :
    (A.answer pdev T variableCount).supported = true := by
  apply answer_invariant (P := fun st => st.supported = true) rfl
  intro pass k st hsize hst
  rw [probeStep, supportBinding_probe _ pass k hsize]
  have hk : ¬ (T k = .mutableExt ∧ A.types pdev k = none) := fun hk => h k hk.1 hk.2
  simp [hst, hk]

/-- The second pass, from any state without bytes. -/
theorem answer_of_mem {P : SupportState → Prop} {k : Fin n}
    (hset : ∀ st, st.size = 0 → st.maxVariableDescriptorCount.isSome = variableCount →
      P (A.probeStep pdev T 1 st (probe T k, (k : ℕ))))
    (hstep : ∀ i st, st.size = 0 → P st →
      P (A.probeStep pdev T 1 st (probe T i, (i : ℕ)))) : P (A.answer pdev T variableCount) := by
  have hkeep : ∀ pass, ∀ bi ∈ (ofFn (probe T)).zipIdx, ∀ st : SupportState,
      (st.size = 0 ∧ st.maxVariableDescriptorCount.isSome = variableCount) →
      ((A.probeStep pdev T pass st bi).size = 0 ∧
        (A.probeStep pdev T pass st bi).maxVariableDescriptorCount.isSome = variableCount) := by
    intro pass bi hbi st hst
    obtain ⟨i, rfl⟩ := mem_zipIdx_probe.mp hbi
    unfold probeStep
    constructor
    · rw [supportBinding_probe _ pass i hst.1]
    · rw [supportBinding_isSome, hst.2]
  have hfirst := foldl_invariant (P := fun st : SupportState => st.size = 0 ∧
    st.maxVariableDescriptorCount.isSome =
      variableCount) (s := ⟨true, 0, if variableCount then some 0 else none⟩)
    ⟨rfl, by cases variableCount <;> rfl⟩ (hkeep 0)
  refine foldl_of_mem (I := fun st : SupportState => st.size = 0 ∧
    st.maxVariableDescriptorCount.isSome = variableCount) hfirst (hkeep 1)
    (mem_zipIdx_probe.mpr ⟨k, rfl⟩) ?_ ?_
  · intro st hst
    exact hset st hst.1 hst.2
  · intro bi hbi st hst hP
    obtain ⟨i, rfl⟩ := mem_zipIdx_probe.mp hbi
    exact hstep i st hst.1 hP

lemma unsupported_of_unusable {k : Fin n} (ht : T k = .mutableExt) (h : A.types pdev k = none)
    (variableCount : Bool) : (A.answer pdev T variableCount).supported = false := by
  apply answer_of_mem (P := fun st => st.supported = false) (k := k)
  · intro st hsize _
    rw [probeStep, supportBinding_probe _ 1 k hsize]
    simp [ht, h]
  · intro i st hsize hst
    rw [probeStep, supportBinding_probe _ 1 i hsize]
    simp [hst]

end Probe

/-- If the order never matters, the lists of types have the same sizes. -/
theorem types_of_same {n : ℕ} {abi : Abi} {pdev : PhysicalDevice} {A : Arrays n}
    {σ : Equiv.Perm (Fin n)}
    (h : ∀ b : Fin n → Binding, Injective (fun i => (b i).binding) →
      SameCreate abi pdev (A.info b) ((A.permute σ).info (b ∘ σ)) ∧
      SameSupport pdev variableCount (A.info b) ((A.permute σ).info (b ∘ σ))) (j : Fin n) :
    A.types pdev j = (A.permute σ).types pdev j := by
  -- only the binding at position `j` is mutable
  let T : Fin n → DescriptorType := fun k => if k = j then .mutableExt else .uniformBufferDynamic
  have hT : ∀ k, T k = .mutableExt → k = j := by
    intro k hk
    by_contra hne
    simp [T, hne] at hk
  have hTj : T j = .mutableExt := by simp [T]
  obtain ⟨hcreate, hsupport⟩ := h (probe T) probe_injective
  have hsizes := (sameCreate_iff (A.reordered probe_injective σ)).mp hcreate (probe T j, (j : ℕ))
    (by rw [sorted_probe]; exact mem_zipIdx_probe.mpr ⟨j, rfl⟩) hTj
  unfold mutableSize at hsizes
  rw [info_typeList, info_typeList] at hsizes
  have hsupported := (answer_of_sameSupport hsupport).1
  have hanswer : ∀ A : Arrays n, (A.answer pdev T variableCount).supported = (A.types pdev j).isSome := by
    intro A
    cases hr : A.types pdev j with
    | none => exact unsupported_of_unusable hTj hr variableCount
    | some r =>
      apply supported_of_usable
      intro k hk
      rw [hT k hk, hr]
      exact some_ne_none r
  rw [hanswer, hanswer] at hsupported
  cases hr : A.types pdev j with
  | none => exact ((isSome_eq_isSome.mp hsupported).mp hr).symm
  | some r =>
    rw [hr] at hsupported
    obtain ⟨r', hr'⟩ := isSome_iff_exists.mp hsupported.symm
    rw [hr, hr'] at hsizes
    have heq : r.1 = r'.1 := hsizes
    rw [hr', Option.some.injEq]
    apply Prod.ext heq
    rw [mutableSizeAlignmentLoop_align hr rfl, mutableSizeAlignmentLoop_align hr' rfl, heq]

/-- An inline uniform block at position `j`, `last` at the last position and storage images
elsewhere: the second pass goes over the first two only. -/
def spot {n : ℕ} (j : Fin n) (last : DescriptorType) (k : Fin n) : DescriptorType :=
  if k = j then .inlineUniformBlock else if k.val = n - 1 then last else .storageImage

section Spot

variable {n : ℕ} {pdev : PhysicalDevice} {A : Arrays n} {j : Fin n} {last : DescriptorType}

lemma spot_self : spot j last j = .inlineUniformBlock := if_pos rfl

/-- Either there is nothing behind the block, or it is not asked about or comes first. -/
def Behind (pdev : PhysicalDevice) (A : Arrays n) (j : Fin n) (last : DescriptorType) : Prop :=
  ∀ k : Fin n, k ≠ j → k.val = n - 1 →
    (last = .uniformBufferDynamic ∧ A.variableAt k = false) ∨ (last = .mutableExt ∧ A.types pdev k = none)

section

variable (h : Behind pdev A j last)
include h

theorem Behind.cases {k : Fin n} (hk : k ≠ j) :
    (spot j last k = .uniformBufferDynamic ∧ A.variableAt k = false) ∨
      (spot j last k = .mutableExt ∧ A.types pdev k = none) ∨
    (spot j last k = .storageImage ∧ k.val ≠ n - 1) := by
  unfold spot
  rw [if_neg hk]
  by_cases hn : k.val = n - 1
  · rw [if_pos hn]
    exact (h k hk hn).imp_right .inl
  · exact .inr (.inr ⟨if_neg hn, hn⟩)

lemma firstAlignment_spot :
    (A.info (probe (spot j last))).firstAlignment pdev (ofFn (probe (spot j last))) = 32 := by
  have hpos : 0 < n := j.pos
  let k : Fin n := ⟨n - 1, sub_lt hpos one_pos⟩
  have hlast : (ofFn (probe (spot j last))).getLast? = some (probe (spot j last) k) := by
    rw [getLast?_eq_getElem?, length_ofFn, List.getElem?_ofFn, dif_pos]
  have halign : (A.info (probe (spot j last))).bindingAlignment pdev (probe (spot j last) k) k ≠ 32 := by
    rw [bindingAlignment_probe]
    by_cases hk : k = j
    · rw [hk, spot_self, if_neg (by decide)]
      decide
    · rcases h.cases hk with ⟨hl, -⟩ | ⟨hl, htypes⟩ | ⟨-, hn⟩
      · rw [hl, if_neg (by decide)]
        decide
      · rw [if_pos hl, htypes]
        decide
      · exact absurd rfl hn
  rw [firstAlignment_eq pdev _ hlast, length_ofFn, if_neg halign]

/-- The count that is reported for another binding is not that of the block. -/
theorem maxCount_spot {k : Fin n} (hk : k ≠ j) :
    min uint32Max ((A.info (probe (spot j last))).maxCount pdev (probe (spot j last) k) k 0) ≠
      maxInlineUniformBlockSize := by
  have htype : (probe (spot j last) k).descriptorType = spot j last k := rfl
  unfold maxCount supportSize
  rw [htype, info_typeList]
  rcases h.cases hk with ⟨hl, -⟩ | ⟨hl, htypes⟩ | ⟨hl, -⟩
  · rw [hl]
    show min uint32Max int32Max ≠ maxInlineUniformBlockSize
    decide
  · rw [hl, htypes]
    show min uint32Max int32Max ≠ maxInlineUniformBlockSize
    decide
  · rw [hl]
    show min uint32Max (sub64 int32Max 0 / 32) ≠ maxInlineUniformBlockSize
    decide

/-- The second pass reports nothing for another binding. -/
theorem probeStep_spot {k : Fin n} (hk : k ≠ j) {st : SupportState} (hst : st.size = 0) :
    (A.probeStep pdev (spot j last) 1 st (probe (spot j last) k, (k : ℕ))).maxVariableDescriptorCount =
      st.maxVariableDescriptorCount := by
  unfold probeStep
  rw [supportBinding_probe _ 1 k hst, firstAlignment_spot h, supportAlignment_probe]
  apply if_neg
  rcases h.cases hk with ⟨-, hbit⟩ | ⟨hl, htypes⟩ | ⟨hl, -⟩
  · rw [hbit, Bool.and_false]
    exact false_ne_true
  · rw [if_pos hl, htypes]
    simp [skips]
  · rw [hl]
    simp [skips, descriptorAlignment]

/-- The limit of the block is reported exactly if its flags ask for it. -/
theorem answer_spot :
    (A.answer pdev (spot j last) true).maxVariableDescriptorCount = some maxInlineUniformBlockSize ↔
      A.variableAt j = true := by
  constructor
  · -- otherwise all that can be reported is something else
    intro hanswer
    by_contra hbit
    rw [not_eq_true] at hbit
    refine answer_invariant (P := fun st => st.maxVariableDescriptorCount ≠ some maxInlineUniformBlockSize)
      (by decide) ?_ hanswer
    intro pass k st hsize hst
    unfold probeStep
    rw [supportBinding_probe _ pass k hsize]
    by_cases hk : k = j
    · rw [hk, hbit, Bool.and_false]
      exact hst
    · have hcount := maxCount_spot h hk
      show ite _ _ _ ≠ _
      split_ifs
      · cases hc : st.maxVariableDescriptorCount with
        | none => simp
        | some c => simpa using hcount
      · exact hst
  · intro hbit
    have hset : ∀ st : SupportState, st.size = 0 → st.maxVariableDescriptorCount.isSome = true →
        (A.probeStep pdev (spot j last) 1 st (probe (spot j last) j, (j : ℕ))).maxVariableDescriptorCount =
          some maxInlineUniformBlockSize := by
      intro st hsize hsome
      obtain ⟨c, hc⟩ := isSome_iff_exists.mp hsome
      unfold probeStep
      rw [supportBinding_probe _ 1 j hsize, firstAlignment_spot h, supportAlignment_probe,
        spot_self, hbit, hc]
      have hmax : (A.info (probe (spot j last))).maxCount pdev (probe (spot j last) j) j 0 =
          maxInlineUniformBlockSize := by
        unfold maxCount
        rw [if_pos (show (probe (spot j last) j).descriptorType = _ from spot_self)]
        decide
      rw [hmax]
      rfl
    apply answer_of_mem
      (P := fun st => st.maxVariableDescriptorCount = some maxInlineUniformBlockSize) (k := j)
    · exact hset
    · intro i st hsize hst
      by_cases hi : i = j
      · rw [hi]
        exact hset st hsize (by rw [hst]; rfl)
      · rw [probeStep_spot h hi hsize]
        exact hst

end

end Spot

/-- If the order never matters, the bits are at the same positions or at the last one. -/
theorem bits_of_same {n : ℕ} {pdev : PhysicalDevice} {A : Arrays n} {σ : Equiv.Perm (Fin n)}
    (htypes : ∀ j, A.types pdev j = (A.permute σ).types pdev j)
    (h : ∀ b : Fin n → Binding, Injective (fun i => (b i).binding) →
      SameSupport pdev true (A.info b) ((A.permute σ).info (b ∘ σ))) :
    (∀ j, A.variableAt j = (A.permute σ).variableAt j) ∨
    ∃ last : Fin n, last.val = n - 1 ∧ A.types pdev last ≠ none ∧
      A.variableAt last = true ∧ (A.permute σ).variableAt last = true := by
  -- a block that is not followed by anything has the same bit in both orders
  have hspot : ∀ (j : Fin n) last, Behind pdev A j last → Behind pdev (A.permute σ) j last →
      A.variableAt j = (A.permute σ).variableAt j := by
    intro j last hA hA'
    have hanswer := (answer_of_sameSupport (h (probe (spot j last)) probe_injective)).2
    rw [Bool.eq_iff_iff, ← answer_spot hA, ← answer_spot hA', hanswer]
  by_cases hn : n = 0
  · subst hn
    exact .inl fun j => j.elim0
  let k : Fin n := ⟨n - 1, sub_lt (pos_of_ne_zero hn) one_pos⟩
  have hk : ∀ i : Fin n, i.val = n - 1 → i = k := fun i hi => Fin.ext hi
  have hbitk : A.variableAt k = (A.permute σ).variableAt k := by
    apply hspot k .other
    · exact fun i hne hi => absurd (hk i hi) hne
    · exact fun i hne hi => absurd (hk i hi) hne
  cases hbit : A.variableAt k with
  | false =>
    refine .inl fun j => hspot j .uniformBufferDynamic ?_ ?_
    · intro i _ hi
      rw [hk i hi]
      exact .inl ⟨rfl, hbit⟩
    · intro i _ hi
      rw [hk i hi]
      exact .inl ⟨rfl, hbitk.symm.trans hbit⟩
  | true =>
    by_cases hnone : A.types pdev k = none
    · refine .inl fun j => hspot j .mutableExt ?_ ?_
      · intro i _ hi
        rw [hk i hi]
        exact .inr ⟨rfl, hnone⟩
      · intro i _ hi
        rw [hk i hi]
        exact .inr ⟨rfl, (htypes k).symm.trans hnone⟩
    · exact .inr ⟨k, rfl, hnone, hbit, hbitk.symm.trans hbit⟩

end Arrays

/-- The bindings and the arrays parallel to them are listed in another order. For given bindings the
layout is the same if and only if the mutable ones find lists of types of the same sizes at their
positions among the sorted bindings, and the answer about support is the same if the lists and the
bits for variable descriptor counts agree at these positions. All bindings give the same if and only
if the arrays agree at all positions. -/
theorem permuted_iff {n : ℕ} (abi : Abi) (pdev : PhysicalDevice) (variableCount : Bool)
    (A : Arrays n) (σ : Equiv.Perm (Fin n)) :
    (∀ b : Fin n → Binding, Injective (fun i => (b i).binding) →
      (SameCreate abi pdev (A.info b) ((A.permute σ).info (b ∘ σ)) ↔
        MutableAgree pdev (A.info b) ((A.permute σ).info (b ∘ σ)) (A.info b).sorted) ∧
      (TypesAgree pdev (A.info b) ((A.permute σ).info (b ∘ σ)) (A.info b).sorted →
        (variableCount = true →
          FlagsAgree pdev (A.info b) ((A.permute σ).info (b ∘ σ)) (A.info b).sorted) →
        SameSupport pdev variableCount (A.info b) ((A.permute σ).info (b ∘ σ)))) ∧
    ((∀ b : Fin n → Binding, Injective (fun i => (b i).binding) →
      SameCreate abi pdev (A.info b) ((A.permute σ).info (b ∘ σ)) ∧
      SameSupport pdev variableCount (A.info b) ((A.permute σ).info (b ∘ σ))) ↔
      Arrays.Agree pdev variableCount A (A.permute σ)) := by
  refine ⟨fun b hb => ⟨?_, ?_⟩, ?_, ?_⟩
  · exact sameCreate_iff (A.reordered hb σ)
  · exact sameSupport_of_agree (A.reordered hb σ)
  · intro hsame
    have htypes := Arrays.types_of_same hsame
    refine ⟨htypes, fun hcount => ?_⟩
    subst hcount
    exact Arrays.bits_of_same htypes fun b hb => (hsame b hb).2
  · intro hagree b hb
    have htypes := hagree.typesAgree b (b ∘ σ)
    constructor
    · exact (sameCreate_iff (A.reordered hb σ)).mpr htypes.mutable
    · apply sameSupport_of_agree (A.reordered hb σ) htypes
      intro hcount
      subst hcount
      exact hagree.flagsAgree b (b ∘ σ)

/-- Two mutable bindings and storage images with a variable count. -/
def threeBindings (i : Fin 3) : Binding :=
  if i = 2 then ⟨2, .storageImage, 4, 0, none⟩ else ⟨i, .mutableExt, i + 1, 0, none⟩

/-- Their arrays. The lists of types differ and have the same sizes, and the first flags are others
than those of a variable count. -/
def threeArrays : Arrays 3 where
  flags := 0
  bindingFlags := some fun i => if i = 0 then 1 else if i = 1 then 4 else variableDescriptorCountBit
  mutableLists := some fun i =>
    if i = 0 then [.storageBuffer] else if i = 1 then [.uniformBuffer, .storageBuffer] else []

/-- The order of the two mutable bindings does not matter. -/
theorem permuted_iff_swap : Injective (fun i => (threeBindings i).binding) ∧
    SameCreate ⟨64, 32⟩ ⟨false, false⟩ (threeArrays.info threeBindings)
      ((threeArrays.permute (Equiv.swap 0 1)).info (threeBindings ∘ Equiv.swap 0 1)) ∧
    SameSupport ⟨false, false⟩ true (threeArrays.info threeBindings)
      ((threeArrays.permute (Equiv.swap 0 1)).info (threeBindings ∘ Equiv.swap 0 1)) := by
  have hdistinct : ∀ i j : Fin 3, (threeBindings i).binding = (threeBindings j).binding → i = j := by
    decide
  have hinj : Injective fun i => (threeBindings i).binding := fun i j => hdistinct i j
  have htypes : ∀ j, threeArrays.types ⟨false, false⟩ j =
      (threeArrays.permute (Equiv.swap 0 1)).types ⟨false, false⟩ j := by decide
  have hbits : ∀ j, threeArrays.variableAt j = (threeArrays.permute (Equiv.swap 0 1)).variableAt j := by
    decide
  exact ⟨hinj, (permuted_iff ⟨64, 32⟩ ⟨false, false⟩ true threeArrays (Equiv.swap 0 1)).2.mpr
    ⟨htypes, fun _ => .inl hbits⟩ _ hinj⟩

/-- A mutable binding of storage buffers, and one of sampled images with a variable count. -/
def mutableBindings (i : Fin 2) : Binding :=
  if i = 0 then ⟨0, .mutableExt, 1, 0, none⟩ else ⟨1, .mutableExt, 4, 0, none⟩

/-- Their arrays. -/
def mutableArrays : Arrays 2 where
  flags := 0
  bindingFlags := some fun i => if i = 0 then 0 else variableDescriptorCountBit
  mutableLists := some fun i => if i = 0 then [.storageBuffer] else [.sampledImage]

/-- Listed the other way round they give another layout and another limit. -/
theorem permuted_differs : Injective (fun i => (mutableBindings i).binding) ∧
    ¬ SameCreate ⟨64, 32⟩ ⟨false, false⟩ (mutableArrays.info mutableBindings)
      ((mutableArrays.permute (Equiv.swap 0 1)).info (mutableBindings ∘ Equiv.swap 0 1)) ∧
    ¬ SameSupport ⟨false, false⟩ true (mutableArrays.info mutableBindings)
      ((mutableArrays.permute (Equiv.swap 0 1)).info (mutableBindings ∘ Equiv.swap 0 1)) := by
  have hdistinct : ∀ i j : Fin 2, (mutableBindings i).binding = (mutableBindings j).binding → i = j := by
    decide
  refine ⟨fun i j => hdistinct i j, fun h => ?_, fun h => ?_⟩
  · have hsize := (h true true).bindingSize 0
    exact absurd hsize (by decide)
  · exact absurd (h true 0) (by decide)

end RadvXclipse.Descriptor
