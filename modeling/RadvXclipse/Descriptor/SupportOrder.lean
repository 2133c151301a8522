import RadvXclipse.Descriptor.LayoutOrder

/-!
# The order of the bindings and the support query

`radv_GetDescriptorSetLayoutSupport` walks over the bindings as the layout code does. It also
reports the largest variable descriptor count, for the last binding it comes to whose flags ask for
it.
-/

namespace RadvXclipse.Descriptor

open Lib Util List CreateInfo

/-- The mutable bindings get lists of types of the same size, or no usable ones. -/
def TypesAgree (pdev : PhysicalDevice) (info info' : CreateInfo) (bindings : List Binding) : Prop :=
  ∀ bj ∈ bindings.zipIdx, bj.1.descriptorType = .mutableExt →
    mutableDescriptorTypeSizeAlignment pdev (info.typeList bj.2) =
      mutableDescriptorTypeSizeAlignment pdev (info'.typeList bj.2)

theorem TypesAgree.mutable {pdev : PhysicalDevice} {info info' : CreateInfo} {bindings : List Binding}
    (h : TypesAgree pdev info info' bindings) : MutableAgree pdev info info' bindings := by
  intro bj hbj ht
  unfold mutableSize
  rw [h bj hbj ht]

section Agree

variable {pdev : PhysicalDevice} {info info' : CreateInfo} {bindings : List Binding}

/-- The state of the support loop without the reported count. -/
def SupportState.forget (st : SupportState) : SupportState :=
  { st with maxVariableDescriptorCount := st.maxVariableDescriptorCount.map fun _ => 0 }

section

variable {st st' : SupportState}

lemma forget_eq_iff : st.forget = st'.forget ↔
    st.supported = st'.supported ∧ st.size = st'.size ∧
    st.maxVariableDescriptorCount.isSome = st'.maxVariableDescriptorCount.isSome := by
  unfold SupportState.forget
  cases st.maxVariableDescriptorCount <;> cases st'.maxVariableDescriptorCount <;> simp

lemma supportBinding_isSome (first pass : ℕ) (st : SupportState) (b : Binding) (i : ℕ) :
    (info.supportBinding pdev first pass st (b, i)).maxVariableDescriptorCount.isSome =
      st.maxVariableDescriptorCount.isSome := by
  simp only [supportBinding]
  split_ifs <;> simp

section Binding

variable {b : Binding} {i first pass : ℕ}
  (h : b.descriptorType = .mutableExt → mutableDescriptorTypeSizeAlignment pdev (info.typeList i) =
    mutableDescriptorTypeSizeAlignment pdev (info'.typeList i))
include h

lemma supportSize_congr : info.supportSize pdev b i = info'.supportSize pdev b i := by
  unfold supportSize
  cases ht : b.descriptorType with
  | mutableExt =>
    rw [h ht]
  | _ => rfl

lemma supportAlignment_congr : info.supportAlignment pdev b i = info'.supportAlignment pdev b i := by
  unfold supportAlignment
  by_cases ht : b.descriptorType = .mutableExt
  · rw [if_pos ht, if_pos ht, h ht]
  · rw [if_neg ht, if_neg ht]

lemma unsupportedTypes_congr : info.unsupportedTypes pdev b i = info'.unsupportedTypes pdev b i := by
  unfold unsupportedTypes
  by_cases ht : b.descriptorType = .mutableExt
  · rw [h ht]
  · simp [ht]

lemma maxCount_congr (size : ℕ) : info.maxCount pdev b i size = info'.maxCount pdev b i size := by
  unfold maxCount
  rw [supportSize_congr h]

/-- The iterations are the same if the flags of the position are. -/
theorem supportBinding_congr (hbit : info.variableAt i = info'.variableAt i) (first pass : ℕ)
    (st : SupportState) :
    info.supportBinding pdev first pass st (b, i) = info'.supportBinding pdev first pass st (b, i) := by
  simp only [supportBinding, supportSize_congr h, supportAlignment_congr h,
    unsupportedTypes_congr h, maxCount_congr h, hbit]

/-- Whatever the flags are, the iterations differ at most in the reported count. -/
theorem supportBinding_forget (hst : st.forget = st'.forget) :
    (info.supportBinding pdev first pass st (b, i)).forget =
      (info'.supportBinding pdev first pass st' (b, i)).forget := by
  rw [forget_eq_iff] at hst ⊢
  obtain ⟨hsupported, hsize, hsome⟩ := hst
  refine ⟨?_, ?_, ?_⟩
  · simp only [supportBinding, supportAlignment_congr h, unsupportedTypes_congr h,
      maxCount_congr h, hsupported, hsize]
    split_ifs <;> rfl
  · simp only [supportBinding, supportAlignment_congr h, supportSize_congr h, hsize]
    split_ifs <;> rfl
  · rw [supportBinding_isSome, supportBinding_isSome, hsome]

/-- An iteration that reports a count does not depend on what was reported before. -/
theorem supportBinding_last (hskips : skips pass (info.supportAlignment pdev b i) first = false)
    (hbit : info.variableAt i = true) (hbit' : info'.variableAt i = true)
    (hst : st.forget = st'.forget) :
    info.supportBinding pdev first pass st (b, i) = info'.supportBinding pdev first pass st' (b, i) := by
  obtain ⟨hsupported, hsize, hsome⟩ := forget_eq_iff.mp hst
  have hmap : ∀ n : ℕ, st.maxVariableDescriptorCount.map (fun _ => n) =
      st'.maxVariableDescriptorCount.map fun _ => n := by
    intro n
    cases hc : st.maxVariableDescriptorCount <;> cases hc' : st'.maxVariableDescriptorCount <;>
      simp [hc, hc'] at hsome ⊢
  rw [supportAlignment_congr h] at hskips
  simp only [supportBinding, supportSize_congr h, supportAlignment_congr h,
    unsupportedTypes_congr h, maxCount_congr h, hskips, hbit, hbit', hsupported, hsize, hmap,
    Bool.false_eq_true, if_false, if_true]

end Binding

end

section

variable {st st' : SupportState} {last : Binding}

lemma supportLoop_isSome (st : SupportState) :
    (info.supportLoop pdev bindings st).maxVariableDescriptorCount.isSome =
      st.maxVariableDescriptorCount.isSome := by
  have hpass : ∀ first pass (st : SupportState),
      (bindings.zipIdx.foldl (info.supportBinding pdev first pass) st).maxVariableDescriptorCount.isSome =
        st.maxVariableDescriptorCount.isSome := by
    intro first pass st
    refine foldl_invariant (P := fun s : SupportState => s.maxVariableDescriptorCount.isSome =
      st.maxVariableDescriptorCount.isSome) rfl ?_
    intro ⟨b, i⟩ _ s hs
    rw [supportBinding_isSome, hs]
  simp only [supportLoop]
  rw [hpass, hpass]

lemma foldl_supportBinding_forget {l : List (Binding × ℕ)}
    (h : ∀ bi ∈ l, bi.1.descriptorType = .mutableExt →
      mutableDescriptorTypeSizeAlignment pdev (info.typeList bi.2) =
        mutableDescriptorTypeSizeAlignment pdev (info'.typeList bi.2))
    (first pass : ℕ) (hst : st.forget = st'.forget) :
    (l.foldl (info.supportBinding pdev first pass) st).forget =
      (l.foldl (info'.supportBinding pdev first pass) st').forget := by
  refine foldl_rel (r := fun st st' : SupportState => st.forget = st'.forget) hst ?_
  intro ⟨b, i⟩ hbi st st' hst
  exact supportBinding_forget (h (b, i) hbi) hst

lemma supportLoop_forget (h : TypesAgree pdev info info' bindings) (st : SupportState) :
    (info.supportLoop pdev bindings st).forget = (info'.supportLoop pdev bindings st).forget := by
  simp only [supportLoop]
  rw [firstAlignment_congr h.mutable]
  apply foldl_supportBinding_forget h
  exact foldl_supportBinding_forget h _ _ rfl

/-- The same bits at every position give the same answers. -/
theorem supportLoop_congr (h : TypesAgree pdev info info' bindings)
    (hbits : ∀ j < bindings.length, info.variableAt j = info'.variableAt j) (st : SupportState) :
    info.supportLoop pdev bindings st = info'.supportLoop pdev bindings st := by
  have hpass : ∀ first pass st, bindings.zipIdx.foldl (info.supportBinding pdev first pass) st =
      bindings.zipIdx.foldl (info'.supportBinding pdev first pass) st := by
    intro first pass st
    refine foldl_rel (r := fun st st' : SupportState => st = st') rfl ?_
    intro ⟨b, i⟩ hbi st st' hst
    rw [hst]
    exact supportBinding_congr (h (b, i) hbi) (hbits i (mem_zipIdx' hbi).1) _ _ _
  simp only [supportLoop]
  rw [firstAlignment_congr h.mutable, hpass, hpass]

/-- The last binding comes last, unless its list of types cannot be used. -/
theorem skips_last (hlast : bindings.getLast? = some last)
    (hsupported : info.unsupportedTypes pdev last (bindings.length - 1) = false) :
    skips 1 (info.supportAlignment pdev last (bindings.length - 1)) (info.firstAlignment pdev bindings) = false := by
  have halign : info.supportAlignment pdev last (bindings.length - 1) =
      info.bindingAlignment pdev last (bindings.length - 1) := by
    unfold supportAlignment bindingAlignment
    by_cases ht : last.descriptorType = .mutableExt
    · rw [if_pos ht, if_pos ht]
      cases htypes : mutableDescriptorTypeSizeAlignment pdev _ with
      | some r => rfl
      | none => simp [unsupportedTypes, ht, htypes] at hsupported
    · rw [if_neg ht, if_neg ht]
  rw [halign, firstAlignment_eq pdev info hlast]
  unfold skips
  split_ifs with h32 <;> simp [h32]

/-- The count is reported for the last binding if its flags ask for it. -/
theorem supportLoop_last (h : TypesAgree pdev info info' bindings)
    (hlast : bindings.getLast? = some last)
    (hsupported : info.unsupportedTypes pdev last (bindings.length - 1) = false)
    (hbit : info.variableAt (bindings.length - 1) = true)
    (hbit' : info'.variableAt (bindings.length - 1) = true) (st : SupportState) :
    info.supportLoop pdev bindings st = info'.supportLoop pdev bindings st := by
  have hskips := skips_last hlast hsupported
  have hzip : bindings.zipIdx.getLast? = some (last, bindings.length - 1) := by
    rw [getLast?_zipIdx, hlast, zero_add]
    rfl
  -- the iterations before the last one of the second pass
  obtain ⟨init, hinit⟩ := getLast?_eq_some_iff.mp hzip
  simp only [supportLoop]
  rw [firstAlignment_congr h.mutable] at hskips ⊢
  generalize info'.firstAlignment pdev bindings = first at hskips ⊢
  have hpass : (bindings.zipIdx.foldl (info.supportBinding pdev first 0) st).forget =
      (bindings.zipIdx.foldl (info'.supportBinding pdev first 0) st).forget :=
    foldl_supportBinding_forget h first 0 rfl
  generalize bindings.zipIdx.foldl (info.supportBinding pdev first 0) st = s at hpass
  generalize bindings.zipIdx.foldl (info'.supportBinding pdev first 0) st = s' at hpass
  unfold TypesAgree at h
  rw [hinit] at h ⊢
  rw [foldl_append, foldl_append, foldl_cons, foldl_cons, foldl_nil, foldl_nil]
  exact supportBinding_last (h _ (mem_append_right _ (mem_singleton_self _))) hskips hbit hbit'
    (foldl_supportBinding_forget (fun bi hbi => h bi (mem_append_left _ hbi)) first 1 hpass)

end

end Agree

/-! ## The answer -/

/-- `radv_GetDescriptorSetLayoutSupport` gives the same for two orders. -/
def SameSupport (pdev : PhysicalDevice) (variableCount : Bool) (info info' : CreateInfo) : Prop :=
  ∀ malloc unwritten, getDescriptorSetLayoutSupport pdev malloc variableCount unwritten info =
    getDescriptorSetLayoutSupport pdev malloc variableCount unwritten info'

/-- The bits for variable descriptor counts are at the same positions, or at the last one in both
orders. The last binding must then come last. -/
def FlagsAgree (pdev : PhysicalDevice) (info info' : CreateInfo) (bindings : List Binding) : Prop :=
  (∀ j < bindings.length, info.variableAt j = info'.variableAt j) ∨
  ∃ last, bindings.getLast? = some last ∧
    info.unsupportedTypes pdev last (bindings.length - 1) = false ∧
    info.variableAt (bindings.length - 1) = true ∧ info'.variableAt (bindings.length - 1) = true

lemma sameSupport_of_agree {pdev : PhysicalDevice} {variableCount : Bool} {info info' : CreateInfo}
    (h : Reordered info info') (htypes : TypesAgree pdev info info' info.sorted)
    (hflags : variableCount = true → FlagsAgree pdev info info' info.sorted) :
    SameSupport pdev variableCount info info' := by
  intro malloc unwritten
  simp only [getDescriptorSetLayoutSupport, decide_eq_decide.mpr h.ne_nil, h.sorted]
  split_ifs with hm hcount hcount
  · rfl
  · rfl
  · rcases hflags hcount with hbits | ⟨last, hlast, hsupported, hbit, hbit'⟩
    · rw [supportLoop_congr htypes hbits]
    · rw [supportLoop_last htypes hlast hsupported hbit hbit']
  · -- nothing is reported
    have hforget := supportLoop_forget htypes ⟨true, 0, none⟩
    obtain ⟨hsupported, -, -⟩ := forget_eq_iff.mp hforget
    have hnone : ∀ (info : CreateInfo) bindings,
        (info.supportLoop pdev bindings ⟨true, 0, none⟩).maxVariableDescriptorCount = none := by
      intro info bindings
      rw [← Option.isNone_iff_eq_none, ← Option.not_isSome, supportLoop_isSome]
      rfl
    rw [hsupported, hnone, hnone]

end RadvXclipse.Descriptor
