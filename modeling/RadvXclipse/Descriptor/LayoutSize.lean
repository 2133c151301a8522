import RadvXclipse.Descriptor.LayoutOrder
import RadvXclipse.Descriptor.Pool

/-!
# The size of a set

For layouts without mutable descriptors, `set_layout->size` is computed from the alignments and the
bytes of the bindings alone. A variable count at allocation gives the size that a layout with this
count for the last binding has.
-/

namespace RadvXclipse.Descriptor

open Lib Util List CreateInfo Binding

/-- The bytes of one descriptor; an inline uniform block counts in bytes. -/
def Binding.descSize (pdev : PhysicalDevice) (b : Binding) : ℕ :=
  match b.descriptorType with
  | .uniformBuffer | .storageBuffer | .uniformTexelBuffer | .storageTexelBuffer => bufferDescSize
  | .storageImage => storageImageDescSize
  | .sampledImage | .inputAttachment => getSampledImageDescSize pdev
  | .combinedImageSampler => b.maxSampledImageDescriptors * getCombinedImageSamplerDescSize pdev % 2 ^ 32
  | .sampler => samplerDescSize
  | .inlineUniformBlock => 1
  | .accelerationStructure => accelStructDescSize
  | .uniformBufferDynamic | .storageBufferDynamic | .mutableExt | .other => 0

/-- The size after a binding with `n` descriptors. -/
def sizeStep (pdev : PhysicalDevice) (first pass size : ℕ) (bn : Binding × ℕ) : ℕ :=
  let alignment := descriptorAlignment bn.1.descriptorType
  if skips pass alignment first then size else add32 (align size alignment) (bn.2 * bn.1.descSize pdev)

/-- The size after both passes. -/
def sizeLoop (pdev : PhysicalDevice) (first : ℕ) (l : List (Binding × ℕ)) : ℕ :=
  l.foldl (sizeStep pdev first 1) (l.foldl (sizeStep pdev first 0) 0)

/-- The alignment of the bindings of the first pass, without mutable descriptors. -/
def firstAlignmentOf (bindings : List Binding) : ℕ :=
  match bindings.getLast? with
  | none => 32
  | some last => if descriptorAlignment last.descriptorType = 32 then 16 else 32

/-- Bindings as an application may pass them, here without mutable descriptors. -/
structure Plain (bindings : List Binding) : Prop where
  nodup : (bindings.map Binding.binding).Nodup
  not_mutable : ∀ b ∈ bindings, b.descriptorType ≠ .mutableExt

section Sizes

variable {pdev : PhysicalDevice} {info : CreateInfo} {bindings : List Binding} {b : Binding} {j : ℕ}

lemma bindingAlignment_of_ne (h : b.descriptorType ≠ .mutableExt) :
    info.bindingAlignment pdev b j = descriptorAlignment b.descriptorType := if_neg h

lemma firstAlignment_of_plain (h : Plain bindings) :
    info.firstAlignment pdev bindings = firstAlignmentOf bindings := by
  unfold firstAlignmentOf
  cases hlast : bindings.getLast? with
  | none =>
    unfold firstAlignment
    rw [hlast]
  | some last =>
    have hne := h.not_mutable last (mem_of_getLast? hlast)
    rw [firstAlignment_eq pdev info hlast, bindingAlignment_of_ne hne]

section

variable (pdev : PhysicalDevice)

variable (info : CreateInfo)

/-- The bytes that the loop adds for a binding. -/
theorem arraySize_mul_bindingSize (j : ℕ) (h : b.descriptorType ≠ .mutableExt) :
    b.arraySize * (info.bindingSize pdev b j).getD 0 = b.descriptorCount * b.descSize pdev := by
  unfold arraySize bindingSize descSize
  cases ht : b.descriptorType with
  | mutableExt => exact absurd ht h
  | inlineUniformBlock => simp
  | _ => rfl

/-- What the entries of the bindings have that no iteration writes. -/
def Clean (bindings : List Binding) (st : LayoutState) : Prop :=
  ∀ b ∈ bindings, (b.descriptorType = .other → (st.layout.binding b.binding).size = 0) ∧
    (b.isDynamic = false → (st.layout.binding b.binding).dynamicOffsetCount = 0)

lemma switchBinding_entry (b : Binding) (j : ℕ) (l : SetLayout) :
    (((info.switchBinding pdev b j l).binding b.binding).size =
      (info.bindingSize pdev b j).getD (l.binding b.binding).size) ∧
    ((info.switchBinding pdev b j l).binding b.binding).dynamicOffsetCount =
      (if b.isDynamic then 1 else (l.binding b.binding).dynamicOffsetCount) ∧
    (info.switchBinding pdev b j l).size = l.size := by
  unfold switchBinding
  by_cases h : b.isDynamic = true <;> simp [h, SetLayout.modify]

/-- One iteration, as far as sizes go. -/
theorem layoutBinding_sizes (first pass : ℕ) (st : LayoutState) (b : Binding) (j : ℕ) :
    (info.layoutBinding pdev first pass st (b, j)).layout.size =
      (if skips pass (info.bindingAlignment pdev b j) first then st.layout.size
      else add32 (align st.layout.size (info.bindingAlignment pdev b j))
        (b.arraySize * (info.bindingSize pdev b j).getD (st.layout.binding b.binding).size)) ∧
    (info.layoutBinding pdev first pass st (b, j)).dynamicOffsetCount =
      (if skips pass (info.bindingAlignment pdev b j) first then st.dynamicOffsetCount
      else add32 st.dynamicOffsetCount

    (b.arraySize * if b.isDynamic then 1 else (st.layout.binding b.binding).dynamicOffsetCount)) ∧
    ((info.layoutBinding pdev first pass st (b, j)).layout.binding b.binding).size =
      (info.bindingSize pdev b j).getD (st.layout.binding b.binding).size ∧
    ((info.layoutBinding pdev first pass st (b, j)).layout.binding b.binding).dynamicOffsetCount =
      (if b.isDynamic then 1 else (st.layout.binding b.binding).dynamicOffsetCount) := by
  obtain ⟨hsize, hdyn, hlayout⟩ := switchBinding_entry pdev info b j st.layout
  unfold layoutBinding
  by_cases h : skips pass (info.bindingAlignment pdev b j) first = true
  · simp [h, hsize, hdyn, hlayout]
  · simp [h, SetLayout.modify, hsize, hdyn, hlayout]

end

lemma Plain.eq_of_binding (h : Plain bindings) {c : Binding} (hb : b ∈ bindings) (hc : c ∈ bindings)
    (hbc : c.binding = b.binding) : c = b := inj_on_of_nodup_map h.nodup hc hb hbc

section

variable {st : LayoutState} {init : List Binding}

theorem Clean.step (h : Plain bindings) (hst : Clean bindings st) (hb : b ∈ bindings)
    (first pass j : ℕ) : Clean bindings (info.layoutBinding pdev first pass st (b, j)) := by
  intro c hc
  by_cases hcb : c.binding = b.binding
  · have hclean := hst c hc
    obtain ⟨_, _, hsize, hdyn⟩ := layoutBinding_sizes pdev info first pass st b j
    cases h.eq_of_binding hb hc hcb
    rw [hsize, hdyn]
    constructor
    · intro ht
      unfold bindingSize
      rw [ht]
      exact hclean.1 ht
    · intro hd
      rw [hd]
      exact hclean.2 hd
  · rw [layoutBinding_other hcb]
    exact hst c hc

/-- An iteration on a clean state, as far as the size goes. -/
theorem Clean.size_step (hst : Clean bindings st) (h : Plain bindings) (hb : b ∈ bindings)
    (first pass j : ℕ) :
    (info.layoutBinding pdev first pass st (b, j)).layout.size =
      sizeStep pdev first pass st.layout.size (b, b.descriptorCount) := by
  have hne := h.not_mutable b hb
  have hbytes : b.arraySize * (info.bindingSize pdev b j).getD (st.layout.binding b.binding).size =
      b.descriptorCount * b.descSize pdev := by
    rw [← arraySize_mul_bindingSize pdev info j hne]
    cases hs : info.bindingSize pdev b j with
    | some size => rfl
    | none =>
      have hother : b.descriptorType = .other := by
        unfold bindingSize at hs
        split at hs
        all_goals first | assumption | exact absurd hs (by simp)
      rw [Option.getD_none, Option.getD_none, (hst b hb).1 hother]
  rw [(layoutBinding_sizes pdev info first pass st b j).1, hbytes, bindingAlignment_of_ne hne]
  rfl

/-- The dynamic buffers of a binding. -/
def Binding.dynamicCount (b : Binding) : ℕ := if b.isDynamic then b.descriptorCount else 0

section

variable (pdev : PhysicalDevice)

variable (info : CreateInfo)

lemma Clean.dynamic_step (hst : Clean bindings st) (h : Plain bindings) (hb : b ∈ bindings)
    (first pass j : ℕ) :
    (info.layoutBinding pdev first pass st (b, j)).dynamicOffsetCount ≤ st.dynamicOffsetCount +
      if skips pass (descriptorAlignment b.descriptorType) first then 0 else b.dynamicCount := by
  have hcount : b.arraySize * (if b.isDynamic then 1
      else (st.layout.binding b.binding).dynamicOffsetCount) = b.dynamicCount := by
    unfold dynamicCount
    by_cases hd : b.isDynamic = true
    · rw [if_pos hd, if_pos hd, mul_one]
      apply if_neg
      intro ht
      unfold isDynamic at hd
      rw [ht] at hd
      exact absurd hd (by decide)
    · rw [if_neg hd, if_neg hd, (hst b hb).2 (Bool.eq_false_iff.mpr hd), mul_zero]
  rw [(layoutBinding_sizes pdev info first pass st b j).2.1, hcount,
    bindingAlignment_of_ne (h.not_mutable b hb)]
  split
  · exact le_rfl
  · exact Nat.mod_le _ _

/-- A pass over part of the bindings. -/
theorem Clean.foldl (hst : Clean bindings st) (h : Plain bindings) (first pass : ℕ)
    {l : List (Binding × ℕ)} (hl : ∀ bj ∈ l, bj.1 ∈ bindings) :
    Clean bindings (l.foldl (info.layoutBinding pdev first pass) st) ∧
    (l.foldl (info.layoutBinding pdev first pass) st).layout.size =
      (l.map fun bj => (bj.1, bj.1.descriptorCount)).foldl (sizeStep pdev first pass) st.layout.size ∧
    (l.foldl (info.layoutBinding pdev first pass) st).dynamicOffsetCount ≤ st.dynamicOffsetCount +
      (l.map fun bj => if skips pass (descriptorAlignment bj.1.descriptorType) first then 0
        else bj.1.dynamicCount).sum := by
  induction l generalizing st with
  | nil => exact ⟨hst, rfl, le_rfl⟩
  | cons bj l ih =>
    obtain ⟨b, j⟩ := bj
    have hb : b ∈ bindings := hl (b, j) mem_cons_self
    have hdyn := Clean.dynamic_step pdev info hst h hb first pass j
    obtain ⟨hc, hs, hd⟩ := ih (hst.step h hb first pass j) (fun c hc => hl c (mem_cons_of_mem _ hc))
    refine ⟨hc, ?_, ?_⟩
    · rw [foldl_cons, hs, hst.size_step h hb first pass j, map_cons, foldl_cons]
    · rw [foldl_cons, map_cons, sum_cons]
      dsimp only at hd ⊢
      omega

/-- The bindings with their counts, the last one with a variable count if there is one. -/
def counted (bindings : List Binding) (variableCount : ℕ) : List (Binding × ℕ) :=
  (bindings.dropLast.map fun b => (b, b.descriptorCount)) ++
    bindings.getLast?.toList.map fun b => (b, if variableCount ≠ 0 then variableCount else b.descriptorCount)

section

variable (bindings : List Binding)

lemma counted_zero : counted bindings 0 = bindings.map fun b => (b, b.descriptorCount) := by
  unfold counted
  cases h : bindings.getLast? with
  | none =>
    rw [getLast?_eq_none_iff.mp h]
    rfl
  | some last =>
    have happ := dropLast_append_getLast? last (Option.mem_def.mpr h)
    nth_rewrite 2 [← happ]
    rw [map_append]
    rfl

lemma counted_concat (init : List Binding) (last : Binding) (variableCount : ℕ) :
    counted (init ++ [last]) variableCount = (init.map fun b => (b, b.descriptorCount)) ++
      [(last, if variableCount ≠ 0 then variableCount else last.descriptorCount)] := by
  unfold counted
  rw [dropLast_concat, getLast?_concat]
  rfl

lemma map_zipIdx {α : Type*} (f : Binding → α) :
    (bindings.zipIdx.map fun bj => f bj.1) = bindings.map f := by
  conv_rhs => rw [← zipIdx_map_fst 0 bindings, map_map]
  rfl

end

/-- A binding is placed in one of the two passes. -/
theorem sum_passes (first : ℕ) (f : Binding × ℕ → ℕ) (l : List (Binding × ℕ)) :
    (l.map fun bj => if skips 0 (descriptorAlignment bj.1.descriptorType) first then 0 else f bj).sum +
    (l.map fun bj => if skips 1 (descriptorAlignment bj.1.descriptorType) first then 0
      else f bj).sum = (l.map f).sum := by
  induction l with
  | nil => rfl
  | cons bj l ih =>
    simp only [map_cons, sum_cons, skips_one] at ih ⊢
    cases skips 0 _ first <;>
      simp only [Bool.not_false, Bool.not_true, if_true, Bool.false_eq_true, if_false] <;> omega

/-- The state after both passes. -/
theorem Clean.layoutLoop (hst : Clean bindings st) (h : Plain bindings) (hzero : st.layout.size = 0)
    (hdyn : st.dynamicOffsetCount = 0) :
    (info.layoutLoop pdev bindings st).layout.size = sizeLoop pdev (firstAlignmentOf bindings)
    (counted bindings 0) ∧
    (info.layoutLoop pdev bindings st).dynamicOffsetCount ≤ (bindings.map Binding.dynamicCount).sum := by
  have hmem : ∀ bj ∈ bindings.zipIdx, bj.1 ∈ bindings := fun bj hbj => fst_mem_of_mem_zipIdx hbj
  obtain ⟨hc, hs, hd⟩ := Clean.foldl pdev info hst h _ 0 hmem
  obtain ⟨_, hs', hd'⟩ := Clean.foldl pdev info hc h _ 1 hmem
  unfold CreateInfo.layoutLoop sizeLoop
  dsimp only
  rw [firstAlignment_of_plain h]
  constructor
  · rw [hs', hs, hzero, map_zipIdx bindings fun b => (b, b.descriptorCount), counted_zero]
  · have htotal := sum_passes (firstAlignmentOf bindings) (fun bj => bj.1.dynamicCount) bindings.zipIdx
    rw [map_zipIdx bindings dynamicCount] at htotal
    omega

/-- What an iteration writes into the entry of its binding. -/
theorem layoutBinding_entry (first pass : ℕ) (st : LayoutState) (b : Binding) (j : ℕ)
    (h : skips pass (info.bindingAlignment pdev b j) first = false) :
    ((info.layoutBinding pdev first pass st (b, j)).layout.binding b.binding).type = b.descriptorType ∧
    ((info.layoutBinding pdev first pass st (b, j)).layout.binding b.binding).offset =
      align st.layout.size (info.bindingAlignment pdev b j) := by
  obtain ⟨_, _, hlayout⟩ := switchBinding_entry pdev info b j st.layout
  unfold layoutBinding
  simp [h, SetLayout.modify, hlayout]

end

/-- The last binding is placed in the second pass. -/
theorem skips_concat (init : List Binding) (last : Binding) :
    skips 0 (descriptorAlignment last.descriptorType) (firstAlignmentOf (init ++ [last])) = true ∧
    skips 1 (descriptorAlignment last.descriptorType) (firstAlignmentOf (init ++ [last])) = false := by
  unfold firstAlignmentOf skips
  rw [getLast?_concat]
  by_cases h : descriptorAlignment last.descriptorType = 32 <;> simp [h]

lemma descSize_of_entry {size : ℕ} (hne : b.descriptorType ≠ .mutableExt)
    (hother : b.descriptorType = .other → size = 0) :
    (if b.descriptorType = .inlineUniformBlock then 1 else (info.bindingSize pdev b j).getD size) =
      b.descSize pdev := by
  unfold bindingSize descSize
  cases ht : b.descriptorType with
  | mutableExt => exact absurd ht hne
  | other => simp [hother ht]
  | _ => rfl

/-- The last binding is placed last, and its entry says where. -/
theorem Clean.last (pdev : PhysicalDevice) (info : CreateInfo) {last : Binding}
    (hst : Clean (init ++ [last]) st) (h : Plain (init ++ [last])) (hzero : st.layout.size = 0) :
    let e := (info.layoutLoop pdev (init ++ [last]) st).layout.binding last.binding
    let first := firstAlignmentOf (init ++ [last])
    let l := init.map fun b => (b, b.descriptorCount)
    e.offset = align (l.foldl (sizeStep pdev first 1) (l.foldl (sizeStep pdev first 0) 0))
      (descriptorAlignment last.descriptorType) ∧
    (if e.type = .inlineUniformBlock then 1 else e.size) = last.descSize pdev := by
  intro e first l
  have hlast : last ∈ init ++ [last] := by simp
  have hne := h.not_mutable last hlast
  have hzip : (init ++ [last]).zipIdx = init.zipIdx ++ [(last, init.length)] := by
    rw [zipIdx_append, zero_add]
    rfl
  have hmem : ∀ bj ∈ (init ++ [last]).zipIdx, bj.1 ∈ init ++ [last] := fun bj hbj => fst_mem_of_mem_zipIdx hbj
  have hmem' : ∀ bj ∈ init.zipIdx, bj.1 ∈ init ++ [last] :=
    fun bj hbj => mem_append_left _ (fst_mem_of_mem_zipIdx hbj)
  -- the state after the first pass, and before the last iteration
  obtain ⟨hc, hs, _⟩ := Clean.foldl pdev info hst h first 0 hmem
  obtain ⟨hc', hs', _⟩ := Clean.foldl pdev info hc h first 1 hmem'
  obtain ⟨hskip', hskip⟩ := skips_concat init last
  rw [map_zipIdx _ fun b => (b, b.descriptorCount), map_append, foldl_append, hzero] at hs
  have hfirst : (List.map (fun b => (b, b.descriptorCount)) [last]).foldl (sizeStep pdev first 0)
      (l.foldl (sizeStep pdev first 0) 0) = l.foldl (sizeStep pdev first 0) 0 := by
    show sizeStep pdev first 0 _ (last, last.descriptorCount) = _
    exact if_pos hskip'
  rw [hfirst] at hs
  rw [map_zipIdx _ fun b => (b, b.descriptorCount), hs] at hs'
  generalize hst' : init.zipIdx.foldl (info.layoutBinding pdev first 1)
    ((init ++ [last]).zipIdx.foldl (info.layoutBinding pdev first 0) st) = st' at hc' hs'
  have heq : info.layoutLoop pdev (init ++ [last]) st =
      info.layoutBinding pdev first 1 st' (last, init.length) := by
    unfold CreateInfo.layoutLoop
    rw [firstAlignment_of_plain h, ← hst']
    nth_rewrite 2 [hzip]
    rw [foldl_append]
    rfl
  have hentry := layoutBinding_entry pdev info first 1 st' last init.length
    (by rw [bindingAlignment_of_ne hne]; exact hskip)
  have hsize := (layoutBinding_sizes pdev info first 1 st' last init.length).2.2.1
  rw [← heq] at hentry hsize
  rw [hs', bindingAlignment_of_ne hne] at hentry
  refine ⟨hentry.2, ?_⟩
  show (if e.type = .inlineUniformBlock then 1 else e.size) = last.descSize pdev
  rw [show e.type = last.descriptorType from hentry.1, show e.size = _ from hsize]
  exact descSize_of_entry hne (hc' last hlast).1

/-! ## Sets -/

lemma clean_initState (abi : Abi) (info : CreateInfo) (bindings : List Binding) :
    Clean bindings (info.initState abi) := fun _ _ => ⟨fun _ => rfl, fun _ => rfl⟩

/-- The highest number is that of the last of the sorted bindings. -/
theorem numBindings_eq {last : Binding} (hsorted : info.sorted = init ++ [last])
    (hlt : ∀ b ∈ info.pBindings, b.binding + 1 < 2 ^ 32) : info.numBindings = last.binding + 1 := by
  have hperm : (init ++ [last]).Perm info.pBindings := by
    rw [← hsorted]
    exact createSortedBindings_perm info.pBindings
  have hpair := createSortedBindings_pairwise info.pBindings
  rw [show (createSortedBindings info.pBindings none).1 = init ++ [last] from hsorted] at hpair
  have hlast : last ∈ info.pBindings := hperm.subset (by simp)
  have hle : ∀ b ∈ info.pBindings, b.binding ≤ last.binding := by
    intro b hb
    rcases mem_append.mp (hperm.symm.subset hb) with hb | hb
    · exact (pairwise_append.mp hpair).2.2 b hb last (mem_singleton_self last)
    · rw [mem_singleton.mp hb]
  apply le_antisymm
  · apply foldl_invariant (P := fun n => n ≤ last.binding + 1) (Nat.zero_le _)
    intro b hb n hn
    rw [add32_of_lt (hlt b hb)]
    have := hle b hb
    omega
  · apply foldl_of_mem (I := fun _ => True) (P := fun n => last.binding + 1 ≤ n) trivial
      (fun _ _ _ _ => trivial) hlast
    · intro n _
      rw [add32_of_lt (hlt last hlast)]
      exact le_max_right _ _
    · intro b _ n _ hn
      exact hn.trans (le_max_left _ _)

end

lemma layoutBinding_bindingCount (first pass : ℕ) (st : LayoutState) (bj : Binding × ℕ) :
    (info.layoutBinding pdev first pass st bj).layout.bindingCount = st.layout.bindingCount := by
  unfold layoutBinding switchBinding SetLayout.modify
  dsimp only
  split_ifs <;> rfl

lemma layoutLoop_bindingCount (st : LayoutState) :
    (info.layoutLoop pdev bindings st).layout.bindingCount = st.layout.bindingCount := by
  have hpass : ∀ first pass (l : List (Binding × ℕ)) (st : LayoutState),
      (l.foldl (info.layoutBinding pdev first pass) st).layout.bindingCount = st.layout.bindingCount := by
    intro first pass l st
    apply foldl_invariant (P := fun s : LayoutState => s.layout.bindingCount = st.layout.bindingCount) rfl
    intro bj _ s hs
    rw [layoutBinding_bindingCount, hs]
  unfold layoutLoop
  rw [hpass, hpass]

/-- What an allocation from a pool passes: a layout, and a variable count or zero. -/
structure Allocation where
  info : CreateInfo
  variableCount : ℕ

/-- Allocations as an application may make them, without mutable descriptors. -/
structure Allocation.Valid (a : Allocation) : Prop where
  nodup : (a.info.pBindings.map Binding.binding).Nodup
  binding_lt : a.variableCount ≠ 0 → ∀ b ∈ a.info.pBindings, b.binding + 1 < 2 ^ 32
  not_mutable : ∀ b ∈ a.info.pBindings, b.descriptorType ≠ .mutableExt
  /-- without a binding there is none with a variable count -/
  ne_nil : a.variableCount ≠ 0 → a.info.pBindings ≠ []

/-- The bindings of an allocation with the numbers of descriptors that it needs. -/
def Allocation.counts (a : Allocation) : List (Binding × ℕ) := counted a.info.sorted a.variableCount

variable {a : Allocation}

lemma Allocation.Valid.plain (h : a.Valid) : Plain a.info.sorted := by
  refine ⟨nodup_createSortedBindings h.nodup, fun b hb => ?_⟩
  exact h.not_mutable b ((createSortedBindings_perm a.info.pBindings).subset hb)

/-- The size of a set is the size for the counts of its allocation. -/
theorem Allocation.Valid.setSize (h : a.Valid) (abi : Abi) (pdev : PhysicalDevice) :
    (a.info.setLayout abi pdev).setSize a.variableCount =
      align (sizeLoop pdev (firstAlignmentOf a.info.sorted) a.counts) 32 := by
  have hclean := clean_initState abi a.info a.info.sorted
  have hsize := (Clean.layoutLoop pdev a.info hclean h.plain rfl rfl).1
  unfold SetLayout.setSize Allocation.counts
  dsimp only
  congr 1
  by_cases hv : a.variableCount = 0
  · rw [if_neg (not_not_intro hv), hv]
    exact hsize
  · rw [if_pos hv]
    have hne : a.info.sorted ≠ [] := by
      intro hnil
      have hlen := (createSortedBindings_perm a.info.pBindings).length_eq
      rw [show (createSortedBindings a.info.pBindings none).1 = [] from hnil] at hlen
      exact h.ne_nil hv (length_eq_zero_iff.mp hlen.symm)
    rcases eq_nil_or_concat a.info.sorted with hnil | ⟨init, last, hsorted⟩
    · exact absurd hnil hne
    · rw [concat_eq_append] at hsorted
      have hplain := h.plain
      have hnum := numBindings_eq hsorted (h.binding_lt hv)
      have hlast : last ∈ a.info.pBindings := (createSortedBindings_perm a.info.pBindings).subset (by
          show last ∈ a.info.sorted
          rw [hsorted]
          simp)
      have hlt := h.binding_lt hv last hlast
      rw [hsorted] at hclean hplain ⊢
      obtain ⟨hoffset, hstride⟩ := Clean.last pdev a.info hclean hplain rfl
      have hcount : sub32 (a.info.setLayout abi pdev).bindingCount 1 = last.binding := by
        show sub32 (a.info.layoutLoop pdev a.info.sorted (a.info.initState abi)).layout.bindingCount
          1 = last.binding
        rw [layoutLoop_bindingCount]
        show sub32 a.info.numBindings 1 = last.binding
        rw [hnum, sub32_of_le (by omega) hlt, Nat.add_sub_cancel]
      have hentry : (a.info.setLayout abi pdev).binding last.binding =
          (a.info.layoutLoop pdev (init ++ [last]) (a.info.initState abi)).layout.binding last.binding := by
        rw [← hsorted]
        rfl
      rw [hcount, hentry, hoffset, hstride, counted_concat, if_pos hv]
      unfold sizeLoop
      rw [foldl_append, foldl_append]
      obtain ⟨hskip', hskip⟩ := skips_concat init last
      simp only [foldl_cons, foldl_nil, sizeStep, hskip, hskip', if_true, Bool.false_eq_true, if_false]

end Sizes

end RadvXclipse.Descriptor
