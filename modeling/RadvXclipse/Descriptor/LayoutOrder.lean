import Mathlib.Data.List.FinRange
import RadvXclipse.Descriptor.Layout
import RadvXclipse.Lib.Fold

/-!
# The order of the bindings

The bindings are sorted by their numbers, but the arrays that run parallel to them are not: the
position of a binding among the sorted ones is used as an index into arrays in the order of the
application. What follows is what the order of the application can change.
-/

namespace RadvXclipse.Descriptor

open Lib Util List CreateInfo

/-! ## Sorted bindings -/

lemma createSortedBindings_perm (l : List Binding) : (createSortedBindings l none).1.Perm l := by
  have hsort := (perm_insertionSort (fun a b : Binding × BitVec 32 => a.1.binding ≤ b.1.binding)
    (l.zipIdx.map fun b => (b.1, 0))).map Prod.fst
  have hzip : (l.zipIdx.map fun b => (b.1, (0 : BitVec 32))).map Prod.fst = l := by
    rw [map_map]
    exact zipIdx_map_fst 0 l
  rw [hzip] at hsort
  exact hsort

lemma createSortedBindings_pairwise (l : List Binding) :
    (createSortedBindings l none).1.Pairwise fun a b => a.binding ≤ b.binding := by
  have htotal : Std.Total fun a b : Binding × BitVec 32 => a.1.binding ≤ b.1.binding :=
    ⟨fun a b => le_total _ _⟩
  have htrans : IsTrans (Binding × BitVec 32) fun a b => a.1.binding ≤ b.1.binding := ⟨fun _ _ _ => le_trans⟩
  exact pairwise_map.mpr (pairwise_insertionSort _ _)

/-- With distinct numbers the sorted bindings do not depend on the order of the application. -/
theorem createSortedBindings_eq_of_perm {l l' : List Binding} (hperm : l.Perm l')
    (hnodup : (l.map Binding.binding).Nodup) :
    (createSortedBindings l none).1 = (createSortedBindings l' none).1 := by
  apply Perm.eq_of_pairwise _ (createSortedBindings_pairwise l) (createSortedBindings_pairwise l')
  · exact (createSortedBindings_perm l).trans (hperm.trans (createSortedBindings_perm l').symm)
  · intro a b ha hb hab hba
    have ha' : a ∈ l := (createSortedBindings_perm l).mem_iff.mp ha
    have hb' : b ∈ l := hperm.mem_iff.mpr ((createSortedBindings_perm l').mem_iff.mp hb)
    exact inj_on_of_nodup_map hnodup ha' hb' (le_antisymm hab hba)

lemma nodup_createSortedBindings {l : List Binding} (hnodup : (l.map Binding.binding).Nodup) :
    ((createSortedBindings l none).1.map Binding.binding).Nodup :=
  ((createSortedBindings_perm l).map _).nodup_iff.mpr hnodup

/-! ## Lists of types -/

lemma mutableTypeSize_align {pdev : PhysicalDevice} {t : DescriptorType} {size : ℕ}
    (h : mutableTypeSize pdev t = some size) : descriptorAlignment t = min size 32 := by
  cases t <;> cases h
  case sampledImage.refl =>
    show 32 = min (getSampledImageDescSize pdev) 32
    unfold getSampledImageDescSize
    omega
  all_goals rfl

/-- The alignment of a list of types is known from its size. -/
theorem mutableSizeAlignmentLoop_align {pdev : PhysicalDevice} {list : List DescriptorType}
    {size alignment : ℕ} {r : ℕ × ℕ} (h : mutableSizeAlignmentLoop pdev list size alignment = some r)
    (halign : alignment = min size 32) : r.2 = min r.1 32 := by
  induction list generalizing size alignment with
  | nil =>
    cases h
    exact halign
  | cons t list ih =>
    unfold mutableSizeAlignmentLoop at h
    cases hsize : mutableTypeSize pdev t with
    | none =>
      rw [hsize] at h
      exact nomatch h
    | some n =>
      rw [hsize] at h
      have ht := mutableTypeSize_align hsize
      exact ih h (by omega)

lemma mutableDescriptorTypeSizeAlignment_align (pdev : PhysicalDevice) (list : List DescriptorType) :
    ((mutableDescriptorTypeSizeAlignment pdev list).getD (0, 0)).2 =
      min ((mutableDescriptorTypeSizeAlignment pdev list).getD (0, 0)).1 32 := by
  cases h : mutableDescriptorTypeSizeAlignment pdev list with
  | none => rfl
  | some r => exact mutableSizeAlignmentLoop_align h rfl

/-! ## What the layout loop reads of the arrays -/

/-- The size of the list of types at a position, as `radv_CreateDescriptorSetLayout` reads it. -/
def CreateInfo.mutableSize (pdev : PhysicalDevice) (info : CreateInfo) (j : ℕ) : ℕ :=
  ((mutableDescriptorTypeSizeAlignment pdev (info.typeList j)).getD (0, 0)).1

/-- The mutable bindings get descriptors of the same sizes. -/
def MutableAgree (pdev : PhysicalDevice) (info info' : CreateInfo) (bindings : List Binding) : Prop :=
  ∀ bj ∈ bindings.zipIdx, bj.1.descriptorType = .mutableExt →
    info.mutableSize pdev bj.2 = info'.mutableSize pdev bj.2

section Agree

variable {pdev : PhysicalDevice} {info info' : CreateInfo} {bindings : List Binding}

variable {b last : Binding} {j first pass size : ℕ} {st st' : LayoutState}

section

variable (h : b.descriptorType = .mutableExt → info.mutableSize pdev j = info'.mutableSize pdev j)
include h

lemma bindingSize_congr : info.bindingSize pdev b j = info'.bindingSize pdev b j := by
  unfold bindingSize
  cases ht : b.descriptorType with
  | mutableExt => exact congrArg some (h ht)
  | _ => rfl

lemma bindingAlignment_congr : info.bindingAlignment pdev b j = info'.bindingAlignment pdev b j := by
  unfold bindingAlignment
  by_cases ht : b.descriptorType = .mutableExt
  · have hsize := h ht
    unfold mutableSize at hsize
    rw [if_pos ht, if_pos ht, mutableDescriptorTypeSizeAlignment_align,
      mutableDescriptorTypeSizeAlignment_align, hsize]
  · rw [if_neg ht, if_neg ht]

end

/-- The alignment of the last binding decides which ones come first. -/
theorem firstAlignment_eq (pdev : PhysicalDevice) (info : CreateInfo) {bindings : List Binding}
    (hlast : bindings.getLast? = some last) :
    info.firstAlignment pdev bindings =
      if info.bindingAlignment pdev last (bindings.length - 1) = 32 then 16 else 32 := by
  unfold firstAlignment bindingAlignment
  rw [hlast]

lemma getLast_mem_zipIdx (hlast : bindings.getLast? = some last) :
    (last, bindings.length - 1) ∈ bindings.zipIdx := by
  rw [mk_mem_zipIdx_iff_getElem?, ← getLast?_eq_getElem?]
  exact hlast

lemma firstAlignment_congr (h : MutableAgree pdev info info' bindings) :
    info.firstAlignment pdev bindings = info'.firstAlignment pdev bindings := by
  cases hlast : bindings.getLast? with
  | none =>
    unfold firstAlignment
    rw [hlast]
  | some last =>
    rw [firstAlignment_eq pdev info hlast, firstAlignment_eq pdev info' hlast,
      bindingAlignment_congr (h _ (getLast_mem_zipIdx hlast))]

/-- The state of the layout loop without `has_variable_descriptors`. -/
def LayoutState.forget (st : LayoutState) : LayoutState :=
  { st with layout := { st.layout with hasVariableDescriptors := false } }

lemma switchBinding_forget (b : Binding) (j : ℕ) (l : SetLayout) :
    { info.switchBinding pdev b j l with hasVariableDescriptors := false } =
      info.switchBinding pdev b j { l with hasVariableDescriptors := false } := by
  unfold switchBinding
  split_ifs <;> rfl

lemma layoutBinding_forget (first pass : ℕ) (st : LayoutState) (b : Binding) (j : ℕ) :
    (info.layoutBinding pdev first pass st (b, j)).forget =
      (info.layoutBinding pdev first pass st.forget (b, j)).forget := by
  have hswitch : _ = info.switchBinding pdev b j _ := switchBinding_forget b j st.layout
  simp only [layoutBinding, LayoutState.forget, ← hswitch]
  split_ifs <;> rfl

lemma layoutBinding_congr
    (h : b.descriptorType = .mutableExt → info.mutableSize pdev j = info'.mutableSize pdev j)
    (st : LayoutState) :
    (info.layoutBinding pdev first pass st (b, j)).forget =
    (info'.layoutBinding pdev first pass st (b, j)).forget := by
  have hswitch : info.switchBinding pdev b j st.layout = info'.switchBinding pdev b j st.layout := by
    unfold switchBinding
    rw [bindingSize_congr h]
  simp only [layoutBinding, hswitch, bindingAlignment_congr h]
  split_ifs <;> rfl

/-- One pass. -/
theorem foldl_layoutBinding_congr (h : MutableAgree pdev info info' bindings) (first pass : ℕ)
    (hst : st.forget = st'.forget) :
    (bindings.zipIdx.foldl (info.layoutBinding pdev first pass) st).forget =
      (bindings.zipIdx.foldl (info'.layoutBinding pdev first pass) st').forget := by
  refine foldl_rel (r := fun st st' : LayoutState => st.forget = st'.forget) hst ?_
  intro ⟨b, j⟩ hbj st st' hst
  rw [layoutBinding_forget, hst, layoutBinding_congr (h (b, j) hbj), ← layoutBinding_forget]

lemma layoutLoop_congr (h : MutableAgree pdev info info' bindings) (hst : st.forget = st'.forget) :
    (info.layoutLoop pdev bindings st).forget = (info'.layoutLoop pdev bindings st').forget := by
  unfold layoutLoop
  rw [firstAlignment_congr h]
  apply foldl_layoutBinding_congr h
  exact foldl_layoutBinding_congr h _ _ hst

/-! ## Variable descriptors -/

lemma layoutBinding_variable (first pass : ℕ) (st : LayoutState) (b : Binding) (j : ℕ) :
    (info.layoutBinding pdev first pass st (b, j)).layout.hasVariableDescriptors =
      (st.layout.hasVariableDescriptors ||
        (!skips pass (info.bindingAlignment pdev b j) first && info.variableAt j)) := by
  have hswitch : (info.switchBinding pdev b j st.layout).hasVariableDescriptors =
      st.layout.hasVariableDescriptors := by
    unfold switchBinding
    split_ifs <;> rfl
  simp only [layoutBinding]
  cases hskip : skips pass _ first <;> simp [SetLayout.modify, hswitch]

lemma foldl_layoutBinding_variable (first pass : ℕ) (l : List (Binding × ℕ)) (st : LayoutState) :
    (l.foldl (info.layoutBinding pdev first pass) st).layout.hasVariableDescriptors =
      (st.layout.hasVariableDescriptors ||
        l.any fun bj =>
          !skips pass (info.bindingAlignment pdev bj.1 bj.2) first && info.variableAt bj.2) := by
  induction l generalizing st with
  | nil => simp
  | cons bj l ih =>
    rw [foldl_cons, ih, layoutBinding_variable, any_cons, Bool.or_assoc]

lemma skips_one (alignment first : ℕ) : skips 1 alignment first = !skips 0 alignment first := by
  by_cases heq : alignment = first <;> simp [skips, heq]

/-- A layout has variable descriptors if any flag says so, whichever binding it belongs to. -/
theorem layoutLoop_variable (st : LayoutState) :
    (info.layoutLoop pdev bindings st).layout.hasVariableDescriptors =
      (st.layout.hasVariableDescriptors || bindings.zipIdx.any fun bj => info.variableAt bj.2) := by
  simp only [layoutLoop]
  rw [foldl_layoutBinding_variable, foldl_layoutBinding_variable, Bool.or_assoc, Bool.eq_iff_iff]
  simp only [Bool.or_eq_true, any_eq_true, Bool.and_eq_true, skips_one, Bool.not_not]
  refine or_congr_right ⟨?_, ?_⟩
  · rintro (⟨bj, hbj, -, hv⟩ | ⟨bj, hbj, -, hv⟩) <;> exact ⟨bj, hbj, hv⟩
  · -- one of the two passes does not skip the binding
    rintro ⟨bj, hbj, hv⟩
    cases h : skips 0 (info.bindingAlignment pdev bj.1 bj.2) (info.firstAlignment pdev bindings) with
    | false => exact .inl ⟨bj, hbj, by rw [h]; rfl, hv⟩
    | true => exact .inr ⟨bj, hbj, h, hv⟩

/-! ## The sizes that are written -/

lemma layoutBinding_size (h : info.bindingSize pdev b j = some size) (st : LayoutState) :
    ((info.layoutBinding pdev first pass st (b, j)).layout.binding b.binding).size = size := by
  have hswitch : ((info.switchBinding pdev b j st.layout).binding b.binding).size = size := by
    unfold switchBinding
    rw [h]
    split_ifs <;> simp [SetLayout.modify]
  simp only [layoutBinding]
  split_ifs <;> simp [SetLayout.modify, hswitch]

lemma layoutBinding_other {n : ℕ} (hn : n ≠ b.binding) (st : LayoutState) :
    (info.layoutBinding pdev first pass st (b, j)).layout.binding n = st.layout.binding n := by
  have hswitch : (info.switchBinding pdev b j st.layout).binding n = st.layout.binding n := by
    unfold switchBinding
    split_ifs <;> simp [SetLayout.modify, hn]
  simp only [layoutBinding]
  split_ifs <;> simp [SetLayout.modify, hswitch, hn]

lemma mem_zipIdx_inj (hnodup : (bindings.map Binding.binding).Nodup) {c : Binding} {i : ℕ}
    (hbj : (b, j) ∈ bindings.zipIdx) (hci : (c, i) ∈ bindings.zipIdx) (h : b.binding = c.binding) :
    (b, j) = (c, i) := by
  rw [mk_mem_zipIdx_iff_getElem?] at hbj hci
  have hlt : j < (bindings.map Binding.binding).length := by
    rw [length_map]
    exact (List.getElem?_eq_some_iff.mp hbj).1
  have hij : j = i := by
    apply (getElem?_inj hlt hnodup).mp
    rw [getElem?_map, getElem?_map, hbj, hci, Option.map_some, Option.map_some, h]
  subst hij
  rw [hbj] at hci
  cases hci
  rfl

/-- At the end each binding has the size the second pass has written. -/
theorem layoutLoop_size (hnodup : (bindings.map Binding.binding).Nodup)
    (hbj : (b, j) ∈ bindings.zipIdx) (h : info.bindingSize pdev b j = some size) (st : LayoutState) :
    ((info.layoutLoop pdev bindings st).layout.binding b.binding).size = size := by
  refine foldl_of_mem (I := fun _ => True) (P := fun st : LayoutState =>
    (st.layout.binding b.binding).size = size) trivial (fun _ _ _ _ => trivial) hbj ?_ ?_
  · intro st _
    exact layoutBinding_size h st
  · intro ⟨c, i⟩ hci st _ hst
    by_cases hn : b.binding = c.binding
    · cases mem_zipIdx_inj hnodup hbj hci hn
      exact layoutBinding_size h st
    · rw [layoutBinding_other hn]
      exact hst

end Agree

/-! ## The layout -/

/-- The parts of a layout that must not depend on the order of the bindings. -/
structure SameLayout (l l' : SetLayout) : Prop where
  size : l.size = l'.size
  offset : ∀ b, (l.binding b).offset = (l'.binding b).offset
  bindingSize : ∀ b, (l.binding b).size = (l'.binding b).size
  arraySize : ∀ b, (l.binding b).arraySize = (l'.binding b).arraySize
  dynamicOffsetOffset : ∀ b, (l.binding b).dynamicOffsetOffset = (l'.binding b).dynamicOffsetOffset
  dynamicOffsetCount : ∀ b, (l.binding b).dynamicOffsetCount = (l'.binding b).dynamicOffsetCount
  totalDynamicOffsets : l.dynamicOffsetCount = l'.dynamicOffsetCount
  hasVariableDescriptors : l.hasVariableDescriptors = l'.hasVariableDescriptors

/-- `radv_CreateDescriptorSetLayout` gives the same for two orders, whether or not there is
memory. -/
def SameCreate (abi : Abi) (pdev : PhysicalDevice) (info info' : CreateInfo) : Prop :=
  ∀ zalloc malloc,
    match createDescriptorSetLayout abi pdev zalloc malloc info,
      createDescriptorSetLayout abi pdev zalloc malloc info' with
    | .ok l, .ok l' => SameLayout l l'
    | .error e, .error e' => e = e'
    | _, _ => False

/-- Two orders of the same bindings. -/
structure Reordered (info info' : CreateInfo) : Prop where
  flags : info.flags = info'.flags
  perm : info.pBindings.Perm info'.pBindings
  nodup : (info.pBindings.map Binding.binding).Nodup
  bits : (∃ j < info.pBindings.length, info.variableAt j = true) ↔
    ∃ j < info.pBindings.length, info'.variableAt j = true

section Reordered

variable {abi : Abi} {pdev : PhysicalDevice} {info info' : CreateInfo}

theorem Reordered.sorted (h : Reordered info info') : info'.sorted = info.sorted :=
  (createSortedBindings_eq_of_perm h.perm h.nodup).symm

lemma Reordered.nodup_sorted (h : Reordered info info') :
    (info.sorted.map Binding.binding).Nodup :=
  nodup_createSortedBindings h.nodup

lemma CreateInfo.length_sorted (info : CreateInfo) : info.sorted.length = info.pBindings.length :=
  (createSortedBindings_perm info.pBindings).length_eq

section

variable (h : Reordered info info')
include h

lemma Reordered.ne_nil : info'.pBindings ≠ [] ↔ info.pBindings ≠ [] := by
  rw [ne_eq, ne_eq, ← length_eq_zero_iff, ← length_eq_zero_iff, h.perm.length_eq]

lemma Reordered.numBindings : info.numBindings = info'.numBindings := by
  apply h.perm.foldl_eq'
  intro b _ c _ n
  omega

lemma Reordered.any_variable :
    (info.sorted.zipIdx.any fun bj => info.variableAt bj.2) =
      info.sorted.zipIdx.any fun bj => info'.variableAt bj.2 := by
  have hany : ∀ info' : CreateInfo, (info.sorted.zipIdx.any fun bj => info'.variableAt bj.2) = true ↔
      ∃ j < info.pBindings.length, info'.variableAt j = true := by
    intro info'
    rw [any_eq_true, ← info.length_sorted]
    constructor
    · intro ⟨⟨b, j⟩, hbj, hv⟩
      exact ⟨j, (mem_zipIdx' hbj).1, hv⟩
    · intro ⟨j, hj, hv⟩
      refine ⟨(info.sorted[j], j), ?_, hv⟩
      rw [mk_mem_zipIdx_iff_getElem?]
      exact getElem?_eq_getElem hj
  rw [Bool.eq_iff_iff, hany, hany]
  exact h.bits

lemma Reordered.initState : info.initState abi = info'.initState abi := by
  unfold CreateInfo.initState
  rw [h.flags, h.numBindings]

/-- The layouts are the same if the mutable bindings get descriptors of the same sizes. -/
theorem sameLayout_of_agree (hagree : MutableAgree pdev info info' info.sorted) :
    SameLayout (info.setLayout abi pdev) (info'.setLayout abi pdev) := by
  have hstate : (info.layoutLoop pdev info.sorted (info.initState abi)).forget =
      (info'.layoutLoop pdev info'.sorted (info'.initState abi)).forget := by
    rw [h.sorted, ← h.initState]
    exact layoutLoop_congr hagree rfl
  have hvariable : (info.layoutLoop pdev info.sorted (info.initState abi)).layout.hasVariableDescriptors =
      (info'.layoutLoop pdev info'.sorted (info'.initState abi)).layout.hasVariableDescriptors := by
    rw [layoutLoop_variable, layoutLoop_variable, h.sorted, h.any_variable]
    rfl
  have hsize := congrArg (fun st => st.layout.size) hstate
  have hcount := congrArg (fun st => st.dynamicOffsetCount % 2 ^ 16) hstate
  have hbinding : (info.setLayout abi pdev).binding = (info'.setLayout abi pdev).binding := by
    have heq := congrArg (fun st => st.layout.binding) hstate
    exact heq
  refine ⟨hsize, ?_, ?_, ?_, ?_, ?_, hcount, hvariable⟩ <;> intro b <;> rw [hbinding]

/-- The layouts are the same if and only if the mutable bindings get descriptors of the same
sizes. -/
theorem sameCreate_iff : SameCreate abi pdev info info' ↔ MutableAgree pdev info info' info.sorted := by
  constructor
  · intro hsame ⟨b, j⟩ hbj ht
    have hsize : ((info.setLayout abi pdev).binding b.binding).size =
        ((info'.setLayout abi pdev).binding b.binding).size :=
      (hsame true true).bindingSize b.binding
    have hwrites : ∀ info : CreateInfo, info.bindingSize pdev b j = some (info.mutableSize pdev j) := by
      intro info
      unfold bindingSize
      rw [ht]
      rfl
    unfold setLayout at hsize
    rw [h.sorted] at hsize
    rw [layoutLoop_size h.nodup_sorted hbj (hwrites info),
      layoutLoop_size h.nodup_sorted hbj (hwrites info')] at hsize
    exact hsize
  · intro hagree zalloc malloc
    simp only [createDescriptorSetLayout, decide_eq_decide.mpr h.ne_nil]
    split_ifs
    · rfl
    · rfl
    · exact sameLayout_of_agree h hagree

end

end Reordered

end RadvXclipse.Descriptor
