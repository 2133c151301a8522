import RadvXclipse.Descriptor.PoolSets

/-!
# Pools with a heap

The ranges of the heap that are taken are those of the sets, moved up by `RADV_POOL_HEAP_OFFSET`.
This needs that no offset is cut off to 32 bits. The heap takes the lowest place, so an offset of 4
GiB or more is only taken if everything below is in use; a pool that is not larger than 4 GiB, or
that has very few sets, never comes there.
-/

namespace RadvXclipse.Descriptor

open Lib Util List Nat

/-- The size of a set is a multiple of 32. -/
theorem setSize_spec (layout : SetLayout) (variableCount : ℕ) :
    32 ∣ layout.setSize variableCount ∧ layout.setSize variableCount < 2 ^ 32 := by
  unfold SetLayout.setSize
  rw [show 32 = 2 ^ 5 from rfl, align_two_pow (by omega)]
  exact ⟨(dvd_mod_iff (by decide)).mpr (dvd_alignUp _ _), mod_lt _ (by decide)⟩

/-- No offset of a set of the pool can be cut off. -/
def Pool.Small (pool : Pool) : Prop :=
  pool.size < 2 ^ 32 + 32 ∨ pool.maxEntryCount ≤ 1 ∨ pool.maxEntryCount = 2 ∧ pool.size < 2 ^ 32 + 64

lemma Pool.small_congr {p q : Pool} (hsize : p.size = q.size)
    (hmax : p.maxEntryCount = q.maxEntryCount) : p.Small ↔ q.Small := by
  unfold Pool.Small
  rw [hsize, hmax]

/-- Sets can be allocated only if there is a heap. -/
def Pool.HasHeap (pool : Pool) : Prop := pool.size = 0 → pool.maxEntryCount = 0

namespace PoolState

/-- The ranges of the heap that the sets have. -/
def spans (sets : List SetEntry) : List Span :=
  (sets.filter (·.set.size ≠ 0)).map fun e => ⟨e.set.offset + poolHeapOffset, e.set.size⟩

lemma spans_append (l m : List SetEntry) : spans (l ++ m) = spans l ++ spans m := by
  rw [spans, filter_append, map_append]
  rfl

lemma spans_cons_of_pos {e : SetEntry} (h : e.set.size ≠ 0) (l : List SetEntry) :
    spans (e :: l) = ⟨e.set.offset + poolHeapOffset, e.set.size⟩ :: spans l := by
  rw [spans, filter_cons_of_pos (by simpa using h), map_cons]
  rfl

lemma spans_cons_of_zero {e : SetEntry} (h : e.set.size = 0) (l : List SetEntry) :
    spans (e :: l) = spans l := by
  rw [spans, filter_cons_of_neg (by simp [h])]
  rfl

lemma spans_perm {l m : List SetEntry} (h : l.Perm m) : (spans l).Perm (spans m) := (h.filter _).map _

/-- A pool with a heap. -/
structure HeapKept (s : PoolState) : Prop where
  hostMemory : s.pool.hostMemory = none
  entryCount : s.pool.entryCount = s.sets.length
  le_max : s.sets.length ≤ s.pool.maxEntryCount
  max_lt : s.pool.maxEntryCount < 2 ^ 32
  sound : Vma.Sound ⟨s.pool.boHeap, spans s.sets, ⟨poolHeapOffset, s.pool.size⟩⟩
  low : s.pool.boHeap.allocHigh = false
  dvd_offset : ∀ e ∈ s.sets, e.set.size ≠ 0 → 32 ∣ e.set.offset
  size_spec : ∀ e ∈ s.sets, 32 ∣ e.set.size ∧ e.set.size < 2 ^ 32

/-- What stays the same. -/
structure SamePool (s s' : PoolState) : Prop where
  currentOffset : s'.pool.currentOffset = s.pool.currentOffset
  hostMemory : s'.pool.hostMemory = s.pool.hostMemory
  size : s'.pool.size = s.pool.size
  maxEntryCount : s'.pool.maxEntryCount = s.pool.maxEntryCount
  live : s'.live = s.live

lemma SamePool.refl (s : PoolState) : SamePool s s := ⟨rfl, rfl, rfl, rfl, rfl⟩

lemma SamePool.trans {s t u : PoolState} (h : SamePool s t) (h' : SamePool t u) : SamePool s u :=
  ⟨h'.currentOffset.trans h.currentOffset, h'.hostMemory.trans h.hostMemory, h'.size.trans h.size,
    h'.maxEntryCount.trans h.maxEntryCount, h'.live.trans h.live⟩

/-- The state with one more set. -/
def withSet (s : PoolState) (pool : Pool) (set : DescriptorSet) : PoolState :=
  { s with pool := pool, sets := s.sets ++ [⟨s.nextId, set⟩], nextId := s.nextId + 1 }

namespace HeapKept

variable {s : PoolState}

section

variable (hs : HeapKept s)
include hs

/-- A set is in the pool. -/
theorem inside {e : SetEntry} (he : e ∈ s.sets) (hsize : e.set.size ≠ 0) :
    e.set.offset + e.set.size ≤ s.pool.size := by
  have hmem : (⟨e.set.offset + poolHeapOffset, e.set.size⟩ : Span) ∈ spans s.sets :=
    mem_map_of_mem (mem_filter.mpr ⟨he, by simpa using hsize⟩)
  have hle := (hs.sound.inside hmem).2
  simp only [Span.stop] at hle
  omega

/-- The heap gives out offsets that are not cut off. -/
theorem offset_lt (hsmall : s.pool.Small) (hroom : s.sets.length < s.pool.maxEntryCount)
    {size offset : ℕ} (hdvd : 32 ∣ size) (hpos : 0 < size) (hoffset : 32 ∣ offset)
    (hge : poolHeapOffset ≤ offset) (hle : offset + size ≤ poolHeapOffset + s.pool.size)
    (hmin : ∀ o, 32 ∣ o → (∀ x, Span.Has ⟨o, size⟩ x →
      (⟨poolHeapOffset, s.pool.size⟩ : Span).Has x ∧ ¬ Covers (spans s.sets) x) → offset ≤ o) :
    offset - poolHeapOffset < 2 ^ 32 := by
  have hheap : poolHeapOffset = 32 := rfl
  -- without another set the first place is free
  have hnil : spans s.sets = [] → offset ≤ 32 := by
    intro hempty
    apply hmin 32 (by decide)
    intro x hx
    simp only [Span.Has, Span.stop] at hx ⊢
    rw [hempty, hheap]
    exact ⟨by omega, covers_nil x⟩
  rcases hsmall with hsmall | hmax | ⟨hmax, hsmall⟩
  · obtain ⟨k, rfl⟩ := hdvd
    omega
  · have hempty : s.sets = [] := eq_nil_of_length_eq_zero (by omega)
    have hfirst := hnil (by rw [hempty]; rfl)
    omega
  · by_contra hlarge
    have hlen : s.sets.length ≤ 1 := by omega
    obtain ⟨e, hsets, hpos'⟩ : ∃ e, s.sets = [e] ∧ e.set.size ≠ 0 := by
      cases hsets : s.sets with
      | nil =>
        have hfirst := hnil (by rw [hsets]; rfl)
        omega
      | cons e l =>
        obtain rfl : l = [] := by
          rw [hsets, length_cons] at hlen
          exact eq_nil_of_length_eq_zero (by omega)
        refine ⟨e, rfl, fun hzero => ?_⟩
        have hfirst := hnil (by rw [hsets, spans_cons_of_zero hzero]; rfl)
        omega
    have hspans : spans s.sets = [⟨e.set.offset + 32, e.set.size⟩] := by
      rw [hsets, spans_cons_of_pos hpos']
      rfl
    have he : e ∈ s.sets := by simp [hsets]
    obtain ⟨k, hk⟩ := hs.dvd_offset e he hpos'
    obtain ⟨n, hn⟩ := (hs.size_spec e he).1
    have hlt := (hs.size_spec e he).2
    have hplace : ∀ o, 32 ∣ o → 32 ≤ o → o + size ≤ 32 + s.pool.size →
        o + size ≤ e.set.offset + 32 ∨ e.set.offset + 32 + e.set.size ≤ o → offset ≤ o := by
      intro o ho hge' hle' hfree
      refine hmin o ho fun x hx => ?_
      rw [hspans, hheap, covers_cons, or_iff_left (covers_nil x)]
      simp only [Span.Has, Span.stop] at hx ⊢
      omega
    -- a set before the other one
    have hbefore : e.set.offset < 32 := by
      by_contra hge'
      have hfirst := hplace 32 (by decide)
      omega
    -- a set right after it
    have hafter := hplace (32 + e.set.size) (by omega)
    omega

/-- `radv_descriptor_set_create` on a pool with a heap. -/
theorem create (hsmall : s.pool.Small) {abi : PoolAbi} {r : SetRequest} {set : DescriptorSet}
    {pool : Pool}
    (hcreate : descriptorSetCreate abi r.zalloc s.pool r.layout r.variableCount = .ok (set, pool)) :
    HeapKept (s.withSet pool set) ∧ SamePool s (s.withSet pool set) := by
  obtain ⟨hdvd, hlt⟩ := setSize_spec r.layout r.variableCount
  have hmax := hs.max_lt
  have hcount := hs.entryCount
  unfold descriptorSetCreate at hcreate
  simp only [hs.hostMemory] at hcreate
  generalize r.layout.setSize r.variableCount = size at hcreate hdvd hlt
  obtain ⟨hfull, hcreate⟩ : s.pool.entryCount ≠ s.pool.maxEntryCount ∧
      allocDescriptorPoolEntry s.pool size = .ok (set, pool) := by
    split_ifs at hcreate with hfull hzalloc
    exact ⟨hfull, hcreate⟩
  have hroom : s.sets.length < s.pool.maxEntryCount := by
    have hle := hs.le_max
    omega
  have hentry : ∀ e, add32 s.pool.entryCount 1 = (s.sets ++ [e]).length := by
    intro e
    rw [hcount, add32_of_lt (by omega), length_append, length_singleton]
  have hle : ∀ e, (s.sets ++ [e]).length ≤ s.pool.maxEntryCount := by
    intro e
    rw [length_append, length_singleton]
    exact hroom
  have hsizes : ∀ set : DescriptorSet, set.size = size →
      ∀ e ∈ s.sets ++ [⟨s.nextId, set⟩], 32 ∣ e.set.size ∧ e.set.size < 2 ^ 32 := fun set hset =>
    forall_mem_append.mpr ⟨hs.size_spec, forall_mem_singleton.mpr (hset ▸ ⟨hdvd, hlt⟩)⟩
  unfold allocDescriptorPoolEntry at hcreate
  simp only [hs.hostMemory] at hcreate
  by_cases hzero : size = 0
  · -- a set without descriptors does not touch the heap
    rw [if_neg (not_not.mpr hzero)] at hcreate
    cases hcreate
    refine ⟨⟨rfl, hentry _, hle _, hmax, ?_, hs.low, ?_, hsizes _ rfl⟩, rfl, hs.hostMemory.symm,
      rfl, rfl, rfl⟩
    · rw [withSet, spans_append, spans_cons_of_zero hzero, show spans [] = [] from rfl, append_nil]
      exact hs.sound
    · exact forall_mem_append.mpr ⟨hs.dvd_offset, forall_mem_singleton.mpr fun h => absurd hzero h⟩
  · rw [if_pos hzero] at hcreate
    have hheap : s.pool.size ≠ 0 := by
      intro hnone
      rw [if_pos hnone] at hcreate
      cases hcreate
    rw [if_neg hheap] at hcreate
    rcases hs.sound.heapAlloc_low hs.low (pos_of_ne_zero hzero) (show 0 < 32 by decide) with
      halloc | ⟨offset, heap, halloc, hne, hlow, hsound, hoffset, hmin⟩
    · rw [halloc] at hcreate
      simp at hcreate
    · rw [halloc] at hcreate
      simp only [hne, if_false, Except.ok.injEq, Prod.mk.injEq] at hcreate
      obtain ⟨rfl, rfl⟩ := hcreate
      -- the range of the set is in that of the heap
      obtain ⟨hfirst, hlast⟩ := hsound.inside mem_cons_self
      have htop := hsound.initOk.stop_le
      simp only [Span.stop] at hfirst hlast htop
      have hlt32 := hs.offset_lt hsmall hroom hdvd (pos_of_ne_zero hzero) hoffset hfirst hlast hmin
      have hoff : sub64 offset poolHeapOffset % 2 ^ 32 = offset - poolHeapOffset := by
        rw [sub64_of_le hfirst (by omega), mod_eq_of_lt hlt32]
      have hback : offset - poolHeapOffset + poolHeapOffset = offset := Nat.sub_add_cancel hfirst
      rw [hoff]
      refine ⟨⟨rfl, hentry _, hle _, hmax, ?_, hlow, ?_, hsizes _ rfl⟩, rfl, hs.hostMemory.symm,
        rfl, rfl, rfl⟩
      · have hspans : (spans (s.sets ++ [⟨s.nextId, offset - poolHeapOffset, size⟩])).Perm
            (⟨offset, size⟩ :: spans s.sets) := by
          rw [spans_append, spans_cons_of_pos hzero]
          simp only [hback]
          exact perm_append_singleton ..
        exact hsound.perm hspans
      · refine forall_mem_append.mpr ⟨hs.dvd_offset, forall_mem_singleton.mpr fun _ => ?_⟩
        exact Nat.dvd_sub hoffset (by decide)

/-- `radv_descriptor_set_destroy`. -/
theorem destroy {e : SetEntry} (he : e ∈ s.sets) :
    HeapKept (s.destroy e) ∧ SamePool s (s.destroy e) := by
  have hperm := perm_cons_erase he
  have hlen : (s.sets.erase e).length = s.sets.length - 1 := length_erase_of_mem he
  have hpos : 0 < s.sets.length := length_pos_of_mem he
  have hmax := hs.max_lt
  have hle := hs.le_max
  refine ⟨⟨hs.hostMemory, ?_, ?_, hmax, ?_, ?_, ?_, ?_⟩, rfl, rfl, rfl, rfl, rfl⟩
  · simp only [PoolState.destroy]
    rw [hs.entryCount, sub32_of_le hpos (by omega), hlen]
  · simp only [PoolState.destroy]
    omega
  · simp only [PoolState.destroy]
    by_cases hzero : e.set.size = 0
    · rw [if_neg (not_not.mpr hzero)]
      refine hs.sound.perm ?_
      have hspans := spans_perm hperm
      rw [spans_cons_of_zero hzero] at hspans
      exact hspans.symm
    · rw [if_pos hzero]
      have hspans := spans_perm hperm
      rw [spans_cons_of_pos hzero] at hspans
      have hmem : (⟨e.set.offset + poolHeapOffset, e.set.size⟩ : Span) ∈ spans s.sets :=
        hspans.mem_iff.mpr mem_cons_self
      have hvalid := (hs.sound.live_valid _ hmem).stop_le
      simp only [Span.stop] at hvalid
      have hadd : add64 e.set.offset poolHeapOffset = e.set.offset + poolHeapOffset := add64_of_lt (by omega)
      rw [hadd]
      refine (hs.sound.free hmem).perm ?_
      exact ((perm_cons_erase hmem).symm.trans hspans).cons_inv.symm
  · simp only [PoolState.destroy]
    split_ifs
    · exact hs.low
    · exact hs.low
  · exact fun d hd => hs.dvd_offset d (mem_of_mem_erase hd)
  · exact fun d hd => hs.size_spec d (mem_of_mem_erase hd)

/-- All of some sets. -/
theorem foldl_destroy {es : List SetEntry} (hes : es.Subperm s.sets) :
    HeapKept (es.foldl PoolState.destroy s) ∧ SamePool s (es.foldl PoolState.destroy s) ∧
      (es.foldl PoolState.destroy s).sets = s.sets.diff es := by
  induction es generalizing s with
  | nil => exact ⟨hs, .refl s, rfl⟩
  | cons e es ih =>
    have he : e ∈ s.sets := hes.subset mem_cons_self
    obtain ⟨hs', hsame⟩ := hs.destroy he
    have hes' : es.Subperm (s.destroy e).sets := by
      have hperm : s.sets.Perm (e :: (s.destroy e).sets) := perm_cons_erase he
      exact (subperm_cons e).mp (hes.trans hperm.subperm)
    obtain ⟨hrest, hsame', hsets⟩ := ih hs' hes'
    refine ⟨hrest, hsame.trans hsame', ?_⟩
    rw [foldl_cons, hsets, diff_cons]
    rfl

lemma createLoop (hsmall : s.pool.Small) (abi : PoolAbi) (rs : List SetRequest) :
    HeapKept (s.createLoop abi rs).1 ∧ SamePool s (s.createLoop abi rs).1 ∧
      (s.createLoop abi rs).1.sets = s.sets ++ (s.createLoop abi rs).2.1 := by
  induction rs generalizing s with
  | nil => exact ⟨hs, .refl s, (append_nil _).symm⟩
  | cons r rs ih =>
    unfold PoolState.createLoop
    cases hcreate : descriptorSetCreate abi r.zalloc s.pool r.layout r.variableCount with
    | error e => exact ⟨hs, .refl s, (append_nil _).symm⟩
    | ok res =>
      obtain ⟨set, pool⟩ := res
      obtain ⟨hs', hsame⟩ := hs.create hsmall hcreate
      have hsmall' : pool.Small := (Pool.small_congr hsame.size hsame.maxEntryCount).mpr hsmall
      obtain ⟨hrest, hsame', hsets⟩ := ih hs' hsmall'
      refine ⟨hrest, hsame.trans hsame', ?_⟩
      exact hsets.trans (append_assoc ..)

/-- Where there is a heap every call returns. -/
theorem allocateResult_ne (hsmall : s.pool.Small) (hheap : s.pool.HasHeap)
    (abi : PoolAbi) (rs : List SetRequest) : s.allocateResult abi rs ≠ some .nullPointer := by
  induction rs generalizing s with
  | nil => exact fun h => by cases h
  | cons r rs ih =>
    unfold allocateResult PoolState.createLoop
    cases hcreate : descriptorSetCreate abi r.zalloc s.pool r.layout r.variableCount with
    | error e =>
      dsimp only
      rw [ne_eq, Option.some.injEq]
      rintro rfl
      have hle := hs.le_max
      have hcount := hs.entryCount
      unfold descriptorSetCreate allocDescriptorPoolEntry at hcreate
      simp only [hs.hostMemory] at hcreate
      unfold Pool.HasHeap at hheap
      split_ifs at hcreate <;> first | omega | cases hcreate
    | ok res =>
      obtain ⟨set, pool⟩ := res
      obtain ⟨hs', hsame⟩ := hs.create hsmall hcreate
      have hsmall' : pool.Small := (Pool.small_congr hsame.size hsame.maxEntryCount).mpr hsmall
      have hheap' : pool.HasHeap := fun hzero =>
        hsame.maxEntryCount.trans (hheap (hsame.size.symm.trans hzero))
      exact ih hs' hsmall' hheap'

end

end HeapKept

end PoolState

end RadvXclipse.Descriptor
