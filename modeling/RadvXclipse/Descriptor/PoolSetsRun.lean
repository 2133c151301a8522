import RadvXclipse.Descriptor.PoolSetsLinear

/-!
# Runs of a descriptor pool

In every run of a pool with a heap whose offsets are not cut off, the pool has exactly the live sets
and these do not overlap. Without a heap nothing can be freed: if a call fails after it has created
a set, then the set stays in the pool until the next reset, though no handle of it was handed
out.
-/

namespace RadvXclipse.Descriptor

open Lib Util List Option Nat

namespace PoolState

variable {s s' : PoolState} {abi : PoolAbi}

/-! ## Handles -/

/-- The handles that are freed stand for as many live sets. -/
theorem map_id_handles {ids : List (Option ℕ)} (h : ∀ i ∈ ids.filterMap id, i ∈ s.live.map SetEntry.id) :
    (s.handles ids).map SetEntry.id = ids.filterMap id := by
  induction ids with
  | nil => rfl
  | cons i ids ih =>
    cases i with
    | none => exact ih h
    | some i =>
      obtain ⟨e, he, hid⟩ := mem_map.mp (h i mem_cons_self)
      have hfound : (s.live.find? (·.id = i)).isSome := find?_isSome.mpr ⟨e, he, by simpa using hid⟩
      obtain ⟨d, hd⟩ := isSome_iff_exists.mp hfound
      have hdid : d.id = i := by simpa using find?_some hd
      have hrest := ih fun j hj => h j (mem_cons_of_mem _ hj)
      unfold handles at hrest ⊢
      simp only [filterMap_cons, bind_some, hd, map_cons, hrest, hdid, id_eq]

lemma handles_subperm {ids : List (Option ℕ)} (hnodup : (ids.filterMap id).Nodup)
    (h : ∀ i ∈ ids.filterMap id, i ∈ s.live.map SetEntry.id) : (s.handles ids).Subperm s.live := by
  have hmap := map_id_handles h
  have hhandles : (s.handles ids).Nodup := by
    rw [← hmap] at hnodup
    exact hnodup.of_map _
  refine subperm_of_subset hhandles fun e he => ?_
  obtain ⟨i, -, hi⟩ := mem_filterMap.mp he
  obtain ⟨j, -, hj⟩ := bind_eq_some_iff.mp hi
  exact mem_of_find?_eq_some hj

lemma append_diff_self (l m : List SetEntry) : (l ++ m).diff l = m := by
  induction l with
  | nil => rfl
  | cons a l ih => rw [cons_append, diff_cons, erase_cons_head, ih]

/-! ## Pools with a heap -/

section Heap

lemma right_of_heap (hs : HeapKept s) (hperm : s.sets.Perm s.live) : Right s := by
  have hle := hs.le_max
  refine ⟨?_, ?_, ?_, ?_, hperm⟩
  · have hapart := hs.sound.live_apart
    have hsets : (s.sets.filter (·.set.size ≠ 0)).Pairwise fun a b => a.set.span.Apart b.set.span := by
      refine (pairwise_map.mp hapart).imp fun hab x ha hb => ?_
      apply hab (x + poolHeapOffset)
      · simp only [DescriptorSet.span, Span.Has, Span.stop] at ha ⊢
        omega
      · simp only [DescriptorSet.span, Span.Has, Span.stop] at hb ⊢
        omega
    exact ((hperm.filter _).pairwise_iff Span.Apart.symm).mp hsets
  · intro e he hsize
    have he' := hperm.mem_iff.mpr he
    exact ⟨hs.dvd_offset e he' hsize, hs.inside he' hsize⟩
  · rw [hs.entryCount, hperm.length_eq]
  · rw [hs.entryCount]
    exact hle

lemma freeLoop_of_heap (h : s.pool.hostMemory = none) (es : List SetEntry) :
    s.freeLoop es = es.foldl destroy s := by
  simp [freeLoop, h]

lemma sound_poolHeap {size : ℕ} (h : poolHeapOffset + size ≤ 2 ^ 64) :
    Vma.Sound ⟨poolHeap size, [], ⟨poolHeapOffset, size⟩⟩ ∧ (poolHeap size).allocHigh = false := by
  have hok : Vma.InitOk ⟨poolHeapOffset, size⟩ := ⟨show 0 < poolHeapOffset by decide, h⟩
  have hsound := Vma.sound_init hok
  have hlow := Vma.sound_step (l := .setAllocHigh false) hsound rfl
  unfold poolHeap
  split_ifs with hsize
  · exact ⟨hlow, rfl⟩
  · rw [not_not] at hsize
    subst hsize
    exact ⟨hlow, rfl⟩

/-- The pool of the state is a kept one with the live sets, of the sizes of `pool`. -/
def HeapOf (pool : Pool) (s : PoolState) : Prop :=
  HeapKept s ∧ s.sets.Perm s.live ∧ s.pool.size = pool.size ∧ s.pool.maxEntryCount = pool.maxEntryCount

lemma heap_reset (hs : HeapKept s) : HeapOf s.pool (s.reset abi) := by
  obtain ⟨hkept, hsame, hsets⟩ := hs.foldl_destroy (List.Subperm.refl s.sets)
  have hdestroy : s.destroyEntries = s.sets.foldl destroy s := by
    simp [destroyEntries, hs.hostMemory]
  have hnil : (s.sets.foldl destroy s).sets = [] := by
    have hdiff := append_diff_self s.sets []
    rw [append_nil] at hdiff
    rw [hsets, hdiff]
  have hrange := hs.sound.initOk.stop_le
  unfold HeapOf reset
  simp only [hdestroy, hkept.hostMemory]
  refine ⟨⟨rfl, ?_, ?_, ?_, ?_, ?_, ?_, ?_⟩, ?_, hsame.size, hsame.maxEntryCount⟩
  · rw [hnil]
    rfl
  · rw [hnil]
    exact zero_le _
  · exact hkept.max_lt
  · rw [hnil, hsame.size]
    split_ifs with hsize
    · exact (sound_poolHeap hrange).1
    · have hsound := hkept.sound
      rw [hnil, hsame.size] at hsound
      exact hsound
  · dsimp only
    split_ifs with hsize
    · rw [hsame.size]
      exact (sound_poolHeap hrange).2
    · exact hkept.low
  · intro e he
    rw [hnil] at he
    exact absurd he not_mem_nil
  · intro e he
    rw [hnil] at he
    exact absurd he not_mem_nil
  · rw [hnil]

/-- One call on a pool with a heap. -/
theorem heap_step {a : PoolLabel} (hs : HeapKept s) (hperm : s.sets.Perm s.live)
    (hsmall : s.pool.Small) (hstep : Step abi s a s') : HeapOf s.pool s' := by
  cases a with
  | allocate info zalloc =>
    obtain ⟨-, heq⟩ := ite_none_left_eq_some.mp hstep
    cases heq
    obtain ⟨hkept, hsame, hsets⟩ := hs.createLoop hsmall abi _
    unfold allocate
    generalize s.createLoop abi (info.requests zalloc) = res at hkept hsame hsets ⊢
    obtain ⟨t, created, result⟩ := res
    cases result with
    | none =>
      refine ⟨{ hkept with }, ?_, hsame.size, hsame.maxEntryCount⟩
      dsimp only
      rw [hsets, hsame.live]
      exact hperm.append_right _
    | some e =>
      -- the sets that were created are taken away again
      have hsub : created.Subperm t.sets := by
        rw [hsets]
        exact (sublist_append_right ..).subperm
      obtain ⟨hkept', hsame', hsets'⟩ := hkept.foldl_destroy hsub
      dsimp only
      rw [freeLoop_of_heap hkept.hostMemory]
      refine ⟨hkept', ?_, hsame'.size.trans hsame.size, hsame'.maxEntryCount.trans hsame.maxEntryCount⟩
      have hdiff := (@perm_append_comm _ s.sets created).diff_right created
      rw [append_diff_self] at hdiff
      rw [hsets', hsame'.live, hsame.live, hsets]
      exact hdiff.trans hperm
  | free ids =>
    obtain ⟨⟨hnodup, hlive⟩, heq⟩ := ite_none_right_eq_some.mp hstep
    cases heq
    have hsub := handles_subperm hnodup hlive
    obtain ⟨hkept, hsame, hsets⟩ := hs.foldl_destroy (hsub.trans hperm.symm.subperm)
    unfold free
    rw [freeLoop_of_heap hs.hostMemory]
    refine ⟨{ hkept with }, ?_, hsame.size, hsame.maxEntryCount⟩
    rw [hsets]
    exact hperm.diff_right _
  | reset =>
    cases hstep
    exact heap_reset hs

end Heap

/-! ## Pools without a heap -/

/-- The calls that keep a pool right. With the bit for freeing single sets no offset may be cut off,
and the call has to return. Without it, a call allocates all its sets or fails at the first, and no
set is freed. -/
def Ok (abi : PoolAbi) (s : PoolState) (a : PoolLabel) : Prop :=
  match s.pool.hostMemory, a with
  | none, .allocate info zalloc =>
    s.pool.Small ∧ s.allocateResult abi (info.requests zalloc) ≠ some .nullPointer
  | none, .free _ => s.pool.Small
  | none, .reset => s.pool.Small
  | some m, .allocate info zalloc =>
    s.pool.fits abi m (info.requests zalloc) = true ∨
      s.pool.fits abi m ((info.requests zalloc).take 1) = false
  | some _, .free ids => ids.filterMap id = []
  | some _, .reset => True

lemma Ok.small {a : PoolLabel} (h : Ok abi s a) (hnone : s.pool.hostMemory = none) : s.pool.Small := by
  unfold Ok at h
  rw [hnone] at h
  cases a with
  | allocate info zalloc => exact h.1
  | free ids => exact h
  | reset => exact h

section Linear

variable {m : HostMemory}

section

variable (hs : LinearKept s m)
include hs

lemma right_of_linear (hperm : s.sets.Perm s.live) : Right s := by
  have hle := hs.le_max
  have hcur := hs.current_le
  refine ⟨?_, ?_, ?_, ?_, hperm⟩
  · have hsets : (s.sets.filter (·.set.size ≠ 0)).Pairwise fun a b => a.set.span.Apart b.set.span := by
      refine (hs.asc.filter _).imp fun hab x ha hb => ?_
      simp only [DescriptorSet.span, Span.Has, Span.stop] at ha hb
      omega
    exact ((hperm.filter _).pairwise_iff Span.Apart.symm).mp hsets
  · intro e he _
    have he' := hperm.mem_iff.mpr he
    have hbelow := hs.below e he'
    exact ⟨hs.dvd_offset e he', by omega⟩
  · rw [hs.entryCount, hperm.length_eq]
  · rw [hs.entryCount]
    exact hle

lemma linear_reset :
    (∃ m', LinearKept (s.reset abi) m') ∧ (s.reset abi).sets.Perm (s.reset abi).live := by
  have hdestroy : s.destroyEntries = { s with sets := [] } := by
    simp [destroyEntries, hs.hostMemory]
  unfold reset
  simp only [hdestroy, hs.hostMemory]
  refine ⟨⟨{ m with ptr := abi.sizeofDescriptorPool }, rfl, rfl, zero_le _, hs.max_lt, .nil, ?_, ?_,
    ?_, ?_, ?_⟩, .nil⟩
  · exact forall_mem_nil _
  · exact forall_mem_nil _
  · exact dvd_zero 32
  · exact zero_le _
  · exact zero_le _

lemma freeLoop_of_linear (es : List SetEntry) : s.freeLoop es = s := by
  simp [freeLoop, hs.hostMemory]

lemma LinearKept.step {a : PoolLabel} (hstep : Step abi s a s') : ∃ m', LinearKept s' m' := by
  have hlive : ∀ {t m} live, LinearKept t m → LinearKept { t with live := live } m := fun live ht =>
    { ht with }
  cases a with
  | allocate info zalloc =>
    obtain ⟨-, heq⟩ := ite_none_left_eq_some.mp hstep
    cases heq
    obtain ⟨⟨m', hkept⟩, -⟩ := hs.createLoop abi _
    unfold PoolState.allocate
    generalize s.createLoop abi (info.requests zalloc) = res at hkept ⊢
    obtain ⟨t, created, result⟩ := res
    cases result with
    | none => exact ⟨m', hlive _ hkept⟩
    | some e =>
      refine ⟨m', ?_⟩
      dsimp only
      rw [freeLoop_of_linear hkept]
      exact hkept
  | free ids =>
    obtain ⟨-, heq⟩ := ite_none_right_eq_some.mp hstep
    cases heq
    unfold PoolState.free
    rw [freeLoop_of_linear hs]
    exact ⟨m, hlive _ hs⟩
  | reset =>
    cases hstep
    exact (linear_reset hs).1

/-- After a call on a pool without a heap the pool has exactly the live sets iff the call meets the
condition. -/
theorem linear_step {a : PoolLabel} (hperm : s.sets.Perm s.live) (hstep : Step abi s a s') :
    s'.sets.Perm s'.live ↔ Ok abi s a := by
  unfold Ok
  rw [hs.hostMemory]
  cases a with
  | allocate info zalloc =>
    obtain ⟨-, heq⟩ := ite_none_left_eq_some.mp hstep
    cases heq
    obtain ⟨⟨m', hkept⟩, hlive, hsets, hnone, hnil⟩ := hs.createLoop abi (info.requests zalloc)
    dsimp only
    generalize info.requests zalloc = rs at hkept hlive hsets hnone hnil ⊢
    unfold allocate
    generalize s.createLoop abi rs = res at hkept hlive hsets hnone hnil ⊢
    obtain ⟨t, created, result⟩ := res
    dsimp only at hkept hlive hsets hnone hnil
    cases result with
    | none =>
      refine iff_of_true ?_ (.inl (hnone.mp rfl))
      dsimp only
      rw [hsets, hlive]
      exact hperm.append_right _
    | some e =>
      have hfits : s.pool.fits abi m rs ≠ true := fun h => by
        have hsome := hnone.mpr h
        cases hsome
      have hne : rs ≠ [] := by
        rintro rfl
        exact hfits (hs.fits_nil abi)
      dsimp only
      rw [freeLoop_of_linear hkept, ← hnil hne, or_iff_right hfits, hsets, hlive]
      constructor
      · intro hperm'
        have hlen := hperm'.length_eq
        rw [length_append, hperm.length_eq] at hlen
        exact eq_nil_of_length_eq_zero (by omega)
      · rintro rfl
        rw [append_nil]
        exact hperm
  | free ids =>
    obtain ⟨⟨hnodup, hmem⟩, heq⟩ := ite_none_right_eq_some.mp hstep
    cases heq
    have hsub := handles_subperm hnodup hmem
    unfold free
    rw [freeLoop_of_linear hs]
    dsimp only
    rw [← map_id_handles hmem, map_eq_nil_iff]
    constructor
    · -- the pool still counts the sets
      intro hperm'
      have hlen := hperm'.length_eq
      have hdiff : (s.handles ids ++ s.live.diff (s.handles ids)).length = s.live.length := by
        exact (subperm_append_diff_self_of_count_le (subperm_ext_iff.mp hsub)).length_eq
      rw [length_append] at hdiff
      have hlen' := hperm.length_eq
      exact eq_nil_of_length_eq_zero (by omega)
    · intro hempty
      rw [hempty]
      exact hperm
  | reset =>
    cases hstep
    exact iff_of_true (linear_reset hs).2 trivial

end

end Linear

/-! ## New pools -/

section New

variable {pdev : PhysicalDevice} {zalloc : Bool} {bo : Except PoolError Unit}
    {info : PoolCreateInfo} {pool : Pool}

section

variable (h : createDescriptorPool abi pdev zalloc bo info = .ok pool)
include h

lemma pool_of_createDescriptorPool :
    pool.currentOffset = 0 ∧ pool.entryCount = 0 ∧ pool.maxEntryCount = info.maxSets ∧
      (pool.hostMemory = none → pool.boHeap = poolHeap pool.size) := by
  unfold createDescriptorPool at h
  cases hz : zalloc with
  | false =>
    rw [hz] at h
    cases h
  | true =>
    rw [hz] at h
    -- the BO is created or there is none, and the pool is the same
    have hpool : pool = ⟨0, info.boSize pdev,
        if info.freeDescriptorSetBit then none else some ⟨abi.sizeofDescriptorPool, info.hostSize abi pdev⟩,
        if info.freeDescriptorSetBit then poolHeap (info.boSize pdev)
        else ⟨[], 0, false, 0⟩, 0, info.maxSets⟩ := by
      by_cases hsize : info.boSize pdev ≠ 0
      · rw [if_pos hsize] at h
        cases bo with
        | ok _ => exact (Except.ok.inj h).symm
        | error e => cases h
      · rw [if_neg hsize] at h
        exact (Except.ok.inj h).symm
    subst hpool
    refine ⟨rfl, rfl, rfl, fun hnone => ?_⟩
    cases hfree : info.freeDescriptorSetBit with
    | false => simp [hfree] at hnone
    | true => simp

lemma heapKept_init (hnone : pool.hostMemory = none) (hmax : info.maxSets < 2 ^ 32)
    (hsize : poolHeapOffset + pool.size ≤ 2 ^ 64) : HeapKept (init pool) := by
  obtain ⟨-, hcount, hentries, hheap⟩ := pool_of_createDescriptorPool h
  obtain ⟨hsound, hlow⟩ := sound_poolHeap hsize
  refine ⟨hnone, hcount, zero_le _, ?_, ?_, ?_, ?_, ?_⟩
  · exact hentries ▸ hmax
  · simp only [init, hheap hnone]
    exact hsound
  · simp only [init, hheap hnone]
    exact hlow
  · exact forall_mem_nil _
  · exact forall_mem_nil _

lemma linearKept_init {m : HostMemory} (hsome : pool.hostMemory = some m)
    (hmax : info.maxSets < 2 ^ 32) : LinearKept (init pool) m := by
  obtain ⟨hcur, hcount, hentries, -⟩ := pool_of_createDescriptorPool h
  refine ⟨hsome, hcount, zero_le _, ?_, .nil, ?_, ?_, ?_, ?_, ?_⟩
  · exact hentries ▸ hmax
  · exact forall_mem_nil _
  · exact forall_mem_nil _
  · simp only [init, hcur]
    exact dvd_zero 32
  · simp only [init, hcur]
    exact zero_le _
  · simp only [init, hcur]
    exact zero_le _

end

end New

/-! ## Offsets that are cut off -/

section Large

/-- A layout with a number of bytes. -/
def bytesLayout (size : ℕ) : SetLayout := ⟨0, 0, size, 0, 0, false, false, fun _ => .zero⟩

section

variable {size o n offset : ℕ} {heap : Vma.Heap} {pool : Pool}

lemma setSize_bytesLayout (hdvd : 32 ∣ size) (hlt : size < 2 ^ 32) : (bytesLayout size).setSize 0 = size := by
  unfold SetLayout.setSize
  rw [show 32 = 2 ^ 5 from rfl, align_two_pow (by omega)]
  simp only [ne_eq, not_true_eq_false, if_false, bytesLayout]
  rw [alignUp_eq_self (by decide) (show 2 ^ 5 ∣ size from hdvd), mod_eq_of_lt hlt]

/-- One set of a number of bytes is allocated. -/
def allocateBytes (size : ℕ) : PoolLabel := .allocate ⟨[bytesLayout size], none⟩ fun _ => true

/-- An allocation at the bottom of the highest hole, where the others are too small. -/
theorem heapAlloc_highest {rest : List Span} (size : ℕ) (hholes : heap.holes = ⟨o, n⟩ :: rest)
    (hrest : ∀ h ∈ rest, h.size < size) (hlow : heap.allocHigh = false)
    (hnospan : heap.nospanShift = 0) (hdvd : 32 ∣ o) (hpos : 0 < o) (htop : o + n ≤ 2 ^ 64)
    (hsize : 0 < size) (hle : size ≤ n) :
    Vma.heapAlloc heap size 32 =
      (o, { heap with holes := Vma.holeAlloc ⟨o, n⟩ o size ++ rest, freeSize := sub64 heap.freeSize size }) := by
  have hnone : Vma.allocFromBottom (Vma.placeLow 0 · size 32) size rest = none := by
    clear hholes
    induction rest with
    | nil => rfl
    | cons a rest ih =>
      unfold Vma.allocFromBottom
      rw [ih fun h hh => hrest h (mem_cons_of_mem _ hh)]
      simp only [map_eq_none_iff]
      unfold Vma.placeLow
      rw [if_pos (hrest a mem_cons_self)]
  have hvalid : Vma.Valid ⟨o, n⟩ := ⟨hpos, by simp only; omega, htop⟩
  have hplace : Vma.placeLow 0 ⟨o, n⟩ size 32 = some o := by
    rw [Vma.placeLow_eq hvalid hsize (by decide), alignUp_eq_self (by decide) hdvd,
      if_pos (by simp only [Span.stop]; omega)]
  unfold Vma.heapAlloc
  simp only [hlow, Bool.false_eq_true, if_false, hnospan, hholes]
  unfold Vma.allocFromBottom
  rw [hnone, hplace]
  rfl

/-- A pool with a heap in the state that `radv_CreateDescriptorPool` leaves. -/
structure Heaped (p : Pool) : Prop where
  hostMemory : p.hostMemory = none
  bytes : p.size ≠ 0
  low : p.boHeap.allocHigh = false
  nospan : p.boHeap.nospanShift = 0

/-- A pool with a heap that has one hole. -/
structure OneHole (p : Pool) (o n k : ℕ) : Prop extends Heaped p where
  holes : p.boHeap.holes = [⟨o, n⟩]
  entryCount : p.entryCount = k
  max_lt : p.maxEntryCount < 2 ^ 32

variable (abi : PoolAbi)

/-- The set at an offset of the heap, which is cut off. -/
def setAt (offset size : ℕ) : DescriptorSet := ⟨(offset - poolHeapOffset) % 2 ^ 32, size⟩

/-- The pool after one more set. -/
def entered (p : Pool) (heap : Vma.Heap) : Pool :=
  { p with boHeap := heap, entryCount := add32 p.entryCount 1 }

section Place

variable (hs : Heaped s.pool) (hcount : s.pool.entryCount < s.pool.maxEntryCount) (hdvd : 32 ∣ size)
  (hlt : size < 2 ^ 32) (hpos : 0 < size) (halloc : Vma.heapAlloc s.pool.boHeap size 32 = (offset, heap))
  (hoffset : poolHeapOffset ≤ offset) (hoffset' : offset < 2 ^ 64)
include hs hcount hdvd hlt hpos halloc hoffset hoffset'

/-- One set, where the heap has a place for it. -/
theorem descriptorSetCreate_bytes :
    descriptorSetCreate abi true s.pool (bytesLayout size) 0 =
      .ok (setAt offset size, entered s.pool heap) := by
  have hne : offset ≠ 0 := by
    have hheap : poolHeapOffset = 32 := rfl
    omega
  have hentry : allocDescriptorPoolEntry s.pool size = .ok (setAt offset size, entered s.pool heap) := by
    unfold allocDescriptorPoolEntry
    simp only [hs.hostMemory]
    rw [if_pos (by omega), if_neg hs.bytes, halloc]
    simp only [hne, if_false, sub64_of_le hoffset hoffset', setAt, entered, hs.hostMemory]
  unfold descriptorSetCreate
  rw [if_neg (by omega)]
  rw [if_neg (by simp), setSize_bytesLayout hdvd hlt]
  simpa only [hs.hostMemory] using hentry

/-- A call for one set, where the heap has a place for it. -/
theorem exists_allocateBytes :
    ∃ s', Step abi s (allocateBytes size) s' ∧ s'.pool = entered s.pool heap ∧
      s'.live = s.live ++ [⟨s.nextId, setAt offset size⟩] ∧ s'.nextId = s.nextId + 1 := by
  have hcreate := descriptorSetCreate_bytes abi hs hcount hdvd hlt hpos halloc hoffset hoffset'
  have hloop : s.createLoop abi [⟨bytesLayout size, 0, true⟩] = ({ s with
          pool := entered s.pool heap
          sets := s.sets ++ [⟨s.nextId, setAt offset size⟩]
          nextId := s.nextId + 1 }, [⟨s.nextId, setAt offset size⟩], none) := by
    unfold createLoop
    rw [hcreate]
    rfl
  refine ⟨s.allocate abi [⟨bytesLayout size, 0, true⟩], ?_, ?_⟩
  · have hreturns : s.allocateResult abi [⟨bytesLayout size, 0, true⟩] ≠ some .nullPointer := by
      rw [allocateResult, hloop]
      exact fun h => by cases h
    exact if_neg hreturns
  · unfold allocate
    rw [hloop]
    exact ⟨rfl, rfl, rfl⟩

end Place

/-- A set at the bottom of the only hole, with something left of it. -/
theorem OneHole.allocateBytes {k : ℕ} (size : ℕ) (hs : OneHole s.pool o n k)
    (hcount : k < s.pool.maxEntryCount) (hdvd : 32 ∣ size) (hlt : size < 2 ^ 32) (hpos : 0 < size)
    (ho : 32 ∣ o) (hge : poolHeapOffset ≤ o) (htop : o + n ≤ 2 ^ 64) (hsize : size < n) :
    ∃ s', Step abi s (PoolState.allocateBytes size) s' ∧
      OneHole s'.pool (o + size) (n - size) (k + 1) ∧ s'.pool.maxEntryCount = s.pool.maxEntryCount ∧
      s'.live = s.live ++ [⟨s.nextId, setAt o size⟩] ∧ s'.nextId = s.nextId + 1 := by
  have hheap : poolHeapOffset = 32 := rfl
  have halloc := heapAlloc_highest size hs.holes (forall_mem_nil _) hs.low hs.nospan ho (by omega)
    htop hpos (by omega)
  have hhole : Vma.holeAlloc ⟨o, n⟩ o size = [⟨o + size, n - size⟩] := by
    have hleft : sub64 (sub64 n size) (sub64 o o) = n - size := by
      rw [sub64_of_le (le_refl o) (by omega), Nat.sub_self, sub64_of_le (x := n) (by omega) (by omega),
        sub64_of_le (zero_le _) (by omega), Nat.sub_zero]
    simp only [Vma.holeAlloc, hleft]
    rw [if_neg (by omega), if_neg (by omega), if_pos trivial, add64_of_lt (by omega),
      sub64_of_le (by omega) (by omega)]
  have hentries := hs.entryCount
  have hmax := hs.max_lt
  obtain ⟨s', hstep, hpool, hlive, hnext⟩ :=
    exists_allocateBytes abi hs.toHeaped (by omega) hdvd hlt hpos halloc
    hge (by omega)
  refine ⟨s', hstep, ?_, ?_, hlive, hnext⟩
  · rw [hpool]
    refine ⟨⟨hs.hostMemory, hs.bytes, hs.low, hs.nospan⟩, ?_, ?_, hmax⟩
    · simp only [entered, hhole, append_nil]
    · simp only [entered, hentries]
      exact add32_of_lt (by omega)
  · rw [hpool]
    rfl

/-- Two live sets with a common byte. -/
theorem not_right_of_overlap {l1 l2 l3 : List SetEntry} {a b : SetEntry}
    (hlive : s.live = l1 ++ a :: l2 ++ b :: l3)
    (x : ℕ) (ha : a.set.span.Has x) (hb : b.set.span.Has x) : ¬ Right s := by
  intro hright
  have hpos : ∀ e : SetEntry, e.set.span.Has x → decide (e.set.size ≠ 0) = true := by
    intro e he
    simp only [DescriptorSet.span, Span.Has, Span.stop] at he
    exact decide_eq_true (by omega)
  have hapart := hright.apart
  rw [hlive, filter_append, filter_append] at hapart
  have hab := (pairwise_append.mp hapart).2.2
    a (mem_append_right _ (mem_filter.mpr ⟨mem_cons_self, hpos a ha⟩))
    b (mem_filter.mpr ⟨mem_cons_self, hpos b hb⟩)
  exact hab x ha hb

/-- What is free below 4 GiB is too small for a set of `size` bytes, but there is a place for it
right above. -/
structure AtLimit (s : PoolState) (size : ℕ) : Prop where
  heaped : Heaped s.pool
  entryCount : s.pool.entryCount < s.pool.maxEntryCount
  holes : ∃ n rest, s.pool.boHeap.holes = ⟨2 ^ 32 + 32,
    n⟩ :: rest ∧ size ≤ n ∧ 2 ^ 32 + 32 + n ≤ 2 ^ 64 ∧ ∀ h ∈ rest, h.offset ≤ 2 ^ 32 ∧ h.size < size
  dvd : 32 ∣ size
  pos : 0 < size
  lt : size < 2 ^ 32
  live : ∃ e ∈ s.live, ∃ x, e.set.span.Has x ∧ x < size

section

variable (hs : OneHole (init pool).pool poolHeapOffset pool.size 0)
  (htop : poolHeapOffset + pool.size ≤ 2 ^ 64)
include hs htop

/-- With three sets: the first two fill 4 GiB. -/
theorem exists_atLimit_of_three (hmax : 3 ≤ pool.maxEntryCount)
    (hsize : 2 ^ 32 + 32 ≤ pool.size) : ∃ l s, Run (Step abi) (init pool) l s ∧ AtLimit s 32 := by
  have hheap : poolHeapOffset = 32 := rfl
  rw [hheap] at hs htop
  have hmax0 : (init pool).pool.maxEntryCount = pool.maxEntryCount := rfl
  obtain ⟨s1, h1, hs1, hmax1, hlive1, hnext1⟩ := hs.allocateBytes abi (2 ^ 32 - 32) (by omega)
    (by decide) (by decide) (by decide) (by decide) (by omega) htop (by omega)
  obtain ⟨s2, h2, hs2, hmax2, hlive2, hnext2⟩ := hs1.allocateBytes abi 32 (by omega)
    (by decide) (by decide) (by decide) (by decide) (by omega) (by omega) (by omega)
  refine ⟨_, s2, (Run.nil.snoc h1).snoc h2, hs2.toHeaped, ?_, ⟨_, _, hs2.holes, ?_, ?_, ?_⟩,
    by decide, by decide, by decide, ⟨⟨0, ⟨0, 2 ^ 32 - 32⟩⟩, ?_, 0, ⟨le_refl 0, ?_⟩, by decide⟩⟩
  · rw [hs2.entryCount]
    omega
  · omega
  · omega
  · exact forall_mem_nil _
  · rw [hlive2, hlive1]
    exact mem_append_left _ (mem_append_right _ (mem_singleton_self _))
  · exact show 0 < 0 + (2 ^ 32 - 32) by decide

/-- With two sets: the first is freed again, and leaves a hole before the second. -/
theorem exists_atLimit_of_two (hmax : 2 ≤ pool.maxEntryCount)
    (hsize : 2 ^ 32 + 64 ≤ pool.size) : ∃ l s, Run (Step abi) (init pool) l s ∧ AtLimit s 64 := by
  have hheap : poolHeapOffset = 32 := rfl
  have hmax0 : (init pool).pool.maxEntryCount = pool.maxEntryCount := rfl
  obtain ⟨s1, h1, hs1, hmax1, hlive1, hnext1⟩ := hs.allocateBytes abi 32 (by omega)
    (by decide) (by decide) (by decide) (by decide) (by omega) htop (by omega)
  obtain ⟨s2, h2, hs2, hmax2, hlive2, hnext2⟩ := hs1.allocateBytes abi (2 ^ 32 - 32) (by omega)
    (by decide) (by decide) (by decide) (by decide) (by omega) (by omega) (by omega)
  have hlive : s2.live = [⟨0, ⟨0, 32⟩⟩, ⟨1, ⟨32, 2 ^ 32 - 32⟩⟩] := by
    rw [hlive2, hlive1, hnext1]
    rfl
  have hhandles : s2.handles [some 0] = [⟨0, ⟨0, 32⟩⟩] := by
    rw [handles, hlive]
    rfl
  have h3 : Step abi s2 (.free [some 0]) (s2.free [some 0]) := by
    unfold Step step
    rw [hlive]
    rfl
  have hfree : s2.free [some 0] =
      { s2.destroy ⟨0, ⟨0, 32⟩⟩ with live := [⟨1, ⟨32, 2 ^ 32 - 32⟩⟩] } := by
    unfold free
    rw [hhandles, freeLoop_of_heap hs2.hostMemory, hlive]
    rfl
  have hpool : (s2.free [some 0]).pool = { s2.pool with
      boHeap := Vma.heapFree s2.pool.boHeap 32 32
      entryCount := sub32 s2.pool.entryCount 1 } := by
    rw [hfree]
    rfl
  -- the hole of the freed set is too small
  have hholes : (s2.free [some 0]).pool.boHeap.holes =
      [⟨32 + 32 + (2 ^ 32 - 32), pool.size - 32 - (2 ^ 32 - 32)⟩, ⟨32, 32⟩] := by
    rw [hpool]
    simp only [Vma.heapFree, hs2.holes]
    rfl
  refine ⟨_, _, ((Run.nil.snoc h1).snoc h2).snoc h3, ?_, ?_, ⟨_, _, hholes, ?_, ?_, ?_⟩, by decide,
    by decide, by decide, ⟨⟨1, ⟨32, 2 ^ 32 - 32⟩⟩, ?_, 32, ⟨le_refl 32, ?_⟩, by decide⟩⟩
  · rw [hpool]
    exact ⟨hs2.hostMemory, hs2.bytes, hs2.low, hs2.nospan⟩
  · rw [hpool]
    simp only [hs2.entryCount]
    change 1 < s2.pool.maxEntryCount
    omega
  · omega
  · omega
  · simp
  · rw [hfree]
    exact mem_singleton_self _
  · exact show 32 < 32 + (2 ^ 32 - 32) by decide

end

/-- A pool whose offsets can be cut off gets there. -/
theorem exists_atLimit (hs : pool.size ≠ 0 → OneHole (init pool).pool poolHeapOffset pool.size 0)
    (htop : poolHeapOffset + pool.size ≤ 2 ^ 64) (hsmall : ¬ pool.Small) :
    ∃ l s size, Run (Step abi) (init pool) l s ∧ AtLimit s size := by
  simp only [Pool.Small, not_or, not_and, not_lt, not_le] at hsmall
  obtain ⟨hlarge, hmany, htwo⟩ := hsmall
  have hhole := hs (by omega)
  by_cases hthree : 3 ≤ pool.maxEntryCount
  · obtain ⟨l, s, hrun, hlimit⟩ := exists_atLimit_of_three abi hhole htop hthree hlarge
    exact ⟨l, s, 32, hrun, hlimit⟩
  · obtain ⟨l, s, hrun, hlimit⟩ := exists_atLimit_of_two abi hhole htop hmany (htwo (by omega))
    exact ⟨l, s, 64, hrun, hlimit⟩

/-- The place above 4 GiB. -/
theorem AtLimit.heapAlloc (hs : AtLimit s size) :
    ∃ n rest, s.pool.boHeap.holes = ⟨2 ^ 32 + 32, n⟩ :: rest ∧ (∀ h ∈ rest, h.offset ≤ 2 ^ 32) ∧
      size ≤ n ∧ 2 ^ 32 + 32 + n ≤ 2 ^ 64 ∧ Vma.heapAlloc s.pool.boHeap size 32 = (2 ^ 32 + 32,
        { s.pool.boHeap with
          holes := Vma.holeAlloc ⟨2 ^ 32 + 32, n⟩ (2 ^ 32 + 32) size ++ rest
          freeSize := sub64 s.pool.boHeap.freeSize size }) := by
  obtain ⟨n, rest, hholes, hle, htop, hrest⟩ := hs.holes
  exact ⟨n, rest, hholes, fun h hh => (hrest h hh).1, hle, htop, heapAlloc_highest size hholes
    (fun h hh => (hrest h hh).2) hs.heaped.low hs.heaped.nospan (by decide) (by decide) htop hs.pos hle⟩

/-- The next set is put at the beginning. -/
theorem AtLimit.not_right (hs : AtLimit s size) :
    ∃ s', Step abi s (PoolState.allocateBytes size) s' ∧ ¬ Right s' := by
  obtain ⟨n, rest, -, -, -, -, halloc⟩ := hs.heapAlloc
  obtain ⟨s', hstep, -, hlive, -⟩ :=
    exists_allocateBytes abi hs.heaped hs.entryCount hs.dvd hs.lt hs.pos halloc
    (by decide) (by decide)
  obtain ⟨e, he, x, hx, hlt⟩ := hs.live
  obtain ⟨l1, l2, hsplit⟩ := append_of_mem he
  rw [hsplit] at hlive
  refine ⟨s', hstep, not_right_of_overlap hlive x hx ⟨zero_le _, ?_⟩⟩
  exact show x < 0 + size by omega

end

end Large

/-! ## All runs -/

section Run

variable {pdev : PhysicalDevice} {zalloc : Bool} {bo : Except PoolError Unit}
    {info : PoolCreateInfo} {pool : Pool}

section

variable (h : createDescriptorPool abi pdev zalloc bo info = .ok pool)
  (hnone : pool.hostMemory = none)
include h hnone

lemma oneHole_init
    (hmax : info.maxSets < 2 ^ 32) (hpos : pool.size ≠ 0) :
    OneHole (init pool).pool poolHeapOffset pool.size 0 := by
  obtain ⟨-, hcount, hentries, hheap⟩ := pool_of_createDescriptorPool h
  have hpool : (init pool).pool.boHeap = poolHeap pool.size := hheap hnone
  rw [poolHeap, if_pos hpos] at hpool
  refine ⟨⟨hnone, hpos, ?_, ?_⟩, ?_, hcount, hentries ▸ hmax⟩
  · rw [hpool]
  · rw [hpool]
    simp [Vma.heapInit]
  · rw [hpool]
    simp [Vma.heapInit, pos_of_ne_zero hpos, Vma.heapFree, Vma.freeHoles]

/-- A new pool without a heap does not survive a set with bytes. -/
theorem allocateResult_init (hheap : ¬ pool.HasHeap) :
    (init pool).allocateResult abi [⟨bytesLayout 32, 0, true⟩] = some .nullPointer := by
  obtain ⟨-, hcount, -, -⟩ := pool_of_createDescriptorPool h
  unfold Pool.HasHeap at hheap
  push Not at hheap
  have hcreate : descriptorSetCreate abi true pool (bytesLayout 32) 0 = .error .nullPointer := by
    unfold descriptorSetCreate allocDescriptorPoolEntry
    rw [setSize_bytesLayout (by decide) (by decide), if_neg (by omega)]
    simp [hnone, hheap.1]
  unfold allocateResult createLoop init
  simp only [hcreate]

end

section

variable (h : createDescriptorPool abi pdev zalloc bo info = .ok pool)
include h

/-- The state of a pool with a heap, in a run in which no offset is cut off. -/
theorem heapKept_of_run (hnone : pool.hostMemory = none) (hmax : info.maxSets < 2 ^ 32)
    (hsize : poolHeapOffset + pool.size ≤ 2 ^ 64) (hsmall : pool.Small) {l : List PoolLabel}
    {s : PoolState} (hrun : Run (Step abi) (init pool) l s) : HeapOf pool s := by
  refine hrun.invariant (I := fun _ s => HeapOf pool s) ⟨heapKept_init h hnone hmax hsize, .nil, rfl, rfl⟩ ?_
  intro _ s a s' ⟨hs, hperm, hsize', hmax'⟩ hstep
  obtain ⟨hs', hperm', hsize'', hmax''⟩ :=
    heap_step hs hperm ((Pool.small_congr hsize' hmax').mpr hsmall) hstep
  exact ⟨hs', hperm', hsize''.trans hsize', hmax''.trans hmax'⟩

/-- The state of a pool without a heap, in a run in which every call is all or nothing. -/
theorem linearKept_of_run {m : HostMemory} (hsome : pool.hostMemory = some m)
    (hmax : info.maxSets < 2 ^ 32) {l : List PoolLabel} {s : PoolState}
    (hrun : Run (only (Ok abi) (Step abi)) (init pool) l s) :
    (∃ m', LinearKept s m') ∧ s.sets.Perm s.live := by
  refine hrun.invariant (I := fun _ s => (∃ m', LinearKept s m') ∧ s.sets.Perm s.live)
    ⟨⟨m, linearKept_init h hsome hmax⟩, .nil⟩ ?_
  intro _ s a s' ⟨⟨m', hs⟩, hperm⟩ ⟨hok, hstep⟩
  exact ⟨hs.step hstep, (linear_step hs hperm hstep).mpr hok⟩

end

/-- In every run whose calls all meet the condition the pool is right in every state. A pool without
the bit for freeing single sets stays right in the next call if and only if that meets the
condition; a pool with it is right in all runs, and all calls return, if and only if no offset of a
set can be cut off and there is a heap. -/
theorem right_of_run (h : createDescriptorPool abi pdev zalloc bo info = .ok pool)
    (hmax : info.maxSets < 2 ^ 32) (hsize : poolHeapOffset + pool.size ≤ 2 ^ 64) :
    (∀ l s, Run (only (Ok abi) (Step abi)) (init pool) l s →
      Right s ∧ (pool.hostMemory ≠ none → ∀ a s', Step abi s a s' → (Right s' ↔ Ok abi s a))) ∧
      (pool.hostMemory = none →
        ((∀ l s, Run (Step abi) (init pool) l s → Right s ∧ ∀ request : AllocateInfo, ∀ zalloc,
          s.allocateResult abi (request.requests zalloc) ≠ some .nullPointer) ↔
          pool.Small ∧ pool.HasHeap)) := by
  constructor
  · intro l s hrun
    cases hhost : pool.hostMemory with
    | none =>
      have hkept : HeapKept s ∧ s.sets.Perm s.live := by
        refine hrun.invariant (I := fun _ s => HeapKept s ∧ s.sets.Perm s.live)
          ⟨heapKept_init h hhost hmax hsize, .nil⟩ ?_
        intro _ t a t' ⟨ht, hperm⟩ ⟨hok, hstep⟩
        obtain ⟨ht', hperm', -, -⟩ := heap_step ht hperm (hok.small ht.hostMemory) hstep
        exact ⟨ht', hperm'⟩
      exact ⟨right_of_heap hkept.1 hkept.2, fun hne => absurd rfl hne⟩
    | some m =>
      obtain ⟨⟨m', hs⟩, hperm⟩ := linearKept_of_run h hhost hmax hrun
      refine ⟨right_of_linear hs hperm, fun _ a s' hstep => ?_⟩
      obtain ⟨m'', hs'⟩ := hs.step hstep
      rw [← linear_step hs hperm hstep]
      exact ⟨fun hright => hright.sets, right_of_linear hs'⟩
  · intro hnone
    constructor
    · intro hall
      constructor
      · by_contra hsmall
        obtain ⟨l, s, size, hrun, hlimit⟩ := exists_atLimit abi (oneHole_init h hnone hmax) hsize hsmall
        obtain ⟨s', hstep, hnot⟩ := hlimit.not_right abi
        exact hnot (hall _ s' (hrun.snoc hstep)).1
      · by_contra hheap
        exact (hall _ _ .nil).2 ⟨[bytesLayout 32], none⟩ (fun _ => true)
          (allocateResult_init h hnone hheap)
    · intro ⟨hsmall, hheap⟩ l s hrun
      obtain ⟨hs, hperm, hsize', hmax'⟩ := heapKept_of_run h hnone hmax hsize hsmall hrun
      refine ⟨right_of_heap hs hperm, fun request zalloc => ?_⟩
      exact hs.allocateResult_ne ((Pool.small_congr hsize' hmax').mpr hsmall)
        (fun hzero => hmax'.trans (hheap (hsize'.symm.trans hzero))) abi _

end Run

/-- A pool without a heap, with room for one uniform buffer. -/
def bufferPool : PoolCreateInfo := ⟨false, 2, [⟨.uniformBuffer, 1⟩], none, none⟩

/-- A call for two sets fails at the second. The first one is not handed out, but it stays in the
pool. -/
theorem not_right_of_failed_call :
    ∃ pool s, createDescriptorPool ⟨128, 96, 16⟩ ⟨false, false⟩ true (.ok ()) bufferPool = .ok pool ∧
      Run (Step ⟨128, 96, 16⟩) (init pool) [.allocate ⟨[bytesLayout 32, bytesLayout 32],
        none⟩ fun _ => true] s ∧
      s.live = [] ∧ s.sets = [⟨0, ⟨0, 32⟩⟩] ∧ s.pool.entryCount = 1 ∧ ¬ Right s := by
  have hrun : exec (step ⟨128, 96, 16⟩) (init ⟨0, 32, some ⟨128, 320⟩, ⟨[], 0, false, 0⟩, 0, 2⟩)
      [.allocate ⟨[bytesLayout 32, bytesLayout 32], none⟩ fun _ => true] =
        some ⟨⟨32, 32, some ⟨224, 320⟩, ⟨[], 0, false, 0⟩, 1, 2⟩, [⟨0, ⟨0, 32⟩⟩], [], 1⟩ := rfl
  refine ⟨_, _, rfl, run_of_exec hrun, rfl, rfl, rfl, fun hright => ?_⟩
  have hcount := hright.entryCount
  cases hcount

/-- A pool with a heap, and calls that allocate two sets, free the first of them and allocate a
third. -/
def freeingPool : PoolCreateInfo := ⟨true, 3, [⟨.uniformBuffer, 6⟩], none, none⟩

def freeingCalls : List PoolLabel :=
  [.allocate ⟨[bytesLayout 32, bytesLayout 64], none⟩ fun _ => true, .free [some 0, none], allocateBytes 32]

/-- The third set is put where the first one was. -/
theorem right_of_run_freed :
    ∃ pool s, createDescriptorPool ⟨128, 96, 16⟩ ⟨false, false⟩ true (.ok ()) freeingPool = .ok pool ∧
      Run (Step ⟨128, 96, 16⟩) (init pool) freeingCalls s ∧
      s.live = [⟨1, ⟨32, 64⟩⟩, ⟨2, ⟨0, 32⟩⟩] ∧ Right s := by
  have hcreate : createDescriptorPool ⟨128, 96, 16⟩ ⟨false, false⟩ true (.ok ()) freeingPool =
      .ok ⟨0, 144, none, poolHeap 144, 0, 3⟩ := rfl
  obtain ⟨s, hexec, hlive⟩ : ∃ s, exec (step ⟨128, 96, 16⟩) (init ⟨0, 144, none, poolHeap 144, 0, 3⟩)
      freeingCalls = some s ∧ s.live = [⟨1, ⟨32, 64⟩⟩, ⟨2, ⟨0, 32⟩⟩] := ⟨_, rfl, rfl⟩
  have hrun : Run (Step ⟨128, 96, 16⟩) (init ⟨0, 144, none, poolHeap 144, 0, 3⟩) freeingCalls s :=
    run_of_exec hexec
  exact ⟨_, s, hcreate, hrun, hlive, (((right_of_run hcreate (by decide) (by decide)).2 rfl).mpr
    ⟨.inl (by decide), fun h => by cases h⟩ _ _ hrun).1⟩

end PoolState

end RadvXclipse.Descriptor
