import RadvXclipse.Descriptor.PoolSetsRun

/-!
# Calls that fail

`radv_AllocateDescriptorSets` frees the sets that it has created when it fails at one of them. With
a heap this brings back the pool as it was, if no offset of a set was cut off. Without a heap
`radv_FreeDescriptorSets` does nothing, and the pool is as it was only if the call failed at its
first set.
-/

namespace RadvXclipse.Descriptor

open Lib Util List Option Nat

namespace PoolState

variable {s s' : PoolState} {abi : PoolAbi}

/-- The pool with its entry count, free bytes and host memory, its sets and the live sets are the
same. -/
structure Unchanged (s s' : PoolState) : Prop where
  pool : s'.pool = s.pool
  sets : s'.sets = s.sets
  live : s'.live = s.live

/-- A call that fails returns, with the pool as it was. -/
def RollsBack (abi : PoolAbi) (s : PoolState) (rs : List SetRequest) : Prop :=
  s.allocateResult abi rs ≠ some .nullPointer ∧ Unchanged s (s.allocate abi rs)

/-- A pool without a heap has no room for the first set of a call. -/
def NoRoomForFirst (abi : PoolAbi) (s : PoolState) (rs : List SetRequest) : Prop :=
  ∃ m, s.pool.hostMemory = some m ∧ s.pool.fits abi m (rs.take 1) = false

variable {rs : List SetRequest}

lemma allocate_of_error (h : s.allocateResult abi rs ≠ none) :
    s.allocate abi rs = (s.createLoop abi rs).1.freeLoop (s.createLoop abi rs).2.1 := by
  unfold allocate
  unfold allocateResult at h
  generalize s.createLoop abi rs = res at h ⊢
  obtain ⟨t, created, result⟩ := res
  cases result with
  | none => exact absurd rfl h
  | some e => rfl

/-! ## The sets of the pool -/

/-- The numbers of the sets have been given out. -/
def Numbered (s : PoolState) : Prop := ∀ e ∈ s.sets, e.id < s.nextId

lemma Numbered.createLoop (hs : Numbered s) (abi : PoolAbi) (rs : List SetRequest) :
    Numbered (s.createLoop abi rs).1 ∧ ∀ e ∈ (s.createLoop abi rs).2.1, s.nextId ≤ e.id := by
  induction rs generalizing s with
  | nil => exact ⟨hs, forall_mem_nil _⟩
  | cons r rs ih =>
    unfold PoolState.createLoop
    cases hcreate : descriptorSetCreate abi r.zalloc s.pool r.layout r.variableCount with
    | error e => exact ⟨hs, forall_mem_nil _⟩
    | ok res =>
      obtain ⟨set, pool⟩ := res
      have hnext : Numbered (s.withSet pool set) := by
        exact forall_mem_append.mpr ⟨fun e he => lt_succ_of_lt (hs e he),
          forall_mem_singleton.mpr (lt_succ_self _)⟩
      obtain ⟨hrest, hids⟩ := ih hnext
      refine ⟨hrest, fun e he => ?_⟩
      rcases mem_cons.mp he with rfl | he
      · exact le_refl _
      · exact le_of_succ_le (hids e he)

lemma nextId_foldl_destroy (s : PoolState) (es : List SetEntry) : (es.foldl destroy s).nextId = s.nextId := by
  induction es generalizing s with
  | nil => rfl
  | cons e es ih => exact ih _

lemma sets_foldl_destroy (s : PoolState) (es : List SetEntry) :
    (es.foldl destroy s).sets = s.sets.diff es := by
  induction es generalizing s with
  | nil => rfl
  | cons e es ih =>
    rw [foldl_cons, ih, diff_cons]
    rfl

lemma Numbered.foldl_destroy (hs : Numbered s) (es : List SetEntry) : Numbered (es.foldl destroy s) := by
  intro e he
  rw [sets_foldl_destroy] at he
  rw [nextId_foldl_destroy]
  exact hs e ((diff_sublist _ _).subset he)

lemma Numbered.freeLoop (hs : Numbered s) (es : List SetEntry) : Numbered (s.freeLoop es) := by
  unfold PoolState.freeLoop
  split_ifs
  · exact hs.foldl_destroy es
  · exact hs

theorem Numbered.step {a : PoolLabel} (hs : Numbered s) (hstep : Step abi s a s') : Numbered s' := by
  cases a with
  | allocate info zalloc =>
    obtain ⟨-, heq⟩ := ite_none_left_eq_some.mp hstep
    cases heq
    have hloop := (hs.createLoop abi (info.requests zalloc)).1
    unfold PoolState.allocate
    generalize s.createLoop abi (info.requests zalloc) = res at hloop ⊢
    obtain ⟨t, created, result⟩ := res
    cases result with
    | none => exact hloop
    | some e => exact hloop.freeLoop created
  | free ids =>
    obtain ⟨-, heq⟩ := ite_none_right_eq_some.mp hstep
    cases heq
    exact hs.freeLoop _
  | reset =>
    cases hstep
    have hdestroy : Numbered s.destroyEntries := by
      unfold PoolState.destroyEntries
      split_ifs
      · exact hs.foldl_destroy _
      · exact forall_mem_nil _
    exact hdestroy

/-- Taking away what was appended. -/
theorem diff_append_self {l m : List SetEntry} (h : ∀ e ∈ m, e ∉ l) : (l ++ m).diff m = l := by
  induction m with
  | nil => exact append_nil l
  | cons e m ih =>
    rw [diff_cons, erase_append_right _ (h e mem_cons_self), erase_cons_head]
    exact ih fun d hd => h d (mem_cons_of_mem _ hd)

/-! ## Pools with a heap -/

section Heap

variable {size : ℕ}

/-- The heap is determined by the sets. -/
theorem HeapKept.pool_eq (hs : HeapKept s) (hs' : HeapKept s') (hsame : SamePool s s')
    (hsets : s'.sets = s.sets) :
    s'.pool = s.pool := by
  have hrange : (⟨poolHeapOffset, s'.pool.size⟩ : Span) = ⟨poolHeapOffset, s.pool.size⟩ := by rw [hsame.size]
  have hholes : s'.pool.boHeap.holes = s.pool.boHeap.holes :=
    hs'.sound.holes_eq hs.sound hrange fun r => by rw [hsets]
  have hfree : s'.pool.boHeap.freeSize = s.pool.boHeap.freeSize := by
    have hfree' := hs'.sound.freeSize_eq
    have hfree := hs.sound.freeSize_eq
    rw [hfree', hfree, hholes]
  have hheap : s'.pool.boHeap = s.pool.boHeap :=
    Vma.Heap.ext hholes hfree (hs'.low.trans hs.low.symm) (hs'.sound.nospan.trans hs.sound.nospan.symm)
  have hcount : s'.pool.entryCount = s.pool.entryCount := by rw [hs'.entryCount, hs.entryCount, hsets]
  exact Pool.ext hsame.currentOffset hsame.size hsame.hostMemory hheap hcount hsame.maxEntryCount

/-- The sets that were created are taken away again. -/
theorem HeapKept.unchanged (hs : HeapKept s) (hids : Numbered s) (hsmall : s.pool.Small)
    (hfail : s.allocateResult abi rs ≠ none) : Unchanged s (s.allocate abi rs) := by
  obtain ⟨hkept, hsame, hsets⟩ := hs.createLoop hsmall abi rs
  have hnew := (hids.createLoop abi rs).2
  rw [allocate_of_error hfail]
  generalize s.createLoop abi rs = res at hkept hsame hsets hnew ⊢
  obtain ⟨t, created, result⟩ := res
  have hsub : created.Subperm t.sets := by
    rw [hsets]
    exact (sublist_append_right ..).subperm
  obtain ⟨hkept', hsame', hsets'⟩ := hkept.foldl_destroy hsub
  have hback : (created.foldl PoolState.destroy t).sets = s.sets := by
    rw [hsets', hsets]
    refine diff_append_self fun e he hmem => ?_
    have hge := hnew e he
    have hlt := hids e hmem
    omega
  rw [freeLoop_of_heap hkept.hostMemory]
  refine ⟨?_, hback, hsame'.live.trans hsame.live⟩
  exact hs.pool_eq hkept' (hsame.trans hsame') hback

/-- Freeing a range makes no hole at another place. -/
theorem offset_of_mem_freeHoles {offset : ℕ} {high low : List Vma.Hole} {t : Vma.Hole}
    (ht : t ∈ Vma.freeHoles offset size high low) :
    t.offset = offset ∨ ∃ h ∈ high ++ low, t.offset = h.offset := by
  have hhigh : ∀ {t : Vma.Hole}, t ∈ high.dropLast → ∃ h ∈ high ++ low, t.offset = h.offset := fun {t} h =>
    ⟨t, mem_append_left _ ((dropLast_sublist _).subset h), rfl⟩
  have hlow : ∀ {t : Vma.Hole}, t ∈ low.tail → ∃ h ∈ high ++ low, t.offset = h.offset := fun {t} h =>
    ⟨t, mem_append_right _ (mem_of_mem_tail h), rfl⟩
  have hhead : ∀ {l : Vma.Hole}, low.head?.filter (fun h => add64 h.offset h.size = offset) = some l →
      ∃ h ∈ high ++ low, l.offset = h.offset := fun {l} h =>
    ⟨l, mem_append_right _ (mem_of_mem_head? (filter_eq_some_iff.mp h).1), rfl⟩
  simp only [Vma.freeHoles] at ht
  split at ht <;> rw [mem_append, mem_cons] at ht <;> rcases ht with ht | rfl | ht
  · exact .inr (hhigh ht)
  · next l _ hl _ => exact .inr (@hhead l hl)
  · exact .inr (hlow ht)
  · exact .inr ⟨t, mem_append_left _ ht, rfl⟩
  · next l hl _ => exact .inr (@hhead l hl)
  · exact .inr (hlow ht)
  · exact .inr (hhigh ht)
  · exact .inl rfl
  · exact .inr ⟨t, mem_append_right _ ht, rfl⟩
  · exact .inr ⟨t, mem_append_left _ ht, rfl⟩
  · exact .inl rfl
  · exact .inr ⟨t, mem_append_right _ ht, rfl⟩

/-- What is left of a hole whose beginning is taken. -/
theorem offset_of_mem_holeAlloc {o n : ℕ} (hpos : 0 < size) (hle : size ≤ n) (htop : o + n ≤ 2 ^ 64)
    {t : Vma.Hole} (ht : t ∈ Vma.holeAlloc ⟨o, n⟩ o size) (ho : 0 < o) : o < t.offset := by
  have hin : Vma.Inside ⟨o, size⟩ ⟨o, n⟩ := ⟨le_refl o, by simp only [Span.stop]; omega⟩
  have hvalid : Vma.Valid ⟨o, n⟩ := ⟨ho, by simp only; omega, htop⟩
  have hvalid' : Vma.Valid ⟨o, size⟩ := ⟨ho, hpos, by simp only [Span.stop]; omega⟩
  rcases Vma.mem_holeAlloc hvalid hvalid' hin ht with ⟨hsize, rfl | rfl⟩
  · simp only [Span.stop]
    omega
  · simp only at hsize
    omega

/-- A call that fails at its second set. -/
theorem createLoop_of_second {r r' : SetRequest} {set : DescriptorSet} {pool : Pool} {err : PoolError}
    (hfirst : descriptorSetCreate abi r.zalloc s.pool r.layout r.variableCount = .ok (set, pool))
    (hsecond : descriptorSetCreate abi r'.zalloc pool r'.layout r'.variableCount = .error err) :
    s.createLoop abi [r, r'] = (s.withSet pool set, [⟨s.nextId, set⟩], some err) := by
  unfold createLoop
  rw [hfirst]
  unfold createLoop
  dsimp only
  rw [hsecond]
  rfl

/-- A call for two sets, where host memory can be allocated for the first one only. -/
def twoBytes (size : ℕ) : AllocateInfo := ⟨[bytesLayout size, bytesLayout size], none⟩

def onlyFirst (i : ℕ) : Bool := i = 0

/-- The first set is created above 4 GiB and freed at the beginning. -/
theorem AtLimit.not_unchanged (abi : PoolAbi) (hs : AtLimit s size) :
    s.allocateResult abi ((twoBytes size).requests onlyFirst) ≠ none ∧
      ¬ Unchanged s (s.allocate abi ((twoBytes size).requests onlyFirst)) := by
  obtain ⟨n, rest, hholes, hrest, hle, htop, halloc⟩ := hs.heapAlloc
  have hcreate := descriptorSetCreate_bytes abi hs.heaped hs.entryCount hs.dvd hs.lt hs.pos halloc (by decide)
    (by decide)
  have hrequests : (twoBytes size).requests onlyFirst =
    [⟨bytesLayout size, 0, true⟩, ⟨bytesLayout size, 0, false⟩] := rfl
  generalize (twoBytes size).requests onlyFirst = rs at *
  have hsecond : ∀ pool : Pool, pool.hostMemory = none →
      ∃ e, descriptorSetCreate abi false pool (bytesLayout size) 0 = .error e := by
    intro pool hnone
    by_cases hfull : pool.entryCount = pool.maxEntryCount <;> simp [descriptorSetCreate, hnone, hfull]
  obtain ⟨t, e, hloop, htnone, htheap, hoffset, hsize⟩ : ∃ t e,
      (∃ err, s.createLoop abi rs = (t, [e], some err)) ∧
      t.pool.hostMemory = none ∧
      t.pool.boHeap.holes = Vma.holeAlloc ⟨2 ^ 32 + 32, n⟩ (2 ^ 32 + 32) size ++ rest ∧
      e.set.offset = 0 ∧ e.set.size = size := by
    obtain ⟨err, herr⟩ := hsecond (entered s.pool _) hs.heaped.hostMemory
    rw [hrequests]
    exact ⟨_, _, ⟨err, createLoop_of_second hcreate herr⟩, hs.heaped.hostMemory, rfl, rfl, rfl⟩
  obtain ⟨err, hloop⟩ := hloop
  have hfail : s.allocateResult abi rs ≠ none := by
    rw [allocateResult, hloop]
    exact some_ne_none err
  refine ⟨hfail, fun hsame => ?_⟩
  have hfreed : (s.allocate abi rs).pool.boHeap.holes = (Vma.heapFree t.pool.boHeap 32 size).holes := by
    rw [allocate_of_error hfail, hloop, freeLoop_of_heap htnone, foldl_cons, foldl_nil, destroy]
    simp only [hoffset, hsize]
    rw [if_pos (Nat.pos_iff_ne_zero.mp hs.pos)]
    rfl
  -- the place above 4 GiB is still taken
  rw [hsame.pool, hholes] at hfreed
  have hmem : (⟨2 ^ 32 + 32, n⟩ : Vma.Hole) ∈ (Vma.heapFree t.pool.boHeap 32 size).holes := by
    rw [← hfreed]
    exact mem_cons_self
  rcases offset_of_mem_freeHoles hmem with hbottom | ⟨h, hh, heq⟩
  · exact absurd (show 2 ^ 32 + 32 = 32 from hbottom) (by decide)
  · rw [takeWhile_append_dropWhile, htheap] at hh
    simp only at heq
    rcases mem_append.mp hh with hh | hh
    · have hlt := offset_of_mem_holeAlloc hs.pos hle htop hh (by decide)
      omega
    · have hlt := hrest h hh
      omega

end Heap

/-! ## Pools without a heap -/

section Linear

variable {m : HostMemory}

/-- A call that creates no set leaves everything as it was. -/
theorem createLoop_eq_of_nil (h : (s.createLoop abi rs).2.1 = []) : (s.createLoop abi rs).1 = s := by
  cases rs with
  | nil => rfl
  | cons r rs =>
    unfold createLoop at h ⊢
    cases hcreate : descriptorSetCreate abi r.zalloc s.pool r.layout r.variableCount with
    | error e => rfl
    | ok res =>
      rw [hcreate] at h
      cases h

/-- The sets that were created stay in the pool. -/
theorem LinearKept.unchanged_iff (hs : LinearKept s m) (hfail : s.allocateResult abi rs ≠ none) :
    Unchanged s (s.allocate abi rs) ↔ s.pool.fits abi m (rs.take 1) = false := by
  obtain ⟨⟨m', hkept⟩, -, hsets, -, hnil⟩ := hs.createLoop abi rs
  have hne : rs ≠ [] := by
    rintro rfl
    exact hfail rfl
  rw [← hnil hne, allocate_of_error hfail, freeLoop_of_linear hkept]
  constructor
  · intro hsame
    have hback := hsame.sets
    rw [hsets] at hback
    exact append_right_eq_self.mp hback
  · intro hempty
    rw [createLoop_eq_of_nil hempty]
    exact ⟨rfl, rfl, rfl⟩

end Linear

/-! ## All runs -/

section Run

variable {pdev : PhysicalDevice} {zalloc : Bool} {bo : Except PoolError Unit}
    {info : PoolCreateInfo} {pool : Pool}

lemma numbered_of_run {l : List PoolLabel} (hrun : Run (Step abi) (init pool) l s) : Numbered s :=
  hrun.invariant (I := fun _ s => Numbered s) (forall_mem_nil _) fun _ _ _ _ hs hstep => hs.step hstep

/-- In every state of every run, a call that fails on a pool without the bit for freeing single sets
leaves the pool as it was if and only if there was no room for its first set. On a pool with the bit
all failing calls of all runs return and leave it as it was if and only if no offset of a set can be
cut off and there is a heap. -/
theorem unchanged_of_error (h : createDescriptorPool abi pdev zalloc bo info = .ok pool)
    (hmax : info.maxSets < 2 ^ 32) (hsize : poolHeapOffset + pool.size ≤ 2 ^ 64) :
    (pool.hostMemory ≠ none → ∀ l s, Run (Step abi) (init pool) l s → ∀ (request : AllocateInfo) zalloc,
      s.allocateResult abi (request.requests zalloc) ≠ none →
        (Unchanged s (s.allocate abi (request.requests zalloc)) ↔
          NoRoomForFirst abi s (request.requests zalloc))) ∧
      (pool.hostMemory = none →
        ((∀ l s, Run (Step abi) (init pool) l s → ∀ (request : AllocateInfo) zalloc,
          s.allocateResult abi (request.requests zalloc) ≠ none →
            RollsBack abi s (request.requests zalloc)) ↔ pool.Small ∧ pool.HasHeap)) := by
  constructor
  · intro hlinear l s hrun request zalloc hfail
    obtain ⟨m, hhost⟩ := ne_none_iff_exists'.mp hlinear
    obtain ⟨m', hs⟩ : ∃ m', LinearKept s m' :=
      hrun.invariant (I := fun _ s => ∃ m', LinearKept s m') ⟨m, linearKept_init h hhost hmax⟩
        fun _ _ _ _ ⟨_, ht⟩ hstep => ht.step hstep
    have hroom : NoRoomForFirst abi s (request.requests zalloc) ↔
        s.pool.fits abi m' ((request.requests zalloc).take 1) = false := by
      simp only [NoRoomForFirst, hs.hostMemory, Option.some.injEq, exists_eq_left']
    rw [hs.unchanged_iff hfail, hroom]
  · intro hnone
    constructor
    · intro hall
      constructor
      · by_contra hsmall
        obtain ⟨l, s, size, hrun, hlimit⟩ := exists_atLimit abi (oneHole_init h hnone hmax) hsize hsmall
        obtain ⟨hfail, hnot⟩ := hlimit.not_unchanged abi
        exact hnot (hall l s hrun _ _ hfail).2
      · by_contra hheap
        have hnull := allocateResult_init h hnone hheap
        exact (hall _ _ .nil ⟨[bytesLayout 32], none⟩ (fun _ => true)
          (fun hsome => by cases hnull.symm.trans hsome)).1 hnull
    · intro ⟨hsmall, hheap⟩ l s hrun request zalloc hfail
      obtain ⟨hs, -, hsize', hmax'⟩ := heapKept_of_run h hnone hmax hsize hsmall hrun
      have hsmall' := (Pool.small_congr hsize' hmax').mpr hsmall
      exact ⟨hs.allocateResult_ne hsmall' (fun hzero => hmax'.trans (hheap (hsize'.symm.trans hzero))) abi _,
        hs.unchanged (numbered_of_run hrun) hsmall' hfail⟩

end Run

/-- A pool with a heap, with room for one uniform buffer. -/
def bufferHeapPool : PoolCreateInfo := ⟨true, 2, [⟨.uniformBuffer, 1⟩], none, none⟩

/-- On such a pool a call for two sets that fails at the second leaves the pool as it was. -/
theorem unchanged_of_error_bufferHeapPool :
    ∃ pool, createDescriptorPool ⟨128, 96, 16⟩ ⟨false, false⟩ true (.ok ()) bufferHeapPool = .ok pool ∧
      (init pool).allocateResult ⟨128, 96, 16⟩ ((twoBytes 32).requests fun _ => true) ≠ none ∧
      RollsBack ⟨128, 96, 16⟩ (init pool) ((twoBytes 32).requests fun _ => true) := by
  have hcreate : createDescriptorPool ⟨128, 96, 16⟩ ⟨false, false⟩ true (.ok ()) bufferHeapPool =
      .ok ⟨0, 32, none, poolHeap 32, 0, 2⟩ := rfl
  have hfail : (init ⟨0, 32, none, poolHeap 32, 0, 2⟩).allocateResult ⟨128, 96, 16⟩
      ((twoBytes 32).requests fun _ => true) ≠ none := by decide
  exact ⟨_, hcreate, hfail, ((unchanged_of_error hcreate (by decide) (by decide)).2 rfl).mpr
    ⟨.inl (by decide), fun h => by cases h⟩ _ _ .nil _ _ hfail⟩

/-- Without a heap, the first set of the call stays in the pool. -/
theorem not_unchanged_bufferPool :
    ∃ pool, createDescriptorPool ⟨128, 96, 16⟩ ⟨false, false⟩ true (.ok ()) bufferPool = .ok pool ∧
      (init pool).allocateResult ⟨128, 96, 16⟩
    ((twoBytes 32).requests fun _ => true) = some .outOfPoolMemory ∧
      ¬ Unchanged (init pool) ((init pool).allocate ⟨128, 96,
        16⟩ ((twoBytes 32).requests fun _ => true)) := by
  refine ⟨⟨0, 32, some ⟨128, 320⟩, ⟨[], 0, false, 0⟩, 0, 2⟩, rfl, rfl, fun hsame => ?_⟩
  exact absurd (congrArg List.length hsame.sets) (by decide)

end PoolState

end RadvXclipse.Descriptor
