import RadvXclipse.Descriptor.Pool
import RadvXclipse.Util.VmaRun

/-!
# The sets of a descriptor pool

`radv_AllocateDescriptorSets`, `radv_FreeDescriptorSets` and `radv_ResetDescriptorPool` with the
list of the sets of a pool. The sets that the calls have handed out, and that were not freed nor
reset since, are `live`; they are only there to state what holds. A set is known by a number that
stands for its address.

A pool with the bit for freeing single sets and without bytes has a heap that is never initialised.
A call that asks it for a set with descriptors follows a null pointer: it does not return.
-/

namespace RadvXclipse.Descriptor

open Util

/-- The bytes of a set. -/
def DescriptorSet.span (s : DescriptorSet) : Lib.Span := ⟨s.offset, s.size⟩

/-- A set in `pool->sets`. -/
structure SetEntry where
  id : ℕ
  set : DescriptorSet
deriving DecidableEq

/-- A pool with its sets. -/
structure PoolState where
  pool : Pool
  sets : List SetEntry
  live : List SetEntry
  nextId : ℕ

def PoolState.init (pool : Pool) : PoolState := ⟨pool, [], [], 0⟩

/-- `VkDescriptorSetAllocateInfo` with the variable counts, where they are there. -/
structure AllocateInfo where
  pSetLayouts : List SetLayout
  pDescriptorCounts : Option (List ℕ)

/-- The arguments of `radv_descriptor_set_create`, and whether host memory can be allocated. -/
structure SetRequest where
  layout : SetLayout
  variableCount : ℕ
  zalloc : Bool

def AllocateInfo.requests (info : AllocateInfo) (zalloc : ℕ → Bool) : List SetRequest :=
  info.pSetLayouts.zipIdx.map fun li =>
    ⟨li.1, if li.1.hasVariableDescriptors then (info.pDescriptorCounts.bind (·[li.2]?)).getD 0
      else 0, zalloc li.2⟩

inductive PoolLabel
  | allocate (info : AllocateInfo) (zalloc : ℕ → Bool)
  /-- `none` is `VK_NULL_HANDLE` -/
  | free (pDescriptorSets : List (Option ℕ))
  | reset

namespace PoolState

section Calls

variable (abi : PoolAbi)

/-- The loop of `radv_AllocateDescriptorSets`: the sets that it creates, and the error it stops
at. -/
def createLoop : PoolState → List SetRequest → PoolState × List SetEntry × Option PoolError
  | s, [] => (s, [], none)
  | s, r :: rs =>
    match descriptorSetCreate abi r.zalloc s.pool r.layout r.variableCount with
    | .error e => (s, [], some e)
    | .ok (set, pool) =>
      let e : SetEntry := ⟨s.nextId, set⟩
      let (s, created, result) :=
        createLoop { s with pool := pool, sets := s.sets ++ [e], nextId := s.nextId + 1 } rs
      (s, e :: created, result)

variable (s : PoolState)

/-- `radv_descriptor_set_destroy`. -/
def destroy (e : SetEntry) : PoolState :=
  { s with
    pool := { s.pool with
      boHeap :=
        if e.set.size ≠ 0 then Vma.heapFree s.pool.boHeap (add64 e.set.offset poolHeapOffset) e.set.size
        else s.pool.boHeap
      entryCount := sub32 s.pool.entryCount 1 }
    sets := s.sets.erase e }

/-- The loop of `radv_FreeDescriptorSets`; without a heap it does nothing. -/
def freeLoop (es : List SetEntry) : PoolState :=
  if s.pool.hostMemory.isNone then es.foldl destroy s else s

/-- How `radv_AllocateDescriptorSets` ends, if not with success. -/
def allocateResult (rs : List SetRequest) : Option PoolError := (s.createLoop abi rs).2.2

/-- `radv_AllocateDescriptorSets`. -/
def allocate (rs : List SetRequest) : PoolState :=
  match s.createLoop abi rs with
  | (s, created, none) => { s with live := s.live ++ created }
  | (s, created, some _) => s.freeLoop created

/-- The live sets that handles stand for. -/
def handles (ids : List (Option ℕ)) : List SetEntry :=
  ids.filterMap fun id => id.bind fun id => s.live.find? (·.id = id)

/-- `radv_FreeDescriptorSets`. -/
def free (ids : List (Option ℕ)) : PoolState :=
  { s.freeLoop (s.handles ids) with live := s.live.diff (s.handles ids) }

/-- `radv_destroy_descriptor_pool_entries`. -/
def destroyEntries : PoolState :=
  if s.pool.hostMemory.isNone then s.sets.foldl destroy s else { s with sets := [] }

/-- `radv_ResetDescriptorPool`. -/
def reset : PoolState :=
  let s := s.destroyEntries
  { s with
    pool := { s.pool with
      boHeap := if s.pool.hostMemory.isNone ∧ s.pool.size ≠ 0 then poolHeap s.pool.size else s.pool.boHeap
      entryCount := 0
      currentOffset := 0
      hostMemory := s.pool.hostMemory.map ({ · with ptr := abi.sizeofDescriptorPool }) }
    live := [] }

/-- The calls that return. Handles that are freed are live and no two of them are the same. -/
def step : PoolLabel → Option PoolState
  | .allocate info zalloc =>
    if s.allocateResult abi (info.requests zalloc) = some .nullPointer then none
    else some (s.allocate abi (info.requests zalloc))
  | .free ids =>
    if (ids.filterMap id).Nodup ∧ ∀ i ∈ ids.filterMap id, i ∈ s.live.map SetEntry.id then
      some (s.free ids) else none
  | .reset => some (s.reset abi)

def Step (l : PoolLabel) (s' : PoolState) : Prop := s.step abi l = some s'

end Calls

/-! ## What holds -/

/-- The live sets have their own bytes, and the pool has exactly the live sets. -/
structure Right (s : PoolState) : Prop where
  apart : (s.live.filter (·.set.size ≠ 0)).Pairwise fun a b => a.set.span.Apart b.set.span
  inside : ∀ e ∈ s.live, e.set.size ≠ 0 → 32 ∣ e.set.offset ∧ e.set.offset + e.set.size ≤ s.pool.size
  entryCount : s.pool.entryCount = s.live.length
  le_max : s.pool.entryCount ≤ s.pool.maxEntryCount
  sets : s.sets.Perm s.live

end PoolState

end RadvXclipse.Descriptor
