import RadvXclipse.Descriptor.Layout
import RadvXclipse.Util.Vma

/-!
# Descriptor pools

The model of `radv_create_descriptor_pool` from `radv_descriptor_pool.c` and of
`radv_descriptor_set_create` from `radv_descriptor_set.c`. A pool without the bit for freeing single
sets has a block of host memory behind it for its sets, and their descriptors follow each other in
its BO; with the bit, host memory is allocated for each set and the BO is managed by a heap. The
contents of descriptors, addresses and the list of sets are left out.
-/

namespace RadvXclipse.Descriptor

open Util

/-! ## Pools -/

/-- `VkDescriptorPoolSize`. -/
structure PoolSize where
  type : DescriptorType
  descriptorCount : ℕ

/-- `VkDescriptorPoolCreateInfo` with the structures chained to it, where they are there. -/
structure PoolCreateInfo where
  freeDescriptorSetBit : Bool
  maxSets : ℕ
  pPoolSizes : List PoolSize
  maxInlineUniformBlockBindings : Option ℕ
  pMutableDescriptorTypeLists : Option (List (List DescriptorType))

/-- The sizes of the structures in host memory. -/
structure PoolAbi where
  sizeofDescriptorPool : ℕ
  sizeofDescriptorSet : ℕ
  sizeofDescriptorRange : ℕ

/-- `RADV_POOL_HEAP_OFFSET`. -/
def poolHeapOffset : ℕ := 32

inductive PoolError
  | outOfHostMemory
  | outOfDeviceMemory
  | outOfPoolMemory
  | fragmentedPool
  /-- No `VkResult`: the code follows a null pointer. -/
  | nullPointer
deriving DecidableEq

/-- The part of the pool's own allocation that sets are put in, from `host_memory_ptr` to
`host_memory_end`. -/
structure HostMemory where
  ptr : ℕ
  stop : ℕ
deriving DecidableEq

/-- `struct radv_descriptor_pool`; without host memory it has a heap. -/
@[ext]
structure Pool where
  currentOffset : ℕ
  size : ℕ
  hostMemory : Option HostMemory
  boHeap : Vma.Heap
  entryCount : ℕ
  maxEntryCount : ℕ

/-- The variables of the loop over the pool sizes. -/
structure PoolTotals where
  boSize : ℕ
  rangeCount : ℕ
  num16ByteDescriptors : ℕ

/-- `bo_size` grows by a product of `uint32_t`. -/
def PoolTotals.addBytes (t : PoolTotals) (descSize count : ℕ) : PoolTotals :=
  { t with boSize := add64 t.boSize (descSize * count % 2 ^ 32) }

/-- One iteration of the loop over the pool sizes. -/
def PoolCreateInfo.addPoolSize (pdev : PhysicalDevice) (info : PoolCreateInfo) (t : PoolTotals)
    (pi : PoolSize × ℕ) : PoolTotals :=
  let (p, i) := pi
  match p.type with
  | .uniformBufferDynamic | .storageBufferDynamic =>
    { t with rangeCount := add64 t.rangeCount p.descriptorCount }
  | .uniformBuffer | .storageBuffer | .uniformTexelBuffer | .storageTexelBuffer | .sampler | .accelerationStructure =>
    { t.addBytes bufferDescSize p.descriptorCount with
      num16ByteDescriptors := add64 t.num16ByteDescriptors p.descriptorCount }
  | .storageImage => t.addBytes storageImageDescSize p.descriptorCount
  | .sampledImage | .inputAttachment => t.addBytes (getSampledImageDescSize pdev) p.descriptorCount
  | .mutableExt =>
    match info.pMutableDescriptorTypeLists.bind (·[i]?) with
    | some list =>
      match mutableDescriptorTypeSizeAlignment pdev list with
      | some (mutableSize, _) =>
        let mutableSize := align mutableSize 32
        { t with
          boSize := add64 t.boSize (mutableSize * p.descriptorCount % 2 ^ 64)
          num16ByteDescriptors :=
            if mutableSize < 32 then add64 t.num16ByteDescriptors p.descriptorCount
            else t.num16ByteDescriptors }
      | none => t
    | none => t.addBytes (getSampledImageDescSize pdev) p.descriptorCount
  | .combinedImageSampler => t.addBytes (getCombinedImageSamplerDescSize pdev) p.descriptorCount
  | .inlineUniformBlock => { t with boSize := add64 t.boSize p.descriptorCount }
  | .other => t

/-- The totals after the loop. -/
def PoolCreateInfo.totals (pdev : PhysicalDevice) (info : PoolCreateInfo) : PoolTotals :=
  info.pPoolSizes.zipIdx.foldl (info.addPoolSize pdev)
    ⟨28 * info.maxInlineUniformBlockBindings.getD 0 % 2 ^ 64, 0, 0⟩

/-- `bo_size`, with the space for gaps. -/
def PoolCreateInfo.boSize (pdev : PhysicalDevice) (info : PoolCreateInfo) : ℕ :=
  let t := info.totals pdev
  if t.num16ByteDescriptors ≠ 0 then
    add64 t.boSize (16 * min t.num16ByteDescriptors info.maxSets % 2 ^ 64) else t.boSize

/-- `size`, of the allocation the pool is in. -/
def PoolCreateInfo.hostSize (abi : PoolAbi) (pdev : PhysicalDevice) (info : PoolCreateInfo) : ℕ :=
  if info.freeDescriptorSetBit then abi.sizeofDescriptorPool
  else
    add64 (add64 abi.sizeofDescriptorPool (info.maxSets * abi.sizeofDescriptorSet % 2 ^ 64))
      (abi.sizeofDescriptorRange * (info.totals pdev).rangeCount % 2 ^ 64)

/-- The heap of a pool with the bit for freeing single sets. -/
def poolHeap (boSize : ℕ) : Vma.Heap :=
  if boSize ≠ 0 then { Vma.heapInit poolHeapOffset boSize with allocHigh := false } else ⟨[], 0, false, 0⟩

/-- `radv_create_descriptor_pool`; `zalloc` says whether host memory can be allocated, and `bo`
whether the BO (or the host memory that stands for it) can be allocated and mapped. -/
def createDescriptorPool (abi : PoolAbi) (pdev : PhysicalDevice) (zalloc : Bool)
    (bo : Except PoolError Unit) (info : PoolCreateInfo) : Except PoolError Pool :=
  if !zalloc then .error .outOfHostMemory
  else
    let pool : Pool :=
      { currentOffset := 0
        size := info.boSize pdev
        hostMemory :=
          if info.freeDescriptorSetBit then none else some ⟨abi.sizeofDescriptorPool, info.hostSize abi pdev⟩
        boHeap := if info.freeDescriptorSetBit then poolHeap (info.boSize pdev) else ⟨[], 0, false, 0⟩
        entryCount := 0
        maxEntryCount := info.maxSets }
    if info.boSize pdev ≠ 0 then
      match bo with
      | .ok _ => .ok pool
      | .error e => .error e
    else .ok pool

/-! ## Sets -/

/-- Where the descriptors of a set are: their offset in the BO, and `set->header.size`. With a heap
the offset is `set->header.offset`, which is a `uint32_t`. -/
structure DescriptorSet where
  offset : ℕ
  size : ℕ
deriving DecidableEq

/-- `radv_alloc_descriptor_pool_entry`. -/
def allocDescriptorPoolEntry (pool : Pool) (size : ℕ) : Except PoolError (DescriptorSet × Pool) :=
  match pool.hostMemory with
  | none =>
    if size ≠ 0 then
      -- a pool without bytes has a heap that was never initialised, and the list of its holes is
      -- null
      if pool.size = 0 then .error .nullPointer
      else
        let (offset, heap) := Vma.heapAlloc pool.boHeap size 32
        if offset = 0 then
          .error (if pool.boHeap.freeSize < size then .outOfPoolMemory else .fragmentedPool)
        else
          .ok (⟨sub64 offset poolHeapOffset % 2 ^ 32, size⟩,
            { pool with boHeap := heap, entryCount := add32 pool.entryCount 1 })
    else .ok (⟨pool.currentOffset, size⟩, { pool with entryCount := add32 pool.entryCount 1 })
  | some _ =>
    if add64 pool.currentOffset size > pool.size then .error .outOfPoolMemory
    else .ok (⟨pool.currentOffset, size⟩,
      { pool with currentOffset := add64 pool.currentOffset size, entryCount := add32 pool.entryCount 1 })

/-- `mem_size`. -/
def SetLayout.memSize (abi : PoolAbi) (layout : SetLayout) : ℕ :=
  (abi.sizeofDescriptorSet + abi.sizeofDescriptorRange * layout.dynamicOffsetCount) % 2 ^ 32

/-- `set->header.size`: a variable count replaces the one of the last binding. -/
def SetLayout.setSize (layout : SetLayout) (variableCount : ℕ) : ℕ :=
  let last := layout.binding (sub32 layout.bindingCount 1)
  let stride := if last.type = .inlineUniformBlock then 1 else last.size
  let layoutSize := if variableCount ≠ 0 then add32 last.offset (variableCount * stride) else layout.size
  align layoutSize 32

/-- `radv_descriptor_set_create`; `zalloc` says whether host memory for one set can be allocated. -/
def descriptorSetCreate (abi : PoolAbi) (zalloc : Bool) (pool : Pool) (layout : SetLayout)
    (variableCount : ℕ) :
    Except PoolError (DescriptorSet × Pool) :=
  if pool.entryCount = pool.maxEntryCount then .error .outOfPoolMemory
  else
    match pool.hostMemory with
    | some m =>
      if m.stop - m.ptr < layout.memSize abi then .error .outOfPoolMemory
      else
        -- if there is no entry the memory is given back
        allocDescriptorPoolEntry { pool with hostMemory := some ⟨m.ptr + layout.memSize abi, m.stop⟩ }
          (layout.setSize variableCount)
    | none =>
      if !zalloc then .error .outOfHostMemory
      else allocDescriptorPoolEntry pool (layout.setSize variableCount)

end RadvXclipse.Descriptor
