import RadvXclipse.Descriptor.PoolExact

/-!
# Allocations from a pool

A pool without the bit for freeing single sets has room for every sequence of allocations that stays
within the numbers it was created with. The bytes it reserves per type, per inline uniform block and
per set are set against the bytes and gaps of the sets, summed over the whole sequence.
-/

namespace RadvXclipse.Descriptor

open Lib Util
open List hiding set

instance : Fintype DescriptorType where
  elems :=
    {.sampler, .combinedImageSampler, .sampledImage, .storageImage, .uniformTexelBuffer, .storageTexelBuffer,
      .uniformBuffer, .storageBuffer, .uniformBufferDynamic, .storageBufferDynamic, .inputAttachment,
      .inlineUniformBlock, .accelerationStructure, .mutableExt, .other}
  complete t := by cases t <;> decide

/-! ## What a pool reserves -/

namespace PoolCreateInfo

/-- The numbers of descriptors by their types. -/
def entries (info : PoolCreateInfo) : List (DescriptorType × ℕ) :=
  info.pPoolSizes.map fun p => (p.type, p.descriptorCount)

def exactBytes (pdev : PhysicalDevice) (info : PoolCreateInfo) : ℕ := weigh (unitSize pdev) info.entries

def exactNum16 (info : PoolCreateInfo) : ℕ := weigh (fun t => if has16Bytes t then 1 else 0) info.entries

def exactRanges (info : PoolCreateInfo) : ℕ := weigh (fun t => if isDynamicType t then 1 else 0) info.entries

/-- No byte total of a pool wraps, and there are no mutable descriptors in it. -/
structure NoWrap (abi : PoolAbi) (pdev : PhysicalDevice) (info : PoolCreateInfo) : Prop where
  not_mutable : ∀ p ∈ info.pPoolSizes, p.type ≠ .mutableExt
  product : ∀ p ∈ info.pPoolSizes, unitSize pdev p.type * p.descriptorCount < 2 ^ 32
  bytes : 28 * info.maxInlineUniformBlockBindings.getD 0 + info.exactBytes pdev +
    16 * min info.exactNum16 info.maxSets < 2 ^ 64
  num16 : info.exactNum16 < 2 ^ 64
  ranges : info.exactRanges < 2 ^ 64
  host : abi.sizeofDescriptorPool + info.maxSets * abi.sizeofDescriptorSet +
    abi.sizeofDescriptorRange * info.exactRanges < 2 ^ 64
  maxSets : info.maxSets < 2 ^ 32

variable {abi : PoolAbi} {pdev : PhysicalDevice} {info : PoolCreateInfo}

lemma sumEntries_eq_weigh (info : PoolCreateInfo) (w : DescriptorType → ℕ) {f : PoolSize × ℕ → ℕ}
    (h : ∀ pi ∈ info.pPoolSizes.zipIdx, f pi = w pi.1.type * pi.1.descriptorCount) :
    info.sumEntries f = weigh w info.entries := by
  unfold sumEntries weigh entries
  rw [map_congr_left h, map_map, ← zipIdx_map_fst 0 info.pPoolSizes, map_map, zipIdx_map_fst]
  rfl

namespace NoWrap

section

variable (h : NoWrap abi pdev info)
include h

lemma entryTotals_eq {pi : PoolSize × ℕ} (hpi : pi ∈ info.pPoolSizes.zipIdx) : info.entryTotals pdev pi =
    ⟨unitSize pdev pi.1.type * pi.1.descriptorCount, (if isDynamicType pi.1.type then 1
      else 0) * pi.1.descriptorCount,
      (if has16Bytes pi.1.type then 1 else 0) * pi.1.descriptorCount⟩ := by
  unfold entryTotals
  dsimp only
  split
  · exact absurd ‹_› (h.not_mutable _ (fst_mem_of_mem_zipIdx hpi))
  · rfl

lemma sumEntries_num16 :
    info.sumEntries (info.entryTotals pdev · |>.num16ByteDescriptors) = info.exactNum16 :=
  sumEntries_eq_weigh info _ fun pi hpi => by rw [h.entryTotals_eq hpi]

/-- The size of the BO. -/
theorem boSize_eq : info.boSize pdev =
    28 * info.maxInlineUniformBlockBindings.getD 0 + info.exactBytes pdev +
      16 * min info.exactNum16 info.maxSets := by
  have hbytes : info.sumEntries (info.entryTotals pdev · |>.boSize) = info.exactBytes pdev :=
    sumEntries_eq_weigh info _ fun pi hpi => by rw [h.entryTotals_eq hpi]
  have hwraps : info.sumEntries (info.wraps pdev) = 0 := by
    rw [sumEntries_eq_weigh info (fun _ => 0) fun pi hpi => ?_]
    · simp [weigh]
    · rw [zero_mul, wraps, h.entryTotals_eq hpi]
      dsimp only
      split_ifs
      · rfl
      · exact Nat.div_eq_of_lt (h.product _ (fst_mem_of_mem_zipIdx hpi))
  have hmod := boSize_modEq pdev info (h.sumEntries_num16 ▸ h.num16)
  rw [exactBoSize, h.sumEntries_num16, hbytes, hwraps] at hmod
  exact hmod.1.eq_of_lt_of_lt hmod.2 h.bytes

/-- The size of the allocation for the pool and its sets. -/
theorem hostSize_eq (hfree : info.freeDescriptorSetBit = false) : info.hostSize abi pdev =
    abi.sizeofDescriptorPool + info.maxSets * abi.sizeofDescriptorSet +
      abi.sizeofDescriptorRange * info.exactRanges := by
  have hranges : info.sumEntries (info.entryTotals pdev · |>.rangeCount) = info.exactRanges :=
    sumEntries_eq_weigh info _ fun pi hpi => by rw [h.entryTotals_eq hpi]
  have hhost := h.host
  rw [hostSize_eq_exact abi pdev info (by omega), exactHostSize, hfree, hranges, if_neg (by decide),
    ← add_assoc, Nat.mod_eq_of_lt hhost]

end

end NoWrap

end PoolCreateInfo

/-! ## What allocations need -/

/-- The descriptors of a binding as the pool counts them: a combined image sampler once for each
plane. -/
def typeCount (bn : Binding × ℕ) : DescriptorType × ℕ :=
  (bn.1.descriptorType, bn.2 * bn.1.maxSampledImageDescriptors)

/-- All bindings of a sequence of allocations. -/
def allCounts (allocs : List Allocation) : List (Binding × ℕ) := allocs.flatMap Allocation.counts

/-- A sequence of allocations stays within the numbers the pool was created with. -/
structure Within (info : PoolCreateInfo) (allocs : List Allocation) : Prop where
  sets : allocs.length ≤ info.maxSets
  types : ∀ t, tally ((allCounts allocs).map typeCount) t ≤ tally info.entries t
  inlineBindings : total (fun bn => bn.1.inlineCount) (allCounts allocs) ≤
    info.maxInlineUniformBlockBindings.getD 0

/-- What an allocation has to satisfy beside: whole words in inline uniform blocks, and no dynamic
buffers in a binding with a variable count. -/
structure Allocation.Sound (a : Allocation) : Prop extends a.Valid where
  words : ∀ bn ∈ a.counts, WholeWords bn
  not_dynamic : a.variableCount ≠ 0 → ∀ b, a.info.sorted.getLast? = some b → b.isDynamic = false

section Needs

variable {pdev : PhysicalDevice} {l : List (Binding × ℕ)}

lemma maxSampledImageDescriptors_of_ne {b : Binding} (h : b.descriptorType ≠ .combinedImageSampler) :
    b.maxSampledImageDescriptors = 1 := if_neg h

/-- The bytes of a binding are what the pool reserves for it, or less where a product wraps. -/
theorem bytes_le_unitSize (pdev : PhysicalDevice) (bn : Binding × ℕ) :
    bytes pdev bn ≤ unitSize pdev (typeCount bn).1 * (typeCount bn).2 := by
  unfold bytes typeCount Binding.descSize unitSize
  cases ht : bn.1.descriptorType with
  | combinedImageSampler =>
    calc bn.2 * (bn.1.maxSampledImageDescriptors * getCombinedImageSamplerDescSize pdev % 2 ^ 32)
        ≤ bn.2 * (bn.1.maxSampledImageDescriptors * getCombinedImageSamplerDescSize pdev) :=
          Nat.mul_le_mul_left _ (Nat.mod_le _ _)
      _ = getCombinedImageSamplerDescSize pdev * (bn.2 * bn.1.maxSampledImageDescriptors) := by ring
  | inlineUniformBlock =>
    rw [maxSampledImageDescriptors_of_ne (by rw [ht]; decide)]
    exact (mul_comm _ _).le.trans (Nat.mul_le_mul_left 1 (mul_one bn.2).ge)
  | _ =>
    rw [maxSampledImageDescriptors_of_ne (by rw [ht]; decide), mul_one]
    exact (mul_comm _ _).le

lemma total_le_weigh {w : DescriptorType → ℕ} {f : Binding × ℕ → ℕ}
    (h : ∀ bn, f bn ≤ w (typeCount bn).1 * (typeCount bn).2) (l : List (Binding × ℕ)) :
    total f l ≤ weigh w (l.map typeCount) := by
  unfold total weigh
  rw [map_map]
  exact sum_le_sum fun bn _ => h bn

/-- The descriptors of some types, none of which has planes. -/
theorem typed_le {p : DescriptorType → Bool} (hp : p .combinedImageSampler = false) (bn : Binding × ℕ) :
    (if p bn.1.descriptorType then bn.2 else 0) ≤ (if p (typeCount bn).1 then 1 else 0) *
    (typeCount bn).2 := by
  unfold typeCount
  by_cases h : p bn.1.descriptorType = true
  · have hne : bn.1.descriptorType ≠ .combinedImageSampler := by
      intro ht
      rw [ht, hp] at h
      exact absurd h (by decide)
    rw [if_pos h, if_pos h, maxSampledImageDescriptors_of_ne hne, mul_one, one_mul]
  · rw [if_neg h]
    exact Nat.zero_le _

lemma smallCount_le (bn : Binding × ℕ) :
    smallCount bn ≤ (if has16Bytes (typeCount bn).1 then 1 else 0) * (typeCount bn).2 := typed_le rfl bn

/-- The dynamic buffers that an allocation needs. -/
def dynamicNeed (bn : Binding × ℕ) : ℕ := if bn.1.isDynamic then bn.2 else 0

lemma dynamicNeed_le (bn : Binding × ℕ) :
    dynamicNeed bn ≤ (if isDynamicType (typeCount bn).1 then 1 else 0) * (typeCount bn).2 :=
  @typed_le isDynamicType rfl bn

lemma total_append (f : Binding × ℕ → ℕ) (l m : List (Binding × ℕ)) :
    total f (l ++ m) = total f l + total f m := by
  unfold total
  rw [map_append, sum_append]

/-- Sums over all bindings of a sequence. -/
theorem total_allCounts (f : Binding × ℕ → ℕ) (allocs : List Allocation) :
    total f (allCounts allocs) = (allocs.map fun a => total f a.counts).sum := by
  unfold allCounts
  induction allocs with
  | nil => rfl
  | cons a allocs ih => rw [flatMap_cons, total_append, ih, map_cons, sum_cons]

lemma total_add (f g : Binding × ℕ → ℕ) (l : List (Binding × ℕ)) :
    total (fun bn => f bn + g bn) l = total f l + total g l := by
  unfold total
  rw [sum_map_add]

lemma total_mul (k : ℕ) (f : Binding × ℕ → ℕ) (l : List (Binding × ℕ)) :
    total (fun bn => k * f bn) l = k * total f l := by
  unfold total
  rw [sum_map_mul_left]

lemma firstAlignmentOf_cases (bindings : List Binding) :
    firstAlignmentOf bindings = 16 ∨ firstAlignmentOf bindings = 32 := by
  unfold firstAlignmentOf
  split
  · exact .inr rfl
  · split
    · exact .inl rfl
    · exact .inr rfl

/-- The size of a set: its bytes, 28 bytes for each inline uniform block, and 16 bytes if it has
small descriptors. -/
theorem Allocation.Sound.setSize_le {a : Allocation} (h : a.Sound) (abi : Abi) (pdev : PhysicalDevice) :
    (a.info.setLayout abi pdev).setSize a.variableCount ≤
      total (bytes pdev) a.counts + 28 * total (fun bn => bn.1.inlineCount) a.counts +
        16 * min (total smallCount a.counts) 1 := by
  have hle := @sizeLoop_le pdev _ _ (firstAlignmentOf_cases a.info.sorted) h.words
  rw [total_add, total_add, total_mul] at hle
  rw [h.toValid.setSize]
  generalize sizeLoop pdev (firstAlignmentOf a.info.sorted) a.counts = n at *
  have halign : align n 32 = alignUp n 32 % 2 ^ 32 := align_two_pow (k := 5) (by decide) n
  split at hle <;> omega

lemma total_dynamicNeed_counted (bindings : List Binding) (variableCount : ℕ)
    (h : variableCount ≠ 0 → ∀ b, bindings.getLast? = some b → b.isDynamic = false) :
    total dynamicNeed (counted bindings variableCount) = (bindings.map Binding.dynamicCount).sum := by
  have hmap : ∀ l : List Binding, total dynamicNeed (l.map fun b => (b, b.descriptorCount)) =
      (l.map Binding.dynamicCount).sum := by
    intro l
    unfold total
    rw [map_map]
    rfl
  rcases eq_nil_or_concat bindings with rfl | ⟨init, last, rfl⟩
  · rfl
  · rw [concat_eq_append] at h ⊢
    rw [counted_concat, total_append, hmap, map_append, sum_append]
    congr 1
    show dynamicNeed _ + 0 = last.dynamicCount + 0
    unfold dynamicNeed Binding.dynamicCount
    by_cases hv : variableCount = 0
    · rw [if_neg (not_not_intro hv)]
    · rw [h hv last (getLast?_concat ..)]
      rfl

/-- The host memory of a set. -/
theorem Allocation.Sound.memSize_le {a : Allocation} (h : a.Sound) (abi : Abi) (poolAbi : PoolAbi)
    (pdev : PhysicalDevice) :
    (a.info.setLayout abi pdev).memSize poolAbi ≤
      poolAbi.sizeofDescriptorSet + poolAbi.sizeofDescriptorRange * total dynamicNeed a.counts := by
  have hdyn := (Clean.layoutLoop pdev a.info (clean_initState abi a.info a.info.sorted) h.toValid.plain rfl rfl).2
  have hcount : (a.info.setLayout abi pdev).dynamicOffsetCount ≤ total dynamicNeed a.counts := by
    unfold Allocation.counts
    rw [total_dynamicNeed_counted _ _ h.not_dynamic]
    exact (Nat.mod_le _ _).trans hdyn
  exact (Nat.mod_le _ _).trans (Nat.add_le_add_left (Nat.mul_le_mul_left _ hcount) _)

end Needs

/-! ## Sequences of allocations -/

/-- `radv_descriptor_set_create` for each allocation, up to the first that fails. -/
def createSets (abi : Abi) (poolAbi : PoolAbi) (pdev : PhysicalDevice) (zalloc : Bool) :
    Pool → List Allocation → Except PoolError (List DescriptorSet × Pool)
  | pool, [] => .ok ([], pool)
  | pool, a :: allocs =>
    match descriptorSetCreate poolAbi zalloc pool (a.info.setLayout abi pdev) a.variableCount with
    | .ok (set, pool) =>
      match createSets abi poolAbi pdev zalloc pool allocs with
      | .ok (sets, pool) => .ok (set :: sets, pool)
      | .error e => .error e
    | .error e => .error e

section Run

variable {abi : Abi} {poolAbi : PoolAbi} {pdev : PhysicalDevice} {zalloc : Bool}

/-- A pool with enough room left for the sizes of all sets. -/
theorem createSets_of_room {allocs : List Allocation} {pool : Pool} {m : HostMemory}
    (hm : pool.hostMemory = some m)
    (hmem : m.ptr + (allocs.map fun a => (a.info.setLayout abi pdev).memSize poolAbi).sum ≤ m.stop)
    (hsize : pool.currentOffset + (allocs.map fun a => (a.info.setLayout abi pdev).setSize a.variableCount).sum ≤ pool.size)
    (hlt : pool.size < 2 ^ 64) (hcount : pool.entryCount + allocs.length ≤ pool.maxEntryCount)
    (hmax : pool.maxEntryCount < 2 ^ 32) :
    ∃ sets pool', createSets abi poolAbi pdev zalloc pool allocs = .ok (sets, pool') ∧
      sets.length = allocs.length := by
  induction allocs generalizing pool m with
  | nil => exact ⟨[], pool, rfl, rfl⟩
  | cons a allocs ih =>
    rw [map_cons, sum_cons] at hmem hsize
    rw [length_cons] at hcount
    unfold createSets
    generalize a.info.setLayout abi pdev = layout at *
    let pool1 : Pool :=
      { pool with
        hostMemory := some ⟨m.ptr + layout.memSize poolAbi, m.stop⟩
        currentOffset := pool.currentOffset + layout.setSize a.variableCount
        entryCount := pool.entryCount + 1 }
    -- the first one succeeds
    have hcreate : descriptorSetCreate poolAbi zalloc pool layout a.variableCount =
        .ok (⟨pool.currentOffset, layout.setSize a.variableCount⟩, pool1) := by
      unfold descriptorSetCreate allocDescriptorPoolEntry
      rw [if_neg (by omega), hm]
      dsimp only
      rw [if_neg (by omega), add64_of_lt (by omega), if_neg (by omega), add32_of_lt (by omega)]
    have hrest := @ih pool1 ⟨m.ptr + layout.memSize poolAbi, m.stop⟩ rfl (by dsimp only; omega)
      (by dsimp only [pool1]; omega) hlt (by dsimp only [pool1]; omega) hmax
    obtain ⟨sets, pool', hrest, hlen⟩ := hrest
    refine ⟨⟨pool.currentOffset, layout.setSize a.variableCount⟩ :: sets, pool', ?_, congrArg (· + 1) hlen⟩
    rw [hcreate]
    dsimp only
    rw [hrest]

section

variable {info : PoolCreateInfo} {allocs : List Allocation} (h : Within info allocs)
  (hsound : ∀ a ∈ allocs, a.Sound)
include h hsound

/-- The sizes of all sets together. -/
theorem Within.size_le :
    (allocs.map fun a => (a.info.setLayout abi pdev).setSize a.variableCount).sum ≤
      28 * info.maxInlineUniformBlockBindings.getD 0 + info.exactBytes pdev +
        16 * min info.exactNum16 info.maxSets := by
  have hsets := sum_le_sum fun a ha => (hsound a ha).setSize_le abi pdev
  have hbytes :=
    (total_le_weigh (bytes_le_unitSize pdev) _).trans (weigh_le_of_tally_le h.types (unitSize pdev))
  have hsmall := (total_le_weigh smallCount_le _).trans
    (weigh_le_of_tally_le h.types fun t => if has16Bytes t then 1 else 0)
  have hinline := h.inlineBindings
  -- the number of sets with small descriptors
  have hone : ∀ l : List Allocation, (l.map fun a => min (total smallCount a.counts) 1).sum ≤
      min (l.map fun a => total smallCount a.counts).sum l.length := by
    intro l
    induction l with
    | nil => exact le_rfl
    | cons a l ih =>
      rw [map_cons, sum_cons, map_cons, sum_cons, length_cons]
      omega
  have hgaps := hone allocs
  rw [total_allCounts] at hbytes hsmall hinline
  rw [sum_map_add, sum_map_add, sum_map_mul_left, sum_map_mul_left] at hsets
  have hlen := h.sets
  unfold PoolCreateInfo.exactBytes PoolCreateInfo.exactNum16
  omega

/-- The host memory of all sets together. -/
theorem Within.mem_le :
    (allocs.map fun a => (a.info.setLayout abi pdev).memSize poolAbi).sum ≤
      info.maxSets * poolAbi.sizeofDescriptorSet + poolAbi.sizeofDescriptorRange * info.exactRanges := by
  have hsets := sum_le_sum fun a ha => (hsound a ha).memSize_le abi poolAbi pdev
  have hdyn := (total_le_weigh dynamicNeed_le _).trans
    (weigh_le_of_tally_le h.types fun t => if isDynamicType t then 1 else 0)
  rw [total_allCounts] at hdyn
  rw [sum_map_add, sum_map_mul_left, map_const', sum_replicate_nat] at hsets
  have hlen : allocs.length * poolAbi.sizeofDescriptorSet ≤ info.maxSets * poolAbi.sizeofDescriptorSet :=
    Nat.mul_le_mul_right _ h.sets
  have hranges : poolAbi.sizeofDescriptorRange * (allocs.map fun a => total dynamicNeed a.counts).sum ≤
      poolAbi.sizeofDescriptorRange * info.exactRanges := Nat.mul_le_mul_left _ hdyn
  omega

end

/-- A pool without the bit for freeing single sets, as it has been created. -/
theorem createDescriptorPool_eq_ok {info : PoolCreateInfo} {pool : Pool} {bo : Except PoolError Unit}
    (hfree : info.freeDescriptorSetBit = false)
    (h : createDescriptorPool poolAbi pdev zalloc bo info = .ok pool) :
    pool = ⟨0, info.boSize pdev, some ⟨poolAbi.sizeofDescriptorPool, info.hostSize poolAbi pdev⟩,
      ⟨[], 0, false, 0⟩, 0,
      info.maxSets⟩ := by
  unfold createDescriptorPool at h
  rw [hfree] at h
  split at h
  · exact absurd h (by simp)
  · dsimp only at h
    split at h
    · cases bo with
      | ok _ =>
        cases h
        rfl
      | error e => exact absurd h (by simp)
    · cases h
      rfl

end Run

/-! ## Pools and sets -/

/-- A pool for one set with two samplers, an image and an inline uniform block of 20 bytes. -/
def smallPool : PoolCreateInfo :=
  ⟨false, 1, [⟨.sampler, 2⟩, ⟨.storageImage, 1⟩, ⟨.inlineUniformBlock, 20⟩], some 1, none⟩

/-- Such a set; the samplers have a variable count. -/
def smallSet : Allocation :=
  ⟨⟨0, [⟨0, .inlineUniformBlock, 20, 0, none⟩, ⟨2, .sampler, 8, 0, none⟩, ⟨1, .storageImage, 1, 0, none⟩],
    some [0, variableDescriptorCountBit, 0], none⟩, 2⟩

lemma smallSet_sorted : smallSet.info.sorted =
    [⟨0, .inlineUniformBlock, 20, 0, none⟩, ⟨1, .storageImage, 1, 0, none⟩, ⟨2, .sampler, 8, 0, none⟩] := rfl

lemma smallSet_sound : smallSet.Sound where
  nodup := by decide
  binding_lt := by decide
  not_mutable := by decide
  ne_nil _ := by simp [smallSet]
  words := by
    intro bn hbn
    unfold Allocation.counts at hbn
    rw [smallSet_sorted] at hbn
    simp [counted, smallSet] at hbn
    rcases hbn with rfl | rfl | rfl <;> intro ht
    · exact ⟨5, rfl⟩
    · exact absurd ht (by decide)
    · exact absurd ht (by decide)
  not_dynamic _ b hb := by
    cases hb
    decide

lemma smallPool_noWrap : smallPool.NoWrap ⟨128, 96, 16⟩ ⟨false, false⟩ := by
  constructor <;> decide

/-- The pool refuses the set, although the numbers of the set are within its own. -/
def Refuses (info : PoolCreateInfo) (a : Allocation) : Prop :=
  info.freeDescriptorSetBit = false ∧ info.NoWrap ⟨128, 96, 16⟩ ⟨false, false⟩ ∧ Within info [a] ∧
    (∀ b ∈ a.info.pBindings, b.descriptorType ≠ .mutableExt) ∧ (∀ bn ∈ a.counts, WholeWords bn) ∧
    ∃ pool, createDescriptorPool ⟨128, 96, 16⟩ ⟨false, false⟩ true (.ok ()) info = .ok pool ∧
      createSets ⟨64, 32⟩ ⟨128, 96, 16⟩ ⟨false, false⟩ true pool [a] = .error .outOfPoolMemory

/-- A pool for one dynamic buffer. -/
def dynamicPool : PoolCreateInfo := ⟨false, 1, [⟨.uniformBufferDynamic, 1⟩], none, none⟩

/-- A set with up to two dynamic buffers, one of which is allocated. -/
def dynamicSet : Allocation :=
  ⟨⟨0, [⟨0, .uniformBufferDynamic, 2, 0, none⟩], some [variableDescriptorCountBit], none⟩, 1⟩

/-- A pool and a set for one dynamic buffer and five others, all with the number 0. -/
def repeatedPool : PoolCreateInfo :=
  ⟨false, 1, [⟨.uniformBufferDynamic, 1⟩, ⟨.uniformBuffer, 5⟩], none, none⟩

def repeatedSet : Allocation :=
  ⟨⟨0, [⟨0, .uniformBufferDynamic, 1, 0, none⟩, ⟨0, .uniformBuffer, 5, 0, none⟩], none, none⟩, 0⟩

/-- A pool and a set for an image and ten samplers; the number of the samplers is the last one. -/
def lastPool : PoolCreateInfo := ⟨false, 1, [⟨.sampledImage, 1⟩, ⟨.sampler, 10⟩], none, none⟩

def lastSet : Allocation :=
  ⟨⟨0, [⟨0, .sampledImage, 1, 0, none⟩, ⟨2 ^ 32 - 1, .sampler, 100, 0, none⟩],
    some [0, variableDescriptorCountBit], none⟩, 10⟩

end RadvXclipse.Descriptor
