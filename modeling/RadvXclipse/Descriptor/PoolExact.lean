import RadvXclipse.Descriptor.PoolSpace
import Mathlib.Algebra.Group.Action.Defs
import Mathlib.Data.Nat.ModEq

/-!
# The sizes of a pool

The totals of `radv_create_descriptor_pool` are 64 bits wide, but most of the products that are
added to them are formed in 32 bits. So the size of the BO is the exact one less `2 ^ 32` bytes for
each time that a product wraps; the size of the allocation for the pool and its sets has no such
product.
-/

namespace RadvXclipse.Descriptor

open Lib Util List Nat

/-- The bytes that a pool reserves for one descriptor of a type. -/
def unitSize (pdev : PhysicalDevice) : DescriptorType → ℕ
  | .uniformBuffer | .storageBuffer | .uniformTexelBuffer | .storageTexelBuffer | .sampler
  | .accelerationStructure => bufferDescSize
  | .storageImage => storageImageDescSize
  | .sampledImage | .inputAttachment => getSampledImageDescSize pdev
  | .combinedImageSampler => getCombinedImageSamplerDescSize pdev
  | .inlineUniformBlock => 1
  | .uniformBufferDynamic | .storageBufferDynamic | .mutableExt | .other => 0

def isDynamicType (t : DescriptorType) : Bool :=
  t = .uniformBufferDynamic ∨ t = .storageBufferDynamic

namespace PoolCreateInfo

/-- The list of types of an entry for mutable descriptors, if it has one. -/
def mutableList (info : PoolCreateInfo) (i : ℕ) : Option (List DescriptorType) :=
  info.pMutableDescriptorTypeLists.bind (·[i]?)

/-- What an entry of the pool adds to the totals, in exact numbers. -/
def entryTotals (pdev : PhysicalDevice) (info : PoolCreateInfo) (pi : PoolSize × ℕ) : PoolTotals :=
  let (p, i) := pi
  match p.type with
  | .mutableExt =>
    match info.mutableList i with
    | some list =>
      match mutableDescriptorTypeSizeAlignment pdev list with
      | some (size, _) =>
        ⟨align size 32 * p.descriptorCount, 0, if align size 32 < 32 then p.descriptorCount else 0⟩
      | none => ⟨0, 0, 0⟩
    | none => ⟨getSampledImageDescSize pdev * p.descriptorCount, 0, 0⟩
  | t => ⟨unitSize pdev t * p.descriptorCount, (if isDynamicType t then 1 else 0) * p.descriptorCount,
      (if has16Bytes t then 1 else 0) * p.descriptorCount⟩

/-- How often the product of an entry wraps: those of inline uniform blocks and of mutable
descriptors with a list are not formed in 32 bits. -/
def wraps (pdev : PhysicalDevice) (info : PoolCreateInfo) (pi : PoolSize × ℕ) : ℕ :=
  if pi.1.type = .inlineUniformBlock ∨ pi.1.type = .mutableExt ∧ info.mutableList pi.2 ≠ none then 0
  else (info.entryTotals pdev pi).boSize / 2 ^ 32

/-- A total over the entries. -/
def sumEntries (info : PoolCreateInfo) (f : PoolSize × ℕ → ℕ) : ℕ := (info.pPoolSizes.zipIdx.map f).sum

/-- The exact size of the BO. -/
def exactBoSize (pdev : PhysicalDevice) (info : PoolCreateInfo) : ℕ :=
  28 * info.maxInlineUniformBlockBindings.getD 0 + info.sumEntries (info.entryTotals pdev · |>.boSize) +
    16 * min (info.sumEntries (info.entryTotals pdev · |>.num16ByteDescriptors)) info.maxSets

/-- The exact size of the allocation for the pool and its sets. -/
def exactHostSize (abi : PoolAbi) (pdev : PhysicalDevice) (info : PoolCreateInfo) : ℕ :=
  abi.sizeofDescriptorPool + if info.freeDescriptorSetBit then 0
    else info.maxSets * abi.sizeofDescriptorSet +
      abi.sizeofDescriptorRange * info.sumEntries (info.entryTotals pdev · |>.rangeCount)

end PoolCreateInfo

/-- The totals are the exact ones less the wraps of `w` products. -/
structure PoolTotals.Exact (t e : PoolTotals) (w : ℕ) : Prop where
  boSize : t.boSize + 2 ^ 32 * w ≡ e.boSize [MOD 2 ^ 64]
  boSize_lt : t.boSize < 2 ^ 64
  rangeCount : t.rangeCount = e.rangeCount % 2 ^ 64
  num16 : t.num16ByteDescriptors = e.num16ByteDescriptors % 2 ^ 64

section

variable {pdev : PhysicalDevice} {info : PoolCreateInfo} {t e : PoolTotals} {w : ℕ}

/-- Sums in 64 bits. -/
theorem PoolTotals.Exact.wide (h : t.Exact e w) (b r n : ℕ) :
    PoolTotals.Exact ⟨add64 t.boSize b, add64 t.rangeCount r, add64 t.num16ByteDescriptors n⟩
      ⟨e.boSize + b, e.rangeCount + r, e.num16ByteDescriptors + n⟩ w := by
  obtain ⟨hbo, -, hrange, hnum⟩ := h
  unfold ModEq at hbo
  unfold add64
  refine ⟨?_, mod_lt _ (by decide), ?_, ?_⟩
  · unfold ModEq
    dsimp only
    omega
  · dsimp only
    omega
  · dsimp only
    omega

/-- The sum of a product in 32 bits. -/
theorem PoolTotals.Exact.narrow (h : t.Exact e w) (b n : ℕ) :
    PoolTotals.Exact ⟨add64 t.boSize (b % 2 ^ 32), t.rangeCount, add64 t.num16ByteDescriptors n⟩
      ⟨e.boSize + b, e.rangeCount, e.num16ByteDescriptors + n⟩ (w + b / 2 ^ 32) := by
  have hbo := h.boSize
  have hnum := (h.wide b 0 n).num16
  unfold ModEq at hbo
  refine ⟨?_, mod_lt _ (by decide), h.rangeCount, hnum⟩
  unfold ModEq add64
  dsimp only
  omega

namespace PoolCreateInfo

/-- One iteration. -/
theorem addPoolSize_exact (h : t.Exact e w) (pi : PoolSize × ℕ) :
    (info.addPoolSize pdev t pi).Exact
      ⟨e.boSize + (info.entryTotals pdev pi).boSize, e.rangeCount + (info.entryTotals pdev pi).rangeCount,
        e.num16ByteDescriptors +
          (info.entryTotals pdev pi).num16ByteDescriptors⟩ (w + info.wraps pdev pi) := by
  obtain ⟨p, i⟩ := pi
  have hbo : add64 t.boSize 0 = t.boSize := mod_eq_of_lt h.boSize_lt
  have hrange : add64 t.rangeCount 0 = t.rangeCount := by rw [h.rangeCount, add64, add_zero, mod_mod]
  have hnum : add64 t.num16ByteDescriptors 0 = t.num16ByteDescriptors := by
    rw [h.num16, add64, add_zero, mod_mod]
  simp only [addPoolSize, entryTotals, wraps, PoolTotals.addBytes, mutableList]
  cases ht : p.type with
  | mutableExt =>
    cases hl : info.pMutableDescriptorTypeLists.bind (·[i]?) with
    | none => simpa [hnum] using h.narrow _ 0
    | some list =>
      cases hm : mutableDescriptorTypeSizeAlignment pdev list with
      | none => simpa [hm] using h
      | some m =>
        have hmod : ∀ b, add64 t.boSize (b % 2 ^ 64) = add64 t.boSize b := fun b => add_mod_mod ..
        simp only [hm, hmod]
        by_cases hsmall : align m.1 32 < 32
        · simpa [hsmall, hrange] using h.wide _ 0 p.descriptorCount
        · simpa [hsmall, hrange, hnum] using h.wide _ 0 0
  | uniformBufferDynamic | storageBufferDynamic =>
    simpa [unitSize, isDynamicType, has16Bytes, hbo, hnum] using h.wide 0 p.descriptorCount 0
  | inlineUniformBlock =>
    simpa [unitSize, isDynamicType, has16Bytes, hrange, hnum] using h.wide p.descriptorCount 0 0
  | other => simpa [unitSize, isDynamicType, has16Bytes] using h
  | uniformBuffer | storageBuffer | uniformTexelBuffer | storageTexelBuffer | sampler | accelerationStructure =>
    simpa [unitSize, isDynamicType, has16Bytes] using h.narrow _ p.descriptorCount
  | storageImage =>
    simpa [unitSize, isDynamicType, has16Bytes, hnum] using h.narrow _ 0
  | sampledImage | inputAttachment =>
    simpa [unitSize, isDynamicType, has16Bytes, hnum] using h.narrow _ 0
  | combinedImageSampler =>
    simpa [unitSize, isDynamicType, has16Bytes, hnum] using h.narrow _ 0

/-- The loop. -/
theorem foldl_addPoolSize (h : t.Exact e w) (l : List (PoolSize × ℕ)) :
    (l.foldl (info.addPoolSize pdev) t).Exact
      ⟨e.boSize + (l.map (info.entryTotals pdev · |>.boSize)).sum,
        e.rangeCount + (l.map (info.entryTotals pdev · |>.rangeCount)).sum,
        e.num16ByteDescriptors + (l.map (info.entryTotals pdev · |>.num16ByteDescriptors)).sum⟩
      (w + (l.map (info.wraps pdev)).sum) := by
  induction l generalizing t e w with
  | nil => exact h
  | cons pi l ih =>
    simp only [foldl_cons, map_cons, sum_cons, ← add_assoc]
    exact ih (addPoolSize_exact h pi)

end PoolCreateInfo

end

namespace PoolCreateInfo

variable (abi : PoolAbi) (pdev : PhysicalDevice) (info : PoolCreateInfo)

lemma totals_exact : (info.totals pdev).Exact
    ⟨28 * info.maxInlineUniformBlockBindings.getD 0 + info.sumEntries (info.entryTotals pdev · |>.boSize),
      info.sumEntries (info.entryTotals pdev · |>.rangeCount),
      info.sumEntries (info.entryTotals pdev · |>.num16ByteDescriptors)⟩ (info.sumEntries (info.wraps pdev)) := by
  have hstart : PoolTotals.Exact ⟨28 * info.maxInlineUniformBlockBindings.getD 0 % 2 ^ 64, 0, 0⟩
      ⟨28 * info.maxInlineUniformBlockBindings.getD 0, 0, 0⟩ 0 :=
    ⟨mod_modEq _ _, mod_lt _ (by decide), rfl, rfl⟩
  have hloop : (info.pPoolSizes.zipIdx.foldl (info.addPoolSize pdev) _).Exact _ _ :=
    foldl_addPoolSize hstart info.pPoolSizes.zipIdx
  simp only [zero_add] at hloop
  exact hloop

/-- The size of the BO, if there are not too many descriptors to count them in 64 bits. -/
theorem boSize_modEq (hnum : info.sumEntries (info.entryTotals pdev · |>.num16ByteDescriptors) < 2 ^ 64) :
    info.boSize pdev + 2 ^ 32 * info.sumEntries (info.wraps pdev) ≡ info.exactBoSize pdev [MOD 2 ^ 64] ∧
      info.boSize pdev < 2 ^ 64 := by
  obtain ⟨hbo, hlt, -, hcount⟩ := totals_exact pdev info
  unfold boSize exactBoSize
  dsimp only
  unfold ModEq add64 at *
  dsimp only at *
  split_ifs <;> omega

lemma hostSize_eq_exact (habi : abi.sizeofDescriptorPool < 2 ^ 64) :
    info.hostSize abi pdev = info.exactHostSize abi pdev % 2 ^ 64 := by
  unfold hostSize exactHostSize
  split_ifs
  · exact (mod_eq_of_lt habi).symm
  · rw [(totals_exact pdev info).rangeCount]
    simp only [add64, add_mod_mod, mod_add_mod, mul_mod_mod, add_assoc]

/-- A pool has at most `2 ^ 32 - 1` entries, each with as many descriptors at most. -/
theorem sumEntries_num16_lt (hlen : info.pPoolSizes.length < 2 ^ 32)
    (hcount : ∀ p ∈ info.pPoolSizes, p.descriptorCount < 2 ^ 32) :
    info.sumEntries (info.entryTotals pdev · |>.num16ByteDescriptors) < 2 ^ 64 := by
  have hle : ∀ n ∈ info.pPoolSizes.zipIdx.map (info.entryTotals pdev · |>.num16ByteDescriptors),
      n ≤ 2 ^ 32 := by
    intro n hn
    obtain ⟨⟨p, i⟩, hmem, rfl⟩ := mem_map.mp hn
    refine le_trans ?_ (hcount p (fst_mem_of_mem_zipIdx hmem)).le
    unfold entryTotals
    dsimp only
    split
    · split
      · split
        · dsimp only
          split_ifs
          · exact le_rfl
          · exact zero_le _
        · exact zero_le _
      · exact zero_le _
    · dsimp only
      split_ifs
      · rw [one_mul]
      · rw [zero_mul]
        exact zero_le _
  have hsum := sum_le_card_nsmul _ _ hle
  rw [length_map, length_zipIdx, smul_eq_mul] at hsum
  unfold sumEntries
  omega

/-- The sizes of a pool are exact up to `2 ^ 64`. -/
def SizesExact : Prop :=
  info.boSize pdev = info.exactBoSize pdev % 2 ^ 64 ∧
    info.hostSize abi pdev = info.exactHostSize abi pdev % 2 ^ 64

/-- Products below `2 ^ 32` do not wrap. -/
theorem sumEntries_wraps_eq_zero
    (h : ∀ pi ∈ info.pPoolSizes.zipIdx, (info.entryTotals pdev pi).boSize < 2 ^ 32) :
    info.sumEntries (info.wraps pdev) = 0 := by
  refine sum_eq_zero fun n hn => ?_
  obtain ⟨pi, hpi, rfl⟩ := mem_map.mp hn
  unfold wraps
  split_ifs
  · rfl
  · exact div_eq_of_lt (h pi hpi)

/-- The sizes of a pool are exact exactly if the products of its entries wrap so often that the
wraps make up a multiple of `2 ^ 64` bytes; with fewer than tens of millions of entries this means
never. So they are if the bytes of every entry are below `2 ^ 32`. -/
theorem sizes_eq_exact_iff (habi : abi.sizeofDescriptorPool < 2 ^ 64)
    (hlen : info.pPoolSizes.length < 2 ^ 32) (hcount : ∀ p ∈ info.pPoolSizes, p.descriptorCount < 2 ^ 32) :
    (info.SizesExact abi pdev ↔ 2 ^ 32 ∣ info.sumEntries (info.wraps pdev)) ∧
      ((∀ pi ∈ info.pPoolSizes.zipIdx, (info.entryTotals pdev pi).boSize < 2 ^ 32) →
        info.SizesExact abi pdev) := by
  obtain ⟨hbo, hlt⟩ := boSize_modEq pdev info (sumEntries_num16_lt pdev info hlen hcount)
  have hiff : info.SizesExact abi pdev ↔ 2 ^ 32 ∣ info.sumEntries (info.wraps pdev) := by
    unfold SizesExact
    rw [and_iff_left (hostSize_eq_exact abi pdev info habi)]
    unfold ModEq at hbo
    omega
  refine ⟨hiff, fun hsmall => hiff.mpr ?_⟩
  rw [sumEntries_wraps_eq_zero pdev info hsmall]
  exact dvd_zero _

/-- A pool for uniform buffers. -/
def exampleBuffers (descriptorCount : ℕ) : PoolCreateInfo :=
  ⟨false, 1, [⟨.uniformBuffer, descriptorCount⟩], none, none⟩

/-- A pool for descriptors of several types, with a list of types for the mutable ones. -/
def exampleMixed : PoolCreateInfo where
  freeDescriptorSetBit := false
  maxSets := 100
  pPoolSizes := [⟨.uniformBuffer, 2 ^ 28 - 1⟩, ⟨.combinedImageSampler, 1000⟩, ⟨.inlineUniformBlock, 4096⟩,
    ⟨.mutableExt, 50⟩, ⟨.storageBufferDynamic, 8⟩]
  maxInlineUniformBlockBindings := some 4
  pMutableDescriptorTypeLists := some [[], [], [], [.storageBuffer, .sampledImage], []]

/-- Entries below the limit, one of them just. -/
theorem sizes_eq_exact_iff_mixed :
    exampleMixed.SizesExact ⟨128, 96, 16⟩ ⟨false, false⟩ ∧ exampleMixed.boSize ⟨false, false⟩ =
      28 * 4 + (16 * (2 ^ 28 - 1) + 64 * 1000 + 4096 + 32 * 50) + 16 * 100 := by
  have hexact := (sizes_eq_exact_iff ⟨128, 96, 16⟩ ⟨false, false⟩ exampleMixed (by decide) (by decide)
    (by decide)).2 (by decide)
  exact ⟨hexact, by decide⟩

/-- The bytes of `2 ^ 28` buffer descriptors wrap to nothing, and only the reserve for a gap is
left. -/
theorem boSize_ne_exact : (exampleBuffers (2 ^ 28)).boSize ⟨false, false⟩ = 16 ∧
    (exampleBuffers (2 ^ 28)).exactBoSize ⟨false, false⟩ % 2 ^ 64 = 2 ^ 32 + 16 := by
  decide

end PoolCreateInfo

end RadvXclipse.Descriptor
