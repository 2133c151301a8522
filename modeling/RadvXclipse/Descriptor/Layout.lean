import Mathlib.Data.List.Sort
import RadvXclipse.Util.Math

/-!
# Descriptor set layouts

The model of `radv_CreateDescriptorSetLayout` and `radv_GetDescriptorSetLayoutSupport` from
`radv_descriptor_set.c`, with what they use of `radv_descriptors.c` and `vk_descriptors.c`. Numbers
are natural numbers; arithmetic on `uint32_t`, `uint64_t` and `uint16_t` wraps where it is done.
-/

namespace RadvXclipse.Descriptor

open Util

/-! ## What the application passes -/

/-- `VkDescriptorType`; the types that no `switch` of the driver names are `other`. -/
inductive DescriptorType
  | sampler
  | combinedImageSampler
  | sampledImage
  | storageImage
  | uniformTexelBuffer
  | storageTexelBuffer
  | uniformBuffer
  | storageBuffer
  | uniformBufferDynamic
  | storageBufferDynamic
  | inputAttachment
  | inlineUniformBlock
  | accelerationStructure
  | mutableExt
  | other
deriving DecidableEq

/-- A sampler: the plane count of the format of its YCbCr conversion, if it has one. -/
structure Sampler where
  conversion : Option ℕ

/-- `VkDescriptorSetLayoutBinding`. -/
structure Binding where
  binding : ℕ
  descriptorType : DescriptorType
  descriptorCount : ℕ
  stageFlags : BitVec 32
  pImmutableSamplers : Option (ℕ → Sampler)

/-- `VkDescriptorSetLayoutCreateInfo` with the structures chained to it, where they are there. -/
structure CreateInfo where
  flags : BitVec 32
  pBindings : List Binding
  pBindingFlags : Option (List (BitVec 32))
  pMutableDescriptorTypeLists : Option (List (List DescriptorType))

/-- The fields of `struct radv_physical_device` that descriptor sizes depend on. -/
structure PhysicalDevice where
  useFmask : Bool
  force64ByteSampledImage : Bool

/-- Where the compiler puts `radv_descriptor_set_layout::binding`. -/
structure Abi where
  offsetofBinding : ℕ
  sizeofBinding : ℕ

/-- `VK_DESCRIPTOR_BINDING_VARIABLE_DESCRIPTOR_COUNT_BIT`. -/
def variableDescriptorCountBit : BitVec 32 := 8
/-- `RADV_RT_STAGE_BITS`. -/
def rtStageBits : BitVec 32 := 0x3f00
/-- `VK_SHADER_STAGE_COMPUTE_BIT`. -/
def shaderStageComputeBit : BitVec 32 := 0x20

/-! ## Sizes and alignments -/

def bufferDescSize : ℕ := 16
def samplerDescSize : ℕ := 16
def storageImageDescSize : ℕ := 32
def accelStructDescSize : ℕ := 16

/-- `MAX_INLINE_UNIFORM_BLOCK_SIZE`. -/
def maxInlineUniformBlockSize : ℕ := 4 * 1024 * 1024
def int32Max : ℕ := 2 ^ 31 - 1

variable (pdev : PhysicalDevice) (info : CreateInfo)

/-- `radv_get_sampled_image_desc_size`. -/
def getSampledImageDescSize : ℕ :=
  32 + if pdev.useFmask || pdev.force64ByteSampledImage then 32 else 0

/-- `radv_get_combined_image_sampler_desc_size`. -/
def getCombinedImageSamplerDescSize : ℕ :=
  align (getSampledImageDescSize pdev + samplerDescSize) 32

/-- `radv_descriptor_alignment`. -/
def descriptorAlignment : DescriptorType → ℕ
  | .uniformBuffer | .storageBuffer | .uniformTexelBuffer | .storageTexelBuffer | .sampler
  | .inlineUniformBlock | .accelerationStructure => 16
  | .storageImage | .sampledImage | .inputAttachment | .combinedImageSampler | .mutableExt => 32
  | .uniformBufferDynamic | .storageBufferDynamic | .other => 1

/-- The size of a type of a mutable descriptor, if it is supported. -/
def mutableTypeSize : DescriptorType → Option ℕ
  | .uniformBuffer | .storageBuffer | .uniformTexelBuffer | .storageTexelBuffer
  | .accelerationStructure => some bufferDescSize
  | .sampler => some samplerDescSize
  | .storageImage => some storageImageDescSize
  | .sampledImage => some (getSampledImageDescSize pdev)
  | _ => none

/-- The loop of `radv_mutable_descriptor_type_size_alignment`. -/
def mutableSizeAlignmentLoop (pdev : PhysicalDevice) :
    List DescriptorType → ℕ → ℕ → Option (ℕ × ℕ)
  | [], maxSize, maxAlign => some (maxSize, maxAlign)
  | t :: list, maxSize, maxAlign =>
    match mutableTypeSize pdev t with
    | some size =>
      mutableSizeAlignmentLoop pdev list (max maxSize size) (max maxAlign (descriptorAlignment t))
    | none => none

/-- `radv_mutable_descriptor_type_size_alignment`; nothing if it returns false, in which case it
does not write the size and the alignment. -/
def mutableDescriptorTypeSizeAlignment (list : List DescriptorType) :
    Option (ℕ × ℕ) :=
  mutableSizeAlignmentLoop pdev list 0 0

/-! ## Sorting -/

/-- `vk_create_sorted_bindings`: the bindings by their numbers, and the flags along with them if
there are any. -/
def createSortedBindings (bindings : List Binding) (bindingFlags : Option (List (BitVec 32))) :
    List Binding × Option (List (BitVec 32)) :=
  let bindingFlags := bindingFlags.filter fun flags => bindings ≠ [] ∧ flags ≠ []
  let bwfs := bindings.zipIdx.map fun (b, index) => (b, (bindingFlags.bind (·[index]?)).getD 0)
  let sorted := bwfs.insertionSort fun a b => a.1.binding ≤ b.1.binding
  (sorted.map Prod.fst, bindingFlags.map fun _ => sorted.map Prod.snd)

namespace CreateInfo

/-- `pMutableDescriptorTypeLists[j]`; outside of the array there is nothing to read. -/
def typeList (j : ℕ) : List DescriptorType :=
  (info.pMutableDescriptorTypeLists.bind (·[j]?)).getD []

/-- Whether `pBindingFlags[j]` is there and has the bit for variable descriptor counts. -/
def variableAt (j : ℕ) : Bool :=
  match info.pBindingFlags.bind (·[j]?) with
  | some flags => flags &&& variableDescriptorCountBit ≠ 0
  | none => false

/-- The alignment of the bindings of the first pass: not that of the last binding. -/
def firstAlignment (bindings : List Binding) : ℕ :=
  match bindings.getLast? with
  | none => 32
  | some last =>
    let lastAlignment :=
      if last.descriptorType = .mutableExt then
        ((mutableDescriptorTypeSizeAlignment pdev (info.typeList (bindings.length - 1))).getD (0, 0)).2
      else descriptorAlignment last.descriptorType
    if lastAlignment = 32 then 16 else 32

end CreateInfo

/-- Whether a pass of the layout loop skips a binding. -/
def skips (pass alignment firstAlignment : ℕ) : Bool :=
  (pass = 0 ∧ alignment ≠ firstAlignment) ∨ (pass = 1 ∧ alignment = firstAlignment)

/-! ## `radv_CreateDescriptorSetLayout` -/

/-- `struct radv_descriptor_set_binding_layout`. -/
structure BindingLayout where
  type : DescriptorType
  arraySize : ℕ
  offset : ℕ
  dynamicOffsetOffset : ℕ
  dynamicOffsetCount : ℕ
  size : ℕ
  immutableSamplersOffset : ℕ
  hasYcbcrSampler : Bool

/-- A zeroed one. -/
def BindingLayout.zero : BindingLayout := ⟨.sampler, 0, 0, 0, 0, 0, 0, false⟩

/-- `struct radv_descriptor_set_layout`, up to the samplers stored behind it. -/
structure SetLayout where
  flags : BitVec 32
  bindingCount : ℕ
  size : ℕ
  dynamicShaderStages : BitVec 16
  dynamicOffsetCount : ℕ
  hasImmutableSamplers : Bool
  hasVariableDescriptors : Bool
  binding : ℕ → BindingLayout

/-- `set_layout->binding[b]` changes. -/
def SetLayout.modify (l : SetLayout) (b : ℕ) (f : BindingLayout → BindingLayout) : SetLayout :=
  { l with binding := Function.update l.binding b (f (l.binding b)) }

variable (b : Binding)

/-- The samplers of a binding that has them. -/
def Binding.immutableSamplers : List Sampler :=
  match b.pImmutableSamplers with
  | some s => (List.range b.descriptorCount).map s
  | none => []

/-- The immutable samplers of the types that can have them. -/
def Binding.samplers : Option (List Sampler) :=
  if (b.descriptorType = .combinedImageSampler ∨ b.descriptorType = .sampler) ∧
      b.pImmutableSamplers.isSome then some b.immutableSamplers
  else none

/-- `num_bindings`. -/
def CreateInfo.numBindings : ℕ :=
  info.pBindings.foldl (fun n b => max n (add32 b.binding 1)) 0

/-- The largest plane count of a combined image sampler, `max_sampled_image_descriptors`. -/
def Binding.maxSampledImageDescriptors : ℕ :=
  if b.descriptorType = .combinedImageSampler then
    b.immutableSamplers.foldl
      (fun n s => match s.conversion with | some planes => max n planes | none => n) 1
  else 1

/-- `has_ycbcr_sampler`. -/
def Binding.hasYcbcrSampler : Bool :=
  b.descriptorType = .combinedImageSampler ∧ b.immutableSamplers.any (·.conversion.isSome)

/-- The size of one descriptor, if the `switch` sets it. -/
def CreateInfo.bindingSize (j : ℕ) : Option ℕ :=
  match b.descriptorType with
  | .uniformBufferDynamic | .storageBufferDynamic => some 0
  | .uniformBuffer | .storageBuffer | .uniformTexelBuffer | .storageTexelBuffer => some bufferDescSize
  | .storageImage => some storageImageDescSize
  | .sampledImage | .inputAttachment => some (getSampledImageDescSize pdev)
  | .combinedImageSampler =>
    some (b.maxSampledImageDescriptors * getCombinedImageSamplerDescSize pdev % 2 ^ 32)
  | .sampler => some samplerDescSize
  | .mutableExt => some ((mutableDescriptorTypeSizeAlignment pdev (info.typeList j)).getD (0, 0)).1
  | .inlineUniformBlock => some b.descriptorCount
  | .accelerationStructure => some accelStructDescSize
  | .other => none

/-- The alignment of a binding in the layout loop. -/
def CreateInfo.bindingAlignment (j : ℕ) : ℕ :=
  if b.descriptorType = .mutableExt then
    ((mutableDescriptorTypeSizeAlignment pdev (info.typeList j)).getD (0, 0)).2
  else descriptorAlignment b.descriptorType

/-- The number of array elements of a binding. -/
def Binding.arraySize : ℕ :=
  if b.descriptorType = .inlineUniformBlock then 1 else b.descriptorCount

def Binding.isDynamic : Bool :=
  b.descriptorType = .uniformBufferDynamic ∨ b.descriptorType = .storageBufferDynamic

/-- The variables of the layout loop. -/
structure LayoutState where
  layout : SetLayout
  dynamicOffsetCount : ℕ
  samplersOffset : ℕ

/-- The `switch` on the type of a binding, which writes the size in both passes. -/
def CreateInfo.switchBinding (j : ℕ) (l : SetLayout) : SetLayout :=
  let l := l.modify b.binding fun e => { e with size := (info.bindingSize pdev b j).getD e.size }
  if b.isDynamic then
    let stages := b.stageFlags ||| if b.stageFlags &&& rtStageBits ≠ 0 then shaderStageComputeBit else 0
    { l.modify b.binding fun e => { e with dynamicOffsetCount := 1 } with
      dynamicShaderStages := l.dynamicShaderStages ||| stages.setWidth 16 }
  else l

/-- One iteration of the layout loop, for the binding at position `j` of the sorted ones. -/
def CreateInfo.layoutBinding (first pass : ℕ) (st : LayoutState) (bj : Binding × ℕ) : LayoutState :=
  let (b, j) := bj
  let l := info.switchBinding pdev b j st.layout
  let alignment := info.bindingAlignment pdev b j
  if skips pass alignment first then { st with layout := l }
  else
    let offset := align l.size alignment
    let l := l.modify b.binding fun e => { e with
      type := b.descriptorType
      arraySize := b.arraySize
      offset := offset
      dynamicOffsetOffset := st.dynamicOffsetCount % 2 ^ 16
      hasYcbcrSampler := b.hasYcbcrSampler
      immutableSamplersOffset :=
        if b.samplers.isSome then st.samplersOffset else e.immutableSamplersOffset }
    { layout := { l with
        size := add32 offset (b.arraySize * (l.binding b.binding).size)
        hasVariableDescriptors := l.hasVariableDescriptors || info.variableAt j
        hasImmutableSamplers := l.hasImmutableSamplers || b.samplers.isSome }
      dynamicOffsetCount :=
        add32 st.dynamicOffsetCount (b.arraySize * (l.binding b.binding).dynamicOffsetCount)
      samplersOffset :=
        if b.samplers.isSome then add32 st.samplersOffset (16 * b.descriptorCount)
        else st.samplersOffset }

/-- The two passes over the sorted bindings. -/
def CreateInfo.layoutLoop (bindings : List Binding) (st : LayoutState) : LayoutState :=
  let first := info.firstAlignment pdev bindings
  let st := bindings.zipIdx.foldl (info.layoutBinding pdev first 0) st
  bindings.zipIdx.foldl (info.layoutBinding pdev first 1) st

inductive Result
  | success
  | outOfHostMemory
  | outOfPoolMemory
deriving DecidableEq

/-- The bindings that the loops go through. -/
def CreateInfo.sorted : List Binding := (createSortedBindings info.pBindings none).1

/-- The variables before the layout loop. -/
def CreateInfo.initState (abi : Abi) (info : CreateInfo) : LayoutState where
  layout :=
    { flags := info.flags, bindingCount := info.numBindings, size := 0, dynamicShaderStages := 0,
      dynamicOffsetCount := 0, hasImmutableSamplers := false, hasVariableDescriptors := false,
      binding := fun _ => .zero }
  dynamicOffsetCount := 0
  samplersOffset := (abi.offsetofBinding + info.numBindings * abi.sizeofBinding) % 2 ^ 32

/-- The layout after the layout loop. -/
def CreateInfo.setLayout (abi : Abi) (pdev : PhysicalDevice) (info : CreateInfo) : SetLayout :=
  let st := info.layoutLoop pdev info.sorted (info.initState abi)
  { st.layout with dynamicOffsetCount := st.dynamicOffsetCount % 2 ^ 16 }

/-- `radv_CreateDescriptorSetLayout`; `zalloc` and `malloc` say whether the layout and the sorted
bindings can be allocated. -/
def createDescriptorSetLayout (abi : Abi) (pdev : PhysicalDevice) (zalloc malloc : Bool)
    (info : CreateInfo) : Except Result SetLayout :=
  if !zalloc then .error .outOfHostMemory
  else if !malloc && info.pBindings ≠ [] then .error .outOfHostMemory
  else .ok (info.setLayout abi pdev)

/-! ## `radv_GetDescriptorSetLayoutSupport` -/

/-- The variables of the support loop; `maxVariableDescriptorCount` is there if the application has
chained the structure with it. -/
structure SupportState where
  supported : Bool
  size : ℕ
  maxVariableDescriptorCount : Option ℕ
deriving DecidableEq

/-- The size of one descriptor; the planes of a YCbCr conversion do not count here. -/
def CreateInfo.supportSize (i : ℕ) : ℕ :=
  match b.descriptorType with
  | .uniformBuffer | .storageBuffer | .uniformTexelBuffer | .storageTexelBuffer => bufferDescSize
  | .storageImage => storageImageDescSize
  | .sampledImage | .inputAttachment => getSampledImageDescSize pdev
  | .combinedImageSampler => getCombinedImageSamplerDescSize pdev
  | .sampler => samplerDescSize
  | .inlineUniformBlock => b.descriptorCount
  | .mutableExt => ((mutableDescriptorTypeSizeAlignment pdev (info.typeList i)).map Prod.fst).getD 0
  | .accelerationStructure => accelStructDescSize
  | .uniformBufferDynamic | .storageBufferDynamic | .other => 0

/-- The alignment of a binding in the support loop, where an unsupported list of types leaves it. -/
def CreateInfo.supportAlignment (i : ℕ) : ℕ :=
  if b.descriptorType = .mutableExt then
    ((mutableDescriptorTypeSizeAlignment pdev (info.typeList i)).map Prod.snd).getD
      (descriptorAlignment .mutableExt)
  else descriptorAlignment b.descriptorType

/-- Whether a binding has a list of types that cannot be supported. -/
def CreateInfo.unsupportedTypes (i : ℕ) : Bool :=
  b.descriptorType = .mutableExt ∧ mutableDescriptorTypeSizeAlignment pdev (info.typeList i) = none

/-- `max_count`: how many descriptors fit behind `size`. -/
def CreateInfo.maxCount (i size : ℕ) : ℕ :=
  if b.descriptorType = .inlineUniformBlock then sub64 maxInlineUniformBlockSize size
  else if info.supportSize pdev b i ≠ 0 then sub64 int32Max size / info.supportSize pdev b i
  else int32Max

/-- One iteration of the support loop. -/
def CreateInfo.supportBinding (first pass : ℕ)
    (st : SupportState) (bi : Binding × ℕ) : SupportState :=
  let (b, i) := bi
  let alignment := info.supportAlignment pdev b i
  let supported := st.supported && !info.unsupportedTypes pdev b i
  if skips pass alignment first then { st with supported := supported }
  else
    let size := align64 st.size alignment
    let maxCount := info.maxCount pdev b i size
    { supported := supported && !(st.size ≠ 0 && size = 0) && !(maxCount < b.arraySize)
      size := add64 size (b.arraySize * info.supportSize pdev b i)
      maxVariableDescriptorCount :=
        if info.variableAt i then st.maxVariableDescriptorCount.map fun _ => min uint32Max maxCount
        else st.maxVariableDescriptorCount }

/-- The two passes of the support loop. -/
def CreateInfo.supportLoop (bindings : List Binding) (st : SupportState) : SupportState :=
  let first := info.firstAlignment pdev bindings
  let st := bindings.zipIdx.foldl (info.supportBinding pdev first 0) st
  bindings.zipIdx.foldl (info.supportBinding pdev first 1) st

/-- `radv_GetDescriptorSetLayoutSupport`: whether the layout is supported, and the largest variable
descriptor count if `variableCount` says that the application asks for it. When the bindings cannot
be sorted the function returns before it writes the count (`unwritten` is what stands there). -/
def getDescriptorSetLayoutSupport (malloc : Bool) (variableCount : Bool)
    (unwritten : ℕ) (info : CreateInfo) : Bool × Option ℕ :=
  if !malloc && info.pBindings ≠ [] then (false, if variableCount then some unwritten else none)
  else
    let st := info.supportLoop pdev info.sorted ⟨true, 0, if variableCount then some 0 else none⟩
    (st.supported, st.maxVariableDescriptorCount)

end RadvXclipse.Descriptor
