import Mathlib.Algebra.Group.Nat.Defs

/-!
# Cache flushes and deferred decode flushes

A command buffer collects the caches it has to flush in `flush_bits`; `radv_emit_cache_flush` emits
them. Emulated BCn images are decoded by a compute shader after a copy. The flush that orders a
decode against later commands is deferred: `radv_meta_decode_bc_flush` sets `bc_decode_pending`, and
`radv_emit_cache_flush` turns it into flush bits, but not in a decode window (`bc_decode_active`),
as decodes are not ordered against each other.

The log records what goes into the command stream, with the two variables at that moment. A copy
records its regions by meta operations, which are arguments of the command. The recordings here are
those without an error: a decode that cannot get its pipeline makes the command buffer invalid.
-/

namespace RadvXclipse.CmdBuffer

/-! ## Barrier flags -/

/-- `enum ac_barrier_flags`. -/
abbrev Flags := BitVec 32

def invIcache : Flags := 1 <<< 0
def invSmem : Flags := 1 <<< 1
def invVmem : Flags := 1 <<< 2
def invL2 : Flags := 1 <<< 3
def wbL2 : Flags := 1 <<< 4
def invL2Metadata : Flags := 1 <<< 5
def syncAndInvCb : Flags := 1 <<< 6
def syncAndInvCbMeta : Flags := 1 <<< 7
def syncAndInvDb : Flags := 1 <<< 8
def syncAndInvDbMeta : Flags := 1 <<< 9
def syncPs : Flags := 1 <<< 14
def syncCs : Flags := 1 <<< 15
def syncBottomOfPipe : Flags := 1 <<< 16
def syncCpDma : Flags := 1 <<< 17
def pipelinestatStart : Flags := 1 <<< 18
def pipelinestatStop : Flags := 1 <<< 19

/-- `AC_BARRIER_ALL_COMPUTE`. -/
def allCompute : Flags :=
  invIcache ||| invSmem ||| invVmem ||| invL2 ||| wbL2 ||| invL2Metadata ||| syncCs ||| syncBottomOfPipe |||
    pipelinestatStart ||| pipelinestatStop

/-- What `radv_emit_cache_flush` adds for a deferred decode flush. -/
def decodeBits : Flags := syncCs ||| wbL2 ||| invL2 ||| invVmem

/-! ## Devices, images and the command buffer -/

/-- `cmd_buffer->qf`. -/
inductive Queue
  | general | compute | transfer
deriving DecidableEq

/-- The parts of `radeon_info` that are read here; `gfxLevel` is the generation. -/
structure Device where
  gfxLevel : ℕ
  cpDmaUseL2 : Bool
  hasCpDmaUnalignedCopyPerfIssue : Bool
  /-- `cp_dma_max_byte_count` -/
  cpDmaMaxByteCount : ℕ
  cpDmaMaxByteCount_pos : 0 < cpDmaMaxByteCount
  /-- `ac_xclipse_full_db_flush` -/
  fullDbFlush : Bool

/-- Whether and how the format of an image is emulated. -/
inductive Emulation
  | native | bc | astc | etc
deriving DecidableEq

structure Image where
  emulation : Emulation
  /-- `vk.usage` has the storage bit -/
  usageStorage : Bool
  usageAttachment : Bool
  depthOrStencil : Bool
  hasStencil : Bool
  samples : ℕ
  /-- `first_mip_pipe_misaligned` of each plane -/
  firstMipPipeMisaligned : List ℕ
  hasCbMetadata : Bool
  htileEnabled : Bool
  /-- `xclipse_bc_alias` -/
  bcAlias : Bool
  /-- there is an `xclipse_bc6h_alt` -/
  bc6hAlt : Bool

inductive Event
  /-- `radv_cs_emit_cache_flush` -/
  | cacheFlush (bits : Flags)
  | draw
  | dispatch
  | cpDma
  | endCommandBuffer
  /-- `radv_meta_decode_bc_flush` defers a flush; nothing is emitted -/
  | deferred
deriving DecidableEq

/-- An event, with `bc_decode_pending` and `bc_decode_active` when it happens. -/
structure Entry where
  event : Event
  pending : Bool
  active : ℕ

/-- `cmd_buffer->state`; `numPipelineStat` is `radv_get_num_pipeline_stat_queries`. -/
structure State where
  flushBits : Flags
  bcDecodePending : Bool
  bcDecodeActive : ℕ
  numPipelineStat : ℕ
  log : List Entry

/-- A command buffer in the recording state. -/
def State.init : State := ⟨0, false, 0, 0, []⟩

variable (s : State)

def State.emit (e : Event) : State :=
  { s with log := s.log ++ [⟨e, s.bcDecodePending, s.bcDecodeActive⟩] }

/-- `cmd_buffer->state.flush_bits |= bits`. -/
def State.orFlush (bits : Flags) : State := { s with flushBits := s.flushBits ||| bits }

/-! ## Access flushes -/

/-- `radv_image_is_pipe_misaligned` of a whole image. -/
def Image.isPipeMisaligned (i : Image) : Bool := i.firstMipPipeMisaligned.any (· ≠ 2 ^ 32 - 1)

/-- `radv_image_is_l2_coherent` of a whole image. -/
def Image.isL2Coherent (i : Image) (d : Device) : Bool :=
  if 12 ≤ d.gfxLevel then true
  else if 10 ≤ d.gfxLevel then !i.isPipeMisaligned
  else if d.gfxLevel = 9 then i.samples = 1 ∧ i.usageAttachment ∧ ¬ i.hasStencil
  else false

/-- The source accesses that `radv_src_access_flush` distinguishes, after their expansion. -/
structure SrcAccess where
  commandPreprocessWrite : Bool
  shaderStorageWrite : Bool
  transformFeedbackWrite : Bool
  colorAttachmentWrite : Bool
  depthStencilAttachmentWrite : Bool
  transferWrite : Bool

/-- `VK_ACCESS_2_SHADER_WRITE_BIT` of the compute stage. -/
def computeShaderWrite : SrcAccess := ⟨false, true, false, false, false, false⟩

/-- The bits if the condition holds. -/
def Flags.only (p : Bool) (bits : Flags) : Flags := if p then bits else 0

/-- `radv_src_access_flush`. -/
def srcAccessFlush (d : Device) (a : SrcAccess) (image : Option Image) : Flags :=
  let coherent := image.any (·.isL2Coherent d)
  let hasCbMeta := image.all (·.hasCbMetadata)
  let hasDbMeta := image.all (·.htileEnabled)
  Flags.only a.commandPreprocessWrite invL2 |||
    Flags.only a.shaderStorageWrite
      ((match image with
        | some i => Flags.only (!i.usageStorage) (if i.depthOrStencil then syncAndInvDb else syncAndInvCb)
        | none => 0) ||| Flags.only (!coherent) invL2) |||
    Flags.only a.transformFeedbackWrite (Flags.only (!coherent) wbL2) |||
    Flags.only a.colorAttachmentWrite
      (syncAndInvCb ||| Flags.only (!coherent) invL2 ||| Flags.only hasCbMeta syncAndInvCbMeta) |||
    Flags.only a.depthStencilAttachmentWrite
      (syncAndInvDb ||| Flags.only (!coherent) invL2 |||
        Flags.only (d.gfxLevel < 10 && hasDbMeta) syncAndInvDbMeta) |||
    Flags.only a.transferWrite
      (syncAndInvCb ||| syncAndInvDb ||| Flags.only (!coherent) invL2 ||| Flags.only hasCbMeta syncAndInvCbMeta |||
        Flags.only (d.gfxLevel < 10 && hasDbMeta) syncAndInvDbMeta)

section

variable (d : Device) (qf : Queue)

/-! ## Flushes and emissions -/

variable (s : State)

/-- The part of `radv_emit_cache_flush` that drains a deferred decode flush. -/
def State.drain : State :=
  if s.bcDecodePending ∧ s.bcDecodeActive = 0 then
    { s with bcDecodePending := false, flushBits := s.flushBits ||| decodeBits }
  else s

/-- A compute queue does not have all caches. -/
def State.maskBits : State :=
  if qf = .compute then { s with flushBits := s.flushBits &&& allCompute } else s

/-- The bits that are emitted: the CP waits for its DMA by itself, and some chips flush the depth
caches only together with the colour caches. -/
def emittedBits (bits : Flags) : Flags :=
  let bits := bits &&& ~~~syncCpDma
  if bits &&& (syncAndInvDb ||| syncAndInvCb) = syncAndInvDb ∧ d.fullDbFlush then
    bits ||| syncAndInvCb else bits

/-- `radv_emit_cache_flush`. -/
def emitCacheFlush : State :=
  let s := s.drain.maskBits qf
  if s.flushBits = 0 then s else { s.emit (.cacheFlush (emittedBits d s.flushBits)) with flushBits := 0 }

/-- `if (cmd_buffer->state.flush_bits) radv_emit_cache_flush(cmd_buffer)`. -/
def emitCacheFlushIfBits : State := if s.flushBits ≠ 0 then emitCacheFlush d qf s else s

/-- `radv_compute_dispatch`; a transfer queue dispatches on the stream of its gang. -/
def computeDispatch : State :=
  (if qf ≠ .transfer then emitCacheFlush d qf s else s).emit .dispatch

/-- Several packets of a CP DMA operation. -/
def State.emitCpDma (s : State) : ℕ → State
  | 0 => s
  | n + 1 => (s.emit .cpDma).emitCpDma n

/-- `radv_cp_dma_copy_memory`. -/
def cpDmaCopyMemory (srcVa size : ℕ) : State :=
  let s := if d.cpDmaUseL2 then s else s.orFlush invL2
  let realignSize :=
    if d.hasCpDmaUnalignedCopyPerfIssue ∧ size % 32 ≠ 0 then 32 - size % 32 else 0
  let skippedSize :=
    if d.hasCpDmaUnalignedCopyPerfIssue ∧ srcVa % 32 ≠ 0 then min (32 - srcVa % 32) size else 0
  let s := emitCacheFlushIfBits d qf s
  let s := s.emitCpDma ((size - skippedSize + d.cpDmaMaxByteCount - 1) / d.cpDmaMaxByteCount)
  let s := if skippedSize ≠ 0 then s.emitCpDma 1 else s
  if realignSize ≠ 0 then s.emitCpDma 1 else s

/-- `radv_cp_dma_fill_memory`. -/
def cpDmaFillMemory (size : ℕ) (cbDbCpCoherent : Bool) : State :=
  if size = 0 then s
  else
    let useL2 := 9 ≤ d.gfxLevel ∨ ¬ cbDbCpCoherent
    let s := if useL2 ∧ ¬ d.cpDmaUseL2 then s.orFlush invL2 else s
    let s := emitCacheFlushIfBits d qf s
    s.emitCpDma ((size + d.cpDmaMaxByteCount - 1) / d.cpDmaMaxByteCount)

/-! ## Operations -/

/-- What commands and meta operations are made of. -/
inductive Op
  /-- `flush_bits |= bits`, in a barrier or elsewhere -/
  | addFlushBits (bits : Flags)
  /-- `radv_before_draw` or `radv_before_taskmesh_draw`, which add bits first, and a draw -/
  | draw (bits : Flags)
  | dispatch
  /-- `radv_before_trace_rays` and its dispatch -/
  | traceRays
  | cpDmaCopy (srcVa size : ℕ)
  | cpDmaFill (size : ℕ) (cbDbCpCoherent : Bool)
  /-- the other callers of `radv_emit_cache_flush` (events, queries, predication, streamout,
  secondaries) -/
  | cacheFlush

def runOp : Op → State
  | .addFlushBits bits => s.orFlush bits
  | .draw bits => (emitCacheFlushIfBits d qf (s.orFlush bits)).emit .draw
  | .dispatch => computeDispatch d qf s
  | .traceRays => (emitCacheFlush d qf s).emit .dispatch
  | .cpDmaCopy srcVa size => cpDmaCopyMemory d qf s srcVa size
  | .cpDmaFill size cbDbCpCoherent => cpDmaFillMemory d qf s size cbDbCpCoherent
  | .cacheFlush => emitCacheFlush d qf s

/-- Only the general queue draws, and a transfer queue has neither ray tracing nor CP DMA. -/
def Op.allowed : Op → Bool
  | .draw _ => qf = .general
  | .traceRays | .cpDmaCopy _ _ | .cpDmaFill _ _ => qf ≠ .transfer
  | _ => true

/-! ## Queries around meta operations -/

/-- `radv_update_hw_pipelinestat`. -/
def updateHwPipelinestat : State :=
  if s.numPipelineStat = 0 then
    { s with flushBits := s.flushBits &&& ~~~pipelinestatStart ||| pipelinestatStop }
  else if s.numPipelineStat = 1 then
    { s with flushBits := s.flushBits &&& ~~~pipelinestatStop ||| pipelinestatStart }
  else s

/-- `radv_suspend_queries`, called by `radv_meta_begin`. -/
def suspendQueries : State :=
  if 0 < s.numPipelineStat then
    { s with flushBits := s.flushBits &&& ~~~pipelinestatStart ||| pipelinestatStop }
  else s

/-- `radv_resume_queries`, called by `radv_meta_end`. -/
def resumeQueries : State :=
  if 0 < s.numPipelineStat then
    { s with flushBits := s.flushBits &&& ~~~pipelinestatStop ||| pipelinestatStart }
  else s

/-! ## Decodes and copies -/

/-- A decode window around some work. -/
def State.window (f : State → State) : State :=
  let t := f { s with bcDecodeActive := s.bcDecodeActive + 1 }
  { t with bcDecodeActive := t.bcDecodeActive - 1 }

/-- `bc_decode`. -/
def bcDecode : State := s.window (computeDispatch d qf)

/-- `radv_meta_decode_bc`. -/
def metaDecodeBc (image : Image) : State :=
  let s := bcDecode d qf s
  if image.bc6hAlt then bcDecode d qf s else s

/-- `radv_meta_decode_bc_flush`. -/
def metaDecodeBcFlush (image : Image) : State :=
  ({ s with bcDecodePending := true }.orFlush (srcAccessFlush d computeShaderWrite (some image))).emit .deferred

/-- The decode of one region of an image that is not aliased; ASTC and ETC decodes are plain
dispatches. -/
def decodeRegion (dst : Image) (s : State) : State :=
  if dst.emulation = .bc then metaDecodeBc d qf s dst else computeDispatch d qf s

/-- The meta operations that copy the regions. -/
def copyRegions (regions : List (List Op)) : State :=
  regions.foldl (fun s ops => ops.foldl (runOp d qf) s) s

/-- `n` decodes. -/
def repeatDecode (f : State → State) (s : State) : ℕ → State
  | 0 => s
  | n + 1 => repeatDecode f (f s) n

/-- The format is emulated and the queue can decode it. -/
def Image.decodes (i : Image) : Bool := i.emulation ≠ .native ∧ qf ≠ .transfer

/-- The part of `radv_CmdCopyBufferToImage2` in the decode window. `orderBits` is what
`radv_src_access_flush` and `radv_dst_access_flush` give for the copy. -/
def copyBufferToImageBody (dst : Image) (orderBits : Flags) (regions : List (List Op)) (s : State) : State :=
  let s := if dst.bcAlias ∧ qf ≠ .transfer then s else copyRegions d qf s regions
  if dst.decodes qf then
    let s := if dst.bcAlias then s else s.orFlush (syncCs ||| syncPs ||| orderBits)
    let s := repeatDecode (if dst.bcAlias then bcDecode d qf else decodeRegion d qf dst) s regions.length
    if dst.emulation = .bc then metaDecodeBcFlush d s dst else s
  else s

/-- `radv_CmdCopyBufferToImage2`. -/
def copyBufferToImage (dst : Image) (orderBits : Flags) (regions : List (List Op)) : State :=
  let s := suspendQueries s
  let s :=
    if dst.decodes qf then s.window (copyBufferToImageBody d qf dst orderBits regions)
    else copyBufferToImageBody d qf dst orderBits regions s
  resumeQueries s

/-- `radv_CmdCopyMemoryToImageKHR`, and `radv_CmdCopyImage2`, where `skipDecode` says that both
images are aliased. -/
def copyToImage (dst : Image) (skipDecode : Bool) (orderBits : Flags) (regions : List (List Op)) :
    State :=
  let s := suspendQueries s
  let s := copyRegions d qf s regions
  let s :=
    if dst.decodes qf then
      let s := s.orFlush (syncCs ||| syncPs ||| orderBits)
      let s := repeatDecode (if dst.emulation = .bc ∧ skipDecode then id
        else decodeRegion d qf dst) s regions.length
      if dst.emulation = .bc then metaDecodeBcFlush d s dst else s
    else s
  resumeQueries s

/-! ## Commands -/

inductive Cmd
  | op (o : Op)
  /-- a pipeline statistics query begins or ends -/
  | beginQuery
  | endQuery
  | copyBufferToImage (dst : Image) (orderBits : Flags) (regions : List (List Op))
  | copyMemoryToImage (dst : Image) (orderBits : Flags) (regions : List (List Op))
  | copyImage (srcAlias : Bool) (dst : Image) (orderBits : Flags) (regions : List (List Op))
  /-- `radv_EndCommandBuffer`; the bits are those of queries, images and GDS -/
  | endCommandBuffer (bits : Flags)

def runCmd : Cmd → State
  | .op o => runOp d qf s o
  | .beginQuery => updateHwPipelinestat { s with numPipelineStat := s.numPipelineStat + 1 }
  | .endQuery => updateHwPipelinestat { s with numPipelineStat := s.numPipelineStat - 1 }
  | .copyBufferToImage dst orderBits regions => copyBufferToImage d qf s dst orderBits regions
  | .copyMemoryToImage dst orderBits regions => copyToImage d qf s dst false orderBits regions
  | .copyImage srcAlias dst orderBits regions =>
    copyToImage d qf s dst (dst.bcAlias && srcAlias) orderBits regions
  | .endCommandBuffer bits =>
    (if qf ≠ .transfer then emitCacheFlush d qf (s.orFlush (bits ||| syncCpDma))
      else s).emit .endCommandBuffer

/-- A copy has at least one region, and all operations are allowed on the queue. -/
def Cmd.valid : Cmd → Bool
  | .op o => o.allowed qf
  | .copyBufferToImage _ _ regions | .copyMemoryToImage _ _ regions | .copyImage _ _ _ regions =>
    !regions.isEmpty && regions.all fun ops => ops.all fun o => o.allowed qf
  | _ => true

/-- Recording a command. -/
def Step (c : Cmd) (s' : State) : Prop := c.valid qf = true ∧ s' = runCmd d qf s c

end

end RadvXclipse.CmdBuffer
