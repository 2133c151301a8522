import RadvXclipse.Winsys.Cs

/-!
# Submitting command streams

The submission side of `radv_amdgpu_cs.c`. A request with more IBs than the kernel takes at once is
split into several kernel submissions (`submitLoop`), each with its own preambles and postambles;
`csSubmit` turns one of them into the chunks of the `AMDGPU_CS` ioctl. What the system decides about
a kernel submission (allocations, the pacing of `radv_xclipse_pace_begin`, the answer of the kernel)
is its `Env`. The contents of the fence and buffer-list chunks are left out.
-/

namespace RadvXclipse.RadvAmdgpu

open Util

/-! ## IBs -/

/-- `RADV_MAX_IBS_PER_SUBMIT`. -/
def maxIbsPerSubmit : ℕ := 192

/-- `AMDGPU_IB_FLAG_PREEMPT`. -/
def ibFlagPreempt : BitVec 32 := 1 <<< 2
/-- `AMDGPU_IB_FLAGS_SECURE`. -/
def ibFlagsSecure : BitVec 32 := 1 <<< 5

/-- `struct radv_amdgpu_cs_ib_info`. -/
structure IbInfo where
  flags : BitVec 32
  ipType : IpType
  ibMcAddress : BitVec 64
  size : ℕ
deriving DecidableEq

/-- `radv_amdgpu_cs_ib_to_info`. -/
def csIbToInfo (cs : Cs) (ib : Ib) : IbInfo := ⟨0, cs.hwIp, ib.va, ib.cdw⟩

/-- `radv_amdgpu_submitted_ibs_per_cs`. -/
def submittedIbsPerCs (cs : Cs) : ℕ := if cs.chainIb then 1 else cs.ibBuffers.length

/-- The arguments of `radv_amdgpu_winsys_cs_submit_internal`. -/
structure SubmitInfo where
  csArray : List Cs
  initialPreamble : List Cs
  continuePreamble : List Cs
  postamble : List Cs
  usesShadowRegs : Bool
  secure : Bool

section Split

/- The request, and `ws->info.max_submitted_ibs`. -/
variable (r : SubmitInfo) (maxIbPerIp : IpType → ℕ)

/-- `request.ip_type`: the last stream is the gang leader. -/
def SubmitInfo.ipType : IpType := (r.csArray.getLast?.map Cs.hwIp).getD .gfx

/-- `radv_amdgpu_count_submitted_ibs`. -/
def SubmitInfo.countSubmittedIbs : ℕ :=
  max r.initialPreamble.length r.continuePreamble.length + (r.csArray.map submittedIbsPerCs).sum +
    r.postamble.length

/-- `ib_array_size`. -/
def SubmitInfo.ibArraySize : ℕ := min maxIbsPerSubmit r.countSubmittedIbs

/-- The IB of a secure submission. -/
def SubmitInfo.markSecure (ib : IbInfo) : IbInfo :=
  if r.secure ∧ (ib.ipType = .gfx ∨ ib.ipType = .sdma) then { ib with flags := ib.flags ||| ibFlagsSecure }
  else ib

/-- The IB of a stream that is not a preamble or a postamble. -/
def SubmitInfo.markMain (ib : IbInfo) : IbInfo :=
  r.markSecure (if r.usesShadowRegs ∧ ib.ipType = .gfx then { ib with flags := ib.flags ||| ibFlagPreempt }
    else ib)

/-- `cs->ib_buffers[k]`. -/
def Cs.ibBufferAt (cs : Cs) (k : ℕ) : Ib := cs.ibBuffers.getD k ⟨0, 0, 0⟩

/-- The counters of the split: `cs_idx`, `cs_ib_idx`, `ibs` and `ibs_per_ip`. -/
structure Split where
  csIdx : ℕ
  csIbIdx : ℕ
  ibs : List IbInfo
  ibsPerIp : IpType → ℕ

/-- `ibs[num_submitted_ibs++] = ib; ibs_per_ip[cs->hw_ip]++;` -/
def Split.push (s : Split) (cs : Cs) (ib : IbInfo) : Split :=
  { s with
    ibs := s.ibs ++ [ib]
    ibsPerIp := Function.update s.ibsPerIp cs.hwIp (s.ibsPerIp cs.hwIp + 1) }

/-- A stream can start in the current submission, together with its leader if it is a follower. -/
def SubmitInfo.startOk (ibPerSubmit i : ℕ) (s : Split) (cs : Cs) : Bool :=
  let csNumIb := submittedIbsPerCs cs
  if i + csNumIb > ibPerSubmit ∨ s.ibsPerIp cs.hwIp + csNumIb > maxIbPerIp cs.hwIp then false
  else if cs.hwIp ≠ r.ipType then
    match r.csArray[s.csIdx + 1]? with
    | some next =>
      let nextCsNumIb := submittedIbsPerCs next
      ¬ (i + csNumIb + nextCsNumIb > ibPerSubmit ∨
        s.ibsPerIp next.hwIp + nextCsNumIb > maxIbPerIp next.hwIp)
    | none => false
  else true

/-- The next IB of the current stream goes into the submission. -/
def SubmitInfo.takeIb (s : Split) (cs : Cs) : Split :=
  if cs.chainIb then
    { s.push cs (r.markMain (csIbToInfo cs (cs.ibBufferAt 0))) with csIdx := s.csIdx + 1 }
  else
    let t := s.push cs (r.markMain (csIbToInfo cs (cs.ibBufferAt s.csIbIdx)))
    if s.csIbIdx + 1 = cs.ibBuffers.length then { t with csIdx := s.csIdx + 1, csIbIdx := 0 }
    else { t with csIbIdx := s.csIbIdx + 1 }

/-- The loop over the main IBs from `i` on, `left` of them at most. -/
def SubmitInfo.mainLoop (ibPerSubmit : ℕ) : ℕ → ℕ → Split → Split
  | 0, _, s => s
  | left + 1, i, s =>
    match r.csArray[s.csIdx]? with
    | some cs =>
      if s.csIbIdx = 0 ∧ ¬ r.startOk maxIbPerIp ibPerSubmit i s cs then s
      else mainLoop ibPerSubmit left (i + 1) (r.takeIb s cs)
    | none => s

/-- `preambles` and `preamble_count`. -/
def SubmitInfo.preambles (csIdx : ℕ) : List Cs :=
  if csIdx ≠ 0 then r.continuePreamble else r.initialPreamble

/-- `ib_per_submit`. -/
def SubmitInfo.ibPerSubmit (csIdx : ℕ) : ℕ :=
  sub32 (sub32 maxIbsPerSubmit (r.preambles csIdx).length) r.postamble.length

def SubmitInfo.pushPreamble (s : Split) (cs : Cs) : Split :=
  s.push cs (r.markSecure (csIbToInfo cs (cs.ibBufferAt 0)))

def pushPostamble (s : Split) (cs : Cs) : Split := s.push cs (csIbToInfo cs (cs.ibBufferAt 0))

/-- One iteration of the loop, up to `radv_amdgpu_cs_submit`. -/
def SubmitInfo.splitOnce (csIdx csIbIdx : ℕ) : Split :=
  let s := (r.preambles csIdx).foldl r.pushPreamble ⟨csIdx, csIbIdx, [], fun _ => 0⟩
  let s := r.mainLoop maxIbPerIp (r.ibPerSubmit csIdx) (r.ibPerSubmit csIdx) 0 s
  r.postamble.foldl pushPostamble s

end Split

/-! ## Semaphores and chunks -/

/-- `struct drm_amdgpu_cs_chunk_syncobj`. -/
structure Syncobj where
  handle : ℕ
  flags : ℕ
  point : ℕ
deriving DecidableEq

/-- `struct radv_winsys_sem_counts`: `timeline` are the timeline syncobjs with their points. -/
structure SemCounts where
  syncobj : List ℕ
  timeline : List (ℕ × ℕ)

/-- `struct radv_winsys_sem_info`. -/
structure SemInfo where
  wait : SemCounts
  signal : SemCounts
  csEmitWait : Bool
  csEmitSignal : Bool

/-- A chunk of a kernel submission, by its `chunk_id`. -/
inductive Chunk
  | ib (info : IbInfo)
  | fence
  | syncobjIn (handles : List ℕ)
  | syncobjOut (handles : List ℕ)
  | timelineWait (l : List Syncobj)
  | timelineSignal (l : List Syncobj)
  | boHandles
deriving DecidableEq

/-- `DRM_SYNCOBJ_WAIT_FLAGS_WAIT_FOR_SUBMIT`. -/
def waitForSubmit : ℕ := 1 <<< 1

/-- `radv_amdgpu_cs_alloc_syncobj_chunk`. -/
def csAllocSyncobjChunk (counts : SemCounts) (queueSyncobj : ℕ) : List ℕ :=
  counts.syncobj ++ if queueSyncobj ≠ 0 then [queueSyncobj] else []

/-- `radv_amdgpu_cs_alloc_timeline_syncobj_chunk`. -/
def csAllocTimelineSyncobjChunk (counts : SemCounts) (queueSyncobj paceSyncobj pacePoint : ℕ) :
    List Syncobj :=
  counts.syncobj.map (⟨·, 0, 0⟩) ++ (counts.timeline.map fun t => ⟨t.1, waitForSubmit, t.2⟩) ++
    (if queueSyncobj ≠ 0 then [⟨queueSyncobj, 0, 0⟩] else []) ++
    if paceSyncobj ≠ 0 then [⟨paceSyncobj, 0, pacePoint⟩] else []

/-- The results of a submission. -/
inductive SubmitResult
  | success | errorOutOfHostMemory | errorDeviceLost | errorUnknown
deriving DecidableEq

/-- What the system decides about one kernel submission: the queue syncobj, whether there is a user
fence, the pacing, the allocations, and the answer of the kernel after the retries. -/
structure Env where
  queueSyncobj : ℕ
  hasUserFence : Bool
  paceSyncobj : ℕ
  paceWait : ℕ
  paceSignal : ℕ
  mallocChunks : Bool
  mallocWait : Bool
  mallocSignal : Bool
  answer : SubmitResult

/-- `sem_info`, `ctx->queue_syncobj_wait` and the kernel submissions so far. -/
structure Ctx where
  sem : SemInfo
  queueSyncobjWait : Bool
  submissions : List (List Chunk)

section Submit

/- `ws->info.has_timeline_syncobj`. -/
variable (hasTimeline : Bool)

/-- `radv_amdgpu_cs_submit` attaches the wait semaphores. -/
def Ctx.emitsWait (c : Ctx) : Bool :=
  c.sem.csEmitWait ∧ (c.sem.wait.timeline ≠ [] ∨ c.sem.wait.syncobj ≠ [] ∨ c.queueSyncobjWait)

def Ctx.waitChunk (c : Ctx) (e : Env) : Chunk :=
  let queueWaitSyncobj := if c.queueSyncobjWait then e.queueSyncobj else 0
  if hasTimeline then .timelineWait (csAllocTimelineSyncobjChunk c.sem.wait queueWaitSyncobj 0 0)
  else .syncobjIn (csAllocSyncobjChunk c.sem.wait queueWaitSyncobj)

def Ctx.signalChunk (c : Ctx) (e : Env) : Chunk :=
  if hasTimeline then
    .timelineSignal (csAllocTimelineSyncobjChunk c.sem.signal e.queueSyncobj e.paceSyncobj e.paceSignal)
  else .syncobjOut (csAllocSyncobjChunk c.sem.signal e.queueSyncobj)

/-- `sem_info->cs_emit_wait = false; *queue_syncobj_wait = false;` -/
def Ctx.waitEmitted (c : Ctx) : Ctx :=
  { c with sem := { c.sem with csEmitWait := false }, queueSyncobjWait := false }

/-- The chunks of a kernel submission. -/
def Ctx.chunks (c : Ctx) (e : Env) (ibs : List IbInfo) : List Chunk :=
  ibs.map .ib ++ (if e.hasUserFence then [.fence] else []) ++
    (if c.emitsWait then [c.waitChunk hasTimeline e] else []) ++
    (if e.paceWait ≠ 0 then [.timelineWait [⟨e.paceSyncobj, 0, e.paceWait⟩]] else []) ++
    (if c.sem.csEmitSignal then [c.signalChunk hasTimeline e] else []) ++ [.boHandles]

/-- `radv_amdgpu_cs_submit`. -/
def csSubmit (e : Env) (c : Ctx) (ibs : List IbInfo) : SubmitResult × Ctx :=
  if e.queueSyncobj = 0 then (.errorOutOfHostMemory, c)
  else if ¬ e.mallocChunks then (.errorOutOfHostMemory, c)
  else if c.emitsWait ∧ ¬ e.mallocWait then (.errorOutOfHostMemory, c)
  else
    let c' := if c.emitsWait then c.waitEmitted else c
    if c.sem.csEmitSignal ∧ ¬ e.mallocSignal then (.errorOutOfHostMemory, c')
    else (e.answer, { c' with submissions := c'.submissions ++ [c.chunks hasTimeline e ibs] })

variable (r : SubmitInfo) (maxIbPerIp : IpType → ℕ) (env : ℕ → Env)

/-- The loop of `radv_amdgpu_winsys_cs_submit_internal`, `none` if it needs more than the given
number of iterations. `n` counts the kernel submissions. -/
def submitLoop : ℕ → ℕ → ℕ → ℕ → Ctx → Option (SubmitResult × Ctx)
  | 0, _, _, _, _ => none
  | fuel + 1, n, csIdx, csIbIdx, c =>
    if csIdx < r.csArray.length then
      let s := r.splitOnce maxIbPerIp csIdx csIbIdx
      match csSubmit hasTimeline (env n) c s.ibs with
      | (.success, c) => submitLoop fuel (n + 1) s.csIdx s.csIbIdx c
      | (e, c) => some (e, c)
    else some (.success, c)

/-- `radv_amdgpu_winsys_cs_submit_internal`; `boList` is the result of `radv_amdgpu_get_bo_list`. -/
def winsysCsSubmitInternal (boList : SubmitResult) (fuel : ℕ) (c : Ctx) : Option (SubmitResult × Ctx) :=
  if boList ≠ .success then some (boList, c) else submitLoop hasTimeline r maxIbPerIp env fuel 0 0 0 c

/-- A wait or signal operation of the application: `none` is `vk_sync_dummy_type`, else the syncobj
and the value. -/
abbrev VkSync := Option (ℕ × ℕ)

/-- The syncobjs of `radv_amdgpu_winsys_cs_submit`. -/
def semCounts (syncs : List VkSync) : SemCounts :=
  let l := syncs.filterMap id
  if hasTimeline then ⟨[], l⟩ else ⟨l.map Prod.fst, []⟩

/-- `sem_info` of `radv_amdgpu_winsys_cs_submit`. -/
def semInfo (waits signals : List VkSync) : SemInfo :=
  ⟨semCounts hasTimeline waits, semCounts hasTimeline signals, true, true⟩

/-- `radv_amdgpu_winsys_cs_submit` of at least one stream. -/
def winsysCsSubmit (waits signals : List VkSync) (queueSyncobjWait : Bool) (boList : SubmitResult)
    (fuel : ℕ) : Option (SubmitResult × Ctx) :=
  winsysCsSubmitInternal hasTimeline r maxIbPerIp env boList fuel
    ⟨semInfo hasTimeline waits signals, queueSyncobjWait, []⟩

end Submit

end RadvXclipse.RadvAmdgpu
