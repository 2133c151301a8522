import RadvXclipse.Lib.Run
import RadvXclipse.Winsys.Submit

/-!
# Pacing of graphics submissions

`radv_xclipse_pace_begin`, `radv_xclipse_pace_end` and their use in `radv_amdgpu_cs_submit`. A
graphics job signals the next point of a timeline syncobj of its ring; a job that comes while the
last but one is still running also waits for the point of that job.

The clock, the fence poll, the syncobj creation and the answer of the kernel are arguments of a job,
so a run is over every sequence of them. The log of the submissions is only there to state what
holds.
-/

namespace RadvXclipse.RadvAmdgpu

open Lib Util

/-- `MAX_RINGS_PER_TYPE`. -/
def maxRingsPerType : ℕ := 8

/-- `RADV_XCLIPSE_PACE_MIN_NS`. -/
def paceMinNs : ℕ := 500000

/-- `struct radv_xclipse_pace`. -/
structure Pace where
  syncobj : ℕ
  count : ℕ
  seq : ℕ → ℕ
  lastNs : ℕ
  avgNs : ℕ

/-- What the system answers during `radv_xclipse_pace_begin`: the setting, the handle of a new
syncobj (`none` if it cannot be created), the clock, and the result of the poll with the value it
writes. -/
structure PaceCall where
  pace : ℤ
  createSyncobj : Option ℕ
  now : ℕ
  query : ℤ
  expired : ℕ

/-- What `radv_xclipse_pace_begin` hands back. `polled` is the sequence number it polls. -/
structure PaceOut where
  syncobj : ℕ
  wait : ℕ
  signal : ℕ
  polled : Option ℕ

/-- Nothing is paced. -/
def PaceOut.off : PaceOut := ⟨0, 0, 0, none⟩

section Begin

/- `submit_pacing` of the chip and `ws->info.has_timeline_syncobj`. -/
variable (submitPacing hasTimeline : Bool)

/-- `radv_xclipse_pace_mode`. -/
def paceMode (pace : ℤ) : ℤ := if ¬ submitPacing ∨ ¬ hasTimeline then 0 else pace

/-- The syncobj of the ring, created by the first job. -/
def Pace.acquire (p : Pace) (e : PaceCall) : Option ℕ :=
  if p.syncobj ≠ 0 then some p.syncobj else e.createSyncobj

/-- The mean submit interval, idle gaps clamped. -/
def Pace.measure (p : Pace) (now : ℕ) : Pace :=
  let dt := min (sub64 now p.lastNs) 100000000
  { p with avgNs := add64 (sub64 p.avgNs (p.avgNs / 8)) (dt / 8), lastNs := now }

/-- The end of `radv_xclipse_pace_begin`: the poll, the wait point and the signal point. -/
def Pace.points (p : Pace) (minNs : ℕ) (e : PaceCall) : PaceOut :=
  let poll := 2 ≤ p.count ∧ minNs ≤ p.avgNs
  { syncobj := p.syncobj
    wait := if poll ∧ e.query = 0 ∧ e.expired = 0 then sub64 p.count 1 else 0
    signal := add64 p.count 1
    polled := if poll then some (p.seq (sub64 p.count 1 &&& 1)) else none }

/-- `radv_xclipse_pace_begin`. -/
def paceBegin (ipType : IpType) (ring : ℕ) (p : Pace) (e : PaceCall) : Pace × PaceOut :=
  if ipType ≠ .gfx ∨ maxRingsPerType ≤ ring then (p, .off)
  else
    let mode := paceMode submitPacing hasTimeline e.pace
    if mode = 0 then (p, .off)
    else
      let minNs := if 2 ≤ mode then 0 else paceMinNs
      match p.acquire e with
      | none => ({ p with syncobj := 0 }, .off)
      | some handle =>
        let p := { p with syncobj := handle }.measure e.now
        if p.avgNs < minNs / 2 then (p, .off) else (p, p.points minNs e)

end Begin

/-- `radv_xclipse_pace_end`. -/
def paceEnd (p : Pace) (seqNo signalPoint : ℕ) : Pace :=
  { p with seq := Function.update p.seq (signalPoint &&& 1) seqNo, count := signalPoint }

/-- A call of `radv_amdgpu_cs_submit` with all that the system decides about it. The pacing fields
of `env` are those of `radv_xclipse_pace_begin`. -/
structure Job where
  ipType : IpType
  ring : ℕ
  sem : SemInfo
  queueSyncobjWait : Bool
  ibs : List IbInfo
  env : Env
  call : PaceCall
  seqNo : ℕ

/-- `cs_emit_signal` is always set (the assertion of `radv_amdgpu_cs_submit`), and the kernel never
gives out the handle 0. -/
structure Job.Ok (j : Job) : Prop where
  emitSignal : j.sem.csEmitSignal = true
  handle : ∀ h, j.call.createSyncobj = some h → h ≠ 0

/-- A submission of the log. -/
structure Submission where
  ring : ℕ
  out : PaceOut
  seqNo : ℕ
  result : SubmitResult
  chunks : List Chunk

/-- The submission was accepted and carries a pace point. -/
def Submission.signals (o : Submission) (ring : ℕ) : Bool :=
  o.ring = ring ∧ o.result = .success ∧ o.out.syncobj ≠ 0

/-- `ctx->xclipse_pace` and the log. -/
structure PaceSystem where
  pace : ℕ → Pace
  log : List Submission

/-- A new context. -/
def PaceSystem.init : PaceSystem := ⟨fun _ => ⟨0, 0, fun _ => 0, 0, 0⟩, []⟩

/-- The accepted jobs of a ring with a pace point, in order. -/
def PaceSystem.points (s : PaceSystem) (ring : ℕ) : List Submission := s.log.filter (·.signals ring)

section Submit

variable (submitPacing hasTimeline : Bool)

variable (s : PaceSystem)

/-- The pacing of a job. The queue syncobj is looked up before. -/
def PaceSystem.begin (j : Job) : Pace × PaceOut :=
  if j.env.queueSyncobj = 0 then (s.pace j.ring, .off)
  else paceBegin submitPacing hasTimeline j.ipType j.ring (s.pace j.ring) j.call

/-- The rest of `radv_amdgpu_cs_submit`, up to the answer of the kernel. -/
def Job.submit (j : Job) (out : PaceOut) : SubmitResult × Ctx :=
  csSubmit hasTimeline
    { j.env with paceSyncobj := out.syncobj, paceWait := out.wait, paceSignal := out.signal }
    ⟨j.sem, j.queueSyncobjWait, []⟩ j.ibs

/-- The entry that a job leaves in the log. -/
def PaceSystem.submission (j : Job) : Submission :=
  let out := (s.begin submitPacing hasTimeline j).2
  let r := j.submit hasTimeline out
  ⟨j.ring, out, j.seqNo, r.1, r.2.submissions.flatten⟩

/-- `radv_amdgpu_cs_submit`. -/
def PaceSystem.csSubmit (j : Job) : PaceSystem :=
  let p := (s.begin submitPacing hasTimeline j).1
  let o := s.submission submitPacing hasTimeline j
  let p := if o.result = .success ∧ o.out.signal ≠ 0 then paceEnd p j.seqNo o.out.signal else p
  ⟨Function.update s.pace j.ring p, s.log ++ [o]⟩

/-- The steps of a context. -/
def PaceStep (j : Job) (s' : PaceSystem) : Prop :=
  j.Ok ∧ s.csSubmit submitPacing hasTimeline j = s'

end Submit

end RadvXclipse.RadvAmdgpu
