import RadvXclipse.Lib.Run
import RadvXclipse.Winsys.BoCache

/-!
# Threads that create, destroy and tear down

The interleavings of the code of `radv_amdgpu_bo.c` and of `radv_amdgpu_winsys_destroy`. `handedOut`
are the BOs that callers hold. A BO that a call under way works on is in its `Call`: it has been
taken from whoever had it before and is not anywhere else yet.
-/

namespace RadvXclipse.BoCache

open Lib Util

/-- Where a teardown is: in a purge, the one of `begin_destroy` or the last one of `end_destroy`,
with the number of entries it has taken so far; between the two; or before the marker is cleared. -/
inductive Point
  | purge (last : Bool) (iter : ℕ)
  | releasing
  | ending
deriving DecidableEq

/-- The life of a winsys. While its teardown destroys a BO it is `busy`. -/
inductive Stage
  | alive
  | running (p : Point)
  | busy
  | dead
deriving DecidableEq

/-- A call under way. `ret` is where the teardown of `ws` goes on, if it is the caller. -/
inductive Call
  /-- `radv_amdgpu_winsys_bo_create` that found no parked BO -/
  | create (ws : WsId) (r : Request)
  /-- `radv_amdgpu_winsys_virtual_bo_create` -/
  | createVirtual (ws : WsId) (r : Request)
  /-- `radv_amdgpu_winsys_bo_create` after the kernel has allocated the BO -/
  | map (ws : WsId) (b : BoId)
  /-- `radv_amdgpu_winsys_bo_destroy` -/
  | destroy (ws : WsId) (b : BoId) (ret : Option Point)
  /-- `radv_amdgpu_winsys_bo_destroy` after the cache has refused the BO -/
  | free (ws : WsId) (b : BoId) (ret : Option Point)
deriving DecidableEq

def Call.ws : Call → WsId
  | .create ws _ => ws
  | .createVirtual ws _ => ws
  | .map ws _ => ws
  | .destroy ws _ _ => ws
  | .free ws _ _ => ws

/-- The BO a call works on. -/
def Call.held : Call → List BoId
  | .create _ _ => []
  | .createVirtual _ _ => []
  | .map _ b => [b]
  | .destroy _ b _ => [b]
  | .free _ b _ => [b]

/-- Where the teardown goes on after the call, if it is the caller. -/
def Call.ret : Call → Option Point
  | .create _ _ => none
  | .createVirtual _ _ => none
  | .map _ _ => none
  | .destroy _ _ ret => ret
  | .free _ _ ret => ret

structure Sys where
  proc : Process
  handedOut : List BoId
  calls : List Call
  stage : WsId → Stage

inductive Label
  /-- `radv_amdgpu_winsys_bo_create` up to the search for a parked BO -/
  | create (ws : WsId) (r : Request) (sysfs : Option ℕ)
  /-- `radv_amdgpu_winsys_bo_destroy` is called -/
  | destroy (ws : WsId) (b : BoId)
  /-- a call makes its next step; `ok` is the answer of the kernel -/
  | advance (c : Call) (ok : Bool)
  /-- `radv_xclipse_ibcache_winsys_begin_destroy` sets the marker -/
  | beginDestroy (ws : WsId)
  /-- one locked search of `radv_xclipse_ibcache_purge_ws` -/
  | purge (ws : WsId)
  /-- `radv_amdgpu_winsys_destroy` destroys a BO the winsys still has -/
  | release (ws : WsId) (b : BoId)
  /-- `radv_xclipse_ibcache_winsys_end_destroy` is called -/
  | endDestroy (ws : WsId)
  /-- `radv_xclipse_ibcache_winsys_end_destroy` clears the marker -/
  | clearMarker (ws : WsId)

section Steps

/- The configuration of the winsyses, and the size up to which the kernel can allocate a BO. -/
variable (W : WsId → Winsys) (maxSize : ℕ)

def Sys.setStage (s : Sys) (ws : WsId) (st : Stage) : Sys :=
  { s with stage := Function.update s.stage ws st }

/-- `radv_amdgpu_winsys_bo_destroy` returns to its caller. -/
def Sys.ret (s : Sys) (ws : WsId) (ret : Option Point) : Sys :=
  match ret with
  | some p => s.setStage ws (.running p)
  | none => s

/-- The first part of `radv_amdgpu_winsys_bo_create`. -/
def Sys.create (s : Sys) (ws : WsId) (r : Request) (sysfs : Option ℕ) : Sys :=
  if has r.flags flagVirtual then { s with calls := .createVirtual ws r :: s.calls }
  else if memguardReject s.proc (W ws) r.size sysfs then s
  else if r.replayAddress = 0 then
    match ibcacheReuse s.proc (W ws) ws r.size r.alignment r.domain r.flags with
    | (some b, p) =>
      { s with
        proc := { p with bo := Function.update p.bo b { p.bo b with priority := r.priority } }
        handedOut := b :: s.handedOut }
    | (none, _) => { s with calls := .create ws r :: s.calls }
  else { s with calls := .create ws r :: s.calls }

/-- The next step of a call, which is not in `calls` any more. -/
def Sys.advance (s : Sys) (c : Call) (ok : Bool) : Sys :=
  match c with
  | .create ws r =>
    if ok then
      { s with proc := s.proc.addBo (newBo (W ws) r), calls := .map ws s.proc.nextBo :: s.calls }
    else s
  | .createVirtual _ r =>
    if ok then
      { s with proc := s.proc.addBo (newVirtualBo r), handedOut := s.proc.nextBo :: s.handedOut }
    else s
  | .map ws b =>
    if ok then
      { s with proc := trackBo s.proc (W ws) (s.proc.bo b) add64, handedOut := b :: s.handedOut }
    else { s with proc := { s.proc with freed := b :: s.proc.freed } }
  | .destroy ws b ret =>
    match ibcachePark s.proc ws b (s.proc.bo b).xclipseAlignment with
    | (true, p) => { s with proc := p }.ret ws ret
    | (false, p) => { s with proc := p, calls := .free ws b ret :: s.calls }
  | .free ws b ret => { s with proc := boFree s.proc (W ws) b }.ret ws ret

/-- The answers the kernel can give. -/
def Call.canAnswer : Call → Bool → Bool
  | .create _ r, true => r.size ≤ maxSize
  | _, _ => true

/-- `radv_xclipse_ibcache_winsys_begin_destroy` up to the purge. -/
def Sys.beginDestroy (s : Sys) (ws : WsId) : Sys :=
  { s with proc := { s.proc with dying := some ws } }.setStage ws (.running (.purge false 0))

/-- One search of the purge loop. -/
def Sys.purge (s : Sys) (ws : WsId) (last : Bool) (iter : ℕ) : Sys :=
  match ibcacheTake s.proc fun e => e.ws = ws with
  | (some b, p) =>
    { s with proc := p, calls := .destroy ws b (some (.purge last (iter + 1))) :: s.calls }.setStage ws .busy
  | (none, _) => s.setStage ws (.running (if last then .ending else .releasing))

/-- The steps of the system, where they are possible. -/
def Sys.step (s : Sys) : Label → Option Sys
  | .create ws r sysfs => some (s.create W ws r sysfs)
  | .destroy ws b =>
    if b ∈ s.handedOut then
      some { s with handedOut := s.handedOut.erase b, calls := .destroy ws b none :: s.calls }
    else none
  | .advance c ok =>
    if c ∈ s.calls ∧ Call.canAnswer maxSize c ok then
      some ({ s with calls := s.calls.erase c }.advance W c ok)
    else none
  | .beginDestroy ws =>
    if s.stage ws = .alive then some (s.beginDestroy ws) else none
  | .purge ws =>
    match s.stage ws with
    | .running (.purge last iter) => some (s.purge ws last iter)
    | _ => none
  | .release ws b =>
    if s.stage ws = .running .releasing ∧ b ∈ s.handedOut then
      some ({ s with
        handedOut := s.handedOut.erase b
        calls := .destroy ws b (some .releasing) :: s.calls }.setStage ws .busy)
    else none
  | .endDestroy ws =>
    if s.stage ws = .running .releasing then some (s.setStage ws (.running (.purge true 0))) else none
  | .clearMarker ws =>
    if s.stage ws = .running .ending then
      some ({ s with
        proc := { s.proc with dying := if s.proc.dying = some ws then none else s.proc.dying }
        }.setStage ws .dead)
    else none

def Step (s : Sys) (l : Label) (s' : Sys) : Prop := s.step W maxSize l = some s'

end Steps

/-- No winsys has created a BO yet. -/
def Sys.init (tracker : ℕ → Tracker) : Sys :=
  { proc :=
      { ibcache := [], ibcacheBytes := 0, dying := none,
        bo := fun _ => ⟨false, false, 0, 0, 0, false, false, 0, 0, false⟩,
        nextBo := 0, freed := [], tracker := tracker }
    handedOut := [], calls := [], stage := fun _ => .alive }

end RadvXclipse.BoCache
