import Mathlib.Data.List.Basic

/-!
# Queue submissions of the common runtime

A call of `vkQueueSubmit2` or `vkQueueBindSparse` turns each of its batches into a
`vk_queue_submit`, merges consecutive ones where it can, and hands the merged submits over, either
directly or to the queue's submit thread. On a device that may use submit threads the payload of
every binary semaphore that was waited on has to be unsignalled on the way, because other threads
look at it to learn whether their own dependencies have been submitted.

Every call that leaves this code (an allocation, a wait, the driver) has its result taken from an
environment, so a statement about every environment is one about every way such calls can end. A
wait or a driver call that does not return is a submission that was never accepted.
-/

namespace RadvXclipse.Queue

inductive VkResult
  | success | timeout | errorOutOfHostMemory | errorDeviceLost | errorUnknown
deriving DecidableEq, Repr

/-- The identity of a `vk_sync`: one that existed before the call, or a temporary that the call
itself created. -/
inductive SyncId
  | existing (n : ℕ)
  | waitTemp (n : ℕ)
deriving DecidableEq, Repr

/-- `struct vk_sync`, with the flags and the part of its type that submission looks at. -/
structure Sync where
  id : SyncId
  isTimeline : Bool := false
  isShared : Bool := false
  isDummy : Bool := false
deriving DecidableEq, Repr

inductive SemaphoreType
  | binary | timeline
deriving DecidableEq, Repr

/-- `struct vk_semaphore`. A semaphore's own payload is a timeline exactly for timeline semaphores,
and only binary semaphores can have a temporary payload. On a device with submit threads a permanent
binary payload has a `move` operation, which the dummy type lacks. -/
structure Semaphore where
  type : SemaphoreType
  permanent : Sync
  temporary : Option Sync
  permanent_existing : ∃ n, permanent.id = .existing n
  permanent_isTimeline : permanent.isTimeline = true ↔ type = .timeline
  permanent_move : permanent.isDummy = false
  temporary_binary : temporary.isSome → type = .binary

/-- The semaphore after its temporary payload was taken. -/
def Semaphore.steal (s : Semaphore) : Semaphore where
  type := s.type
  permanent := s.permanent
  temporary := none
  permanent_existing := s.permanent_existing
  permanent_isTimeline := s.permanent_isTimeline
  permanent_move := s.permanent_move
  temporary_binary h := absurd h Bool.false_ne_true

/-- `vk_semaphore_get_active_sync` -/
def Semaphore.getActiveSync (s : Semaphore) : Sync :=
  s.temporary.getD s.permanent

/-- All semaphores, by handle. -/
abbrev Semaphores := ℕ → Semaphore

/-- `VkSemaphoreSubmitInfo` -/
structure SemaphoreSubmitInfo where
  semaphore : ℕ
  value : ℕ := 0
  stageMask : ℕ := 0
deriving DecidableEq, Repr

/-- `struct vk_sync_wait` together with the entry of `_wait_temps` at the same index. -/
structure Wait where
  sync : Sync
  stageMask : ℕ
  waitValue : ℕ
  temp : Option Sync
deriving DecidableEq, Repr

/-- `struct vk_sync_signal` -/
structure Signal where
  sync : Sync
  stageMask : ℕ
  signalValue : ℕ
deriving DecidableEq, Repr

/-- One sparse bind info: the resource and its bind entries. -/
structure BindInfo where
  resource : ℕ
  binds : List ℕ
deriving DecidableEq, Repr

/-- `struct vk_queue_submit` -/
structure Submit where
  waits : List Wait := []
  commandBuffers : List ℕ := []
  signals : List Signal := []
  bufferBinds : List BindInfo := []
  imageOpaqueBinds : List BindInfo := []
  imageBinds : List BindInfo := []
  perfPassIndex : ℕ := 0
  hasBinaryPermanentSemaphoreWait : Bool := false
  isProtected : Bool := false
deriving DecidableEq, Repr

/-- `struct vulkan_submit_info`, one batch. `perfInfo` is the counter pass index of its `pNext`
chain. -/
structure SubmitInfo where
  perfInfo : Option ℕ := none
  commandBuffers : List ℕ := []
  waits : List SemaphoreSubmitInfo := []
  signals : List SemaphoreSubmitInfo := []
  bufferBinds : List BindInfo := []
  imageOpaqueBinds : List BindInfo := []
  imageBinds : List BindInfo := []
  fence : Option Sync := none
  isProtected : Bool := false
deriving DecidableEq, Repr

/-! ## Batches -/

/-- `vk_queue_submit_add_semaphore_wait` -/
def submitAddSemaphoreWait (st : Semaphores × Submit) (info : SemaphoreSubmitInfo) :
    Semaphores × Submit :=
  let semaphore := st.1 info.semaphore
  let waitValue := if semaphore.type = .timeline then info.value else 0
  match semaphore.temporary with
  | some t =>
    (Function.update st.1 info.semaphore semaphore.steal,
      { st.2 with waits := st.2.waits ++ [⟨t, info.stageMask, waitValue, some t⟩] })
  | none =>
    (st.1,
      { st.2 with
        waits := st.2.waits ++ [⟨semaphore.permanent, info.stageMask, waitValue, none⟩]
        hasBinaryPermanentSemaphoreWait :=
          st.2.hasBinaryPermanentSemaphoreWait || decide (semaphore.type = .binary) })

/-- `vk_queue_submit_add_semaphore_signal` -/
def submitAddSemaphoreSignal (sems : Semaphores) (submit : Submit) (info : SemaphoreSubmitInfo) :
    Except VkResult Submit :=
  let semaphore := sems info.semaphore
  if semaphore.type = .timeline then
    if info.value = 0 then .error .errorDeviceLost
    else .ok { submit with
      signals := submit.signals ++ [⟨semaphore.getActiveSync, info.stageMask, info.value⟩] }
  else .ok { submit with
    signals := submit.signals ++ [⟨semaphore.getActiveSync, info.stageMask, 0⟩] }

/-- `VK_PIPELINE_STAGE_2_ALL_COMMANDS_BIT` -/
def allCommands : ℕ := 0x10000

/-- `vk_queue_submit_add_sync_signal` -/
def submitAddSyncSignal (submit : Submit) (sync : Sync) (signalValue : ℕ) : Submit :=
  { submit with signals := submit.signals ++ [⟨sync, allCommands, signalValue⟩] }

/-- `vk_queue_submit_create` after its allocation: the semaphores it leaves, and the submit. -/
def submitCreate (sems : Semaphores) (info : SubmitInfo) : Except VkResult (Semaphores × Submit) :=
  let submit : Submit :=
    { isProtected := info.isProtected, perfPassIndex := info.perfInfo.getD 0 }
  let st := info.waits.foldl submitAddSemaphoreWait (sems, submit)
  let submit : Submit :=
    { st.2 with
      commandBuffers := info.commandBuffers
      bufferBinds := info.bufferBinds
      imageOpaqueBinds := info.imageOpaqueBinds
      imageBinds := info.imageBinds }
  match info.signals.foldlM (submitAddSemaphoreSignal st.1) submit with
  | .error e => .error e
  | .ok submit =>
    match info.fence with
    | none => .ok (st.1, submit)
    | some fence => .ok (st.1, submitAddSyncSignal submit fence 0)

/-- `vk_queue_submit_has_bind` -/
def Submit.hasBind (s : Submit) : Bool :=
  decide (s.bufferBinds.length > 0) || decide (s.imageOpaqueBinds.length > 0) ||
    decide (s.imageBinds.length > 0)

/-- There is nothing to do and nothing to wait for: no command buffer, no bind, no wait. -/
def Submit.onlySignals (s : Submit) : Bool :=
  s.commandBuffers.isEmpty && s.bufferBinds.isEmpty && s.imageOpaqueBinds.isEmpty &&
    s.imageBinds.isEmpty && s.waits.isEmpty

/-- A submit without any content, a no-op. -/
def Submit.isNoop (s : Submit) : Bool :=
  s.onlySignals && s.signals.isEmpty

/-- `vk_queue_submits_merge`; `alloc` tells whether the merged submit could be allocated. -/
def submitsMerge (alloc : Bool) (first second : Submit) : Option Submit :=
  -- a signal must not move behind later work: see 'Signal operation order'
  if first.signals.length > 0 ∧ second.onlySignals = false then none
  else if first.hasBind ≠ second.hasBind then none
  else if first.perfPassIndex ≠ second.perfPassIndex then none
  else if second.isNoop then some first
  else if first.isNoop then some second
  else if first.isProtected ≠ second.isProtected then none
  else if alloc = false then none
  else some {
    waits := first.waits ++ second.waits
    commandBuffers := first.commandBuffers ++ second.commandBuffers
    signals := first.signals ++ second.signals
    bufferBinds := first.bufferBinds ++ second.bufferBinds
    imageOpaqueBinds := first.imageOpaqueBinds ++ second.imageOpaqueBinds
    imageBinds := first.imageBinds ++ second.imageBinds
    perfPassIndex := first.perfPassIndex
    hasBinaryPermanentSemaphoreWait := first.hasBinaryPermanentSemaphoreWait
    isProtected := first.isProtected }

/-! ## What happens to payloads -/

/-- An operation on the payload of a `vk_sync`. -/
inductive PayloadOp
  /-- The driver signals the payload as part of a submit. -/
  | signal (s : Sync)
  /-- The payload is in the signals of a submit that was put on the queue's list: the submit thread
  has the driver signal it, after everything queued before it. -/
  | enqueueSignal (s : Sync)
  /-- `vk_sync_reset` -/
  | reset (s : Sync)
  /-- `vk_sync_move` -/
  | move (dst src : Sync)
deriving DecidableEq, Repr

/-- Which payloads are signalled, or have a signal operation submitted. -/
abbrev Payloads := Sync → Bool

/-- Payloads after an operation, in submission order: a queued signal counts from when it is
queued. -/
def PayloadOp.apply (p : Payloads) : PayloadOp → Payloads
  | .signal s => Function.update p s true
  | .enqueueSignal s => Function.update p s true
  | .reset s => Function.update p s false
  | .move dst src => Function.update (Function.update p dst (p src)) src false

/-- The operation resets `s`, or moves its payload away. -/
def PayloadOp.unsignals (s : Sync) : PayloadOp → Bool
  | .reset t => t == s
  | .move _ src => src == s
  | _ => false

/-! ## The environment -/

/-- The results of the calls that leave this code, in order. -/
abbrev Env := ℕ → VkResult

/-- How many of those calls were made, and how many temporaries were created. -/
structure Calls where
  made : ℕ := 0
  temps : ℕ := 0
deriving DecidableEq, Repr

/-- A call that has to succeed. -/
def Calls.next (env : Env) (k : Calls) : Except VkResult Calls :=
  if env k.made = .success then .ok { k with made := k.made + 1 } else .error (env k.made)

/-! ## Submitting -/

/-- `enum vk_queue_submit_mode` -/
inductive SubmitMode
  | immediate | deferred | threaded | threadedOnDemand
deriving DecidableEq, Repr

/-- The submits that one call of `vk_queue_submit` accepted, with what it did to payloads. -/
structure Accepted where
  submit : Submit
  ops : List PayloadOp
deriving DecidableEq, Repr

/-- A queue as its client sees it: `submit.mode`, the list `submit.submits`, and the history of
what was accepted. -/
structure Client where
  mode : SubmitMode
  submits : List Submit := []
  calls : Calls := {}
  accepted : List Accepted := []
deriving DecidableEq, Repr

variable (device : SubmitMode)

/-- `vk_device_supports_threaded_submit` -/
def supportsThreadedSubmit : Bool :=
  device == .threaded || device == .threadedOnDemand

/-- Waits that `vk_queue_submit_move_binary_waits_to_temps` leaves where they are. -/
def Wait.staysInPlace (moveNonShared : Bool) (w : Wait) : Bool :=
  w.sync.isTimeline || w.temp.isSome || (!moveNonShared && !w.sync.isShared)

/-- The loop of `vk_queue_submit_move_binary_waits_to_temps`. -/
def moveWaits (env : Env) (moveNonShared : Bool) :
    Calls → List Wait → Except VkResult (Calls × List Wait × List PayloadOp)
  | k, [] => .ok (k, [], [])
  | k, w :: ws =>
    if w.staysInPlace moveNonShared then do
      let (k, ws, ops) ← moveWaits env moveNonShared k ws
      .ok (k, w :: ws, ops)
    else do
      -- vk_sync_wait for a pending payload, vk_sync_create, vk_sync_move
      let k ← k.next env
      let k ← k.next env
      let tmp : Sync := { id := .waitTemp k.temps }
      let k ← Calls.next env { k with temps := k.temps + 1 }
      let (k, ws, ops) ← moveWaits env moveNonShared k ws
      .ok (k, { w with sync := tmp, temp := some tmp } :: ws, .move tmp w.sync :: ops)

/-- `vk_queue_submit_move_binary_waits_to_temps` -/
def submitMoveBinaryWaitsToTemps (env : Env) (moveNonShared : Bool) (k : Calls) (submit : Submit) :
    Except VkResult (Calls × Submit × List PayloadOp) :=
  if submit.hasBinaryPermanentSemaphoreWait then do
    let (k, ws, ops) ← moveWaits env moveNonShared k submit.waits
    .ok (k, { submit with waits := ws }, ops)
  else .ok (k, submit, [])

/-- `vk_sync_wait_unwrap` on a device whose timelines and binary payloads are the kernel's own: a
timeline wait for 0 and a wait for a dummy disappear. -/
def Wait.unwrap (w : Wait) : Option Wait :=
  if w.sync.isTimeline && w.waitValue == 0 then none
  else if w.sync.isDummy then none
  else some w

/-- `vk_queue_submit_final`: trivial waits are compacted away, and the driver signals. -/
def submitFinal (env : Env) (k : Calls) (submit : Submit) :
    Except VkResult (Calls × Submit × List PayloadOp) := do
  let k ← k.next env
  .ok (k, { submit with waits := submit.waits.filterMap Wait.unwrap },
    submit.signals.map fun s => .signal s.sync)

/-- The loop of `vk_queue_submit` that resets what was waited on and is not signalled again. -/
def resetWaits (env : Env) (signals : List Signal) :
    Calls → List Wait → Except VkResult (Calls × List PayloadOp)
  | k, [] => .ok (k, [])
  | k, w :: ws =>
    if w.sync.isTimeline || w.temp.isSome then resetWaits env signals k ws
    else if signals.any (fun s => s.sync == w.sync) then resetWaits env signals k ws
    else do
      let k ← k.next env
      let (k, ops) ← resetWaits env signals k ws
      .ok (k, .reset w.sync :: ops)

/-- The start of `vk_queue_submit`: a submit whose dependencies are not pending yet makes the queue
start its thread. -/
def enableThreadOnDemand (env : Env) (c : Client) : Except VkResult Client :=
  if device = .threadedOnDemand ∧ c.mode ≠ .threaded then
    -- vk_sync_wait_many with a timeout of 0
    match env c.calls.made with
    | .success => .ok { c with calls := { c.calls with made := c.calls.made + 1 } }
    | .timeout => do
      let k ← Calls.next env { c.calls with made := c.calls.made + 1 }
      .ok { c with mode := .threaded, calls := k }
    | e => .error e
  else .ok c

/-- `VK_QUEUE_SUBMIT_MODE_IMMEDIATE` -/
def submitImmediate (env : Env) (k : Calls) (submit : Submit) :
    Except VkResult (Calls × List PayloadOp) := do
  let (k, moved, moves) ←
    (if supportsThreadedSubmit device then submitMoveBinaryWaitsToTemps env false k submit
    else .ok (k, submit, []))
  let (k, final, signals) ← submitFinal env k moved
  let (k, resets) ←
    (if supportsThreadedSubmit device && final.hasBinaryPermanentSemaphoreWait then
      resetWaits env final.signals k final.waits
    else .ok (k, []))
  .ok (k, moves ++ signals ++ resets)

/-- What queueing a submit announces. -/
def Submit.enqueueSignals (s : Submit) : List PayloadOp :=
  s.signals.map fun x => .enqueueSignal x.sync

/-- `vk_queue_submit`. A queue is never in the on-demand mode itself. -/
def queueSubmit (env : Env) (c : Client) (submit : Submit) :
    Except VkResult Client := do
  let c ← enableThreadOnDemand device env c
  match c.mode with
  | .immediate => do
    let (k, ops) ← submitImmediate device env c.calls submit
    .ok { c with calls := k, accepted := c.accepted ++ [⟨submit, ops⟩] }
  | .deferred => do
    -- vk_device_flush
    let k ← c.calls.next env
    .ok { c with
      submits := c.submits ++ [submit]
      calls := k
      accepted := c.accepted ++ [⟨submit, submit.enqueueSignals⟩] }
  | .threaded => do
    let (k, moved, moves) ← submitMoveBinaryWaitsToTemps env true c.calls submit
    .ok { c with
      submits := c.submits ++ [moved]
      calls := k
      accepted := c.accepted ++ [⟨submit, moves ++ moved.enqueueSignals⟩] }
  | .threadedOnDemand => .error .errorUnknown

/-- `vk_queue_merge_submit` -/
def queueMergeSubmit (env : Env) (c : Client) (last : Option Submit)
    (submit : Submit) : Except VkResult (Client × Option Submit) :=
  match last with
  | none => .ok (c, some submit)
  | some last =>
    let alloc := decide (env c.calls.made = .success)
    let c := { c with calls := { c.calls with made := c.calls.made + 1 } }
    match submitsMerge alloc last submit with
    | some merged => .ok (c, some merged)
    | none => do
      let c ← queueSubmit device env c last
      .ok (c, some submit)

/-- The loop over the batches of `vk_common_QueueSubmit2` and `vk_common_QueueBindSparse`, and the
submit that is left after it. -/
def submitBatches (device : SubmitMode) (env : Env) :
    Client → Option Submit → Semaphores → List SubmitInfo → Except VkResult Client
  | c, last, _, [] =>
    match last with
    | none => .ok c
    | some last => queueSubmit device env c last
  | c, last, sems, info :: infos => do
    -- the allocation of vk_queue_submit_create
    let k ← c.calls.next env
    let (sems, submit) ← submitCreate sems info
    let (c, last) ← queueMergeSubmit device env { c with calls := k } last submit
    submitBatches device env c last sems infos

/-- Only the last batch of a call gets its fence. -/
def attachFence (fence : Option Sync) : List SubmitInfo → List SubmitInfo
  | [] => []
  | [info] => [{ info with fence := fence }]
  | info :: infos => { info with fence := none } :: attachFence fence infos

/-- `vk_queue_signal_sync`, for a call without batches. -/
def queueSignalSync (env : Env) (c : Client) (sync : Sync) : Except VkResult Client := do
  let k ← c.calls.next env
  let submit := submitAddSyncSignal {} sync 0
  match c.mode with
  | .immediate => do
    let (k, _, _) ← submitFinal env k submit
    .ok { c with calls := k }
  | .deferred => do
    let k ← k.next env
    .ok { c with submits := c.submits ++ [submit], calls := k }
  | .threaded => .ok { c with submits := c.submits ++ [submit], calls := k }
  | .threadedOnDemand => .error .errorUnknown

/-- `vk_common_QueueSubmit2`, and `vk_common_QueueBindSparse` after it has built its batches. -/
def queueSubmit2 (env : Env) (c : Client) (sems : Semaphores)
    (infos : List SubmitInfo) (fence : Option Sync) : Except VkResult Client := do
  -- vk_device_is_lost
  let k ← c.calls.next env
  let c := { c with calls := k }
  match infos with
  | [] =>
    match fence with
    | none => .ok c
    | some fence => queueSignalSync env c fence
  | _ :: _ => submitBatches device env c none sems (attachFence fence infos)

end RadvXclipse.Queue
