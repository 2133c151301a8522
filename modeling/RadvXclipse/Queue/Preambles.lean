import Mathlib.Data.List.Basic

/-!
# The initial preambles of a split submission

With fault detection `radv_queue_submit_normal` submits the command buffers one by one. It fills the
array of the initial preambles once, and after each submission it overwrites the first two entries
with the plain initial preambles of the queue and of its follower. The second entry is not that of
the follower, whatever else is in the array.
-/

namespace RadvXclipse.Queue

open List Function

/-- `enum radv_queue_family`. -/
inductive QueueFamily
  | general
  | compute
  | transfer
  | sparse
  | videoDec
  | videoEnc
  | foreign
  | ignored
deriving DecidableEq

/-- A stream that can be an initial preamble: one of the queue or of its follower, or the lock. -/
inductive PreambleCs
  | initialFullFlush (follower : Bool)
  | initial (follower : Bool)
  | gangWait (follower : Bool)
  | perfCtrLock
deriving DecidableEq

/-- `initial_preambles` as it is filled. The streams of a queue exist if it is a graphics or compute
queue. -/
def initialPreambles (hasStreams usePerfCounters useAce needWait : Bool) : List PreambleCs :=
  let first (follower : Bool) := if needWait then PreambleCs.initialFullFlush follower else .initial follower
  (if hasStreams then first false :: (if usePerfCounters then [.perfCtrLock] else []) else []) ++
    if useAce then [.gangWait false, .gangWait true, first true] else []

/-- `initial_preamble_count`: without a follower those of the queue alone. -/
def initialPreambleCount (hasStreams usePerfCounters useAce needWait submitAce : Bool) : ℕ :=
  (initialPreambles hasStreams usePerfCounters (submitAce && useAce) needWait).length

/-- The array after a submission; the entries that were not filled are `NULL`. -/
def patchPreambles (hasStreams useAce : Bool) (a : ℕ → Option PreambleCs) : ℕ → Option PreambleCs :=
  update (update a 0 (if hasStreams then some (.initial false) else none)) 1
    (if useAce then some (.initial true) else none)

/-- What is read of a command buffer: whether it has a `gang.cs`, and whether it uses performance
counters. -/
structure CmdBuffer where
  gang : Bool
  usesPerfCounters : Bool

/-- The arguments of `radv_queue_submit_normal`. -/
structure NormalSubmit where
  qf : QueueFamily
  faultDetection : Bool
  waitCount : ℕ
  commandBuffers : List CmdBuffer

/-- The part of a `radv_winsys_submit_info` that is modelled. -/
structure WinsysSubmit where
  commandBuffers : List CmdBuffer
  initialPreambles : List (Option PreambleCs)

def WinsysSubmit.submitAce (s : WinsysSubmit) : Bool := s.commandBuffers.any (·.gang)

namespace NormalSubmit

variable (r : NormalSubmit)

def hasStreams : Bool := r.qf = .general ∨ r.qf = .compute

/-- `use_perf_counters` and `use_ace`, from `radv_update_preambles`. -/
def usePerfCounters : Bool := r.hasStreams && r.commandBuffers.any (·.usesPerfCounters)

def useAce : Bool := r.commandBuffers.any (·.gang)

def needWait : Bool := 0 < r.waitCount

def preambles : List PreambleCs := initialPreambles r.hasStreams r.usePerfCounters r.useAce r.needWait

def preambleCount (submitAce : Bool) : ℕ :=
  initialPreambleCount r.hasStreams r.usePerfCounters r.useAce r.needWait submitAce

/-- The loop over the command buffers, which takes at least one of them in every round. -/
def loop (maxCsSubmission : ℕ) : ℕ → List CmdBuffer → (ℕ → Option PreambleCs) → List WinsysSubmit
  | 0, _, _ => []
  | _, [], _ => []
  | fuel + 1, c :: cmds, a =>
    let chunk := (c :: cmds).take maxCsSubmission
    ⟨chunk, (range (r.preambleCount (chunk.any (·.gang)))).map a⟩ ::
      loop maxCsSubmission fuel ((c :: cmds).drop maxCsSubmission) (patchPreambles r.hasStreams r.useAce a)

/-- The calls of `cs_submit`, all of which succeed. -/
def submissions : List WinsysSubmit :=
  r.loop (if r.faultDetection then 1 else r.commandBuffers.length) r.commandBuffers.length r.commandBuffers
    fun i => r.preambles[i]?

/-- The plain preamble in place of one with a full flush. -/
def plain : PreambleCs → PreambleCs
  | .initialFullFlush follower => .initial follower
  | c => c

/-- Every submission after the first has the preambles that were filled in, with the plain initial
ones in place of those with a full flush. None of them is `NULL`. -/
def PreamblesKept : Prop :=
  ∀ s ∈ r.submissions.tail,
    s.initialPreambles = ((r.preambles.map plain).take (r.preambleCount s.submitAce)).map some

/-- The array as it is in every submission but the first. -/
def patched : ℕ → Option PreambleCs := patchPreambles r.hasStreams r.useAce fun i => r.preambles[i]?

variable {r}

/-- A chunk has a follower only if the whole submission has one. -/
theorem mem_loop {m fuel : ℕ} {cmds : List CmdBuffer} (hsub : cmds ⊆ r.commandBuffers)
    {s : WinsysSubmit} (hs : s ∈ r.loop m fuel cmds r.patched) :
    s.initialPreambles = (range (r.preambleCount s.submitAce)).map r.patched ∧
      (s.submitAce = true → r.useAce = true) := by
  induction fuel generalizing cmds with
  | zero => exact absurd hs not_mem_nil
  | succ fuel ih =>
    cases cmds with
    | nil => exact absurd hs not_mem_nil
    | cons c cmds =>
      -- the first two entries are overwritten by what they are
      have hpatch : patchPreambles r.hasStreams r.useAce r.patched = r.patched := by
        simp only [patched, patchPreambles, update_comm (show (1 : ℕ) ≠ 0 by decide), update_idem]
      rw [loop, hpatch] at hs
      rcases mem_cons.mp hs with rfl | hs
      · refine ⟨rfl, fun hace => ?_⟩
        obtain ⟨d, hd, hgang⟩ := any_eq_true.mp hace
        exact any_eq_true.mpr ⟨d, hsub (mem_of_mem_take hd), hgang⟩
      · exact ih (fun d hd => hsub (mem_of_mem_drop hd)) hs

/-- The layouts one by one: the patched array is right up to the count only if no follower and no
lock is in it. -/
theorem patched_iff : ∀ hasStreams perf useAce needWait ace : Bool,
    (ace = true → useAce = true) → (perf = true → hasStreams = true) →
    ((range (initialPreambleCount hasStreams perf useAce needWait ace)).map
        (patchPreambles hasStreams useAce fun i => (initialPreambles hasStreams perf useAce needWait)[i]?) =
      (((initialPreambles hasStreams perf useAce needWait).map plain).take
        (initialPreambleCount hasStreams perf useAce needWait ace)).map some ↔
      ace = false ∧ perf = false) := by
  decide

/-- The submissions after the first have the preambles they should have if and only if none of them
has a follower and no performance counters are used. -/
theorem preamblesKept_iff_submissions (r : NormalSubmit) :
    r.PreamblesKept ↔ ∀ s ∈ r.submissions.tail, s.submitAce = false ∧ r.usePerfCounters = false := by
  have htail : ∀ s ∈ r.submissions.tail,
      s.initialPreambles = (range (r.preambleCount s.submitAce)).map r.patched ∧
        (s.submitAce = true → r.useAce = true) := by
    intro s hs
    unfold submissions at hs
    generalize (if r.faultDetection then 1 else r.commandBuffers.length) = m at hs
    cases hcmds : r.commandBuffers with
    | nil =>
      rw [hcmds] at hs
      exact absurd hs not_mem_nil
    | cons c cmds =>
      rw [hcmds, length_cons, loop, tail_cons] at hs
      refine mem_loop (fun d hd => ?_) hs
      rw [hcmds]
      exact mem_of_mem_drop hd
  refine forall₂_congr fun s hs => ?_
  obtain ⟨heq, hace⟩ := htail s hs
  rw [heq]
  refine patched_iff r.hasStreams r.usePerfCounters r.useAce r.needWait s.submitAce hace fun hperf => ?_
  exact (Bool.and_eq_true_iff.mp hperf).1

/-- With fault detection every command buffer is a submission. -/
theorem map_commandBuffers_loop (r : NormalSubmit) {fuel : ℕ} {cmds : List CmdBuffer}
    (hfuel : cmds.length ≤ fuel) (a : ℕ → Option PreambleCs) :
    (r.loop 1 fuel cmds a).map WinsysSubmit.commandBuffers = cmds.map ([·]) := by
  induction fuel generalizing cmds a with
  | zero =>
    obtain rfl := eq_nil_of_length_eq_zero (Nat.le_zero.mp hfuel)
    rfl
  | succ fuel ih =>
    cases cmds with
    | nil => rfl
    | cons c cmds =>
      rw [length_cons] at hfuel
      rw [loop, map_cons, map_cons, drop_one, tail_cons, ih (by omega)]
      rfl

/-- Without fault detection there is one submission. -/
theorem submissions_tail_eq_nil (h : r.faultDetection = false) : r.submissions.tail = [] := by
  unfold submissions
  rw [h]
  cases r.commandBuffers with
  | nil => rfl
  | cons c cmds =>
    simp only [Bool.false_eq_true, if_false, length_cons, loop, tail_cons]
    rw [show (c :: cmds).drop (cmds.length + 1) = [] from drop_length]
    cases cmds with
    | nil => rfl
    | cons d cmds => rfl

/-- The submissions after the first have the preambles they should have if and only if there are
none, or no performance counters are used and no command buffer but the first has a follower. -/
theorem preamblesKept_iff (r : NormalSubmit) :
    r.PreamblesKept ↔ r.faultDetection = false ∨ r.commandBuffers.length ≤ 1 ∨
      (r.usePerfCounters = false ∧ ∀ c ∈ r.commandBuffers.tail, c.gang = false) := by
  rw [preamblesKept_iff_submissions]
  cases hfault : r.faultDetection with
  | false =>
    rw [submissions_tail_eq_nil hfault]
    exact ⟨fun _ => .inl rfl, fun _ s hs => absurd hs not_mem_nil⟩
  | true =>
    have hsubs : r.submissions.tail.map WinsysSubmit.commandBuffers = r.commandBuffers.tail.map ([·]) := by
      rw [map_tail, map_tail, submissions, if_pos hfault, map_commandBuffers_loop r (Nat.le_refl _)]
    -- the condition on the submissions, on the command buffers
    have hiff : (∀ s ∈ r.submissions.tail, s.submitAce = false ∧ r.usePerfCounters = false) ↔
        ∀ c ∈ r.commandBuffers.tail, c.gang = false ∧ r.usePerfCounters = false := by
      have hmap : (∀ l ∈ r.submissions.tail.map WinsysSubmit.commandBuffers,
          l.any (·.gang) = false ∧ r.usePerfCounters = false) ↔
          ∀ l ∈ r.commandBuffers.tail.map ([·]), l.any (·.gang) = false ∧ r.usePerfCounters = false := by
        rw [hsubs]
      rw [forall_mem_map, forall_mem_map] at hmap
      simpa [WinsysSubmit.submitAce] using hmap
    rw [hiff]
    cases hcmds : r.commandBuffers.tail with
    | nil =>
      have hlength : r.commandBuffers.length ≤ 1 := by
        have htail := length_tail (l := r.commandBuffers)
        rw [hcmds, length_nil] at htail
        omega
      exact ⟨fun _ => .inr (.inl hlength), fun _ c hc => absurd hc not_mem_nil⟩
    | cons d cmds =>
      constructor
      · intro h
        exact .inr (.inr ⟨(h d mem_cons_self).2, fun c hc => (h c hc).1⟩)
      · rintro (h | h | ⟨hperf, hgang⟩) c hc
        · cases h
        · have htail := length_tail (l := r.commandBuffers)
          rw [hcmds, length_cons] at htail
          omega
        · exact ⟨hgang c hc, hperf⟩

/-- Two command buffers with followers: the second one is submitted with the initial preamble of the
follower in the place of the gang wait of the leader. -/
theorem not_preamblesKept_gang :
    let r : NormalSubmit := ⟨.general, true, 0, [⟨true, false⟩, ⟨true, false⟩]⟩
    r.submissions.map WinsysSubmit.initialPreambles =
        [[some (.initial false), some (.gangWait false), some (.gangWait true), some (.initial true)],
          [some (.initial false), some (.initial true), some (.gangWait true), some (.initial true)]] ∧
      ¬ r.PreamblesKept := by
  intro r
  exact ⟨rfl, fun h => absurd (h _ (mem_singleton_self _)) (by decide)⟩

end NormalSubmit

end RadvXclipse.Queue
