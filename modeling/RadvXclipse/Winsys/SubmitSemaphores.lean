import RadvXclipse.Winsys.SubmitSplit

/-!
# Semaphores of a split request

`radv_amdgpu_cs_submit` clears `cs_emit_wait` when it has attached the wait semaphores, so that they
come with the first kernel submission only. Nothing ever clears `cs_emit_signal`: every kernel
submission of a request signals the semaphores of the application.
-/

namespace RadvXclipse.RadvAmdgpu

open List

section

variable (hasTimeline : Bool)

/-- A kernel submission waits for a semaphore of the application. -/
def WaitsFor (chunks : List Chunk) (s : ℕ × ℕ) : Prop :=
  if hasTimeline then ∃ l, .timelineWait l ∈ chunks ∧ ⟨s.1, waitForSubmit, s.2⟩ ∈ l
  else ∃ l, .syncobjIn l ∈ chunks ∧ s.1 ∈ l

/-- A kernel submission signals a semaphore of the application. -/
def Signals (chunks : List Chunk) (s : ℕ × ℕ) : Prop :=
  if hasTimeline then ∃ l, .timelineSignal l ∈ chunks ∧ ⟨s.1, waitForSubmit, s.2⟩ ∈ l
  else ∃ l, .syncobjOut l ∈ chunks ∧ s.1 ∈ l

/-- The wait semaphores are attached to the first kernel submission, and the signal semaphores to
the last one and to no other. -/
structure Attached (waits signals : List VkSync) (submissions : List (List Chunk)) : Prop where
  wait_first : ∀ s, some s ∈ waits → ∀ chunks, submissions.head? = some chunks → WaitsFor hasTimeline chunks s
  signal_last : ∀ s, some s ∈ signals →
    ∀ chunks, submissions.getLast? = some chunks → Signals hasTimeline chunks s
  signal_only : ∀ s, some s ∈ signals → ∀ chunks ∈ submissions.dropLast, ¬ Signals hasTimeline chunks s

end

/-- All streams fit in one kernel submission. -/
def OneSubmission (r : SubmitInfo) (maxIbPerIp : IpType → ℕ) : Prop :=
  r.initialPreamble.length + ibCount r.csArray + r.postamble.length ≤ maxIbsPerSubmit ∧
    ∀ cs ∈ r.csArray, (r.initialPreamble.filter (·.hwIp = cs.hwIp)).length +
      ibCountIp r.csArray cs.hwIp ≤ maxIbPerIp cs.hwIp

section Groups

variable {hasTimeline : Bool} {r : SubmitInfo} {maxIbPerIp : IpType → ℕ} {env : ℕ → Env}

lemma groupAt_zero_iff (h : Fits r maxIbPerIp) :
    r.groupAt maxIbPerIp 0 = r.csArray ↔ OneSubmission r maxIbPerIp := by
  obtain ⟨cs, hcs⟩ := exists_mem_of_ne_nil _ h.nonempty
  have hfit := (h.single _ (preambles_mem r 0) cs hcs).1
  have hpre : r.preambles 0 = r.initialPreamble := rfl
  constructor
  · intro heq
    have hle := groupAt_le r maxIbPerIp 0
    rw [heq] at hle
    exact ⟨by rw [hpre] at hle hfit; omega, hle.2⟩
  · intro ⟨hcount, hper⟩
    exact group_eq_self h.gangs (by rw [hpre] at hfit ⊢; rw [drop_zero]; omega) hper

/-- There is one group exactly if the first one has all streams. -/
theorem later_eq_nil_iff {first : List Cs} {later : List (List Cs)}
    (hgrouped : Grouped r (first :: later) r.csArray) : later = [] ↔ first = r.csArray := by
  have hflat := hgrouped.flatten
  rw [flatten_cons] at hflat
  constructor
  · intro hnil
    rw [hnil, flatten_nil, append_nil] at hflat
    exact hflat
  · intro hfirst
    rw [hfirst, append_right_eq_self] at hflat
    apply eq_nil_iff_forall_not_mem.mpr
    intro g hg
    exact hgrouped.ne_nil g (mem_cons_of_mem _ hg) (flatten_eq_nil_iff.mp hflat g hg)

/-! ## What a kernel submission has attached -/

lemma mem_semCounts {syncs : List VkSync} {s : ℕ × ℕ} (hs : some s ∈ syncs) :
    if hasTimeline then s ∈ (semCounts hasTimeline syncs).timeline
    else s.1 ∈ (semCounts hasTimeline syncs).syncobj := by
  have hmem : s ∈ syncs.filterMap id := mem_filterMap.mpr ⟨some s, hs, rfl⟩
  cases hasTimeline with
  | true => exact hmem
  | false => exact mem_map_of_mem hmem

lemma mem_timelineChunk {counts : SemCounts} {s : ℕ × ℕ} (hs : s ∈ counts.timeline) {q p n : ℕ} :
    ⟨s.1, waitForSubmit, s.2⟩ ∈ csAllocTimelineSyncobjChunk counts q p n := by
  simp only [csAllocTimelineSyncobjChunk, mem_append, mem_map]
  exact .inl (.inl (.inr ⟨s, hs, rfl⟩))

variable {c : Ctx}

lemma signals_chunks {signals : List VkSync} {s : ℕ × ℕ} (hs : some s ∈ signals)
    (hemit : c.sem.csEmitSignal = true) (hsignal : c.sem.signal = semCounts hasTimeline signals)
    (e : Env) (ibs : List IbInfo) : Signals hasTimeline (c.chunks hasTimeline e ibs) s := by
  have hchunk : c.signalChunk hasTimeline e ∈ c.chunks hasTimeline e ibs := by
    simp [Ctx.chunks, hemit]
  have hmem := @mem_semCounts hasTimeline signals s hs
  rw [← hsignal] at hmem
  cases hasTimeline with
  | true => exact ⟨_, hchunk, mem_timelineChunk hmem⟩
  | false => exact ⟨_, hchunk, mem_append_left _ hmem⟩

lemma waitsFor_chunks {waits : List VkSync} {s : ℕ × ℕ} (hs : some s ∈ waits)
    (hemit : c.sem.csEmitWait = true) (hwait : c.sem.wait = semCounts hasTimeline waits) (e : Env)
    (ibs : List IbInfo) : WaitsFor hasTimeline (c.chunks hasTimeline e ibs) s := by
  have hmem := @mem_semCounts hasTimeline waits s hs
  rw [← hwait] at hmem
  have hchunk : c.waitChunk hasTimeline e ∈ c.chunks hasTimeline e ibs := by
    cases hasTimeline <;> simp [Ctx.chunks, Ctx.emitsWait, hemit, ne_nil_of_mem hmem]
  cases hasTimeline with
  | true => exact ⟨_, hchunk, mem_timelineChunk hmem⟩
  | false => exact ⟨_, hchunk, mem_append_left _ hmem⟩

lemma sent_signal (c : Ctx) (e : Env) (ibs : List IbInfo) :
    (c.sent hasTimeline e ibs).sem.csEmitSignal = c.sem.csEmitSignal ∧
      (c.sent hasTimeline e ibs).sem.signal = c.sem.signal := by
  unfold Ctx.sent
  split
  · exact ⟨rfl, rfl⟩
  · exact ⟨rfl, rfl⟩

/-- Every kernel submission signals the semaphores of the application. -/
theorem signals_submitGroups {signals : List VkSync} {s : ℕ × ℕ} (hs : some s ∈ signals)
    (groups : List (List Cs)) {n csIdx : ℕ} (hemit : c.sem.csEmitSignal = true)
    (hsignal : c.sem.signal = semCounts hasTimeline signals)
    (hall : ∀ chunks ∈ c.submissions, Signals hasTimeline chunks s) :
    ∀ chunks ∈ (submitGroups hasTimeline r env n csIdx c groups).submissions,
      Signals hasTimeline chunks s := by
  induction groups generalizing n csIdx c with
  | nil => exact hall
  | cons g gs ih =>
    obtain ⟨hemit', hsignal'⟩ := @sent_signal hasTimeline c (env n) _
    apply ih (hemit'.trans hemit) (hsignal'.trans hsignal)
    exact forall_mem_append.mpr ⟨hall, forall_mem_singleton.mpr (signals_chunks hs hemit hsignal _ _)⟩

/-- The kernel submissions made so far stay. -/
theorem submissions_submitGroups (groups : List (List Cs)) {n csIdx : ℕ} (c : Ctx) :
    ∃ l, l.length = groups.length ∧
      (submitGroups hasTimeline r env n csIdx c groups).submissions = c.submissions ++ l := by
  induction groups generalizing n csIdx c with
  | nil => exact ⟨[], rfl, (append_nil _).symm⟩
  | cons g gs ih =>
    obtain ⟨l, hlen, heq⟩ := @ih (n + 1) _ (c.sent hasTimeline (env n) _)
    refine ⟨c.chunks hasTimeline (env n) (r.groupIbs (r.preambles csIdx) g) :: l, by simp [hlen], ?_⟩
    rw [submitGroups, heq]
    simp [Ctx.sent]

/-- The semaphores are attached as they should be exactly if the request is not split or signals
nothing. -/
theorem attached_iff (h : Fits r maxIbPerIp) (henv : ∀ n, (env n).Ok) {fuel : ℕ}
    (hfuel : r.csArray.length < fuel) (waits signals : List VkSync) (queueSyncobjWait : Bool) :
    ∃ c : Ctx,
      winsysCsSubmit hasTimeline r maxIbPerIp env waits signals queueSyncobjWait .success fuel =
        some (.success, c) ∧
      (Attached hasTimeline waits signals c.submissions ↔
        OneSubmission r maxIbPerIp ∨ ∀ s ∈ signals, s = none) := by
  have hlt : 0 < r.csArray.length := length_pos_iff.mpr h.nonempty
  let c0 : Ctx := ⟨semInfo hasTimeline waits signals, queueSyncobjWait, []⟩
  obtain ⟨groups, hgrouped, hhead, heq⟩ :=
    @submitLoop_eq hasTimeline r maxIbPerIp env h henv fuel 0 0 c0 (by omega)
  cases groups with
  | nil => exact absurd (hhead hlt) (by simp)
  | cons first later =>
    refine ⟨_, heq, ?_⟩
    have hfirst : first = r.groupAt maxIbPerIp 0 := Option.some.inj (hhead hlt)
    have hone : later = [] ↔ OneSubmission r maxIbPerIp := by
      rw [later_eq_nil_iff hgrouped, hfirst, groupAt_zero_iff h]
    obtain ⟨l, hlen, hsub⟩ :=
      @submissions_submitGroups hasTimeline r env later 1 _ (c0.sent hasTimeline (env 0) _)
    have hsignals : ∀ s, some s ∈ signals → ∀ chunks ∈
        (submitGroups hasTimeline r env 0 0 c0 (first :: later)).submissions, Signals hasTimeline chunks s :=
      fun s hs => signals_submitGroups hs _ rfl rfl (forall_mem_nil _)
    rw [submitGroups] at hsignals ⊢
    rw [hsub] at hsignals ⊢
    have hnil : l = [] ↔ later = [] := by
      rw [← length_eq_zero_iff, hlen, length_eq_zero_iff]
    have hc0 : c0.submissions = [] := rfl
    simp only [Ctx.sent, hc0, nil_append, singleton_append] at hsignals ⊢
    constructor
    · intro hatt
      by_cases hlater : later = []
      · exact .inl (hone.mp hlater)
      · -- with a second kernel submission the first one already signals
        right
        intro s hs
        cases s with
        | none => rfl
        | some s =>
          apply absurd (hsignals s hs _ mem_cons_self) (hatt.signal_only s hs _ ?_)
          rw [dropLast_cons_of_ne_nil fun hl => hlater (hnil.mp hl)]
          exact mem_cons_self
    · intro hcond
      refine ⟨?_, ?_, ?_⟩
      · intro s hs chunks hchunks
        rw [head?_cons, Option.some.injEq] at hchunks
        rw [← hchunks]
        exact waitsFor_chunks hs rfl rfl _ _
      · intro s hs chunks hchunks
        exact hsignals s hs chunks (mem_of_getLast? hchunks)
      · intro s hs chunks hchunks
        rcases hcond with hsingle | hnone
        · rw [hnil.mpr (hone.mpr hsingle)] at hchunks
          exact absurd hchunks not_mem_nil
        · exact absurd (hnone _ hs) (by simp)

end Groups

/-- The gang needs a second kernel submission. -/
theorem attached_iff_gang :
    ∃ c : Ctx,
      winsysCsSubmit true gangRequest (fun _ => 3) (fun _ => okEnv) [some (7, 1)] [none] false .success 4 =
        some (.success, c) ∧
      Attached true [some (7, 1)] [none] c.submissions := by
  have hfuel : gangRequest.csArray.length < 4 := by decide
  obtain ⟨c, hc, hiff⟩ := attached_iff fits_gangRequest (fun _ => okEnv_ok) hfuel [some (7, 1)] [none] false
  exact ⟨c, hc, hiff.mpr (.inr fun s hs => mem_singleton.mp hs)⟩

/-- `max_submitted_ibs` where the kernel does not tell: for GFX, compute and the other queues. -/
def maxSubmittedIbs : IpType → ℕ
  | .gfx => 192
  | .compute => 124
  | .vcnJpeg => 16
  | _ => 50

/-- Fifty-one command buffers of the transfer queue, with one IB each. -/
def transferRequest : SubmitInfo :=
  { csArray := (range 51).map fun k => finalizedCs .sdma false k 1
    initialPreamble := []
    continuePreamble := []
    postamble := []
    usesShadowRegs := false
    secure := false }

/-- With a signal semaphore the first of their two kernel submissions, of fifty IBs, signals it. -/
theorem signals_first :
    ∃ first last : List Chunk, ∃ sem : SemInfo,
      winsysCsSubmit true transferRequest maxSubmittedIbs (fun _ => okEnv) [some (7, 1)] [some (8, 2)]
        false .success 52 = some (.success, ⟨sem, false, [first, last]⟩) ∧
      (chunkIbs first).length = 50 ∧ Signals true first (8, 2) ∧
      ¬ Attached true [some (7, 1)] [some (8, 2)] [first, last] := by
  let ib (k : ℕ) : Chunk := .ib ⟨0, .sdma, BitVec.ofNat 64 (0x100000 * k), 8 * k⟩
  let signal : Chunk := .timelineSignal [⟨8, 2, 2⟩, ⟨1, 0, 0⟩]
  let first := (range 50).map ib ++ [.timelineWait [⟨7, 2, 1⟩], signal, .boHandles]
  have hsignal : Signals true first (8, 2) := ⟨[⟨8, 2, 2⟩, ⟨1, 0, 0⟩], by decide, by decide⟩
  refine ⟨first, [ib 50, signal, .boHandles],
    ⟨semCounts true [some (7, 1)], semCounts true [some (8, 2)], false, true⟩, by rfl, by rfl, hsignal, ?_⟩
  intro hatt
  exact hatt.signal_only (8, 2) (mem_singleton_self _) _ mem_cons_self hsignal

end RadvXclipse.RadvAmdgpu
