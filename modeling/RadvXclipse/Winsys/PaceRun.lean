import RadvXclipse.Winsys.Pace

/-!
# Pacing over whole runs

The points of a ring are `1, 2, 3, …` in the order of the accepted jobs, and the two slots of `seq`
hold the sequence numbers of the last two of them. So a job that waits does so for a point that a
job before it signals, and it has polled that very job.

The counter of the points has 64 bits. When it is full the next point is 0, `radv_amdgpu_cs_submit`
takes that for a job without a point, and every further job signals the point 0.
-/

namespace RadvXclipse.RadvAmdgpu

open Lib Util List Function Nat PaceSystem

/-- The kernel submission signals the pace point. -/
def Submission.Carries (o : Submission) : Prop :=
  ∃ l, .timelineSignal l ∈ o.chunks ∧ ⟨o.out.syncobj, 0, o.out.signal⟩ ∈ l

/-- The state of a ring agrees with the points signalled on it. -/
structure Pace.Records (p : Pace) (pts : List Submission) : Prop where
  count : p.count = pts.length
  signal : pts.map (·.out.signal) = range' 1 pts.length
  syncobj : ∀ o ∈ pts, o.out.syncobj = p.syncobj ∧ p.syncobj ≠ 0
  carries : ∀ o ∈ pts, o.Carries
  seq : ∀ k (hk : k < pts.length), pts.length ≤ k + 2 → p.seq ((k + 1) % 2) = pts[k].seqNo

variable {p : Pace} {e : PaceCall} {pts : List Submission}

section Begin

/-- The mean is computed without a wrap and keeps its bound. -/
theorem Pace.measure_avg (h : p.avgNs ≤ 100000007) (now : ℕ) :
    (p.measure now).avgNs = p.avgNs - p.avgNs / 8 + min (sub64 now p.lastNs) 100000000 / 8 ∧
      (p.measure now).avgNs ≤ 100000007 := by
  have hsub : sub64 p.avgNs (p.avgNs / 8) = p.avgNs - p.avgNs / 8 :=
    sub64_of_le (Nat.div_le_self _ _) (by omega)
  unfold measure
  simp only [hsub]
  rw [add64_of_lt (by omega)]
  omega

/-- What `radv_xclipse_pace_begin` can do: nothing, or it measures and may set the points. -/
def Pace.Begun (p : Pace) (e : PaceCall) (hasTimeline : Bool) (r : Pace × PaceOut) : Prop :=
  r = (p, .off) ∨
    ∃ handle out, p.acquire e = some handle ∧ r = ({ p with syncobj := handle }.measure e.now, out) ∧
      (out = .off ∨ hasTimeline = true ∧ ∃ minNs,
        out = ({ p with syncobj := handle }.measure e.now).points minNs e)

lemma paceBegin_begun (submitPacing hasTimeline : Bool) (ipType : IpType) (ring : ℕ) (p : Pace)
    (e : PaceCall) :
    p.Begun e hasTimeline (paceBegin submitPacing hasTimeline ipType ring p e) := by
  unfold paceBegin
  by_cases hring : ipType ≠ .gfx ∨ maxRingsPerType ≤ ring
  · exact .inl (if_pos hring)
  rw [if_neg hring]
  by_cases hmode : paceMode submitPacing hasTimeline e.pace = 0
  · exact .inl (if_pos hmode)
  have htimeline : hasTimeline = true := by
    by_contra hno
    exact hmode (if_pos (.inr hno))
  simp only [if_neg hmode]
  cases hacq : p.acquire e with
  | none =>
    -- the creation is tried only without a syncobj, so nothing has changed
    have hzero : p.syncobj = 0 := by
      by_contra hne
      rw [Pace.acquire, if_pos hne] at hacq
      cases hacq
    refine .inl ?_
    rw [← hzero]
  | some handle =>
    generalize (if 2 ≤ paceMode submitPacing hasTimeline e.pace then 0 else paceMinNs) = minNs
    by_cases hshort : ({ p with syncobj := handle }.measure e.now).avgNs < minNs / 2
    · exact .inr ⟨handle, .off, hacq, if_pos hshort, .inl rfl⟩
    · exact .inr ⟨handle, _, hacq, if_neg hshort, .inr ⟨htimeline, minNs, rfl⟩⟩

lemma Pace.acquire_ne_zero {handle : ℕ} (h : p.acquire e = some handle)
    (hcreate : ∀ h, e.createSyncobj = some h → h ≠ 0) : handle ≠ 0 := by
  unfold acquire at h
  split_ifs at h with hp
  · cases h
    exact hp
  · exact hcreate _ h

/-- Taking the syncobj and the time keeps the record. -/
theorem Pace.Records.measure (h : p.Records pts) {handle : ℕ}
    (hacq : p.acquire e = some handle) : ({ p with syncobj := handle }.measure e.now).Records pts where
  count := h.count
  signal := h.signal
  syncobj := by
    intro o ho
    obtain ⟨heq, hne⟩ := h.syncobj o ho
    rw [acquire, if_pos hne] at hacq
    cases hacq
    exact ⟨heq, hne⟩
  carries := h.carries
  seq := h.seq

end Begin

/-- A further point. -/
theorem Pace.Records.snoc (h : p.Records pts) {o : Submission}
    (hsignal : o.out.signal = p.count + 1) (hsyncobj : o.out.syncobj = p.syncobj) (hne : p.syncobj ≠ 0)
    (hcarries : o.Carries) : (paceEnd p o.seqNo o.out.signal).Records (pts ++ [o]) where
  count := by
    rw [length_append, length_singleton, ← h.count, ← hsignal]
    rfl
  signal := by
    rw [map_append, h.signal, length_append, length_singleton, range'_concat,
      map_singleton, hsignal, h.count, one_mul, add_comm 1]
  syncobj := by
    exact forall_mem_append.mpr ⟨h.syncobj, forall_mem_singleton.mpr ⟨hsyncobj, hne⟩⟩
  carries := by
    exact forall_mem_append.mpr ⟨h.carries, forall_mem_singleton.mpr hcarries⟩
  seq := by
    intro k hk hlast
    rw [length_append, length_singleton] at hk hlast
    have hcount := h.count
    unfold paceEnd
    simp only [and_one_is_mod, hsignal]
    by_cases hnew : k = pts.length
    · subst hnew
      rw [hcount, update_self, getElem_concat_length rfl]
    · -- the slot of the point before is the other one
      have hother : (k + 1) % 2 ≠ (p.count + 1) % 2 := by omega
      rw [update_of_ne hother, getElem_append_left (by omega)]
      exact h.seq k (by omega) (by omega)

/-- A job that waits does so for the last point but one, and has polled the job that signals it. -/
theorem Pace.Records.wait (h : p.Records pts) (hlt : pts.length < 2 ^ 64 - 1)
    {minNs : ℕ} (hwait : (p.points minNs e).wait ≠ 0) :
    (p.points minNs e).signal = (p.points minNs e).wait + 2 ∧
      ∃ o ∈ pts, o.out.signal = (p.points minNs e).wait ∧ o.out.syncobj = p.syncobj ∧
        (p.points minNs e).polled = some o.seqNo := by
  have hcount := h.count
  have hpoll : (2 ≤ p.count ∧ minNs ≤ p.avgNs) ∧ e.query = 0 ∧ e.expired = 0 := by
    by_contra hno
    exact hwait (if_neg hno)
  have hsub : sub64 p.count 1 = p.count - 1 := sub64_of_le (by omega) (by omega)
  have hw : (p.points minNs e).wait = p.count - 1 := by
    rw [← hsub]
    exact if_pos hpoll
  have hs : (p.points minNs e).signal = p.count + 1 := add64_of_lt (by omega)
  have hk : pts.length - 2 < pts.length := by omega
  have hpoint : pts[pts.length - 2].out.signal = p.count - 1 := by
    have hget : (pts.map (·.out.signal))[pts.length - 2]? = (range' 1 pts.length)[pts.length - 2]? := by
      rw [h.signal]
    rw [getElem?_map, getElem?_eq_getElem hk, getElem?_range' hk, Option.map_some, Option.some_inj] at hget
    omega
  have hseq := h.seq (pts.length - 2) hk (by omega)
  refine ⟨by omega, pts[pts.length - 2], getElem_mem hk, by omega, (h.syncobj _ (getElem_mem hk)).1, ?_⟩
  have hslot : (pts.length - 2 + 1) % 2 = sub64 p.count 1 &&& 1 := by
    rw [hsub, and_one_is_mod]
    omega
  rw [← hseq, hslot]
  exact if_pos hpoll.1

section Submit

variable {submitPacing hasTimeline : Bool}

variable {j : Job} {out : PaceOut} {s : PaceSystem}

/-- An accepted job has made one kernel submission, with all chunks. -/
theorem Job.submit_success (h : (j.submit hasTimeline out).1 = .success) :
    (j.submit hasTimeline out).2.submissions.flatten =
      Ctx.chunks hasTimeline ⟨j.sem, j.queueSyncobjWait, []⟩
        { j.env with paceSyncobj := out.syncobj, paceWait := out.wait, paceSignal := out.signal } j.ibs := by
  unfold submit RadvAmdgpu.csSubmit at h ⊢
  split_ifs at h ⊢ <;> first | cases h | simp [Ctx.waitEmitted]

/-- The signal chunk of an accepted job has the pace point. -/
theorem Job.submit_carries (hj : j.Ok) (hout : out.syncobj ≠ 0)
    (h : (j.submit true out).1 = .success) (ring seqNo : ℕ) (r : SubmitResult) :
    Submission.Carries ⟨ring, out, seqNo, r, (j.submit true out).2.submissions.flatten⟩ := by
  refine ⟨csAllocTimelineSyncobjChunk j.sem.signal j.env.queueSyncobj out.syncobj out.signal, ?_, ?_⟩
  · rw [submit_success h]
    simp [Ctx.chunks, Ctx.signalChunk, hj.emitSignal]
  · simp [csAllocTimelineSyncobjChunk, hout]

lemma PaceSystem.begin_begun (submitPacing hasTimeline : Bool) (s : PaceSystem) (j : Job) :
    (s.pace j.ring).Begun j.call hasTimeline (s.begin submitPacing hasTimeline j) := by
  unfold begin
  split_ifs
  · exact .inl rfl
  · exact paceBegin_begun _ _ _ _ _ _

lemma PaceSystem.points_csSubmit (submitPacing hasTimeline : Bool) (s : PaceSystem) (j : Job) (ring : ℕ) :
    (s.csSubmit submitPacing hasTimeline j).points ring =
      s.points ring ++ if (s.submission submitPacing hasTimeline j).signals ring then
        [s.submission submitPacing hasTimeline j] else [] := by
  unfold points csSubmit
  rw [filter_append, filter_singleton]
  cases (s.submission submitPacing hasTimeline j).signals ring <;> rfl

/-- One job keeps the record of every ring. -/
theorem PaceSystem.records_csSubmit (hj : j.Ok) {ring : ℕ}
    (h : (s.pace ring).Records (s.points ring))
    (hlt : ((s.csSubmit submitPacing hasTimeline j).points ring).length < 2 ^ 64) :
    ((s.csSubmit submitPacing hasTimeline j).pace ring).Records
      ((s.csSubmit submitPacing hasTimeline j).points ring) := by
  rw [points_csSubmit] at hlt ⊢
  obtain ⟨o, ho⟩ : ∃ o, s.submission submitPacing hasTimeline j = o := ⟨_, rfl⟩
  rw [ho] at hlt ⊢
  by_cases hring : ring = j.ring
  swap
  · -- another ring
    have hno : o.signals ring = false := by
      simp [← ho, Submission.signals, submission, Ne.symm hring]
    have hpace : (s.csSubmit submitPacing hasTimeline j).pace ring = s.pace ring := update_of_ne hring _ _
    rw [hno, hpace]
    simpa using h
  subst hring
  have hpace : (s.csSubmit submitPacing hasTimeline j).pace j.ring =
      if o.result = .success ∧ o.out.signal ≠ 0 then
        paceEnd (s.begin submitPacing hasTimeline j).1 j.seqNo o.out.signal
      else (s.begin submitPacing hasTimeline j).1 := ho ▸ update_self _ _ _
  have hout : o.out = (s.begin submitPacing hasTimeline j).2 := ho ▸ rfl
  rw [hpace]
  have hcases := s.begin_begun submitPacing hasTimeline j
  generalize s.begin submitPacing hasTimeline j = b at hout hcases
  -- a job without a point changes the clock at most
  have hoff : o.out = .off → b.1.Records (s.points j.ring) →
      (if o.result = .success ∧ o.out.signal ≠ 0 then paceEnd b.1 j.seqNo o.out.signal else b.1).Records
        (s.points j.ring ++ if o.signals j.ring then [o] else []) := by
    intro hzero hrec
    have hno : o.signals j.ring = false := by
      simp [Submission.signals, hzero, PaceOut.off]
    rw [hno, hzero, if_neg (by simp [PaceOut.off])]
    simpa using hrec
  rcases hcases with hb | ⟨handle, out, hacq, hb, hcase⟩
  · exact hoff (by rw [hout, hb]) (by rw [hb]; exact h)
  have hrec := h.measure hacq
  rw [hb] at hout hoff ⊢
  rcases hcase with hzero | ⟨rfl, minNs, hpoints⟩
  · exact hoff (hout.trans hzero) hrec
  have hne : handle ≠ 0 := Pace.acquire_ne_zero hacq hj.handle
  have hsyncobj : o.out.syncobj = handle := by rw [hout, hpoints]; rfl
  by_cases hres : o.result = .success
  · have hyes : o.signals j.ring = true := by
      have hring : o.ring = j.ring := ho ▸ rfl
      simp [Submission.signals, hring, hres, hsyncobj, hne]
    rw [hyes, if_pos rfl, length_append, length_singleton] at hlt
    have hsignal : o.out.signal = (s.pace j.ring).count + 1 := by
      have hcount := h.count
      rw [hout, hpoints]
      exact add64_of_lt (show (s.pace j.ring).count + 1 < 2 ^ 64 by omega)
    have hcarries : o.Carries := by
      rw [← ho] at hres hsyncobj ⊢
      exact Job.submit_carries hj (hsyncobj ▸ hne) hres _ _ _
    rw [hyes, if_pos rfl, if_pos ⟨hres, by omega⟩]
    have hnew := hrec.snoc hsignal hsyncobj hne hcarries
    rwa [← ho] at hnew ⊢
  · have hno : o.signals j.ring = false := by
      simp [Submission.signals, hres]
    rw [hno, if_neg (fun hc => hres hc.1)]
    simpa using hrec

lemma PaceSystem.records_init (ring : ℕ) :
    (PaceSystem.init.pace ring).Records (PaceSystem.init.points ring) where
  count := rfl
  signal := rfl
  syncobj := by simp [init, points]
  carries := by simp [init, points]
  seq := by simp [init, points]

/-- The record holds in every state that a run reaches, as long as the counter is not full. -/
theorem PaceSystem.records_run {l : List Job}
    (h : Run (PaceStep submitPacing hasTimeline) .init l s) (ring : ℕ)
    (hlt : (s.points ring).length < 2 ^ 64) : (s.pace ring).Records (s.points ring) := by
  induction h with
  | nil => exact records_init ring
  | @snoc l t j u _ hstep ih =>
    obtain ⟨hj, rfl⟩ := hstep
    refine records_csSubmit hj (ih ?_) hlt
    rw [points_csSubmit, length_append] at hlt
    omega

/-- What holds of the next job `j` of a ring in a state, whatever the counter of the ring is. -/
structure PaceSystem.Keeps (submitPacing hasTimeline : Bool) (s : PaceSystem) (j : Job) : Prop where
  rejected : (s.submission submitPacing hasTimeline j).result ≠ .success → ∀ ring,
    ((s.csSubmit submitPacing hasTimeline j).pace ring).count = (s.pace ring).count ∧
      ((s.csSubmit submitPacing hasTimeline j).pace ring).seq = (s.pace ring).seq
  /-- The mean is what it is on the integers. -/
  average : (s.pace j.ring).avgNs ≤ 100000007 ∧
    ((s.csSubmit submitPacing hasTimeline j).pace j.ring).avgNs ≤ 100000007 ∧
    (((s.csSubmit submitPacing hasTimeline j).pace j.ring).avgNs = (s.pace j.ring).avgNs ∨
      (((s.csSubmit submitPacing hasTimeline j).pace j.ring).avgNs : ℤ) =
        (s.pace j.ring).avgNs - ((s.pace j.ring).avgNs / 8 : ℕ) +
          (min (sub64 j.call.now (s.pace j.ring).lastNs) 100000000 / 8 : ℕ))

/-- What holds of it as long as the counter is not full. -/
structure PaceSystem.Paced (submitPacing hasTimeline : Bool) (s : PaceSystem) (j : Job) : Prop where
  /-- The points signalled so far are consecutive, and each is in the signal chunk of its job. -/
  consecutive : (s.points j.ring).map (·.out.signal) = range' 1 (s.points j.ring).length ∧
    (s.pace j.ring).count = (s.points j.ring).length ∧ ∀ o ∈ s.points j.ring, o.Carries
  /-- An accepted job with a point signals the next one. -/
  next : (s.submission submitPacing hasTimeline j).signals j.ring →
    (s.submission submitPacing hasTimeline j).out.signal = (s.pace j.ring).count + 1 ∧
      ((s.csSubmit submitPacing hasTimeline j).pace j.ring).count = (s.pace j.ring).count + 1
  /-- A wait is for the point of an accepted job, the one that was polled. -/
  wait : (s.submission submitPacing hasTimeline j).out.wait ≠ 0 →
    (s.submission submitPacing hasTimeline j).out.signal =
      (s.submission submitPacing hasTimeline j).out.wait + 2 ∧
      ∃ o ∈ s.points j.ring, o.out.signal = (s.submission submitPacing hasTimeline j).out.wait ∧
        o.out.syncobj = (s.submission submitPacing hasTimeline j).out.syncobj ∧
        (s.submission submitPacing hasTimeline j).out.polled = some o.seqNo

/-- The mean after a job is the one `radv_xclipse_pace_begin` has computed. -/
theorem PaceSystem.avg_csSubmit (s : PaceSystem) (j : Job) :
    ((s.csSubmit submitPacing hasTimeline j).pace j.ring).avgNs =
    (s.begin submitPacing hasTimeline j).1.avgNs := by
  unfold csSubmit
  dsimp only
  rw [update_self]
  split_ifs <;> rfl

/-- The mean of every ring keeps its bound. -/
theorem PaceSystem.avg_csSubmit_le (h : ∀ ring, (s.pace ring).avgNs ≤ 100000007) (j : Job) (ring : ℕ) :
    ((s.csSubmit submitPacing hasTimeline j).pace ring).avgNs ≤ 100000007 := by
  by_cases hring : ring = j.ring
  · subst hring
    rw [avg_csSubmit]
    rcases s.begin_begun submitPacing hasTimeline j with hb | ⟨handle, out, -, hb, -⟩
    · rw [hb]
      exact h j.ring
    · rw [hb]
      exact (Pace.measure_avg (p := { s.pace j.ring with syncobj := handle }) (h j.ring) j.call.now).2
  · have hpace : (s.csSubmit submitPacing hasTimeline j).pace ring = s.pace ring := update_of_ne hring _ _
    rw [hpace]
    exact h ring

lemma PaceSystem.avg_run {l : List Job} (h : Run (PaceStep submitPacing hasTimeline) .init l s) :
    ∀ ring, (s.pace ring).avgNs ≤ 100000007 := by
  refine h.invariant (I := fun _ s => ∀ ring, (s.pace ring).avgNs ≤ 100000007) ?_ ?_
  · intro ring
    exact zero_le _
  · rintro _ s j _ hs ⟨-, rfl⟩
    exact avg_csSubmit_le hs j

/-- A rejected job changes no counter and no sequence number. -/
theorem PaceSystem.rejected_csSubmit
    (h : (s.submission submitPacing hasTimeline j).result ≠ .success) (ring : ℕ) :
    ((s.csSubmit submitPacing hasTimeline j).pace ring).count = (s.pace ring).count ∧
      ((s.csSubmit submitPacing hasTimeline j).pace ring).seq = (s.pace ring).seq := by
  unfold csSubmit
  dsimp only
  rw [if_neg (fun hc => h hc.1)]
  by_cases hring : ring = j.ring
  · subst hring
    rw [update_self]
    rcases s.begin_begun submitPacing hasTimeline j with
      hb | ⟨handle, out, -, hb, -⟩
    · rw [hb]
      exact ⟨rfl, rfl⟩
    · rw [hb]
      exact ⟨rfl, rfl⟩
  · rw [update_of_ne hring]
    exact ⟨rfl, rfl⟩

/-- The mean after a job of a run is what it is on the integers. -/
theorem PaceSystem.keeps_of_run {l : List Job} (h : Run (PaceStep submitPacing hasTimeline) .init l s)
    (j : Job) : s.Keeps submitPacing hasTimeline j := by
  have havg := avg_run h
  refine ⟨fun hrej => rejected_csSubmit hrej, havg j.ring, avg_csSubmit_le havg j j.ring, ?_⟩
  rw [avg_csSubmit]
  rcases s.begin_begun submitPacing hasTimeline j with hb | ⟨handle, out, -, hb, -⟩
  · rw [hb]
    exact .inl rfl
  · right
    rw [hb, (Pace.measure_avg (p := { s.pace j.ring with syncobj := handle }) (havg j.ring) j.call.now).1]
    have hle : (s.pace j.ring).avgNs / 8 ≤ (s.pace j.ring).avgNs := Nat.div_le_self _ _
    push_cast [cast_sub hle]
    rfl

/-- In every run a rejected job and the mean of every job are as meant, and the points of every job
are, as long as the counter of its ring is not full. -/
theorem PaceSystem.paced_of_run {l : List Job} {s : PaceSystem}
    (h : Run (PaceStep submitPacing hasTimeline) .init l s) {j : Job} (hj : j.Ok) :
    s.Keeps submitPacing hasTimeline j ∧
      ((s.points j.ring).length < 2 ^ 64 - 1 → s.Paced submitPacing hasTimeline j) := by
  refine ⟨keeps_of_run h j, fun hlt => ?_⟩
  have hrec := records_run h j.ring (by omega)
  have hout : (s.submission submitPacing hasTimeline j).out = (s.begin submitPacing hasTimeline j).2 := rfl
  have hnext : ((s.csSubmit submitPacing hasTimeline j).points j.ring).length < 2 ^ 64 := by
    rw [points_csSubmit, length_append]
    split_ifs <;> simp only [length_singleton, length_nil] <;> omega
  have hrec' := records_csSubmit hj hrec hnext
  refine ⟨⟨hrec.signal, hrec.count, hrec.carries⟩, ?_, ?_⟩
  · -- the new point is the last of the record after the job
    intro hsignals
    have hpts := points_csSubmit submitPacing hasTimeline s j j.ring
    rw [hsignals, if_pos rfl] at hpts
    have hcount := hrec'.count
    have hsignal := hrec'.signal
    rw [hpts, length_append, length_singleton] at hcount hsignal
    rw [map_append, range'_concat, hrec.signal, map_singleton] at hsignal
    have hlast := append_cancel_left hsignal
    rw [singleton_inj] at hlast
    have hold := hrec.count
    exact ⟨by omega, by omega⟩
  · intro hwait
    rw [hout] at hwait ⊢
    rcases s.begin_begun submitPacing hasTimeline j with hb | ⟨handle, out, hacq, hb, hcase⟩
    · rw [hb] at hwait
      exact absurd rfl hwait
    rw [hb] at hwait ⊢
    rcases hcase with hzero | ⟨-, minNs, hpoints⟩
    · rw [hzero] at hwait
      exact absurd rfl hwait
    subst hpoints
    exact (hrec.measure hacq).wait hlt hwait

/-- A job of ring 0 whose predecessor but one is still running, with every job paced. -/
def busyJob (seqNo : ℕ) : Job where
  ipType := .gfx
  ring := 0
  sem := ⟨⟨[], []⟩, ⟨[], []⟩, true, true⟩
  queueSyncobjWait := false
  ibs := []
  env := ⟨5, false, 0, 0, 0, true, true, true, .success⟩
  call := ⟨2, some 9, 1000, 0, 0⟩
  seqNo := seqNo

lemma busyJob_ok (seqNo : ℕ) : (busyJob seqNo).Ok where
  emitSignal := rfl
  handle := by
    intro h hh
    cases hh
    decide

/-- The third of three jobs waits for the point of the first. -/
theorem PaceSystem.paced_of_run_third :
    ((PaceSystem.init.csSubmit true true (busyJob 70)).csSubmit true true (busyJob 71)).Paced true
        true (busyJob 72) ∧
      (((PaceSystem.init.csSubmit true true (busyJob 70)).csSubmit true true
        (busyJob 71)).submission true true (busyJob 72)).out.wait = 1 :=
  ⟨(paced_of_run (.snoc (.snoc .nil ⟨busyJob_ok 70, rfl⟩) ⟨busyJob_ok 71, rfl⟩) (busyJob_ok 72)).2
    (by decide +kernel), by decide +kernel⟩

/-- A context that has performed a number of jobs. -/
def busyRun : ℕ → PaceSystem
  | 0 => .init
  | n + 1 => (busyRun n).csSubmit true true (busyJob n)

lemma run_busyRun (n : ℕ) : Run (PaceStep true true) .init ((range n).map busyJob) (busyRun n) := by
  induction n with
  | zero => exact .nil
  | succ n ih =>
    rw [range_succ, map_append, map_singleton]
    exact ih.snoc ⟨busyJob_ok n, rfl⟩

/-- A job of this kind is paced in every state, with a point of 64 bits. -/
theorem busyJob_submission (s : PaceSystem) (n : ℕ) :
    (s.submission true true (busyJob n)).signals 0 = true ∧
      (s.submission true true (busyJob n)).out.signal < 2 ^ 64 := by
  have hacq : ∃ handle, handle ≠ 0 ∧ (s.pace 0).acquire (busyJob n).call = some handle := by
    by_cases hp : (s.pace 0).syncobj ≠ 0
    · exact ⟨_, hp, if_pos hp⟩
    · exact ⟨9, by decide, if_neg hp⟩
  obtain ⟨handle, hne, hacq⟩ := hacq
  have hbegin : s.begin true true (busyJob n) = ({ s.pace 0 with syncobj := handle }.measure 1000,
      ({ s.pace 0 with syncobj := handle }.measure 1000).points 0 (busyJob n).call) := by
    have hpace : (s.pace (busyJob n).ring).acquire (busyJob n).call = some handle := hacq
    have hmode : paceMode true true (busyJob n).call.pace = 2 := rfl
    have htwo : ¬ (2 : ℤ) = 0 := by decide
    unfold begin paceBegin
    -- the threshold of the forced mode is 0, so no job is too short
    simp only [hpace, hmode, if_neg htwo, Int.le_refl, if_true, Nat.zero_div, Nat.not_lt_zero, if_false]
    rfl
  have hout : (s.submission true true (busyJob n)).out =
      ({ s.pace 0 with syncobj := handle }.measure 1000).points 0 (busyJob n).call := by
    change (s.begin true true (busyJob n)).2 = _
    rw [hbegin]
  have hresult : (s.submission true true (busyJob n)).result = .success := rfl
  refine ⟨?_, ?_⟩
  · have hring : (s.submission true true (busyJob n)).ring = 0 := rfl
    have hsyncobj : (s.submission true true (busyJob n)).out.syncobj ≠ 0 := by
      rw [hout]
      exact hne
    simp [Submission.signals, hring, hresult, hsyncobj]
  · have hsignal : (({ s.pace 0 with syncobj := handle }.measure 1000).points 0 (busyJob n).call).signal =
        add64 (s.pace 0).count 1 := rfl
    rw [hout, hsignal, add64]
    exact mod_lt _ (Nat.two_pow_pos 64)

lemma busyRun_points (n : ℕ) :
    ((busyRun n).points 0).length = n ∧ ∀ o ∈ (busyRun n).points 0, o.out.signal < 2 ^ 64 := by
  induction n with
  | zero => exact ⟨rfl, by simp [busyRun, init, points]⟩
  | succ n ih =>
    obtain ⟨hsignals, hlt⟩ := busyJob_submission (busyRun n) n
    have hpts : (busyRun (n + 1)).points 0 =
        (busyRun n).points 0 ++ [(busyRun n).submission true true (busyJob n)] := by
      have hstep := points_csSubmit true true (busyRun n) (busyJob n) 0
      rw [hsignals, if_pos rfl] at hstep
      exact hstep
    rw [hpts]
    refine ⟨by rw [length_append, length_singleton, ih.1], ?_⟩
    exact forall_mem_append.mpr ⟨ih.2, forall_mem_singleton.mpr hlt⟩

/-- After `2 ^ 64` accepted jobs the points are not consecutive: no job can signal the point `2 ^
64`. -/
theorem PaceSystem.not_consecutive_of_full :
    ∃ l s, Run (PaceStep true true) .init l s ∧
      (s.points 0).map (·.out.signal) ≠ range' 1 (s.points 0).length := by
  -- the number stays a variable, so that nothing unfolds the run
  obtain ⟨n, hn⟩ : ∃ n, n = 2 ^ 64 := ⟨_, rfl⟩
  refine ⟨_, _, run_busyRun n, ?_⟩
  obtain ⟨hlength, hlt⟩ := busyRun_points n
  rw [hlength]
  intro heq
  have hmem : n ∈ range' 1 n := mem_range'_1.mpr ⟨by omega, by omega⟩
  rw [← heq, mem_map] at hmem
  obtain ⟨o, ho, hpoint⟩ := hmem
  have hsmall := hlt o ho
  omega

end Submit

end RadvXclipse.RadvAmdgpu
