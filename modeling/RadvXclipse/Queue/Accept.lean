import RadvXclipse.Lib.Fold
import RadvXclipse.Queue.Submit

/-!
# What accepting one submit does to payloads

`vk_queue_submit` performs moves first, then the driver signals (or will signal), and last come the
resets, which leave alone what was signalled. The flag of the submit guards the moves and the resets
together.
-/

namespace RadvXclipse.Queue

open Lib List Function PayloadOp

/-- A wait for the permanent payload of a binary semaphore. -/
def Wait.isBinaryPermanent (w : Wait) : Bool :=
  !w.sync.isTimeline && w.temp.isNone

/-- The permanent payloads of binary semaphores that a submit waits on. -/
def Submit.permanentWaits (s : Submit) : List Sync :=
  (s.waits.filter Wait.isBinaryPermanent).map Wait.sync

/-- The payloads that a submit signals. -/
def Submit.signalled (s : Submit) : List Sync :=
  s.signals.map Signal.sync

/-- The operations reset `s`, or move its payload away. -/
def Unsignals (ops : List PayloadOp) (s : Sync) : Prop :=
  ∃ op ∈ ops, op.unsignals s = true

instance (ops : List PayloadOp) (s : Sync) : Decidable (Unsignals ops s) :=
  inferInstanceAs (Decidable (∃ op ∈ ops, op.unsignals s = true))

/-- The waits for permanent payloads are for payloads that existed before the call, of a type that
can be moved. -/
def PermanentPayloads (ws : List Wait) : Prop :=
  ∀ w ∈ ws, w.isBinaryPermanent = true → w.sync.isDummy = false ∧ ∃ n, w.sync.id = .existing n

lemma mem_permanentWaits {m : Submit} {s : Sync} :
    s ∈ m.permanentWaits ↔ ∃ w ∈ m.waits, w.isBinaryPermanent = true ∧ w.sync = s := by
  simp [Submit.permanentWaits, and_assoc]

section Unsignals

variable {ops ops' : List PayloadOp} {op : PayloadOp} {s : Sync}

@[simp]
lemma not_unsignals_nil : ¬ Unsignals [] s := by
  simp [Unsignals]

@[simp]
lemma unsignals_cons : Unsignals (op :: ops) s ↔ op.unsignals s = true ∨ Unsignals ops s := by
  simp [Unsignals]

@[simp]
lemma unsignals_append : Unsignals (ops ++ ops') s ↔ Unsignals ops s ∨ Unsignals ops' s := by
  simp [Unsignals, or_and_right, exists_or]

end Unsignals

/-! ## Payloads after a list of operations -/

/-- Operations that each give `s` the same value or leave it alone. -/
theorem foldl_apply_of_const {ops : List PayloadOp} {s : Sync} {v : Bool} {T : PayloadOp → Prop}
    [DecidablePred T] (h : ∀ op ∈ ops, ∀ p : Payloads, op.apply p s = if T op then v else p s)
    (p : Payloads) : ops.foldl PayloadOp.apply p s = if ∃ op ∈ ops, T op then v else p s := by
  induction ops generalizing p with
  | nil => simp
  | cons op ops ih =>
    have hop := h op mem_cons_self p
    rw [foldl_cons, ih (fun o ho => h o (mem_cons_of_mem op ho)), hop]
    by_cases htail : ∃ o ∈ ops, T o
    · rw [if_pos htail, if_pos]
      exact htail.imp fun o ho => ⟨mem_cons_of_mem op ho.1, ho.2⟩
    · simp only [mem_cons, exists_eq_or_imp, htail, if_false, or_false]

/-- A move to a temporary of the call, seen from a payload that existed before. -/
theorem apply_move {s t : Sync} {n m : ℕ} (hs : s.id = .existing n) (p : Payloads) :
    (PayloadOp.move { id := .waitTemp m } t).apply p s = if t = s then false else p s := by
  have hne : s ≠ { id := .waitTemp m } := by
    rintro rfl
    exact SyncId.noConfusion hs
  change update (update p _ _) t false s = _
  rw [update_apply, update_of_ne hne]
  exact if_congr eq_comm rfl rfl

/-- The three phases of a submit: moves to temporaries, signals, and resets of what is not
signalled. -/
structure Phases (m : Submit) (ops moves signals resets : List PayloadOp) : Prop where
  eq : ops = moves ++ signals ++ resets
  moves : ∀ op ∈ moves, ∃ n t, op = .move { id := .waitTemp n } t
  signals : ∃ f ∈ [PayloadOp.signal, PayloadOp.enqueueSignal], signals = m.signalled.map f
  resets : ∀ op ∈ resets, ∃ t, op = .reset t ∧ t ∉ m.signalled

namespace Phases

variable {m : Submit} {ops moves signals resets : List PayloadOp}

section

variable (h : Phases m ops moves signals resets)
include h

lemma foldl_moves {s : Sync} {n : ℕ} (hs : s.id = .existing n) (p : Payloads) :
    moves.foldl PayloadOp.apply p s = if Unsignals moves s then false else p s := by
  apply foldl_apply_of_const
  intro op hop p
  obtain ⟨k, t, rfl⟩ := h.moves op hop
  rw [apply_move hs]
  simp [unsignals]

lemma foldl_resets (s : Sync) (p : Payloads) :
    resets.foldl PayloadOp.apply p s = if Unsignals resets s then false else p s := by
  apply foldl_apply_of_const
  intro op hop p
  obtain ⟨t, rfl, -⟩ := h.resets op hop
  simp [unsignals, apply, update_apply, @eq_comm _ t]

lemma foldl_signals (s : Sync) (p : Payloads) :
    signals.foldl PayloadOp.apply p s = if s ∈ m.signalled then true else p s := by
  obtain ⟨f, hf, rfl⟩ := h.signals
  have hstep : ∀ op ∈ m.signalled.map f, ∀ p : Payloads, op.apply p s = if op = f s then true else p s := by
    intro op hop p
    obtain ⟨t, -, rfl⟩ := mem_map.mp hop
    rcases mem_pair.mp hf with rfl | rfl <;>
      simp [apply, update_apply, eq_comm]
  rw [foldl_apply_of_const hstep]
  congr 1
  rcases mem_pair.mp hf with rfl | rfl <;> simp

lemma not_unsignals_signals (s : Sync) : ¬ Unsignals signals s := by
  obtain ⟨f, hf, rfl⟩ := h.signals
  rintro ⟨op, hop, hs⟩
  obtain ⟨t, -, rfl⟩ := mem_map.mp hop
  rcases mem_pair.mp hf with rfl | rfl <;> exact Bool.false_ne_true hs

lemma unsignals_iff (s : Sync) : Unsignals ops s ↔ Unsignals moves s ∨ Unsignals resets s := by
  simp [h.eq, h.not_unsignals_signals s]

/-- What is signalled ends signalled, else what is unsignalled ends unsignalled, and the rest
keeps its payload. -/
theorem foldl_apply {s : Sync} {n : ℕ} (hs : s.id = .existing n) (p : Payloads) :
    ops.foldl PayloadOp.apply p s = if s ∈ m.signalled then true else if Unsignals ops s then false
      else p s := by
  have hreset : s ∈ m.signalled → ¬ Unsignals resets s := by
    rintro hmem ⟨op, hop, hun⟩
    obtain ⟨t, rfl, ht⟩ := h.resets op hop
    rw [unsignals, beq_iff_eq] at hun
    exact ht (hun ▸ hmem)
  have hun := h.unsignals_iff s
  rw [h.eq, foldl_append, foldl_append, h.foldl_resets, h.foldl_signals, h.foldl_moves hs, ← h.eq]
  by_cases hmem : s ∈ m.signalled
  · rw [if_pos hmem, if_neg (hreset hmem), if_pos hmem]
  · rw [if_neg hmem]
    by_cases hr : Unsignals resets s
    · rw [if_pos hr, if_neg hmem, if_pos (hun.mpr (.inr hr))]
    · rw [if_neg hr, if_neg hmem]
      congr 1
      simp [hun, hr]

end

end Phases

/-! ## The loops -/

section

variable {env : Env} {k k' : Calls} {mv : Bool} {ws : List Wait} {ops : List PayloadOp} {w : Wait}
  {m m' : Submit} {device : SubmitMode} {c c' : Client}

/-- What the moving loop moves, and which waits for permanent payloads it leaves. -/
theorem moveWaits_spec {ws' : List Wait} (h : moveWaits env mv k ws = .ok (k', ws', ops)) :
    (∀ op ∈ ops, ∃ n t, op = .move { id := .waitTemp n } t) ∧
    (∀ s, Unsignals ops s ↔ ∃ w ∈ ws, w.staysInPlace mv = false ∧ w.sync = s) ∧
    ∀ w, w ∈ ws' ∧ w.isBinaryPermanent = true ↔
      w ∈ ws ∧ w.isBinaryPermanent = true ∧ w.staysInPlace mv = true := by
  induction ws generalizing k k' ws' ops with
  | nil =>
    cases h
    simp
  | cons w ws ih =>
    rw [moveWaits] at h
    by_cases hstay : w.staysInPlace mv = true
    · rw [if_pos hstay, bind_eq_ok] at h
      obtain ⟨⟨k1, ws1, ops1⟩, hrest, h⟩ := h
      cases h
      obtain ⟨hops, hun, hleft⟩ := ih hrest
      refine ⟨hops, fun s => ?_, fun v => ?_⟩
      · rw [hun s]
        simp [hstay]
      · simp only [mem_cons, or_and_right, hleft v]
        refine or_congr_left (and_congr_right ?_)
        rintro rfl
        simp [hstay]
    · rw [if_neg hstay] at h
      simp only [bind_eq_ok] at h
      obtain ⟨k1, -, k2, -, k3, -, ⟨k4, ws1, ops1⟩, hrest, h⟩ := h
      cases h
      obtain ⟨hops, hun, hleft⟩ := ih hrest
      have hmoves : w.staysInPlace mv = false := Bool.eq_false_iff.mpr hstay
      refine ⟨?_, fun s => ?_, fun v => ?_⟩
      · exact forall_mem_cons.mpr ⟨⟨_, _, rfl⟩, hops⟩
      · rw [unsignals_cons, hun s]
        simp [unsignals, hmoves]
      · -- the moved wait has a temporary now, so it is none for a permanent payload any more
        rw [mem_cons, or_and_right, hleft v]
        constructor
        · rintro (⟨rfl, hb⟩ | ⟨hmem, hb⟩)
          · simp [Wait.isBinaryPermanent] at hb
          · exact ⟨mem_cons_of_mem w hmem, hb⟩
        · rintro ⟨hmem, hb, hs⟩
          rcases mem_cons.mp hmem with rfl | hmem
          · exact absurd hs hstay
          · exact .inr ⟨hmem, hb, hs⟩

/-- The resetting loop resets the permanent payloads that the submit does not signal. -/
theorem resetWaits_spec {signals : List Signal} (h : resetWaits env signals k ws = .ok (k', ops)) :
    (∀ op ∈ ops, ∃ t, op = .reset t ∧ t ∉ signals.map Signal.sync) ∧
    ∀ s, Unsignals ops s ↔
      s ∉ signals.map Signal.sync ∧ ∃ w ∈ ws, w.isBinaryPermanent = true ∧ w.sync = s := by
  induction ws generalizing k k' ops with
  | nil =>
    cases h
    simp
  | cons w ws ih =>
    rw [resetWaits] at h
    have hperm : w.isBinaryPermanent = !(w.sync.isTimeline || w.temp.isSome) := by
      simp [Wait.isBinaryPermanent]
    have hany : (signals.any fun s => s.sync == w.sync) = true ↔ w.sync ∈ signals.map Signal.sync := by
      simp [any_eq_true]
    by_cases hskip : (w.sync.isTimeline || w.temp.isSome) = true
    · rw [if_pos hskip] at h
      obtain ⟨hops, hun⟩ := ih h
      refine ⟨hops, fun s => ?_⟩
      rw [hun s]
      simp [hperm, hskip]
    · rw [if_neg hskip] at h
      have hbin : w.isBinaryPermanent = true := by simpa [hperm] using hskip
      by_cases hsig : (signals.any fun s => s.sync == w.sync) = true
      · rw [if_pos hsig] at h
        obtain ⟨hops, hun⟩ := ih h
        refine ⟨hops, fun s => ?_⟩
        rw [hun s]
        refine and_congr_right fun hs => ?_
        have hne : w.sync ≠ s := fun heq => hs (heq ▸ hany.mp hsig)
        simp [hne]
      · rw [if_neg hsig] at h
        simp only [bind_eq_ok] at h
        obtain ⟨k1, -, ⟨k2, ops1⟩, hrest, h⟩ := h
        cases h
        obtain ⟨hops, hun⟩ := ih hrest
        have hnot : w.sync ∉ signals.map Signal.sync := fun hmem => hsig (hany.mpr hmem)
        refine ⟨?_, fun s => ?_⟩
        · exact forall_mem_cons.mpr ⟨⟨w.sync, rfl, hnot⟩, hops⟩
        · rw [unsignals_cons, hun s]
          constructor
          · rintro (heq | ⟨hs, v, hv, hb⟩)
            · rw [unsignals, beq_iff_eq] at heq
              exact ⟨heq ▸ hnot, w, mem_cons_self, hbin, heq⟩
            · exact ⟨hs, v, mem_cons_of_mem w hv, hb⟩
          · rintro ⟨hs, v, hv, hb, heq⟩
            rcases mem_cons.mp hv with rfl | hv
            · exact .inl (beq_iff_eq.mpr heq)
            · exact .inr ⟨hs, v, hv, hb, heq⟩

/-- Unwrapping the waits drops some. -/
theorem mem_of_mem_filterMap_unwrap (h : w ∈ ws.filterMap Wait.unwrap) : w ∈ ws := by
  obtain ⟨v, hv, heq⟩ := mem_filterMap.mp h
  unfold Wait.unwrap at heq
  split_ifs at heq
  exact Option.some.inj heq ▸ hv

/-- It keeps those for permanent payloads. -/
theorem mem_filterMap_unwrap (hw : w ∈ ws) (hb : w.isBinaryPermanent = true) (hd : w.sync.isDummy = false) :
    w ∈ ws.filterMap Wait.unwrap := by
  simp only [Wait.isBinaryPermanent, Bool.and_eq_true, Bool.not_eq_true'] at hb
  exact mem_filterMap.mpr ⟨w, hw, by simp [Wait.unwrap, hb.1, hd]⟩

/-! ## One submit -/

/-- What accepting a submit does: with the flag set it unsignals exactly the permanent payloads that
were waited on, apart from some that it signals; without the flag it unsignals nothing. -/
structure Accepted.Handled (a : Accepted) : Prop where
  phases : ∃ moves signals resets, Phases a.submit a.ops moves signals resets
  permanent : ∀ s, Unsignals a.ops s → s ∈ a.submit.permanentWaits
  flagged : a.submit.hasBinaryPermanentSemaphoreWait = true →
    ∀ s ∈ a.submit.permanentWaits, Unsignals a.ops s ∨ s ∈ a.submit.signalled
  unflagged : a.submit.hasBinaryPermanentSemaphoreWait = false → ∀ s, ¬ Unsignals a.ops s

lemma isBinaryPermanent_of_not_staysInPlace (h : w.staysInPlace mv = false) : w.isBinaryPermanent = true := by
  simp only [Wait.staysInPlace, Bool.or_eq_false_iff] at h
  simp [Wait.isBinaryPermanent, h.1.1, Option.isSome_eq_false_iff.mp h.1.2]

lemma staysInPlace_true (h : w.isBinaryPermanent = true) : w.staysInPlace true = false := by
  simp only [Wait.isBinaryPermanent, Bool.and_eq_true, Bool.not_eq_true', Option.isNone_iff_eq_none] at h
  simp [Wait.staysInPlace, h.1, h.2]

/-- Without the flag a submit is handed over as it is. -/
theorem submitMove_of_unflagged (hflag : m.hasBinaryPermanentSemaphoreWait = false) :
    submitMoveBinaryWaitsToTemps env mv k m = .ok (k, m, []) := by
  rw [submitMoveBinaryWaitsToTemps, hflag]
  rfl

/-- With it only the waits change. -/
theorem submitMove_of_flagged (hflag : m.hasBinaryPermanentSemaphoreWait = true)
    (h : submitMoveBinaryWaitsToTemps env mv k m = .ok (k', m', ops)) :
    ∃ ws, moveWaits env mv k m.waits = .ok (k', ws, ops) ∧ m' = { m with waits := ws } := by
  rw [submitMoveBinaryWaitsToTemps, if_pos hflag, bind_eq_ok] at h
  obtain ⟨⟨k1, ws, ops1⟩, hmove, h⟩ := h
  cases h
  exact ⟨ws, hmove, rfl⟩

/-- Without the flag nothing is moved or reset. -/
theorem Phases.handled {signals : List PayloadOp} (h : Phases m ops [] signals [])
    (hflag : m.hasBinaryPermanentSemaphoreWait = false) : Accepted.Handled ⟨m, ops⟩ := by
  have hnot : ∀ s, ¬ Unsignals ops s := by
    intro s hs
    rcases (h.unsignals_iff s).mp hs with hs | hs <;> exact not_unsignals_nil hs
  exact ⟨⟨_, _, _, h⟩, fun s hs => absurd hs (hnot s),
    fun hf => absurd (hflag.symm.trans hf) Bool.false_ne_true, fun _ => hnot⟩

/-- The submit thread gets a submit all of whose binary waits are for temporaries. -/
theorem handled_threaded {moves : List PayloadOp}
    (h : submitMoveBinaryWaitsToTemps env true k m = .ok (k', m', moves)) :
    Accepted.Handled ⟨m, moves ++ m'.enqueueSignals⟩ := by
  cases hflag : m.hasBinaryPermanentSemaphoreWait with
  | false =>
    rw [submitMove_of_unflagged hflag] at h
    cases h
    have hphases : Phases m m.enqueueSignals [] m.enqueueSignals [] :=
      ⟨by simp, by simp,
        ⟨.enqueueSignal, by simp, by simp [Submit.enqueueSignals, Submit.signalled]⟩, by simp⟩
    exact hphases.handled hflag
  | true =>
    obtain ⟨ws, hmove, rfl⟩ := submitMove_of_flagged hflag h
    obtain ⟨hops, hun, -⟩ := moveWaits_spec hmove
    have hphases : Phases m (moves ++ m.enqueueSignals) moves m.enqueueSignals [] :=
      ⟨by simp, hops, ⟨.enqueueSignal, by simp, by simp [Submit.enqueueSignals, Submit.signalled]⟩, by simp⟩
    refine ⟨⟨_, _, _, hphases⟩, fun s hs => ?_, fun _ s hs => .inl ?_,
      fun hf => absurd (hflag.symm.trans hf) Bool.noConfusion⟩
    · rcases (hphases.unsignals_iff s).mp hs with hs | hs
      · obtain ⟨w, hw, hstay, heq⟩ := (hun s).mp hs
        exact mem_permanentWaits.mpr ⟨w, hw, isBinaryPermanent_of_not_staysInPlace hstay, heq⟩
      · exact absurd hs not_unsignals_nil
    · obtain ⟨w, hw, hb, heq⟩ := mem_permanentWaits.mp hs
      exact (hphases.unsignals_iff s).mpr (.inl ((hun s).mpr ⟨w, hw, staysInPlace_true hb, heq⟩))

/-- Without a submit thread the shared payloads are moved and the others are reset. -/
theorem handled_immediate (hdevice : supportsThreadedSubmit device = true)
    (hm : PermanentPayloads m.waits) (h : submitImmediate device env k m = .ok (k', ops)) :
    Accepted.Handled ⟨m, ops⟩ := by
  simp only [submitImmediate, submitFinal, hdevice, if_true, Bool.true_and, bind_eq_ok] at h
  obtain ⟨⟨k1, m1, moves⟩, hmove, ⟨k2, final, signals⟩, ⟨k3, -, hfinal⟩, ⟨k4, resets⟩, hreset, h⟩ := h
  cases hfinal
  cases h
  cases hflag : m.hasBinaryPermanentSemaphoreWait with
  | false =>
    rw [submitMove_of_unflagged hflag] at hmove
    cases hmove
    rw [hflag] at hreset
    cases hreset
    exact Phases.handled ⟨rfl, by simp, ⟨.signal, by simp, by simp [Submit.signalled]⟩, by simp⟩ hflag
  | true =>
    obtain ⟨ws, hmoves, rfl⟩ := submitMove_of_flagged hflag hmove
    rw [if_pos hflag] at hreset
    obtain ⟨hops, hun, hleft⟩ := moveWaits_spec hmoves
    obtain ⟨hresets, hunr⟩ := resetWaits_spec hreset
    have hphases : Phases m (moves ++ (m.signals.map fun s => .signal s.sync) ++ resets) moves
        (m.signals.map fun s => .signal s.sync) resets :=
      ⟨rfl, hops, ⟨.signal, by simp, by simp [Submit.signalled]⟩, hresets⟩
    refine ⟨⟨_, _, _, hphases⟩, fun s hs => ?_, fun _ s hs => ?_,
      fun hf => absurd (hflag.symm.trans hf) Bool.noConfusion⟩
    · rcases (hphases.unsignals_iff s).mp hs with hs | hs
      · obtain ⟨w, hw, hstay, heq⟩ := (hun s).mp hs
        exact mem_permanentWaits.mpr ⟨w, hw, isBinaryPermanent_of_not_staysInPlace hstay, heq⟩
      · obtain ⟨-, w, hw, hb, heq⟩ := (hunr s).mp hs
        obtain ⟨hmem, -⟩ := (hleft w).mp ⟨mem_of_mem_filterMap_unwrap hw, hb⟩
        exact mem_permanentWaits.mpr ⟨w, hmem, hb, heq⟩
    · obtain ⟨w, hw, hb, heq⟩ := mem_permanentWaits.mp hs
      by_cases hsig : s ∈ m.signalled
      · exact .inr hsig
      refine .inl ((hphases.unsignals_iff s).mpr ?_)
      cases hstay : w.staysInPlace false with
      | false => exact .inl ((hun s).mpr ⟨w, hw, hstay, heq⟩)
      | true =>
        have hws := ((hleft w).mpr ⟨hw, hb, hstay⟩).1
        exact .inr ((hunr s).mpr ⟨hsig, w, mem_filterMap_unwrap hws hb (hm w hw hb).1, hb, heq⟩)

/-- The queue modes in which payloads are tracked on a device with submit threads. -/
def SubmitMode.IsTracked (mode : SubmitMode) : Prop :=
  mode = .immediate ∨ mode = .threaded

lemma enableThreadOnDemand_spec (h : enableThreadOnDemand device env c = .ok c')
    (hc : c.mode.IsTracked) : c'.mode.IsTracked ∧ c'.accepted = c.accepted := by
  unfold enableThreadOnDemand at h
  split_ifs at h with hdemand
  · split at h
    · cases h
      exact ⟨hc, rfl⟩
    · obtain ⟨k, -, h⟩ := bind_eq_ok.mp h
      cases h
      exact ⟨.inr rfl, rfl⟩
    · cases h
  · cases h
    exact ⟨hc, rfl⟩

/-- `vk_queue_submit` accepts one submit, in either mode. -/
theorem queueSubmit_spec (hdevice : supportsThreadedSubmit device = true) (hc : c.mode.IsTracked)
    (hm : PermanentPayloads m.waits) (h : queueSubmit device env c m = .ok c') :
    c'.mode.IsTracked ∧ ∃ ops, c'.accepted = c.accepted ++ [⟨m, ops⟩] ∧ Accepted.Handled ⟨m, ops⟩ := by
  rw [queueSubmit, bind_eq_ok] at h
  obtain ⟨c1, hon, h⟩ := h
  obtain ⟨hmode, hacc⟩ := enableThreadOnDemand_spec hon hc
  rcases hmode with hmode | hmode
  · rw [hmode] at h
    obtain ⟨⟨k, ops⟩, himm, h⟩ := bind_eq_ok.mp h
    cases h
    exact ⟨.inl rfl, ops, by rw [hacc], handled_immediate hdevice hm himm⟩
  · rw [hmode] at h
    obtain ⟨⟨k, m', moves⟩, hmove, h⟩ := bind_eq_ok.mp h
    cases h
    exact ⟨.inr rfl, _, by rw [hacc], handled_threaded hmove⟩

end

end RadvXclipse.Queue
