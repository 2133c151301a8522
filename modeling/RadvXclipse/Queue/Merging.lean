import RadvXclipse.Queue.Accept

/-!
# Merged and unmerged submission

A call's batches fall into groups that were merged into one submit each. The merged submit has the
waits and the signals of its batches in order, but the flag of its first batch only, no-ops apart.
So whether the permanent payloads that a group waits on are unsignalled depends on whether its first
batch waits on one.
-/

namespace RadvXclipse.Queue

open Lib List Option Submit

/-! ## Batches -/

/-- The payload that a wait for this semaphore leaves in place: its permanent one, for a binary
semaphore without a temporary payload. -/
def Semaphore.permanentWait (s : Semaphore) : List Sync :=
  if s.type = .binary ∧ s.temporary = none then [s.permanent] else []

/-- The semaphores after a wait for one of them. -/
def takeTemporary (sems : Semaphores) (n : ℕ) : Semaphores :=
  if (sems n).temporary.isSome then Function.update sems n (sems n).steal else sems

/-- The permanent payloads of binary semaphores that a list of waits is for. -/
def permanentPayloads : Semaphores → List SemaphoreSubmitInfo → List Sync
  | _, [] => []
  | sems, info :: infos =>
    (sems info.semaphore).permanentWait ++
      permanentPayloads (takeTemporary sems info.semaphore) infos

/-- What holds of the submit of one batch: its flag tells whether it waits on the permanent payload
of a binary semaphore. -/
structure Submit.Created (s : Submit) : Prop where
  flag : s.hasBinaryPermanentSemaphoreWait = true ↔ s.permanentWaits ≠ []
  permanent : PermanentPayloads s.waits

section

variable {s t m : Submit} {infos : List SubmitInfo} {sems : Semaphores} {g : List Submit}
  {a : Accepted} {p q : Payloads} {n : ℕ} {groups : List (List Submit)} {accepted : List Accepted}
  {device : SubmitMode} {env : Env} {c c' : Client} {last : Option Submit}

lemma permanentWaits_congr (h : s.waits = t.waits) : s.permanentWaits = t.permanentWaits := by
  rw [permanentWaits, permanentWaits, h]

lemma Submit.Created.congr (h : s.Created) (hw : t.waits = s.waits)
    (hf : t.hasBinaryPermanentSemaphoreWait = s.hasBinaryPermanentSemaphoreWait) : t.Created :=
  ⟨by rw [hf, permanentWaits_congr hw, h.flag], hw ▸ h.permanent⟩

lemma submitAddSemaphoreWait_fst (st : Semaphores × Submit) (info : SemaphoreSubmitInfo) :
    (submitAddSemaphoreWait st info).1 = takeTemporary st.1 info.semaphore := by
  unfold submitAddSemaphoreWait takeTemporary
  cases h : (st.1 info.semaphore).temporary <;> simp [h]

/-- A submit with one more wait. -/
theorem Submit.Created.addWait {w : Wait} (h : s.Created) (hwaits : t.waits = s.waits ++ [w])
    (hflag : t.hasBinaryPermanentSemaphoreWait = (s.hasBinaryPermanentSemaphoreWait || w.isBinaryPermanent))
    (hw : w.isBinaryPermanent = true → w.sync.isDummy = false ∧ ∃ n, w.sync.id = .existing n) :
    t.permanentWaits = s.permanentWaits ++ (if w.isBinaryPermanent = true then [w.sync] else []) ∧
      t.Created := by
  have hperm : t.permanentWaits = s.permanentWaits ++ if w.isBinaryPermanent = true then [w.sync]
    else [] := by
    rw [permanentWaits, hwaits, filter_append, map_append, permanentWaits]
    by_cases hb : w.isBinaryPermanent = true <;> simp [hb]
  refine ⟨hperm, ?_, ?_⟩
  · rw [hflag, hperm, Bool.or_eq_true, h.flag]
    by_cases hb : w.isBinaryPermanent = true <;> simp [hb]
  · rw [PermanentPayloads, hwaits]
    exact forall_mem_append.mpr ⟨h.permanent, forall_mem_singleton.mpr hw⟩

/-- One wait adds the semaphore's permanent payload if that is what it is for. -/
theorem submitAddSemaphoreWait_spec (st : Semaphores × Submit) (info : SemaphoreSubmitInfo)
    (h : st.2.Created) :
    (submitAddSemaphoreWait st info).2.permanentWaits =
        st.2.permanentWaits ++ (st.1 info.semaphore).permanentWait ∧
      (submitAddSemaphoreWait st info).2.Created := by
  unfold submitAddSemaphoreWait
  generalize hsem : st.1 info.semaphore = semaphore
  dsimp only
  split
  · next t ht =>
    obtain ⟨hwaits, hcreated⟩ := h.addWait (t := { st.2 with waits := st.2.waits ++ [_] })
      (w := ⟨t, info.stageMask, if semaphore.type = .timeline then info.value else 0, some t⟩)
      rfl (by simp [Wait.isBinaryPermanent]) (by simp [Wait.isBinaryPermanent])
    refine ⟨?_, hcreated⟩
    rw [hwaits]
    simp [Wait.isBinaryPermanent, Semaphore.permanentWait, ht]
  · next ht =>
    have hbin : Wait.isBinaryPermanent ⟨semaphore.permanent, info.stageMask,
        if semaphore.type = .timeline then info.value else 0, none⟩ =
        decide (semaphore.type = .binary) := by
      have htl := semaphore.permanent_isTimeline
      cases htype : semaphore.type <;> simp_all [Wait.isBinaryPermanent]
    obtain ⟨hwaits, hcreated⟩ := h.addWait (t := { st.2 with
        waits := st.2.waits ++ [_]
        hasBinaryPermanentSemaphoreWait :=
          st.2.hasBinaryPermanentSemaphoreWait || decide (semaphore.type = .binary) })
      rfl (by rw [hbin]) fun _ => ⟨semaphore.permanent_move, semaphore.permanent_existing⟩
    refine ⟨?_, hcreated⟩
    rw [hwaits, hbin]
    simp [Semaphore.permanentWait, ht]

lemma foldl_submitAddSemaphoreWait_spec (infos : List SemaphoreSubmitInfo)
    (st : Semaphores × Submit) (h : st.2.Created) :
    (infos.foldl submitAddSemaphoreWait st).2.permanentWaits =
        st.2.permanentWaits ++ permanentPayloads st.1 infos ∧
      (infos.foldl submitAddSemaphoreWait st).2.Created := by
  induction infos generalizing st with
  | nil => simpa [permanentPayloads] using h
  | cons info infos ih =>
    obtain ⟨hwaits, hcreated⟩ := submitAddSemaphoreWait_spec st info h
    obtain ⟨hrest, hall⟩ := ih _ hcreated
    refine ⟨?_, hall⟩
    rw [foldl_cons, hrest, hwaits, submitAddSemaphoreWait_fst, permanentPayloads, append_assoc]

lemma foldlM_submitAddSemaphoreSignal_spec {infos : List SemaphoreSubmitInfo}
    (h : infos.foldlM (submitAddSemaphoreSignal sems) s = .ok t) :
    t.waits = s.waits ∧ t.hasBinaryPermanentSemaphoreWait = s.hasBinaryPermanentSemaphoreWait := by
  apply foldlM_invariant (P := fun t => t.waits = s.waits ∧
    t.hasBinaryPermanentSemaphoreWait = s.hasBinaryPermanentSemaphoreWait) h ⟨rfl, rfl⟩
  intro info _ u u' hu hkeep
  simp only [submitAddSemaphoreSignal] at hu
  split_ifs at hu <;> cases hu <;> exact hkeep

/-- A batch waits on the permanent payloads of the binary semaphores that had no temporary one, and
its flag says whether there are any. -/
theorem submitCreate_spec {sems' : Semaphores} {info : SubmitInfo}
    (h : submitCreate sems info = .ok (sems', s)) :
    s.permanentWaits = permanentPayloads sems info.waits ∧ s.Created := by
  set s0 : Submit := { isProtected := info.isProtected, perfPassIndex := info.perfInfo.getD 0 }
    with hs0
  have hempty : s0.Created := ⟨by simp [hs0, permanentWaits], by simp [hs0, PermanentPayloads]⟩
  obtain ⟨hwaits, hcreated⟩ := foldl_submitAddSemaphoreWait_spec info.waits (sems, s0) hempty
  -- the rest of the submit does not touch its waits
  obtain ⟨hw, hf⟩ : s.waits = (info.waits.foldl submitAddSemaphoreWait (sems, s0)).2.waits ∧
      s.hasBinaryPermanentSemaphoreWait =
        (info.waits.foldl submitAddSemaphoreWait (sems, s0)).2.hasBinaryPermanentSemaphoreWait := by
    simp only [submitCreate] at h
    split at h
    · cases h
    · next t ht =>
      have hkeep := foldlM_submitAddSemaphoreSignal_spec ht
      split at h <;> cases h <;> exact hkeep
  refine ⟨?_, hcreated.congr hw hf⟩
  rw [permanentWaits_congr hw, hwaits]
  simp [hs0, permanentWaits]

/-- The submits of all batches of a call. -/
def createAll : Semaphores → List SubmitInfo → Except VkResult (List Submit)
  | _, [] => .ok []
  | sems, info :: infos => do
    let (sems, submit) ← submitCreate sems info
    let submits ← createAll sems infos
    .ok (submit :: submits)

/-! ## Groups -/

/-- `vk_queue_merge_submit` merges the batches of a group, one after the other, into one submit. -/
inductive MergesTo : List Submit → Submit → Prop
  | single (s : Submit) : MergesTo [s] s
  | merge {g : List Submit} {alloc : Bool} {first second m : Submit} :
      MergesTo g first → submitsMerge alloc first second = some m → MergesTo (g ++ [second]) m

/-- The batches of a call, grouped as they were merged and accepted. -/
def IsMerging (batches : List Submit) (groups : List (List Submit)) (accepted : List Accepted) :
    Prop :=
  groups.flatten = batches ∧ Forall₂ (fun g a => MergesTo g a.submit) groups accepted

/-- The first batch of a group that has any content. -/
def lead (g : List Submit) : Option Submit :=
  g.find? fun s => !s.isNoop

/-- What a group merges to. -/
structure Merged (g : List Submit) (m : Submit) : Prop where
  waits : m.waits = g.flatMap Submit.waits
  signals : m.signals = g.flatMap Submit.signals
  noop : m.isNoop = true ↔ lead g = none
  flag : ∀ b, lead g = some b →
    m.hasBinaryPermanentSemaphoreWait = b.hasBinaryPermanentSemaphoreWait
  ordered : g.Pairwise fun a b => a.signals = [] ∨ b.waits = []

lemma waits_of_isNoop (h : s.isNoop = true) : s.waits = [] ∧ s.signals = [] := by
  simp only [isNoop, onlySignals, Bool.and_eq_true, List.isEmpty_iff] at h
  exact ⟨h.1.2, h.2⟩

lemma lead_append (g : List Submit) (s : Submit) :
    lead (g ++ [s]) = (lead g).or (if s.isNoop then none else some s) := by
  rw [lead, find?_append, lead]
  cases h : s.isNoop <;> simp [h]

/-- The three ways a merge can succeed. -/
theorem submitsMerge_eq_some {alloc : Bool} {first second : Submit}
    (h : submitsMerge alloc first second = some m) :
    (first.signals = [] ∨ second.waits = []) ∧
      ((second.isNoop = true ∧ m = first) ∨
        (first.isNoop = true ∧ second.isNoop = false ∧ m = second) ∨
        (first.isNoop = false ∧ second.isNoop = false ∧ m.isNoop = false ∧
          m.waits = first.waits ++ second.waits ∧ m.signals = first.signals ++ second.signals ∧
          m.hasBinaryPermanentSemaphoreWait = first.hasBinaryPermanentSemaphoreWait)) := by
  unfold submitsMerge at h
  split_ifs at h with hsig hbind hperf hsecond hfirst hprot halloc
  all_goals
    have horder : first.signals = [] ∨ second.waits = [] := by
      rw [Decidable.not_and_iff_or_not, Nat.not_lt, Nat.le_zero, length_eq_zero_iff,
        Bool.not_eq_false] at hsig
      refine hsig.imp_right fun honly => ?_
      simp only [onlySignals, Bool.and_eq_true, List.isEmpty_iff] at honly
      exact honly.2
    refine ⟨horder, ?_⟩
  · exact .inl ⟨hsecond, (Option.some.inj h).symm⟩
  · exact .inr (.inl ⟨hfirst, Bool.eq_false_iff.mpr hsecond, (Option.some.inj h).symm⟩)
  · have hf := Bool.eq_false_iff.mpr hfirst
    refine .inr (.inr ⟨hf, Bool.eq_false_iff.mpr hsecond, ?_⟩)
    cases h
    refine ⟨?_, rfl, rfl, rfl⟩
    apply Bool.eq_false_iff.mpr
    intro hnoop
    simp only [isNoop, onlySignals, Bool.and_eq_true, List.isEmpty_iff, append_eq_nil_iff] at hnoop
    apply hfirst
    simp only [isNoop, onlySignals, Bool.and_eq_true, List.isEmpty_iff]
    tauto

theorem MergesTo.merged (h : MergesTo g m) : Merged g m := by
  induction h with
  | single s =>
    refine ⟨by simp, by simp, ?_, ?_, pairwise_singleton ..⟩
    · simp [lead]
    · intro b hb
      simp only [lead, find?_singleton] at hb
      split_ifs at hb
      cases hb
      rfl
  | @merge g alloc first second m _ hmerge ih =>
    obtain ⟨horder, hcases⟩ := submitsMerge_eq_some hmerge
    have hordered : (g ++ [second]).Pairwise fun a b => a.signals = [] ∨ b.waits = [] := by
      refine pairwise_append.mpr ⟨ih.ordered, pairwise_singleton .., ?_⟩
      intro a ha b hb
      rw [mem_singleton.mp hb]
      refine horder.imp_left fun hnil => ?_
      rw [ih.signals, flatMap_eq_nil_iff] at hnil
      exact hnil a ha
    rcases hcases with ⟨hsecond, rfl⟩ | ⟨hfirst, hsecond, rfl⟩ | ⟨hfirst, hsecond, hm, hw, hs, hf⟩
    · -- a no-op disappears
      obtain ⟨hw, hs⟩ := waits_of_isNoop hsecond
      have hlead : lead (g ++ [second]) = lead g := by
        rw [lead_append, if_pos hsecond, or_none]
      exact ⟨by simp [ih.waits, hw], by simp [ih.signals, hs], by rw [hlead, ih.noop],
        by rw [hlead]; exact ih.flag, hordered⟩
    · -- a group of no-ops gives way to the batch after it
      obtain ⟨hw, hs⟩ := waits_of_isNoop hfirst
      have hlead : lead (g ++ [m]) = some m := by
        rw [lead_append, ih.noop.mp hfirst, none_or, if_neg (Bool.eq_false_iff.mp hsecond)]
      refine ⟨?_, ?_, by simp [hlead, hsecond], ?_, hordered⟩
      · rw [flatMap_append, ← ih.waits, hw]
        simp
      · rw [flatMap_append, ← ih.signals, hs]
        simp
      · intro b hb
        rw [hlead] at hb
        cases hb
        rfl
    · obtain ⟨l, hl⟩ : ∃ l, lead g = some l := by
        apply ne_none_iff_exists'.mp
        intro hnone
        exact Bool.eq_false_iff.mp hfirst (ih.noop.mpr hnone)
      have hlead : lead (g ++ [second]) = some l := by
        rw [lead_append, hl, some_or]
      refine ⟨by simp [hw, ih.waits], by simp [hs, ih.signals], by simp [hlead, hm], ?_, hordered⟩
      intro b hb
      rw [hlead, ← hl] at hb
      rw [hf, ih.flag b hb]

lemma Merged.permanentWaits (h : Merged g m) : m.permanentWaits = g.flatMap Submit.permanentWaits := by
  rw [Submit.permanentWaits, h.waits, filter_flatMap, map_flatMap]
  rfl

theorem Merged.signalled (h : Merged g m) : m.signalled = g.flatMap Submit.signalled := by
  rw [Submit.signalled, h.signals, map_flatMap]
  rfl

lemma Merged.permanentPayloads (h : Merged g m) (hg : ∀ b ∈ g, b.Created) : PermanentPayloads m.waits := by
  intro w hw hb
  rw [h.waits, mem_flatMap] at hw
  obtain ⟨b, hbg, hwb⟩ := hw
  exact (hg b hbg).permanent w hwb hb

/-! ## One group -/

/-- If a group waits on a permanent payload that it does not signal, then its first batch with any
content waits on a permanent payload of a binary semaphore. -/
def LedByWait (g : List Submit) : Prop :=
  (∃ s ∈ g.flatMap permanentWaits, s ∉ g.flatMap signalled) →
    ∃ b, lead g = some b ∧ b.permanentWaits ≠ []

/-- Every permanent payload that was waited on has been unsignalled, or is signalled by the same
submit. -/
def Accepted.Unsignalled (a : Accepted) : Prop :=
  ∀ s ∈ a.submit.permanentWaits, Unsignals a.ops s ∨ s ∈ a.submit.signalled

lemma unsignalled_iff (hg : ∀ b ∈ g, b.Created) (hm : Merged g a.submit) (ha : a.Handled) :
    a.Unsignalled ↔ LedByWait g := by
  have hleads : ∀ b, lead g = some b →
      (a.submit.hasBinaryPermanentSemaphoreWait = true ↔ b.permanentWaits ≠ []) := by
    intro b hb
    rw [hm.flag b hb]
    exact (hg b (mem_of_find?_eq_some hb)).flag
  constructor
  · rintro hun ⟨s, hs, hnot⟩
    rw [← hm.permanentWaits] at hs
    rw [← hm.signalled] at hnot
    rcases hun s hs with hun | hsig
    · have hflag : a.submit.hasBinaryPermanentSemaphoreWait = true := by
        apply Bool.not_eq_false _ |>.mp
        exact fun hfalse => ha.unflagged hfalse s hun
      obtain ⟨w, hw, -⟩ := mem_permanentWaits.mp hs
      -- a group that waits is not a group of no-ops
      obtain ⟨b, hb⟩ : ∃ b, lead g = some b := by
        apply ne_none_iff_exists'.mp
        intro hnone
        rw [(waits_of_isNoop (hm.noop.mpr hnone)).1] at hw
        exact not_mem_nil hw
      exact ⟨b, hb, (hleads b hb).mp hflag⟩
    · exact absurd hsig hnot
  · intro hled s hs
    by_cases hsig : s ∈ a.submit.signalled
    · exact .inr hsig
    · obtain ⟨b, hb, hne⟩ :=
        hled ⟨s, hm.permanentWaits ▸ hs, hm.signalled ▸ hsig⟩
      exact ha.flagged ((hleads b hb).mpr hne) s hs

/-- What a batch means for the payloads of semaphores: its waits unsignal, then its signals
signal. -/
def Submit.effect (p : Payloads) (b : Submit) : Payloads :=
  fun s => if s ∈ b.signalled then true else if s ∈ b.permanentWaits then false else p s

/-- The batches of a group one after the other: in a group no wait follows a signal. -/
theorem foldl_effect (h : g.Pairwise fun a b => a.signals = [] ∨ b.waits = []) (p : Payloads)
    (s : Sync) :
    g.foldl Submit.effect p s =
      if s ∈ g.flatMap Submit.signalled then true
      else if s ∈ g.flatMap Submit.permanentWaits then false else p s := by
  induction g generalizing p with
  | nil => simp
  | cons b g ih =>
    obtain ⟨hb, hg⟩ := pairwise_cons.mp h
    have hwaits : s ∈ g.flatMap permanentWaits → s ∉ b.signalled := by
      intro hmem hsig
      obtain ⟨a, ha, hsa⟩ := mem_flatMap.mp hmem
      obtain ⟨w, hw, -⟩ := mem_permanentWaits.mp hsa
      rcases hb a ha with hnil | hnil
      · rw [signalled, hnil] at hsig
        exact not_mem_nil hsig
      · rw [hnil] at hw
        exact not_mem_nil hw
    rw [foldl_cons, ih hg, flatMap_cons, flatMap_cons]
    by_cases hs : s ∈ g.flatMap signalled
    · simp only [mem_append, hs, or_true, if_true]
    · by_cases hw : s ∈ g.flatMap permanentWaits
      · simp only [mem_append, hs, hw, hwaits hw, or_false, or_true, if_true, if_false]
      · simp only [mem_append, hs, hw, or_false, if_false, effect]

/-- An accepted group in which nothing was left signalled acts like its batches one by one. -/
theorem foldl_ops_eq (hm : Merged g a.submit) (ha : a.Handled) (hun : a.Unsignalled) {s : Sync}
    (hs : s.id = .existing n) (hpq : p s = q s) :
    a.ops.foldl PayloadOp.apply p s = g.foldl Submit.effect q s := by
  obtain ⟨moves, signals, resets, hphases⟩ := ha.phases
  rw [hphases.foldl_apply hs, foldl_effect hm.ordered, ← hm.signalled, ← hm.permanentWaits, hpq]
  by_cases hsig : s ∈ a.submit.signalled
  · rw [if_pos hsig, if_pos hsig]
  · have hiff : Unsignals a.ops s ↔ s ∈ a.submit.permanentWaits :=
      ⟨ha.permanent s, fun hmem => (hun s hmem).resolve_right hsig⟩
    rw [if_neg hsig, if_neg hsig]
    congr 1
    exact propext hiff

/-! ## Whole calls -/

/-- Payloads after everything that a call accepted, in submission order. -/
def settle (p : Payloads) (accepted : List Accepted) : Payloads :=
  (accepted.flatMap Accepted.ops).foldl PayloadOp.apply p

section

variable (h : Forall₂ (fun g a => MergesTo g a.submit) groups accepted)
include h

lemma settle_eq (ha : ∀ a ∈ accepted, a.Handled) (hun : ∀ a ∈ accepted, a.Unsignalled) {s : Sync}
    (hs : s.id = .existing n) (hpq : p s = q s) :
    settle p accepted s = groups.flatten.foldl Submit.effect q s := by
  induction h generalizing p q with
  | nil => exact hpq
  | @cons g a groups accepted hga _ ih =>
    have hhead := foldl_ops_eq hga.merged (ha a mem_cons_self) (hun a mem_cons_self) hs hpq
    rw [settle, flatMap_cons, foldl_append, flatten_cons, foldl_append]
    exact ih (fun b hb => ha b (mem_cons_of_mem a hb)) (fun b hb => hun b (mem_cons_of_mem a hb)) hhead

/-- Every group by itself. -/
theorem forall_unsignalled_iff (hg : ∀ g ∈ groups, ∀ b ∈ g, b.Created)
    (ha : ∀ a ∈ accepted, a.Handled) :
    (∀ a ∈ accepted, a.Unsignalled) ↔ ∀ g ∈ groups, LedByWait g := by
  induction h with
  | nil => simp
  | @cons g a groups accepted hga _ ih =>
    rw [forall_mem_cons] at hg ha
    rw [forall_mem_cons, forall_mem_cons, unsignalled_iff hg.1 hga.merged ha.1, ih hg.2 ha.2]

end

/-- The submit that waits to be merged with the next batch, and the batches that are in it. -/
def Collects (g : List Submit) : Option Submit → Prop
  | none => g = []
  | some m => MergesTo g m

/-- The new entries of the history after the rest of a call, and the groups they come from. -/
structure Accounts (sems : Semaphores) (infos : List SubmitInfo) (g : List Submit)
    (accepted : List Accepted) (batches : List Submit) (groups : List (List Submit)) : Prop where
  creates : createAll sems infos = .ok batches
  created : ∀ b ∈ batches, b.Created
  flatten : groups.flatten = g ++ batches
  merges : Forall₂ (fun g a => MergesTo g a.submit) groups accepted
  handled : ∀ a ∈ accepted, a.Handled

section

variable (hdevice : supportsThreadedSubmit device = true)
include hdevice

/-- One batch: it joins the submit before it, or that submit is accepted and the batch starts a new
one. -/
theorem queueMergeSubmit_spec {last' : Option Submit} (hc : c.mode.IsTracked)
    (hlast : Collects g last) (hg : ∀ b ∈ g, b.Created)
    (h : queueMergeSubmit device env c last s = .ok (c', last')) :
    c'.mode.IsTracked ∧
      ((c'.accepted = c.accepted ∧ Collects (g ++ [s]) last') ∨
        ∃ a, c'.accepted = c.accepted ++ [a] ∧ a.Handled ∧ MergesTo g a.submit ∧ Collects [s] last') := by
  unfold queueMergeSubmit at h
  cases last with
  | none =>
    cases h
    rw [show g = [] from hlast]
    exact ⟨hc, .inl ⟨rfl, .single s⟩⟩
  | some m =>
    simp only at h
    split at h
    · next merged hmerge =>
      cases h
      exact ⟨hc, .inl ⟨rfl, .merge hlast hmerge⟩⟩
    · obtain ⟨c1, hsubmit, h⟩ := bind_eq_ok.mp h
      cases h
      have hperm : PermanentPayloads m.waits := hlast.merged.permanentPayloads hg
      obtain ⟨hmode, ops, hacc, hhandled⟩ := queueSubmit_spec hdevice (by exact hc) hperm hsubmit
      exact ⟨hmode, .inr ⟨⟨m, ops⟩, hacc, hhandled, hlast, .single s⟩⟩

/-- The rest of a call: every batch, the ones already collected included, ends in a group that was
accepted. -/
theorem submitBatches_spec (hc : c.mode.IsTracked) (hlast : Collects g last)
    (hg : ∀ b ∈ g, b.Created) (h : submitBatches device env c last sems infos = .ok c') :
    ∃ new batches groups, c'.accepted = c.accepted ++ new ∧ Accounts sems infos g new batches groups := by
  induction infos generalizing c g last sems with
  | nil =>
    cases last with
    | none =>
      cases h
      rw [show g = [] from hlast]
      exact ⟨[], [], [], by simp, rfl, by simp, rfl, .nil, by simp⟩
    | some m =>
      have hperm : PermanentPayloads m.waits := hlast.merged.permanentPayloads hg
      obtain ⟨-, ops, hacc, hhandled⟩ := queueSubmit_spec hdevice hc hperm h
      exact ⟨[⟨m, ops⟩], [], [g], hacc, rfl, by simp, by simp, .cons hlast .nil, by simpa⟩
  | cons info infos ih =>
    rw [submitBatches, bind_eq_ok] at h
    obtain ⟨k, -, h⟩ := h
    rw [bind_eq_ok] at h
    obtain ⟨⟨sems', s⟩, hcreate, h⟩ := h
    obtain ⟨⟨c1, last'⟩, hmerge, h⟩ := bind_eq_ok.mp h
    have hs : s.Created := (submitCreate_spec hcreate).2
    have hall : ∀ {batches}, createAll sems' infos = .ok batches →
        createAll sems (info :: infos) = .ok (s :: batches) := by
      intro batches hb
      rw [createAll, bind_eq_ok]
      exact ⟨_, hcreate, bind_eq_ok.mpr ⟨batches, hb, rfl⟩⟩
    obtain ⟨hmode, hcases⟩ := queueMergeSubmit_spec hdevice (by exact hc) hlast hg hmerge
    rcases hcases with ⟨hacc, hcollects⟩ | ⟨a, hacc, ha, hga, hcollects⟩
    · have hg' : ∀ b ∈ g ++ [s], b.Created := by
        exact forall_mem_append.mpr ⟨hg, forall_mem_singleton.mpr hs⟩
      obtain ⟨new, batches, groups, hnew, hacct⟩ := ih hmode hcollects hg' h
      refine ⟨new, s :: batches, groups, by rw [hnew, hacc], hall hacct.creates, ?_, ?_,
        hacct.merges, hacct.handled⟩
      · exact forall_mem_cons.mpr ⟨hs, hacct.created⟩
      · rw [hacct.flatten, append_assoc, singleton_append]
    · have hg' : ∀ b ∈ [s], b.Created := by simpa using hs
      obtain ⟨new, batches, groups, hnew, hacct⟩ := ih hmode hcollects hg' h
      refine ⟨a :: new, s :: batches, g :: groups, ?_, hall hacct.creates, ?_, ?_, .cons hga hacct.merges, ?_⟩
      · rw [hnew, hacc, append_assoc, singleton_append]
      · exact forall_mem_cons.mpr ⟨hs, hacct.created⟩
      · rw [flatten_cons, hacct.flatten, singleton_append]
      · exact forall_mem_cons.mpr ⟨ha, hacct.handled⟩

lemma queueSubmit2_spec {fence : Option Sync} (hc : c.mode.IsTracked)
    (h : queueSubmit2 device env c sems infos fence = .ok c') :
    ∃ new batches groups, c'.accepted = c.accepted ++ new ∧
      Accounts sems (attachFence fence infos) [] new batches groups := by
  rw [queueSubmit2, bind_eq_ok] at h
  obtain ⟨k, -, h⟩ := h
  have hnone : Accounts sems [] [] [] [] [] := ⟨rfl, by simp, rfl, .nil, by simp⟩
  cases infos with
  | nil =>
    cases fence with
    | none =>
      cases h
      exact ⟨[], [], [], by simp, hnone⟩
    | some fence =>
      refine ⟨[], [], [], ?_, hnone⟩
      rw [append_nil]
      obtain ⟨k', -, h⟩ := bind_eq_ok.mp h
      split at h
      · obtain ⟨r, -, h⟩ := bind_eq_ok.mp h
        cases h
        rfl
      · obtain ⟨r, -, h⟩ := bind_eq_ok.mp h
        cases h
        rfl
      · cases h
        rfl
      · cases h
  | cons info infos =>
    have hnothing : Collects [] none := rfl
    have hloop : submitBatches device env { c with calls := k } none sems
        (attachFence fence (info :: infos)) = .ok c' := h
    obtain ⟨new, batches, groups, hacc, hacct⟩ :=
      submitBatches_spec hdevice (by exact hc) hnothing (by simp) hloop
    exact ⟨new, batches, groups, hacc, hacct⟩

end

end

/-- For every list of batches and every way they were merged: the permanent payloads of binary
semaphores that the call waited on have all been unsignalled or signalled again, and the payloads
end as if the batches had been submitted one by one, exactly if every merged group is led by a batch
with such a wait or signals what it waits on. -/
theorem unsignalled_iff_ledByWait {device : SubmitMode} {env : Env} {c c' : Client}
    {sems : Semaphores} {infos : List SubmitInfo} {fence : Option Sync}
    (hdevice : supportsThreadedSubmit device = true)
    (hmode : c.mode = .immediate ∨ c.mode = .threaded) (hnew : c.accepted = [])
    (h : queueSubmit2 device env c sems infos fence = .ok c') :
    ∃ batches, createAll sems (attachFence fence infos) = .ok batches ∧
      (∃ groups, IsMerging batches groups c'.accepted) ∧
      ∀ groups, IsMerging batches groups c'.accepted →
        (((∀ a ∈ c'.accepted, a.Unsignalled) ∧
            ∀ p s n, s.id = .existing n →
              settle p c'.accepted s = batches.foldl Submit.effect p s) ↔
          ∀ g ∈ groups, LedByWait g) := by
  obtain ⟨new, batches, groups0, hacc, hacct⟩ := queueSubmit2_spec hdevice hmode h
  rw [hnew, nil_append] at hacc
  subst hacc
  refine ⟨batches, hacct.creates, ⟨groups0, hacct.flatten, hacct.merges⟩, ?_⟩
  rintro groups ⟨hflat, hmerges⟩
  have hcreated : ∀ g ∈ groups, ∀ b ∈ g, b.Created := by
    intro g hg b hb
    apply hacct.created
    rw [← hflat]
    exact mem_flatten_of_mem hg hb
  rw [← forall_unsignalled_iff hmerges hcreated hacct.handled]
  refine ⟨And.left, fun hun => ⟨hun, fun p s n hs => ?_⟩⟩
  rw [settle_eq hmerges hacct.handled hun hs rfl, hflat]

/-! The rest is one call that meets the bug. A binary semaphore, its payload and a call with two
batches: the first has work only, the second waits on the semaphore. -/

def samplePayload : Sync := { id := .existing 0 }

def sampleSemaphore : Semaphore where
  type := .binary
  permanent := samplePayload
  temporary := none
  permanent_existing := ⟨0, rfl⟩
  permanent_isTimeline := by decide
  permanent_move := rfl
  temporary_binary h := absurd h Bool.false_ne_true

def sampleCall : List SubmitInfo :=
  [{ commandBuffers := [1] }, { commandBuffers := [2], waits := [{ semaphore := 0 }] }]

/-- The two batches after the merge: the flag is that of the first. -/
def sampleMerged : Submit :=
  { waits := [⟨samplePayload, 0, 0, none⟩], commandBuffers := [1, 2] }

/-- The second batch alone. -/
def sampleSecond : Submit :=
  { waits := [⟨samplePayload, 0, 0, none⟩], commandBuffers := [2]
    hasBinaryPermanentSemaphoreWait := true }

/-- The environment in which everything succeeds but the allocation for the merge. -/
def noMerge : Env := fun n => if n = 3 then .errorOutOfHostMemory else .success

/-- Not merged, the two batches are two groups, and the payload is reset. -/
theorem unsignalled_iff_ledByWait_noMerge :
    (∃ batches, createAll (fun _ => sampleSemaphore) (attachFence none sampleCall) = .ok batches ∧
      (∃ groups, IsMerging batches groups
        [⟨{ commandBuffers := [1] }, []⟩, ⟨sampleSecond, [.reset samplePayload]⟩]) ∧
      ∀ groups, IsMerging batches groups
          [⟨{ commandBuffers := [1] }, []⟩, ⟨sampleSecond, [.reset samplePayload]⟩] →
        (((∀ a ∈ ([⟨{ commandBuffers := [1] }, []⟩, ⟨sampleSecond, [.reset samplePayload]⟩] :
              List Accepted), a.Unsignalled) ∧
            ∀ p s n, s.id = .existing n →
              settle p [⟨{ commandBuffers := [1] }, []⟩, ⟨sampleSecond, [.reset samplePayload]⟩] s =
                batches.foldl Submit.effect p s) ↔
          ∀ g ∈ groups, LedByWait g)) := by
  have hrun : queueSubmit2 .threadedOnDemand noMerge { mode := .immediate }
      (fun _ => sampleSemaphore) sampleCall none =
      .ok { mode := .immediate, calls := { made := 9 },
            accepted := [⟨{ commandBuffers := [1] }, []⟩,
              ⟨sampleSecond, [.reset samplePayload]⟩] } := rfl
  exact unsignalled_iff_ledByWait (h := hrun) (by decide) (.inl rfl) rfl

/-- Merged, the call leaves the payload as it was, while without the merge it is reset. -/
theorem not_unsignalled_of_merged :
    queueSubmit2 .threadedOnDemand (fun _ => .success) { mode := .immediate }
        (fun _ => sampleSemaphore) sampleCall none =
      .ok { mode := .immediate, calls := { made := 6 }, accepted := [⟨sampleMerged, []⟩] } ∧
    queueSubmit2 .threadedOnDemand noMerge { mode := .immediate }
        (fun _ => sampleSemaphore) sampleCall none =
      .ok { mode := .immediate, calls := { made := 9 },
            accepted := [⟨{ commandBuffers := [1] }, []⟩,
              ⟨sampleSecond, [.reset samplePayload]⟩] } ∧
    ¬ Accepted.Unsignalled ⟨sampleMerged, []⟩ ∧
    settle (fun _ => true) [⟨sampleMerged, []⟩] samplePayload = true ∧
    settle (fun _ => true) [⟨{ commandBuffers := [1] }, []⟩, ⟨sampleSecond, [.reset samplePayload]⟩]
      samplePayload = false := by
  refine ⟨rfl, rfl, ?_, by decide, by decide⟩
  unfold Accepted.Unsignalled
  decide

end RadvXclipse.Queue
