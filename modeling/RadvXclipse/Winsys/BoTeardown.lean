import RadvXclipse.Winsys.BoOwnership

/-!
# Teardown of a winsys

While a winsys is torn down its purges take its entries from the cache and destroy the BOs. That
this ends rests on the marker: as long as it names the winsys, the cache refuses what it has just
given up. The marker is one variable for the whole process, so a second teardown takes it away.
-/

namespace RadvXclipse.BoCache

open Lib Util List Option Nat

/-! ## Teardowns and their calls -/

/-- The number of entries a winsys has in the cache. -/
def Process.entriesOf (s : Process) (ws : WsId) : ℕ := s.ibcache.countP fun e => e.ws = ws

lemma Process.entriesOf_le (s : Process) (ws : WsId) : s.entriesOf ws ≤ s.ibcache.length := countP_le_length

section

variable {s s' : Process} {ws ws' : WsId} {b : BoId} {p : Entry → Bool} {e : Entry}

lemma Parks.entriesOf (h : Parks s s' ws b) (hne : ws' ≠ ws) : s'.entriesOf ws' = s.entriesOf ws' := by
  obtain ⟨e, -, hws, -, hcache⟩ := h.entry
  unfold Process.entriesOf
  rw [hcache, countP_append, countP_singleton, hws, if_neg (by simpa using hne.symm), add_zero]

lemma Takes.entriesOf (h : Takes s s' p e) (ws : WsId) :
    s.entriesOf ws = s'.entriesOf ws + if e.ws = ws then 1 else 0 := by
  unfold Process.entriesOf
  rw [h.perm.countP_eq, countP_cons]
  simp

/-- What a step of one winsys leaves as it was: the marker and the entries of the others. -/
structure ActsFor (ws : WsId) (s s' : Process) : Prop where
  length : s'.ibcache.length ≤ ibcacheBuckets
  dying : s'.dying = s.dying
  others : ∀ ws', ws' ≠ ws → s'.entriesOf ws' = s.entriesOf ws'

lemma ActsFor.of_cache (hlen : s.ibcache.length ≤ ibcacheBuckets)
    (hcache : s'.ibcache = s.ibcache) (hdying : s'.dying = s.dying) : ActsFor ws s s' := by
  refine ⟨?_, hdying, fun ws' _ => ?_⟩
  · rw [hcache]
    exact hlen
  · unfold Process.entriesOf
    rw [hcache]

lemma Parks.acts (h : Parks s s' ws b) : ActsFor ws s s' := by
  refine ⟨?_, h.same.dying, fun ws' hne => h.entriesOf hne⟩
  obtain ⟨e, -, -, -, hcache⟩ := h.entry
  rw [hcache, length_append]
  exact h.room

lemma Takes.acts (h : Takes s s' p e) (hlen : s.ibcache.length ≤ ibcacheBuckets) : ActsFor e.ws s s' := by
  refine ⟨?_, h.same.dying, fun ws' hne => ?_⟩
  · rw [h.perm.length_eq, length_cons] at hlen
    exact le_of_succ_le hlen
  · rw [h.entriesOf ws', if_neg hne.symm, add_zero]

/-- Applications use a winsys until its teardown begins, and no call on it is under way then. -/
def Label.Proper (s : Sys) : Label → Prop
  | .create ws _ _ => s.stage ws = .alive
  | .destroy ws _ => s.stage ws = .alive
  | .beginDestroy ws => ∀ c ∈ s.calls, c.ws ≠ ws
  | _ => True

lemma Sys.setStage_self (s : Sys) (ws : WsId) (st : Stage) : (s.setStage ws st).stage ws = st :=
  Function.update_self ..

lemma Sys.setStage_of_ne (s : Sys) (st : Stage) (hne : ws' ≠ ws) :
    (s.setStage ws st).stage ws' = s.stage ws' :=
  Function.update_of_ne hne ..

end

instance (s : Sys) : ∀ l : Label, Decidable (l.Proper s)
  | .create ws _ _ => inferInstanceAs (Decidable (s.stage ws = .alive))
  | .destroy ws _ => inferInstanceAs (Decidable (s.stage ws = .alive))
  | .beginDestroy ws => inferInstanceAs (Decidable (∀ c ∈ s.calls, c.ws ≠ ws))
  | .advance _ _ | .purge _ | .release _ _ | .endDestroy _ | .clearMarker _ =>
    inferInstanceAs (Decidable True)

/-- Not being torn down. -/
def Stage.Idle (st : Stage) : Prop := st = .alive ∨ st = .dead

lemma Stage.not_idle_running (p : Point) : ¬ (Stage.running p).Idle := by simp [Stage.Idle]

lemma Stage.not_idle_busy : ¬ Stage.busy.Idle := by simp [Stage.Idle]

/-- No other winsys is being torn down. -/
def Sys.NoTeardown (s : Sys) (ws : WsId) : Prop := ∀ ws', ws' ≠ ws → (s.stage ws').Idle

/-- A teardown begins only when no other one is under way. -/
def Label.Alone (s : Sys) : Label → Prop
  | .beginDestroy ws => s.NoTeardown ws
  | _ => True

/-! ## The invariant -/

/-- What holds of a teardown at a point. If teardowns are alone (`alone`), a purge that has taken
`iter` entries has at most `64 - iter` left to take. -/
def PointOk (alone : Prop) (s : Sys) (ws : WsId) : Point → Prop
  | .purge _ iter => alone → iter + s.proc.entriesOf ws ≤ ibcacheBuckets
  | .releasing => True
  | .ending => s.proc.entriesOf ws = 0

/-- What holds of a winsys at a stage. -/
def StageOk (alone : Prop) (s : Sys) (ws : WsId) : Stage → Prop
  | .alive => ∀ c ∈ s.calls, c.ws = ws → c.ret = none
  | .running p => (∀ c ∈ s.calls, c.ws ≠ ws) ∧ PointOk alone s ws p
  | .busy => s.calls.countP (fun c => c.ws = ws) = 1 ∧
      ∀ c ∈ s.calls, c.ws = ws → ∃ p, c.ret = some p ∧ p ≠ .ending ∧ PointOk alone s ws p
  | .dead => (∀ c ∈ s.calls, c.ws ≠ ws) ∧ s.proc.entriesOf ws = 0

structure TeardownOk (alone : Prop) (s : Sys) : Prop where
  length : s.proc.ibcache.length ≤ ibcacheBuckets
  stage : ∀ ws, StageOk alone s ws (s.stage ws)
  marker : alone → ∀ ws, ¬ (s.stage ws).Idle → s.proc.dying = some ws ∧ s.NoTeardown ws

/-- The calls of `ws` are the same ones. -/
structure SameCalls (calls calls' : List Call) (ws : WsId) : Prop where
  mem : ∀ c, c.ws = ws → (c ∈ calls' ↔ c ∈ calls)
  count : calls'.countP (fun c => c.ws = ws) = calls.countP fun c => c.ws = ws

section Calls

variable {calls : List Call} {ws : WsId} {c : Call}

lemma SameCalls.refl : SameCalls calls calls ws := ⟨fun _ _ => Iff.rfl, rfl⟩

/-- A new call of one winsys does not concern the others. -/
theorem SameCalls.cons (hne : ws ≠ c.ws) : SameCalls calls (c :: calls) ws := by
  refine ⟨fun c' hc' => ?_, ?_⟩
  · rw [mem_cons]
    refine or_iff_right fun heq => hne ?_
    rw [← hc', heq]
  · rw [countP_cons, if_neg (by simpa using hne.symm), add_zero]

/-- Nor does one that ends. -/
theorem SameCalls.erase (hc : c ∈ calls) (hne : ws ≠ c.ws) : SameCalls calls (calls.erase c) ws := by
  refine ⟨fun c' hc' => ?_, ?_⟩
  · refine mem_erase_of_ne fun heq => hne ?_
    rw [← hc', heq]
  · rw [(perm_cons_erase hc).countP_eq, countP_cons, if_neg (by simpa using hne.symm), add_zero]

/-- A call ends, or goes on as another one that returns to the same place. -/
inductive Goes (c : Call) (calls : List Call) : List Call → Prop
  | ends : Goes c calls (calls.erase c)
  | on {d : Call} (hws : d.ws = c.ws) (hret : d.ret = c.ret) : Goes c calls (d :: calls.erase c)

theorem Goes.same {calls' : List Call} (h : Goes c calls calls') (hc : c ∈ calls) (hne : ws ≠ c.ws) :
    SameCalls calls calls' ws := by
  have herase := SameCalls.erase hc hne
  cases h with
  | ends => exact herase
  | on hws _ =>
    have hcons : SameCalls (calls.erase c) (_ :: calls.erase c) ws := .cons (hws.symm ▸ hne)
    exact ⟨fun c' hc' => (hcons.mem c' hc').trans (herase.mem c' hc'), hcons.count.trans herase.count⟩

/-- The only call of a winsys ends. -/
theorem erase_of_count_eq_one (hc : c ∈ calls) (hone : calls.countP (fun c' => c'.ws = c.ws) = 1) :
    ∀ c' ∈ calls.erase c, c'.ws ≠ c.ws := by
  rw [(perm_cons_erase hc).countP_eq, countP_cons, if_pos (by simp)] at hone
  have hzero := List.countP_eq_zero.mp (Nat.succ.inj hone)
  intro c' hc'
  simpa using hzero c' hc'

end Calls

section Frame

variable {alone : Prop} {s s' : Sys} {ws : WsId}

lemma PointOk.congr {p : Point} (h : PointOk alone s ws p)
    (heq : s'.proc.entriesOf ws = s.proc.entriesOf ws) : PointOk alone s' ws p := by
  cases p with
  | purge last iter =>
    intro ha
    rw [heq]
    exact h ha
  | releasing => trivial
  | ending => exact heq.trans h

lemma StageOk.congr {st : Stage} (h : StageOk alone s ws st) (hcalls : SameCalls s.calls s'.calls ws)
    (hentries : s'.proc.entriesOf ws = s.proc.entriesOf ws) : StageOk alone s' ws st := by
  have hnone : (∀ c ∈ s.calls, c.ws ≠ ws) → ∀ c ∈ s'.calls, c.ws ≠ ws := by
    intro hc c hmem hws
    exact hc c ((hcalls.mem c hws).mp hmem) hws
  cases st with
  | alive =>
    intro c hc hws
    exact h c ((hcalls.mem c hws).mp hc) hws
  | running p => exact ⟨hnone h.1, h.2.congr hentries⟩
  | busy =>
    refine ⟨hcalls.count.trans h.1, fun c hc hws => ?_⟩
    obtain ⟨p, hret, hne, hp⟩ := h.2 c ((hcalls.mem c hws).mp hc) hws
    exact ⟨p, hret, hne, hp.congr hentries⟩
  | dead => exact ⟨hnone h.1, hentries.trans h.2⟩

section

variable (h : TeardownOk alone s)
include h

lemma TeardownOk.of_stage {st : Stage} (hst : s.stage ws = st) : StageOk alone s ws st := hst ▸ h.stage ws

/-- A winsys with a call under way is alive or in the middle of its teardown. -/
theorem TeardownOk.call {c : Call} (hc : c ∈ s.calls) :
    (s.stage c.ws = .alive ∧ c.ret = none) ∨
    (s.stage c.ws = .busy ∧ s.calls.countP (fun c' => c'.ws = c.ws) = 1 ∧
      ∃ p, c.ret = some p ∧ p ≠ .ending ∧ PointOk alone s c.ws p) := by
  cases hst : s.stage c.ws with
  | alive => exact .inl ⟨rfl, h.of_stage hst c hc rfl⟩
  | running p => exact absurd rfl ((h.of_stage hst).1 c hc)
  | busy => exact .inr ⟨rfl, (h.of_stage hst).1, (h.of_stage hst).2 c hc rfl⟩
  | dead => exact absurd rfl ((h.of_stage hst).1 c hc)

variable (hproc : ActsFor ws s.proc s'.proc)
  (hcalls : ∀ ws', ws' ≠ ws → SameCalls s.calls s'.calls ws')
include hproc hcalls

/-- A step of winsys `ws` that neither begins nor ends its teardown. -/
theorem TeardownOk.act (hstages : ∀ ws', ws' ≠ ws → s'.stage ws' = s.stage ws')
    (hidle : (s'.stage ws).Idle ↔ (s.stage ws).Idle) (hself : StageOk alone s' ws (s'.stage ws)) :
    TeardownOk alone s' := by
  have hidle' : ∀ ws', (s'.stage ws').Idle ↔ (s.stage ws').Idle := by
    intro ws'
    by_cases hws : ws' = ws
    · rw [hws]
      exact hidle
    · rw [hstages ws' hws]
  refine ⟨hproc.length, fun ws' => ?_, fun ha ws' hbusy => ?_⟩
  · by_cases hws : ws' = ws
    · rw [hws]
      exact hself
    · rw [hstages ws' hws]
      exact (h.stage ws').congr (hcalls ws' hws) (hproc.others ws' hws)
  · rw [hidle'] at hbusy
    obtain ⟨hd, hno⟩ := h.marker ha ws' hbusy
    exact ⟨hproc.dying.trans hd, fun ws'' hne => (hidle' ws'').mpr (hno ws'' hne)⟩

/-- A step of a winsys in use. -/
theorem TeardownOk.alive (hst : s.stage ws = .alive) (hstage : s'.stage = s.stage)
    (hret : ∀ c ∈ s'.calls, c.ws = ws → c.ret = none) : TeardownOk alone s' := by
  refine h.act hproc hcalls (fun ws' _ => by rw [hstage]) (by rw [hstage]) ?_
  rw [hstage, hst]
  exact hret

/-- A step of a winsys in its teardown. -/
theorem TeardownOk.teardown {t : Stage} (hst : ¬ (s.stage ws).Idle)
    (hstage : s'.stage = Function.update s.stage ws t) (hidle : ¬ t.Idle)
    (hself : StageOk alone s' ws t) : TeardownOk alone s' := by
  refine h.act hproc hcalls (fun ws' hne => ?_) ?_ ?_
  · rw [hstage, Function.update_of_ne hne]
  · rw [hstage, Function.update_self]
    exact iff_of_false hidle hst
  · rw [hstage, Function.update_self]
    exact hself

end

end Frame

/-! ## The steps -/

section Steps

variable {alone : Prop} {W : WsId → Winsys} {maxSize : ℕ} {s s' : Sys}

variable {c : Call} {p q : Point} {ws : WsId}

lemma TeardownOk.newCall (h : TeardownOk alone s) (hst : s.stage c.ws = .alive)
    (hret : c.ret = none) (hproc : s'.proc = s.proc) (hcalls : s'.calls = c :: s.calls)
    (hstage : s'.stage = s.stage) : TeardownOk alone s' := by
  refine h.alive (.of_cache h.length (by rw [hproc]) (by rw [hproc])) (fun ws' hne => ?_) hst hstage ?_
  · rw [hcalls]
    exact .cons hne
  · intro c' hc' hws
    rw [hcalls] at hc'
    rcases List.mem_cons.mp hc' with rfl | hc'
    · exact hret
    · exact h.of_stage hst c' hc' hws

theorem TeardownOk.create (h : TeardownOk alone s) {ws : WsId} (hst : s.stage ws = .alive)
    (r : Request) (sysfs : Option ℕ) : TeardownOk alone (s.create W ws r sysfs) := by
  rcases create_cases W s ws r sysfs with heq | ⟨c, rfl, -, hret, heq⟩ | ⟨e, proc, rfl, ht, heq⟩
  · rw [heq]
    exact h
  · rw [heq]
    exact h.newCall hst hret rfl rfl rfl
  · -- the BO that is handed out was an entry of this winsys
    rw [heq]
    exact h.alive (ht.acts h.length) (fun _ _ => .refl) hst rfl (h.of_stage hst)

section

variable (h : TeardownOk alone s)
include h

section

variable (hc : c ∈ s.calls)
include hc

/-- A call of a winsys in use makes a step. -/
theorem TeardownOk.goes_alive (hst : s.stage c.ws = .alive) (hret : c.ret = none)
    (hproc : ActsFor c.ws s.proc s'.proc) (hcalls : Goes c s.calls s'.calls)
    (hstage : s'.stage = s.stage) : TeardownOk alone s' := by
  refine h.alive hproc (fun ws' hne => hcalls.same hc hne) hst hstage fun c' hc' hws => ?_
  have hold := h.of_stage hst
  generalize s'.calls = calls' at hcalls hc'
  cases hcalls with
  | ends => exact hold c' (mem_of_mem_erase hc') hws
  | on hws' hret' =>
    rcases List.mem_cons.mp hc' with rfl | hc'
    · exact hret'.trans hret
    · exact hold c' (mem_of_mem_erase hc') hws

/-- The call of a teardown returns. -/
theorem TeardownOk.returns (hst : s.stage c.ws = .busy)
    (hone : s.calls.countP (fun c' => c'.ws = c.ws) = 1) (hproc : ActsFor c.ws s.proc s'.proc)
    (hcalls : s'.calls = s.calls.erase c)
    (hstage : s'.stage = Function.update s.stage c.ws (.running p)) (hp : PointOk alone s' c.ws p) :
    TeardownOk alone s' := by
  refine h.teardown hproc ?_ (hst ▸ Stage.not_idle_busy) hstage (Stage.not_idle_running p) ⟨?_, hp⟩
  · intro ws' hne
    rw [hcalls]
    exact .erase hc hne
  · rw [hcalls]
    exact erase_of_count_eq_one hc hone

/-- The call of a teardown goes on. -/
theorem TeardownOk.goes_busy {d : Call} (hst : s.stage c.ws = .busy)
    (hone : s.calls.countP (fun k => k.ws = c.ws) = 1) (hws : d.ws = c.ws) (hretd : d.ret = c.ret)
    (hret : c.ret = some p) (hne : p ≠ .ending) (hp : PointOk alone s c.ws p)
    (hproc : s'.proc = s.proc) (hcalls : s'.calls = d :: s.calls.erase c)
    (hstage : s'.stage = s.stage) : TeardownOk alone s' := by
  have hnone := erase_of_count_eq_one hc hone
  refine h.teardown (.of_cache h.length (by rw [hproc]) (by rw [hproc])) (fun ws' hne' => ?_)
    (hst ▸ Stage.not_idle_busy) (t := .busy) ?_ Stage.not_idle_busy ⟨?_, fun k hk hkws => ?_⟩
  · rw [hcalls]
    exact (Goes.on hws hretd).same hc hne'
  · rw [hstage, ← hst, Function.update_eq_self]
  · rw [hcalls, countP_cons, if_pos (by simp [hws]), List.countP_eq_zero.mpr (by simpa using hnone)]
  · rw [hcalls] at hk
    rcases List.mem_cons.mp hk with rfl | hk
    · exact ⟨p, hretd.trans hret, hne, hp.congr (by rw [hproc])⟩
    · exact absurd hkws (hnone k hk)

lemma TeardownOk.advance (ok : Bool) :
    TeardownOk alone ({ s with calls := s.calls.erase c }.advance W c ok) := by
  have hkeep : ∀ p : Process, p.ibcache = s.proc.ibcache → p.dying = s.proc.dying →
      ActsFor c.ws s.proc p := fun p => .of_cache h.length
  rcases h.call hc with ⟨hst, hret⟩ | ⟨hst, hone, p, hret, hne, hp⟩
  · cases c with
    | create ws r =>
      cases ok with
      | false => exact h.goes_alive hc hst hret (hkeep _ rfl rfl) .ends rfl
      | true => exact h.goes_alive hc hst hret (hkeep _ rfl rfl) (.on (d := .map ws _) rfl rfl) rfl
    | createVirtual ws r =>
      cases ok <;> exact h.goes_alive hc hst hret (hkeep _ rfl rfl) .ends rfl
    | map ws b =>
      cases ok <;> exact h.goes_alive hc hst hret (hkeep _ rfl rfl) .ends rfl
    | destroy ws b ret =>
      cases hret
      unfold Sys.advance
      rcases ibcachePark_cases s.proc ws b (s.proc.bo b).xclipseAlignment with heq | ⟨p, heq, hp⟩
      · simp only [heq]
        exact h.goes_alive hc hst rfl (hkeep _ rfl rfl) (.on (d := .free ws b none) rfl rfl) rfl
      · simp only [heq]
        exact h.goes_alive hc hst rfl hp.acts .ends rfl
    | free ws b ret =>
      cases hret
      obtain ⟨-, -, hcache, -, -, hdying⟩ := boFree_fields s.proc (W ws) b
      exact h.goes_alive hc hst rfl (hkeep _ hcache hdying) .ends rfl
  · cases c with
    | create ws r => exact nomatch hret
    | createVirtual ws r => exact nomatch hret
    | map ws b => exact nomatch hret
    | destroy ws b ret =>
      cases hret
      unfold Sys.advance
      rcases ibcachePark_cases s.proc ws b (s.proc.bo b).xclipseAlignment with heq | ⟨q, heq, hq⟩
      · simp only [heq]
        exact h.goes_busy (d := .free ws b (some p)) hc hst hone rfl rfl rfl hne hp rfl rfl rfl
      · simp only [heq]
        refine h.returns hc hst hone hq.acts rfl rfl ?_
        -- parked again; if this teardown is alone, the marker has not let this happen
        cases p with
        | purge last iter =>
          intro ha
          exact absurd (h.marker ha ws (hst ▸ Stage.not_idle_busy)).1 hq.dying
        | releasing => trivial
        | ending => exact absurd rfl hne
    | free ws b ret =>
      cases hret
      obtain ⟨-, -, hcache, -, -, hdying⟩ := boFree_fields s.proc (W ws) b
      refine h.returns hc hst hone (hkeep _ hcache hdying) rfl rfl (hp.congr ?_)
      show (boFree s.proc (W ws) b).entriesOf ws = s.proc.entriesOf ws
      unfold Process.entriesOf
      rw [hcache]

end

/-- A teardown destroys a BO. -/
theorem TeardownOk.callFrom (hst : s.stage c.ws = .running p) (hret : c.ret = some q)
    (hne : q ≠ .ending) (hproc : ActsFor c.ws s.proc s'.proc) (hcalls : s'.calls = c :: s.calls)
    (hstage : s'.stage = Function.update s.stage c.ws .busy) (hq : PointOk alone s' c.ws q) :
    TeardownOk alone s' := by
  have hnone := h.of_stage hst
  refine h.teardown hproc (fun ws' hne' => ?_) (hst ▸ Stage.not_idle_running p) hstage Stage.not_idle_busy
    ⟨?_, fun k hk hws => ?_⟩
  · rw [hcalls]
    exact .cons hne'
  · rw [hcalls, countP_cons, if_pos (by simp), List.countP_eq_zero.mpr (by simpa using hnone.1)]
  · rw [hcalls] at hk
    rcases List.mem_cons.mp hk with rfl | hk
    · exact ⟨q, hret, hne, hq⟩
    · exact absurd hws (hnone.1 k hk)

/-- A teardown goes on without a call. -/
theorem TeardownOk.goTo (hst : s.stage ws = .running p) (hq : PointOk alone s ws q) :
    TeardownOk alone (s.setStage ws (.running q)) :=
  h.teardown (.of_cache h.length rfl rfl) (fun _ _ => .refl) (hst ▸ Stage.not_idle_running p) rfl
    (Stage.not_idle_running q) ⟨(h.of_stage hst).1, hq⟩

theorem TeardownOk.purge {last : Bool} {iter : ℕ} (hst : s.stage ws = .running (.purge last iter)) :
    TeardownOk alone (s.purge ws last iter) := by
  unfold Sys.purge
  rcases ibcacheTake_cases s.proc fun e => e.ws = ws with ⟨heq, hnone⟩ | ⟨e, p, heq, ht⟩
  · simp only [heq]
    have hzero : s.proc.entriesOf ws = 0 := List.countP_eq_zero.mpr fun e he => by simpa using hnone e he
    refine h.goTo hst ?_
    cases last with
    | false => trivial
    | true => exact hzero
  · simp only [heq]
    have hws : e.ws = ws := by simpa using ht.holds
    have hentries := ht.entriesOf ws
    rw [if_pos hws] at hentries
    refine h.callFrom (c := .destroy ws e.bo (some (.purge last (iter + 1)))) hst rfl
      (fun heq => nomatch heq) ?_ rfl rfl fun ha => ?_
    · show ActsFor ws s.proc p
      rw [← hws]
      exact ht.acts h.length
    · -- one entry more was taken, one less is left
      have hle := (h.of_stage hst).2 ha
      show iter + 1 + p.entriesOf ws ≤ ibcacheBuckets
      omega

/-- A teardown begins. -/
theorem TeardownOk.beginDestroy (hcalls : ∀ c ∈ s.calls, c.ws ≠ ws)
    (halone : alone → s.NoTeardown ws) : TeardownOk alone (s.beginDestroy ws) := by
  have hfirst : PointOk alone (s.beginDestroy ws) ws (.purge false 0) := by
    intro _
    rw [zero_add]
    exact (s.proc.entriesOf_le ws).trans h.length
  refine ⟨h.length, ?_, fun ha ws' hbusy => ?_⟩
  · apply (Function.forall_update_iff _ (StageOk alone _)).mpr
    exact ⟨⟨hcalls, hfirst⟩, fun ws' _ => (h.stage ws').congr .refl rfl⟩
  · unfold Sys.beginDestroy at hbusy ⊢
    have hws : ws' = ws := by
      by_contra hne
      rw [Sys.setStage_of_ne _ _ hne] at hbusy
      exact hbusy (halone ha ws' hne)
    rw [hws]
    refine ⟨rfl, fun ws'' hne => ?_⟩
    rw [Sys.setStage_of_ne _ _ hne]
    exact halone ha ws'' hne

/-- A teardown ends; what it does to the marker does not matter any more. -/
theorem TeardownOk.clearMarker (hst : s.stage ws = .running .ending) (dying : Option WsId) :
    TeardownOk alone ({ s with proc := { s.proc with dying := dying } }.setStage ws .dead) := by
  refine ⟨h.length, ?_, fun ha ws' hbusy => absurd ?_ hbusy⟩
  · apply (Function.forall_update_iff _ (StageOk alone _)).mpr
    exact ⟨h.of_stage hst, fun ws' _ => (h.stage ws').congr .refl rfl⟩
  · -- when teardowns are alone, none is left
    have hno := (h.marker ha ws (hst ▸ Stage.not_idle_running _)).2
    exact (Function.forall_update_iff s.stage fun _ st => st.Idle).mpr ⟨.inr rfl, hno⟩ ws'

theorem TeardownOk.step {l : Label} (hproper : l.Proper s) (halone : alone → l.Alone s)
    (hstep : Step W maxSize s l s') : TeardownOk alone s' := by
  unfold Step at hstep
  cases l with
  | create ws r sysfs =>
    cases hstep
    exact h.create hproper r sysfs
  | destroy ws b =>
    obtain ⟨-, rfl⟩ := ite_some_none_eq_some.mp hstep
    exact h.newCall (c := .destroy ws b none) hproper rfl rfl rfl rfl
  | advance c ok =>
    obtain ⟨hc, rfl⟩ := ite_some_none_eq_some.mp hstep
    exact h.advance hc.1 ok
  | beginDestroy ws =>
    obtain ⟨-, rfl⟩ := ite_some_none_eq_some.mp hstep
    exact h.beginDestroy hproper halone
  | purge ws =>
    simp only [Sys.step] at hstep
    split at hstep
    · next hst =>
      cases hstep
      exact h.purge hst
    · cases hstep
  | release ws b =>
    obtain ⟨hst, rfl⟩ := ite_some_none_eq_some.mp hstep
    exact h.callFrom (c := .destroy ws b _) hst.1 rfl (fun heq => by cases heq)
      (.of_cache h.length rfl rfl) rfl rfl trivial
  | endDestroy ws =>
    obtain ⟨hst, rfl⟩ := ite_some_none_eq_some.mp hstep
    refine h.goTo hst fun _ => ?_
    rw [zero_add]
    exact (s.proc.entriesOf_le ws).trans h.length
  | clearMarker ws =>
    obtain ⟨hst, rfl⟩ := ite_some_none_eq_some.mp hstep
    exact h.clearMarker hst _

end

theorem TeardownOk.init (alone : Prop) (tracker : ℕ → Tracker) : TeardownOk alone (.init tracker) :=
  ⟨zero_le _, fun _ _ hc => (not_mem_nil hc).elim, fun _ _ hbusy => absurd (Or.inl rfl) hbusy⟩

end Steps

/-! ## Every interleaving -/

/-- The purges under way, and how many entries they have taken. -/
def Sys.Purging (s : Sys) (ws : WsId) (iter : ℕ) : Prop :=
  ∃ last, s.stage ws = .running (.purge last iter) ∨
    ∃ c ∈ s.calls, c.ws = ws ∧ c.ret = some (.purge last iter)

lemma TeardownOk.purging {s : Sys} (h : TeardownOk True s) {ws : WsId} {iter : ℕ}
    (hp : s.Purging ws iter) : iter ≤ 64 := by
  rcases hp with ⟨last, hst | ⟨c, hc, rfl, hret⟩⟩
  · exact (le_add_right _ _).trans ((h.of_stage hst).2 trivial)
  · rcases h.call hc with ⟨-, hnone⟩ | ⟨-, -, p, hret', -, hp⟩
    · rw [hret] at hnone
      exact nomatch hnone
    · cases hret.symm.trans hret'
      exact (le_add_right _ _).trans (hp trivial)

lemma TeardownOk.dead {alone : Prop} {s : Sys} (h : TeardownOk alone s) {ws : WsId}
    (hst : s.stage ws = .dead) : ∀ e ∈ s.proc.ibcache, e.ws ≠ ws := by
  intro e he
  simpa using List.countP_eq_zero.mp (h.of_stage hst).2 e he

/-- After any interleaving a winsys whose teardown has ended owns no entry of the cache. If no
teardown begins while another one is under way, every purge takes at most 64 entries. -/
theorem teardown_of_run {W : WsId → Winsys} {maxSize : ℕ} {tracker : ℕ → Tracker}
    {labels : List Label} {s : Sys} :
    (Run (only (fun s l => l.Proper s) (Step W maxSize)) (.init tracker) labels s →
      ∀ ws, s.stage ws = .dead → ∀ e ∈ s.proc.ibcache, e.ws ≠ ws) ∧
    (Run (only (fun s l => l.Proper s ∧ l.Alone s) (Step W maxSize)) (.init tracker) labels s →
      ∀ ws iter, s.Purging ws iter → iter ≤ 64) := by
  refine ⟨fun h ws hst => ?_, fun h ws iter hp => ?_⟩
  · have hok : TeardownOk False s :=
      h.invariant (I := fun _ s => TeardownOk False s) (.init False tracker)
        fun _ _ _ _ hs hstep => hs.step hstep.1 False.elim hstep.2
    exact hok.dead hst
  · have hok : TeardownOk True s :=
      h.invariant (I := fun _ s => TeardownOk True s) (.init True tracker)
        fun _ _ _ _ hs hstep => hs.step hstep.1.1 (fun _ => hstep.1.2) hstep.2
    exact hok.purging hp

/-- A BO of winsys 0 is created and parked. -/
def parkOne : List Label :=
  [.create 0 exampleRequest none, .advance (.create 0 exampleRequest) true, .advance (.map 0 0) true,
    .destroy 0 0, .advance (.destroy 0 0 none) true]

def Label.isBegin : Label → Bool
  | .beginDestroy _ => true
  | _ => false

lemma Label.Alone.of_not_isBegin {s : Sys} {l : Label} (h : l.isBegin = false) : l.Alone s := by
  cases l with
  | beginDestroy ws => exact nomatch h
  | _ => trivial

/-- One parked BO: the purge takes it, and nothing is left at the end. -/
theorem teardown_of_run_one : ∃ labels s labels' s',
    Run (only (fun s l => l.Proper s ∧ l.Alone s) (Step (fun _ => exampleWinsys) (2 ^ 40)))
      (.init fun _ => ⟨0, 0, 0⟩) labels s ∧ s.Purging 0 1 ∧ 1 ≤ 64 ∧
    Run (only (fun s l => l.Proper s) (Step (fun _ => exampleWinsys) (2 ^ 40)))
      (.init fun _ => ⟨0, 0, 0⟩) labels' s' ∧ s'.stage 0 = .dead ∧ ∀ e ∈ s'.proc.ibcache, e.ws ≠ 0 := by
  have hpark : (exec (fun s l => if l.Proper s ∧ l.isBegin = false
      then s.step (fun _ => exampleWinsys) (2 ^ 40) l else none) (.init fun _ => ⟨0, 0, 0⟩)
      parkOne).map (fun s => (s.stage, s.calls, s.proc.ibcache.map Entry.ws)) =
      some (fun _ => .alive, [], [0]) := by rfl
  have hend : (exec (fun s l => if l.Proper s then s.step (fun _ => exampleWinsys) (2 ^ 40) l else none)
      (.init fun _ => ⟨0, 0, 0⟩) (parkOne ++ [.beginDestroy 0, .purge 0,
        .advance (.destroy 0 0 (some (.purge false 1))) true,
          .advance (.free 0 0 (some (.purge false 1))) true,
        .purge 0, .endDestroy 0, .purge 0, .clearMarker 0])).map (fun s => s.stage 0) = some .dead := by rfl
  obtain ⟨s, hs, hfields⟩ := map_eq_some_iff.mp hpark
  obtain ⟨s', hs', hdead⟩ := map_eq_some_iff.mp hend
  simp only [Prod.mk.injEq] at hfields
  obtain ⟨hstage, hcalls, hcache⟩ := hfields
  have hrun : Run (only (fun s l => l.Proper s ∧ l.Alone s) (Step (fun _ => exampleWinsys) (2 ^ 40)))
      (.init fun _ => ⟨0, 0, 0⟩) parkOne s :=
    (run_only_of_exec hs).mono fun _ _ _ ha => ⟨⟨ha.1.1, .of_not_isBegin ha.1.2⟩, ha.2⟩
  have hbegin : only (fun s l => l.Proper s ∧ l.Alone s) (Step (fun _ => exampleWinsys) (2 ^ 40)) s
      (.beginDestroy 0) (s.beginDestroy 0) := by
    refine ⟨⟨?_, fun ws _ => ?_⟩, if_pos (by rw [hstage])⟩
    · rw [Label.Proper, hcalls]
      exact fun _ hc => (not_mem_nil hc).elim
    · rw [hstage]
      exact .inl rfl
  have hpurge : only (fun s l => l.Proper s ∧ l.Alone s) (Step (fun _ => exampleWinsys) (2 ^ 40))
      (s.beginDestroy 0) (.purge 0) ((s.beginDestroy 0).purge 0 false 0) := ⟨⟨trivial, trivial⟩, rfl⟩
  have hpurging : ((s.beginDestroy 0).purge 0 false 0).Purging 0 1 := by
    rcases ibcacheTake_cases { s.proc with dying := some 0 } fun e => e.ws = 0 with
      ⟨-, hnone⟩ | ⟨e, p, heq, -⟩
    · have hmem : 0 ∈ s.proc.ibcache.map Entry.ws := by rw [hcache]; exact mem_singleton_self 0
      obtain ⟨e, he, hws⟩ := List.mem_map.mp hmem
      exact absurd hws (by simpa using hnone e he)
    · refine ⟨false, .inr ⟨.destroy 0 e.bo _, ?_, rfl, rfl⟩⟩
      simp only [Sys.beginDestroy, Sys.purge, Sys.setStage, heq]
      exact mem_cons_self
  have hrun' := (hrun.snoc hbegin).snoc hpurge
  exact ⟨_, _, _, s', hrun', hpurging, teardown_of_run.2 hrun' 0 1 hpurging, run_only_of_exec hs',
    hdead, teardown_of_run.1 (run_only_of_exec hs') 0 hdead⟩

/-! ## Two teardowns at once -/

/-- The teardown of winsys 0 takes the BO from the cache again; then that of winsys 1 begins. -/
def overlap : List Label := parkOne ++ [.beginDestroy 0, .purge 0, .beginDestroy 1]

/-- What the two purges of the same BO depend on. -/
structure Overlap (s : Sys) : Prop where
  ibcache : s.proc.ibcache = []
  bytes : s.proc.ibcacheBytes = 0
  dying : s.proc.dying = some 1
  bo : s.proc.bo 0 = newBo exampleWinsys exampleRequest
  calls : s.calls = [.destroy 0 0 (some (.purge false 1))]
  stage : s.stage 0 = .busy

lemma overlap_run : ∃ s, Overlap s ∧
    Run (only (fun s l => l.Proper s) (Step (fun _ => exampleWinsys) (2 ^ 40)))
      (.init fun _ => ⟨0, 0, 0⟩) overlap s := by
  have heval : (exec (fun s l => if l.Proper s then s.step (fun _ => exampleWinsys) (2 ^ 40) l else none)
      (.init fun _ => ⟨0, 0, 0⟩) overlap).map (fun s =>
        (s.proc.ibcache, s.proc.ibcacheBytes, s.proc.dying, s.proc.bo 0, s.calls, s.stage 0)) =
      some ([], 0, some 1, newBo exampleWinsys exampleRequest,
        [.destroy 0 0 (some (.purge false 1))], .busy) := by rfl
  obtain ⟨s, hs, hfields⟩ := map_eq_some_iff.mp heval
  simp only [Prod.mk.injEq] at hfields
  obtain ⟨h1, h2, h3, h4, h5, h6⟩ := hfields
  exact ⟨s, ⟨h1, h2, h3, h4, h5, h6⟩, run_only_of_exec hs⟩

/-- The entry of the BO. -/
def overlapEntry : Entry :=
  { bo := 0, ws := 0, size := 4096, alignment := 4096,
    flags := flagNoInterprocessSharing ||| flagXclipseCacheable, domain := domainGtt }

/-- The purge of winsys 0 has the BO, for the `n + 1`st time. -/
def Sys.taken (s : Sys) (n : ℕ) : Sys :=
  { s with calls := [.destroy 0 0 (some (.purge false (n + 1)))] }

/-- The BO is parked, for the `n + 2`nd time. -/
def Sys.parkedAgain (s : Sys) (n : ℕ) : Sys :=
  { s with
    proc := { s.proc with ibcache := [overlapEntry], ibcacheBytes := 4096 }
    calls := [] }.setStage 0 (.running (.purge false (n + 1)))

section Overlap

variable {s : Sys} (h : Overlap s) (n : ℕ)
include h

/-- The marker names winsys 1, so the cache takes the BO of winsys 0. -/
theorem Overlap.park : Step (fun _ => exampleWinsys) (2 ^ 40) (s.taken n)
    (.advance (.destroy 0 0 (some (.purge false (n + 1)))) true) (s.parkedAgain n) := by
  have hpark : ibcachePark s.proc 0 0 (s.proc.bo 0).xclipseAlignment =
      (true, { s.proc with ibcache := [overlapEntry], ibcacheBytes := 4096 }) := by
    have hdying : s.proc.dying ≠ some 0 := by simp [h.dying]
    simp only [ibcachePark]
    rw [if_neg (by rw [h.bo]; decide), if_neg hdying, if_neg (by rw [h.ibcache, h.bytes, h.bo]; decide),
      if_neg (by rw [h.bo]; decide), h.bo, h.ibcache, h.bytes]
    rfl
  unfold Step
  simp only [Sys.step]
  rw [if_pos ⟨mem_singleton_self _, rfl⟩]
  simp only [Sys.taken, erase_cons_head, Sys.advance, hpark]
  rfl

theorem Overlap.purge :
    Step (fun _ => exampleWinsys) (2 ^ 40) (s.parkedAgain n) (.purge 0) (s.taken (n + 1)) := by
  have htake : ibcacheTake { s.proc with ibcache := [overlapEntry], ibcacheBytes := 4096 }
      (fun e => e.ws = 0) = (some 0, s.proc) := by
    have hproc : { s.proc with ibcache := [], ibcacheBytes := sub64 4096 4096 } = s.proc := by
      rw [sub64_of_le le_rfl (by decide), Nat.sub_self, ← h.ibcache, ← h.bytes]
    exact Prod.ext rfl hproc
  have hstage : Function.update
    (Function.update s.stage 0 (.running (.purge false (n + 1)))) 0 .busy = s.stage := by
    rw [Function.update_idem, ← h.stage, Function.update_eq_self]
  unfold Step
  simp only [Sys.step, Sys.parkedAgain, Sys.purge, Sys.setStage, htake, hstage]
  rfl

end Overlap

/-- The states of the loop: the BO is taken and parked in turn. -/
def Sys.loop (s : Sys) (n : ℕ) : Sys := if n % 2 = 0 then s.taken (n / 2) else s.parkedAgain (n / 2)

/-- The steps of the loop. -/
def loopLabel (n : ℕ) : Label :=
  if n % 2 = 0 then .advance (.destroy 0 0 (some (.purge false (n / 2 + 1)))) true else .purge 0

/-- If the teardown of winsys 1 begins while winsys 0 purges the cache, the purge can go on for
ever. -/
theorem purge_forever : ∃ (f : ℕ → Sys) (label : ℕ → Label), f 0 = .init (fun _ => ⟨0, 0, 0⟩) ∧
    Trace (only (fun s l => l.Proper s) (Step (fun _ => exampleWinsys) (2 ^ 40))) f label ∧
    ∀ n, ∃ k, (f k).stage 0 = .running (.purge false (n + 1)) := by
  obtain ⟨s, hs, hrun⟩ := overlap_run
  have hfirst : s.loop 0 = s := by
    show { s with calls := [.destroy 0 0 _] } = s
    rw [← hs.calls]
  have hloop : Trace (only (fun s l => l.Proper s) (Step (fun _ => exampleWinsys) (2 ^ 40))) s.loop
      loopLabel := by
    intro n
    unfold Sys.loop loopLabel
    rcases mod_two_eq_zero_or_one n with hn | hn
    · rw [if_pos hn, if_pos hn, if_neg (by omega), show (n + 1) / 2 = n / 2 by omega]
      exact ⟨trivial, hs.park _⟩
    · rw [if_neg (by omega), if_neg (by omega), if_pos (by omega), show (n + 1) / 2 = n / 2 + 1 by omega]
      exact ⟨trivial, hs.purge _⟩
  obtain ⟨f, label, h0, hf, hvisit⟩ := Run.trace (hfirst.symm ▸ hrun) hloop
  refine ⟨f, label, h0, hf, fun n => ?_⟩
  obtain ⟨k, hk⟩ := hvisit (2 * n + 1)
  refine ⟨k, ?_⟩
  rw [hk, Sys.loop, if_neg (by omega), show (2 * n + 1) / 2 = n by omega]
  exact Sys.setStage_self ..

end RadvXclipse.BoCache
