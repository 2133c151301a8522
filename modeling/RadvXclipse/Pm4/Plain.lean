import RadvXclipse.Pm4.Finalize

/-!
# Plain packets and packets of pairs

A plain packet grows by the next register, a packet of pairs by any register. Both are complete
after every call, so that nothing is left to do for `ac_pm4_finalize`.
-/

namespace RadvXclipse.Pm4

open Lib List Option

variable {cfg : Config} {s s' : State} {op : Opcode} {closed body : List ℕ} {h : ℕ}

lemma exists_emit (dw : ℕ) (hroom : s.ndw < cfg.maxDw) : ∃ s', s.emit cfg dw = some s' ∧ s'.ndw = s.ndw + 1 :=
  ⟨_, emit_eq_some.mpr ⟨hroom, rfl⟩, by simp only [State.ndw, length_append, length_singleton]⟩

/-- The last packet is the dwords after `closed`: a header and the body. -/
structure LastPacket (s : State) (op : Opcode) (closed : List ℕ) (h : ℕ) (body : List ℕ) : Prop where
  pm4 : s.pm4 = closed ++ h :: body
  lastPm4 : s.lastPm4 = closed.length
  lastOpcode : s.lastOpcode = some op

/-- The last packet is complete. -/
def Ended (s : State) (op : Opcode) (closed body : List ℕ) : Prop :=
  ∃ cam, LastPacket s op closed (header op (body.length - 1) cam) body

lemma LastPacket.ndw (hs : LastPacket s op closed h body) : s.ndw = closed.length + 1 + body.length := by
  rw [State.ndw, hs.pm4, length_append, length_cons]
  omega

theorem LastPacket.emit (hs : LastPacket s op closed h body) {dw : ℕ} (hemit : s.emit cfg dw = some s') :
    LastPacket s' op closed h (body ++ [dw]) := by
  obtain ⟨-, rfl⟩ := emit_eq_some.mp hemit
  refine ⟨?_, hs.lastPm4, hs.lastOpcode⟩
  simp only [hs.pm4, append_assoc, cons_append]

/-! ## A new packet -/

section New

/-- A new packet with its first dword. The last one is finalized. -/
def begin (cfg : Config) (op : Opcode) (s : State) (dw : ℕ) : Option State :=
  (cmdBegin cfg s op).bind (·.emit cfg dw)

lemma begin_eq_some {dw : ℕ} (h : begin cfg op s dw = some s') :
    LastPacket s' op (finalize cfg s).pm4 0 [dw] ∧ s'.packedIsPadded = false := by
  obtain ⟨s1, h1, h2⟩ := bind_eq_some_iff.mp h
  obtain ⟨-, rfl⟩ := emit_eq_some.mp h1
  have hlast : LastPacket { finalize cfg s with
      lastOpcode := some op, lastPm4 := (finalize cfg s).ndw, packedIsPadded := false,
      pm4 := (finalize cfg s).pm4 ++ [0] } op (finalize cfg s).pm4 0 [] := ⟨rfl, rfl, rfl⟩
  refine ⟨hlast.emit h2, ?_⟩
  obtain ⟨-, rfl⟩ := emit_eq_some.mp h2
  rfl

lemma exists_begin (cfg : Config) (op : Opcode) (s : State) (dw : ℕ) (hroom : s.ndw + 2 ≤ cfg.maxDw) :
    ∃ s', begin cfg op s dw = some s' ∧ s'.ndw ≤ s.ndw + 2 := by
  have hle := ndw_finalize_le cfg s
  obtain ⟨s1, h1, hndw1⟩ := exists_emit 0
    (s := { finalize cfg s with lastOpcode := some op, lastPm4 := (finalize cfg s).ndw, packedIsPadded := false })
    (show (finalize cfg s).ndw < cfg.maxDw by omega)
  change s1.ndw = (finalize cfg s).ndw + 1 at hndw1
  obtain ⟨s2, h2, hndw2⟩ := exists_emit dw (show s1.ndw < cfg.maxDw by omega)
  exact ⟨s2, bind_eq_some_iff.mpr ⟨s1, h1, h2⟩, by omega⟩

end New

/-! ## The value of a register -/

/-- `ac_pm4_set_reg_custom` for a packet that is not packed, after the choice of the packet. -/
theorem setRegCustom_plain {depth reg val : ℕ} (hop : op.isPairsPacked = false)
    (hset : setRegCustom cfg (depth + 1) s reg val op 0 = some s') :
    ∃ s1, openPacket cfg s (reg >>> 2) op 0 = some s1 ∧ s'.lastReg = reg >>> 2 ∧ s'.lastIdx = 0 ∧
      ∀ closed h body, LastPacket s1 op closed h body → Ended s' op closed (body ++ [val]) := by
  obtain ⟨-, -, s1, s2, s3, h1, h2, h3, h4⟩ := setRegCustom_eq_some.mp hset
  rw [if_neg (by simp [hop])] at h2
  cases h2
  obtain ⟨-, rfl⟩ := emit_eq_some.mp h3
  unfold cmdEnd at h4
  simp only [hop, Bool.false_eq_true, if_false, Option.some.injEq] at h4
  cases h4
  refine ⟨s1, h1, rfl, rfl, fun closed h body hs => ?_⟩
  have hndw : s1.pm4.length + 1 - closed.length - 2 = (body ++ [val]).length - 1 := by
    have hlen := hs.ndw
    rw [State.ndw] at hlen
    rw [length_append, length_singleton]
    omega
  refine ⟨needResetFilterCam cfg { s1 with lastReg := reg >>> 2, lastIdx := 0, pm4 := s1.pm4 ++ [val] } op, ?_,
    hs.lastPm4, hs.lastOpcode⟩
  simp only [State.ndw, length_append, length_singleton, hs.lastPm4] at hndw ⊢
  rw [hndw, hs.pm4, append_assoc, set_append_right _ _ (le_refl _), Nat.sub_self, cons_append, set_cons_zero]

lemma exists_setRegCustom_plain {depth reg val : ℕ} {s1 : State} (hop : op.isPairsPacked = false)
    (hopen : openPacket cfg s (reg >>> 2) op 0 = some s1) (hle : reg >>> 2 ≤ 0xffff)
    (hroom : s.ndw + 2 ≤ cfg.maxDw) (hroom1 : s1.ndw < cfg.maxDw) :
    ∃ s', setRegCustom cfg (depth + 1) s reg val op 0 = some s' ∧ s'.ndw = s1.ndw + 1 := by
  obtain ⟨s3, h3, hndw⟩ := exists_emit val (s := { s1 with lastReg := reg >>> 2, lastIdx := 0 }) hroom1
  have hend : ∃ s', cmdEnd cfg (setRegCustom cfg depth) op s3 = some s' ∧ s'.ndw = s3.ndw := by
    unfold cmdEnd
    simp only [hop, Bool.false_eq_true, if_false]
    exact ⟨_, rfl, length_set⟩
  obtain ⟨s', h4, hndw'⟩ := hend
  refine ⟨s', setRegCustom_eq_some.mpr ⟨hroom, hle, s1, _, s3, hopen, ?_, h3, h4⟩, hndw'.trans hndw⟩
  rw [if_neg (by simp [hop])]

/-! ## Effects -/

lemma seqWrites_append (reg : ℕ) (vals : List ℕ) (v : ℕ) :
    seqWrites reg (vals ++ [v]) = seqWrites reg vals ++ [(reg + vals.length, v)] := by
  induction vals generalizing reg with
  | nil => rfl
  | cons u vals ih =>
    rw [cons_append, seqWrites, ih, seqWrites, length_cons, cons_append, add_assoc, add_comm 1]

lemma pairWrites_append (base : ℕ) {body : List ℕ} (heven : body.length % 2 = 0) (reg v : ℕ) :
    pairWrites base (body ++ [reg, v]) = pairWrites base body ++ [(base + reg, v)] := by
  induction body using pairWrites.induct with
  | case1 reg' v' l ih =>
    simp only [length_cons] at heven
    simp only [cons_append, pairWrites, ih (by omega)]
  | case2 l hne =>
    cases l with
    | nil => rfl
    | cons a l =>
      cases l with
      | nil => simp at heven
      | cons b l => exact absurd rfl (hne a b l)

/-- The last packet is not packed, so that it can stay as it is. Next to what all dwords do, this
says how the packet can grow. -/
inductive Tail (s : State) : List (ℕ × ℕ) → Prop
  | none {ws : List (ℕ × ℕ)} (hop : s.lastOpcode = none) (hdoes : Does s.pm4 ws) : Tail s ws
  | pairs {op : Opcode} {closed body : List ℕ} {ws : List (ℕ × ℕ)} (hop : op.isPairs = true)
      (hclosed : Does closed ws) (hlast : Ended s op closed body) (hne : body ≠ [])
        (heven : body.length % 2 = 0) :
      Tail s (ws ++ pairWrites op.base body)
  | plain {op : Opcode} {closed vals : List ℕ} {reg : ℕ} {ws : List (ℕ × ℕ)} (hpairs : op.isPairs = false)
      (hpacked : op.isPairsPacked = false) (hcopy : op ≠ .copyData) (hclosed : Does closed ws)
      (hlast : Ended s op closed (reg :: vals)) (hreg : s.lastReg + 1 = reg + vals.length)
        (hlt : reg < 2 ^ 16) :
      Tail s (ws ++ seqWrites (op.base + reg) vals)

lemma isPairsPacked_of_isPairs (hop : op.isPairs = true) : op.isPairsPacked = false := by
  cases op <;> first | rfl | cases hop

theorem Ended.does {ws : List (ℕ × ℕ)} (hs : Ended s op closed body) (hne : body ≠ [])
    (hroom : s.ndw ≤ 16385) (hclosed : Does closed ws) : Does s.pm4 (ws ++ op.writes body) := by
  obtain ⟨cam, hlast⟩ := hs
  have hndw := hlast.ndw
  have hpos := length_pos_iff.mpr hne
  rw [hlast.pm4]
  exact hclosed.append (runs_packet op (by omega) cam body (by omega)).does

namespace Tail

variable {ws : List (ℕ × ℕ)}

theorem does (hs : Tail s ws) (hroom : s.ndw ≤ 16385) : Does s.pm4 ws := by
  cases hs with
  | none _ hdoes => exact hdoes
  | @pairs op closed body ws hop hclosed hlast hne heven =>
    have hdoes := hlast.does hne hroom hclosed
    unfold Opcode.writes at hdoes
    rwa [if_neg (by simp [isPairsPacked_of_isPairs hop]), if_pos hop] at hdoes
  | @plain op closed vals reg ws hpairs hpacked hcopy hclosed hlast hreg hlt =>
    have hdoes := hlast.does (cons_ne_nil _ _) hroom hclosed
    unfold Opcode.writes at hdoes
    rw [if_neg (by simp [hpacked]), if_neg (by simp [hpairs]), if_neg hcopy] at hdoes
    simpa only [field_of_lt hlt] using hdoes

lemma not_packed (hs : Tail s ws) : s.isPacked = false := by
  unfold State.isPacked
  cases hs with
  | none hop _ => rw [hop, any_none]
  | @pairs op closed body ws hop hclosed hlast hne heven =>
    obtain ⟨cam, hlast⟩ := hlast
    rw [hlast.lastOpcode, any_some, isPairsPacked_of_isPairs hop]
  | plain hpairs hpacked hcopy hclosed hlast hreg hlt =>
    obtain ⟨cam, hlast⟩ := hlast
    rw [hlast.lastOpcode, any_some, hpacked]

end Tail

/-! ## Growing -/

section Grow

variable {ws : List (ℕ × ℕ)} {depth reg val : ℕ}

variable (hfin : Does (finalize cfg s).pm4 ws) (htail : s.isPacked = false → Tail s ws)
  (hset : setRegCustom cfg (depth + 1) s reg val op 0 = some s')
include hfin htail hset

/-- A register for a packet of pairs: the last one if that is of the same opcode, or a new one. -/
theorem tail_of_pairs (hop : op.isPairs = true) : Tail s' (ws ++ [(op.base + reg >>> 2, val)]) := by
  have hpacked := isPairsPacked_of_isPairs hop
  obtain ⟨s1, hopen, -, -, hend⟩ := setRegCustom_plain hpacked hset
  unfold openPacket at hopen
  rw [if_neg (by simp [hpacked]), if_pos hop] at hopen
  split_ifs at hopen with hnew
  · -- a new packet
    obtain ⟨hlast, -⟩ := begin_eq_some hopen
    have hended := hend _ _ _ hlast
    exact .pairs hop hfin hended (cons_ne_nil _ _) (by simp)
  · rw [not_not] at hnew
    cases htail (by rw [State.isPacked, ← hnew, any_some, hpacked]) with
    | none hnone _ => simp [hnone] at hnew
    | plain hpairs _ _ _ hlast _ _ =>
      obtain ⟨cam, hlast⟩ := hlast
      rw [hlast.lastOpcode, Option.some.injEq] at hnew
      rw [hnew, hpairs] at hop
      cases hop
    | @pairs op' closed body ws hop' hclosed hlast hne heven =>
      obtain ⟨cam, hlast⟩ := hlast
      obtain rfl : op = op' := by rwa [hlast.lastOpcode, Option.some.injEq] at hnew
      have hended := hend _ _ _ (hlast.emit hopen)
      rw [append_assoc] at hended ⊢
      rw [← pairWrites_append op.base heven]
      refine .pairs hop hclosed hended (by simp) ?_
      simp only [length_append, length_cons, length_nil]
      omega

/-- A register for a plain packet: the last one if the register is the next, or a new one. -/
theorem tail_of_plain (hpacked : op.isPairsPacked = false) (hpairs : op.isPairs = false)
    (hcopy : op ≠ .copyData) :
    Tail s' (ws ++ [(op.base + reg >>> 2, val)]) := by
  obtain ⟨-, hlt, -⟩ := setRegCustom_eq_some.mp hset
  obtain ⟨s1, hopen, hreg, -, hend⟩ := setRegCustom_plain hpacked hset
  unfold openPacket at hopen
  rw [if_neg (by simp [hpacked]), if_neg (by simp [hpairs])] at hopen
  split_ifs at hopen with hnew
  · -- a new packet
    rw [Nat.zero_shiftLeft, Nat.or_zero] at hopen
    obtain ⟨hlast, -⟩ := begin_eq_some hopen
    have hended := hend _ _ _ hlast
    rw [singleton_append] at hended
    have htail' := Tail.plain hpairs hpacked hcopy hfin hended (by rw [hreg, length_singleton]) (by omega)
    exact htail'
  · simp only [ne_eq, not_or, not_not] at hnew
    obtain ⟨hsame, hnext, -⟩ := hnew
    cases hopen
    cases htail (by rw [State.isPacked, ← hsame, any_some, hpacked]) with
    | none hnone _ => simp [hnone] at hsame
    | pairs hop _ hlast _ _ =>
      obtain ⟨cam, hlast⟩ := hlast
      rw [hlast.lastOpcode, Option.some.injEq] at hsame
      rw [hsame, hop] at hpairs
      cases hpairs
    | @plain op' closed vals reg0 ws _ _ _ hclosed hlast hreg0 hlt0 =>
      obtain ⟨cam, hlast⟩ := hlast
      obtain rfl : op = op' := by rwa [hlast.lastOpcode, Option.some.injEq] at hsame
      rw [hnext, hreg0, ← add_assoc, append_assoc, ← seqWrites_append]
      have hended := hend _ _ _ hlast
      refine .plain hpairs hpacked hcopy hclosed hended ?_ hlt0
      rw [hreg, length_append, length_singleton]
      omega

end Grow

end RadvXclipse.Pm4
