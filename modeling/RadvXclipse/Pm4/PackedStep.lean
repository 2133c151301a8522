import RadvXclipse.Pm4.Packed

/-!
# Adding a register to a packed packet

What `ac_pm4_set_reg_custom` does to the last packet if that is a packed one of the same opcode: the
packet is then the one for the registers with the new register at the end, padded if their number is
odd.
-/

namespace RadvXclipse.Pm4

open Lib List Option Nat

variable {cfg : Config} {s s' : State} {op : Opcode} {closed body : List ℕ} {h c : ℕ} {pad : Bool}

lemma emit_eq_some {dw : ℕ} :
    s.emit cfg dw = some s' ↔ s.ndw < cfg.maxDw ∧ { s with pm4 := s.pm4 ++ [dw] } = s' := by
  unfold State.emit
  split_ifs with hlt
  · simp [hlt]
  · simp [hlt]

/-- The stages of `ac_pm4_set_reg_custom`. -/
theorem setRegCustom_eq_some {depth reg val idx : ℕ} :
    setRegCustom cfg (depth + 1) s reg val op idx = some s' ↔
      s.ndw + 2 ≤ cfg.maxDw ∧ reg >>> 2 ≤ 0xffff ∧ ∃ s1 s2 s3, openPacket cfg s (reg >>> 2) op idx = some s1 ∧
        (if op.isPairsPacked then packOffset cfg { s1 with lastReg := reg >>> 2, lastIdx := idx } (reg >>> 2)
          else some { s1 with lastReg := reg >>> 2, lastIdx := idx }) = some s2 ∧
        s2.emit cfg val = some s3 ∧ cmdEnd cfg (setRegCustom cfg depth) op s3 = some s' := by
  unfold setRegCustom
  by_cases hroom : cfg.maxDw < s.ndw + 2
  · simp [hroom, not_le.mpr hroom]
  by_cases hreg : 0xffff < reg >>> 2
  · simp [hroom, hreg, not_le.mpr hreg]
  simp only [hroom, hreg, if_false, not_lt.mp hroom, not_lt.mp hreg, true_and, bind_eq_bind]
  cases hop : op.isPairsPacked with
  | false => simp only [Bool.false_eq_true, if_false, bind_eq_some_iff, exists_and_left]
  | true => simp only [if_true, bind_eq_some_iff, exists_and_left]

/-- The last packet is the dwords after `closed`: a header, the number of registers, and the
body. -/
structure LastPacked (s : State) (op : Opcode) (closed : List ℕ) (h c : ℕ) (body : List ℕ) (pad : Bool) :
    Prop where
  pm4 : s.pm4 = closed ++ h :: c :: body
  lastPm4 : s.lastPm4 = closed.length
  lastOpcode : s.lastOpcode = some op
  padded : s.packedIsPadded = pad

namespace LastPacked

section

variable (hs : LastPacked s op closed h c body pad)
include hs

lemma ndw : s.ndw = closed.length + 2 + body.length := by
  rw [State.ndw, hs.pm4, length_append, length_cons, length_cons]
  omega

theorem size : s.ndw - s.lastPm4 = 2 + body.length := by
  rw [hs.ndw, hs.lastPm4]
  omega

/-- A dword of the body. -/
theorem getD (i : ℕ) : s.pm4.getD (s.lastPm4 + 2 + i) 0 = body.getD i 0 := by
  rw [hs.pm4, hs.lastPm4, getD_append_right _ _ _ _ (by omega),
    show closed.length + 2 + i - closed.length = i + 1 + 1 by omega]
  rfl

lemma getD_header : s.pm4.getD s.lastPm4 0 = h := by
  rw [hs.pm4, hs.lastPm4, getD_append_right _ _ _ _ (le_refl _), Nat.sub_self]
  rfl

end

section

variable {l : List (ℕ × ℕ)} {i d v : ℕ} {b : List ℕ}

section

variable (hs : LastPacked s op closed h c (triples l) pad)
include hs

lemma packedRegDwOffset (hreg : ∀ w ∈ l, w.1 < 2 ^ 16) (hi : i < l.length) :
    s.packedRegDwOffset i = (l.getD i (0, 0)).1 := by
  unfold State.packedRegDwOffset
  rw [hs.getD, triples_offset hreg hi]

lemma packedRegValue (hi : i < l.length) : s.packedRegValue i = (l.getD i (0, 0)).2 := by
  unfold State.packedRegValue packedRegValueIdx
  rw [add_assoc, add_assoc, hs.getD, ← add_assoc, triples_value hi]

lemma packedNextIsRegValue1 : s.packedNextIsRegValue1 = decide (l.length % 2 = 1) := by
  unfold State.packedNextIsRegValue1
  rw [hs.size, length_triples, decide_eq_decide]
  omega

lemma packedRegCount (heven : l.length % 2 = 0) : s.packedRegCount = l.length := by
  unfold State.packedRegCount
  rw [hs.size, length_triples]
  omega

end

lemma setReg (hs : LastPacked s op closed h c body pad) (reg idx : ℕ) :
    LastPacked { s with lastReg := reg, lastIdx := idx } op closed h c body pad :=
  ⟨hs.pm4, hs.lastPm4, hs.lastOpcode, hs.padded⟩

theorem emit (hs : LastPacked s op closed h c body pad) {dw : ℕ} (hemit : s.emit cfg dw = some s') :
    LastPacked s' op closed h c (body ++ [dw]) pad := by
  obtain ⟨-, rfl⟩ := emit_eq_some.mp hemit
  refine ⟨?_, hs.lastPm4, hs.lastOpcode, hs.padded⟩
  simp only [hs.pm4, append_assoc, cons_append]

section

variable (hs : LastPacked s op closed h c body pad)
include hs

lemma exists_emit (dw : ℕ) (hroom : s.ndw < cfg.maxDw) :
    ∃ s', s.emit cfg dw = some s' ∧ LastPacked s' op closed h c (body ++ [dw]) pad := by
  have hemit : s.emit cfg dw = some _ := emit_eq_some.mpr ⟨hroom, rfl⟩
  exact ⟨_, hemit, hs.emit hemit⟩

/-- The header is set. -/
theorem set_header (x : ℕ) : LastPacked { s with pm4 := s.pm4.set s.lastPm4 x } op closed x c body pad := by
  refine ⟨?_, hs.lastPm4, hs.lastOpcode, hs.padded⟩
  simp only [hs.pm4, hs.lastPm4]
  rw [set_append_right _ _ (le_refl _), Nat.sub_self, set_cons_zero]

/-- The number of registers is set. -/
theorem set_count (x : ℕ) :
    LastPacked { s with pm4 := s.pm4.set (s.lastPm4 + 1) x } op closed h x body pad := by
  refine ⟨?_, hs.lastPm4, hs.lastOpcode, hs.padded⟩
  simp only [hs.pm4, hs.lastPm4]
  rw [set_append_right _ _ (by omega), Nat.add_sub_cancel_left, set_cons_succ, set_cons_zero]

end

/-- A register that starts a triple. -/
theorem packOffset_pair (cfg : Config) (hs : LastPacked s op closed h c body false)
    (hbody : body.length % 3 = 0) (reg : ℕ) :
    packOffset cfg s reg = s.emit cfg reg := by
  have hnext : s.packedNextIsRegOffsetPair = true := by
    unfold State.packedNextIsRegOffsetPair
    rw [hs.size, decide_eq_true_iff]
    omega
  unfold packOffset
  simp only [hs.padded, Bool.false_eq_true, if_false, hnext, if_true]

/-- A register that completes a triple. -/
theorem packOffset_value1 (cfg : Config) (hs : LastPacked s op closed h c (b ++ [d, v]) false)
    (hb : b.length % 3 = 0) (reg : ℕ) :
    ∃ s', packOffset cfg s reg = some s' ∧
      LastPacked s' op closed h c (b ++ [field d 0 16 ||| reg <<< 16, v]) false := by
  have hsize : s.ndw - s.lastPm4 = b.length + 4 := by
    rw [hs.size, length_append, length_cons, length_singleton]
    omega
  have hpair : s.packedNextIsRegOffsetPair = false := by
    unfold State.packedNextIsRegOffsetPair
    rw [hsize, decide_eq_false_iff_not]
    omega
  have hvalue : s.packedNextIsRegValue1 = true := by
    unfold State.packedNextIsRegValue1
    rw [hsize, decide_eq_true_iff]
    omega
  have hidx : s.ndw - 2 = closed.length + 2 + b.length := by
    rw [hs.ndw, length_append, length_cons, length_singleton]
    omega
  have hget : s.pm4.getD (s.ndw - 2) 0 = d := by
    rw [hidx, ← hs.lastPm4, hs.getD, getD_append_right _ _ _ _ (le_refl _), Nat.sub_self]
    rfl
  unfold packOffset
  simp only [hs.padded, Bool.false_eq_true, if_false, hpair, hvalue, if_true, hget, and_16]
  refine ⟨_, rfl, ?_, hs.lastPm4, hs.lastOpcode, rfl⟩
  -- the offsets are the last dword but one
  simp only [hs.pm4, hidx]
  rw [set_append_right _ _ (by omega),
    show closed.length + 2 + b.length - closed.length = b.length + 1 + 1 by omega, set_cons_succ,
    set_cons_succ, set_append_right _ _ (le_refl _), Nat.sub_self, set_cons_zero]

/-- The padding is taken away first. -/
theorem packOffset_padded (cfg : Config) {p : ℕ}
    (hs : LastPacked s op closed h c (b ++ [d, v, p]) true) (hb : b.length % 3 = 0) (reg : ℕ) :
    ∃ s', packOffset cfg s reg = some s' ∧
      LastPacked s' op closed h c (b ++ [field d 0 16 ||| reg <<< 16, v]) false := by
  have hdrop : s.pm4.dropLast = closed ++ h :: c :: (b ++ [d, v]) := by
    rw [hs.pm4, show closed ++ h :: c :: (b ++ [d, v, p]) =
      (closed ++ h :: c :: (b ++ [d, v])) ++ [p] by simp,
      dropLast_concat]
  have hs' : LastPacked { s with packedIsPadded := false, pm4 := s.pm4.dropLast } op closed h c (b ++ [d, v]) false :=
    ⟨hdrop, hs.lastPm4, hs.lastOpcode, rfl⟩
  obtain ⟨t, ht, hlast⟩ := hs'.packOffset_value1 cfg hb reg
  refine ⟨t, ?_, hlast⟩
  unfold packOffset at ht ⊢
  simpa only [hs.padded, if_true, Bool.false_eq_true, if_false] using ht

end

end LastPacked

section

variable {l items : List (ℕ × ℕ)} {a : ℕ × ℕ} {reg : ℕ} (depth : ℕ)

/-- A packet with whole triples is ended without padding. -/
theorem cmdEnd_even (cfg : Config) (setReg : State → ℕ → ℕ → Opcode → ℕ → Option State)
    (hs : LastPacked s op closed h c (triples l) pad) (hop : op.isPairsPacked = true)
    (heven : l.length % 2 = 0) :
    ∃ s' cam, cmdEnd cfg setReg op s = some s' ∧
      LastPacked s' op closed (header op (3 * (l.length / 2)) cam) l.length (triples l) pad := by
  have hcount : s.ndw - s.lastPm4 - 2 = 3 * (l.length / 2) := by
    rw [hs.size, length_triples]
    omega
  have hs' := hs.set_header (header op (3 * (l.length / 2)) (needResetFilterCam cfg s op))
  unfold cmdEnd
  simp only [hcount, hop, if_true, bind_eq_bind]
  rw [if_neg (by rw [hs'.packedNextIsRegValue1, decide_eq_true_iff]; omega), bind_some,
    hs'.packedRegCount heven]
  exact ⟨_, _, rfl, hs'.set_count l.length⟩

section

variable (hs : LastPacked s op closed h c (triples (l ++ [a])) false)
include hs

section

variable (hop : op.isPairsPacked = true)
include hop

/-- A register completes the last triple, as the padding does. -/
theorem setRegCustom_value1 {w : ℕ × ℕ} (heven : l.length % 2 = 0) (ha : a.1 < 2 ^ 16)
    (hw : w.1 < 2 ^ 16) (hroom : s.ndw + 2 ≤ cfg.maxDw) :
    ∃ s' cam, setRegCustom cfg (depth + 1) s (w.1 * 4) w.2 op 0 = some s' ∧
      LastPacked s' op closed (header op (3 * ((l.length + 2) / 2)) cam) (l.length + 2) (triples (l ++ [a, w]))
        false := by
  have hreg : (w.1 * 4) >>> 2 = w.1 := by
    rw [shiftRight_eq_div_pow]
    omega
  have hopen : openPacket cfg s w.1 op 0 = some s := by
    unfold openPacket
    rw [if_pos hop, hs.lastOpcode, if_neg (by simp)]
  rw [triples_append heven, show triples [a] = [a.1, a.2] from rfl] at hs
  have hndw := hs.ndw
  rw [length_append, length_cons, length_singleton] at hndw
  obtain ⟨s2, h2, hs2⟩ := (hs.setReg w.1 0).packOffset_value1 cfg (length_triples_mod heven) w.1
  have hndw2 := hs2.ndw
  rw [length_append, length_cons, length_singleton] at hndw2
  obtain ⟨s3, h3, hs3⟩ := hs2.exists_emit w.2 (show s2.ndw < cfg.maxDw by omega)
  have hbody : triples l ++ [field a.1 0 16 ||| w.1 <<< 16, a.2] ++ [w.2] = triples (l ++ [a, w]) := by
    rw [triples_append heven, field_of_lt ha, append_assoc]
    rfl
  rw [hbody] at hs3
  have hlen : (l ++ [a, w]).length = l.length + 2 := by simp
  obtain ⟨s', cam, h4, hs'⟩ := cmdEnd_even cfg _ hs3 hop (by omega)
  rw [hlen] at hs'
  refine ⟨s', cam, setRegCustom_eq_some.mpr ⟨hroom, by omega, s, s2, s3, ?_, ?_, h3, h4⟩, hs'⟩
  · rw [hreg]
    exact hopen
  · rw [if_pos hop, hreg]
    exact h2

/-- A packet with an odd number of registers is padded with its first register. -/
theorem exists_cmdEnd_odd (heven : l.length % 2 = 0) (hreg : ∀ w ∈ l ++ [a], w.1 < 2 ^ 16)
    (hroom : s.ndw + 2 ≤ cfg.maxDw) :
    ∃ s' cam, cmdEnd cfg (setRegCustom cfg (depth + 1)) op s = some s' ∧
      LastPacked s' op closed (header op (3 * ((l.length + 2) / 2)) cam) (l.length + 2)
        (triples (l ++ [a, (l ++ [a]).headD (0, 0)])) true := by
  have hpos : 0 < (l ++ [a]).length := by simp
  have hs' := hs.set_header (header op (s.ndw - s.lastPm4 - 2) (needResetFilterCam cfg s op))
  have hhead : (l ++ [a]).getD 0 (0, 0) = (l ++ [a]).headD (0, 0) := by
    cases l <;> rfl
  have hfirst : ((l ++ [a]).headD (0, 0)).1 < 2 ^ 16 := by
    rw [← hhead, getD_eq_getElem _ _ hpos]
    exact hreg _ (getElem_mem hpos)
  have hndw : State.ndw { s with
      pm4 := s.pm4.set s.lastPm4
        (header op (s.ndw - s.lastPm4 - 2) (needResetFilterCam cfg s op)) } = s.ndw :=
    length_set
  obtain ⟨t, cam, ht, hlast⟩ := setRegCustom_value1 depth (w := (l ++ [a]).headD (0, 0)) hs' hop heven
    (hreg a (by simp)) hfirst (by rw [hndw]; exact hroom)
  have hlen : (l ++ [a, (l ++ [a]).headD (0, 0)]).length = l.length + 2 := by simp
  have hlast' : LastPacked { t with packedIsPadded := true } op closed (header op _ cam)
      (l.length + 2) (triples (l ++ [a, (l ++ [a]).headD (0, 0)])) true :=
    ⟨hlast.pm4, hlast.lastPm4, hlast.lastOpcode, rfl⟩
  unfold cmdEnd
  simp only [hop, if_true, bind_eq_bind]
  rw [if_pos (by rw [hs'.packedNextIsRegValue1, decide_eq_true_iff, length_append, length_singleton]; omega),
    hs'.packedRegDwOffset hreg hpos, hs'.packedRegValue hpos, hhead, ht, map_some, bind_some,
    hlast'.packedRegCount (by omega), hlen]
  exact ⟨_, _, rfl, hlast'.set_count _⟩

lemma room_of_cmdEnd_odd {depth : ℕ} (heven : l.length % 2 = 0)
    (hend : cmdEnd cfg (setRegCustom cfg (depth + 1)) op s = some s') : s.ndw + 2 ≤ cfg.maxDw := by
  have hs' := hs.set_header (header op (s.ndw - s.lastPm4 - 2) (needResetFilterCam cfg s op))
  unfold cmdEnd at hend
  simp only [hop, if_true, bind_eq_bind] at hend
  rw [if_pos (by rw [hs'.packedNextIsRegValue1, decide_eq_true_iff, length_append, length_singleton]; omega)] at hend
  obtain ⟨t, ht, -⟩ := bind_eq_some_iff.mp hend
  obtain ⟨u, hu, -⟩ := map_eq_some_iff.mp ht
  have hroom := (setRegCustom_eq_some.mp hu).1
  simpa only [State.ndw, length_set] using hroom

end

end

/-- The registers that a packed packet holds. -/
def padded (items : List (ℕ × ℕ)) : List (ℕ × ℕ) :=
  if items.length % 2 = 1 then items ++ [items.headD (0, 0)] else items

lemma padded_even (h : items.length % 2 = 0) : padded items = items := if_neg (by omega)

lemma padded_odd (h : items.length % 2 = 1) : padded items = items ++ [items.headD (0, 0)] := if_pos h

/-- The last packet is a complete packed one for a list of registers. -/
structure PackedOpen (s : State) (op : Opcode) (closed : List ℕ) (items : List (ℕ × ℕ)) : Prop where
  last : ∃ cam, LastPacked s op closed (header op (3 * ((padded items).length / 2)) cam) (padded items).length
    (triples (padded items)) (decide (items.length % 2 = 1))
  ne_nil : items ≠ []
  reg_lt : ∀ w ∈ items, w.1 < 2 ^ 16

/-- The stages of `ac_pm4_set_reg_custom` after the choice of the packet. -/
def put (cfg : Config) (depth : ℕ) (op : Opcode) (s : State) (reg val : ℕ) : Option State :=
  ((packOffset cfg { s with lastReg := reg, lastIdx := 0 } reg).bind (·.emit cfg val)).bind
    (cmdEnd cfg (setRegCustom cfg depth) op)

/-- A register after whole triples. -/
theorem put_even (hs : LastPacked s op closed h c (triples l) false) (hop : op.isPairsPacked = true)
    (heven : l.length % 2 = 0) (hreg : ∀ w ∈ l, w.1 < 2 ^ 16) (hlt : reg < 2 ^ 16) (val : ℕ) :
    (∀ s', put cfg 1 op s reg val = some s' → PackedOpen s' op closed (l ++ [(reg, val)])) ∧
      (s.ndw + 4 ≤ cfg.maxDw → ∃ s', put cfg 1 op s reg val = some s' ∧ s'.ndw ≤ s.ndw + 3) := by
  have hb := length_triples_mod heven
  have hbody : triples l ++ [reg] ++ [val] = triples (l ++ [(reg, val)]) := by
    rw [triples_append heven, append_assoc]
    rfl
  have hregs : ∀ w ∈ l ++ [(reg, val)], w.1 < 2 ^ 16 :=
    forall_mem_append.mpr ⟨hreg, forall_mem_singleton.mpr hlt⟩
  have hs0 := hs.setReg reg 0
  have hodd : (l ++ [(reg, val)]).length % 2 = 1 := by
    rw [length_append, length_singleton]
    omega
  have hpadded : padded (l ++ [(reg, val)]) = l ++ [(reg, val), (l ++ [(reg, val)]).headD (0, 0)] := by
    rw [padded_odd hodd, append_assoc]
    rfl
  have hlen : (padded (l ++ [(reg, val)])).length = l.length + 2 := by
    rw [hpadded]
    simp
  unfold put
  rw [hs0.packOffset_pair cfg hb]
  constructor
  · intro s' hput
    obtain ⟨s3, h3, hend⟩ := bind_eq_some_iff.mp hput
    obtain ⟨s2, h2, h3⟩ := bind_eq_some_iff.mp h3
    have hs3 := (hs0.emit h2).emit h3
    rw [hbody] at hs3
    have hroom := room_of_cmdEnd_odd hs3 hop heven hend
    obtain ⟨t, cam, ht, hlast⟩ := exists_cmdEnd_odd 0 hs3 hop heven hregs hroom
    cases hend.symm.trans ht
    refine ⟨⟨cam, ?_⟩, by simp, hregs⟩
    rw [hlen, hpadded, decide_eq_true hodd]
    exact hlast
  · intro hroom
    obtain ⟨s2, h2, hs2⟩ := hs0.exists_emit reg (show s.ndw < cfg.maxDw by omega)
    have hndw2 := hs2.ndw
    have hndw := hs.ndw
    rw [length_append, length_singleton] at hndw2
    obtain ⟨s3, h3, hs3⟩ := hs2.exists_emit val (show s2.ndw < cfg.maxDw by omega)
    rw [hbody] at hs3
    have hndw3 := hs3.ndw
    rw [← hbody, length_append, length_append, length_singleton, length_singleton] at hndw3
    obtain ⟨t, cam, ht, hlast⟩ :=
      exists_cmdEnd_odd 0 hs3 hop heven hregs (show s3.ndw + 2 ≤ cfg.maxDw by omega)
    refine ⟨t, ?_, ?_⟩
    · rw [h2, bind_some, h3, bind_some]
      exact ht
    · have hndw' := hlast.ndw
      rw [length_triples] at hndw' hb
      have hbl := length_triples l
      simp only [length_append, length_cons, length_nil] at hndw'
      omega

/-- A register in place of the padding. -/
theorem put_odd {f : ℕ × ℕ} (hs : LastPacked s op closed h c (triples (l ++ [a, f])) true)
    (hop : op.isPairsPacked = true) (heven : l.length % 2 = 0) (hreg : ∀ w ∈ l ++ [a], w.1 < 2 ^ 16)
    (hlt : reg < 2 ^ 16) (val : ℕ) (hroom : s.ndw ≤ cfg.maxDw) :
    ∃ s', put cfg 1 op s reg val = some s' ∧ PackedOpen s' op closed (l ++ [a] ++ [(reg, val)]) ∧
      s'.ndw ≤ s.ndw := by
  have ha : a.1 < 2 ^ 16 := hreg a (by simp)
  have hregs : ∀ w ∈ l ++ [a] ++ [(reg, val)], w.1 < 2 ^ 16 :=
    forall_mem_append.mpr ⟨hreg, forall_mem_singleton.mpr hlt⟩
  rw [triples_append heven, show triples [a, f] = [a.1 ||| f.1 <<< 16, a.2, f.2] from rfl] at hs
  have hndw := hs.ndw
  simp only [length_append, length_cons, length_nil] at hndw
  obtain ⟨s2, h2, hs2⟩ := (hs.setReg reg 0).packOffset_padded cfg (length_triples_mod heven) reg
  have hndw2 := hs2.ndw
  simp only [length_append, length_cons, length_nil] at hndw2
  obtain ⟨s3, h3, hs3⟩ := hs2.exists_emit val (show s2.ndw < cfg.maxDw by omega)
  have hbody : triples l ++ [field (a.1 ||| f.1 <<< 16) 0 16 ||| reg <<< 16, a.2] ++ [val] =
      triples (l ++ [a] ++ [(reg, val)]) := by
    rw [field_lo ha, append_assoc l, triples_append heven, append_assoc]
    rfl
  rw [hbody] at hs3
  have hlen : (l ++ [a] ++ [(reg, val)]).length = l.length + 2 := by simp
  obtain ⟨t, cam, ht, hlast⟩ := cmdEnd_even cfg _ hs3 hop (by omega)
  refine ⟨t, ?_, ⟨⟨cam, ?_⟩, by simp, hregs⟩, ?_⟩
  · unfold put
    rw [h2, bind_some, h3, bind_some]
    exact ht
  · rw [padded_even (by omega), decide_eq_false (by omega)]
    exact hlast
  · have hndw' := hlast.ndw
    rw [length_triples, hlen] at hndw'
    have hbl := length_triples l
    omega

end

end RadvXclipse.Pm4
