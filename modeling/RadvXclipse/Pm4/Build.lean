import RadvXclipse.Pm4.Plain

/-!
# Building a whole state

A call that writes a register through a packed packet joins the last packet if that is of the same
opcode; every other call can be seen as a packet of its own. The dwords then have the effect of
these packets one after another, each with its padding.
-/

namespace RadvXclipse.Pm4

open Lib List
open Option hiding map_map

variable {cfg : Config} {s s' : State} {op : Opcode} {closed : List ℕ} {items : List (ℕ × ℕ)}

/-! ## Packed packets -/

section Packed

variable {reg val : ℕ}

lemma setRegCustom_packed (hop : op.isPairsPacked = true) :
    setRegCustom cfg 2 s reg val op 0 = some s' ↔ s.ndw + 2 ≤ cfg.maxDw ∧ reg >>> 2 ≤ 0xffff ∧
      ∃ s1, openPacket cfg s (reg >>> 2) op 0 = some s1 ∧ put cfg 1 op s1 (reg >>> 2) val = some s' := by
  simp only [setRegCustom_eq_some, hop, if_true, put, bind_assoc, bind_eq_some_iff, exists_and_left]

/-- A register for an open packed packet. -/
theorem PackedOpen.put (cfg : Config) (hs : PackedOpen s op closed items)
    (hop : op.isPairsPacked = true) (hlt : reg < 2 ^ 16) (hroom : s.ndw ≤ cfg.maxDw) (val : ℕ) :
    (∀ s', Pm4.put cfg 1 op s reg val = some s' → PackedOpen s' op closed (items ++ [(reg, val)])) ∧

    (s.ndw + 4 ≤ cfg.maxDw → ∃ s', Pm4.put cfg 1 op s reg val = some s' ∧ s'.ndw ≤ s.ndw + 3) := by
  obtain ⟨cam, hlast⟩ := hs.last
  rcases Nat.mod_two_eq_zero_or_one items.length with heven | hodd
  · rw [padded_even heven, decide_eq_false (by omega)] at hlast
    exact put_even hlast hop heven hs.reg_lt hlt val
  · -- the padding is taken away
    obtain ⟨l, a, rfl⟩ : ∃ l a, items = l ++ [a] := ⟨_, _, (dropLast_concat_getLast hs.ne_nil).symm⟩
    have heven : l.length % 2 = 0 := by
      rw [length_append, length_singleton] at hodd
      omega
    rw [padded_odd hodd, decide_eq_true hodd, append_assoc] at hlast
    obtain ⟨t, hput, hopen, hndw⟩ := put_odd hlast hop heven hs.reg_lt hlt val hroom
    refine ⟨fun s' h => ?_, fun _ => ⟨t, hput, by omega⟩⟩
    cases hput.symm.trans h
    exact hopen

/-- The first register of a new packed packet. -/
theorem put_begin {s1 : State} (hbegin : begin cfg op s 0 = some s1) (hop : op.isPairsPacked = true)
    (hlt : reg < 2 ^ 16) (val : ℕ) :
    (∀ s', put cfg 1 op s1 reg val = some s' → PackedOpen s' op (finalize cfg s).pm4 [(reg, val)]) ∧
      (s1.ndw + 4 ≤ cfg.maxDw → ∃ s', put cfg 1 op s1 reg val = some s' ∧ s'.ndw ≤ s1.ndw + 3) := by
  obtain ⟨hlast, hpad⟩ := begin_eq_some hbegin
  have hlast' : LastPacked s1 op (finalize cfg s).pm4 0 0 (triples []) false :=
    ⟨hlast.pm4, hlast.lastPm4, hlast.lastOpcode, hpad⟩
  exact put_even hlast' hop rfl (forall_mem_nil _) hlt val

end Packed

/-! ## No more dwords than there is room for -/

lemma ndw_le_of_cmdEnd {setReg : State → ℕ → ℕ → Opcode → ℕ → Option State}
    (hset : ∀ s reg val op idx s', setReg s reg val op idx = some s' → s'.ndw ≤ cfg.maxDw)
    (hs : s.ndw ≤ cfg.maxDw) (hend : cmdEnd cfg setReg op s = some s') : s'.ndw ≤ cfg.maxDw := by
  unfold cmdEnd at hend
  cases hop : op.isPairsPacked with
  | false =>
    simp only [hop, Bool.false_eq_true, if_false, Option.some.injEq] at hend
    subst hend
    simpa only [State.ndw, length_set] using hs
  | true =>
    simp only [hop, if_true, bind_eq_bind] at hend
    split_ifs at hend
    · obtain ⟨t, ht, htail⟩ := bind_eq_some_iff.mp hend
      obtain ⟨u, hu, rfl⟩ := map_eq_some_iff.mp ht
      cases htail
      have hle := hset _ _ _ _ _ _ hu
      simpa only [State.ndw, length_set] using hle
    · cases hend
      simpa only [State.ndw, length_set] using hs

lemma ndw_le_of_setRegCustom (depth : ℕ) (s : State) (reg val : ℕ) (op : Opcode) (idx : ℕ) (s' : State)
    (hset : setRegCustom cfg depth s reg val op idx = some s') : s'.ndw ≤ cfg.maxDw := by
  induction depth generalizing s reg val op idx s' with
  | zero => cases hset
  | succ depth ih =>
    obtain ⟨-, -, s1, s2, s3, -, -, h3, h4⟩ := setRegCustom_eq_some.mp hset
    obtain ⟨hlt, rfl⟩ := emit_eq_some.mp h3
    refine ndw_le_of_cmdEnd ih ?_ h4
    simp only [State.ndw, length_append, length_singleton] at hlt ⊢
    omega

/-! ## Calls -/

/-- What a call of `ac_pm4_set_reg` writes: the packet, the offset in its space, and the value. -/
structure Call where
  op : Opcode
  reg : ℕ
  val : ℕ
deriving DecidableEq

/-- The register and its value. -/
def Call.write (c : Call) : ℕ × ℕ := (c.op.base + c.reg, c.val)

/-- A call joins a packet of the same packed opcode. -/
def joins (g : List Call) (c : Call) : Bool := c.op.isPairsPacked ∧ g.head?.map Call.op = some c.op

/-- The calls of a packet with its padding. -/
def pad : List Call → List Call
  | [] => []
  | c :: g => if c.op.isPairsPacked ∧ g.length % 2 = 0 then c :: g ++ [c] else c :: g

/-- The calls by packets, of which `g` is open. -/
def packetsFrom (g : List Call) : List Call → List (List Call)
  | [] => [g]
  | c :: cs => if joins g c then packetsFrom (g ++ [c]) cs else g :: packetsFrom [c] cs

lemma pad_of_not_packed {g : List Call} (h : ∀ c ∈ g, c.op.isPairsPacked = false) : pad g = g := by
  cases g with
  | nil => rfl
  | cons c g => rw [pad, if_neg (by simp [h c _])]

/-- The padding of a packed packet. -/
theorem place_padded {g : List Call} (hop : op.isPairsPacked = true) (hg : ∀ c ∈ g, c.op = op) :
    op.place (padded (g.map fun c => (c.reg, c.val))) = (pad g).map Call.write := by
  have hplace : ∀ l : List Call, (∀ c ∈ l, c.op = op) →
      op.place (l.map fun c => (c.reg, c.val)) = l.map Call.write := by
    intro l hl
    rw [Opcode.place, map_map]
    apply map_congr_left
    intro c hc
    rw [Function.comp_apply, Call.write, hl c hc]
  cases g with
  | nil => rfl
  | cons c g =>
    have hc : c.op = op := hg c mem_cons_self
    unfold padded pad
    simp only [length_map, length_cons, hc, hop, true_and]
    split_ifs with hodd heven heven
    · rw [← hplace _ (forall_mem_append.mpr ⟨hg, forall_mem_singleton.mpr hc⟩), map_append]
      rfl
    · omega
    · omega
    · exact hplace _ hg

/-- The state after some calls: all packets but the last do `done`, and the last one has the calls
`g`. -/
inductive Rep (s : State) : List (ℕ × ℕ) → List Call → Prop
  | tail {done : List (ℕ × ℕ)} {g : List Call} (hg : ∀ c ∈ g, c.op.isPairsPacked = false)
      (htail : Tail s (done ++ g.map Call.write)) : Rep s done g
  | packed {op : Opcode} {closed : List ℕ} {done : List (ℕ × ℕ)} {g : List Call}
    (hop : op.isPairsPacked = true)
      (hg : ∀ c ∈ g, c.op = op) (hclosed : Does closed done)
      (hopen : PackedOpen s op closed (g.map fun c => (c.reg, c.val))) : Rep s done g

namespace Rep

variable {done : List (ℕ × ℕ)} {g : List Call}

/-- The dwords as they are. -/
theorem does (hs : Rep s done g) (hroom : s.ndw ≤ 16385) : Does s.pm4 (done ++ (pad g).map Call.write) := by
  cases hs with
  | tail hg htail =>
    rw [pad_of_not_packed hg]
    exact htail.does hroom
  | packed hop hg hclosed hopen =>
    rw [← place_padded hop hg]
    exact hopen.does hop hroom hclosed

lemma does_finalize (cfg : Config) (hs : Rep s done g) (hroom : s.ndw ≤ 16385) :
    Does (finalize cfg s).pm4 (done ++ (pad g).map Call.write) := by
  cases hs with
  | tail hg htail =>
    rw [pad_of_not_packed hg, finalize_of_not_packed cfg htail.not_packed]
    exact htail.does hroom
  | packed hop hg hclosed hopen =>
    rw [← place_padded hop hg]
    exact hopen.does_finalize cfg hop hroom hclosed

/-- A last packet that is not packed. -/
theorem tail_of_not_packed (hs : Rep s done g) (hpacked : s.isPacked = false) :
    Tail s (done ++ (pad g).map Call.write) := by
  cases hs with
  | tail hg htail =>
    rw [pad_of_not_packed hg]
    exact htail
  | packed hop hg hclosed hopen =>
    obtain ⟨cam, hlast⟩ := hopen.last
    rw [State.isPacked, hlast.lastOpcode, any_some, hop] at hpacked
    cases hpacked

/-- The calls join as the opcodes say. -/
theorem joins_iff (hs : Rep s done g) {c : Call} (hop : c.op.isPairsPacked = true) :
    joins g c = true ↔ s.lastOpcode = some c.op := by
  simp only [joins, decide_eq_true_iff, hop, true_and]
  cases hs with
  | tail hg htail =>
    have hpacked := htail.not_packed
    constructor
    · intro hhead
      obtain ⟨d, hd, heq⟩ := map_eq_some_iff.mp hhead
      rw [← heq, hg d (mem_of_head? hd)] at hop
      cases hop
    · intro hlast
      rw [State.isPacked, hlast, any_some, hop] at hpacked
      cases hpacked
  | packed hop' hg hclosed hopen =>
    obtain ⟨cam, hlast⟩ := hopen.last
    obtain ⟨d, g, rfl⟩ := exists_cons_of_ne_nil fun hnil => hopen.ne_nil (map_eq_nil_iff.mpr hnil)
    rw [hlast.lastOpcode, head?_cons, map_some, hg d mem_cons_self]

/-- A last packet that is packed. -/
theorem exists_open (hs : Rep s done g) (hop : op.isPairsPacked = true) (hlast : s.lastOpcode = some op) :
    ∃ closed, (∀ c ∈ g, c.op = op) ∧ Does closed done ∧
      PackedOpen s op closed (g.map fun c => (c.reg, c.val)) := by
  cases hs with
  | tail hg htail =>
    have hpacked := htail.not_packed
    rw [State.isPacked, hlast, any_some, hop] at hpacked
    cases hpacked
  | @packed op' closed _ _ hop' hg hclosed hopen =>
    obtain ⟨cam, hlast'⟩ := hopen.last
    obtain rfl : op' = op := by rwa [hlast'.lastOpcode, Option.some.injEq] at hlast
    exact ⟨closed, hg, hclosed, hopen⟩

/-- What a call does to the state: it joins the last packet, or that is left as it is and a new one
follows. -/
structure Next (s' : State) (done : List (ℕ × ℕ)) (g : List Call) (c : Call) : Prop where
  join : joins g c = true → Rep s' done (g ++ [c])
  new : joins g c = false → Rep s' (done ++ (pad g).map Call.write) [c]

variable {reg val : ℕ}

section

variable (hs : Rep s done g)
include hs

lemma setRegCustom_packed_next (hop : op.isPairsPacked = true) (hsize : s.ndw ≤ 16385)
    (hroom : s.ndw ≤ cfg.maxDw) (hset : setRegCustom cfg 2 s reg val op 0 = some s') :
    Next s' done g ⟨op, reg >>> 2, val⟩ := by
  have hdoes := hs.does_finalize cfg hsize
  have hjoins : joins g ⟨op, reg >>> 2, val⟩ = true ↔ _ := hs.joins_iff hop
  obtain ⟨-, hle, s1, hopen, hput⟩ := (setRegCustom_packed hop).mp hset
  have hlt : reg >>> 2 < 2 ^ 16 := by omega
  unfold openPacket at hopen
  rw [if_pos hop] at hopen
  constructor
  · intro hjoin
    rw [hjoins] at hjoin
    rw [hjoin, if_neg (by simp)] at hopen
    cases hopen
    obtain ⟨closed, hg, hclosed, hpacked⟩ := hs.exists_open hop hjoin
    refine .packed hop (forall_mem_append.mpr ⟨hg, forall_mem_singleton.mpr rfl⟩) hclosed ?_
    rw [map_append]
    exact (hpacked.put cfg hop hlt hroom val).1 s' hput
  · intro hnew
    rw [← Bool.not_eq_true, hjoins] at hnew
    rw [if_pos (Ne.symm hnew)] at hopen
    refine .packed hop (fun c hc => ?_) hdoes ((put_begin hopen hop hlt val).1 s' hput)
    rw [mem_singleton.mp hc]

lemma next_of_setRegCustom (hcopy : op ≠ .copyData) (hsize : s.ndw ≤ 16385)
    (hroom : s.ndw ≤ cfg.maxDw) (hset : setRegCustom cfg 2 s reg val op 0 = some s') :
    Next s' done g ⟨op, reg >>> 2, val⟩ := by
  cases hpacked : op.isPairsPacked with
  | true => exact hs.setRegCustom_packed_next hpacked hsize hroom hset
  | false =>
    have hdoes := hs.does_finalize cfg hsize
    have htail : Tail s' (done ++ (pad g).map Call.write ++ [(op.base + reg >>> 2, val)]) := by
      cases hpairs : op.isPairs with
      | true => exact tail_of_pairs hdoes hs.tail_of_not_packed hset hpairs
      | false => exact tail_of_plain hdoes hs.tail_of_not_packed hset hpacked hpairs hcopy
    refine ⟨fun hjoin => ?_, fun _ => .tail (fun c hc => ?_) htail⟩
    · simp [joins, hpacked] at hjoin
    · rw [mem_singleton.mp hc]
      exact hpacked

/-- The dwords that a call needs at most. -/
theorem exists_setRegCustom (op : Opcode) (hle : reg >>> 2 ≤ 0xffff) (hroom : s.ndw + 6 ≤ cfg.maxDw)
    (val : ℕ) : ∃ s', setRegCustom cfg 2 s reg val op 0 = some s' ∧ s'.ndw ≤ s.ndw + 6 := by
  have hlt : reg >>> 2 < 2 ^ 16 := by omega
  by_cases hpacked : op.isPairsPacked = true
  · by_cases hlast : some op = s.lastOpcode
    · have hopen : openPacket cfg s (reg >>> 2) op 0 = some s := by
        rw [openPacket, if_pos hpacked, if_neg (not_not.mpr hlast)]
      obtain ⟨closed, -, -, hs⟩ := hs.exists_open hpacked hlast.symm
      obtain ⟨s', hput, hndw⟩ := (hs.put cfg hpacked hlt (by omega) val).2 (by omega)
      exact ⟨s', (setRegCustom_packed hpacked).mpr ⟨by omega, hle, s, hopen, hput⟩, by omega⟩
    · obtain ⟨s1, hbegin, hndw1⟩ := exists_begin cfg op s 0 (by omega)
      have hopen : openPacket cfg s (reg >>> 2) op 0 = some s1 := by
        rw [openPacket, if_pos hpacked, if_pos hlast]
        exact hbegin
      obtain ⟨s', hput, hndw⟩ := (put_begin hbegin hpacked hlt val).2 (by omega)
      exact ⟨s', (setRegCustom_packed hpacked).mpr ⟨by omega, hle, s1, hopen, hput⟩, by omega⟩
  · have hopen : ∃ s1, openPacket cfg s (reg >>> 2) op 0 = some s1 ∧ s1.ndw ≤ s.ndw + 2 := by
      rw [openPacket, if_neg hpacked]
      split_ifs
      · exact exists_begin cfg op s _ (by omega)
      · obtain ⟨s1, h1, hndw⟩ := exists_emit (reg >>> 2) (show s.ndw < cfg.maxDw by omega)
        exact ⟨s1, h1, by omega⟩
      · exact exists_begin cfg op s _ (by omega)
      · exact ⟨s, rfl, by omega⟩
    obtain ⟨s1, h1, hndw1⟩ := hopen
    obtain ⟨s', hset, hndw⟩ := exists_setRegCustom_plain (by simpa using hpacked) h1 hle (by omega)
      (show s1.ndw < cfg.maxDw by omega)
    exact ⟨s', hset, by omega⟩

lemma ndw_le_add (hset : setRegCustom cfg 2 s reg val op 0 = some s') : s'.ndw ≤ s.ndw + 6 := by
  by_cases hroom : s.ndw + 6 ≤ cfg.maxDw
  · obtain ⟨-, hle, -⟩ := setRegCustom_eq_some.mp hset
    obtain ⟨t, ht, hndw⟩ := hs.exists_setRegCustom op hle hroom val
    cases hset.symm.trans ht
    exact hndw
  · have hle := ndw_le_of_setRegCustom _ _ _ _ _ _ _ hset
    omega

end

end Rep

/-! ## Privileged registers -/

lemma cmdAdd_eq_some {dw : ℕ} (h : cmdAdd cfg s dw = some s') :
    s'.pm4 = s.pm4 ++ [dw] ∧ s'.lastOpcode = none ∧ s'.ndw ≤ cfg.maxDw := by
  obtain ⟨t, ht, rfl⟩ := map_eq_some_iff.mp h
  obtain ⟨hlt, rfl⟩ := emit_eq_some.mp ht
  refine ⟨rfl, rfl, ?_⟩
  simp only [State.ndw, length_append, length_singleton] at hlt ⊢
  omega

lemma setPrivilegedReg_eq_some {reg val : ℕ} (h : setPrivilegedReg cfg s reg val = some s') :
    s'.pm4 = s.pm4 ++ pkt3 .copyData 4 :: [5 ||| 4 <<< 8, val, 0, reg >>> 2, 0] ∧
      s'.lastOpcode = none ∧ s'.ndw ≤ cfg.maxDw := by
  unfold setPrivilegedReg at h
  simp only [bind_eq_bind, bind_eq_some_iff] at h
  obtain ⟨s1, h1, s2, h2, s3, h3, s4, h4, s5, h5, h6⟩ := h
  obtain ⟨hpm4, hop, hndw⟩ := cmdAdd_eq_some h6
  refine ⟨?_, hop, hndw⟩
  rw [hpm4, (cmdAdd_eq_some h5).1, (cmdAdd_eq_some h4).1, (cmdAdd_eq_some h3).1,
    (cmdAdd_eq_some h2).1, (cmdAdd_eq_some h1).1]
  simp only [append_assoc, cons_append, nil_append]

lemma exists_cmdAdd (dw : ℕ) (hroom : s.ndw < cfg.maxDw) :
    ∃ s', cmdAdd cfg s dw = some s' ∧ s'.ndw = s.ndw + 1 := by
  obtain ⟨t, ht, hndw⟩ := exists_emit dw hroom
  exact ⟨_, map_eq_some_iff.mpr ⟨t, ht, rfl⟩, hndw⟩

lemma exists_setPrivilegedReg (reg val : ℕ) (hroom : s.ndw + 6 ≤ cfg.maxDw) :
    ∃ s', setPrivilegedReg cfg s reg val = some s' ∧ s'.ndw = s.ndw + 6 := by
  obtain ⟨s1, h1, hndw1⟩ := exists_cmdAdd (pkt3 .copyData 4) (show s.ndw < cfg.maxDw by omega)
  obtain ⟨s2, h2, hndw2⟩ := exists_cmdAdd (5 ||| 4 <<< 8) (show s1.ndw < cfg.maxDw by omega)
  obtain ⟨s3, h3, hndw3⟩ := exists_cmdAdd val (show s2.ndw < cfg.maxDw by omega)
  obtain ⟨s4, h4, hndw4⟩ := exists_cmdAdd 0 (show s3.ndw < cfg.maxDw by omega)
  obtain ⟨s5, h5, hndw5⟩ := exists_cmdAdd (reg >>> 2) (show s4.ndw < cfg.maxDw by omega)
  obtain ⟨s6, h6, hndw6⟩ := exists_cmdAdd 0 (show s5.ndw < cfg.maxDw by omega)
  refine ⟨s6, ?_, by omega⟩
  simp only [setPrivilegedReg, h1, h2, h3, h4, h5, h6, bind_eq_bind, bind_some]

/-- The last packet stays as it is. -/
theorem Rep.next_of_setPrivilegedReg {done : List (ℕ × ℕ)} {g : List Call} {reg val : ℕ}
    (hs : Rep s done g) (hroom : s.ndw ≤ 16385) (hset : setPrivilegedReg cfg s reg val = some s') :
    Rep.Next s' done g ⟨.copyData, reg >>> 2, val⟩ := by
  obtain ⟨hpm4, hop, -⟩ := setPrivilegedReg_eq_some hset
  have hruns :=
    runs_packet .copyData (show 4 < 2 ^ 14 by omega) false [5 ||| 4 <<< 8, val, 0, reg >>> 2, 0] rfl
  refine ⟨fun hjoin => ?_, fun _ => .tail (fun c hc => ?_) (.none hop ?_)⟩
  · simp [joins, Opcode.isPairsPacked] at hjoin
  · rw [mem_singleton.mp hc]
    rfl
  · rw [hpm4]
    have hdoes := (hs.does hroom).append hruns.does
    have hwrite : [Call.write ⟨.copyData, reg >>> 2, val⟩] =
        Opcode.writes .copyData [5 ||| 4 <<< 8, val, 0, reg >>> 2, 0] := by
      rw [Call.write, Opcode.base, zero_add]
      rfl
    rw [map_singleton, hwrite]
    exact hdoes

end RadvXclipse.Pm4
