import RadvXclipse.Winsys.CsWalk

/-!
# The packets that the command processor executes

`CpWalk` follows the IBs of a stream; here the dwords of an IB are read as packets. A header says
how long its packet is. NOPs are skipped, an `INDIRECT_BUFFER` packet with the chain bit continues
in another IB, and one without it executes another IB (an IB2) and returns. What remains is the list
of packets that do something.
-/

namespace RadvXclipse.RadvAmdgpu

open Lib Util List Nat
open BitVec hiding shiftLeft_eq or_zero append_assoc

/-! ## Packets -/

/-- `PKT_TYPE_G`. -/
def pktTypeG (x : BitVec 32) : BitVec 32 := (x >>> 30) &&& 0x3
/-- `PKT3_IT_OPCODE_G`. -/
def pkt3ItOpcodeG (x : BitVec 32) : BitVec 32 := (x >>> 8) &&& 0xFF

abbrev Packet := List (BitVec 32)

/-- The number of dwords of the packet with this header. -/
def packetLen (header : BitVec 32) : ℕ :=
  if pktTypeG header = 3 then
    if pkt3ItOpcodeG header = pkt3Nop ∧ pktCountG header = 0x3FFF then 1
    else (pktCountG header).toNat + 2
  else if pktTypeG header = 0 then (pktCountG header).toNat + 2
  else 1

/-- The dwords are one packet. -/
def Packet.Whole (p : Packet) : Prop := p.length = packetLen (p.headD 0)

instance (p : Packet) : Decidable p.Whole := inferInstanceAs (Decidable (_ = _))

/-- A type-2 packet or a `NOP`. -/
def Packet.isNop (p : Packet) : Bool :=
  pktTypeG (p.headD 0) = 2 || (pktTypeG (p.headD 0) = 3 && pkt3ItOpcodeG (p.headD 0) = pkt3Nop)

/-- An `INDIRECT_BUFFER` packet that is not predicated. -/
def Packet.isIb (p : Packet) : Bool := p.headD 0 = pkt3 pkt3IndirectBuffer 2 0

lemma packetLen_pos (header : BitVec 32) : 0 < packetLen header := by
  unfold packetLen
  split_ifs <;> omega

section

variable (va : BitVec 64) (control : BitVec 32)

lemma whole_linkPacket : Packet.Whole (linkPacket va control) := by
  have hlen : packetLen (pkt3 pkt3IndirectBuffer 2 0) = 4 := by decide
  exact hlen.symm

@[simp] lemma isNop_linkPacket :
    Packet.isNop (linkPacket va control) = false := by
  have h : Packet.isNop [pkt3 pkt3IndirectBuffer 2 0] = false := by decide
  exact h

@[simp] lemma isIb_linkPacket :
    Packet.isIb (linkPacket va control) = true := decide_eq_true rfl

end

/-- The header decides where a packet ends. -/
theorem Packet.Whole.append_inj {p p' : Packet} {rest rest' : List (BitVec 32)} (h : p.Whole)
    (h' : p'.Whole) (heq : p ++ rest = p' ++ rest') : p = p' ∧ rest = rest' := by
  have hne : ∀ {q : Packet}, q.Whole → q ≠ [] := by
    rintro q hq rfl
    exact absurd hq (Nat.ne_of_lt (packetLen_pos _))
  obtain ⟨a, l, rfl⟩ := exists_cons_of_ne_nil (hne h)
  obtain ⟨a', l', rfl⟩ := exists_cons_of_ne_nil (hne h')
  obtain ⟨rfl, -⟩ := List.cons.inj heq
  exact List.append_inj heq (h.trans h'.symm)

lemma linkPacket_inj {va va' : BitVec 64} {control control' : BitVec 32}
    (h : linkPacket va control = linkPacket va' control') : va = va' ∧ control = control' := by
  simp only [linkPacket, List.cons.injEq, and_true, true_and] at h
  obtain ⟨hlow, hhigh, hcontrol⟩ := h
  refine ⟨?_, hcontrol⟩
  rw [← setWidth_append_self va, ← setWidth_append_self va', hlow, hhigh]

lemma toNat_pktCountS (c : BitVec 32) : (pktCountS c).toNat = c.toNat % 2 ^ 14 * 2 ^ 16 := by
  have hmask : (0x3FFF : BitVec 32).toNat = 2 ^ 14 - 1 := by decide
  rw [pktCountS, toNat_shiftLeft, toNat_and, hmask, and_two_pow_sub_one_eq_mod, shiftLeft_eq]
  omega

/-- The fields of a `NOP` header. -/
theorem nopHeader_fields {count : ℕ} (h : count < 0x3FFF) :
    pktTypeG (pkt3 pkt3Nop (BitVec.ofNat 32 count) 0) = 3 ∧
      pkt3ItOpcodeG (pkt3 pkt3Nop (BitVec.ofNat 32 count) 0) = pkt3Nop ∧
      pktCountG (pkt3 pkt3Nop (BitVec.ofNat 32 count) 0) = BitVec.ofNat 32 count := by
  have hnat : (pkt3 pkt3Nop (BitVec.ofNat 32 count) 0).toNat = 3 * 2 ^ 30 + count * 2 ^ 16 + 0x1000 := by
    have h1 : (pktTypeS 3).toNat = 2 ^ 30 * 3 := by decide
    have h2 : (pkt3ItOpcodeS pkt3Nop).toNat = 0x1000 := by decide
    have h3 : (pkt3Predicate 0).toNat = 0 := by decide
    have h4 : (pktCountS (BitVec.ofNat 32 count)).toNat = 2 ^ 16 * count := by
      rw [toNat_pktCountS, toNat_ofNat]
      omega
    rw [pkt3, toNat_or, toNat_or, toNat_or, h1, h2, h3, h4, or_zero,
      ← two_pow_add_eq_or_of_lt (by omega)]
    rw [show 2 ^ 30 * 3 + 2 ^ 16 * count = 2 ^ 16 * (2 ^ 14 * 3 + count) by omega,
      ← two_pow_add_eq_or_of_lt (by omega)]
    omega
  have hfield : ∀ (k n : ℕ) (mask : BitVec 32), mask.toNat = 2 ^ n - 1 →
      (pkt3 pkt3Nop (BitVec.ofNat 32 count) 0 >>> k &&& mask).toNat =
        (3 * 2 ^ 30 + count * 2 ^ 16 + 0x1000) / 2 ^ k % 2 ^ n := by
    intro k n mask hmask
    rw [toNat_and, hmask, and_two_pow_sub_one_eq_mod, toNat_ushiftRight,
      shiftRight_eq_div_pow, hnat]
  refine ⟨?_, ?_, ?_⟩ <;> apply eq_of_toNat_eq
  · exact (hfield 30 2 3 (by decide)).trans (show _ = 3 by omega)
  · exact (hfield 8 8 0xFF (by decide)).trans (show _ = 16 by omega)
  · refine (hfield 16 14 0x3FFF (by decide)).trans ?_
    rw [toNat_ofNat]
    omega

/-! ## Execution -/

/-- The BOs that may be read hold the dwords at address `va`. -/
def Fetches (ws : Ws) (reads : BoId → Prop) (va : BitVec 64) (dws : List (BitVec 32)) : Prop :=
  ∃ b bo, reads b ∧ ws.bos b = some bo ∧ bo.va = va ∧ 4 * dws.length ≤ bo.size ∧ Begins bo.dw dws

/-- `CpExec info ws reads ib2 dws jumped out`: the command processor executes the dwords of an IB,
or of an IB2, and the packets that are not NOPs are `out`. `jumped` says whether the end of the
dwords was not reached because of a jump. There is no IB2 inside an IB2, and a jump inside an IB2
needs `can_chain_ib2`. -/
inductive CpExec (info : Info) (ws : Ws) (reads : BoId → Prop) :
    Bool → List (BitVec 32) → Bool → List Packet → Prop
  | done (ib2 : Bool) : CpExec info ws reads ib2 [] false []
  | nop {ib2 jumped : Bool} {p : Packet} {rest : List (BitVec 32)} {out : List Packet} :
      p.Whole → p.isNop = true → CpExec info ws reads ib2 rest jumped out →
      CpExec info ws reads ib2 (p ++ rest) jumped out
  | packet {ib2 jumped : Bool} {p : Packet} {rest : List (BitVec 32)} {out : List Packet} :
      p.Whole → p.isNop = false → p.isIb = false → CpExec info ws reads ib2 rest jumped out →
      CpExec info ws reads ib2 (p ++ rest) jumped (p :: out)
  | call {jumped jumped' : Bool} {va : BitVec 64} {control : BitVec 32} {dws rest : List (BitVec 32)}
      {sub out : List Packet} :
      ibChainG control ≠ 1 → Fetches ws reads va dws → dws.length = (ibSizeG control).toNat →
      CpExec info ws reads true dws jumped' sub → CpExec info ws reads false rest jumped out →
      CpExec info ws reads false (linkPacket va control ++ rest) jumped (sub ++ out)
  | jump {ib2 jumped : Bool} {va : BitVec 64} {control : BitVec 32} {dws rest : List (BitVec 32)}
      {out : List Packet} :
      (ib2 = true → info.canChainIb2 = true) → ibChainG control = 1 → Fetches ws reads va dws →
      dws.length = (ibSizeG control).toNat → CpExec info ws reads ib2 dws jumped out →
      CpExec info ws reads ib2 (linkPacket va control ++ rest) true out

section

variable {info : Info} {ws ws' : Ws} {reads reads' : BoId → Prop} {ib2 jumped : Bool}
  {dws : List (BitVec 32)} {out : List Packet}

variable {va : BitVec 64} {rest tail : List (BitVec 32)} {out' : List Packet} {size n : ℕ}
  {x : Part}

theorem Fetches.frame (h : Fetches ws reads va dws) (hreads : ∀ b, reads b → reads' b)
    (heq : ∀ b, reads b → ws'.bos b = ws.bos b) : Fetches ws' reads' va dws := by
  obtain ⟨b, bo, hb, hbo, hrest⟩ := h
  exact ⟨b, bo, hreads b hb, (heq b hb).trans hbo, hrest⟩

/-- Nothing but the BOs that are read matters. -/
theorem CpExec.frame (h : CpExec info ws reads ib2 dws jumped out)
    (hreads : ∀ b, reads b → reads' b) (heq : ∀ b, reads b → ws'.bos b = ws.bos b) :
    CpExec info ws' reads' ib2 dws jumped out := by
  induction h with
  | done ib2 => exact .done ib2
  | nop hp hnop _ ih => exact .nop hp hnop ih
  | packet hp hnop hib _ ih => exact .packet hp hnop hib ih
  | call hchain hfetch hlen _ _ ih ih' => exact .call hchain (hfetch.frame hreads heq) hlen ih ih'
  | jump hib2 hchain hfetch hlen _ ih => exact .jump hib2 hchain (hfetch.frame hreads heq) hlen ih

/-- What is executed to its end can be followed by anything. -/
theorem CpExec.append (h : CpExec info ws reads ib2 dws false out)
    (h' : CpExec info ws reads ib2 rest jumped out') :
    CpExec info ws reads ib2 (dws ++ rest) jumped (out ++ out') := by
  generalize hend : false = ended at h
  induction h with
  | done => exact h'
  | nop hp hnop _ ih =>
    rw [append_assoc]
    exact .nop hp hnop (ih h' hend)
  | packet hp hnop hib _ ih =>
    rw [append_assoc]
    exact .packet hp hnop hib (ih h' hend)
  | call hchain hfetch hlen hsub _ _ ih =>
    rw [append_assoc, append_assoc]
    exact .call hchain hfetch hlen hsub (ih h' hend)
  | jump => cases hend

/-- The first packet and what it does. -/
theorem CpExec.head_cases {p : Packet} (hp : p.Whole)
    (h : CpExec info ws reads ib2 (p ++ rest) jumped out) :
    (p.isNop = true ∧ CpExec info ws reads ib2 rest jumped out) ∨
    (p.isNop = false ∧ p.isIb = false ∧ ∃ out', out = p :: out' ∧ CpExec info ws reads ib2 rest jumped out') ∨
    (∃ va control dws jumped' sub out', p = linkPacket va control ∧ ibChainG control ≠ 1 ∧
      Fetches ws reads va dws ∧ dws.length = (ibSizeG control).toNat ∧
      CpExec info ws reads true dws jumped' sub ∧ CpExec info ws reads ib2 rest jumped out' ∧
      out = sub ++ out') ∨
    (∃ va control dws jumped', p = linkPacket va control ∧ ibChainG control = 1 ∧ jumped = true ∧
      Fetches ws reads va dws ∧ dws.length = (ibSizeG control).toNat ∧
      CpExec info ws reads ib2 dws jumped' out) := by
  generalize hl : p ++ rest = l at h
  cases h with
  | done =>
    obtain ⟨rfl, -⟩ := append_eq_nil_iff.mp hl
    exact absurd hp (Nat.ne_of_lt (packetLen_pos _))
  | nop hp' hnop h =>
    obtain ⟨rfl, rfl⟩ := hp.append_inj hp' hl
    exact .inl ⟨hnop, h⟩
  | packet hp' hnop hib h =>
    obtain ⟨rfl, rfl⟩ := hp.append_inj hp' hl
    exact .inr (.inl ⟨hnop, hib, _, rfl, h⟩)
  | call hchain hfetch hlen hsub h =>
    obtain ⟨rfl, rfl⟩ := hp.append_inj (whole_linkPacket ..) hl
    exact .inr (.inr (.inl ⟨_, _, _, _, _, _, rfl, hchain, hfetch, hlen, hsub, h, rfl⟩))
  | jump _ hchain hfetch hlen h =>
    obtain ⟨rfl, rfl⟩ := hp.append_inj (whole_linkPacket ..) hl
    exact .inr (.inr (.inr ⟨_, _, _, _, rfl, hchain, rfl, hfetch, hlen, h⟩))

section

variable (hinj : ws.VaInj)
include hinj

lemma Fetches.unique {dws' : List (BitVec 32)} (h : Fetches ws reads va dws)
    (h' : Fetches ws reads va dws') (hlen : dws.length = dws'.length) : dws = dws' := by
  obtain ⟨b, bo, -, hbo, hva, -, hbeg⟩ := h
  obtain ⟨b', bo', -, hbo', hva', -, hbeg'⟩ := h'
  obtain rfl := hinj b b' bo bo' hbo hbo' (hva.trans hva'.symm)
  obtain rfl := Option.some.inj (hbo.symm.trans hbo')
  rw [← hbeg.read, ← hbeg'.read, hlen]

/-- Where every address names one BO, the command processor has no choice. -/
theorem CpExec.unique {jumped' : Bool} (h : CpExec info ws reads ib2 dws jumped out)
    (h' : CpExec info ws reads ib2 dws jumped' out') : jumped = jumped' ∧ out = out' := by
  induction h generalizing jumped' out' with
  | done =>
    generalize hl : ([] : List (BitVec 32)) = l at h'
    cases h' with
    | done => exact ⟨rfl, rfl⟩
    | nop hp | packet hp =>
      obtain ⟨rfl, -⟩ := append_eq_nil_iff.mp hl.symm
      exact absurd hp (Nat.ne_of_lt (packetLen_pos _))
    | call | jump => cases hl
  | nop hp hnop _ ih =>
    rcases h'.head_cases hp with ⟨-, h⟩ | ⟨hnop', -⟩ | ⟨va, control, -, -, -, -, rfl, -⟩ | ⟨va,
      control, -, -, rfl, -⟩
    · exact ih h
    · simp [hnop] at hnop'
    · simp at hnop
    · simp at hnop
  | packet hp hnop hib _ ih =>
    rcases h'.head_cases hp with ⟨hnop', -⟩ | ⟨-, -, _, rfl, h⟩ | ⟨va, control, -, -, -, -, rfl, -⟩ |
      ⟨va, control, -, -, rfl, -⟩
    · simp [hnop] at hnop'
    · obtain ⟨hj, rfl⟩ := ih h
      exact ⟨hj, rfl⟩
    · simp at hib
    · simp at hib
  | call hchain hfetch hlen _ _ ih ih' =>
    rcases h'.head_cases (whole_linkPacket ..) with ⟨hnop, -⟩ | ⟨-, hib, -⟩ |
      ⟨va, control, dws', j, sub, _, heq, -, hfetch', hlen', hsub, h, rfl⟩ |
      ⟨va, control, dws', j, heq, hchain', -⟩
    · simp at hnop
    · simp at hib
    · obtain ⟨rfl, rfl⟩ := linkPacket_inj heq
      obtain rfl := hfetch.unique hinj hfetch' (hlen.trans hlen'.symm)
      obtain ⟨-, rfl⟩ := ih hsub
      obtain ⟨hj, rfl⟩ := ih' h
      exact ⟨hj, rfl⟩
    · obtain ⟨rfl, rfl⟩ := linkPacket_inj heq
      exact absurd hchain' hchain
  | jump _ hchain hfetch hlen _ ih =>
    rcases h'.head_cases (whole_linkPacket ..) with ⟨hnop, -⟩ | ⟨-, hib, -⟩ |
      ⟨va, control, dws', j, sub, _, heq, hchain', -⟩ |
      ⟨va, control, dws', j, heq, -, rfl, hfetch', hlen', h⟩
    · simp at hnop
    · simp at hib
    · obtain ⟨rfl, rfl⟩ := linkPacket_inj heq
      exact absurd hchain hchain'
    · obtain ⟨rfl, rfl⟩ := linkPacket_inj heq
      obtain rfl := hfetch.unique hinj hfetch' (hlen.trans hlen'.symm)
      exact ⟨rfl, (ih h).2⟩

end

/-! ## NOPs and plain packets -/

lemma Nops.cpExec {l : List (BitVec 32)} (h : Nops l) (info : Info) (ws : Ws)
    (reads : BoId → Prop) (ib2 : Bool) :
    CpExec info ws reads ib2 l false [] := by
  have hpad2 : Packet.Whole [pkt2NopPad] ∧ Packet.isNop [pkt2NopPad] = true := by decide
  have hpad3 : Packet.Whole [pkt3NopPad] ∧ Packet.isNop [pkt3NopPad] = true := by decide
  induction h with
  | nil => exact .done ib2
  | pad2 _ ih => exact .nop hpad2.1 hpad2.2 ih
  | pad3 _ ih => exact .nop hpad3.1 hpad3.2 ih
  | @packet count body l hcount hbody _ ih =>
    obtain ⟨htype, hop, hcountG⟩ := nopHeader_fields hcount
    have hne : BitVec.ofNat 32 count ≠ 0x3FFF := by
      intro heq
      have hnat := congrArg BitVec.toNat heq
      have hpad : (0x3FFF : BitVec 32).toNat = 0x3FFF := by decide
      rw [toNat_ofNat, hpad] at hnat
      omega
    have hlen : packetLen (pkt3 pkt3Nop (BitVec.ofNat 32 count) 0) = count + 2 := by
      rw [packetLen, if_pos htype, hcountG, if_neg fun hpad => hne hpad.2, toNat_ofNat]
      omega
    have hwhole : Packet.Whole (pkt3 pkt3Nop (BitVec.ofNat 32 count) 0 :: body) := by
      rw [Packet.Whole, headD_cons, length_cons, hbody, hlen]
    have hnop : Packet.isNop (pkt3 pkt3Nop (BitVec.ofNat 32 count) 0 :: body) = true := by
      rw [Packet.isNop, headD_cons, htype, hop]
      decide
    exact .nop hwhole hnop ih

/-- Packets none of which is an `INDIRECT_BUFFER`. -/
def Plain (ps : List Packet) : Prop := ∀ p ∈ ps, p.Whole ∧ p.isIb = false

/-- Plain packets are executed one after the other. -/
theorem Plain.cpExec {ps : List Packet} (h : Plain ps) (info : Info) (ws : Ws)
    (reads : BoId → Prop) (ib2 : Bool) :
    CpExec info ws reads ib2 ps.flatten false (ps.filter fun p => !p.isNop) := by
  induction ps with
  | nil => exact .done ib2
  | cons p ps ih =>
    obtain ⟨hp, hib⟩ := h p mem_cons_self
    have hrest := ih fun q hq => h q (mem_cons_of_mem _ hq)
    cases hnop : p.isNop with
    | true =>
      rw [filter_cons_of_neg (by simp [hnop])]
      exact .nop hp hnop hrest
    | false =>
      rw [filter_cons_of_pos (by simp [hnop])]
      exact .packet hp hnop hib hrest

/-! ## IBs -/

/-- Executing the IB of `size` dwords at `va` gives `out`. -/
def IbExec (info : Info) (ws : Ws) (reads : BoId → Prop) (ib2 : Bool) (va : BitVec 64) (size : ℕ)
    (out : List Packet) : Prop :=
  ∃ dws jumped, Fetches ws reads va dws ∧ dws.length = size ∧
    CpExec info ws reads ib2 dws jumped out

lemma IbExec.unique (hinj : ws.VaInj)
    (h : IbExec info ws reads ib2 va size out) (h' : IbExec info ws reads ib2 va size out') :
    out = out' := by
  obtain ⟨dws, jumped, hfetch, hlen, hexec⟩ := h
  obtain ⟨dws', jumped', hfetch', hlen', hexec'⟩ := h'
  obtain rfl := hfetch.unique hinj hfetch' (hlen.trans hlen'.symm)
  exact (hexec.unique hinj hexec').2

lemma Part.Holds.fetches (h : x.Holds ws tail) (hreads : reads x.bo) :
    Fetches ws reads x.va (x.chunk ++ x.pad ++ tail) := by
  obtain ⟨bo, hbo, hva, hsize, hbeg⟩ := h.live
  refine ⟨x.bo, bo, hreads, hbo, hva, ?_, hbeg⟩
  rw [length_append, length_append, h.four]
  exact hsize

lemma Part.Holds.length_eq (h : x.Holds ws tail) : (x.chunk ++ x.pad ++ tail).length = x.size := by
  rw [length_append, length_append, h.four, Part.size]

/-- An IB that ends in NOPs. -/
theorem Part.Holds.ibExec_nop {body : List (BitVec 32)} (h : x.Holds ws (pkt3 pkt3Nop 2 0 :: body))
    (hreads : reads x.bo) (hchunk : CpExec info ws reads ib2 x.chunk false out) :
    IbExec info ws reads ib2 x.va x.size out := by
  have hbody : body.length = 3 := Nat.succ.inj h.four
  have htail := (h.nops.append (Nops.tail hbody)).cpExec info ws reads ib2
  have hexec := hchunk.append htail
  rw [append_nil, ← append_assoc] at hexec
  exact ⟨_, _, h.fetches hreads, h.length_eq, hexec⟩

/-- An IB that jumps to the one of `n` dwords at `va`. -/
theorem Part.Holds.ibExec_link (h : x.Holds ws (linkPacket va (ibChainValid ||| BitVec.ofNat 32 n)))
    (hreads : reads x.bo) (hn : n < 2 ^ 20) (hib2 : ib2 = true → info.canChainIb2 = true)
    (hchunk : CpExec info ws reads ib2 x.chunk false out)
    (hnext : IbExec info ws reads ib2 va n out') :
    IbExec info ws reads ib2 x.va x.size (out ++ out') := by
  obtain ⟨dws, jumped, hfetch, hlen, hexec⟩ := hnext
  have hsize : dws.length = (ibSizeG (ibChainValid ||| BitVec.ofNat 32 n)).toNat := by
    rw [ibSizeG_link, ibSizeG_ofNat hn]
    exact hlen
  have hjump : CpExec info ws reads ib2
      (linkPacket va (ibChainValid ||| BitVec.ofNat 32 n) ++ []) true out' :=
    .jump hib2 (ibChainG_link hn) hfetch hsize hexec
  have hpad := (h.nops.cpExec info ws reads ib2).append hjump
  have hall := hchunk.append hpad
  rw [nil_append, ← append_assoc] at hall
  exact ⟨_, _, h.fetches hreads, h.length_eq, hall⟩

/-- The closed IBs, oldest first, and then the IB they lead to. -/
theorem Links.ibExec {closed : List Part} {outs : List (List Packet)} (h : Links ws closed va n)
    (hreads : ∀ x ∈ closed, reads x.bo) (hn : n < 2 ^ 20)
    (hib2 : ib2 = true → info.canChainIb2 = true)
    (hchunks : Forall₂ (fun x o => CpExec info ws reads ib2 x.chunk false o) closed outs)
    (hnext : IbExec info ws reads ib2 va n out) :
    IbExec info ws reads ib2 (first closed va n).1 (first closed va n).2 (outs.reverse.flatten ++ out) := by
  induction hchunks generalizing va n out with
  | nil => exact hnext
  | @cons x o rest outs hx _ ih =>
    have hlink := h.1.ibExec_link (hreads x mem_cons_self) hn hib2 hx hnext
    have hrest := ih h.2 (fun y hy => hreads y (mem_cons_of_mem _ hy)) h.1.small hlink
    rw [reverse_cons, flatten_append, flatten_singleton, append_assoc]
    exact hrest

end

end RadvXclipse.RadvAmdgpu
