import RadvXclipse.Winsys.CsSecondary

/-!
# Streams of whole packets

A stream that is executed as a secondary holds whole packets in each of its IBs. The driver checks
for the space of a packet before it emits it, so this is how every stream looks: one that was
created and recorded this way is a `Parent` while it is recorded, and a `Child` once it is
finalized.
-/

namespace RadvXclipse.RadvAmdgpu

open Lib Util List Nat

/-! ## The child -/

/-- A finalized stream whose IBs hold whole packets, `qs`, none of them an `INDIRECT_BUFFER`. -/
structure Child (info : Info) (ws : Ws) (child : Cs) (parts : List Part) (qs : List (List Packet)) :
    Prop where
  finished : Finished ws child parts
  packets : Forall₂ (fun x q => Plain q ∧ x.chunk = q.flatten) parts qs
  canChain : child.chainIb = true → info.canChainIb2 = true
  room : ∀ b ∈ child.owned, ∀ bo, ws.bos b = some bo → bo.size ≤ 4 * (maxIbDw info child.hwIp + 4)

/-- The packets of the child that do something, oldest IB first. -/
def childPackets (qs : List (List Packet)) : List Packet :=
  qs.reverse.flatten.filter fun p => !p.isNop

section

variable {info : Info} {ws : Ws} {child : Cs} {parts : List Part} {qs : List (List Packet)}
  {reads : BoId → Prop}

lemma childPackets_eq (qs : List (List Packet)) :
    (qs.map fun q => q.filter fun p => !p.isNop).reverse.flatten = childPackets qs := by
  rw [childPackets, filter_flatten, map_reverse]

theorem Child.status (h : Child info ws child parts qs) : child.status = .success := by
  cases h.finished with
  | chained hfin => exact hfin.stream.status
  | flat hfin => exact hfin.stream.status

lemma Finished.owned_eq (h : Finished ws child parts) : child.owned = (parts.map Part.bo).reverse := by
  cases h with
  | chained h => exact h.owned_eq
  | flat h => exact h.owned_eq

lemma Finished.mem_owned (h : Finished ws child parts) {x : Part} (hx : x ∈ parts) :
    x.bo ∈ child.owned := by
  rw [h.owned_eq]
  exact mem_reverse.mpr (mem_map_of_mem hx)

/-- What the child executes as an IB2. -/
theorem Child.submitted_exec (h : Child info ws child parts qs)
    (hreads : ∀ b ∈ child.owned, reads b) :
    ∃ os, Forall₂ (fun ib o => ib.cdw < 2 ^ 20 ∧ IbExec info ws reads true ib.va ib.cdw o)
        child.submitted os ∧ os.flatten = childPackets qs := by
  have hchunks : Forall₂ (fun x o => CpExec info ws reads true x.chunk false o) parts
      (qs.map fun q => q.filter fun p => !p.isNop) := by
    rw [forall₂_map_right_iff]
    refine h.packets.imp fun x q hx => ?_
    rw [hx.2]
    exact hx.1.cpExec info ws reads true
  obtain ⟨os, hos, hflatten⟩ := h.finished.submitted_exec
    (fun x hx => hreads x.bo (h.finished.mem_owned hx)) (fun _ hchain => h.canChain hchain) hchunks
  exact ⟨os, hos, hflatten.trans (childPackets_eq qs)⟩

/-- An IB of the child and the dwords of it that are copied. -/
structure Copied (ws : Ws) (child : Cs) (x : Part) (ib : Ib) : Prop where
  bo : ib.bo = x.bo
  dw : child.copyDw ib = x.chunk.length + x.pad.length
  live : ∃ bo, ws.bos x.bo = some bo ∧ 4 * (x.chunk.length + x.pad.length) ≤ bo.size ∧
    Begins bo.dw (x.chunk ++ x.pad)
  nops : Nops x.pad

/-- Every IB of the child, and the dwords that are copied from it. -/
theorem Finished.copied (h : Finished ws child parts) :
    ∃ toIb : Part → Ib, child.ibBuffers = parts.reverse.map toIb ∧
      ∀ x ∈ parts, Copied ws child x (toIb x) := by
  cases h with
  | @chained x rest body h =>
    refine ⟨Part.ib, h.ibs, fun y hy => ?_⟩
    obtain ⟨tail, hy⟩ : ∃ tail, y.Holds ws tail := by
      rcases mem_cons.mp hy with rfl | hy
      · exact ⟨_, h.holds⟩
      · exact h.links.holds y hy
    obtain ⟨bo, hbo, -, hsize, hbeg⟩ := hy.live
    have hsmall := hy.small
    have hy4 : y.size = y.chunk.length + y.pad.length + 4 := rfl
    have hsub : sub32 y.size 4 = y.size - 4 := sub32_of_le (by omega) (by omega)
    refine ⟨rfl, ?_, ⟨bo, hbo, by omega, hbeg.left⟩, hy.nops⟩
    rw [Cs.copyDw, if_pos h.stream.chain]
    exact hsub.trans (by omega)
  | flat h =>
    refine ⟨Part.flatIb, h.ibs, fun y hy => ?_⟩
    obtain ⟨bo, hbo, -, hsize, hbeg⟩ := (h.held y hy).live
    refine ⟨rfl, ?_, ⟨bo, hbo, hsize, hbeg⟩, (h.held y hy).nops⟩
    rw [Cs.copyDw, h.stream.chain]
    rfl

/-- What is copied from the child, and what executing it gives. -/
theorem Child.copies (h : Child info ws child parts qs) (hreads : ∀ b ∈ child.owned, reads b) :
    (∃ os, Forall₂ (fun ib o => Copies info ws reads ib (child.copyDw ib) o) child.ibBuffers os ∧
        os.flatten = childPackets qs) ∧
      ∀ ib ∈ child.ibBuffers, child.copyDw ib ≤ maxIbDw info child.hwIp + 4 := by
  obtain ⟨toIb, hibs, hcopied⟩ := h.finished.copied
  rw [hibs]
  constructor
  · refine ⟨(qs.map fun q => q.filter fun p => !p.isNop).reverse, ?_, childPackets_eq qs⟩
    rw [forall₂_map_left_iff]
    apply rel_reverse
    rw [forall₂_map_right_iff]
    have hparts := (forall₂_and_left _ _).mpr
      ⟨fun x hx => And.intro (hcopied x hx) (hreads x.bo (h.finished.mem_owned hx)), h.packets⟩
    refine hparts.imp fun x q hx => ?_
    obtain ⟨⟨hx, hread⟩, hplain, hchunk⟩ := hx
    obtain ⟨bo, hbo, hsize, hbeg⟩ := hx.live
    have hexec := (hplain.cpExec info ws reads false).append (hx.nops.cpExec info ws reads false)
    rw [append_nil, ← hchunk] at hexec
    refine ⟨hx.bo ▸ hread, bo, x.chunk ++ x.pad, hx.bo ▸ hbo, ?_, ?_, hbeg, hexec⟩
    · rw [hx.dw, length_append]
    · rw [hx.dw]
      exact hsize
  · intro ib hib
    obtain ⟨x, hx, rfl⟩ := mem_map.mp hib
    have hmem := mem_reverse.mp hx
    obtain ⟨bo, hbo, hsize, -⟩ := (hcopied x hmem).live
    have hroom := h.room x.bo (h.finished.mem_owned hmem) bo hbo
    rw [(hcopied x hmem).dw]
    omega

end

/-! ## Recording -/

/-- One packet, after a space check for all of it. -/
def emitPacket (info : Info) (s : St) (p : Packet) (new : NewBo) : St :=
  p.foldl radeonEmitUnchecked (radeonCheckSpace info s p.length (some new) true)

def emitPackets (info : Info) : List Packet → (ℕ → NewBo) → St → St
  | [], _, s => s
  | p :: ps, news, s => emitPackets info ps (fun i => news (i + 1)) (emitPacket info s p (news 0))

lemma alike_emitAll (s : St) (l : List (BitVec 32)) : s.Alike (l.foldl radeonEmitUnchecked s) := by
  induction l generalizing s with
  | nil => exact .refl s
  | cons v l ih => exact (alike_radeonEmitUnchecked s v).trans (ih _)

section

variable {s : St} {news : ℕ → NewBo} (info : Info)

lemma Supply.checkSpace {k : ℕ} (h : Supply s.ws news (k + 1)) (n : ℕ) :
    Supply (radeonCheckSpace info s n (some (news 0)) true).ws (fun i => news (i + 1)) k := by
  by_cases hspace : sub32 s.cs.maxDw s.cs.cdw < n
  · simp only [radeonCheckSpace, if_pos hspace]
    exact h.grow info n
  · simp only [radeonCheckSpace, if_neg hspace]
    exact h.tail

lemma Supply.emitPacket {k : ℕ} (h : Supply s.ws news (k + 1)) (p : Packet) :
    Supply (emitPacket info s p (news 0)).ws (fun i => news (i + 1)) k := by
  have hspace := h.checkSpace info p.length
  unfold RadvAmdgpu.emitPacket
  obtain ⟨t, ht⟩ : ∃ t, radeonCheckSpace info s p.length (some (news 0)) true = t := ⟨_, rfl⟩
  rw [ht] at hspace ⊢
  exact ⟨fun i hi => (hspace.fresh i hi).alike (alike_emitAll _ p).ws, hspace.apart⟩

/-- The BOs of a supply are new when their turn comes. -/
theorem Supply.fresh_emitPackets {ps : List Packet} (h : Supply s.ws news ps.length) :
    ∀ k < ps.length, (emitPackets info (ps.take k) news s).ws.Fresh (news k) := by
  induction ps generalizing news s with
  | nil => exact fun k hk => absurd hk (Nat.not_lt_zero k)
  | cons p ps ih =>
    intro k hk
    cases k with
    | zero => exact h.fresh 0 (zero_lt_succ _)
    | succ k => exact ih (h.emitPacket info p) k (lt_of_succ_lt_succ hk)

end

/-- A stream that is recorded by whole packets: `qs` are those in the closed IBs, newest first, and
`q` those in the current one. -/
structure Packing (info : Info) (ws0 : Ws) (used reads : BoId → Prop) (s : St) (closed : List Part)
    (b : BoId) (va : BitVec 64) (cur : List (BitVec 32)) (out : List Packet)
    (qs : List (List Packet)) (q : List Packet) : Prop extends
    Parent info ws0 used reads s closed b va cur out where
  fits : cur.length ≤ s.cs.maxDw
  sizes : ∀ b ∈ s.cs.owned, ∀ bo, s.ws.bos b = some bo → bo.size ≤ 4 * (maxIbDw info s.cs.hwIp + 4)
  packets : Forall₂ (fun x q => Plain q ∧ x.chunk = q.flatten) closed qs
  plain : Plain q
  cur_eq : cur = q.flatten

/-- A grow keeps the size of every BO there was. -/
theorem csGrow_size (info : Info) {s : St} (minSize : ℕ) {n : NewBo} {b : BoId} {bo' : Bo}
    (hstatus : s.cs.status = .success) (hlive : s.ws.bos b ≠ none) (hfresh : s.ws.Fresh n)
    (h : (csGrow info s minSize (some n) true).ws.bos b = some bo') :
    ∃ bo, s.ws.bos b = some bo ∧ bo.size = bo'.size := by
  obtain ⟨ws, b1, -, hobtains, halike⟩ := csGrow_eq info minSize n hstatus
  have hb : ws.bos b = (csFinalize info s).ws.bos b := by
    cases hobtains with
    | cached => rfl
    | created hn =>
      cases hn
      refine Function.update_of_ne ?_ ..
      rintro rfl
      exact hlive hfresh.1
  have hshape := halike.ws.shape b
  rw [hb] at hshape
  have hclose := (alike_csClose info s).ws.shape b
  obtain ⟨bo, hbo, -, hsize⟩ := exists_of_shape (hshape.trans hclose).symm h
  exact ⟨bo, hbo, hsize⟩

section

variable {info : Info} {ws0 : Ws} {used reads : BoId → Prop} {s : St} {closed : List Part}
  {b : BoId} {va : BitVec 64} {cur : List (BitVec 32)} {out : List Packet}
  {qs : List (List Packet)} {q : List Packet}

theorem Packing.grow (h : Packing info ws0 used reads s closed b va cur out qs q) (minSize : ℕ)
    {n : NewBo} (hfresh : s.ws.Fresh n) :
    ∃ closed' b' va', Packing info ws0 used reads (csGrow info s minSize (some n) true) closed' b' va'
      [] out (q :: qs) [] := by
  obtain ⟨pad, b', va', hparent⟩ := h.toParent.grow minSize hfresh
  obtain ⟨hip, -⟩ := csGrow_fields info minSize n h.recorder.stream.status
  refine ⟨_, b', va', hparent, zero_le _, ?_, .cons ⟨h.plain, h.cur_eq⟩ h.packets, nofun, rfl⟩
  intro b'' hb'' bo'' hbo''
  by_cases hnew : b'' = b'
  · obtain ⟨bo, hbo, -, hsize, -⟩ := hparent.recorder.live
    subst hnew
    obtain rfl := Option.some.inj (hbo.symm.trans hbo'')
    have hroom := hparent.room
    omega
  · have hold : b'' ∈ s.cs.owned := by
      rw [hparent.recorder.owned_eq, mem_reverse, mem_cons] at hb''
      rw [h.recorder.owned_eq, mem_reverse]
      exact hb''.resolve_left hnew
    obtain ⟨bo, hbo, hsize⟩ := csGrow_size info minSize h.recorder.stream.status
      (h.ok.used_live b'' (.inr hold)) hfresh hbo''
    rw [← hsize, hip]
    exact h.sizes b'' hold bo hbo

variable {ip : IpType} {chain : Bool} {n : ℕ} {ps : List Packet}

variable (info ws0 used reads ip chain) in
/-- The packets `ps` were recorded, and `n` more dwords fit into the current IB. -/
def Packed (n : ℕ) (s : St) (ps : List Packet) : Prop :=
  s.cs.hwIp = ip ∧ s.cs.chainIb = chain ∧ ∃ closed b va cur qs q,
    Packing info ws0 used reads s closed b va cur (ps.filter fun p => !p.isNop) qs q ∧
      cur.length + n ≤ s.cs.maxDw ∧ qs.reverse.flatten ++ q = ps

/-- After the space check there is room for the packet. -/
theorem Packed.checkSpace (h : Packed info ws0 used reads ip chain 0 s ps)
    (hn : n ≤ maxIbDw info ip) {new : NewBo} (hfresh : s.ws.Fresh new) :
    Packed info ws0 used reads ip chain n (radeonCheckSpace info s n (some new) true) ps := by
  obtain ⟨rfl, rfl, closed, b, va, cur, qs, q, h, hfits, rfl⟩ := h
  have hcdw := h.recorder.cdw
  have hle := h.recorder.stream.le
  have hsub : sub32 s.cs.maxDw s.cs.cdw = s.cs.maxDw - s.cs.cdw := sub32_of_le (by omega) (by omega)
  by_cases hspace : sub32 s.cs.maxDw s.cs.cdw < n
  · obtain ⟨closed', b', va', hgrow⟩ := h.grow n hfresh
    obtain ⟨hip, hchain⟩ := csGrow_fields info n new h.recorder.stream.status
    have hmax := csGrow_maxDw info n h.recorder.stream.status (some new) true
    obtain ⟨-, hroom, -⟩ := growIbSize_room info s.cs n
    rw [radeonCheckSpace, if_pos hspace]
    refine ⟨hip, hchain, closed', b', va', [], q :: qs, [],
      { hgrow with toParent := hgrow.toParent.reserve _ _ }, ?_, by simp⟩
    rw [length_nil, zero_add]
    exact (hroom hn).trans_eq hmax.symm
  · rw [radeonCheckSpace, if_neg hspace]
    refine ⟨rfl, rfl, closed, b, va, cur, qs, q, { h with toParent := h.toParent.reserve _ _ }, ?_, rfl⟩
    simp only
    omega

lemma Packed.emitPacket (h : Packed info ws0 used reads ip chain 0 s ps) {p : Packet}
    (hp : p.Whole ∧ p.isIb = false) (hlen : p.length ≤ maxIbDw info ip) {new : NewBo}
    (hfresh : s.ws.Fresh new) :
    Packed info ws0 used reads ip chain 0 (RadvAmdgpu.emitPacket info s p new) (ps ++ [p]) := by
  have hspace := h.checkSpace hlen hfresh
  unfold RadvAmdgpu.emitPacket
  obtain ⟨t, heq⟩ : ∃ t, radeonCheckSpace info s p.length (some new) true = t := ⟨_, rfl⟩
  rw [heq] at hspace ⊢
  obtain ⟨hip, hchain, closed, b, va, cur, qs, q, h, hroom, rfl⟩ := hspace
  have hplain : Plain [p] := forall_mem_singleton.mpr hp
  have hexec := hplain.cpExec info ws0 reads false
  rw [flatten_singleton] at hexec
  obtain ⟨hemit, hw, hcs⟩ := h.toParent.emit (hroom.trans t.cs.limit_le.1) hexec
  rw [← filter_append] at hemit
  have hfits : (cur ++ p).length ≤ (p.foldl radeonEmitUnchecked t).cs.maxDw := by
    rw [hcs, length_append]
    exact hroom
  refine ⟨by rw [hcs, hip], by rw [hcs, hchain], closed, b, va, _, qs, q ++ [p],
    ⟨hemit, hfits, ?_, h.packets, ?_, ?_⟩, hfits, (append_assoc ..).symm⟩
  · intro b'' hb'' bo'' hbo''
    obtain ⟨bo, hbo, -, hsize⟩ := exists_of_shape (hw.shape b'').symm hbo''
    rw [hcs] at hb'' ⊢
    rw [← hsize]
    exact h.sizes b'' hb'' bo hbo
  · exact forall_mem_append.mpr ⟨h.plain, hplain⟩
  · rw [h.cur_eq, flatten_append, flatten_singleton]

/-- A whole recording, with BOs that are new when the kernel gives them. -/
theorem Packing.emitPackets {qs : List Packet} {news : ℕ → NewBo}
    (h : Packed info ws0 used reads ip chain 0 s qs)
    (hnews : ∀ k < ps.length, (RadvAmdgpu.emitPackets info (ps.take k) news s).ws.Fresh (news k))
    (hps : Plain ps) (hlen : ∀ p ∈ ps, p.length ≤ maxIbDw info ip) :
    Packed info ws0 used reads ip chain 0 (RadvAmdgpu.emitPackets info ps news s) (qs ++ ps) := by
  induction ps generalizing s qs news with
  | nil => rwa [append_nil]
  | cons p ps ih =>
    obtain ⟨hp, hps⟩ := forall_mem_cons.mp hps
    obtain ⟨hle, hlen⟩ := forall_mem_cons.mp hlen
    rw [append_cons]
    exact ih (h.emitPacket hp hle (hnews 0 (succ_pos _)))
      (fun k hk => hnews (k + 1) (succ_lt_succ hk)) hps hlen

lemma maxDw_initial_le (ip : IpType) (isSecondary : Bool) (b : BoId) (va : BitVec 64) (l : BufferList) :
    (Cs.initial info ip isSecondary b va l).maxDw ≤ maxIbDw info ip := by
  have hmono := align_mono info ip (show 20 * 1024 * 4 ≤ ibSizeMax by decide) (by decide)
  simp only [Cs.initial, csGetInitialSize, maxIbDw]
  omega

/-- A stream that was recorded by whole packets and finalized can be executed as a secondary. -/
theorem Packing.finalize (h : Packed info ws0 used reads ip chain n s ps)
    (hcan : chain = true → info.canChainIb2 = true) :
    ∃ parts qs, Child info (csFinalize info s).ws (csFinalize info s).cs parts qs ∧
      childPackets qs = ps.filter fun p => !p.isNop := by
  obtain ⟨-, rfl, closed, b, va, cur, qs, q, h, -, rfl⟩ := h
  obtain ⟨ws', cs', pad, heq, hfin, hw⟩ := h.recorder.finalize info
  obtain ⟨cdw, size, -, hcs⟩ := csClose_cs info s
  have hip : (csFinalize info s).cs.hwIp = s.cs.hwIp ∧ (csFinalize info s).cs.chainIb = s.cs.chainIb := by
    simp [csFinalize, csAddIbBuffer, hcs]
  rw [show csFinalize info s = ⟨ws', cs'⟩ from heq] at hip ⊢
  have howned : cs'.owned = s.cs.owned := by
    rw [hfin.owned_eq, h.recorder.owned_eq]
    rfl
  refine ⟨_, _, ⟨hfin, .cons ⟨h.plain, h.cur_eq⟩ h.packets, fun hc => hcan (hip.2 ▸ hc), ?_⟩,
    by simp [childPackets]⟩
  intro b' hb' bo' hbo'
  obtain ⟨bo, hbo, -, hsize⟩ := exists_of_shape (hw.shape b').symm hbo'
  rw [howned] at hb'
  rw [← hsize, hip.1]
  exact h.sizes b' hb' bo hbo

variable {ws : Ws} {isSecondary : Bool} {new : NewBo} {t : St} (hok : WsOk ws used)
  (hfresh : ws.Fresh new) (hbad : ws.badStore = false) (hip : ip = .gfx ∨ ip = .compute)
  (hcreate : csCreate info ws ip isSecondary (some new) true = some t)
include hok hfresh hbad hip hcreate

/-- A stream that was just created. -/
theorem packing_of_csCreate (hreads : ∀ b, reads b → used b) :
    Packed info ws used reads ip (info.chainIb && !(isSecondary && !info.canChainIb2)) 0 t [] := by
  obtain ⟨ws', b, bo, l, hacq, hbo, hsize, hbad', -, rfl⟩ :=
    csCreate_eq info hok (fun m hm => Option.some.inj hm ▸ hfresh) hcreate
  obtain ⟨hdw, hdvd, hle⟩ := (csGetInitialSize_ibBytes info ip).dwords
  let cs := Cs.initial info ip isSecondary b bo.va l
  have howned : cs.owned = [b] := rfl
  have hroom := @maxDw_initial_le info ip isSecondary b bo.va l
  have hrec : Recorder ws' cs [] b bo.va [] := by
    cases hchain : cs.chainIb with
    | true => exact (Recording.initial info hbo hsize hip hchain).recorder
    | false =>
      have hfill := Filling.initial info hbo hsize hip hchain
      exact FlatRecording.recorder { hfill with fits := zero_le _, held := nofun, ibs := rfl }
  have hapart : ∀ b', reads b' → b' ≠ b := by
    rintro b' hb' rfl
    exact hacq.unused (hreads b' hb')
  have hparent : Parent info ws used reads ⟨ws', cs⟩ [] b bo.va [] [] :=
    { recorder := hrec
      yields := ⟨[], [], .nil, .done false, rfl⟩
      ok := by simpa [howned] using hacq.ok
      apart := fun b' hb' => ⟨hreads b' hb', fun hmem => hapart b' hb' (mem_singleton.mp hmem)⟩
      memory := fun b' hb' => hacq.frame b' (hapart b' hb')
      room := hroom
      badStore := hbad'.trans hbad }
  refine ⟨rfl, ?_, [], b, bo.va, [], [], [],
    ⟨hparent, zero_le _, ?_, .nil, nofun, rfl⟩, zero_le _, rfl⟩
  · rcases hip with rfl | rfl <;> simp [Cs.initial]
  · intro b' hb' bo' hbo'
    obtain rfl := mem_singleton.mp hb'
    obtain rfl := Option.some.inj (hbo.symm.trans hbo')
    exact (hsize.trans hdw).trans_le (Nat.mul_le_mul_left 4 (Nat.add_le_add_right hroom 4))

/-- Whatever whole packets are recorded into a new stream, chained or not: no store is out of
bounds, the command processor executes those that are not NOPs, in order, and a secondary can be
executed as such. -/
theorem streamExec_of_emitPackets {news : ℕ → NewBo} (hps : Plain ps)
    (hnews : ∀ k < ps.length, (emitPackets info (ps.take k) news t).ws.Fresh (news k))
    (hlen : ∀ p ∈ ps, p.length ≤ maxIbDw info ip) :
    let s := csFinalize info (emitPackets info ps news t)
    let out := ps.filter fun p => !p.isNop
    s.ws.badStore = false ∧ (∀ o, StreamExec info s.ws s.cs o ↔ o = out) ∧
      (isSecondary = true → ∃ parts qs, Child info s.ws s.cs parts qs ∧ childPackets qs = out) := by
  have hnew : Packed info ws used (fun _ => False) ip _ 0 t [] :=
    packing_of_csCreate hok hfresh hbad hip hcreate fun _ hb => hb.elim
  have hrec := Packing.emitPackets hnew hnews hps hlen
  obtain ⟨-, -, _, _, _, _, _, _, h, -⟩ := id hrec
  obtain ⟨hstore, hexec⟩ := h.toParent.finalize
  refine ⟨hstore, hexec, fun hsec => Packing.finalize hrec fun hchain => ?_⟩
  simp only [hsec, Bool.true_and, Bool.not_not, Bool.and_eq_true] at hchain
  exact hchain.2

end

/-- A `WRITE_DATA` packet with a payload of 16381 dwords. -/
def largeWrite : Packet := pkt3 0x37 16383 0 :: replicate 16384 0

/-- A `SET_SH_REG`, a `NOP` and two packets that do not fit into the first IB together. -/
def largeWrites : List Packet :=
  [[pkt3 0x76 1 0, 0x240, 0], [pkt3 pkt3Nop 0 0, 0], largeWrite, largeWrite]

/-- A secondary stream that grows for the last of four packets. -/
theorem streamExec_of_emitPackets_grown : ∃ t s,
    csCreate exampleInfo emptyWs .gfx true (some (exampleNewBo 0)) true = some t ∧
    t.cs.maxDw = 20476 ∧
    s = csFinalize exampleInfo (emitPackets exampleInfo largeWrites (fun k => exampleNewBo (k + 1)) t) ∧
      ∀ o, StreamExec exampleInfo s.ws s.cs o ↔
        o = [[pkt3 0x76 1 0, 0x240, 0], largeWrite, largeWrite] := by
  have hlen : largeWrite.length = 16385 := by rw [largeWrite, length_cons, length_replicate]
  have hlarge : Packet.Whole largeWrite ∧ Packet.isIb largeWrite = false := ⟨hlen, by decide⟩
  refine ⟨_, _, rfl, rfl, rfl, (streamExec_of_emitPackets emptyWs_ok ⟨rfl, nofun⟩ rfl (.inl rfl) rfl
    ?_ (Supply.fresh_emitPackets exampleInfo ⟨?_, ?_⟩) ?_).2.1⟩
  · simp only [Plain, largeWrites, forall_mem_cons, hlarge, and_true, not_mem_nil, false_implies,
      implies_true]
    decide
  · intro i hi
    have hva : ∀ i < 4, (0x100000 : BitVec 64) ≠ (exampleNewBo (i + 1)).va := by decide
    refine Ws.fresh_of_boVa 1 (fun _ => rfl) rfl fun b hb => ?_
    obtain rfl := lt_one_iff.mp hb
    exact hva i hi
  · change ∀ i < 4, ∀ j < 4, i ≠ j → _
    decide
  · intro p hp
    refine le_trans ?_ (le_maxIbDw exampleInfo .gfx)
    simp only [largeWrites, mem_cons, not_mem_nil, or_false] at hp
    rcases hp with rfl | rfl | rfl | rfl
    · decide
    · decide
    · rw [hlen]
      decide
    · rw [hlen]
      decide

end RadvXclipse.RadvAmdgpu
