import RadvXclipse.Winsys.CpExec
import RadvXclipse.Winsys.CsSystem

/-!
# Streams that do not chain

Without `chain_ib` (the debug option, or a secondary stream on a device without `can_chain_ib2`)
the IBs of a stream are independent: each is padded when it is closed and submitted on its own, or
executed by its own IB2 packet. `FlatRecording` and `FlatFinalized` are the counterparts of
`Recording` and `Finalized`. The padding may use the four dwords that `max_dw` leaves free.
-/

namespace RadvXclipse.RadvAmdgpu

open Lib Util List

/-- The entry of `ib_buffers` for an IB without a chaining packet. -/
def Part.flatIb (x : Part) : Ib := ⟨x.bo, x.va, x.chunk.length + x.pad.length⟩

/-- The memory of the winsys holds the IB. -/
structure Part.HoldsFlat (ws : Ws) (x : Part) : Prop where
  live : ∃ bo, ws.bos x.bo = some bo ∧ bo.va = x.va ∧
    4 * (x.chunk.length + x.pad.length) ≤ bo.size ∧ Begins bo.dw (x.chunk ++ x.pad)
  small : x.chunk.length + x.pad.length < 2 ^ 20
  nops : Nops x.pad

theorem Part.HoldsFlat.frame {ws ws' : Ws} {x : Part} (h : x.HoldsFlat ws)
    (heq : ws'.bos x.bo = ws.bos x.bo) : x.HoldsFlat ws' :=
  { h with live := by rw [heq]; exact h.live }

lemma Part.HoldsFlat.ibExec {info : Info} {ws : Ws} {reads : BoId → Prop} {ib2 : Bool} {x : Part}
    {out : List Packet} (h : x.HoldsFlat ws) (hreads : reads x.bo)
    (hchunk : CpExec info ws reads ib2 x.chunk false out) :
    IbExec info ws reads ib2 x.flatIb.va x.flatIb.cdw out := by
  obtain ⟨bo, hbo, hva, hsize, hbeg⟩ := h.live
  have hexec := hchunk.append (h.nops.cpExec info ws reads ib2)
  rw [append_nil] at hexec
  refine ⟨_, _, ⟨x.bo, bo, hreads, hbo, hva, ?_, hbeg⟩, length_append, hexec⟩
  rw [length_append]
  exact hsize

/-- A stream without `chain_ib` that is being recorded. -/
structure FlatRecording (ws : Ws) (cs : Cs) (closed : List Part) (b : BoId) (va : BitVec 64)
    (cur : List (BitVec 32)) : Prop extends Filling false ws cs closed b va cur where
  fits : cur.length ≤ cs.maxDw + 4
  held : ∀ x ∈ closed, x.HoldsFlat ws
  ibs : cs.ibBuffers = closed.reverse.map Part.flatIb

/-- The stream is finalized; its IBs are listed newest first. -/
structure FlatFinalized (ws : Ws) (cs : Cs) (parts : List Part) : Prop where
  stream : IpStream false cs
  ibBuffer : cs.ibBuffer = none
  held : ∀ x ∈ parts, x.HoldsFlat ws
  ibs : cs.ibBuffers = parts.reverse.map Part.flatIb
  nodup : (parts.map Part.bo).Nodup

section

variable {ws : Ws} {cs : Cs} {closed : List Part} {b : BoId} {va : BitVec 64}
  {cur : List (BitVec 32)}

lemma map_flatIb_bo (l : List Part) : (l.map Part.flatIb).map Ib.bo = l.map Part.bo := by
  rw [map_map]
  rfl

lemma FlatRecording.owned_eq (h : FlatRecording ws cs closed b va cur) :
    cs.owned = (b :: closed.map Part.bo).reverse := by
  rw [Cs.owned, h.ibs, h.ibBuffer, map_flatIb_bo, map_reverse, reverse_cons]
  rfl

lemma FlatFinalized.owned_eq {parts : List Part} (h : FlatFinalized ws cs parts) :
    cs.owned = (parts.map Part.bo).reverse := by
  rw [Cs.owned, h.ibs, h.ibBuffer, map_flatIb_bo, map_reverse]
  simp

/-- `csFinalize` pads the IB that is being recorded. -/
theorem csFinalize_flat (info : Info) (h : FlatRecording ws cs closed b va cur) :
    ∃ ws' cs' pad, csFinalize info ⟨ws, cs⟩ = ⟨ws', cs'⟩ ∧
      FlatFinalized ws' cs' (⟨b, va, cur, pad⟩ :: closed) ∧ Ws.Writes [b] ws ws' ∧
      cs'.maxDw = cs.maxDw := by
  obtain ⟨bo, hbo, hva, hsize, hbeg⟩ := h.live
  have hcdw := h.cdw
  have hfits := h.fits
  have hle := h.stream.le
  have hfit := padCount_fits cs.hwIp h.stream.dvd (Nat.succ_pos _) (show cs.cdw + 0 ≤ cs.maxDw + 4 by omega)
  obtain ⟨f, pad, heq, hlen, hnops, hpads⟩ := winsysCsPad_pads info ws bo.dw 0 h.buf
    (show 4 * (cs.cdw + padCount cs.hwIp cs.cdw 0) ≤ bo.size by omega)
  rw [Ws.setDw_dw hbo, ← hlen] at heq
  have hb : ∀ x ∈ closed, x.bo ≠ b := by
    intro x hx heq
    exact (nodup_cons.mp h.nodup).1 (heq ▸ mem_map_of_mem hx)
  have haddr : (ws.setDw b bo f).boVa (some b) = va := by
    simpa [Ws.boVa] using hva
  have hfin : csFinalize info ⟨ws, cs⟩ = ⟨ws.setDw b bo f,
      { cs with cdw := cs.cdw + pad.length,
                ibBuffers := cs.ibBuffers ++ [⟨b, va, cs.cdw + pad.length⟩],
                ibBuffer := none, chainedTo := none }⟩ := by
    simp only [csFinalize, csClose, h.stream.chain, Bool.false_eq_true, if_false, heq,
      csAddIbBuffer, h.ibBuffer, Option.getD_some, haddr]
  refine ⟨_, _, pad, hfin, ?_, Ws.writes_setDw hbo f, rfl⟩
  refine
    { stream := { h.stream with }
      ibBuffer := rfl
      held := ?_
      ibs := ?_
      nodup := h.nodup }
  · intro x hx
    rcases mem_cons.mp hx with rfl | hx
    · refine ⟨⟨_, Ws.setDw_bos_self .., hva, ?_, hpads cur hcdw.symm hbeg⟩, ?_, hnops h.stream.ip⟩
      · simp only
        omega
      · simp only
        omega
    · exact (h.held x hx).frame (Ws.setDw_bos_of_ne ws bo f (hb x hx))
  · simp only [h.ibs, reverse_cons, map_append, map_singleton, Part.flatIb, hcdw]

/-- A grow that succeeds closes the current IB and continues in a new one. -/
theorem csGrow_flat (info : Info) {used : BoId → Prop} (minSize : ℕ) {n : NewBo}
    (h : FlatRecording ws cs closed b va cur) (hok : WsOk ws used)
    (hused : ∀ b' ∈ cs.owned, used b') (hfresh : ws.Fresh n) :
    ∃ ws' cs' pad b' va', csGrow info ⟨ws, cs⟩ minSize (some n) true = ⟨ws', cs'⟩ ∧
      FlatRecording ws' cs' (⟨b, va, cur, pad⟩ :: closed) b' va' [] ∧
      Advance used ws cs.owned ws' cs'.owned ∧ ws'.badStore = ws.badStore := by
  obtain ⟨ws1, cs1, pad, heq1, hfin, hw1, -⟩ := csFinalize_flat info h
  have hb : b ∈ cs.owned := by
    rw [h.owned_eq]
    simp
  have hadv1 : Advance used ws cs.owned ws1 cs.owned :=
    (Advance.refl hok hused).writes (hw1.mono (by simpa using hb))
  have hown1 : cs1.owned = cs.owned := by
    rw [hfin.owned_eq, h.owned_eq]
    rfl
  have hdvd := hfin.stream.dvd
  have hle := hfin.stream.le
  have hbytes := growIbSize_ibBytes info cs1 minSize (by omega) (by omega)
  obtain ⟨ws2, b', bo, heq2, hacq, hbo, hsize, hbad2, hnew⟩ :=
    csGrow_obtains info minSize h.stream.status heq1 hadv1 (hown1 ▸ hfin.owned_eq) (hfresh.writes hw1)
  obtain ⟨hdw, hdvd', hle'⟩ := hbytes.dwords
  obtain ⟨l, htail, -⟩ := growTail_eq _ ws2 cs1 b'
  refine ⟨_, _, pad, b', bo.va, heq2.trans (htail hfin.stream.chain), ?_, ?_, ?_⟩
  · exact
      { stream := { hfin.stream with dvd := hdvd', le := hle' }
        buf := rfl
        ibBuffer := rfl
        cdw := rfl
        fits := Nat.zero_le _
        live := ⟨bo, hbo, rfl, hsize.trans hdw, .nil _⟩
        held := fun x hx => (hfin.held x hx).frame (hacq.frame x.bo (hnew x.bo (mem_map_of_mem hx)))
        ibs := hfin.ibs
        nodup := nodup_cons.mpr ⟨fun hb' => hnew b' hb' rfl, hfin.nodup⟩ }
  · have howned : (cs1.grown b' (growIbSize info cs1 minSize) l).owned = cs.owned ++ [b'] := by
      rw [← hown1, Cs.owned, Cs.owned, hfin.ibBuffer]
      simp [Cs.grown]
    rw [howned]
    exact hadv1.acquire hacq
  · rw [hbad2, hw1.badStore]

end

end RadvXclipse.RadvAmdgpu
