import RadvXclipse.Winsys.CsFlat
import RadvXclipse.Winsys.CsGrow
import RadvXclipse.Winsys.CsOwnership

/-!
# Streams with and without chaining

A stream of the graphics or compute queue is recorded the same way whether it chains its IBs or
not; `Recorder` and `Finished` are its two phases in either case. The packets that the command
processor executes for a finished stream are those of the dwords emitted into its IBs, in order.
-/

namespace RadvXclipse.RadvAmdgpu

open Lib Util List

/-! ## The two phases -/

/-- A stream that is being recorded. -/
structure Recorder (ws : Ws) (cs : Cs) (closed : List Part) (b : BoId) (va : BitVec 64)
    (cur : List (BitVec 32)) : Prop extends Filling cs.chainIb ws cs closed b va cur where
  phase : Recording ws cs closed b va cur ∨ FlatRecording ws cs closed b va cur

/-- The stream is finalized and not chained to another; its IBs are listed newest first. -/
inductive Finished (ws : Ws) (cs : Cs) : List Part → Prop
  | chained {x : Part} {rest : List Part} {body : List (BitVec 32)} :
      Finalized ws cs x rest (pkt3 pkt3Nop 2 0 :: body) → Finished ws cs (x :: rest)
  | flat {parts : List Part} : FlatFinalized ws cs parts → Finished ws cs parts

lemma Cs.submitted_length_le (cs : Cs) : cs.submitted.length ≤ cs.ibBuffers.length := by
  unfold Cs.submitted
  split_ifs
  · rw [length_take]
    exact min_le_right _ _
  · exact le_rfl

/-- How many dwords fit into the current IB. -/
def Cs.limit (cs : Cs) : ℕ := if cs.chainIb then cs.maxDw else cs.maxDw + 4

lemma Cs.limit_le (cs : Cs) : cs.maxDw ≤ cs.limit ∧ cs.limit ≤ cs.maxDw + 4 := by
  unfold Cs.limit
  split_ifs <;> omega

section

variable {ws : Ws} {cs : Cs} {closed : List Part} {b : BoId} {va : BitVec 64}
  {cur : List (BitVec 32)}

lemma Recording.recorder (h : Recording ws cs closed b va cur) : Recorder ws cs closed b va cur :=
  ⟨h.stream.chain.symm ▸ h.toFilling, .inl h⟩

lemma FlatRecording.recorder (h : FlatRecording ws cs closed b va cur) : Recorder ws cs closed b va cur :=
  ⟨h.stream.chain.symm ▸ h.toFilling, .inr h⟩

section

variable (h : Recorder ws cs closed b va cur)
include h

lemma Recorder.owned_eq : cs.owned = (b :: closed.map Part.bo).reverse := by
  rcases h.phase with h | h
  · exact h.owned_eq
  · exact h.owned_eq

lemma Recorder.mem_owned : b ∈ cs.owned := by
  simp [h.owned_eq]

/-- Reserving dwords and listing buffers does not touch the IBs. -/
theorem Recorder.reserve (r : ℕ) (l : BufferList) :
    Recorder ws { cs with reservedDw := r, buffers := l } closed b va cur := by
  rcases h.phase with h | h
  · exact Recording.recorder { h with stream := { h.stream with } }
  · exact FlatRecording.recorder { h with stream := { h.stream with } }

/-- Dwords are appended to the current IB. -/
theorem Recorder.write {bo : Bo} (hbo : ws.bos b = some bo) {block : List (BitVec 32)}
    {f : ℕ → BitVec 32} (hf : Begins f (cur ++ block))
    (hroom : cur.length + block.length ≤ cs.limit) :
    Recorder (ws.setDw b bo f) { cs with cdw := cs.cdw + block.length } closed b va
      (cur ++ block) := by
  rcases h.phase with h | h
  · rw [Cs.limit, if_pos h.stream.chain, ← length_append] at hroom
    exact (h.write hbo hf hroom).recorder
  · have hb : b ∉ closed.map Part.bo := (nodup_cons.mp h.nodup).1
    rw [Cs.limit, h.stream.chain, if_neg Bool.false_ne_true, ← length_append] at hroom
    refine FlatRecording.recorder { h.toFilling.write hbo hf, h with
      fits := hroom
      held := fun x hx => (h.held x hx).frame (Ws.setDw_bos_of_ne ws bo f ?_) }
    rintro rfl
    exact hb (mem_map_of_mem hx)

end

theorem Recorder.grow (info : Info) (h : Recorder ws cs closed b va cur) {used : BoId → Prop}
    (minSize : ℕ) {n : NewBo} (hok : WsOk ws used) (hused : ∀ b' ∈ cs.owned, used b')
    (hfresh : ws.Fresh n) :
    ∃ ws' cs' pad b' va', csGrow info ⟨ws, cs⟩ minSize (some n) true = ⟨ws', cs'⟩ ∧
      Recorder ws' cs' (⟨b, va, cur, pad⟩ :: closed) b' va' [] ∧
      Advance used ws cs.owned ws' cs'.owned ∧ ws'.badStore = ws.badStore := by
  rcases h.phase with h | h
  · obtain ⟨ws', cs', pad, b', va', heq, hrec, hrest⟩ := csGrow_recording info minSize h hok hused hfresh
    exact ⟨ws', cs', pad, b', va', heq, hrec.recorder, hrest⟩
  · obtain ⟨ws', cs', pad, b', va', heq, hrec, hrest⟩ := csGrow_flat info minSize h hok hused hfresh
    exact ⟨ws', cs', pad, b', va', heq, hrec.recorder, hrest⟩

theorem Recorder.finalize (info : Info) (h : Recorder ws cs closed b va cur) :
    ∃ ws' cs' pad, csFinalize info ⟨ws, cs⟩ = ⟨ws', cs'⟩ ∧
      Finished ws' cs' (⟨b, va, cur, pad⟩ :: closed) ∧ Ws.Writes cs.owned ws ws' := by
  rcases h.phase with h | h
  · obtain ⟨ws', cs', pad, body, heq, -, hfin, hw, -⟩ := csFinalize_recording info h
    refine ⟨ws', cs', pad, heq, .chained hfin, hw.mono fun b' hb' => ?_⟩
    rw [h.owned_eq]
    exact mem_reverse.mpr hb'
  · obtain ⟨ws', cs', pad, heq, hfin, hw, -⟩ := csFinalize_flat info h
    refine ⟨ws', cs', pad, heq, .flat hfin, hw.mono ?_⟩
    rw [h.owned_eq]
    simp

end

/-! ## Execution of a finished stream -/

/-- The oldest IB is the one the chain starts with. -/
theorem take_one_reverse_ib (x : Part) (rest : List Part) :
    ∃ ib, ((x :: rest).reverse.map Part.ib).take 1 = [ib] ∧ (ib.va, ib.cdw) = first rest x.va x.size := by
  induction rest generalizing x with
  | nil => exact ⟨x.ib, rfl, rfl⟩
  | cons y rest ih =>
    obtain ⟨ib, htake, hib⟩ := ih y
    refine ⟨ib, ?_, hib⟩
    rw [reverse_cons, map_append, take_append_of_le_length (by simp)]
    exact htake

lemma Finished.submitted_exec {info : Info} {ws : Ws} {cs : Cs} {parts : List Part}
    {reads : BoId → Prop} {ib2 : Bool} {outs : List (List Packet)} (h : Finished ws cs parts)
    (hreads : ∀ x ∈ parts, reads x.bo)
    (hib2 : ib2 = true → cs.chainIb = true → info.canChainIb2 = true)
    (hchunks : Forall₂ (fun x o => CpExec info ws reads ib2 x.chunk false o) parts outs) :
    ∃ os, Forall₂ (fun ib o => ib.cdw < 2 ^ 20 ∧ IbExec info ws reads ib2 ib.va ib.cdw o)
        cs.submitted os ∧ os.flatten = outs.reverse.flatten := by
  cases h with
  | @chained x rest body h =>
    obtain ⟨o, outs, hx, hrest, rfl⟩ := forall₂_cons_left_iff.mp hchunks
    have hchain := h.stream.chain
    have hlast := h.holds.ibExec_nop (hreads x mem_cons_self) hx
    have hall := h.links.ibExec (fun y hy => hreads y (mem_cons_of_mem _ hy)) h.holds.small
      (fun hi => hib2 hi hchain) hrest hlast
    obtain ⟨ib, htake, hib⟩ := take_one_reverse_ib x rest
    refine ⟨[outs.reverse.flatten ++ o], ?_, ?_⟩
    · rw [Cs.submitted, if_pos hchain, h.ibs, htake]
      have hsmall := first_small h.links h.holds.small
      rw [← hib] at hall hsmall
      exact .cons ⟨hsmall, hall⟩ .nil
    · simp
  | flat h =>
    refine ⟨outs.reverse, ?_, rfl⟩
    rw [Cs.submitted, h.stream.chain, if_neg Bool.false_ne_true, h.ibs, forall₂_map_left_iff]
    apply rel_reverse
    have hheld := forall₂_and_left _ _ |>.mpr ⟨fun x hx => And.intro (h.held x hx) (hreads x hx), hchunks⟩
    exact hheld.imp fun x o hx => ⟨hx.1.1.small, hx.1.1.ibExec hx.1.2 hx.2⟩

end RadvXclipse.RadvAmdgpu
