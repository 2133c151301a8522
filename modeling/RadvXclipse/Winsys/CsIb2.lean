import RadvXclipse.Winsys.CsPackets

/-!
# IB2 or copy

Executing a secondary stream by IB2 packets and by copying it makes the command processor execute
the same packets, as long as the copy fits: an IB of a secondary that does not chain may use the
four dwords that `max_dw` leaves free, and the largest IB of a primary that chains has no room for
them.
-/

namespace RadvXclipse.RadvAmdgpu

open Lib Util List Function

/-- The parent is finalized right after it executed the child: by IB2s and by copying, no store is
out of bounds and the command processor executes exactly `out`. -/
def ExecutesBoth (info : Info) (ws : Ws) (parent child : Cs) (news news' : ℕ → NewBo)
    (out : List Packet) : Prop :=
  let ib2 := csFinalize info (csExecuteSecondary info ⟨ws, parent⟩ child true news)
  let copy := csFinalize info (csExecuteSecondary info ⟨ws, parent⟩ child false news')
  ib2.ws.badStore = false ∧ copy.ws.badStore = false ∧
    ∀ o, (StreamExec info ib2.ws ib2.cs o ↔ o = out) ∧ (StreamExec info copy.ws copy.cs o ↔ o = out)

section

variable {info : Info} {ws : Ws} {used reads : BoId → Prop} {parent child : Cs}
  {closed : List Part} {b : BoId} {va : BitVec 64} {cur : List (BitVec 32)} {pre : List Packet}
  {parts : List Part} {qs : List (List Packet)} {news news' : ℕ → NewBo}

/-- Executing a stream, up to the buffers that the parent lists. -/
theorem csExecuteSecondary_eq (news news' : ℕ → NewBo)
    (hparent : Parent info ws used reads ⟨ws, parent⟩ closed b va cur pre)
    (hchild : Child info ws child parts qs) (hprimary : parent.isSecondary = false)
    (hgfx : parent.hwIp = .gfx) :
    ∃ l, Parent info ws used reads ⟨ws, { parent with buffers := l }⟩ closed b va cur pre ∧
      csExecuteSecondary info ⟨ws, parent⟩ child true news =
        emitIb2s info child.submitted news ⟨ws, { parent with buffers := l }⟩ ∧
      csExecuteSecondary info ⟨ws, parent⟩ child false news' =
        copyIbs info child child.ibBuffers news' ⟨ws, { parent with buffers := l }⟩ := by
  have hstatus : parent.status = .success := hparent.recorder.stream.status
  refine ⟨child.buffers.handles.foldl (fun l h => csAddBufferInternal l h.1 h.2) parent.buffers,
    hparent.reserve parent.reservedDw _, ?_, ?_⟩
  · simp [csExecuteSecondary, hstatus, hchild.status, hprimary, hgfx, csEmitSecondaryIb2_eq]
  · simp [csExecuteSecondary, hstatus, hchild.status]

section

variable (hparent : Parent info ws used reads ⟨ws, parent⟩ closed b va cur pre)
  (hchild : Child info ws child parts qs) (hreads : ∀ b ∈ child.owned, reads b)
  (hprimary : parent.isSecondary = false) (hgfx : parent.hwIp = .gfx) (hip : child.hwIp = .gfx)
  (hnews' : Supply ws news' child.ibBuffers.length)
include hparent hchild hreads hprimary hgfx hip hnews'

lemma executesBoth_of_fits (hnews : Supply ws news child.ibBuffers.length)
    (hfits : parent.chainIb = true → ∀ ib ∈ child.ibBuffers, child.copyDw ib ≤ maxIbDw info .gfx) :
    ExecutesBoth info ws parent child news news' (pre ++ childPackets qs) := by
  obtain ⟨l, hl, heq, heq'⟩ := csExecuteSecondary_eq news news' hparent hchild hprimary hgfx
  obtain ⟨os, hos, hflatten⟩ := hchild.submitted_exec hreads
  obtain ⟨⟨os', hos', hflatten'⟩, hbound⟩ := hchild.copies hreads
  obtain ⟨closed1, b1, va1, cur1, hib2⟩ := hl.of_emitIb2s (hnews.mono child.submitted_length_le) hos
  obtain ⟨closed2, b2, va2, cur2, hcopy⟩ := hl.of_copyIbs hnews' hos' (fun ib hib => by
      have hle := hbound ib hib
      rwa [hip, ← hgfx] at hle)
    (fun hchain ib hib => by
      simp only [hgfx]
      exact hfits hchain ib hib)
  rw [hflatten] at hib2
  rw [hflatten'] at hcopy
  simp only [ExecutesBoth, heq, heq']
  exact ⟨hib2.finalize.1, hcopy.finalize.1, fun o => ⟨hib2.finalize.2 o, hcopy.finalize.2 o⟩⟩

lemma not_executesBoth_of_over (hchain : parent.chainIb = true)
    (hover : ∃ ib ∈ child.ibBuffers, maxIbDw info .gfx < child.copyDw ib) (out : List Packet) :
    ¬ ExecutesBoth info ws parent child news news' out := by
  obtain ⟨l, hl, -, heq'⟩ := csExecuteSecondary_eq news news' hparent hchild hprimary hgfx
  obtain ⟨⟨os', hos', -⟩, hbound⟩ := hchild.copies hreads
  have hbad := hl.badStore_copyIbs hnews' hos' (fun ib hib => by
      have hle := hbound ib hib
      rwa [hip, ← hgfx] at hle)
    hchain (by simp only [hgfx]; exact hover)
  rintro ⟨-, hcopy, -⟩
  rw [heq', hbad] at hcopy
  exact absurd hcopy (by decide)

end

end

/-! ## A new primary stream next to a secondary one -/

/-- A winsys with an empty IB at `0x1000000` for the primary stream and one that holds `dw` for the
secondary. -/
def twoBos (info : Info) (size : ℕ) (dw : ℕ → BitVec 32) : Ws :=
  { emptyWs with bos := fun b =>
      if b = 0 then some (csNewBo info (Cs.initial info .gfx false 0 0 ⟨[], fun _ => none⟩)
        (csGetInitialSize info .gfx) ⟨0, 0x1000000, fun _ => 0, 1⟩)
      else if b = 1 then some (csNewBo info (Cs.initial info .gfx true 1 0 ⟨[], fun _ => none⟩)
        size ⟨1, 0x2000000, dw, 2⟩)
      else none }

def newPrimary (info : Info) : Cs := Cs.initial info .gfx false 0 0x1000000 ⟨[], fun _ => none⟩

/-- The BO that the kernel gives next. -/
def thirdBo : NewBo := ⟨2, 0x3000000, fun _ => 0, 3⟩

section

variable (info : Info) (size : ℕ) (dw : ℕ → BitVec 32)

lemma twoBos_cases {b : BoId} {bo : Bo} (h : (twoBos info size dw).bos b = some bo) :
    (b = 0 ∧ bo.va = 0x1000000) ∨ (b = 1 ∧ bo.va = 0x2000000) := by
  simp only [twoBos] at h
  split_ifs at h with h0 h1
  · exact .inl ⟨h0, by rw [← Option.some.inj h]; rfl⟩
  · exact .inr ⟨h1, by rw [← Option.some.inj h]; rfl⟩

lemma supply_twoBos : Supply (twoBos info size dw) (fun _ => thirdBo) 1 := by
  refine ⟨fun i _ => ⟨rfl, fun b bo hb => ?_⟩, fun i hi j hj hij => absurd hij (by omega)⟩
  rcases twoBos_cases info size dw hb with ⟨-, hva⟩ | ⟨-, hva⟩
  · rw [hva]
    decide
  · rw [hva]
    decide

lemma parent_twoBos (hchain : info.chainIb = true) :
    Parent info (twoBos info size dw) (fun b => b = 1) (fun b => b = 1)
      ⟨twoBos info size dw, newPrimary info⟩ [] 0 0x1000000 [] [] := by
  have hchained : (newPrimary info).chainIb = true := by simp [newPrimary, Cs.initial, hchain]
  have hbo : (twoBos info size dw).bos 0 = some _ := rfl
  refine
    { recorder := (Recording.initial info hbo rfl (.inl rfl) hchained).recorder
      yields := ⟨[], [], .nil, .done false, rfl⟩
      ok := ⟨fun b b' bo bo' hb hb' hva => ?_, fun b hb => ?_, .nil, (fun _ h => by cases h),
        (fun _ h => by cases h)⟩
      apart := fun b hb => ⟨hb, ?_⟩
      memory := fun _ _ => rfl
      room := maxDw_initial_le ..
      badStore := rfl }
  · rcases twoBos_cases info size dw hb with ⟨rfl, h⟩ | ⟨rfl, h⟩ <;>
      rcases twoBos_cases info size dw hb' with ⟨rfl, h'⟩ | ⟨rfl, h'⟩
    · rfl
    · exact absurd (h.symm.trans (hva.trans h')) (by decide)
    · exact absurd (h.symm.trans (hva.trans h')) (by decide)
    · rfl
  · rcases hb with rfl | hb
    · exact fun h => by cases h
    · obtain rfl := mem_singleton.mp hb
      exact fun h => by cases h
  · have howned : (newPrimary info).owned = [0] := rfl
    simp only [howned, hb, mem_singleton]
    decide

/-- Stores into the IB of the secondary stream. -/
theorem setDw_twoBos {bo : Bo} (hbo : (twoBos info size dw).bos 1 = some bo) (f : ℕ → BitVec 32) :
    (twoBos info size dw).setDw 1 bo f = twoBos info size f := by
  obtain rfl := Option.some.inj hbo
  simp only [Ws.setDw, twoBos, Ws.mk.injEq, and_true]
  funext b
  by_cases h : b = 1
  · subst h
    rw [update_self]
    rfl
  · rw [update_of_ne h, if_neg h, if_neg h]

end

/-! ## A device that chains IBs but not IB2s -/

def gfx6Info : Info :=
  { exampleInfo with
    gfx6 := true, gfx8Plus := false, gfxIbPadWithType2 := true, gfx11ShaderCore := false,
    canChainIb2 := false }

/-- A `SET_SH_REG` packet of four dwords. -/
def setShReg : Packet := [pkt3 0x76 2 0, 0x240, 0, 0]

/-- A secondary stream that has recorded `n` such packets into its one IB, which has `size` bytes. A
reset leaves a stream that has grown with one larger IB. -/
def setShRegsRecorded (size n : ℕ) : St :=
  ⟨twoBos gfx6Info size fun i => (replicate n setShReg).flatten.getD i 0,
    { Cs.initial gfx6Info .gfx true 1 0x2000000 ⟨[], fun _ => none⟩ with
      cdw := 4 * n, maxDw := size / 4 - 4 }⟩

/-- The padding of an odd number of packets. -/
def nopPad : List (BitVec 32) := [pkt3 pkt3Nop 2 0, 0, 0, 0]

/-- The finalized stream, for an odd `n`. -/
def setShRegs (size n : ℕ) : Cs :=
  { (setShRegsRecorded size n).cs with
    cdw := 4 * n + 4, ibBuffer := none, ibBuffers := [⟨1, 0x2000000, 4 * n + 4⟩] }

/-- The winsys with the IB of that stream. -/
def setShRegsWs (size n : ℕ) : Ws :=
  twoBos gfx6Info size fun i => ((replicate n setShReg).flatten ++ nopPad).getD i 0

lemma length_setShRegs (n : ℕ) : (replicate n setShReg).flatten.length = 4 * n := by
  have hlen : setShReg.length = 4 := rfl
  rw [length_flatten, map_replicate, sum_replicate_nat, hlen, mul_comm]

/-- `radv_amdgpu_cs_finalize` pads the stream into the dwords that `max_dw` leaves free. -/
theorem csFinalize_setShRegsRecorded {size n : ℕ} (hodd : n % 2 = 1) (hn : 16 * n + 16 ≤ size) :
    csFinalize gfx6Info (setShRegsRecorded size n) = ⟨setShRegsWs size n, setShRegs size n⟩ := by
  have hmask : 4 * n &&& 7 = 4 := by
    rw [show 7 = 2 ^ 3 - 1 from rfl, Nat.and_two_pow_sub_one_eq_mod]
    omega
  have hpad : winsysCsPad gfx6Info (setShRegsRecorded size n) 0 =
      csEmitPkt3Nop (setShRegsRecorded size n) 4 := by
    simp [winsysCsPad, setShRegsRecorded, Cs.initial, ipTypeDwPaddingMinus1, csEmitNops, hmask]
  have hbo : (setShRegsRecorded size n).ws.bos 1 = some (csNewBo gfx6Info
      (Cs.initial gfx6Info .gfx true 1 0 ⟨[], fun _ => none⟩) size
      ⟨1, 0x2000000, fun i => (replicate n setShReg).flatten.getD i 0, 2⟩) := rfl
  have hws : (setShRegsRecorded size n).ws.store (some 1) (4 * n) (pkt3 pkt3Nop 2 0) =
      setShRegsWs size n := by
    rw [Ws.store_live hbo _ _ (show 4 * (4 * n) + 4 ≤ size by omega)]
    refine (setDw_twoBos gfx6Info size _ hbo _).trans ?_
    unfold setShRegsWs
    congr 1
    funext i
    rw [update_apply, ← length_setShRegs n]
    split_ifs with hi
    · rw [hi, getD_append_right _ _ _ _ (le_refl _), Nat.sub_self]
      rfl
    · by_cases hlt : i < (replicate n setShReg).flatten.length
      · exact (getD_append _ _ _ _ hlt).symm
      · -- behind the header of the padding there is nothing in either list
        obtain ⟨j, rfl⟩ : ∃ j, i = (replicate n setShReg).flatten.length + (j + 1) :=
          ⟨i - (replicate n setShReg).flatten.length - 1, by omega⟩
        have hzero : nopPad.getD (j + 1) 0 = 0 := by
          rcases j with _ | _ | _ | j <;> rfl
        rw [getD_append_right _ _ _ _ (Nat.le_add_right _ _), Nat.add_sub_cancel_left, hzero]
        exact getD_eq_default _ _ (Nat.le_add_right _ _)
  have hchain : (setShRegsRecorded size n).cs.chainIb = false := rfl
  have hemit : csEmitPkt3Nop (setShRegsRecorded size n) 4 =
      ⟨setShRegsWs size n, { (setShRegsRecorded size n).cs with cdw := 4 * n + 4 }⟩ := by
    rw [← hws]
    rfl
  rw [csFinalize, csClose, if_neg (by simp [hchain]), hpad, hemit]
  rfl

lemma maxIbDw_gfx6Info : maxIbDw gfx6Info .gfx = 262140 := by decide

lemma child_setShRegs {size n : ℕ} (hdvd : 256 ∣ size) (hpos : 0 < size) (hle : size ≤ 2 ^ 20)
    (hn : 16 * n + 16 ≤ size) :
    Child gfx6Info (setShRegsWs size n) (setShRegs size n)
      [⟨1, 0x2000000, (replicate n setShReg).flatten, nopPad⟩] [replicate n setShReg] := by
  have hmax : (setShRegs size n).maxDw = size / 4 - 4 := rfl
  have hlen := length_setShRegs n
  have hpad : nopPad.length = 4 := rfl
  have hbo : (setShRegsWs size n).bos 1 = some (csNewBo gfx6Info
      (Cs.initial gfx6Info .gfx true 1 0 ⟨[], fun _ => none⟩) size
      ⟨1, 0x2000000, fun i => ((replicate n setShReg).flatten ++ nopPad).getD i 0, 2⟩) := rfl
  refine ⟨.flat ⟨⟨rfl, .inl rfl, rfl, ?_, ?_⟩, rfl, ?_, ?_, nodup_singleton _⟩, ?_, nofun, ?_⟩
  · rw [hmax]
    omega
  · rw [hmax]
    omega
  · intro x hx
    obtain rfl := mem_singleton.mp hx
    have hnops : Nops (pkt3 pkt3Nop (BitVec.ofNat 32 2) 0 :: ([0, 0, 0] ++ [])) :=
      .packet (by decide) rfl .nil
    refine ⟨⟨_, hbo, rfl, ?_, ?_⟩, ?_, hnops⟩
    · simp only [hlen, hpad, csNewBo]
      omega
    · simp only [csNewBo]
      intro i hi
      exact getD_eq_getElem _ _ hi
    · simp only [hlen, hpad]
      omega
  · simp only [reverse_singleton, map_singleton, Part.flatIb, hlen, hpad]
    rfl
  · refine .cons ⟨fun p hp => ?_, rfl⟩ .nil
    obtain rfl := (mem_replicate.mp hp).2
    exact ⟨by decide, by decide⟩
  · intro b hb bo hbo'
    obtain rfl := mem_singleton.mp hb
    obtain rfl := Option.some.inj (hbo.symm.trans hbo')
    have hgfx : (setShRegs size n).hwIp = .gfx := rfl
    rw [hgfx, maxIbDw_gfx6Info]
    exact hle

/-- A primary stream on the graphics queue that executes a secondary one right before it is
finalized: by IB2 packets and by copying, the command processor executes what was recorded before
and then the packets of the secondary, in bounds, if and only if the primary does not chain its IBs
or what is copied from each IB of the secondary fits into the largest IB of the primary. -/
theorem executesBoth_iff_fits {info : Info} {ws : Ws} {used reads : BoId → Prop} {parent child : Cs}
    {closed : List Part} {b : BoId} {va : BitVec 64} {cur : List (BitVec 32)} {pre : List Packet}
    {parts : List Part} {qs : List (List Packet)} {news news' : ℕ → NewBo}
    (hparent : Parent info ws used reads ⟨ws, parent⟩ closed b va cur pre)
    (hchild : Child info ws child parts qs) (hreads : ∀ b ∈ child.owned, reads b)
    (hprimary : parent.isSecondary = false) (hgfx : parent.hwIp = .gfx) (hip : child.hwIp = .gfx)
    (hnews : Supply ws news child.ibBuffers.length)
    (hnews' : Supply ws news' child.ibBuffers.length) :
    ExecutesBoth info ws parent child news news' (pre ++ childPackets qs) ↔
      (parent.chainIb = true → ∀ ib ∈ child.ibBuffers, child.copyDw ib ≤ maxIbDw info .gfx) := by
  constructor
  · intro hboth hchain
    by_contra hnot
    push Not at hnot
    exact not_executesBoth_of_over hparent hchild hreads hprimary hgfx hip hnews' hchain hnot _ hboth
  · exact executesBoth_of_fits hparent hchild hreads hprimary hgfx hip hnews' hnews

/-- A secondary stream of three packets. -/
theorem executesBoth_iff_fits_setShRegs :
    ExecutesBoth gfx6Info (setShRegsWs 81920 3) (newPrimary gfx6Info) (setShRegs 81920 3)
      (fun _ => thirdBo) (fun _ => thirdBo) [setShReg, setShReg, setShReg] := by
  have hchild : Child gfx6Info (setShRegsWs 81920 3) (setShRegs 81920 3) _ _ :=
    child_setShRegs (by decide) (by decide) (by decide) (by decide)
  have hiff := executesBoth_iff_fits (parent_twoBos gfx6Info 81920 _ rfl) hchild
    (fun b hb => mem_singleton.mp hb) rfl rfl rfl (supply_twoBos gfx6Info 81920 _)
    (supply_twoBos gfx6Info 81920 _)
  refine hiff.mpr fun _ ib hib => ?_
  obtain rfl := mem_singleton.mp hib
  decide

/-- A secondary stream that fills the largest IB, with its padding: the copy leaves no room in the
primary for the NOPs that make room for the chaining packet. -/
theorem not_executesBoth_largest :
    csFinalize gfx6Info (setShRegsRecorded (2 ^ 20) 65535) =
        ⟨setShRegsWs (2 ^ 20) 65535, setShRegs (2 ^ 20) 65535⟩ ∧
      ¬ ∃ out, ExecutesBoth gfx6Info (setShRegsWs (2 ^ 20) 65535) (newPrimary gfx6Info)
        (setShRegs (2 ^ 20) 65535) (fun _ => thirdBo) (fun _ => thirdBo) out := by
  refine ⟨csFinalize_setShRegsRecorded (by decide) (by decide), ?_⟩
  rintro ⟨out, hout⟩
  refine not_executesBoth_of_over (parent_twoBos gfx6Info (2 ^ 20) _ rfl)
    (child_setShRegs (by decide) (by decide) (by decide) (by decide))
    (fun b hb => mem_singleton.mp hb) rfl rfl rfl (supply_twoBos gfx6Info (2 ^ 20) _) rfl
    ⟨_, mem_singleton_self _, ?_⟩ out hout
  decide

end RadvXclipse.RadvAmdgpu
