import RadvXclipse.Winsys.CsIb2
import RadvXclipse.Winsys.CsRun

/-!
# Room after a grow

`radv_amdgpu_cs_grow` asks for the larger of two sizes in bytes, cuts it to the number of dwords
that the size field of a chaining packet can hold, and aligns what is left. A request for more
dwords than the largest IB has is granted all the same, with too little room.
-/

namespace RadvXclipse.RadvAmdgpu

open Lib Util

/-- There is room for `minSize` dwords, and once they are written the stream is finalized inside its
BO. -/
def HasRoom (info : Info) (t : St) (minSize : ℕ) : Prop :=
  minSize ≤ t.cs.maxDw ∧ ∀ values : List (BitVec 32), values.length = minSize →
    (csFinalize info (values.foldl radeonEmitUnchecked t)).ws.badStore = false

lemma Recorded.hasRoom (info : Info) {s : St} {b : BoId} (h : Recorded s b) (hcdw : s.cs.cdw = 0)
    {n : ℕ} (hn : n ≤ s.cs.maxDw) : HasRoom info s n := by
  refine ⟨hn, fun values hlen => ?_⟩
  obtain ⟨ws', cdw, size, ib, heq, hclosed, -⟩ :=
    csFinalize_recorded info (h.emitAll values (by rw [hcdw, hlen]; omega)).1
  rw [heq]
  exact hclosed.badStore

/-- After any run in which every grow met `GrowOk`, a grow that obtains and maps its BO has room for
what was asked for, and for the padding and the chaining packet behind it, exactly if the request is
not larger than the largest IB. -/
theorem hasRoom_of_run {info : Info} {ws0 : Ws} {ip : IpType} {isSecondary : Bool}
    {create0 : Option NewBo} {mapOk0 : Bool} {s0 s : St} {ops : List StreamOp}
    (hws : WsOk ws0 fun _ => False) (hbad : ws0.badStore = false) (hbad' : ws0.badRestore = false)
    (hfresh0 : ∀ n ∈ create0, ws0.Fresh n)
    (hcreate : csCreate info ws0 ip isSecondary create0 mapOk0 = some s0)
    (hrun : Run (only (GrowsOk info) (StreamStep info)) s0 ops s) (hbuf : s.cs.ibBuffer ≠ none)
    (hstatus : s.cs.status = .success) (minSize : ℕ) {create : Option NewBo}
    (hfresh : ∀ n ∈ create, s.ws.Fresh n)
    (hcan : canObtain info s.ws (growIbSize info s.cs minSize) create = true) :
    HasRoom info (csGrow info s minSize create true) minSize ↔ minSize ≤ maxIbDw info s.cs.hwIp := by
  obtain ⟨b, hrec⟩ := (Coherent.of_run hws hbad hbad' hfresh0 hcreate hrun).recorded hbuf
  obtain ⟨b', hrec'⟩ := csGrow_obtained info hrec hfresh hstatus hcan
  obtain ⟨hle, hroom, -⟩ := growIbSize_room info s.cs minSize
  have hmax := csGrow_maxDw info minSize hstatus create true
  constructor
  · intro h
    exact (hmax ▸ h.1).trans hle
  · intro h
    exact hrec'.hasRoom info (csGrow_cdw ..) (hmax ▸ hroom h)

/-- A stream that has grown once grows for as many dwords as the largest IB has. -/
theorem hasRoom_of_run_largest :
    Run (only (GrowsOk exampleInfo) (StreamStep exampleInfo)) exampleFirst
      [.grow 1 (some (exampleNewBo 1)) true] exampleFull ∧
    maxIbDw exampleInfo .gfx = 262140 ∧
    HasRoom exampleInfo (csGrow exampleInfo exampleFull 262140 (some (exampleNewBo 2)) true) 262140 := by
  have hrun : Run (only (GrowsOk exampleInfo) (StreamStep exampleInfo)) exampleFirst
      [.grow 1 (some (exampleNewBo 1)) true] exampleFull :=
    .snoc .nil ⟨Or.inr ⟨rfl, Or.inl (by simp [canObtain])⟩, .grow (Option.some_ne_none 0) exampleFirst_fresh⟩
  have hcreate : csCreate exampleInfo emptyWs .gfx false (some (exampleNewBo 0)) true =
    some exampleFirst := rfl
  refine ⟨hrun, rfl, ?_⟩
  refine (hasRoom_of_run emptyWs_ok rfl rfl exampleNewBo_fresh hcreate hrun (Option.some_ne_none 1) rfl
    262140 (fun _ hn => ?_) (by simp [canObtain])).mpr (by decide)
  exact Option.some.inj hn ▸ Ws.fresh_of_boVa 2 (fun _ => rfl) rfl (by decide)

/-- A secondary stream that does not chain has an IB of 2 ^ 18 dwords, the last four of them
padding: a primary that grows to copy it has room for four dwords less. -/
theorem not_hasRoom_largest :
    csFinalize gfx6Info (setShRegsRecorded (2 ^ 20) 65535) =
        ⟨setShRegsWs (2 ^ 20) 65535, setShRegs (2 ^ 20) 65535⟩ ∧
      (setShRegs (2 ^ 20) 65535).ibBuffers.map (setShRegs (2 ^ 20) 65535).copyDw = [2 ^ 18] ∧
      ¬ HasRoom gfx6Info (csGrow gfx6Info ⟨setShRegsWs (2 ^ 20) 65535, newPrimary gfx6Info⟩ (2 ^ 18)
        (some thirdBo) true) (2 ^ 18) := by
  refine ⟨csFinalize_setShRegsRecorded (by decide) (by decide), rfl, fun h => ?_⟩
  have hle := (growIbSize_room gfx6Info (newPrimary gfx6Info) (2 ^ 18)).1
  rw [show (newPrimary gfx6Info).hwIp = .gfx from rfl, maxIbDw_gfx6Info] at hle
  have hmax := h.1
  rw [csGrow_maxDw gfx6Info _ rfl] at hmax
  simp only at hmax
  omega

end RadvXclipse.RadvAmdgpu
