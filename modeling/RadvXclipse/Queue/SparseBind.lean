import RadvXclipse.Winsys.Sparse

/-!
# Binding the memory of a sparse buffer

`radv_sparse_buffer_bind_memory` collects binds that go on where the one before ended, in the buffer
and, unless they unbind, in the same memory, and makes one virtual bind of them. Each page is mapped
to what one virtual bind for each bind gives it.
-/

namespace RadvXclipse.Queue

open Lib Util Winsys.Sparse List Option Nat

/-- `struct radv_device_memory`: which one it is, and its BO. -/
structure DeviceMemory where
  id : ℕ
  bo : Bo
deriving DecidableEq, Repr

/-- `VkSparseMemoryBind` -/
structure SparseMemoryBind where
  resourceOffset : ℕ
  size : ℕ
  memory : Option DeviceMemory
  memoryOffset : ℕ
deriving DecidableEq, Repr

/-- `b` goes on where the pending range ends. -/
def SparseMemoryBind.continues (pending b : SparseMemoryBind) : Bool :=
  pending.memory = b.memory && b.resourceOffset = add64 pending.resourceOffset pending.size &&
    (pending.memory.isNone || b.memoryOffset = add64 pending.memoryOffset pending.size)

section Bind

variable (ws : Ws) (kernel : Kernel) (parent : VirtualBo)

/-- `radv_bo_virtual_bind` of the pending range, if there is one. -/
def bindPending (pt : PageTable) (pending : SparseMemoryBind) : Except ℕ PageTable :=
  if pending.size ≠ 0 then
    virtualBind ws kernel parent pt
      ⟨pending.resourceOffset, pending.size, pending.memory.map DeviceMemory.bo, pending.memoryOffset⟩
  else .ok pt

/-- The loop of `radv_sparse_buffer_bind_memory` after the first bind. -/
def bindLoop : PageTable → SparseMemoryBind → List SparseMemoryBind → Except ℕ PageTable
  | pt, pending, [] => bindPending ws kernel parent pt pending
  | pt, pending, b :: binds =>
    if pending.continues b then bindLoop pt { pending with size := add64 pending.size b.size } binds
    else (bindPending ws kernel parent pt pending).bind fun pt => bindLoop pt b binds

/-- `radv_sparse_buffer_bind_memory` for a buffer with the BO `parent`. -/
def sparseBufferBindMemory (pt : PageTable) : List SparseMemoryBind → Except ℕ PageTable
  | [] => .ok pt
  | b :: binds => bindLoop ws kernel parent pt b binds

/-! ## What a bind maps -/

/-- An entry without the offset of a page that shows no memory: nothing is read through a PRT page,
and all pages of the null-PRT BO are zero. -/
def shown (e : Pte) : Pte :=
  if e.handle = 0 ∨ e.handle = ws.nullPrtBo then { e with offset := 0 } else e

/-- What each page is mapped to. It forgets the offset of PRT pages and of null-PRT pages, which
counts from the start of the virtual bind. -/
def mapping (pt : PageTable) : PageTable := fun page => (pt page).map (shown ws)

/-- No sum of the offsets of a bind wraps, nor reaches the bit that tells HIGH from LOW addresses if
the BO is an emulated one. -/
structure SparseMemoryBind.Fits (b : SparseMemoryBind) : Prop where
  resource : b.resourceOffset + b.size + 2 ^ ws.pageShift ≤ 2 ^ 64
  memory : b.memory ≠ none → b.memoryOffset + b.size < 2 ^ 64
  room : parent.emulateSparseResidency = true →
    b.resourceOffset + b.size + 2 ^ ws.pageShift ≤ 2 ^ ws.addressPrtWaControlBit

/-- What a bind maps a page of the range at `start` to; without memory it is `handle`. -/
def SparseMemoryBind.pages (b : SparseMemoryBind) (start handle flags page : ℕ) : Option Pte :=
  if start + b.resourceOffset ≤ 4096 * page ∧ 4096 * page < start + b.resourceOffset + covered ws b.size then
    match b.memory with
    | some m => some (shown ws ⟨m.bo.handle, b.memoryOffset + (4096 * page - (start + b.resourceOffset)),
        vaFlags ws m.bo.handle { gl2Bypass := m.bo.flags.gl2Bypass } 0⟩)
    | none => some ⟨handle, 0, flags⟩
  else none

/-- What a bind maps a page to, LOW or HIGH. -/
def SparseMemoryBind.maps (b : SparseMemoryBind) (page : ℕ) : Option Pte :=
  (if parent.emulateSparseResidency then
    b.pages ws (virtualBoGetLowAddr ws parent) ws.nullPrtBo (vaFlags ws ws.nullPrtBo {} 0) page
  else none).or (b.pages ws parent.va 0 vmPagePrt page)

/-- The kernel refuses an address that is not that of a page of the CPU. -/
def ChecksAddress : Prop := ∀ {pt op pt'}, kernel.vaOp pt op = .ok pt' → 2 ^ ws.pageShift ∣ op.addr

end Bind

section

variable {ws : Ws} {kernel : Kernel} {parent : VirtualBo} {pt pt' : PageTable}
  {pending b : SparseMemoryBind} {start handle flags : ℕ}

lemma covered_zero : covered ws 0 = 0 := alignUp_eq_self (Nat.two_pow_pos _) (dvd_zero _)

/-- `b` goes on where `pending` ends, and only the last of them can be of a part of a page. -/
structure Continues (ws : Ws) (pending b : SparseMemoryBind) : Prop where
  memory : pending.memory = b.memory
  resourceOffset : b.resourceOffset = pending.resourceOffset + pending.size
  memoryOffset : pending.memory ≠ none → b.memoryOffset = pending.memoryOffset + pending.size
  dvd : b.size = 0 ∨ 2 ^ ws.pageShift ∣ pending.size

section Continues

variable (h : Continues ws pending b)
include h

lemma Continues.covered_add :
    covered ws (pending.size + b.size) = covered ws pending.size + covered ws b.size ∧
    (covered ws b.size = 0 ∨ covered ws pending.size = pending.size) := by
  rcases h.dvd with hzero | hdvd
  · rw [hzero, covered_zero]
    exact ⟨rfl, .inl rfl⟩
  · have hpos := Nat.two_pow_pos ws.pageShift
    have hself : covered ws pending.size = pending.size := alignUp_eq_self hpos hdvd
    rw [hself]
    exact ⟨alignUp_add_of_dvd hpos hdvd, .inr rfl⟩

/-- The two binds in one range. -/
theorem Continues.pages_or (page : ℕ) :
    (b.pages ws start handle flags page).or (pending.pages ws start handle flags page) =
      { pending with size := pending.size + b.size }.pages ws start handle flags page := by
  obtain ⟨hadd, hself⟩ := h.covered_add
  have hres := h.resourceOffset
  have hoff := h.memoryOffset
  simp only [SparseMemoryBind.pages, hadd]
  rw [h.memory] at hoff ⊢
  by_cases hb : start + b.resourceOffset ≤ 4096 * page ∧
    4096 * page < start + b.resourceOffset + covered ws b.size
  · rw [if_pos hb]
    cases hm : b.memory with
    | none => exact (if_pos (by omega)).symm
    | some m =>
      have hoff := hoff (by simp [hm])
      rw [some_or, if_pos (by omega)]
      congr 3
      omega
  · rw [if_neg hb, none_or]
    exact if_congr (by omega) rfl rfl

/-- The two binds as one. -/
theorem Continues.maps_or (hfits : b.Fits ws parent)
    (hva : parent.emulateSparseResidency = true → parent.va.testBit ws.addressPrtWaControlBit = true) (page : ℕ) :
    (b.maps ws parent page).or (pending.maps ws parent page) =
      { pending with size := pending.size + b.size }.maps ws parent page := by
  unfold SparseMemoryBind.maps
  rw [← h.pages_or, ← h.pages_or]
  by_cases hemulate : parent.emulateSparseResidency = true
  · have hlow : virtualBoGetLowAddr ws parent + 2 ^ ws.addressPrtWaControlBit = parent.va := by
      rw [virtualBoGetLowAddr, one_shiftLeft]
      exact ldiff_two_pow_add (hva hemulate)
    have hroom := hfits.room hemulate
    have hlt : covered ws pending.size < pending.size + 2 ^ ws.pageShift := alignUp_lt (Nat.two_pow_pos _) _
    have hres := h.resourceOffset
    -- the LOW pages of the first bind are below the HIGH ones of the second
    have hnone : b.pages ws parent.va 0 vmPagePrt page = none ∨
        pending.pages ws (virtualBoGetLowAddr ws parent)
        ws.nullPrtBo (vaFlags ws ws.nullPrtBo {} 0) page = none := by
      by_cases hpage : parent.va + b.resourceOffset ≤ 4096 * page
      · exact .inr (if_neg (by omega))
      · exact .inl (if_neg fun hin => hpage hin.1)
    simp only [hemulate, if_true]
    rcases hnone with hnone | hnone
    · simp only [hnone, or_none, none_or, Option.or_assoc]
    · simp only [hnone, or_none, none_or, Option.or_assoc]
  · simp only [hemulate, Bool.false_eq_true, if_false, none_or]

end Continues

/-! ## One virtual bind -/

lemma mapping_of_at (ws : Ws) {page : ℕ} {c : Prop} [Decidable c] {e : Pte}
    (h : pt'.at (4096 * page) = if c then some e else pt.at (4096 * page)) :
    mapping ws pt' page = (if c then some (shown ws e) else none).or (mapping ws pt page) := by
  simp only [PageTable.at, Nat.mul_div_cancel_left page (show 0 < 4096 by decide)] at h
  rw [mapping, h]
  split_ifs
  · rfl
  · rfl

/-- A virtual bind that succeeds. -/
theorem mapping_bindPending (hfits : b.Fits ws parent)
    (h : bindPending ws kernel parent pt b = .ok pt') (page : ℕ) :
    mapping ws pt' page = (b.maps ws parent page).or (mapping ws pt page) := by
  have hsize : b.size + 2 ^ ws.pageShift ≤ 2 ^ 64 := by
    have hres := hfits.resource
    omega
  have hd := dvd_mul_right 4096 page
  simp only [SparseMemoryBind.maps, SparseMemoryBind.pages]
  by_cases hzero : b.size = 0
  · rw [bindPending, if_neg (not_not.mpr hzero)] at h
    cases h
    have hnone : ∀ start, ¬ (start ≤ 4096 * page ∧ 4096 * page < start + covered ws b.size) := by
      rw [hzero, covered_zero]
      omega
    simp only [if_neg (hnone _), ite_self]
    rfl
  rw [bindPending, if_pos hzero, virtualBind] at h
  cases hm : b.memory with
  | some m =>
    simp only [hm, map_some, virtualBoMap, bind_eq_ok] at h
    obtain ⟨pt1, hhigh, hlow⟩ := h
    have hhigh := mapping_of_at ws (at_boVaOp (.inr rfl) hsize hd hhigh)
    split_ifs at hlow with hemulate
    · rw [mapping_of_at ws (at_boVaOp (.inr rfl) hsize hd hlow), hhigh, if_pos hemulate, Option.or_assoc]
    · cases hlow
      rw [hhigh, if_neg hemulate, none_or]
  | none =>
    simp only [hm, map_none, virtualBoUnmap, bind_eq_ok] at h
    obtain ⟨pt1, hhigh, hlow⟩ := h
    have hhigh := mapping_of_at ws (at_boVaOp (.inr rfl) hsize hd hhigh)
    split_ifs at hlow with hemulate
    · rw [mapping_of_at ws (at_bindNullPrtChunks (.inr rfl) hd hsize hlow), hhigh, if_pos hemulate,
        Option.or_assoc]
      simp [shown, vaFlags]
    · cases hlow
      rw [hhigh, if_neg hemulate, none_or]
      rfl

/-! ## All binds -/

/-- A range that is not empty starts at a page. -/
def Starts (ws : Ws) (parent : VirtualBo) (b : SparseMemoryBind) : Prop :=
  b.size = 0 ∨ 2 ^ ws.pageShift ∣ parent.va + b.resourceOffset

lemma starts_of_bindPending (hkernel : ChecksAddress ws kernel)
    (h : bindPending ws kernel parent pt b = .ok pt') : Starts ws parent b := by
  refine or_iff_not_imp_left.mpr fun hsize => ?_
  rw [bindPending, if_pos hsize, virtualBind] at h
  split at h
  · obtain ⟨pt1, hhigh, -⟩ := bind_eq_ok.mp h
    exact hkernel hhigh
  · obtain ⟨pt1, hhigh, -⟩ := bind_eq_ok.mp h
    exact hkernel hhigh

/-- The pending range and the next bind as one. -/
theorem Continues.of_continues (hpending : pending.Fits ws parent) (hb : b.Fits ws parent)
    (hstarts : Starts ws parent pending) (hstarts' : Starts ws parent b) (h : pending.continues b = true) :
    Continues ws pending b ∧ Starts ws parent { pending with size := pending.size + b.size } ∧
      { pending with size := pending.size + b.size }.Fits ws parent := by
  have hres := hpending.resource
  have hpos := Nat.two_pow_pos ws.pageShift
  simp only [SparseMemoryBind.continues, Bool.and_eq_true, Bool.or_eq_true, decide_eq_true_eq,
    isNone_iff_eq_none] at h
  obtain ⟨⟨hmemory, hresource⟩, hoffset⟩ := h
  rw [add64_of_lt (by omega)] at hresource
  have hoffset' : pending.memory ≠ none → b.memoryOffset = pending.memoryOffset + pending.size := by
    intro hne
    rw [or_iff_right hne, add64_of_lt (hpending.memory hne)] at hoffset
    exact hoffset
  refine ⟨⟨hmemory, hresource, hoffset', ?_⟩, ?_, ⟨?_, ?_, ?_⟩⟩
  · refine hstarts'.imp_right fun hdvd => ?_
    rcases hstarts with hempty | hstart
    · rw [hempty]
      exact dvd_zero _
    · rw [hresource, ← add_assoc] at hdvd
      exact (Nat.dvd_add_right hstart).mp hdvd
  · rcases hstarts with hempty | hstart
    · rw [Starts, hresource, hempty] at hstarts'
      exact hstarts'.imp_left fun hzero => by simp [hempty, hzero]
    · exact .inr hstart
  · have hres' := hb.resource
    dsimp only
    omega
  · intro hne
    have hlt := hb.memory (hmemory ▸ hne)
    have hoff := hoffset' hne
    dsimp only
    omega
  · intro hemulate
    have hroom := hb.room hemulate
    dsimp only
    omega

/-- `pt` is before the pending range is bound, `qt` after all binds so far one at a time. -/
theorem mapping_bindLoop {qt : PageTable} {binds : List SparseMemoryBind} (hkernel : ChecksAddress ws kernel)
    (hva : parent.emulateSparseResidency = true → parent.va.testBit ws.addressPrtWaControlBit = true)
    (hpending : pending.Fits ws parent) (hfits : ∀ b ∈ binds, b.Fits ws parent)
    (hstarts : Starts ws parent pending)
    (hqt : ∀ page, mapping ws qt page = (pending.maps ws parent page).or (mapping ws pt page))
    (h : bindLoop ws kernel parent pt pending binds = .ok pt') {qt' : PageTable}
    (hone : binds.foldlM (bindPending ws kernel parent) qt = .ok qt') : mapping ws pt' = mapping ws qt' := by
  induction binds generalizing pt qt pending with
  | nil =>
    cases hone
    funext page
    rw [mapping_bindPending hpending h, hqt]
  | cons b binds ih =>
    rw [foldlM_cons, bind_eq_ok] at hone
    obtain ⟨qt1, hb, hone⟩ := hone
    have hfb := hfits b mem_cons_self
    have hrest : ∀ b ∈ binds, b.Fits ws parent := fun b hb => hfits b (mem_cons_of_mem _ hb)
    have hsb := starts_of_bindPending hkernel hb
    rw [bindLoop] at h
    split at h
    · next hcont =>
      obtain ⟨hc, hs, hf⟩ := Continues.of_continues hpending hfb hstarts hsb hcont
      have hadd : add64 pending.size b.size = pending.size + b.size := by
        have hres := hf.resource
        exact add64_of_lt (by have := Nat.two_pow_pos ws.pageShift; dsimp only at hres; omega)
      rw [hadd] at h
      refine ih hf hrest hs (fun page => ?_) h hone
      rw [mapping_bindPending hfb hb, hqt, ← Option.or_assoc, hc.maps_or hfb hva]
    · obtain ⟨pt1, hpt1, h⟩ := bind_eq_ok.mp h
      refine ih hfb hrest hsb (fun page => ?_) h hone
      rw [mapping_bindPending hfb hb, hqt, mapping_bindPending hpending hpt1]

end

/-- If all virtual binds succeed, those of the coalesced binds map each page to the same as one
`virtualBind` for each bind that is not empty, in order. The HIGH addresses of an emulated BO are
those with the control bit. -/
theorem mapping_sparseBufferBindMemory {ws : Ws} {kernel : Kernel} {parent : VirtualBo}
    {pt pt' qt : PageTable} {binds : List SparseMemoryBind} (hkernel : ChecksAddress ws kernel)
    (hva : parent.emulateSparseResidency = true → parent.va.testBit ws.addressPrtWaControlBit = true)
    (hfits : ∀ b ∈ binds, b.Fits ws parent)
    (h : sparseBufferBindMemory ws kernel parent pt binds = .ok pt')
    (hone : binds.foldlM (bindPending ws kernel parent) pt = .ok qt) :
    mapping ws pt' = mapping ws qt := by
  cases binds with
  | nil =>
    cases h
    cases hone
    rfl
  | cons b binds =>
    rw [foldlM_cons, bind_eq_ok] at hone
    obtain ⟨qt1, hb, hone⟩ := hone
    have hfb := hfits b mem_cons_self
    exact mapping_bindLoop hkernel hva hfb (fun b hb => hfits b (mem_cons_of_mem _ hb))
      (starts_of_bindPending hkernel hb) (mapping_bindPending hfb hb) h hone

/-- A kernel that refuses only what is not at a page. -/
def checkingKernel : Kernel where
  vaOp pt op := if 2 ^ 12 ∣ op.addr then .ok (pt.write op) else .error 22
  write_of_ok _ h := by
    split at h
    · exact (Except.ok.inj h).symm
    · cases h

/-- Two neighbouring binds of one memory, and two neighbouring unbinds that take most of them
away. -/
def neighbours : List SparseMemoryBind :=
  [⟨0, 4096, some ⟨0, ⟨5, {}⟩⟩, 0⟩, ⟨4096, 6000, some ⟨0, ⟨5, {}⟩⟩, 4096⟩,
    ⟨4096, 4096, none, 0⟩, ⟨8192, 4096, none, 0⟩]

theorem mapping_sparseBufferBindMemory_neighbours : ∃ pt' qt,
    sparseBufferBindMemory sampleWs checkingKernel ⟨0x100000, 12288, false⟩ (fun _ => none)
      neighbours = .ok pt' ∧
    neighbours.foldlM (bindPending sampleWs checkingKernel ⟨0x100000, 12288, false⟩)
      (fun _ => none) = .ok qt ∧ mapping sampleWs pt' = mapping sampleWs qt := by
  refine ⟨_, _, rfl, rfl, @mapping_sparseBufferBindMemory sampleWs checkingKernel
    ⟨0x100000, 12288, false⟩ _ _ _ neighbours ?_ nofun ?_ rfl rfl⟩
  · intro pt op pt' h
    simp only [checkingKernel] at h
    split_ifs at h with hdvd
    exact hdvd
  · have hall : ∀ b ∈ neighbours,
        b.resourceOffset + b.size + 2 ^ 12 ≤ 2 ^ 64 ∧ b.memoryOffset + b.size < 2 ^ 64 := by decide
    exact fun b hb => ⟨(hall b hb).1, fun _ => (hall b hb).2, nofun⟩

end RadvXclipse.Queue
