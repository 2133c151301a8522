import RadvXclipse.Lib.BitField
import RadvXclipse.Lib.Fold
import RadvXclipse.Util.Math

/-!
# Sparse BOs with emulated residency

Some chips read through an unbound page of a sparse BO in a way that shaders must not see. For such
a BO the winsys keeps two address ranges that differ in one bit: at the HIGH addresses an unbound
page is a PRT page, at the LOW addresses it is a page of one zeroed BO, the null-PRT BO. Binds and
unbinds are made twice, once for each range, and the null-PRT BO is smaller than the ranges it has
to fill, so it is mapped in chunks. The result is that the two ranges stay in step.
-/

namespace RadvXclipse.Winsys.Sparse

open Lib Util Nat

/-! ## The kernel's side -/

/-- A page table entry: the BO (0 for none), the offset in it, and the mapping flags. -/
structure Pte where
  handle : ℕ
  offset : ℕ
  flags : ℕ
deriving DecidableEq, Repr

/-- What each 4096-byte page is mapped to. -/
abbrev PageTable := ℕ → Option Pte

/-- The entry for an address. -/
def PageTable.at (pt : PageTable) (addr : ℕ) : Option Pte := pt (addr / 4096)

inductive VaOpKind
  | map | unmap | clear | replace
deriving DecidableEq, Repr

/-- The arguments of `ac_drm_bo_va_op_raw`. -/
structure VaOp where
  handle : ℕ
  offset : ℕ
  size : ℕ
  addr : ℕ
  flags : ℕ
  ops : VaOpKind
deriving DecidableEq, Repr

/-- The table after the pages of an operation were overwritten. -/
def PageTable.write (pt : PageTable) (op : VaOp) : PageTable := fun page =>
  if op.addr ≤ 4096 * page ∧ 4096 * page < op.addr + op.size then
    some ⟨op.handle, op.offset + (4096 * page - op.addr), op.flags⟩
  else pt page

/-- The kernel: it can refuse any operation, and a MAP or a REPLACE that it accepts overwrites the
pages of the range. -/
structure Kernel where
  vaOp : PageTable → VaOp → Except ℕ PageTable
  write_of_ok {pt pt' : PageTable} {op : VaOp} :
    op.ops = .map ∨ op.ops = .replace → vaOp pt op = .ok pt' → pt' = pt.write op

/-! ## The winsys -/

/-- The BO flags that a mapping depends on. -/
structure BoFlags where
  gl2Bypass : Bool := false
  readOnly : Bool := false
  mtypeDefault : Bool := false
deriving DecidableEq, Repr

/-- What the winsys knows: the bit that tells HIGH from LOW addresses, the page size of the CPU
(`getpagesize`, a power of two of at least a GPU page), the result of `radv_xclipse_mtype` (`none`
for -1), and the null-PRT BO. -/
structure Ws where
  addressPrtWaControlBit : ℕ
  pageShift : ℕ
  mtype : Option (Fin 6)
  gfx9 : Bool
  nullPrtBo : ℕ
  controlBit_lt : addressPrtWaControlBit < 64
  le_controlBit : 12 ≤ addressPrtWaControlBit
  le_pageShift : 12 ≤ pageShift
  pageShift_le : pageShift ≤ 23
  nullPrtBo_ne : nullPrtBo ≠ 0

/-- The size of the null-PRT BO, 8 MiB. -/
def nullPrtSize : ℕ := 8 * 1024 * 1024

def vmPageReadable : ℕ := 1 <<< 1
def vmPageWriteable : ℕ := 1 <<< 2
def vmPageExecutable : ℕ := 1 <<< 3
def vmPagePrt : ℕ := 1 <<< 4

/-- `AMDGPU_VM_MTYPE_*`: default, NC, WC, CC, UC, RW. -/
def vmMtype (mt : ℕ) : ℕ := mt <<< 5

variable (ws : Ws)

/-- The mapping flags of `radv_amdgpu_bo_va_op`. -/
def vaFlags (handle : ℕ) (boFlags : BoFlags) (internalFlags : ℕ) : ℕ :=
  if handle ≠ 0 then
    let mtype :=
      match ws.mtype with
      | some mt => vmMtype mt
      | none =>
        if boFlags.mtypeDefault then 0
        else if boFlags.gl2Bypass && ws.gfx9 then vmMtype 4
        else if ws.gfx9 then vmMtype 3
        else 0
    vmPageReadable ||| vmPageExecutable ||| mtype ||| if boFlags.readOnly then 0 else vmPageWriteable
  else internalFlags

/-- `radv_amdgpu_bo_va_op`, for the callers here, none of which waits for the update. -/
def boVaOp (kernel : Kernel) (pt : PageTable) (handle offset size addr : ℕ)
    (boFlags : BoFlags) (internalFlags : ℕ) (ops : VaOpKind) : Except ℕ PageTable :=
  kernel.vaOp pt
    { handle, offset, size := align64 size (2 ^ ws.pageShift), addr,
      flags := vaFlags ws handle boFlags internalFlags, ops }

/-- `struct radv_amdgpu_winsys_bo` of a virtual BO. -/
structure VirtualBo where
  va : ℕ
  size : ℕ
  emulateSparseResidency : Bool
deriving DecidableEq, Repr

/-- A real BO that can be bound. -/
structure Bo where
  handle : ℕ
  flags : BoFlags := {}
deriving DecidableEq, Repr

/-- `radv_amdgpu_virtual_bo_get_low_addr` -/
def virtualBoGetLowAddr (bo : VirtualBo) : ℕ :=
  ldiff bo.va (1 <<< ws.addressPrtWaControlBit)

/-- The loop of `radv_amdgpu_virtual_bo_bind_low_null_prt`, from the address `addr` on. -/
def bindNullPrtChunks (ws : Ws) (kernel : Kernel) (ops : VaOpKind) (pt : PageTable)
    (addr boSize : ℕ) : Except ℕ PageTable :=
  if boSize = 0 then .ok pt
  else
    (boVaOp ws kernel pt ws.nullPrtBo 0 (min boSize nullPrtSize) addr {} 0 ops).bind fun pt =>
      bindNullPrtChunks ws kernel ops pt (addr + min boSize nullPrtSize)
        (boSize - min boSize nullPrtSize)
termination_by boSize
decreasing_by
  have : 0 < nullPrtSize := by decide
  omega

/-- `radv_amdgpu_virtual_bo_bind_low_null_prt` -/
def virtualBoBindLowNullPrt (kernel : Kernel) (pt : PageTable) (bo : VirtualBo)
    (boOffset boSize : ℕ) (ops : VaOpKind) : Except ℕ PageTable :=
  bindNullPrtChunks ws kernel ops pt (virtualBoGetLowAddr ws bo + boOffset) boSize

/-- `radv_amdgpu_virtual_bo_init_mapping` -/
def virtualBoInitMapping (kernel : Kernel) (pt : PageTable) (bo : VirtualBo) (size : ℕ) :
    Except ℕ PageTable := do
  let pt ← boVaOp ws kernel pt 0 0 size bo.va {} vmPagePrt .map
  if bo.emulateSparseResidency then virtualBoBindLowNullPrt ws kernel pt bo 0 size .map
  else .ok pt

/-- The part of `radv_amdgpu_winsys_virtual_bo_create` after the address range `va` was allocated
and the null-PRT BO exists. -/
def virtualBoCreate (kernel : Kernel) (pt : PageTable) (va size : ℕ)
    (emulateSparseResidency : Bool) : Except ℕ (VirtualBo × PageTable) := do
  let va := if emulateSparseResidency then va ||| 1 <<< ws.addressPrtWaControlBit else va
  let bo : VirtualBo := { va, size, emulateSparseResidency }
  let pt ← virtualBoInitMapping ws kernel pt bo size
  .ok (bo, pt)

/-- `radv_amdgpu_virtual_bo_map` -/
def virtualBoMap (kernel : Kernel) (pt : PageTable) (parent : VirtualBo)
    (offset size : ℕ) (bo : Bo) (boOffset : ℕ) : Except ℕ PageTable := do
  let flags : BoFlags := { gl2Bypass := bo.flags.gl2Bypass }
  let pt ← boVaOp ws kernel pt bo.handle boOffset size (parent.va + offset) flags 0 .replace
  if parent.emulateSparseResidency then
    boVaOp ws kernel pt bo.handle boOffset size (virtualBoGetLowAddr ws parent + offset) flags 0
      .replace
  else .ok pt

/-- `radv_amdgpu_virtual_bo_unmap` -/
def virtualBoUnmap (kernel : Kernel) (pt : PageTable) (parent : VirtualBo)
    (offset size : ℕ) : Except ℕ PageTable := do
  let pt ← boVaOp ws kernel pt 0 0 size (parent.va + offset) {} vmPagePrt .replace
  if parent.emulateSparseResidency then
    virtualBoBindLowNullPrt ws kernel pt parent offset size .replace
  else .ok pt

/-- One call of `radv_amdgpu_winsys_bo_virtual_bind`; without a BO it unbinds. -/
structure VirtualBind where
  offset : ℕ
  size : ℕ
  bo : Option Bo
  boOffset : ℕ := 0
deriving DecidableEq, Repr

/-- `radv_amdgpu_winsys_bo_virtual_bind` -/
def virtualBind (kernel : Kernel) (parent : VirtualBo) (pt : PageTable) (b : VirtualBind) :
    Except ℕ PageTable :=
  match b.bo with
  | some bo => virtualBoMap ws kernel pt parent b.offset b.size bo b.boOffset
  | none => virtualBoUnmap ws kernel pt parent b.offset b.size

/-- A bind of whole pages of the BO, to a real BO if to any. -/
structure VirtualBind.Valid (parent : VirtualBo) (b : VirtualBind) : Prop where
  offset_aligned : 4096 ∣ b.offset
  size_aligned : 4096 ∣ b.size
  inside : b.offset + b.size ≤ parent.size
  handle_ne : ∀ bo, b.bo = some bo → bo.handle ≠ 0

/-! ## One operation -/

section Ops

variable {ws : Ws} {kernel : Kernel} {pt pt' : PageTable}

/-- How many bytes an operation really covers. -/
def covered (ws : Ws) (size : ℕ) : ℕ := alignUp size (2 ^ ws.pageShift)

lemma align64_eq_covered {size : ℕ} (h : size + 2 ^ ws.pageShift ≤ 2 ^ 64) :
    align64 size (2 ^ ws.pageShift) = covered ws size := by
  have hlt := alignUp_lt (Nat.two_pow_pos ws.pageShift) size
  have hshift := ws.pageShift_le
  rw [align64, toNat_alignPot (by omega), covered, mod_eq_of_lt (by omega)]

lemma PageTable.at_write {addr : ℕ} (haddr : 4096 ∣ addr) (op : VaOp) :
    (pt.write op).at addr =
      if op.addr ≤ addr ∧ addr < op.addr + op.size then
        some ⟨op.handle, op.offset + (addr - op.addr), op.flags⟩
      else pt.at addr := by
  rw [PageTable.at, PageTable.write, Nat.mul_div_cancel' haddr, PageTable.at]

/-- An accepted operation, seen from one page. -/
theorem at_boVaOp {handle offset size start internalFlags addr : ℕ} {boFlags : BoFlags}
    {ops : VaOpKind} (hops : ops = .map ∨ ops = .replace) (hsize : size + 2 ^ ws.pageShift ≤ 2 ^ 64)
    (haddr : 4096 ∣ addr)
    (h : boVaOp ws kernel pt handle offset size start boFlags internalFlags ops = .ok pt') :
    pt'.at addr =
      if start ≤ addr ∧ addr < start + covered ws size then
        some ⟨handle, offset + (addr - start), vaFlags ws handle boFlags internalFlags⟩
      else pt.at addr := by
  rw [kernel.write_of_ok hops h, PageTable.at_write haddr, ← align64_eq_covered hsize]

lemma pageSize_dvd_nullPrtSize (ws : Ws) : 2 ^ ws.pageShift ∣ nullPrtSize := by
  exact pow_dvd_pow 2 ws.pageShift_le

/-- The chunks together: the null-PRT BO is mapped over and over. -/
theorem at_bindNullPrtChunks {ops : VaOpKind} (hops : ops = .map ∨ ops = .replace) {addr : ℕ}
    (haddr : 4096 ∣ addr) {start boSize : ℕ} (hsize : boSize + 2 ^ ws.pageShift ≤ 2 ^ 64)
    (h : bindNullPrtChunks ws kernel ops pt start boSize = .ok pt') :
    pt'.at addr =
      if start ≤ addr ∧ addr < start + covered ws boSize then
        some ⟨ws.nullPrtBo, (addr - start) % nullPrtSize, vaFlags ws ws.nullPrtBo {} 0⟩
      else pt.at addr := by
  have hpos : 0 < nullPrtSize := by decide
  have hpage := Nat.two_pow_pos ws.pageShift
  induction boSize using Nat.strongRecOn generalizing pt start with
  | ind boSize ih =>
    rw [bindNullPrtChunks] at h
    by_cases hzero : boSize = 0
    · rw [if_pos hzero] at h
      cases h
      have hnone : covered ws boSize = 0 := by
        rw [hzero]
        exact alignUp_eq_self hpage (dvd_zero _)
      rw [hnone, if_neg (by omega)]
    · rw [if_neg hzero] at h
      obtain ⟨pt1, hchunk, hrest⟩ := bind_eq_ok.mp h
      have hfirst := at_boVaOp hops (by omega) haddr hchunk
      have hlast := ih _ (by omega) (by omega) hrest
      rw [hlast, hfirst]
      rcases le_total boSize nullPrtSize with hle | hge
      · -- the last chunk
        have hcover : covered ws boSize ≤ nullPrtSize :=
          alignUp_le_of_dvd hpage (pageSize_dvd_nullPrtSize ws) hle
        have hnone : covered ws (boSize - boSize) = 0 := by
          rw [Nat.sub_self]
          exact alignUp_eq_self hpage (dvd_zero _)
        rw [min_eq_left hle, hnone, if_neg (by omega)]
        by_cases hin : start ≤ addr ∧ addr < start + covered ws boSize
        · rw [if_pos hin, if_pos hin, mod_eq_of_lt (by omega), zero_add]
        · rw [if_neg hin, if_neg hin]
      · have hfull : covered ws nullPrtSize = nullPrtSize :=
          alignUp_eq_self hpage (pageSize_dvd_nullPrtSize ws)
        have hsplit : covered ws boSize = nullPrtSize + covered ws (boSize - nullPrtSize) := by
          rw [covered, covered, ← alignUp_add_of_dvd hpage (pageSize_dvd_nullPrtSize ws),
            Nat.add_sub_cancel' hge]
        rw [min_eq_right hge, hfull, hsplit]
        by_cases hlow : start ≤ addr ∧ addr < start + nullPrtSize
        · rw [if_neg (by omega), if_pos hlow, if_pos (by omega), mod_eq_of_lt (by omega), zero_add]
        · rw [if_neg hlow]
          by_cases hhigh : start + nullPrtSize ≤ addr ∧
            addr < start + nullPrtSize + covered ws (boSize - nullPrtSize)
          · rw [if_pos hhigh, if_pos (by omega), show addr - start =
              addr - (start + nullPrtSize) + nullPrtSize by omega, add_mod_right]
          · rw [if_neg hhigh, if_neg (by omega)]

end Ops

/-! ## The two address ranges -/

/-- The entries of a page at its HIGH and its LOW address agree: both are the same page of the same
BO, or the page is unbound and the LOW one is a page of the null-PRT BO. -/
inductive InStep (ws : Ws) : Option Pte → Option Pte → Prop
  | bound {high low : Pte} : high.handle ≠ 0 → low.handle = high.handle → low.offset = high.offset →
      InStep ws (some high) (some low)
  | unbound {high low : Pte} : high.handle = 0 → high.flags = vmPagePrt →
      low.handle = ws.nullPrtBo → 4096 ∣ low.offset → low.offset < nullPrtSize →
      InStep ws (some high) (some low)

/-- An emulated BO: its HIGH addresses are its LOW addresses with the control bit set, page-aligned,
and the BO fits below the bit. -/
structure Emulated (ws : Ws) (bo : VirtualBo) : Prop where
  emulate : bo.emulateSparseResidency = true
  va_eq : bo.va = virtualBoGetLowAddr ws bo + 2 ^ ws.addressPrtWaControlBit
  va_aligned : 4096 ∣ bo.va
  room : bo.size + 2 ^ ws.pageShift ≤ 2 ^ ws.addressPrtWaControlBit

/-- All pages of a BO are in step. -/
def AllInStep (ws : Ws) (bo : VirtualBo) (pt : PageTable) : Prop :=
  ∀ i, 4096 * i < bo.size →
    InStep ws (pt.at (bo.va + 4096 * i)) (pt.at (virtualBoGetLowAddr ws bo + 4096 * i))

section Emulated

variable {ws : Ws} {kernel : Kernel} {pt pt' : PageTable} {bo : VirtualBo}

section

variable (h : Emulated ws bo)
include h

lemma Emulated.low_aligned : 4096 ∣ virtualBoGetLowAddr ws bo := by
  have hbit : 4096 ∣ 2 ^ ws.addressPrtWaControlBit := pow_dvd_pow 2 ws.le_controlBit
  exact (Nat.dvd_add_left hbit).mp (h.va_eq ▸ h.va_aligned)

lemma Emulated.page_dvd (i : ℕ) :
    4096 ∣ bo.va + 4096 * i ∧ 4096 ∣ virtualBoGetLowAddr ws bo + 4096 * i :=
  ⟨Nat.dvd_add h.va_aligned (Nat.dvd_mul_right ..), Nat.dvd_add h.low_aligned (Nat.dvd_mul_right ..)⟩

lemma Emulated.room64 : bo.size + 2 ^ ws.pageShift ≤ 2 ^ 64 :=
  h.room.trans (Nat.pow_le_pow_right (by decide) ws.controlBit_lt.le)

/-- A change of both ranges: the HIGH entries of a stretch of pages become `high`, the LOW ones
`low`, in step, and nothing else of the BO changes. -/
theorem Emulated.allInStep {pt1 : PageTable} {offset size : ℕ} (hinside : offset + size ≤ bo.size)
    {high low : ℕ → Pte}
    (hhigh : ∀ addr, 4096 ∣ addr → pt1.at addr =
      if bo.va + offset ≤ addr ∧ addr < bo.va + offset + covered ws size then some (high addr)
      else pt.at addr)
    (hlow : ∀ addr, 4096 ∣ addr → pt'.at addr =
      if virtualBoGetLowAddr ws bo + offset ≤ addr ∧
          addr < virtualBoGetLowAddr ws bo + offset + covered ws size then some (low addr)
      else pt1.at addr)
    (hstep : ∀ i, InStep ws (some (high (bo.va + 4096 * i))) (some (low (virtualBoGetLowAddr ws bo + 4096 * i))))
    (hpt : ∀ i, 4096 * i < bo.size → ¬ (offset ≤ 4096 * i ∧ 4096 * i < offset + covered ws size) →
      InStep ws (pt.at (bo.va + 4096 * i)) (pt.at (virtualBoGetLowAddr ws bo + 4096 * i))) :
    AllInStep ws bo pt' := by
  intro i hi
  obtain ⟨hd, hd'⟩ := h.page_dvd i
  have hcover : covered ws size < size + 2 ^ ws.pageShift := alignUp_lt (Nat.two_pow_pos _) size
  have hva := h.va_eq
  have hroom := h.room
  have hpage := Nat.two_pow_pos ws.pageShift
  -- the LOW range ends below the HIGH one, so neither change touches the other range
  have hkeep : pt'.at (bo.va + 4096 * i) = pt1.at (bo.va + 4096 * i) := by
    rw [hlow _ hd, if_neg (by omega)]
  have hkeep' : pt1.at (virtualBoGetLowAddr ws bo + 4096 * i) =
      pt.at (virtualBoGetLowAddr ws bo + 4096 * i) := by
    rw [hhigh _ hd', if_neg (by omega)]
  rw [hkeep, hhigh _ hd, hlow _ hd', hkeep']
  by_cases hin : offset ≤ 4096 * i ∧ 4096 * i < offset + covered ws size
  · rw [if_pos (by omega), if_pos (by omega)]
    exact hstep i
  · rw [if_neg (by omega), if_neg (by omega)]
    exact hpt i hi hin

end

/-- A page that is unbound, and a page of the null-PRT BO. -/
theorem inStep_null (offset flags : ℕ) {addr : ℕ} (haddr : 4096 ∣ addr) :
    InStep ws (some ⟨0, offset, vmPagePrt⟩) (some ⟨ws.nullPrtBo, addr % nullPrtSize, flags⟩) := by
  have hpos : 0 < nullPrtSize := by decide
  have hdvd : 4096 ∣ nullPrtSize := by decide
  exact .unbound rfl rfl rfl ((dvd_mod_iff hdvd).mpr haddr) (mod_lt _ hpos)

section

variable (h : Emulated ws bo)
include h

/-- The initial mapping. -/
theorem allInStep_init (hinit : virtualBoInitMapping ws kernel pt bo bo.size = .ok pt') :
    AllInStep ws bo pt' := by
  rw [virtualBoInitMapping, bind_eq_ok] at hinit
  obtain ⟨pt1, hmap, hlow⟩ := hinit
  rw [if_pos h.emulate, virtualBoBindLowNullPrt] at hlow
  have hsize := h.room64
  apply h.allInStep (zero_add bo.size).le
    (fun addr hd => at_boVaOp (.inl rfl) hsize hd hmap)
    (fun addr hd => at_bindNullPrtChunks (.inl rfl) hd hsize hlow)
  · intro i
    exact inStep_null _ _ (Nat.dvd_sub (h.page_dvd i).2 h.low_aligned)
  · intro i hi hout
    have hcover : bo.size ≤ covered ws bo.size := le_alignUp (Nat.two_pow_pos _) _
    omega

lemma allInStep_map {offset size boOffset : ℕ} {real : Bo} (hinside : offset + size ≤ bo.size)
    (hreal : real.handle ≠ 0) (hpt : AllInStep ws bo pt)
    (hmap : virtualBoMap ws kernel pt bo offset size real boOffset = .ok pt') :
    AllInStep ws bo pt' := by
  rw [virtualBoMap, bind_eq_ok] at hmap
  obtain ⟨pt1, hhigh, hlow⟩ := hmap
  rw [if_pos h.emulate] at hlow
  have hsize := h.room64
  apply h.allInStep hinside
    (fun addr hd => at_boVaOp (.inr rfl) (by omega) hd hhigh)
    (fun addr hd => at_boVaOp (.inr rfl) (by omega) hd hlow)
  · intro i
    refine .bound hreal rfl ?_
    dsimp only
    omega
  · intro i hi _
    exact hpt i hi

lemma allInStep_unmap {offset size : ℕ} (hinside : offset + size ≤ bo.size)
    (hoffset : 4096 ∣ offset) (hpt : AllInStep ws bo pt)
    (hunmap : virtualBoUnmap ws kernel pt bo offset size = .ok pt') :
    AllInStep ws bo pt' := by
  rw [virtualBoUnmap, bind_eq_ok] at hunmap
  obtain ⟨pt1, hhigh, hlow⟩ := hunmap
  rw [if_pos h.emulate, virtualBoBindLowNullPrt] at hlow
  have hsize := h.room64
  apply h.allInStep hinside
    (fun addr hd => at_boVaOp (.inr rfl) (by omega) hd hhigh)
    (fun addr hd => at_bindNullPrtChunks (.inr rfl) hd (by omega) hlow)
  · intro i
    exact inStep_null _ _ (Nat.dvd_sub (h.page_dvd i).2 (Nat.dvd_add h.low_aligned hoffset))
  · intro i hi _
    exact hpt i hi

/-- One successful bind or unbind. -/
theorem allInStep_virtualBind {b : VirtualBind} (hb : b.Valid bo) (hpt : AllInStep ws bo pt)
    (hbind : virtualBind ws kernel bo pt b = .ok pt') : AllInStep ws bo pt' := by
  unfold virtualBind at hbind
  split at hbind
  · next real hreal => exact allInStep_map h hb.inside (hb.handle_ne real hreal) hpt hbind
  · exact allInStep_unmap h hb.inside hb.offset_aligned hpt hbind

end

/-- A created BO has its HIGH addresses above its LOW ones by the control bit. -/
theorem emulated_of_create {va size : ℕ} (hva : 4096 ∣ va)
    (hsize : size + 2 ^ ws.pageShift ≤ 2 ^ ws.addressPrtWaControlBit)
    (h : virtualBoCreate ws kernel pt va size true = .ok (bo, pt')) :
    bo.size = size ∧ Emulated ws bo ∧ virtualBoInitMapping ws kernel pt bo bo.size = .ok pt' := by
  rw [virtualBoCreate, bind_eq_ok] at h
  obtain ⟨pt1, hinit, h⟩ := h
  cases h
  refine ⟨rfl, ⟨rfl, ?_, ?_, hsize⟩, hinit⟩
  · have hbit : (va ||| 2 ^ ws.addressPrtWaControlBit).testBit ws.addressPrtWaControlBit = true := by
      simp
    simp only [virtualBoGetLowAddr, if_true, one_shiftLeft]
    exact (ldiff_two_pow_add hbit).symm
  · have hbit : 2 ^ 12 ∣ 2 ^ ws.addressPrtWaControlBit := pow_dvd_pow 2 ws.le_controlBit
    have hva : va % 2 ^ 12 = 0 := mod_eq_zero_of_dvd hva
    simp only [if_true, one_shiftLeft]
    apply dvd_of_mod_eq_zero
    rw [show 4096 = 2 ^ 12 by decide, or_mod_two_pow, hva, mod_eq_zero_of_dvd hbit]
    rfl

end Emulated

/-- After its creation and any successful binds and unbinds, overlapping as they may, every page of
an emulated BO is either bound to the same page of the same BO at both addresses, or unbound at its
HIGH address and a page of the null-PRT BO at its LOW address. -/
theorem allInStep_of_run {ws : Ws} {kernel : Kernel} {pt pt1 pt2 : PageTable} {bo : VirtualBo}
    {va size : ℕ} {binds : List VirtualBind} (hva : 4096 ∣ va)
    (hsize : size + 2 ^ ws.pageShift ≤ 2 ^ ws.addressPrtWaControlBit)
    (hcreate : virtualBoCreate ws kernel pt va size true = .ok (bo, pt1))
    (hbinds : ∀ b ∈ binds, b.Valid bo)
    (hrun : binds.foldlM (virtualBind ws kernel bo) pt1 = .ok pt2) : AllInStep ws bo pt2 := by
  obtain ⟨-, hemulated, hinit⟩ := emulated_of_create hva hsize hcreate
  have hstart : AllInStep ws bo pt1 := allInStep_init hemulated hinit
  apply foldlM_invariant hrun hstart
  intro b hb pt pt' hbind hpt
  exact allInStep_virtualBind hemulated (hbinds b hb) hpt hbind

def sampleWs : Ws where
  addressPrtWaControlBit := 47
  pageShift := 12
  mtype := none
  gfx9 := true
  nullPrtBo := 1
  controlBit_lt := by decide
  le_controlBit := by decide
  le_pageShift := by decide
  pageShift_le := by decide
  nullPrtBo_ne := by decide

/-- A kernel that never refuses. -/
def sampleKernel : Kernel where
  vaOp pt op := .ok (pt.write op)
  write_of_ok _ h := (Except.ok.inj h).symm

lemma exists_bindNullPrtChunks (ops : VaOpKind) (pt : PageTable) (addr boSize : ℕ) :
    ∃ pt', bindNullPrtChunks sampleWs sampleKernel ops pt addr boSize = .ok pt' := by
  have hpos : 0 < nullPrtSize := by decide
  induction boSize using Nat.strongRecOn generalizing pt addr with
  | ind boSize ih =>
    rw [bindNullPrtChunks]
    split
    · exact ⟨pt, rfl⟩
    · exact ih _ (by omega) ..

/-- An emulated BO of three chunks and a page. -/
def sampleBo : VirtualBo := ⟨0x100000 ||| 1 <<< 47, 0x1801000, true⟩

/-- Two pages over the end of the first chunk are bound, then two chunks are unbound. -/
theorem allInStep_of_run_sample : ∃ bo pt1 pt2,
    virtualBoCreate sampleWs sampleKernel (fun _ => none) 0x100000 0x1801000 true = .ok (bo, pt1) ∧
    [⟨0x7ff000, 8192, some { handle := 5 }, 4096⟩, ⟨0x800000, 0x1000000, none, 0⟩].foldlM
      (virtualBind sampleWs sampleKernel bo) pt1 = .ok pt2 ∧ AllInStep sampleWs bo pt2 := by
  obtain ⟨pt1, hinit⟩ : ∃ pt1, virtualBoInitMapping sampleWs sampleKernel (fun _ => none) sampleBo
      0x1801000 = .ok pt1 := exists_bindNullPrtChunks ..
  have hcreate : virtualBoCreate sampleWs sampleKernel (fun _ => none) 0x100000 0x1801000 true =
      .ok (sampleBo, pt1) := bind_eq_ok.mpr ⟨pt1, hinit, rfl⟩
  obtain ⟨pt, hbind⟩ : ∃ pt, virtualBind sampleWs sampleKernel sampleBo pt1
      ⟨0x7ff000, 8192, some { handle := 5 }, 4096⟩ = .ok pt := ⟨_, rfl⟩
  obtain ⟨pt2, hunbind⟩ : ∃ pt2, virtualBind sampleWs sampleKernel sampleBo pt
      ⟨0x800000, 0x1000000, none, 0⟩ = .ok pt2 := exists_bindNullPrtChunks ..
  have hrun : [⟨0x7ff000, 8192, some { handle := 5 }, 4096⟩, ⟨0x800000, 0x1000000, none, 0⟩].foldlM
      (virtualBind sampleWs sampleKernel sampleBo) pt1 = .ok pt2 :=
    bind_eq_ok.mpr ⟨pt, hbind, bind_eq_ok.mpr ⟨pt2, hunbind, rfl⟩⟩
  refine ⟨_, pt1, pt2, hcreate, hrun, ?_⟩
  apply allInStep_of_run (by decide) (by decide) hcreate _ hrun
  intro b hb
  rcases List.mem_pair.mp hb with rfl | rfl
  · exact ⟨by decide, by decide, by decide, fun bo hbo => Option.some.inj hbo ▸ by decide⟩
  · exact ⟨by decide, by decide, by decide, fun _ hbo => nomatch hbo⟩

end RadvXclipse.Winsys.Sparse
