import RadvXclipse.Lib.SwapRemove
import RadvXclipse.Util.Math

/-!
# The BO reuse cache of the amdgpu winsys

`radv_amdgpu_bo.c` does not free buffer objects of certain classes but parks them in a
process-wide array, from where later creations take them again. All winsyses of the process share
the array, its byte count and the marker of the winsys that is being torn down.

Threads run concurrently; what one of them does under `radv_xclipse_ibcache_lock`, and each call
into the kernel, is one step. A call of `radv_amdgpu_winsys_bo_create` or
`radv_amdgpu_winsys_bo_destroy` that is under way is a `Call`, the teardown of a winsys a `Stage`.
What the kernel answers is part of the step's label. Left out are what only the kernel reads (heaps
and creation flags, virtual addresses), logging, and BOs that are imported.
-/

namespace RadvXclipse.BoCache

open Lib Util

/-! ## State -/

abbrev WsId := ℕ
abbrev BoId := ℕ

/-- `RADV_XCLIPSE_IBCACHE_BUCKETS`. -/
def ibcacheBuckets : ℕ := 64
/-- `RADV_XCLIPSE_IBCACHE_CAP`. -/
def ibcacheCap : ℕ := 64 <<< 20
/-- `XCLIPSE_MEMGUARD_LIMIT`. -/
def memguardLimit : ℕ := 8192 <<< 20

def domainGtt : BitVec 32 := 2
def domainVram : BitVec 32 := 4
def flagNoCpuAccess : BitVec 32 := 1 <<< 2
def flagVirtual : BitVec 32 := 1 <<< 3
def flagNoInterprocessSharing : BitVec 32 := 1 <<< 6
def flagReplayable : BitVec 32 := 1 <<< 10
def flagEmulateSparseResidency : BitVec 32 := 1 <<< 16
def flagXclipseCacheable : BitVec 32 := 1 <<< 17

/-- `flags & mask`, as a condition. -/
def has (flags mask : BitVec 32) : Bool := flags &&& mask ≠ 0

/-- `struct radv_amdgpu_winsys_bo`. `cpuMap` says whether the BO is mapped. -/
structure Bo where
  isVirtual : Bool
  imported : Bool
  size : ℕ
  flags : BitVec 32
  initialDomain : BitVec 32
  vramNoCpuAccess : Bool
  emulateSparseResidency : Bool
  xclipseAlignment : ℕ
  priority : ℕ
  cpuMap : Bool
deriving DecidableEq

/-- `struct radv_xclipse_ibcache_entry`. -/
structure Entry where
  bo : BoId
  ws : WsId
  size : ℕ
  alignment : ℕ
  flags : BitVec 32
  domain : BitVec 32
deriving DecidableEq

/-- The counters of `struct radv_amdgpu_alloc_tracker`. -/
structure Tracker where
  allocatedVram : ℕ
  allocatedVramVis : ℕ
  allocatedGtt : ℕ

/-- The fields of a winsys that creation and destruction read. -/
structure Winsys where
  gfx11ShaderCore : Bool
  vramSizeKb : ℕ
  gartPageSize : ℕ
  tracker : ℕ

/-- The arguments of `radv_amdgpu_winsys_bo_create`. -/
structure Request where
  size : ℕ
  alignment : ℕ
  domain : BitVec 32
  flags : BitVec 32
  priority : ℕ
  replayAddress : ℕ
deriving DecidableEq

/-- What all threads share: the static variables of `radv_amdgpu_bo.c`, the BO objects (those below
`nextBo` were allocated, those in `freed` are gone) and the allocation trackers. -/
structure Process where
  ibcache : List Entry
  ibcacheBytes : ℕ
  dying : Option WsId
  bo : BoId → Bo
  nextBo : BoId
  freed : List BoId
  tracker : ℕ → Tracker

/-! ## The cache -/

/-- `radv_xclipse_ibcache_cacheable`. -/
def ibcacheCacheable (bo : Bo) : Bool :=
  if bo.isVirtual || bo.imported then false
  else if !has bo.flags flagNoInterprocessSharing then false
  else if !has bo.flags flagXclipseCacheable then false
  else if has bo.flags (flagVirtual ||| flagReplayable) then false
  else if bo.emulateSparseResidency then false
  else true

variable (s : Process)

/-- `radv_xclipse_ibcache_park`. -/
def ibcachePark (ws : WsId) (b : BoId) (alignment : ℕ) : Bool × Process :=
  let bo := s.bo b
  if !ibcacheCacheable bo then (false, s)
  else if s.dying = some ws then (false, s)
  else if s.ibcache.length ≥ ibcacheBuckets ∨ add64 s.ibcacheBytes bo.size > ibcacheCap then (false, s)
  else
    let heap := if bo.cpuMap then Function.update s.bo b { bo with cpuMap := false } else s.bo
    let e : Entry := { bo := b, ws := ws, size := bo.size, alignment := alignment,
                       flags := bo.flags, domain := bo.initialDomain }
    (true, { s with
      bo := heap
      ibcache := s.ibcache ++ [e]
      ibcacheBytes := add64 s.ibcacheBytes bo.size })

/-- The loop over the entries in `radv_xclipse_ibcache_reuse` and `radv_xclipse_ibcache_purge_ws`:
the first entry that satisfies `p` leaves the array. -/
def ibcacheTake (p : Entry → Bool) : Option BoId × Process :=
  match swapTake p s.ibcache with
  | some (e, rest) => (some e.bo, { s with ibcache := rest, ibcacheBytes := sub64 s.ibcacheBytes e.size })
  | none => (none, s)

/-- The downgrade of VRAM to GTT. -/
def normaliseDomain (w : Winsys) (domain : BitVec 32) : BitVec 32 :=
  if w.vramSizeKb = 0 ∧ has domain domainVram then (domain &&& ~~~domainVram) ||| domainGtt else domain

/-- `radv_xclipse_ibcache_reuse`. -/
def ibcacheReuse (w : Winsys) (ws : WsId) (size alignment : ℕ)
    (domain flags : BitVec 32) : Option BoId × Process :=
  if !has flags flagXclipseCacheable || !has flags flagNoInterprocessSharing then (none, s)
  else
    let domain := normaliseDomain w domain
    ibcacheTake s fun e => e.ws = ws ∧ e.size = size ∧ e.alignment = alignment ∧ e.flags = flags ∧
      e.domain = domain

/-! ## Creating and freeing BOs -/

/-- `xclipse_memguard_reject`; `sysfs` is the value read from the file, if it can be read. -/
def memguardReject (w : Winsys) (size : ℕ) (sysfs : Option ℕ) : Bool :=
  if !w.gfx11ShaderCore || size < 2 <<< 20 then false
  else add64 (sysfs.getD (s.tracker w.tracker).allocatedGtt) size > memguardLimit

/-- The trackers change by the page-aligned size of the BO, up or down. -/
def trackBo (w : Winsys) (bo : Bo) (change : ℕ → ℕ → ℕ) : Process :=
  let n := align64 bo.size w.gartPageSize
  let t := s.tracker w.tracker
  let t :=
    if has bo.initialDomain domainVram then
      if bo.vramNoCpuAccess then { t with allocatedVram := change t.allocatedVram n }
      else { t with allocatedVramVis := change t.allocatedVramVis n }
    else t
  let t :=
    if has bo.initialDomain domainGtt then { t with allocatedGtt := change t.allocatedGtt n } else t
  { s with tracker := Function.update s.tracker w.tracker t }

/-- The BO object that `radv_amdgpu_winsys_bo_create` fills in. -/
def newBo (w : Winsys) (r : Request) : Bo :=
  let domain := normaliseDomain w r.domain
  { isVirtual := false, imported := false, size := r.size, flags := r.flags, initialDomain := domain,
    vramNoCpuAccess := has r.flags flagNoCpuAccess && has domain domainVram,
    emulateSparseResidency := false, xclipseAlignment := r.alignment, priority := r.priority,
    cpuMap := false }

/-- The BO object of `radv_amdgpu_winsys_virtual_bo_create`, which leaves the other fields zero. -/
def newVirtualBo (r : Request) : Bo :=
  { isVirtual := true, imported := false, size := r.size, flags := 0, initialDomain := 0,
    vramNoCpuAccess := false, emulateSparseResidency := has r.flags flagEmulateSparseResidency,
    xclipseAlignment := 0, priority := 0, cpuMap := false }

/-- A BO object is allocated. -/
def Process.addBo (bo : Bo) : Process :=
  { s with bo := Function.update s.bo s.nextBo bo, nextBo := s.nextBo + 1 }

/-- `radv_amdgpu_winsys_bo_destroy` after the cache has refused the BO. -/
def boFree (w : Winsys) (b : BoId) : Process :=
  let bo := s.bo b
  let s := if bo.isVirtual then s else trackBo s w bo sub64
  { s with freed := b :: s.freed }

end RadvXclipse.BoCache
