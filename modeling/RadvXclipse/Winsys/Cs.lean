import RadvXclipse.Lib.SwapRemove
import RadvXclipse.Util.Math

/-!
# Command streams of the amdgpu winsys

The recording side of `radv_amdgpu_cs.c`. A command stream (`Cs`) writes dwords into the CPU
mapping of its current indirect buffer (IB); when the buffer is full `csGrow` finalizes it,
allocates the next one and links the two with a chaining `INDIRECT_BUFFER` packet in the last
four dwords. The size field of that packet is only known when the next IB is finalized, so the
stream keeps a pointer to it (`ibSizePtr`).

Buffer objects (BOs) live in the winsys (`Ws.bos`) and are shared by all streams. A mapping is
named by its BO. What the kernel decides (whether a BO is created, where it is placed, what it
contains) is an argument of the operation. Two ghost flags record what C leaves undefined: a
store outside the mapped dwords, and a decrement of `num_ib_buffers` below zero.
-/

namespace RadvXclipse.RadvAmdgpu

open Lib Util

/-! ## Packets -/

/-- `PKT_TYPE_S`. -/
def pktTypeS (x : BitVec 32) : BitVec 32 := (x &&& 0x3) <<< 30
/-- `PKT_COUNT_S`. -/
def pktCountS (x : BitVec 32) : BitVec 32 := (x &&& 0x3FFF) <<< 16
/-- `PKT_COUNT_G`. -/
def pktCountG (x : BitVec 32) : BitVec 32 := (x >>> 16) &&& 0x3FFF
/-- `PKT3_IT_OPCODE_S`. -/
def pkt3ItOpcodeS (x : BitVec 32) : BitVec 32 := (x &&& 0xFF) <<< 8
/-- `PKT3_PREDICATE`. -/
def pkt3Predicate (x : BitVec 32) : BitVec 32 := x &&& 0x1

/-- `PKT3`: a type-3 packet header. -/
def pkt3 (op count predicate : BitVec 32) : BitVec 32 :=
  pktTypeS 3 ||| pktCountS count ||| pkt3ItOpcodeS op ||| pkt3Predicate predicate

def pkt3Nop : BitVec 32 := 0x10
def pkt3IndirectBuffer : BitVec 32 := 0x3F
/-- `PKT2_NOP_PAD`. -/
def pkt2NopPad : BitVec 32 := pktTypeS 2
/-- `PKT3_NOP_PAD`: the header-only NOP. -/
def pkt3NopPad : BitVec 32 := pkt3 pkt3Nop 0x3fff 0
/-- `SDMA_NOP_PAD`. -/
def sdmaNopPad : BitVec 32 := 0

/-- `G_3F3_IB_SIZE`: the size field of `IB_CONTROL`, its low 20 bits. -/
def ibSizeG (control : BitVec 32) : BitVec 32 := control &&& 0xFFFFF
/-- `G_3F3_CHAIN`: bit 20 of `IB_CONTROL`. -/
def ibChainG (control : BitVec 32) : BitVec 32 := (control >>> 20) &&& 1
/-- `S_3F3_CHAIN(1) | S_3F3_VALID(1)`. -/
def ibChainValid : BitVec 32 := (1 <<< 20) ||| (1 <<< 23)
/-- `S_3F3_PRE_ENA`. -/
def ibPreEnaS (preEna : Bool) : BitVec 32 := if preEna then 1 <<< 21 else 0
/-- `~C_3F3_IB_SIZE`. -/
def ibSizeMax : ℕ := 0xFFFFF

/-! ## Device information -/

/-- `enum amd_ip_type`. -/
inductive IpType
  | gfx | compute | sdma | uvd | vce | uvdEnc | vcnDec | vcnEnc | vcnJpeg | vpe
deriving DecidableEq, Repr

/-- `ac_ip_type_dw_padding_minus_1`, the source of `ib_pad_dw_mask`. -/
def ipTypeDwPaddingMinus1 : IpType → ℕ
  | .gfx => 0x7
  | .compute => 0x7
  | .sdma => 0xf
  | .uvd => 0xf
  | .vce => 0x3f
  | .uvdEnc => 0x3f
  | .vcnDec => 0xf
  | .vcnEnc => 0x3f
  | .vcnJpeg => 0xf
  | .vpe => 0xf

/-- Where a BO is placed. -/
inductive BoDomain
  | vram | gtt
deriving DecidableEq, Repr

/-- The fields of `radeon_info` and of the winsys that the command streams read.
`ib_alignment` is the maximum of 256 and two alignments the kernel reports; `align` asserts that
it is a power of two, and the kernel reports at most a few KiB. -/
structure Info where
  gfx6 : Bool
  gfx8Plus : Bool
  gfxIbPadWithType2 : Bool
  gfx11ShaderCore : Bool
  canChainIb2 : Bool
  /-- `ws->chain_ib`. -/
  chainIb : Bool
  /-- `radv_amdgpu_cs_domain`. -/
  csDomain : BoDomain
  ibAlignment : IpType → ℕ
  ibAlignment_pot : ∀ ip, ∃ k, 8 ≤ k ∧ k ≤ 21 ∧ ibAlignment ip = 2 ^ k

/-! ## State -/

abbrev BoId := ℕ
abbrev CsId := ℕ

/-- A buffer object: its GPU address, byte size, dwords and the attributes it was created with. -/
structure Bo where
  va : BitVec 64
  size : ℕ
  dw : ℕ → BitVec 32
  handle : ℕ
  isVirtual : Bool
  isLocal : Bool
  priority : ℕ
  alignment : ℕ
  domain : BoDomain
  gttWc : Bool

inductive VkResult
  | success | errorOutOfHostMemory | errorOutOfDeviceMemory
deriving DecidableEq, Repr

/-- `struct radv_amdgpu_ib`. -/
structure Ib where
  bo : BoId
  va : BitVec 64
  cdw : ℕ

/-- `unsigned *ib_size_ptr`: the stream's own `ib.size`, or dword `idx` of a mapped BO. -/
inductive SizePtr
  | ibSize
  | dword (bo : BoId) (idx : ℕ)
deriving DecidableEq, Repr

/-- `handles` and `buffer_hash_table`; an empty slot is `-1` in the source. -/
structure BufferList where
  handles : List (ℕ × ℕ)
  hashTable : ℕ → Option ℕ

/-- `struct radv_amdgpu_cs`, with `struct ac_cmdbuf base` inlined. `buf` and `ibMapped` name the
BO whose mapping they point to, `none` is `NULL`; the length of `ibBuffers` is
`num_ib_buffers`. -/
structure Cs where
  cdw : ℕ
  maxDw : ℕ
  reservedDw : ℕ
  buf : Option BoId
  ibMcAddress : BitVec 64
  ibSize : BitVec 32
  ibBuffer : Option BoId
  ibMapped : Option BoId
  ibBuffers : List Ib
  ibSizePtr : SizePtr
  status : VkResult
  chainedTo : Option CsId
  chainIb : Bool
  isSecondary : Bool
  hwIp : IpType
  buffers : BufferList

/-- The winsys: the live BOs, the IB cache (`ib_cache.entries`), and the ghost flags. -/
structure Ws where
  bos : BoId → Option Bo
  ibCache : List (BoId × ℕ)
  badStore : Bool
  badRestore : Bool

/-- A stream together with the winsys it works on. -/
structure St where
  ws : Ws
  cs : Cs

/-! ## Memory -/

/-- `buf[idx] = v` through the mapping of a BO. -/
def Ws.store (ws : Ws) (buf : Option BoId) (idx : ℕ) (v : BitVec 32) : Ws :=
  match buf.bind fun b => (ws.bos b).map fun bo => (b, bo) with
  | some (b, bo) =>
    if 4 * idx + 4 ≤ bo.size then
      { ws with bos := Function.update ws.bos b (some { bo with dw := Function.update bo.dw idx v }) }
    else { ws with badStore := true }
  | none => { ws with badStore := true }

/-- Dword `idx` of a BO. -/
def Ws.load (ws : Ws) (b : BoId) (idx : ℕ) : BitVec 32 :=
  match ws.bos b with
  | some bo => bo.dw idx
  | none => 0

/-- The address `bo->va`. -/
def Ws.boVa (ws : Ws) (b : Option BoId) : BitVec 64 :=
  match b.bind ws.bos with
  | some bo => bo.va
  | none => 0

/-- `buffer_destroy`. -/
def Ws.bufferDestroy (ws : Ws) (b : Option BoId) : Ws :=
  match b with
  | some b => { ws with bos := Function.update ws.bos b none }
  | none => ws

variable (s : St)

/-- `*ib_size_ptr`. -/
def St.readSizePtr : BitVec 32 :=
  match s.cs.ibSizePtr with
  | .ibSize => s.cs.ibSize
  | .dword b idx => s.ws.load b idx

/-- `*ib_size_ptr |= v`. -/
def St.orSizePtr (v : BitVec 32) : St :=
  match s.cs.ibSizePtr with
  | .ibSize => { s with cs := { s.cs with ibSize := s.cs.ibSize ||| v } }
  | .dword b idx => { s with ws := s.ws.store (some b) idx (s.ws.load b idx ||| v) }

/-! ## The buffer list -/

/-- `radv_amdgpu_cs_find_buffer`. -/
def csFindBuffer (l : BufferList) (bo : ℕ) : Option ℕ × BufferList :=
  match l.hashTable (bo % 1024) with
  | none => (none, l)
  | some index =>
    if (l.handles.getD index (0, 0)).1 = bo then (some index, l)
    else
      match l.handles.findIdx? fun h => h.1 = bo with
      | some i => (some i, { l with hashTable := Function.update l.hashTable (bo % 1024) (some i) })
      | none => (none, l)

/-- `radv_amdgpu_cs_add_buffer_internal`, its `realloc` succeeding. -/
def csAddBufferInternal (l : BufferList) (bo priority : ℕ) : BufferList :=
  match csFindBuffer l bo with
  | (some _, l) => l
  | (none, l) =>
    { handles := l.handles ++ [(bo, priority)],
      hashTable := Function.update l.hashTable (bo % 1024) (some l.handles.length) }

/-- `radv_amdgpu_cs_add_buffer`. -/
def csAddBuffer (b : Option BoId) : St :=
  match b.bind s.ws.bos with
  | some bo =>
    if s.cs.status ≠ .success then s
    else if bo.isVirtual then s
    else if bo.isLocal then s
    else { s with cs := { s.cs with buffers := csAddBufferInternal s.cs.buffers bo.handle bo.priority } }
  | none => s

/-! ## NOPs and padding -/

/-- `radeon_emit_unchecked`. -/
def radeonEmitUnchecked (value : BitVec 32) : St :=
  { ws := s.ws.store s.cs.buf s.cs.cdw value, cs := { s.cs with cdw := s.cs.cdw + 1 } }

variable (info : Info)

/-- `get_nop_packet`. -/
def getNopPacket : IpType → BitVec 32
  | .gfx | .compute => if info.gfxIbPadWithType2 then pkt2NopPad else pkt3NopPad
  | .sdma => if info.gfx6 then 0xF0000000 else sdmaNopPad
  | .uvd | .uvdEnc => pkt2NopPad
  | .vcnDec => 0x81FF
  | .vcnEnc => 0
  | .vce | .vcnJpeg | .vpe => 0

variable (s : St)

/-- `radv_amdgpu_cs_emit_pkt3_nop`: only the header is stored, the body is skipped over. -/
def csEmitPkt3Nop (numDw : ℕ) : St :=
  let s := radeonEmitUnchecked s (pkt3 pkt3Nop (BitVec.ofNat 32 (numDw - 2)) 0)
  { s with cs := { s.cs with cdw := s.cs.cdw + (numDw - 1) } }

/-- The loop of `radv_amdgpu_cs_emit_nops` for NOPs of one dword. -/
def emitNopLoop (nop : BitVec 32) : ℕ → St → St
  | 0, s => s
  | n + 1, s => emitNopLoop nop n (radeonEmitUnchecked s nop)

/-- `radv_amdgpu_cs_emit_nops`. -/
def csEmitNops (numDw : ℕ) : St :=
  if numDw = 0 then s
  else if numDw > 1 ∧ (s.cs.hwIp = .gfx ∨ s.cs.hwIp = .compute) then csEmitPkt3Nop s numDw
  else emitNopLoop (getNopPacket info s.cs.hwIp) numDw s

/-- `radv_amdgpu_winsys_cs_pad`. -/
def winsysCsPad (leaveDwSpace : ℕ) : St :=
  if s.cs.hwIp = .vcnEnc then s
  else if s.cs.hwIp = .uvd ∧ s.cs.cdw = 0 then s
  else
    let padDwMask := ipTypeDwPaddingMinus1 s.cs.hwIp
    let unalignedDw := (s.cs.cdw + leaveDwSpace) &&& padDwMask
    if unalignedDw ≠ 0 then csEmitNops info s (padDwMask + 1 - unalignedDw)
    else if s.cs.cdw = 0 ∧ leaveDwSpace = 0 then csEmitNops info s (padDwMask + 1)
    else s

/-! ## Finalizing and growing -/

/-- `radv_amdgpu_cs_add_ib_buffer`, its `realloc` succeeding. -/
def csAddIbBuffer (bo : BoId) (va : BitVec 64) (cdw : ℕ) : St :=
  { s with cs := { s.cs with ibBuffers := s.cs.ibBuffers ++ [⟨bo, va, cdw⟩] } }

/-- The padding half of `radv_amdgpu_cs_finalize`. -/
def csClose : St :=
  if s.cs.chainIb then
    let s := winsysCsPad info s 4
    let s := csEmitNops info s 4
    s.orSizePtr (BitVec.ofNat 32 s.cs.cdw)
  else winsysCsPad info s 0

/-- `radv_amdgpu_cs_finalize`. -/
def csFinalize : St :=
  let s := csClose info s
  let cdw := if s.cs.chainIb then (ibSizeG s.readSizePtr).toNat else s.cs.cdw
  let s := csAddIbBuffer s (s.cs.ibBuffer.getD 0) (s.ws.boVa s.cs.ibBuffer) cdw
  { s with cs := { s.cs with ibBuffer := none, chainedTo := none } }

/-- `radv_amdgpu_restore_last_ib`. -/
def restoreLastIb : St :=
  match s.cs.ibBuffers.getLast? with
  | some ib =>
    { s with cs := { s.cs with ibBuffers := s.cs.ibBuffers.dropLast, ibBuffer := some ib.bo } }
  | none => { s with ws := { s.ws with badRestore := true } }

/-- What the kernel gives for a successful `buffer_create`: a new BO, its address and whatever
its memory holds. -/
structure NewBo where
  id : BoId
  va : BitVec 64
  dw : ℕ → BitVec 32
  handle : ℕ

/-- The loop of `radv_xclipse_ib_cache_get`: the first entry of exactly this size, with the last
entry moved into its slot. -/
def ibCacheGet (entries : List (BoId × ℕ)) (size : ℕ) : Option (BoId × List (BoId × ℕ)) :=
  match entries.findIdx? fun e => e.2 = size with
  | some i => some ((entries.getD i (0, 0)).1, swapRemove entries i)
  | none => none

/-- `radv_xclipse_ib_cache_put`: parks the BO while there is room. -/
def ibCachePut (entries : List (BoId × ℕ)) (bo : BoId) (size : ℕ) : Option (List (BoId × ℕ)) :=
  if entries.length < 64 then some (entries ++ [(bo, size)]) else none

/-- The BO that `radv_amdgpu_cs_bo_create` asks `buffer_create` for. -/
def csNewBo (cs : Cs) (ibSize : ℕ) (n : NewBo) : Bo :=
  let canAlwaysUseIb2 := info.gfx8Plus && cs.hwIp = .gfx
  let avoidVram := cs.isSecondary && !canAlwaysUseIb2
  { va := n.va, size := ibSize, dw := n.dw, handle := n.handle, isVirtual := false,
    isLocal := true, priority := 31, alignment := info.ibAlignment cs.hwIp,
    domain := if avoidVram then .gtt else info.csDomain, gttWc := !avoidVram }

/-- `radv_amdgpu_cs_bo_create`. `create` is the outcome of `buffer_create`, if it is called. -/
def csBoCreate (ibSize : ℕ) (create : Option NewBo) : VkResult × St :=
  let cached := if info.gfx11ShaderCore then ibCacheGet s.ws.ibCache ibSize else none
  match cached with
  | some (b, rest) =>
    (.success, { ws := { s.ws with ibCache := rest }, cs := { s.cs with ibBuffer := some b } })
  | none =>
    match create with
    | some n =>
      (.success, { ws := { s.ws with
                     bos := Function.update s.ws.bos n.id (some (csNewBo info s.cs ibSize n)) },
                   cs := { s.cs with ibBuffer := some n.id } })
    | none => (.errorOutOfDeviceMemory, { s with cs := { s.cs with ibBuffer := none } })

/-- The IB size `radv_amdgpu_cs_grow` asks for, in bytes. -/
def growIbSize (cs : Cs) (minSize : ℕ) : ℕ :=
  align (min (max ((minSize * 4 + 16) % 2 ^ 64) (cs.maxDw * 4 * 2 % 2 ^ 32)) ibSizeMax)
    (info.ibAlignment cs.hwIp)

/-- The four stores that turn the last dwords of an IB into a chaining packet. -/
def Ws.storeLink (ws : Ws) (buf : Option BoId) (cdw : ℕ) (va : BitVec 64) (control : BitVec 32) :
    Ws :=
  let ws := ws.store buf (sub32 cdw 4) (pkt3 pkt3IndirectBuffer 2 0)
  let ws := ws.store buf (sub32 cdw 3) (va.setWidth 32)
  let ws := ws.store buf (sub32 cdw 2) ((va >>> 32).setWidth 32)
  ws.store buf (sub32 cdw 1) control

/-- The finalized IB is linked to the new one. -/
def linkNewIb : St :=
  { ws := s.ws.storeLink s.cs.buf s.cs.cdw (s.ws.boVa s.cs.ibBuffer) ibChainValid,
    cs := { s.cs with ibSizePtr := .dword (s.cs.buf.getD 0) (sub32 s.cs.cdw 1) } }

/-- `radv_amdgpu_cs_grow` after `radv_amdgpu_cs_bo_create`, from its result on. -/
def growTail (ibSize : ℕ) (result : VkResult) (mapOk : Bool) (s : St) : St :=
  let s :=
    if result ≠ .success then
      restoreLastIb { s with cs := { s.cs with cdw := 0, status := .errorOutOfDeviceMemory } }
    else s
  let s := { s with cs := { s.cs with ibMapped := if mapOk then s.cs.ibBuffer else none } }
  let s :=
    if s.cs.ibMapped.isNone then
      restoreLastIb { ws := s.ws.bufferDestroy s.cs.ibBuffer,
                      cs := { s.cs with cdw := 0, status := .errorOutOfDeviceMemory } }
    else s
  let s := csAddBuffer s s.cs.ibBuffer
  let s := if s.cs.chainIb then linkNewIb s else s
  { s with cs := { s.cs with buf := s.cs.ibMapped, cdw := 0, reservedDw := 0,
                             maxDw := ibSize / 4 - 4 } }

/-- `radv_amdgpu_cs_grow`, for an outcome of the BO creation and of the mapping. -/
def csGrow (minSize : ℕ) (create : Option NewBo) (mapOk : Bool) : St :=
  if s.cs.status ≠ .success then { s with cs := { s.cs with cdw := 0 } }
  else
    let s := csFinalize info s
    let ibSize := growIbSize info s.cs minSize
    let (result, s) := csBoCreate info s ibSize create
    growTail ibSize result mapOk s

/-! ## Creation, emission, reset and chaining -/

/-- `radv_amdgpu_cs_get_initial_size`. -/
def csGetInitialSize (ip : IpType) : ℕ := align (20 * 1024 * 4) (info.ibAlignment ip)

/-- `radv_amdgpu_cs_create`, with `radv_amdgpu_cs_get_new_ib` inlined; `none` when the BO cannot
be created or mapped. -/
def csCreate (ws : Ws) (ip : IpType) (isSecondary : Bool) (create : Option NewBo)
    (mapOk : Bool) : Option St :=
  let ibSize := csGetInitialSize info ip
  let chainIb := info.chainIb && (ip = .gfx || ip = .compute) && !(isSecondary && !info.canChainIb2)
  let cs : Cs :=
    { cdw := 0, maxDw := 0, reservedDw := 0, buf := none, ibMcAddress := 0, ibSize := 0,
      ibBuffer := none, ibMapped := none, ibBuffers := [], ibSizePtr := .ibSize,
      status := .success, chainedTo := none, chainIb := chainIb, isSecondary := isSecondary,
      hwIp := ip, buffers := ⟨[], fun _ => none⟩ }
  let (result, s) := csBoCreate info ⟨ws, cs⟩ ibSize create
  if result ≠ .success then none
  else if !mapOk then none
  else
    let s := { s with cs := { s.cs with
      ibMapped := s.cs.ibBuffer, ibMcAddress := s.ws.boVa s.cs.ibBuffer, buf := s.cs.ibBuffer,
      maxDw := ibSize / 4 - 4 } }
    some (csAddBuffer s s.cs.ibBuffer)

/-- `radeon_check_space`. -/
def radeonCheckSpace (needed : ℕ) (create : Option NewBo) (mapOk : Bool) :
    St :=
  let s := if sub32 s.cs.maxDw s.cs.cdw < needed then csGrow info s needed create mapOk else s
  { s with cs := { s.cs with reservedDw := max s.cs.reservedDw ((s.cs.cdw + needed) % 2 ^ 32) } }

/-- The loop of `radv_amdgpu_cs_reset` over the chained IBs. -/
def resetIbs (info : Info) : List Ib → Ws → Ws
  | [], ws => ws
  | ib :: rest, ws =>
    let parked := if info.gfx11ShaderCore then
        ibCachePut ws.ibCache ib.bo (((ws.bos ib.bo).map Bo.size).getD 0) else none
    match parked with
    | some entries => resetIbs info rest { ws with ibCache := entries }
    | none => resetIbs info rest (ws.bufferDestroy (some ib.bo))

/-- `radv_amdgpu_cs_reset`. -/
def csReset : St :=
  let s := { s with cs := { s.cs with
    cdw := 0, reservedDw := 0, status := .success,
    buffers := { handles := [], hashTable := fun h =>
      if s.cs.buffers.handles.any fun e => e.1 % 1024 = h then none
      else s.cs.buffers.hashTable h } } }
  let s := if s.cs.ibBuffer.isNone then restoreLastIb s else s
  let s := csAddBuffer s s.cs.ibBuffer
  let ws := resetIbs info s.cs.ibBuffers s.ws
  { ws := ws,
    cs := { s.cs with ibBuffers := [], ibMcAddress := ws.boVa s.cs.ibBuffer, ibSize := 0,
                      ibSizePtr := if s.cs.chainIb then .ibSize else s.cs.ibSizePtr } }

/-- `radv_amdgpu_cs_unchain`. -/
def csUnchain : St :=
  if s.cs.chainedTo.isNone then s
  else { ws := s.ws.store s.cs.buf (sub32 s.cs.cdw 4) (pkt3 pkt3Nop 2 0),
         cs := { s.cs with chainedTo := none } }

/-- `radv_amdgpu_cs_chain`; `false` when the stream cannot chain. -/
def csChain (next : CsId) (nextCs : Cs) (preEna : Bool) : Bool × St :=
  if !s.cs.chainIb then (false, s)
  else
    let control := ibChainValid ||| ibPreEnaS preEna ||| nextCs.ibSize
    (true, { ws := s.ws.storeLink s.cs.buf s.cs.cdw nextCs.ibMcAddress control,
             cs := { s.cs with chainedTo := some next } })

/-! ## Secondary streams and generated commands -/

/-- The IBs that a stream is submitted with, or executed by as IB2s: the first one leads to the
others when they are chained. -/
def Cs.submitted (cs : Cs) : List Ib := if cs.chainIb then cs.ibBuffers.take 1 else cs.ibBuffers

/-- `memcpy(buf + pos, src, 4 * n)` from one mapping to another. -/
def Ws.memcpy (ws : Ws) (buf : Option BoId) (pos : ℕ) (src : BoId) (n : ℕ) : Ws :=
  match buf.bind fun b => (ws.bos b).map fun bo => (b, bo) with
  | some (b, bo) =>
    match ws.bos src with
    | some from_ =>
      if 4 * (pos + n) ≤ bo.size ∧ 4 * n ≤ from_.size then
        { ws with bos := Function.update ws.bos b (some { bo with
            dw := fun i => if pos ≤ i ∧ i < pos + n then from_.dw (i - pos) else bo.dw i }) }
      else { ws with badStore := true }
    | none => { ws with badStore := true }
  | none => { ws with badStore := true }

/-- `ac_emit_cp_indirect_buffer`. -/
def emitCpIndirectBuffer (va : BitVec 64) (cdw : ℕ) (chain valid predicate : Bool) : St :=
  let flags : BitVec 32 := (if chain then 1 <<< 20 else 0) ||| (if valid then 1 <<< 23 else 0)
  let s := radeonEmitUnchecked s (pkt3 pkt3IndirectBuffer 2 (if predicate then 1 else 0))
  let s := radeonEmitUnchecked s (va.setWidth 32)
  let s := radeonEmitUnchecked s ((va >>> 32).setWidth 32)
  radeonEmitUnchecked s (BitVec.ofNat 32 cdw ||| flags)

/-- Both ways of executing a stream first make room for `n` dwords in the parent. -/
def csMakeRoom (n : ℕ) (create : Option NewBo) (mapOk : Bool) : St :=
  let s := if s.cs.cdw + n > s.cs.maxDw then csGrow info s n create mapOk else s
  { s with cs := { s.cs with reservedDw := max s.cs.reservedDw (s.cs.cdw + n) } }

/-- One round of `radv_amdgpu_cs_emit_secondary_ib2`. -/
def emitIb2 (ib : Ib) (create : Option NewBo) (mapOk : Bool) : St :=
  emitCpIndirectBuffer (csMakeRoom info s 4 create mapOk) ib.va ib.cdw false false false

/-- One round of the copying loop of `radv_amdgpu_cs_execute_secondary`, for `n` dwords of the BO
`src` of the child; `mapped` says whether that BO can be mapped. -/
def copyIb (src : BoId) (n : ℕ) (create : Option NewBo) (mapOk mapped : Bool) : St :=
  let s := csMakeRoom info s n create mapOk
  if mapped then
    { ws := s.ws.memcpy s.cs.buf s.cs.cdw src n, cs := { s.cs with cdw := s.cs.cdw + n } }
  else { s with cs := { s.cs with status := .errorOutOfDeviceMemory } }

/-- The loop of `radv_amdgpu_cs_emit_secondary_ib2`. `news` are the BOs that the kernel gives to
the parent when it grows. -/
def emitIb2s (info : Info) : List Ib → (ℕ → NewBo) → St → St
  | [], _, s => s
  | ib :: ibs, news, s =>
    emitIb2s info ibs (fun i => news (i + 1)) (emitIb2 info s ib (some (news 0)) true)

/-- `radv_amdgpu_cs_emit_secondary_ib2`. -/
def csEmitSecondaryIb2 (child : Cs) (news : ℕ → NewBo) : St :=
  let numIb2 := if child.chainIb then 1 else child.ibBuffers.length
  emitIb2s info (child.ibBuffers.take numIb2) news s

/-- The dwords of an IB that are copied: not the chain link. -/
def Cs.copyDw (child : Cs) (ib : Ib) : ℕ := if child.chainIb then sub32 ib.cdw 4 else ib.cdw

/-- The loop of `radv_amdgpu_cs_execute_secondary` that copies the IBs, every mapping succeeding. -/
def copyIbs (info : Info) (child : Cs) : List Ib → (ℕ → NewBo) → St → St
  | [], _, s => s
  | ib :: ibs, news, s =>
    copyIbs info child ibs (fun i => news (i + 1))
      (copyIb info s ib.bo (child.copyDw ib) (some (news 0)) true true)

/-- `radv_amdgpu_cs_execute_secondary`. -/
def csExecuteSecondary (child : Cs) (allowIb2 : Bool) (news : ℕ → NewBo) : St :=
  let useIb2 := !s.cs.isSecondary && allowIb2 && s.cs.hwIp = .gfx
  if s.cs.status ≠ .success ∨ child.status ≠ .success then s
  else
    let buffers :=
      child.buffers.handles.foldl (fun l h => csAddBufferInternal l h.1 h.2) s.cs.buffers
    let s := { s with cs := { s.cs with buffers := buffers } }
    if useIb2 then csEmitSecondaryIb2 info s child news
    else copyIbs info child child.ibBuffers news s

/-- `PKT3_WRITE_DATA`. -/
def pkt3WriteData : BitVec 32 := 0x37

/-- `ac_emit_cp_write_data`; `control` has the destination, the engine and the confirmation. -/
def emitCpWriteData (control : BitVec 32) (va : BitVec 64) (data : List (BitVec 32)) : St :=
  ([pkt3 pkt3WriteData (BitVec.ofNat 32 (2 + data.length)) 0, control, va.setWidth 32,
    (va >>> 32).setWidth 32] ++ data).foldl radeonEmitUnchecked s

/-- `radv_amdgpu_cs_chain_dgc_ib`; `control` is that of the `WRITE_DATA` packet, and `acquire` the
`ACQUIRE_MEM` packet that GFX8 needs, empty elsewhere. -/
def csChainDgcIb (va : BitVec 64) (cdw : ℕ) (trailerVa : BitVec 64) (predicate : Bool)
    (control : BitVec 32) (acquire : List (BitVec 32)) (create : Option NewBo) (mapOk : Bool) :
    St :=
  if s.cs.status ≠ .success then s
  else if s.cs.hwIp = .gfx then emitCpIndirectBuffer s va cdw false false predicate
  else
    let chainData := [pkt3 pkt3IndirectBuffer 2 0, 0, 0, ibChainValid]
    let s := emitCpWriteData s control trailerVa chainData
    -- `ib_va_ptr` and `ib_size_ptr` point into the packet that was just written
    let trailer := s.cs.cdw
    let packets := s.cs.buf
    let s := csFinalize info (acquire.foldl radeonEmitUnchecked s)
    let s := { s with
      ws := s.ws.storeLink s.cs.buf s.cs.cdw va (ibChainValid ||| BitVec.ofNat 32 cdw) }
    let ibSize := csGetInitialSize info s.cs.hwIp
    let (result, s) := csBoCreate info s ibSize create
    if result ≠ .success then { s with cs := { s.cs with cdw := 0, status := result } }
    else
      let s := { s with cs := { s.cs with ibMapped := if mapOk then s.cs.ibBuffer else none } }
      if s.cs.ibMapped.isNone then
        { s with cs := { s.cs with cdw := 0, status := .errorOutOfDeviceMemory } }
      else
        let s := csAddBuffer s s.cs.ibBuffer
        let ibVa := s.ws.boVa s.cs.ibBuffer
        let ws := s.ws.store packets (sub32 trailer 3) (ibVa.setWidth 32)
        let ws := ws.store packets (sub32 trailer 2) ((ibVa >>> 32).setWidth 32)
        { ws := ws,
          cs := { s.cs with ibSizePtr := .dword (packets.getD 0) (sub32 trailer 1),
                            buf := s.cs.ibMapped, cdw := 0, reservedDw := 0,
                            maxDw := ibSize / 4 - 4 } }

end RadvXclipse.RadvAmdgpu
