import Mathlib.Data.Nat.Bitwise
import RadvXclipse.Lib.WhileLoop

/-!
# Linear copies and fills of the SDMA engine

`ac_emit_sdma_copy_linear` and `ac_emit_sdma_constant_fill` emit one packet for as much of a range
as a packet can take, and `radv_sdma_copy_memory` and `radv_sdma_fill_memory` call them until the
range is done.

The dwords of a packet are as in the source. What the engine does with them (`decodeCopy`,
`decodeFill`) is not in the source: a packet holds its addresses as two dwords each and its number
of bytes, from SDMA 4.0 on less one. The space check of the command stream is left out.
-/

namespace RadvXclipse.Sdma

open Lib

/-- `enum sdma_version`. -/
inductive SdmaVersion
  | unknown | v1_0 | v2_0 | v2_4 | v3_0 | v3_1 | v4_0 | v4_1 | v4_2 | v4_4 | v5_0 | v5_2 | v6_0 | v6_1 | v7_0
deriving DecidableEq

/-- `SDMA_VERSION_VALUE(major, minor)`. -/
def SdmaVersion.value : SdmaVersion → ℕ
  | unknown => 0
  | v1_0 => 0x100
  | v2_0 => 0x200
  | v2_4 => 0x204
  | v3_0 => 0x300
  | v3_1 => 0x301
  | v4_0 => 0x400
  | v4_1 => 0x401
  | v4_2 => 0x402
  | v4_4 => 0x404
  | v5_0 => 0x500
  | v5_2 => 0x502
  | v6_0 => 0x600
  | v6_1 => 0x601
  | v7_0 => 0x700

instance : LE SdmaVersion := ⟨fun a b => a.value ≤ b.value⟩
instance : LT SdmaVersion := ⟨fun a b => a.value < b.value⟩
instance (a b : SdmaVersion) : Decidable (a ≤ b) := inferInstanceAs (Decidable (a.value ≤ b.value))
instance (a b : SdmaVersion) : Decidable (a < b) := inferInstanceAs (Decidable (a.value < b.value))

/-! ## Packets -/

/-- `SDMA_PACKET`. -/
def sdmaPacket (op subOp n : BitVec 32) : BitVec 32 :=
  (n &&& 0xffff) <<< 16 ||| (subOp &&& 0xff) <<< 8 ||| op &&& 0xff

/-- `SDMA_OPCODE_COPY`. -/
def opcodeCopy : BitVec 32 := 0x1
/-- `SDMA_COPY_SUB_OPCODE_LINEAR`. -/
def copySubOpcodeLinear : BitVec 32 := 0x0
/-- `SDMA_OPCODE_CONSTANT_FILL`. -/
def opcodeConstantFill : BitVec 32 := 0xb

section Policy

variable (ver : SdmaVersion)

/-- `ac_sdma_5_2_uses_cpv`. -/
def usesCpv : Bool := .v5_2 ≤ ver ∧ ver < .v7_0

/-- `ac_sdma_5_2_get_cache_policy_rd`: `SDMA_5_2_CP_GL2_NOA | SDMA_5_2_CP_LLC_NOALLOC`. -/
def cachePolicyRd : BitVec 32 := if usesCpv ver then 0x2 ||| 0x4 else 0

/-- `ac_sdma_5_2_get_cache_policy_wr`: `SDMA_5_2_CP_GL2_BYPASS | SDMA_5_2_CP_LLC_NOALLOC`. -/
def cachePolicyWr : BitVec 32 := if usesCpv ver then 0x3 ||| 0x4 else 0

/-- `ac_sdma_7_0_get_mall_policy`. -/
def mallPolicy (isCopy : Bool) : BitVec 32 := if ver = .v7_0 then if isCopy then 0x1 else 0x0 else 0

/-- `x << shift` of a field of a dword. -/
def bits (x mask : BitVec 32) (shift : ℕ) : BitVec 32 := (x &&& mask) <<< shift

end Policy

/-- `MIN2`. -/
def min2 (a b : BitVec 64) : BitVec 64 := if a < b then a else b

variable (ver : SdmaVersion)

/-- The number of bytes as a packet holds it. -/
def countField (bytes : BitVec 64) : BitVec 32 :=
  if .v4_0 ≤ ver then (bytes - 1).setWidth 32 else bytes.setWidth 32

/-- The two dwords of an address. -/
def addressLo (va : BitVec 64) : BitVec 32 := va.setWidth 32
def addressHi (va : BitVec 64) : BitVec 32 := (va >>> 32).setWidth 32

/-- `max_size_per_packet`: `SDMA_5_2_COPY_MAX_BYTES` or `SDMA_2_0_COPY_MAX_BYTES`. -/
def maxSizePerPacket : BitVec 32 := if .v5_2 ≤ ver then 0x3fffff00 else 0x3fff00

/-- `align`. -/
def copyAlign (src dst size : BitVec 64) : BitVec 32 :=
  if src &&& 3 = 0 ∧ dst &&& 3 = 0 ∧ 4 < size ∧ size &&& 3 ≠ 0 then ~~~3 else ~~~0

/-- `bytes_written` of `ac_emit_sdma_copy_linear`. `align` has 32 bits and is extended with
zeros. -/
def copyBytes (src dst size : BitVec 64) : BitVec 64 :=
  if 4 ≤ size then min2 (size &&& (copyAlign src dst size).setWidth 64) ((maxSizePerPacket ver).setWidth 64)
  else size

/-- `ac_emit_sdma_copy_linear`: the dwords and the number of bytes. -/
def emitCopyLinear (tmz : Bool) (src dst size : BitVec 64) : List (BitVec 32) × BitVec 64 :=
  let bytesWritten := copyBytes ver src dst size
  let cpv : BitVec 32 := if usesCpv ver then 1 else 0
  let mp := mallPolicy ver true
  ([sdmaPacket opcodeCopy copySubOpcodeLinear (if tmz then 4 else 0) ||| bits cpv 0x1 19,
    countField ver bytesWritten,
    bits (cachePolicyRd ver) 0x7 26 ||| bits (cachePolicyWr ver) 0x7 18 ||| bits mp 0x3 28 ||| bits mp 0x3 20,
    addressLo src, addressHi src, addressLo dst, addressHi dst], bytesWritten)

/-- `max_fill_size`. `~0x3` is an `int` and is extended with its sign. -/
def maxFillSize : BitVec 64 :=
  ((1 <<< if .v6_0 ≤ ver then 30 else 22) - 1) &&& ~~~3

/-- `ac_emit_sdma_constant_fill`: the dwords and the number of bytes. -/
def emitConstantFill (value : BitVec 32) (va size : BitVec 64) :
    List (BitVec 32) × BitVec 64 :=
  let fillSize : BitVec 32 := 2
  let bytesWritten := min2 size (maxFillSize ver)
  let cpv : BitVec 32 := if usesCpv ver then 1 else 0
  ([sdmaPacket opcodeConstantFill 0 0 ||| fillSize <<< 30 ||| bits cpv 0x1 28 |||
      bits (cachePolicyWr ver) 0x7 24 ||| bits (mallPolicy ver false) 0x3 26,
    addressLo va, addressHi va, value, countField ver bytesWritten], bytesWritten)

/-! ## The loops -/

/-- One iteration of `radv_sdma_copy_memory`, on `src_va`, `dst_va` and `size`. -/
def copyNext (tmz : Bool) (s : BitVec 64 × BitVec 64 × BitVec 64) :
    Option (List (BitVec 32) × BitVec 64 × BitVec 64 × BitVec 64) :=
  if 0 < s.2.2 then
    let p := emitCopyLinear ver tmz s.1 s.2.1 s.2.2
    some (p.1, s.1 + p.2, s.2.1 + p.2, s.2.2 - p.2)
  else none

/-- `radv_sdma_copy_memory`: the packets, `none` if it needs more iterations. -/
def copyMemory (tmz : Bool) (fuel : ℕ) (src dst size : BitVec 64) :
    Option (List (List (BitVec 32))) :=
  loop (copyNext ver tmz) fuel (src, dst, size)

/-- One iteration of `radv_sdma_fill_memory`, on `va` and `size`. -/
def fillNext (value : BitVec 32) (s : BitVec 64 × BitVec 64) :
    Option (List (BitVec 32) × BitVec 64 × BitVec 64) :=
  if 0 < s.2 then
    let p := emitConstantFill ver value s.1 s.2
    some (p.1, s.1 + p.2, s.2 - p.2)
  else none

/-- `radv_sdma_fill_memory`: the packets, `none` if it needs more iterations. -/
def fillMemory (value : BitVec 32) (fuel : ℕ) (va size : BitVec 64) :
    Option (List (List (BitVec 32))) :=
  loop (fillNext ver value) fuel (va, size)

/-! ## The engine -/

/-- The number of bytes of a packet. -/
def decodeCount (count : BitVec 32) : ℕ := if .v4_0 ≤ ver then count.toNat + 1 else count.toNat

/-- A copy that the engine performs. -/
structure Copy where
  src : BitVec 64
  dst : BitVec 64
  bytes : ℕ

/-- A fill that the engine performs. -/
structure Fill where
  va : BitVec 64
  value : BitVec 32
  bytes : ℕ

/-- The copy of a packet. -/
def decodeCopy : List (BitVec 32) → Option Copy
  | [header, count, _, srcLo, srcHi, dstLo, dstHi] =>
    if header &&& 0xffff = opcodeCopy then some ⟨srcHi ++ srcLo, dstHi ++ dstLo,
      decodeCount ver count⟩ else none
  | _ => none

/-- The fill of a packet. -/
def decodeFill : List (BitVec 32) → Option Fill
  | [header, vaLo, vaHi, value, count] =>
    if header &&& 0xffff = opcodeConstantFill then some ⟨vaHi ++ vaLo, value, decodeCount ver count⟩ else none
  | _ => none

/-- The bytes that a copy moves, as pairs of addresses. -/
def Copy.moves (c : Copy) : List (BitVec 64 × BitVec 64) :=
  (List.range c.bytes).map fun i => (c.src + BitVec.ofNat 64 i, c.dst + BitVec.ofNat 64 i)

/-- The bytes that a fill writes, with their addresses. -/
def Fill.writes (f : Fill) : List (BitVec 64 × BitVec 8) :=
  (List.range f.bytes).map fun i => (f.va + BitVec.ofNat 64 i, f.value.extractLsb' (8 * (i % 4)) 8)

/-- The assertion of `ac_emit_sdma_copy_linear` holds, the copy ends, its packets are of allowed
sizes, and together they move each byte of the range once and nothing else. -/
def CopiesRange (tmz : Bool) (src dst size : BitVec 64) : Prop :=
  (0 < size → .v2_0 ≤ ver) ∧
    ∃ fuel packets, ∃ copies : List Copy, copyMemory ver tmz fuel src dst size = some packets ∧
      packets.map (decodeCopy ver) = copies.map some ∧
      (∀ c ∈ copies, 1 ≤ c.bytes ∧ c.bytes ≤ (maxSizePerPacket ver).toNat) ∧
      copies.flatMap Copy.moves = Copy.moves ⟨src, dst, size.toNat⟩

/-- The same for a fill. -/
def FillsRange (value : BitVec 32) (va size : BitVec 64) : Prop :=
  ∃ fuel packets, ∃ fills : List Fill, fillMemory ver value fuel va size = some packets ∧
    packets.map (decodeFill ver) = fills.map some ∧
    (∀ f ∈ fills, 1 ≤ f.bytes ∧ f.bytes ≤ (maxFillSize ver).toNat) ∧
    fills.flatMap Fill.writes = Fill.writes ⟨va, value, size.toNat⟩

end RadvXclipse.Sdma
