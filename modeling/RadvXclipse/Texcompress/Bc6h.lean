import RadvXclipse.Texcompress.Bptc

/-!
# The format BC6H

A block has two or four endpoints whose bits are scattered over the header, in an order that depends
on the mode, then a partition and a stream of indices. The endpoints after the first may be
differences from it. A channel of a texel is interpolated as a number of up to 17 bits and scaled to
the bits of a half.
-/

namespace RadvXclipse.Texcompress.Bc6h

open Lib List

/-- `struct bptc_float_bitfield`. -/
structure Bitfield where
  endpoint : ℕ
  component : ℕ
  offset : ℕ
  nBits : ℕ
  reverse : Bool
deriving DecidableEq

/-- A field whose bits are not reversed. -/
def Bitfield.bits (endpoint component offset nBits : ℕ) : Bitfield :=
  ⟨endpoint, component, offset, nBits, false⟩

/-- `struct bptc_float_mode`. -/
structure FloatMode where
  reserved : Bool
  transformedEndpoints : Bool
  nPartitionBits : ℕ
  nEndpointBits : ℕ
  nIndexBits : ℕ
  nDeltaBits : List ℕ
  bitfields : List Bitfield
deriving DecidableEq, Inhabited

/-- `bptc_float_modes`. -/
def floatModes : List FloatMode :=
  [⟨false, true, 5, 10, 3, [5, 5, 5],
    [.bits 2 1 4 1, .bits 2 2 4 1, .bits 3 2 4 1, .bits 0 0 0 10, .bits 0 1 0 10,
     .bits 0 2 0 10, .bits 1 0 0 5, .bits 3 1 4 1, .bits 2 1 0 4, .bits 1 1 0 5, .bits 3 2 0 1,
     .bits 3 1 0 4, .bits 1 2 0 5, .bits 3 2 1 1, .bits 2 2 0 4, .bits 2 0 0 5, .bits 3 2 2 1,
     .bits 3 0 0 5, .bits 3 2 3 1]⟩,
   ⟨false, true, 5, 7, 3, [6, 6, 6],
    [.bits 2 1 5 1, .bits 3 1 4 1, .bits 3 1 5 1, .bits 0 0 0 7, .bits 3 2 0 1, .bits 3 2 1 1,
     .bits 2 2 4 1, .bits 0 1 0 7, .bits 2 2 5 1, .bits 3 2 2 1, .bits 2 1 4 1, .bits 0 2 0 7,
     .bits 3 2 3 1, .bits 3 2 5 1, .bits 3 2 4 1, .bits 1 0 0 6, .bits 2 1 0 4, .bits 1 1 0 6,
     .bits 3 1 0 4, .bits 1 2 0 6, .bits 2 2 0 4, .bits 2 0 0 6, .bits 3 0 0 6]⟩,
   ⟨false, true, 5, 11, 3, [5, 4, 4],
    [.bits 0 0 0 10, .bits 0 1 0 10, .bits 0 2 0 10, .bits 1 0 0 5, .bits 0 0 10 1,
     .bits 2 1 0 4, .bits 1 1 0 4, .bits 0 1 10 1, .bits 3 2 0 1, .bits 3 1 0 4, .bits 1 2 0 4,
     .bits 0 2 10 1, .bits 3 2 1 1, .bits 2 2 0 4, .bits 2 0 0 5, .bits 3 2 2 1, .bits 3 0 0 5,
     .bits 3 2 3 1]⟩,
   ⟨false, false, 0, 10, 4, [10, 10, 10],
    [.bits 0 0 0 10, .bits 0 1 0 10, .bits 0 2 0 10, .bits 1 0 0 10, .bits 1 1 0 10,
     .bits 1 2 0 10]⟩,
   ⟨false, true, 5, 11, 3, [4, 5, 4],
    [.bits 0 0 0 10, .bits 0 1 0 10, .bits 0 2 0 10, .bits 1 0 0 4, .bits 0 0 10 1,
     .bits 3 1 4 1, .bits 2 1 0 4, .bits 1 1 0 5, .bits 0 1 10 1, .bits 3 1 0 4, .bits 1 2 0 4,
     .bits 0 2 10 1, .bits 3 2 1 1, .bits 2 2 0 4, .bits 2 0 0 4, .bits 3 2 0 1, .bits 3 2 2 1,
     .bits 3 0 0 4, .bits 2 1 4 1, .bits 3 2 3 1]⟩,
   ⟨false, true, 0, 11, 4, [9, 9, 9],
    [.bits 0 0 0 10, .bits 0 1 0 10, .bits 0 2 0 10, .bits 1 0 0 9, .bits 0 0 10 1,
     .bits 1 1 0 9, .bits 0 1 10 1, .bits 1 2 0 9, .bits 0 2 10 1]⟩,
   ⟨false, true, 5, 11, 3, [4, 4, 5],
    [.bits 0 0 0 10, .bits 0 1 0 10, .bits 0 2 0 10, .bits 1 0 0 4, .bits 0 0 10 1,
     .bits 2 2 4 1, .bits 2 1 0 4, .bits 1 1 0 4, .bits 0 1 10 1, .bits 3 2 0 1, .bits 3 1 0 4,
     .bits 1 2 0 5, .bits 0 2 10 1, .bits 2 2 0 4, .bits 2 0 0 4, .bits 3 2 1 1, .bits 3 2 2 1,
     .bits 3 0 0 4, .bits 3 2 4 1, .bits 3 2 3 1]⟩,
   ⟨false, true, 0, 12, 4, [8, 8, 8],
    [.bits 0 0 0 10, .bits 0 1 0 10, .bits 0 2 0 10, .bits 1 0 0 8, ⟨0, 0, 10, 2, true⟩,
     .bits 1 1 0 8, ⟨0, 1, 10, 2, true⟩, .bits 1 2 0 8, ⟨0, 2, 10, 2, true⟩]⟩,
   ⟨false, true, 5, 9, 3, [5, 5, 5],
    [.bits 0 0 0 9, .bits 2 2 4 1, .bits 0 1 0 9, .bits 2 1 4 1, .bits 0 2 0 9, .bits 3 2 4 1,
     .bits 1 0 0 5, .bits 3 1 4 1, .bits 2 1 0 4, .bits 1 1 0 5, .bits 3 2 0 1, .bits 3 1 0 4,
     .bits 1 2 0 5, .bits 3 2 1 1, .bits 2 2 0 4, .bits 2 0 0 5, .bits 3 2 2 1, .bits 3 0 0 5,
     .bits 3 2 3 1]⟩,
   ⟨false, true, 0, 16, 4, [4, 4, 4],
    [.bits 0 0 0 10, .bits 0 1 0 10, .bits 0 2 0 10, .bits 1 0 0 4, ⟨0, 0, 10, 6, true⟩,
     .bits 1 1 0 4, ⟨0, 1, 10, 6, true⟩, .bits 1 2 0 4, ⟨0, 2, 10, 6, true⟩]⟩,
   ⟨false, true, 5, 8, 3, [6, 5, 5],
    [.bits 0 0 0 8, .bits 3 1 4 1, .bits 2 2 4 1, .bits 0 1 0 8, .bits 3 2 2 1, .bits 2 1 4 1,
     .bits 0 2 0 8, .bits 3 2 3 1, .bits 3 2 4 1, .bits 1 0 0 6, .bits 2 1 0 4, .bits 1 1 0 5,
     .bits 3 2 0 1, .bits 3 1 0 4, .bits 1 2 0 5, .bits 3 2 1 1, .bits 2 2 0 4, .bits 2 0 0 6,
     .bits 3 0 0 6]⟩,
   ⟨true, false, 0, 0, 0, [0, 0, 0], []⟩,
   ⟨false, true, 5, 8, 3, [5, 6, 5],
    [.bits 0 0 0 8, .bits 3 2 0 1, .bits 2 2 4 1, .bits 0 1 0 8, .bits 2 1 5 1, .bits 2 1 4 1,
     .bits 0 2 0 8, .bits 3 1 5 1, .bits 3 2 4 1, .bits 1 0 0 5, .bits 3 1 4 1, .bits 2 1 0 4,
     .bits 1 1 0 6, .bits 3 1 0 4, .bits 1 2 0 5, .bits 3 2 1 1, .bits 2 2 0 4, .bits 2 0 0 5,
     .bits 3 2 2 1, .bits 3 0 0 5, .bits 3 2 3 1]⟩,
   ⟨true, false, 0, 0, 0, [0, 0, 0], []⟩,
   ⟨false, true, 5, 8, 3, [5, 5, 6],
    [.bits 0 0 0 8, .bits 3 2 1 1, .bits 2 2 4 1, .bits 0 1 0 8, .bits 2 2 5 1, .bits 2 1 4 1,
     .bits 0 2 0 8, .bits 3 2 5 1, .bits 3 2 4 1, .bits 1 0 0 5, .bits 3 1 4 1, .bits 2 1 0 4,
     .bits 1 1 0 5, .bits 3 2 0 1, .bits 3 1 0 4, .bits 1 2 0 6, .bits 2 2 0 4, .bits 2 0 0 5,
     .bits 3 2 2 1, .bits 3 0 0 5, .bits 3 2 3 1]⟩,
   ⟨true, false, 0, 0, 0, [0, 0, 0], []⟩,
   ⟨false, false, 5, 6, 3, [6, 6, 6],
    [.bits 0 0 0 6, .bits 3 1 4 1, .bits 3 2 0 1, .bits 3 2 1 1, .bits 2 2 4 1, .bits 0 1 0 6,
     .bits 2 1 5 1, .bits 2 2 5 1, .bits 3 2 2 1, .bits 2 1 4 1, .bits 0 2 0 6, .bits 3 1 5 1,
     .bits 3 2 3 1, .bits 3 2 5 1, .bits 3 2 4 1, .bits 1 0 0 6, .bits 2 1 0 4, .bits 1 1 0 6,
     .bits 3 1 0 4, .bits 1 2 0 6, .bits 2 2 0 4, .bits 2 0 0 6, .bits 3 0 0 6]⟩,
   ⟨true, false, 0, 0, 0, [0, 0, 0], []⟩]

/-- `signed_unquantize`, and `bc6_unq_signed` of the shader. -/
def signedUnquantize (value : ℤ) (n : ℕ) : ℤ :=
  if n ≥ 16 then value
  else if value = 0 then 0
  else
    let sign := decide (value < 0)
    let value := if sign then -value else value
    let value : ℤ := if value ≥ (1 <<< (n - 1) : ℕ) - 1 then 0x7fff
      else ((value <<< (15 : ℕ)) + 0x4000) >>> (n - 1)
    if sign then -value else value

/-- `unsigned_unquantize`, and `bc6_unq_unsigned` of the shader. -/
def unsignedUnquantize (value : ℤ) (n : ℕ) : ℤ :=
  if n ≥ 15 then value
  else if value = 0 then 0
  else if value = (1 <<< n : ℕ) - 1 then 0xffff
  else ((value <<< (15 : ℕ)) + 0x4000) >>> (n - 1)

/-- A number of `n` bits in two's complement. -/
def signExtend (v n : ℕ) : ℤ := if v < 2 ^ (n - 1) then v else v - 2 ^ n

/-- The bits of a number of `n` bits in reverse order. -/
def reverseBits (n v : ℕ) : ℕ := (BitVec.ofNat n v).reverse.toNat

/-- A field of an endpoint at a position in the block. -/
structure Placed where
  endpoint : ℕ
  component : ℕ
  pos : ℕ
  nBits : ℕ
  offset : ℕ
  reverse : Bool
deriving DecidableEq

/-- A field whose bits are not reversed. -/
def Placed.bits (endpoint component pos nBits offset : ℕ) : Placed :=
  ⟨endpoint, component, pos, nBits, offset, false⟩

/-- The fields lie one after the other. -/
def place : ℕ → List Bitfield → List Placed
  | _, [] => []
  | pos, f :: fs => ⟨f.endpoint, f.component, pos, f.nBits, f.offset, f.reverse⟩ :: place (pos + f.nBits) fs

/-- What a field contributes to its component. -/
def Placed.value (p : Placed) (x : ℕ) : ℕ :=
  (if p.reverse then reverseBits p.nBits (field x p.pos p.nBits) else field x p.pos p.nBits) <<< p.offset

/-- A component of an endpoint from its fields. -/
def gather (x : ℕ) (ps : List Placed) (e c v : ℕ) : ℕ :=
  ps.foldl (fun v p => if p.endpoint = e ∧ p.component = c then v ||| p.value x else v) v

/-- The mode of a block, from its first byte. -/
def modeNum (b : ℕ) : ℕ := if b &&& 0x2 ≠ 0 then (((b >>> 1) &&& 0xe) ||| (b &&& 1)) + 2 else b &&& 3

/-- The position after the mode. -/
def modeStart (b : ℕ) : ℕ := if b &&& 0x2 ≠ 0 then 5 else 2

namespace FloatMode

variable (m : FloatMode)

def nSubsets : ℕ := if m.nPartitionBits ≠ 0 then 2 else 1

/-- The bits of all the endpoints. -/
def nHeaderBits : ℕ := (m.bitfields.map Bitfield.nBits).sum

/-- The bits of a component of an endpoint. -/
def width (e c : ℕ) : ℕ :=
  if m.transformedEndpoints ∧ e ≠ 0 then m.nDeltaBits.getD c 0 else m.nEndpointBits

/-- What the decoders rely on. -/
structure Valid : Prop where
  partition_le : m.nPartitionBits ≤ 5
  endpoint_pos : 0 < m.nEndpointBits
  endpoint_le : m.nEndpointBits ≤ 16
  delta_pos : ∀ c < 3, 0 < m.nDeltaBits.getD c 0
  delta_le : ∀ c < 3, m.nDeltaBits.getD c 0 ≤ 16
  index_ge : 2 ≤ m.nIndexBits
  index_le : m.nIndexBits ≤ 4
  /-- every field is within its component -/
  fields_fit : ∀ f ∈ m.bitfields, f.offset + f.nBits ≤ m.width f.endpoint f.component
  fields_le : ∀ f ∈ m.bitfields, f.nBits ≤ 10
  fields_word : ∀ f ∈ m.bitfields, f.offset + f.nBits ≤ 16

section Fields

variable (start x : ℕ)

/-- A component of an endpoint as it is stored. -/
def raw (e c : ℕ) : ℕ := gather x (place start m.bitfields) e c 0

/-- A component of an endpoint after the differences are added. -/
def endpoint (e c : ℕ) : ℕ :=
  if m.transformedEndpoints ∧ e ≠ 0 then
    ((m.raw start x 0 c + signExtend (m.raw start x e c) (m.nDeltaBits.getD c 0)) % 2 ^ m.nEndpointBits).toNat
  else m.raw start x e c

/-- A component of an endpoint as a number to interpolate. -/
def unquantized (signed : Bool) (e c : ℕ) : ℤ :=
  if signed then signedUnquantize (signExtend (m.endpoint start x e c) m.nEndpointBits) m.nEndpointBits
  else unsignedUnquantize (m.endpoint start x e c) m.nEndpointBits

def partition : ℕ := field x (start + m.nHeaderBits) m.nPartitionBits

def indexStart : ℕ := start + m.nHeaderBits + m.nPartitionBits

def index (t : ℕ) : ℕ :=
  field x (m.indexStart start + indexOffset m.nSubsets (m.partition start x) m.nIndexBits t)
    (indexWidth m.nSubsets (m.partition start x) m.nIndexBits t)

def subset (t : ℕ) : ℕ := subsetNum (partitionSubsets m.nSubsets (m.partition start x)) t

/-- A channel of a texel before it is scaled. -/
def channel (signed : Bool) (t c : ℕ) : ℤ :=
  blend (m.unquantized start x signed (m.subset start x t * 2) c)
    (m.unquantized start x signed (m.subset start x t * 2 + 1) c)
      (exactWeight m.nIndexBits (m.index start x t))

end Fields

end FloatMode

/-- A channel as the bits of a half. -/
def toHalf (signed : Bool) (v : ℤ) : ℕ :=
  if signed then (v.natAbs * 31 / 32) ||| (if v < 0 then 0x8000 else 0) else v.natAbs * 31 / 64

/-- The channels of the texels of a block. A block of a reserved mode is black. -/
def decode (signed : Bool) (x t c : ℕ) : ℕ :=
  let b := field x 0 8
  let m := floatModes.getD (modeNum b) default
  if m.reserved then 0 else toHalf signed (m.channel (modeStart b) x signed t c)

section Facts

variable {m : FloatMode} {start x : ℕ}

lemma valid_of_mem (hm : m ∈ floatModes) (hr : m.reserved = false) : m.Valid := by
  unfold floatModes at hm
  simp only [mem_cons, not_mem_nil, or_false] at hm
  rcases hm with rfl | rfl | rfl | rfl | rfl | rfl | rfl | rfl | rfl | rfl | rfl | rfl | rfl | rfl | rfl | rfl |
    rfl | rfl
  all_goals first
    | exact absurd hr (by decide)
    | constructor <;> decide

/-- A mode of the table is reserved or valid. -/
theorem valid_getD {i : ℕ} (hi : i < 18) (hr : (floatModes.getD i default).reserved = false) :
    (floatModes.getD i default).Valid := by
  apply valid_of_mem _ hr
  rw [getD_eq_getElem _ _ hi]
  exact getElem_mem _

lemma modeNum_lt : ∀ b < 256, modeNum b < 18 := by decide +kernel

lemma reverseBits_lt (n v : ℕ) : reverseBits n v < 2 ^ n := BitVec.isLt _

lemma testBit_reverseBits (n v i : ℕ) :
    (reverseBits n v).testBit i = (decide (i < n) && v.testBit (n - 1 - i)) := by
  unfold reverseBits
  rw [← BitVec.getLsbD, BitVec.getLsbD_reverse, BitVec.getMsbD_eq_getLsbD, BitVec.getLsbD_ofNat]
  by_cases hi : i < n
  · simp [hi, show n - 1 - i < n by omega]
  · simp [hi]

lemma Placed.value_lt (p : Placed) : p.value x < 2 ^ (p.offset + p.nBits) := by
  unfold value
  rw [Nat.shiftLeft_eq, add_comm, pow_add]
  apply Nat.mul_lt_mul_of_pos_right _ (Nat.two_pow_pos _)
  split_ifs
  · exact reverseBits_lt _ _
  · exact field_lt _ _ _

/-- A component is as wide as its widest field. -/
theorem gather_lt {ps : List Placed} {e c w v : ℕ} (hv : v < 2 ^ w)
    (hps : ∀ p ∈ ps, p.endpoint = e → p.component = c → p.offset + p.nBits ≤ w) :
    gather x ps e c v < 2 ^ w := by
  unfold gather
  induction ps generalizing v with
  | nil => exact hv
  | cons p ps ih =>
    rw [foldl_cons]
    apply ih
    · split_ifs with hp
      · apply Nat.or_lt_two_pow hv
        apply lt_of_lt_of_le p.value_lt
        exact Nat.pow_le_pow_right (by omega) (hps p mem_cons_self hp.1 hp.2)
      · exact hv
    · intro q hq
      exact hps q (mem_cons_of_mem p hq)

lemma mem_place {fs : List Bitfield} {pos : ℕ} {p : Placed} (hp : p ∈ place pos fs) :
    ∃ f ∈ fs, f.endpoint = p.endpoint ∧ f.component = p.component ∧ f.offset = p.offset ∧
      f.nBits = p.nBits := by
  induction fs generalizing pos with
  | nil => exact absurd hp not_mem_nil
  | cons f fs ih =>
    rcases mem_cons.mp hp with rfl | hp
    · exact ⟨f, mem_cons_self, rfl, rfl, rfl, rfl⟩
    · obtain ⟨g, hg, hrest⟩ := ih hp
      exact ⟨g, mem_cons_of_mem f hg, hrest⟩

lemma FloatMode.Valid.raw_lt (h : m.Valid) (e c : ℕ) : m.raw start x e c < 2 ^ m.width e c := by
  apply gather_lt (Nat.two_pow_pos _)
  intro p hp he hc
  obtain ⟨f, hf, hfe, hfc, hfo, hfn⟩ := mem_place hp
  have hfit := h.fields_fit f hf
  rw [hfe, hfc, hfo, hfn, he, hc] at hfit
  exact hfit

lemma FloatMode.Valid.endpoint_lt (h : m.Valid) (e c : ℕ) : m.endpoint start x e c < 2 ^ m.nEndpointBits := by
  unfold endpoint
  split_ifs with ht
  · have hpos : (0 : ℤ) < 2 ^ m.nEndpointBits := by positivity
    have hlt := Int.emod_lt_of_pos
      (m.raw start x 0 c + signExtend (m.raw start x e c) (m.nDeltaBits.getD c 0)) hpos
    have hge := Int.emod_nonneg
      (m.raw start x 0 c + signExtend (m.raw start x e c) (m.nDeltaBits.getD c 0)) hpos.ne'
    zify
    rw [Int.toNat_of_nonneg hge]
    exact hlt
  · have hraw : m.raw start x e c < 2 ^ m.width e c := h.raw_lt e c
    unfold width at hraw
    rwa [if_neg ht] at hraw

end Facts

section Range

lemma unsignedUnquantize_range {v n : ℕ} (hn : 0 < n) (hn16 : n ≤ 16) (hv : v < 2 ^ n) :
    0 ≤ unsignedUnquantize v n ∧ unsignedUnquantize v n < 2 ^ 16 := by
  have hle : 2 ^ n ≤ 2 ^ 16 := Nat.pow_le_pow_right (by omega) hn16
  unfold unsignedUnquantize
  split_ifs with h15 h0 hmax
  · omega
  · omega
  · omega
  · -- here the number is below the largest one
    rw [Int.shiftRight_eq_div_pow, Int.shiftLeft_eq]
    interval_cases n <;> omega

lemma signExtend_range {v n : ℕ} (hn : 0 < n) (hv : v < 2 ^ n) :
    -2 ^ (n - 1) ≤ signExtend v n ∧ signExtend v n < 2 ^ (n - 1) := by
  have hpow : (2 : ℤ) ^ n = 2 * 2 ^ (n - 1) := by
    rw [← pow_succ', Nat.sub_add_cancel hn]
  have hv' : (v : ℤ) < 2 ^ n := by exact_mod_cast hv
  unfold signExtend
  split_ifs with h
  · have h' : (v : ℤ) < 2 ^ (n - 1) := by exact_mod_cast h
    omega
  · have h' : (2 : ℤ) ^ (n - 1) ≤ v := by exact_mod_cast not_lt.mp h
    omega

lemma signedUnquantize_range {s : ℤ} {n : ℕ} (hn : 0 < n) (hn16 : n ≤ 16) (hlo : -2 ^ (n - 1) ≤ s)
    (hhi : s < 2 ^ (n - 1)) : -2 ^ 15 ≤ signedUnquantize s n ∧ signedUnquantize s n < 2 ^ 15 := by
  unfold signedUnquantize
  split_ifs with h16 h0
  · have hn' : n = 16 := by omega
    subst hn'
    omega
  · omega
  · -- the magnitude is at most 0x7fff
    have hmag : ∀ v : ℤ, 0 ≤ v → v ≤ 2 ^ (n - 1) →
        let q : ℤ := if v ≥ (1 <<< (n - 1) : ℕ) - 1 then 0x7fff else ((v <<< (15 : ℕ)) + 0x4000) >>> (n - 1)
        0 ≤ q ∧ q < 2 ^ 15 := by
      intro v hv0 hv
      rw [Int.shiftRight_eq_div_pow, Int.shiftLeft_eq, Nat.one_shiftLeft]
      split_ifs with hmax
      · omega
      · interval_cases n <;> omega
    by_cases hneg : s < 0
    · have h := hmag (-s) (by omega) (by omega)
      simp only [hneg, decide_true, if_true]
      omega
    · have h := hmag s (by omega) (by omega)
      simp only [hneg, decide_false, if_false, Bool.false_eq_true]
      omega

/-- What is interpolated stays between its ends. -/
theorem blend_range {a b lo hi : ℤ} {w : ℕ} (hw : w ≤ 64) (ha : lo ≤ a ∧ a < hi) (hb : lo ≤ b ∧ b < hi) :
    lo ≤ blend a b w ∧ blend a b w < hi := by
  have h1 : lo * (64 - w) ≤ a * (64 - w) := mul_le_mul_of_nonneg_right ha.1 (by omega)
  have h2 : lo * w ≤ b * w := mul_le_mul_of_nonneg_right hb.1 (by omega)
  have h3 : a * (64 - w) ≤ (hi - 1) * (64 - w) := mul_le_mul_of_nonneg_right (by omega) (by omega)
  have h4 : b * w ≤ (hi - 1) * w := mul_le_mul_of_nonneg_right (by omega) (by omega)
  have hlo : lo * (64 - w) + lo * w = 64 * lo := by ring
  have hhi : (hi - 1) * (64 - w) + (hi - 1) * w = 64 * (hi - 1) := by ring
  unfold blend
  omega

variable {m : FloatMode} {start x : ℕ}

/-- The range of the numbers to interpolate. -/
def lowest (signed : Bool) : ℤ := if signed then -2 ^ 15 else 0

lemma FloatMode.Valid.unquantized_range (h : m.Valid) (signed : Bool) (e c : ℕ) :
    lowest signed ≤ m.unquantized start x signed e c ∧
      m.unquantized start x signed e c < lowest signed + 2 ^ 16 := by
  have hlt : m.endpoint start x e c < 2 ^ m.nEndpointBits := h.endpoint_lt e c
  unfold unquantized lowest
  cases signed with
  | false =>
    have hrange := unsignedUnquantize_range h.endpoint_pos h.endpoint_le hlt
    simp only [Bool.false_eq_true, if_false]
    omega
  | true =>
    have hs := signExtend_range h.endpoint_pos hlt
    have hrange := signedUnquantize_range h.endpoint_pos h.endpoint_le hs.1 hs.2
    simp only [if_true]
    omega

lemma FloatMode.Valid.partition_lt (h : m.Valid) : m.partition start x < 64 :=
  field_lt_of_le _ _ (by have := h.partition_le; omega : _ ≤ 6)

lemma FloatMode.index_lt (t : ℕ) : m.index start x t < 2 ^ m.nIndexBits :=
  field_lt_of_le _ _ (Nat.sub_le _ _)

lemma FloatMode.Valid.channel_range (h : m.Valid) (signed : Bool) (t c : ℕ) :
    lowest signed ≤ m.channel start x signed t c ∧ m.channel start x signed t c < lowest signed + 2 ^ 16 := by
  have hle := h.index_le
  exact blend_range (exactWeight_le _ (by omega) h.index_ge _ (index_lt t)) (h.unquantized_range signed _ c)
    (h.unquantized_range signed _ c)

end Range

end RadvXclipse.Texcompress.Bc6h
