import RadvXclipse.Texcompress.Bc6hEndpoints

/-!
# The table-driven BC6H decoder of the shader

`bc6h_decode_store` of `bc_decoder.glsl` with `BC_TABLES_BUFFER`: the three channels of every texel
as it hands them to `bc_store_texel`, as the bits of a half.
-/

namespace RadvXclipse.Texcompress.Bc6h

open Lib Nat

def bc6Flags : List ℕ := [2, 2, 2, 0, 2, 2, 2, 2, 2, 2, 2, 1, 2, 1, 2, 1, 0, 1]
def bc6Npb : List ℕ := [5, 5, 5, 0, 5, 0, 5, 0, 5, 0, 5, 0, 5, 0, 5, 0, 5, 0]
def bc6Neb : List ℕ := [10, 7, 11, 10, 11, 11, 11, 12, 9, 16, 8, 0, 8, 0, 8, 0, 6, 0]
def bc6Nib : List ℕ := [3, 3, 3, 4, 3, 4, 3, 4, 3, 4, 3, 0, 3, 0, 3, 0, 3, 0]
def bc6D0 : List ℕ := [5, 6, 5, 10, 4, 9, 4, 8, 5, 4, 6, 0, 5, 0, 5, 0, 6, 0]
def bc6D1 : List ℕ := [5, 6, 4, 10, 5, 9, 4, 8, 5, 4, 5, 0, 6, 0, 5, 0, 6, 0]
def bc6D2 : List ℕ := [5, 6, 4, 10, 4, 9, 5, 8, 5, 4, 5, 0, 5, 0, 6, 0, 6, 0]

def bc6Foff : List ℕ :=
  [0, 19, 42, 60, 66, 86, 95, 115, 124, 143, 152, 171, 171, 192, 192, 213, 213, 236, 236]

def bc6Fields : List ℕ :=
  [326, 330, 331, 2560, 2564, 2568, 1281, 327, 1030, 1285, 267, 1031, 1289, 283, 1034, 1282, 299, 1283,
   315, 342, 327, 343, 1792, 267, 283, 330, 1796, 346, 299, 326, 1800, 315, 347, 331, 1537, 1030, 1541,
   1031, 1545, 1034, 1538, 1539, 2560, 2564, 2568, 1281, 416, 1030, 1029, 420, 267, 1031, 1033, 424,
   283, 1034, 1282, 299, 1283, 315, 2560, 2564, 2568, 2561, 2565, 2569, 2560, 2564, 2568, 1025, 416,
   327, 1030, 1285, 420, 1031, 1033, 424, 283, 1034, 1026, 267, 299, 1027, 326, 315, 2560, 2564, 2568,
   2305, 416, 2309, 420, 2313, 424, 2560, 2564, 2568, 1025, 416, 330, 1030, 1029, 420, 267, 1031, 1289,
   424, 1034, 1026, 283, 299, 1027, 331, 315, 2560, 2564, 2568, 2049, 8864, 2053, 8868, 2057, 8872,
   2304, 330, 2308, 326, 2312, 331, 1281, 327, 1030, 1285, 267, 1031, 1289, 283, 1034, 1282, 299, 1283,
   315, 2560, 2564, 2568, 1025, 9888, 1029, 9892, 1033, 9896, 2048, 327, 330, 2052, 299, 326, 2056, 315,
   331, 1537, 1030, 1285, 267, 1031, 1289, 283, 1034, 1538, 1539, 2048, 267, 330, 2052, 342, 326, 2056,
   343, 331, 1281, 327, 1030, 1541, 1031, 1289, 283, 1034, 1282, 299, 1283, 315, 2048, 283, 330, 2052,
   346, 326, 2056, 347, 331, 1281, 327, 1030, 1285, 267, 1031, 1545, 1034, 1282, 299, 1283, 315, 1536,
   327, 267, 283, 330, 1540, 342, 346, 299, 326, 1544, 343, 315, 347, 331, 1537, 1030, 1541, 1031, 1545,
   1034, 1538, 1539]

/-- The fields of an entry of `bc6_fields`. -/
def bc6Field (fd : ℕ) : Bitfield where
  endpoint := fd &&& 3
  component := fd >>> 2 &&& 3
  offset := fd >>> 4 &&& 15
  nBits := fd >>> 8 &&& 31
  reverse := fd >>> 13 &&& 1 ≠ 0

/-- The entries of the `bc6_` tables for a mode. -/
def bc6Mode (mode : ℕ) : FloatMode where
  reserved := bc6Flags.getD mode 0 &&& 1 ≠ 0
  transformedEndpoints := bc6Flags.getD mode 0 &&& 2 ≠ 0
  nPartitionBits := bc6Npb.getD mode 0
  nEndpointBits := bc6Neb.getD mode 0
  nIndexBits := bc6Nib.getD mode 0
  nDeltaBits := [bc6D0.getD mode 0, bc6D1.getD mode 0, bc6D2.getD mode 0]
  bitfields :=
    ((bc6Fields.drop (bc6Foff.getD mode 0)).take (bc6Foff.getD (mode + 1) 0 - bc6Foff.getD mode 0)).map bc6Field

/-- `bc_sign_extend`. -/
def bcSignExtend (v bits : ℕ) : ℤ :=
  let m := 1 <<< (bits - 1)
  (v ^^^ m : ℕ) - (m : ℕ)

/-- A field goes into its component. -/
def bcDeposit (f : Bitfield) (v acc : ℕ) : ℕ :=
  if f.reverse then
    if f.nBits > 0 then acc ||| shl32 (bitfieldReverse v >>> (32 - f.nBits)) f.offset else acc
  else acc ||| shl32 v f.offset

/-- The three channels of a texel. -/
structure Uvec3 where
  x : ℕ
  y : ℕ
  z : ℕ
deriving DecidableEq

def Uvec3.of (v : ℕ → ℕ) : Uvec3 := ⟨v 0, v 1, v 2⟩

/-- A channel scaled to a half. Division of `int` rounds towards zero. -/
def bcFinish (signed : Bool) (v : ℤ) : ℕ :=
  let v : ℤ :=
    if signed then if v < 0 then ((toUint ((-v * 31).tdiv 32) ||| 0x8000 : ℕ) : ℤ) else (v * 31).tdiv 32
    else (v * 31).tdiv 64
  toUint v &&& 0xffff

/-- One round of the loop over the texels. -/
def tableTexel (blk : Block) (signed : Bool) (m : FloatMode) (nsub part subsets bitBase : ℕ)
    (ep : ℕ → ℕ → ℤ) (texel : ℕ) : Uvec3 :=
  let anchors := bcAnchorsBefore nsub part texel
  let tbit := bitBase + m.nIndexBits * texel - anchors
  let sub := subsets >>> (texel * 2) &&& 3
  let index := bcBits blk tbit (m.nIndexBits - if bcIsAnchor nsub part texel then 1 else 0)
  Uvec3.of fun c => bcFinish signed (bcInterpolate (ep (sub * 2) c) (ep (sub * 2 + 1) c) index m.nIndexBits)

/-- `bc6h_decode_store` with tables. -/
def bc6hDecodeStoreTables (blk : Block) (signed : Bool) : List Uvec3 :=
  let long := bcBits blk 1 1 ≠ 0
  let mode := if long then ((bcBits blk 0 8 >>> 1 &&& 0xe) ||| bcBits blk 0 1) + 2 else bcBits blk 0 2
  let bit := if long then 5 else 2
  let m := bc6Mode mode
  if m.reserved then List.replicate 16 ⟨0, 0, 0⟩
  else
    let ep := m.readEndpoints (bcBits blk) bcDeposit bcSignExtend signed (fun _ _ => 0) bit
    let part := if m.nPartitionBits ≠ 0 then bcBits blk ep.2 m.nPartitionBits else 0
    let subsets := if m.nPartitionBits ≠ 0 then bcPart2.getD part 0 else 0
    let nsub := if m.nPartitionBits ≠ 0 then 2 else 1
    let bitBase := if m.nPartitionBits ≠ 0 then ep.2 + m.nPartitionBits else ep.2
    (List.range 16).map (tableTexel blk signed m nsub part subsets bitBase ep.1)

lemma bc6Mode_eq : ∀ i < 18, bc6Mode i = floatModes.getD i default := by decide

/-- The sign bit is flipped and taken away. -/
theorem bcSignExtend_eq {v n : ℕ} (hn : 0 < n) (hv : v < 2 ^ n) : bcSignExtend v n = signExtend v n := by
  have hpow := Nat.two_pow_pred_mul_two hn
  have hpow' : (2 : ℤ) ^ (n - 1) * 2 = 2 ^ n := by exact_mod_cast hpow
  -- a number below the sign bit, with the sign bit added
  have hadd : ∀ u < 2 ^ (n - 1), 2 ^ (n - 1) ^^^ u = 2 ^ (n - 1) + u := by
    intro u hu
    have hor := two_pow_add_eq_or_of_lt hu 1
    rw [mul_one] at hor
    rw [hor]
    apply eq_of_testBit_eq
    intro i
    rw [testBit_xor, testBit_or, testBit_two_pow]
    by_cases hi : n - 1 = i
    · subst hi
      rw [testBit_eq_false_of_lt hu]
      simp
    · simp [hi]
  unfold bcSignExtend signExtend
  simp only [one_shiftLeft]
  by_cases hlt : v < 2 ^ (n - 1)
  · rw [if_pos hlt, Nat.xor_comm, hadd v hlt]
    push_cast
    ring
  · obtain ⟨u, rfl⟩ : ∃ u, v = 2 ^ (n - 1) + u := ⟨v - 2 ^ (n - 1), by omega⟩
    rw [if_neg hlt, ← hadd u (by omega), Nat.xor_comm (2 ^ (n - 1)) u, Nat.xor_assoc, Nat.xor_self,
      xor_zero, Nat.xor_comm, hadd u (by omega), ← hpow']
    push_cast
    ring

/-- A field is reversed within a word. -/
theorem bitfieldReverse_shift {n : ℕ} (hn : n ≤ 32) (v : ℕ) :
    bitfieldReverse v >>> (32 - n) = reverseBits n v := by
  apply eq_of_testBit_eq
  intro i
  have hword : bitfieldReverse v = reverseBits 32 v := rfl
  rw [testBit_shiftRight, hword, testBit_reverseBits, testBit_reverseBits]
  by_cases hi : i < n
  · have hin : 32 - n + i < 32 := by omega
    have hpos : 32 - 1 - (32 - n + i) = n - 1 - i := by omega
    simp only [hi, hin, hpos]
  · have hin : ¬ 32 - n + i < 32 := by omega
    simp only [hi, hin, decide_false, Bool.false_and]

lemma bcDeposit_eq (f : Bitfield) (hf : f.offset + f.nBits ≤ 16) {v : ℕ} (hv : v < 2 ^ f.nBits) (acc : ℕ) :
    bcDeposit f v acc = acc ||| (if f.reverse then reverseBits f.nBits v else v) <<< f.offset := by
  unfold bcDeposit
  split_ifs with hr hn
  · rw [bitfieldReverse_shift (by omega), shl32_of_lt (reverseBits_lt _ _) (by omega)]
  · have hn0 : f.nBits = 0 := by omega
    have hzero : reverseBits f.nBits v = 0 := by
      have hlt := reverseBits_lt f.nBits v
      rw [hn0] at hlt ⊢
      omega
    rw [hzero, zero_shiftLeft, or_zero]
  · rw [shl32_of_lt hv (by omega)]

lemma and_ffff {n : ℕ} (h : n < 2 ^ 16) : n &&& 0xffff = n := by
  rw [show 0xffff = 2 ^ 16 - 1 from rfl, and_two_pow_sub_one_eq_mod, mod_eq_of_lt h]

lemma bcFinish_eq {signed : Bool} {v : ℤ} (hlo : lowest signed ≤ v) (hhi : v < lowest signed + 2 ^ 16) :
    bcFinish signed v = toHalf signed v := by
  unfold bcFinish toHalf lowest at *
  cases signed with
  | false =>
    simp only [Bool.false_eq_true, if_false] at hlo hhi ⊢
    obtain ⟨n, rfl⟩ := Int.eq_ofNat_of_zero_le hlo
    have hval : ((n : ℤ) * 31).tdiv 64 = ((n * 31 / 64 : ℕ) : ℤ) := by
      rfl
    rw [hval, toUint_natCast (by omega), and_ffff (by omega), Int.natAbs_natCast]
  | true =>
    simp only [if_true] at hlo hhi ⊢
    by_cases hneg : v < 0
    · obtain ⟨n, hn⟩ := Int.eq_ofNat_of_zero_le (show 0 ≤ -v by omega)
      have habs : v.natAbs = n := by omega
      have hval : ((-v) * 31).tdiv 32 = ((n * 31 / 32 : ℕ) : ℤ) := by
        rw [hn, Int.tdiv_eq_ediv_of_nonneg (by omega)]
        rfl
      have hlt : n * 31 / 32 ||| 0x8000 < 2 ^ 16 := or_lt_two_pow (by omega) (by omega)
      rw [if_pos hneg, if_pos hneg, hval, toUint_natCast (n := n * 31 / 32) (by omega),
        toUint_natCast (by omega), and_ffff hlt, habs]
    · obtain ⟨n, rfl⟩ := Int.eq_ofNat_of_zero_le (show 0 ≤ v by omega)
      have hval : ((n : ℤ) * 31).tdiv 32 = ((n * 31 / 32 : ℕ) : ℤ) := by
        rfl
      rw [if_neg hneg, if_neg hneg, hval, toUint_natCast (by omega), and_ffff (by omega),
        Int.natAbs_natCast, or_zero]

/-- The mode is a function of the first byte. -/
theorem mode_bits : ∀ b < 256,
    (if field b 1 1 ≠ 0 then ((b >>> 1 &&& 0xe) ||| field b 0 1) + 2 else field b 0 2) = modeNum b ∧
      (if field b 1 1 ≠ 0 then 5 else 2) = modeStart b := by
  decide +kernel

lemma bcBits_byte (blk : Block) (off n : ℕ) (h : off + n ≤ 8) :
    bcBits blk off n = field (field blk.toNat 0 8) off n := by
  rw [bcBits_eq blk off n (by omega), field_field h, zero_add]

/-- A round of the loop hands over the channels of the texel. -/
theorem FloatMode.Valid.tableTexel_eq {m : FloatMode} {start : ℕ} {blk : Block} (h : m.Valid)
    {signed : Bool} {ep : ℕ → ℕ → ℤ}
    (hep : ∀ e < m.nEndpoints, ∀ c < 3, ep e c = m.unquantized start blk.toNat signed e c) {t : ℕ}
    (ht : t < 16) :
    tableTexel blk signed m m.nSubsets (m.partition start blk.toNat)
        (partitionSubsets m.nSubsets (m.partition start blk.toNat)) (m.indexStart start) ep t =
      Uvec3.of fun c => toHalf signed (m.channel start blk.toNat signed t c) := by
  have hbits : ∀ off n, n ≤ 10 → bcBits blk off n = field blk.toNat off n :=
    fun off n hn => bcBits_eq blk off n (by omega)
  have hchannel : ∀ c < 3, bcFinish signed (bcInterpolate (ep (m.subset start blk.toNat t * 2) c)
      (ep (m.subset start blk.toNat t * 2 + 1) c) (m.index start blk.toNat t) m.nIndexBits) =
      toHalf signed (m.channel start blk.toNat signed t c) := by
    intro c hc
    have hrange : _ ≤ m.channel start blk.toNat signed t c ∧ m.channel start blk.toNat signed t c < _ :=
      h.channel_range signed t c
    rw [h.channel_eq (fun a b n i => bcInterpolate_eq a b) hep ht hc, bcFinish_eq hrange.1 hrange.2]
  unfold tableTexel Uvec3.of
  simp only [bcAnchorsBefore_eq, bcIsAnchor_eq, h.read_index hbits]
  rw [Uvec3.mk.injEq]
  exact ⟨hchannel 0 (by omega), hchannel 1 (by omega), hchannel 2 (by omega)⟩

/-- The table-driven decoder hands over the channels of the block. -/
theorem bc6hDecodeStoreTables_eq (blk : Block) (signed : Bool) :
    bc6hDecodeStoreTables blk signed = (List.range 16).map fun t => Uvec3.of (decode signed blk.toNat t) := by
  have hb : field blk.toNat 0 8 < 256 := field_lt _ _ 8
  have hbyte : bcBits blk 0 8 = field blk.toNat 0 8 := bcBits_eq blk 0 8 (by omega)
  have hmode := mode_bits _ hb
  have hlt := modeNum_lt _ hb
  unfold bc6hDecodeStoreTables decode
  rw [hbyte, bcBits_byte blk 1 1 (by omega), bcBits_byte blk 0 1 (by omega), bcBits_byte blk 0 2 (by omega)]
  simp only [hmode.1, hmode.2, bc6Mode_eq _ hlt]
  cases hr : (floatModes.getD _ default).reserved with
  | true => rfl
  | false =>
    have h := valid_getD hlt hr
    generalize floatModes.getD (modeNum (field blk.toNat 0 8)) default = m at h
    have hbits : ∀ off n, n ≤ 10 → bcBits blk off n = field blk.toNat off n :=
      fun off n hn => bcBits_eq blk off n (by omega)
    have hinit : ∀ e < m.nEndpoints, ∀ c < 3, (fun _ _ => 0 : Endpoints) e c = 0 := fun _ _ _ _ => rfl
    have hep := h.readEndpoints_spec hbits (fun f hf v hv acc => bcDeposit_eq f (h.fields_word f hf) hv acc)
      (fun v n hn _ hv => bcSignExtend_eq hn hv) signed (modeStart (field blk.toNat 0 8)) hinit
    have hpart := h.partition_eq hbits (modeStart (field blk.toNat 0 8))
    have hsub : (if m.nPartitionBits ≠ 0 then 2 else 1) = m.nSubsets := rfl
    simp only [Bool.false_eq_true, if_false, hep.1, hpart, bcPart2_eq, hsub]
    apply List.map_congr_left
    intro t ht
    exact h.tableTexel_eq hep.2 (List.mem_range.mp ht)

end RadvXclipse.Texcompress.Bc6h
