import RadvXclipse.Texcompress.Bc6hSpecial
import RadvXclipse.Texcompress.Rows

/-!
# The BC6H decoder of the CPU

`decompress_rgb_fp16_block` and `decompress_rgb_float_block` of `texcompress_bptc_tmp.h`. The
elements of the memory they write are halves and floats, as their bits.
-/

namespace RadvXclipse.Texcompress.Bc6h

open Lib List Nat Bool

/-- `util_sign_extend`. -/
def utilSignExtend (val width : ℕ) : ℤ :=
  ((BitVec.ofNat 64 val <<< (64 - width)).sshiftRight (64 - width)).toInt

/-- A field goes into its component; a reversed one bit by bit. -/
def deposit (f : Bitfield) (value acc : ℕ) : ℕ :=
  if f.reverse then
    (range f.nBits).foldl
      (fun acc i => if value &&& 1 <<< i ≠ 0 then acc ||| 1 <<< (f.nBits - 1 - i + f.offset) else acc) acc
  else acc ||| value <<< f.offset

/-- `extract_float_endpoints`. The array is cleared as far as the mode uses it. -/
def extractFloatEndpoints (mode : FloatMode) (block : Block) (bitOffset : ℕ) (junk : Endpoints)
    (signed : Bool) :
    (ℕ → ℕ → ℤ) × ℕ :=
  mode.readEndpoints (extractBits block) deposit utilSignExtend signed
    (fun e c => if e < mode.nEndpoints ∧ c < 3 then 0 else junk e c) bitOffset

/-- `finish_signed_unquantize`. -/
def finishSignedUnquantize (value : ℤ) : ℤ :=
  if value < 0 then ((((-value * 31).tdiv 32).toNat ||| 0x8000 : ℕ) : ℤ) else (value * 31).tdiv 32

/-- `finish_unsigned_unquantize`. -/
def finishUnsignedUnquantize (value : ℤ) : ℤ := (value * 31).tdiv 64

/-- The four elements of a texel. -/
def texelResult (block : Block) (signed : Bool) (mode : FloatMode)
    (nSubsets partitionNum subsets bitOffset : ℕ) (endpoints : ℕ → ℕ → ℤ) (texel c : ℕ) : ℕ :=
  let anchorsBeforeTexel := countAnchorsBeforeTexel nSubsets partitionNum texel
  let bitOffset := bitOffset + mode.nIndexBits * texel - anchorsBeforeTexel
  let subset := subsetNum subsets texel
  let indexBits := mode.nIndexBits - if isAnchor nSubsets partitionNum texel then 1 else 0
  let index := extractBits block bitOffset indexBits
  if c < 3 then
    let value := interpolate (endpoints (subset * 2) c) (endpoints (subset * 2 + 1) c) index mode.nIndexBits
    let value := if signed then finishSignedUnquantize value else finishUnsignedUnquantize value
    (value % 2 ^ 16).toNat
  else 0x3c00

/-- A row of a block of a reserved mode. -/
def clearRow (alpha srcWidth : ℕ) (mem : Memory) (dstRow : ℕ) : Memory :=
  ((range srcWidth).foldl
    (fun (st : Memory × ℕ) _ => (Function.update st.1 (st.2 + 3) alpha, st.2 + 4))
    (memset mem dstRow 0 (4 * srcWidth), dstRow)).1

/-- The steps that both decoders share, for elements that are made from halves: `alpha` is that of
a reserved mode. The row stride counts elements. -/
def decompressBlock (elem : ℕ → ℕ → ℕ) (alpha stride : ℕ) (junk : Endpoints)
    (srcWidth srcHeight : ℕ) (block : Block) (mem : Memory) (dstRow : ℕ) (signed : Bool) : Memory :=
  let b := block.byte 0
  let mode := floatModes.getD (modeNum b) default
  let bitOffsetHead := modeStart b
  if mode.reserved then
    (storeRows srcHeight stride (fun _ => clearRow alpha srcWidth) mem dstRow).1
  else
    let endpoints := extractFloatEndpoints mode block bitOffsetHead junk signed
    let partitionNum :=
      if mode.nPartitionBits ≠ 0 then extractBits block endpoints.2 mode.nPartitionBits else 0
    let subsets := if mode.nPartitionBits ≠ 0 then partitionTable1.getD partitionNum 0 else 0
    let nSubsets := if mode.nPartitionBits ≠ 0 then 2 else 1
    let bitOffsetHead :=
      if mode.nPartitionBits ≠ 0 then endpoints.2 + mode.nPartitionBits else endpoints.2
    (storeRows srcHeight stride
      (fun y => storeRow srcWidth y fun texel c => elem c
        (texelResult block signed mode nSubsets partitionNum subsets bitOffsetHead endpoints.1
          texel c)) mem dstRow).1

/-- `decompress_rgb_fp16_block`: the memory after it. `dstRowstride` counts bytes, and the alpha of
a reserved mode is a float one stored as an integer. -/
def decompressRgbFp16Block (junk : Endpoints) (srcWidth srcHeight : ℕ) (block : Block)
    (mem : Memory) (dstRow dstRowstride : ℕ) (signed : Bool) : Memory :=
  decompressBlock (fun _ v => v) 1 (dstRowstride / 2) junk srcWidth srcHeight block mem dstRow signed

/-- `_mesa_half_to_float`, on bits: a half is one hidden bit and a fraction times a power of two, or
a number of `2 ^ -24`. -/
def mesaHalfToFloat (val : ℕ) : ℕ :=
  let sign := val / 2 ^ 15 % 2
  let exponent := val / 2 ^ 10 % 2 ^ 5
  let fraction := val % 2 ^ 10
  let magnitude :=
    if exponent = 31 then 255 * 2 ^ 23 + fraction * 2 ^ 13
    else if exponent ≠ 0 then (exponent + 112) * 2 ^ 23 + fraction * 2 ^ 13
    else if fraction ≠ 0 then
      (Nat.log 2 fraction + 103) * 2 ^ 23 + (fraction * 2 ^ (23 - Nat.log 2 fraction) - 2 ^ 23)
    else 0
  sign * 2 ^ 31 + magnitude

/-- `1.0f`. -/
def floatOne : ℕ := 0x3f800000

/-- `decompress_rgb_float_block`. -/
def decompressRgbFloatBlock (junk : Endpoints) (srcWidth srcHeight : ℕ) (block : Block)
    (mem : Memory) (dstRow dstRowstride : ℕ) (signed : Bool) : Memory :=
  decompressBlock (fun c v => if c < 3 then mesaHalfToFloat v else floatOne) floatOne
    (dstRowstride / 4) junk srcWidth srcHeight block mem dstRow signed

/-- The block is of a reserved mode. -/
def reserved (block : Block) : Bool := (floatModes.getD (modeNum (block.byte 0)) default).reserved

section Parts

lemma utilSignExtend_eq {v n : ℕ} (hn : 0 < n) (hn64 : n ≤ 64) (hv : v < 2 ^ n) :
    utilSignExtend v n = signExtend v n := by
  have hsplit : 2 ^ n * 2 ^ (64 - n) = 2 ^ 64 := by rw [← pow_add, Nat.add_sub_cancel' hn64]
  have hhalf := Nat.two_pow_pred_mul_two hn
  have hpos : 0 < 2 ^ (64 - n) := Nat.two_pow_pos _
  have hlt : v * 2 ^ (64 - n) < 2 ^ 64 := by
    rw [← hsplit]
    exact Nat.mul_lt_mul_of_pos_right hv hpos
  have hval : (BitVec.ofNat 64 v <<< (64 - n)).toNat = v * 2 ^ (64 - n) := by
    have hv64 : v < 2 ^ 64 := lt_of_le_of_lt (Nat.le_mul_of_pos_right v hpos) hlt
    rw [BitVec.toNat_shiftLeft, BitVec.toNat_ofNat, mod_eq_of_lt hv64, shiftLeft_eq, mod_eq_of_lt hlt]
  -- the sign bit of the shifted number is that of the number
  have hsign : 2 * (v * 2 ^ (64 - n)) < 2 ^ 64 ↔ v < 2 ^ (n - 1) := by
    rw [← hsplit, ← mul_assoc, Nat.mul_lt_mul_right hpos]
    omega
  have hcast : (2 : ℤ) ^ n * 2 ^ (64 - n) = 18446744073709551616 := by exact_mod_cast hsplit
  unfold utilSignExtend signExtend
  rw [BitVec.toInt_sshiftRight, BitVec.toInt_eq_toNat_cond, hval, Int.shiftRight_eq_div_pow]
  simp only [hsign]
  split_ifs
  · push_cast
    exact Int.mul_ediv_cancel _ (by positivity)
  · push_cast
    rw [← hcast, ← sub_mul]
    exact Int.mul_ediv_cancel _ (by positivity)

/-- The loop that reverses a field. -/
theorem foldl_reverse {n k : ℕ} (hk : k ≤ n) (v off acc : ℕ) (j : ℕ) :
    ((range k).foldl
      (fun acc i => if v &&& 1 <<< i ≠ 0 then acc ||| 1 <<< (n - 1 - i + off) else acc) acc).testBit j =
      (acc.testBit j || (decide (off ≤ j ∧ j < off + n ∧ n - 1 - (j - off) < k) && v.testBit (n - 1 - (j - off)))) := by
  induction k with
  | zero => simp
  | succ k ih =>
    rw [range_succ, foldl_append, foldl_cons, foldl_nil]
    have hprev := ih (by omega)
    generalize (range k).foldl _ _ = r at hprev
    -- bit `k` of the field goes to bit `n - 1 - k + off`
    have hstep : (if v &&& 1 <<< k ≠ 0 then r ||| 1 <<< (n - 1 - k + off) else r).testBit j =
        (r.testBit j || (decide (n - 1 - k + off = j) && v.testBit k)) := by
      simp only [and_bit]
      split_ifs with hbit
      · rw [testBit_or, one_shiftLeft, testBit_two_pow, hbit, Bool.and_true]
      · rw [not_eq_true] at hbit
        rw [hbit, Bool.and_false, Bool.or_false]
    rw [hstep, hprev, Bool.or_assoc]
    congr 1
    by_cases hj : n - 1 - k + off = j
    · have hin : off ≤ j ∧ j < off + n := by omega
      have hk' : n - 1 - (j - off) = k := by omega
      simp [hj, hin, hk']
    · have hiff : (off ≤ j ∧ j < off + n ∧ n - 1 - (j - off) < k) ↔
          (off ≤ j ∧ j < off + n ∧ n - 1 - (j - off) < k + 1) := by omega
      simp only [hj, hiff, decide_false, Bool.false_and, Bool.or_false]

lemma deposit_eq (f : Bitfield) (v acc : ℕ) :
    deposit f v acc = acc ||| (if f.reverse then reverseBits f.nBits v else v) <<< f.offset := by
  unfold deposit
  split_ifs
  · apply eq_of_testBit_eq
    intro j
    rw [foldl_reverse (le_refl _), testBit_or, testBit_shiftLeft, testBit_reverseBits]
    congr 1
    by_cases hj : f.offset ≤ j
    · by_cases hlt : j - f.offset < f.nBits
      · simp [hj, hlt, show j < f.offset + f.nBits by omega]
        omega
      · simp [hj, hlt, show ¬ j < f.offset + f.nBits by omega]
    · simp [hj]
  · rfl

lemma finish_eq {signed : Bool} {v : ℤ} (hlo : lowest signed ≤ v) (hhi : v < lowest signed + 2 ^ 16) :
    ((if signed then finishSignedUnquantize v else finishUnsignedUnquantize v) % 2 ^ 16).toNat =
      toHalf signed v := by
  -- the shader computes the same number and masks it
  rw [← bcFinish_eq hlo hhi]
  have hmask : ∀ u : ℤ, (u % 2 ^ 16).toNat = toUint u &&& 0xffff := by
    intro u
    unfold toUint
    rw [show 0xffff = 2 ^ 16 - 1 from rfl, and_two_pow_sub_one_eq_mod]
    omega
  unfold bcFinish
  rw [hmask]
  unfold finishSignedUnquantize finishUnsignedUnquantize
  cases signed with
  | false => rfl
  | true =>
    by_cases hneg : v < 0
    · unfold lowest at hlo hhi
      obtain ⟨n, hn⟩ := Int.eq_ofNat_of_zero_le (show 0 ≤ -v by omega)
      have hval : ((-v) * 31).tdiv 32 = ((n * 31 / 32 : ℕ) : ℤ) := by
        rw [hn, Int.tdiv_eq_ediv_of_nonneg (by omega)]
        rfl
      have hn16 : n ≤ 2 ^ 15 := by
        omega
      simp only [if_true, if_pos hneg, hval, Int.toNat_natCast]
      rw [toUint_natCast (n := n * 31 / 32) (by omega)]
    · simp only [if_true, if_neg hneg]

/-- What a cleared row holds. -/
theorem clearRow_eq (alpha w : ℕ) (mem : Memory) (dstRow : ℕ) :
    clearRow alpha w mem dstRow = fun a =>
      if dstRow ≤ a ∧ a < dstRow + 4 * w then if (a - dstRow) % 4 = 3 then alpha else 0 else mem a := by
  have hwrite : ∀ (mem : Memory) (p x a : ℕ), Function.update mem (p + 3) alpha a =
      if p ≤ a ∧ a < p + 4 then if a - p = 3 then alpha else mem a else mem a := by
    intro mem p _ a
    rw [Function.update_apply]
    split_ifs <;> first | rfl | omega
  unfold clearRow
  rw [foldl_row (fun mem p _ => Function.update mem (p + 3) alpha)
    (fun _ j v => if j = 3 then alpha else v) hwrite]
  funext a
  unfold memset
  dsimp only
  split_ifs <;> rfl

end Parts

lemma FloatMode.Valid.texelResult_eq {m : FloatMode} {start : ℕ} {block : Block} (h : m.Valid)
    {signed : Bool} {ep : ℕ → ℕ → ℤ}
    (hep : ∀ e < m.nEndpoints, ∀ c < 3, ep e c = m.unquantized start block.toNat signed e c)
    {t c : ℕ} (ht : t < 16) (hc : c < 3) :
    texelResult block signed m m.nSubsets (m.partition start block.toNat)
        (partitionSubsets m.nSubsets (m.partition start block.toNat)) (m.indexStart start) ep t c =
      toHalf signed (m.channel start block.toNat signed t c) := by
  have hbits : ∀ off n, n ≤ 10 → extractBits block off n = field block.toNat off n :=
    fun off n _ => extractBits_eq block off n
  have hrange : _ ≤ m.channel start block.toNat signed t c ∧ m.channel start block.toNat signed t c < _ :=
    h.channel_range signed t c
  have hchannel := h.channel_eq (fun a b n i => interpolate_eq a b) hep ht hc
  unfold subset at hchannel
  unfold texelResult
  simp only [h.read_index hbits, if_pos hc, hchannel]
  exact finish_eq hrange.1 hrange.2

section Blocks

variable (junk : Endpoints) {w h x y c : ℕ} (hw : w ≤ 4) (hh : h ≤ 4) (block : Block) (mem : Memory)
  (dstRow : ℕ) {stride : ℕ} (signed : Bool) (hx : x < w) (hy : y < h)
include hw hh hx hy

/-- The decoders write the channels of the block that are in the image, and alpha. -/
theorem decompressBlock_eq (elem : ℕ → ℕ → ℕ) (helem : ∀ c < 3, elem c 0 = 0) (alpha : ℕ)
    (hstride : 4 * w ≤ stride) (hc : c < 4) :
    decompressBlock elem alpha stride junk w h block mem dstRow signed (dstRow + y * stride + (4 * x + c)) =
      if c < 3 then elem c (decode signed block.toNat (x + y * 4) c)
      else if reserved block then alpha else elem c 0x3c00 := by
  have hb : field block.toNat 0 8 < 256 := field_lt _ _ 8
  have hlt := modeNum_lt _ hb
  have hmod : (4 * x + c) % 4 = c := by omega
  have hbyte : block.byte 0 = field block.toNat 0 8 := rfl
  unfold reserved decompressBlock decode
  rw [hbyte]
  cases hr : (floatModes.getD _ default).reserved with
  | true =>
    have hrows := storeRows_eq _ (fun _ j => if j % 4 = 3 then alpha else 0)
      (fun _ => clearRow_eq alpha w) hstride mem dstRow h
    simp only [hr, if_true]
    rw [hrows.2 y hy (4 * x + c) (by omega), hmod]
    split_ifs
    · omega
    · rfl
    · exact (helem c ‹_›).symm
    · omega
  | false =>
    have hvalid := valid_getD hlt hr
    simp only [hr, false_eq_true, if_false]
    generalize floatModes.getD (modeNum (field block.toNat 0 8)) default = m at hvalid
    have hbits : ∀ off n, n ≤ 10 → extractBits block off n = field block.toNat off n :=
      fun off n _ => extractBits_eq block off n
    have hinit : ∀ e < m.nEndpoints, ∀ c < 3,
        (fun e c => if e < m.nEndpoints ∧ c < 3 then 0 else junk e c : Endpoints) e c = 0 :=
      fun e he c hc => if_pos ⟨he, hc⟩
    have hep := hvalid.readEndpoints_spec hbits (fun f _ v _ acc => deposit_eq f v acc)
      (fun v n hn hn16 hv => utilSignExtend_eq hn (by omega) hv) signed
        (modeStart (field block.toNat 0 8)) hinit
    have hpart := hvalid.partition_eq hbits (modeStart (field block.toNat 0 8))
    have hsub : (if m.nPartitionBits ≠ 0 then 2 else 1) = m.nSubsets := rfl
    unfold extractFloatEndpoints
    simp only [hep.1, hpart, hsub]
    generalize hst : (m.readEndpoints (extractBits block) deposit utilSignExtend signed _ _).1 = ep at *
    rw [storeRows_storeRow _ hstride mem dstRow hx hy hc]
    split_ifs with hc3
    · rw [hvalid.texelResult_eq hep.2 (by omega) hc3]
    · rw [texelResult, if_neg hc3]

lemma decompressRgbFp16Block_eq (hstride : 4 * w ≤ stride / 2) (hc : c < 4) :
    decompressRgbFp16Block junk w h block mem dstRow stride signed (dstRow + y * (stride / 2) + (4 * x + c)) =
      if c < 3 then decode signed block.toNat (x + y * 4) c else if reserved block then 1 else 0x3c00 :=
  decompressBlock_eq junk hw hh block mem dstRow signed hx hy (fun _ v => v) (fun _ _ => rfl) 1 hstride hc

lemma decompressRgbFloatBlock_eq (hstride : 4 * w ≤ stride / 4) (hc : c < 4) :
    decompressRgbFloatBlock junk w h block mem dstRow stride signed (dstRow + y * (stride / 4) + (4 * x + c)) =
      if c < 3 then mesaHalfToFloat (decode signed block.toNat (x + y * 4) c) else floatOne := by
  refine (decompressBlock_eq junk hw hh block mem dstRow signed hx hy
    (fun c v => if c < 3 then mesaHalfToFloat v else floatOne)
      (fun c hc => if_pos hc) floatOne hstride hc).trans ?_
  split_ifs <;> rfl

end Blocks

lemma mesaHalfToFloat_one_ne : mesaHalfToFloat 1 ≠ floatOne := by
  norm_num [mesaHalfToFloat, floatOne]

/-- The halves are the floats, but for the alpha of a reserved mode. -/
theorem decompressRgbFp16Block_eq_float_iff (junk junk' : Endpoints) {w h : ℕ} (hw : w ≤ 4) (hh : h ≤ 4)
    (block : Block) (signed : Bool) (mem mem' : Memory) (dstRow dstRow' : ℕ) {stride stride' : ℕ}
    (hstride : 4 * w ≤ stride / 2) (hstride' : 4 * w ≤ stride' / 4) :
    (∀ x < w, ∀ y < h, ∀ c < 4,
      mesaHalfToFloat (decompressRgbFp16Block junk w h block mem dstRow stride signed
        (dstRow + y * (stride / 2) + (4 * x + c))) =
      decompressRgbFloatBlock junk' w h block mem' dstRow' stride' signed
        (dstRow' + y * (stride' / 4) + (4 * x + c))) ↔ (reserved block = true → w = 0 ∨ h = 0) := by
  constructor
  · intro hall hr
    by_contra hne
    have halpha := hall 0 (by omega) 0 (by omega) 3 (by decide)
    rw [decompressRgbFp16Block_eq junk hw hh block mem dstRow signed (by omega) (by omega) hstride (by decide),
      decompressRgbFloatBlock_eq junk' hw hh block mem' dstRow' signed (by omega)
        (by omega) hstride' (by decide),
      hr] at halpha
    exact mesaHalfToFloat_one_ne halpha
  · intro hr x hx y hy c hc
    have hvalid : reserved block ≠ true := fun hres => by have := hr hres; omega
    rw [decompressRgbFp16Block_eq junk hw hh block mem dstRow signed hx hy hstride hc,
      decompressRgbFloatBlock_eq junk' hw hh block mem' dstRow' signed hx hy hstride' hc, if_neg hvalid]
    split_ifs
    · rfl
    · decide

/-- The blue of a texel of a signed block with two subsets. -/
theorem decompressRgbFp16Block_eq_float_signed :
    mesaHalfToFloat (decompressRgbFp16Block (fun _ _ => 7) 4 4 0x123456789abcdef0fedcba9876543210#128
      (fun _ => 0) 100 32 true (100 + 1 * (32 / 2) + (4 * 2 + 2))) =
    decompressRgbFloatBlock (fun _ _ => 9) 4 4 0x123456789abcdef0fedcba9876543210#128 (fun _ => 1) 0 64
      true (0 + 1 * (64 / 4) + (4 * 2 + 2)) ∧
    decompressRgbFp16Block (fun _ _ => 7) 4 4 0x123456789abcdef0fedcba9876543210#128
      (fun _ => 0) 100 32 true (100 + 1 * (32 / 2) + (4 * 2 + 2)) = 3627 :=
  ⟨(decompressRgbFp16Block_eq_float_iff _ _ (by decide) (by decide) _ _ _ _ _ _ (by decide)
    (by decide)).mpr (fun hr => absurd hr (by decide)) 2 (by decide) 1 (by decide) 2 (by decide),
    by decide +kernel⟩

/-- The alpha of a texel of a reserved mode is the smallest half and the float one. -/
theorem decompressRgbFp16Block_ne_float_reserved :
    decompressRgbFp16Block (fun _ _ => 7) 1 1 0x13#128 (fun _ => 0) 0 8 false 3 = 1 ∧
      decompressRgbFloatBlock (fun _ _ => 7) 1 1 0x13#128 (fun _ => 0) 0 16 false 3 = floatOne ∧
      mesaHalfToFloat 1 ≠ floatOne :=
  ⟨by decide, by decide, mesaHalfToFloat_one_ne⟩

/-- A channel of a texel as the shader hands it over. -/
def Uvec3.get (v : Uvec3) (c : ℕ) : ℕ := if c = 0 then v.x else if c = 1 then v.y else v.z

lemma Uvec3.get_of (v : ℕ → ℕ) {c : ℕ} (hc : c < 3) : (Uvec3.of v).get c = v c := by
  interval_cases c <;> rfl

/-- Both paths of the shader and the decoder of the CPU give every channel of every texel the same
half. -/
theorem bc6hDecodeStore_eq_tables_eq_cpu (junk : Endpoints) (block : Block) (signed : Bool) (mem : Memory)
    (dstRow : ℕ) {w h stride : ℕ} (hw : w ≤ 4) (hh : h ≤ 4) (hstride : 4 * w ≤ stride / 2)
    {x y c : ℕ} (hx : x < w) (hy : y < h) (hc : c < 3) :
    bc6hDecodeStore block signed = bc6hDecodeStoreTables block signed ∧
      ((bc6hDecodeStore block signed).getD (x + y * 4) ⟨0, 0, 0⟩).get c =
        decompressRgbFp16Block junk w h block mem dstRow stride signed
          (dstRow + y * (stride / 2) + (4 * x + c)) := by
  have ht : x + y * 4 < 16 := by omega
  rw [decompressRgbFp16Block_eq junk hw hh block mem dstRow signed hx hy hstride (by omega),
    if_pos hc, bc6hDecodeStore_eq, bc6hDecodeStoreTables_eq]
  refine ⟨rfl, ?_⟩
  rw [getD_eq_getElem _ _ (by simpa using ht), getElem_map, getElem_range, Uvec3.get_of _ hc]

/-- The blue of a texel of a signed block with two subsets. -/
theorem bc6hDecodeStore_eq_tables_eq_cpu_signed :
    (bc6hDecodeStore 0x123456789abcdef0fedcba9876543210#128 true =
        bc6hDecodeStoreTables 0x123456789abcdef0fedcba9876543210#128 true ∧
      ((bc6hDecodeStore 0x123456789abcdef0fedcba9876543210#128 true).getD (2 + 1 * 4) ⟨0, 0, 0⟩).get 2 =
        decompressRgbFp16Block (fun _ _ => 7) 4 4 0x123456789abcdef0fedcba9876543210#128 (fun _ => 0) 100 32 true
          (100 + 1 * (32 / 2) + (4 * 2 + 2))) ∧
    ((bc6hDecodeStore 0x123456789abcdef0fedcba9876543210#128 true).getD (2 + 1 * 4) ⟨0, 0, 0⟩).get 2 = 3627 :=
  ⟨bc6hDecodeStore_eq_tables_eq_cpu _ _ _ _ _ (by decide) (by decide) (by decide) (by decide) (by decide)
    (by decide), by decide +kernel⟩

end RadvXclipse.Texcompress.Bc6h
