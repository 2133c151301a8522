import RadvXclipse.Lib.BitField
import Mathlib.Tactic.Ring

/-!
# Bit access to a compressed block

A block is 128 bits. The decode shader reads them as the four words of a `uvec4`, the CPU as sixteen
bytes. Every reader below returns the field of the block at the offset it is given.
-/

namespace RadvXclipse.Texcompress

open Lib Nat

/-- A compressed block of 4x4 texels. -/
abbrev Block := BitVec 128

/-- `blk[w]` of the `uvec4`. -/
def Block.word (blk : Block) (w : ℕ) : ℕ := field blk.toNat (32 * w) 32

/-- `block[i]` of the sixteen bytes. -/
def Block.byte (blk : Block) (i : ℕ) : ℕ := field blk.toNat (8 * i) 8

section Glsl

/-- `a << b` on `uint`. -/
def shl32 (a b : ℕ) : ℕ := a <<< b % 2 ^ 32

/-- `a * b` on `uint`. -/
def mul32 (a b : ℕ) : ℕ := a * b % 2 ^ 32

/-- `uint(v)` of an `int`. -/
def toUint (v : ℤ) : ℕ := (v % 2 ^ 32).toNat

/-- `bitfieldExtract`. -/
def bitfieldExtract (value offset bits : ℕ) : ℕ := field value offset bits

/-- `bitfieldInsert`. -/
def bitfieldInsert (base insert offset bits : ℕ) : ℕ :=
  base % 2 ^ offset + insert % 2 ^ bits * 2 ^ offset + base >>> (offset + bits) <<< (offset + bits)

/-- `bitfieldReverse`. -/
def bitfieldReverse (value : ℕ) : ℕ := (BitVec.ofNat 32 value).reverse.toNat

/-- `findLSB`; none for its -1. -/
def findLSB (value : ℕ) : Option ℕ := (List.range 32).find? fun i => value.testBit i

lemma toUint_natCast {n : ℕ} (h : n < 2 ^ 32) : toUint (n : ℤ) = n := by
  unfold toUint
  omega

lemma shl32_of_lt {a b n : ℕ} (ha : a < 2 ^ n) (h : n + b ≤ 32) : shl32 a b = a <<< b := by
  apply mod_eq_of_lt
  rw [shiftLeft_eq]
  calc a * 2 ^ b < 2 ^ n * 2 ^ b := Nat.mul_lt_mul_of_pos_right ha (Nat.two_pow_pos b)
    _ = 2 ^ (n + b) := (pow_add 2 n b).symm
    _ ≤ 2 ^ 32 := Nat.pow_le_pow_right (by omega) h

end Glsl

/-- `bc_bits`. -/
def bcBits (blk : Block) (off n : ℕ) : ℕ :=
  if n = 0 then 0
  else
    let w := off >>> 5
    let s := off &&& 31
    let v := blk.word w >>> s
    let v := if s ≠ 0 ∧ w < 3 then v ||| shl32 (blk.word (w + 1)) (32 - s) else v
    if n ≥ 32 then v else v &&& (1 <<< n - 1)

/-- `bc_win32`. -/
def bcWin32 (blk : Block) (off : ℕ) : ℕ :=
  let w := off >>> 5
  let s := off &&& 31
  let a := if w = 0 then blk.word 0 else if w = 1 then blk.word 1 else if w = 2 then blk.word 2
    else if w = 3 then blk.word 3 else 0
  let b := if w = 0 then blk.word 1 else if w = 1 then blk.word 2 else if w = 2 then blk.word 3 else 0
  if s = 0 then a else (a >>> s) ||| shl32 b (32 - s)

/-- A `uvec2` that holds 64 bits of an index stream. -/
structure Uvec2 where
  x : ℕ
  y : ℕ

/-- `bc_shr64`. -/
def bcShr64 (st : Uvec2) (n : ℕ) : Uvec2 :=
  ⟨if n = 0 then st.x else (st.x >>> n) ||| shl32 st.y (32 - n), st.y >>> n⟩

/-- The loop of `extract_bits`. Every round takes at least one bit, so `n_bits` rounds are
enough. -/
def extractBitsLoop (block : Block) : ℕ → ℕ → ℕ → ℕ → ℕ → ℕ → ℕ → ℕ
  | 0, _, _, _, _, _, result => result
  | fuel + 1, byteIndex, bitIndex, nBits, nBitsInByte, bit, result =>
    let result := result ||| (block.byte byteIndex >>> bitIndex &&& (1 <<< nBitsInByte - 1)) <<< bit
    if nBits ≤ nBitsInByte then result
    else
      extractBitsLoop block fuel (byteIndex + 1) 0 (nBits - nBitsInByte) (min (nBits - nBitsInByte) 8)
        (bit + nBitsInByte) result

/-- `extract_bits`. -/
def extractBits (block : Block) (offset nBits : ℕ) : ℕ :=
  extractBitsLoop block (nBits + 1) (offset / 8) (offset % 8) nBits (min nBits (8 - offset % 8)) 0 0

section Access

variable (blk : Block) (off n : ℕ)

/-- The words past the last one are zero, as is every bit past the last one. -/
theorem word_eq_zero {w : ℕ} (h : 4 ≤ w) : blk.word w = 0 := by
  apply field_eq_zero_of_lt
  exact lt_of_lt_of_le blk.isLt (Nat.pow_le_pow_right (by omega) (by omega))

/-- The 32 bits that begin in word `w`. -/
theorem word_window (w s : ℕ) (hs : s < 32) :
    (blk.word w >>> s) ||| shl32 (blk.word (w + 1)) (32 - s) = field blk.toNat (32 * w + s) 32 := by
  apply eq_of_testBit_eq
  intro i
  unfold shl32 Block.word
  rw [testBit_or, testBit_shiftRight, testBit_mod_two_pow, testBit_shiftLeft, testBit_field,
    testBit_field, testBit_field]
  by_cases hi : s + i < 32
  · have hge : ¬ 32 - s ≤ i := by omega
    have hlt : i < 32 := by omega
    simp only [hi, hge, hlt, decide_true, decide_false, Bool.true_and, Bool.false_and,
      Bool.or_false, add_assoc]
  · have hge : 32 - s ≤ i := by omega
    have hpos : 32 * (w + 1) + (i - (32 - s)) = 32 * w + s + i := by omega
    by_cases hlt : i < 32
    · have hin : i - (32 - s) < 32 := by omega
      simp only [hi, hge, hlt, hin, hpos, decide_true, decide_false, Bool.true_and, Bool.false_and,
        Bool.false_or]
    · simp only [hi, hlt, decide_false, Bool.false_and, Bool.or_false]

lemma shiftRight_five (off : ℕ) : off >>> 5 = off / 32 := shiftRight_eq_div_pow off 5

lemma and_31 (off : ℕ) : off &&& 31 = off % 32 := and_two_pow_sub_one_eq_mod off 5

lemma and_bit (v i : ℕ) : (v &&& 1 <<< i ≠ 0) ↔ v.testBit i = true := by
  rw [one_shiftLeft, and_two_pow]
  cases v.testBit i <;> simp

lemma and_low_mask (v n : ℕ) : v &&& (1 <<< n - 1) = v % 2 ^ n := by
  rw [one_shiftLeft, and_two_pow_sub_one_eq_mod]

/-- Before the mask, `bc_bits` has the 32 bits at the offset. -/
theorem bcBits_window (w s : ℕ) (hs : s < 32) :
    (if s ≠ 0 ∧ w < 3 then (blk.word w >>> s) ||| shl32 (blk.word (w + 1)) (32 - s)
      else blk.word w >>> s) = field blk.toNat (32 * w + s) 32 := by
  by_cases hs0 : s = 0
  · subst hs0
    rfl
  · by_cases hw : w < 3
    · rw [if_pos ⟨hs0, hw⟩, word_window blk w s hs]
    · -- the next word is past the end
      rw [if_neg (by omega), ← word_window blk w s hs, word_eq_zero blk (w := w + 1) (by omega)]
      simp [shl32]

lemma bcBits_eq (hn : n ≤ 32) : bcBits blk off n = field blk.toNat off n := by
  unfold bcBits
  by_cases hn0 : n = 0
  · rw [if_pos hn0, hn0, field_width_zero]
  · have hoff : 32 * (off / 32) + off % 32 = off := div_add_mod off 32
    simp only [if_neg hn0, shiftRight_five, and_31]
    rw [bcBits_window blk _ _ (mod_lt off (by omega)), hoff, and_low_mask]
    by_cases hn32 : n = 32
    · rw [if_pos (by omega), hn32]
    · rw [if_neg (by omega), field_mod hn]

lemma bcWin32_eq : bcWin32 blk off = field blk.toNat off 32 := by
  have hoff : 32 * (off / 32) + off % 32 = off := div_add_mod off 32
  have hword : ∀ w, (if w = 0 then blk.word 0 else if w = 1 then blk.word 1 else if w = 2 then blk.word 2
      else if w = 3 then blk.word 3 else 0) = blk.word w := by
    intro w
    split_ifs with h0 h1 h2 h3 <;> try subst w
    all_goals first | rfl | exact (word_eq_zero blk (by omega)).symm
  have hnext : ∀ w, (if w = 0 then blk.word 1 else if w = 1 then blk.word 2 else if w = 2 then blk.word 3
      else 0) = blk.word (w + 1) := by
    intro w
    split_ifs with h0 h1 h2 <;> try subst w
    all_goals first | rfl | exact (word_eq_zero blk (by omega)).symm
  unfold bcWin32
  simp only [shiftRight_five, and_31, hword, hnext]
  by_cases hs : off % 32 = 0
  · rw [if_pos hs]
    unfold Block.word
    rw [show 32 * (off / 32) = off by omega]
  · rw [if_neg hs, word_window blk _ _ (mod_lt off (by omega)), hoff]

/-- The number in a pair of words. -/
def Uvec2.value (st : Uvec2) : ℕ := st.x + 2 ^ 32 * st.y

/-- Two windows of the block, one after the other. -/
theorem win64_value : (⟨bcWin32 blk off, bcWin32 blk (off + 32)⟩ : Uvec2).value = field blk.toNat off 64 := by
  rw [bcWin32_eq, bcWin32_eq]
  exact (field_add blk.toNat off 32 32).symm

end Access

/-- A pair of words of 32 bits each. -/
structure Uvec2.Wf (st : Uvec2) : Prop where
  x_lt : st.x < 2 ^ 32
  y_lt : st.y < 2 ^ 32

lemma Uvec2.Wf.win64 (blk : Block) (off : ℕ) : (⟨bcWin32 blk off, bcWin32 blk (off + 32)⟩ : Uvec2).Wf := by
  rw [bcWin32_eq, bcWin32_eq]
  exact ⟨field_lt _ _ _, field_lt _ _ _⟩

/-- The low bits of the pair are those of its first word. -/
theorem bitfieldExtract_low {st : Uvec2} {n : ℕ} (hn : n ≤ 32) :
    bitfieldExtract st.x 0 n = st.value % 2 ^ n := by
  have hdvd : 2 ^ n ∣ 2 ^ 32 * st.y := Dvd.dvd.mul_right (pow_dvd_pow 2 hn) _
  unfold bitfieldExtract field Uvec2.value
  rw [shiftRight_zero, add_mod, mod_eq_zero_of_dvd hdvd, add_zero, mod_mod]

lemma bcShr64_spec {st : Uvec2} (h : st.Wf) {n : ℕ} (hn : n < 32) :
    (bcShr64 st n).Wf ∧ (bcShr64 st n).value = st.value >>> n := by
  have hx := h.x_lt
  have hy := h.y_lt
  -- the pair as fields of its number
  have hlow : st.x = field st.value 0 32 := by
    unfold field Uvec2.value
    omega
  have hhigh : st.y = field st.value 32 32 := by
    unfold field Uvec2.value
    omega
  have hlt : st.value < 2 ^ 64 := by
    unfold Uvec2.value
    omega
  have hxn : (bcShr64 st n).x = field st.value n 32 := by
    unfold bcShr64
    by_cases hn0 : n = 0
    · subst hn0
      exact hlow
    · have hw := word_window (BitVec.ofNat 128 st.value) 0 n hn
      unfold Block.word at hw
      rw [BitVec.toNat_ofNat, mod_eq_of_lt (by omega)] at hw
      simp only [if_neg hn0]
      rw [hlow, hhigh]
      simpa using hw
  have hyn : (bcShr64 st n).y = field st.value (n + 32) 32 := by
    have hshift : (bcShr64 st n).y = field st.value 32 32 >>> n := by rw [← hhigh]; rfl
    have hzero : field st.value (32 + n + (32 - n)) n = 0 :=
      field_eq_zero_of_lt (by rw [show 32 + n + (32 - n) = 64 by omega]; exact hlt)
    rw [hshift, field_shift (by omega), add_comm n 32, show 32 = 32 - n + n by omega, field_add,
      show 32 - n + n + n = 32 + n by omega, hzero, mul_zero, add_zero,
      show 32 - n + n - n = 32 - n by omega]
  have hvalue : st.value >>> n = field st.value n 64 := by
    have hle : st.value >>> n < 2 ^ 64 := lt_of_le_of_lt (shiftRight_le st.value n) hlt
    exact (mod_eq_of_lt hle).symm
  refine ⟨⟨?_, ?_⟩, ?_⟩
  · rw [hxn]
    exact field_lt _ _ _
  · rw [hyn]
    exact field_lt _ _ _
  · rw [hvalue, show 64 = 32 + 32 from rfl, field_add, Uvec2.value, hxn, hyn]

/-- A pair of words that shows `left` bits of `x` from bit `pos` on. -/
structure Uvec2.Shows (st : Uvec2) (x pos left : ℕ) : Prop where
  wf : st.Wf
  value : st.value = field x pos left

section Stream

variable {st : Uvec2} {x pos left n : ℕ}

lemma Uvec2.Shows.win64 (blk : Block) (off : ℕ) :
    (⟨bcWin32 blk off, bcWin32 blk (off + 32)⟩ : Uvec2).Shows blk.toNat off 64 :=
  ⟨.win64 blk off, win64_value blk off⟩

/-- The low bits are the next field. -/
theorem Uvec2.Shows.read (h : st.Shows x pos left) (hn : n ≤ left) (hn32 : n < 32) :
    bitfieldExtract st.x 0 n = field x pos n := by
  rw [bitfieldExtract_low (by omega), h.value, field_mod hn]

/-- The pair is shifted on to the field after it. -/
theorem Uvec2.Shows.shift (h : st.Shows x pos left) (hn : n ≤ left) (hn32 : n < 32) :
    (bcShr64 st n).Shows x (pos + n) (left - n) := by
  have hspec := bcShr64_spec h.wf hn32
  refine ⟨hspec.1, ?_⟩
  rw [hspec.2, h.value, field_shift hn]

end Stream

section ExtractBits

variable (block : Block)

/-- A byte shifted and masked is a field of the block. -/
theorem byte_field {i b n : ℕ} (h : b + n ≤ 8) :
    block.byte i >>> b &&& (1 <<< n - 1) = field block.toNat (8 * i + b) n := by
  rw [and_low_mask]
  exact field_field h

/-- The loop adds the bits that are left to those it has. -/
theorem extractBitsLoop_eq (start fuel : ℕ) :
    ∀ byteIndex bitIndex nBits nBitsInByte bit, nBits < fuel → nBitsInByte = min nBits (8 - bitIndex) →
      bitIndex < 8 → 8 * byteIndex + bitIndex = start + bit →
      extractBitsLoop block fuel byteIndex bitIndex nBits nBitsInByte bit (field block.toNat start bit) =
        field block.toNat start (bit + nBits) := by
  induction fuel with
  | zero => omega
  | succ fuel ih =>
    intro byteIndex bitIndex nBits nBitsInByte bit hfuel hin hbit hpos
    have hresult : field block.toNat start bit |||
        (block.byte byteIndex >>> bitIndex &&& (1 <<< nBitsInByte - 1)) <<< bit =
        field block.toNat start (bit + nBitsInByte) := by
      rw [byte_field block (by omega), hpos, field_append]
    simp only [extractBitsLoop]
    rw [hresult]
    by_cases hlast : nBits ≤ nBitsInByte
    · rw [if_pos hlast, show nBitsInByte = nBits by omega]
    · rw [if_neg hlast, ih _ _ _ _ _ (by omega) (by omega) (by omega) (by omega)]
      congr 1
      omega

lemma extractBits_eq (offset n : ℕ) : extractBits block offset n = field block.toNat offset n := by
  have h := extractBitsLoop_eq block offset (n + 1) (offset / 8) (offset % 8) n _ 0 (by omega) rfl
    (mod_lt _ (by omega)) (by omega)
  rw [field_width_zero, zero_add] at h
  exact h

end ExtractBits

end RadvXclipse.Texcompress
