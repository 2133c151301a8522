import RadvXclipse.Lib.BitField
import RadvXclipse.Sdma.Linear

/-!
# Which ranges are copied and filled

A fill covers its range whatever its size. A copy takes as much of the size as its low 32 bits say,
because the mask `align` has 32 bits: below 4 GiB that is right, and from 4 GiB on the upper part of
the size is never taken off, so the loop goes on for ever.
-/

namespace RadvXclipse.Sdma

open Lib List Nat
open BitVec hiding shiftLeft_eq add_assoc

section Numbers

lemma pos_iff_toNat (x : BitVec 64) : 0 < x ↔ 0 < x.toNat := lt_def

lemma toNat_min2 (a b : BitVec 64) : (min2 a b).toNat = min a.toNat b.toNat := by
  unfold min2
  split_ifs with h
  · rw [lt_def] at h
    omega
  · rw [lt_def] at h
    omega

/-- `n & ~0x3u` on 64 bits. -/
theorem and_dword_mask (n : ℕ) : n &&& 0xfffffffc = n % 2 ^ 32 - n % 4 := by
  rw [show 0xfffffffc = (2 ^ 30 - 1) <<< 2 from rfl, and_mask, field, shiftLeft_eq, shiftRight_eq_div_pow]
  omega

/-- What the mask leaves of the size. -/
theorem toNat_masked (src dst size : BitVec 64) :
    (size &&& (copyAlign src dst size).setWidth 64).toNat = size.toNat % 2 ^ 32 ∨
      (size &&& (copyAlign src dst size).setWidth 64).toNat = size.toNat % 2 ^ 32 - size.toNat % 4 := by
  unfold copyAlign
  split_ifs
  · right
    exact and_dword_mask _
  · left
    exact and_two_pow_sub_one_eq_mod _ 32

variable (ver : SdmaVersion)

lemma maxSizePerPacket_range : 4 ≤ (maxSizePerPacket ver).toNat ∧ (maxSizePerPacket ver).toNat < 2 ^ 30 := by
  unfold maxSizePerPacket
  split_ifs <;> decide

lemma maxFillSize_range :
    4 ≤ (maxFillSize ver).toNat ∧ (maxFillSize ver).toNat < 2 ^ 30 ∧ (maxFillSize ver).toNat % 4 = 0 := by
  unfold maxFillSize
  split_ifs <;> decide

/-- A packet below 4 GiB takes something and not too much. -/
theorem copyBytes_range (src dst : BitVec 64) {size : BitVec 64} (hpos : 0 < size.toNat)
    (hlt : size.toNat < 2 ^ 32) :
    1 ≤ (copyBytes ver src dst size).toNat ∧ (copyBytes ver src dst size).toNat ≤ size.toNat ∧
      (copyBytes ver src dst size).toNat ≤ (maxSizePerPacket ver).toNat := by
  have hmax := maxSizePerPacket_range ver
  have hmask := toNat_masked src dst size
  unfold copyBytes
  split_ifs with h4
  · rw [le_def, show (4 : BitVec 64).toNat = 4 from rfl] at h4
    rw [toNat_min2, toNat_setWidth, mod_eq_of_lt (a := (maxSizePerPacket ver).toNat) (by omega)]
    omega
  · rw [le_def, show (4 : BitVec 64).toNat = 4 from rfl] at h4
    omega

/-- From 4 GiB on a packet takes at most the low 32 bits of the size. -/
theorem copyBytes_le_low (src dst : BitVec 64) {size : BitVec 64} (h : 2 ^ 32 ≤ size.toNat) :
    (copyBytes ver src dst size).toNat ≤ size.toNat % 2 ^ 32 := by
  have hmask := toNat_masked src dst size
  have h4 : 4 ≤ size := by
    rw [le_def, show (4 : BitVec 64).toNat = 4 from rfl]
    omega
  unfold copyBytes
  rw [if_pos h4, toNat_min2]
  omega

end Numbers

section Decode

lemma address_append (va : BitVec 64) : addressHi va ++ addressLo va = va := by
  apply eq_of_toNat_eq
  have hlo : (addressLo va).toNat = va.toNat % 2 ^ 32 := toNat_setWidth ..
  have hhi : (addressHi va).toNat = va.toNat / 2 ^ 32 := by
    unfold addressHi
    rw [toNat_setWidth, toNat_ushiftRight, shiftRight_eq_div_pow]
    omega
  rw [BitVec.toNat_append, hlo, hhi, ← shiftLeft_add_eq_or_of_lt (mod_lt _ (by decide)), shiftLeft_eq]
  omega

lemma decodeCount_countField (ver : SdmaVersion) {bytes : BitVec 64} (hpos : 1 ≤ bytes.toNat)
    (hlt : bytes.toNat < 2 ^ 32) : decodeCount ver (countField ver bytes) = bytes.toNat := by
  unfold decodeCount countField
  split_ifs
  · rw [toNat_setWidth, toNat_sub, show (1 : BitVec 64).toNat = 1 from rfl]
    omega
  · rw [toNat_setWidth]
    omega

/-- The engine reads back what is emitted. -/
theorem decodeCopy_emit (ver : SdmaVersion) (tmz : Bool) (src dst size : BitVec 64)
    (hpos : 1 ≤ (copyBytes ver src dst size).toNat) (hlt : (copyBytes ver src dst size).toNat < 2 ^ 32) :
    decodeCopy ver (emitCopyLinear ver tmz src dst size).1 =
      some ⟨src, dst, (copyBytes ver src dst size).toNat⟩ := by
  have hheader : (sdmaPacket opcodeCopy copySubOpcodeLinear (if tmz then 4 else 0) |||
      bits (if usesCpv ver then 1 else 0) 0x1 19) &&& 0xffff = opcodeCopy := by
    cases tmz <;> cases usesCpv ver <;> decide
  simp only [emitCopyLinear, decodeCopy, hheader, if_true, address_append,
    decodeCount_countField ver hpos hlt]

lemma decodeFill_emit (ver : SdmaVersion) (value : BitVec 32) (va size : BitVec 64)
    (hpos : 1 ≤ (min2 size (maxFillSize ver)).toNat) (hlt : (min2 size (maxFillSize ver)).toNat < 2 ^ 32) :
    decodeFill ver (emitConstantFill ver value va size).1 =
      some ⟨va, value, (min2 size (maxFillSize ver)).toNat⟩ := by
  have hheader : (sdmaPacket opcodeConstantFill 0 0 ||| (2 : BitVec 32) <<< 30 |||
      bits (if usesCpv ver then 1 else 0) 0x1 28 ||| bits (cachePolicyWr ver) 0x7 24 |||
      bits (mallPolicy ver false) 0x3 26) &&& 0xffff = opcodeConstantFill := by
    cases ver <;> decide
  simp only [emitConstantFill, decodeFill, hheader, if_true, address_append,
    decodeCount_countField ver hpos hlt]

end Decode

section Ranges

lemma add_ofNat (va a : BitVec 64) (i : ℕ) :
    va + BitVec.ofNat 64 (a.toNat + i) = va + a + BitVec.ofNat 64 i := by
  rw [ofNat_add, ofNat_toNat, setWidth_eq, BitVec.add_assoc]

/-- A range in two parts. -/
theorem Copy.moves_add (src dst a : BitVec 64) (k : ℕ) :
    Copy.moves ⟨src, dst, a.toNat⟩ ++ Copy.moves ⟨src + a, dst + a, k⟩ =
      Copy.moves ⟨src, dst, a.toNat + k⟩ := by
  unfold moves
  rw [range_add, map_append, map_map]
  congr 1
  apply map_congr_left
  intro i _
  simp only [Function.comp_apply, add_ofNat]

/-- The pattern of a fill starts anew after whole dwords. -/
theorem Fill.writes_add (va a : BitVec 64) (value : BitVec 32) (ha : a.toNat % 4 = 0) (k : ℕ) :
    Fill.writes ⟨va, value, a.toNat⟩ ++ Fill.writes ⟨va + a, value, k⟩ =
      Fill.writes ⟨va, value, a.toNat + k⟩ := by
  unfold writes
  rw [range_add, map_append, map_map]
  congr 1
  apply map_congr_left
  intro i _
  have hmod : (a.toNat + i) % 4 = i % 4 := by omega
  simp only [Function.comp_apply, add_ofNat, hmod]

section

variable {size : BitVec 64} (ver : SdmaVersion)

lemma toNat_sub_of_le {b : BitVec 64} (h : b.toNat ≤ size.toNat) :
    (size - b).toNat = size.toNat - b.toNat := by
  rw [toNat_sub]
  omega

/-- Copies below 4 GiB cover their range. -/
theorem copiesRange_of_lt (tmz : Bool) (src dst : BitVec 64) (h : size.toNat < 2 ^ 32)
    (hver : 0 < size → .v2_0 ≤ ver) : CopiesRange ver tmz src dst size := by
  refine ⟨hver, exists_loop (I := fun s : _ × _ × BitVec 64 => s.2.2.toNat < 2 ^ 32)
    (W := fun s => Copy.moves ⟨s.1, s.2.1, s.2.2.toNat⟩) (fun s => s.2.2.toNat) ?_ ?_ h⟩
  · intro s _ hnone
    have hzero : s.2.2.toNat = 0 := by
      by_contra hne
      have hpos : 0 < s.2.2 := (pos_iff_toNat _).mpr (by omega)
      rw [copyNext, if_pos hpos] at hnone
      cases hnone
    rw [hzero]
    rfl
  · rintro ⟨src, dst, size⟩ b t hI hsome
    unfold copyNext at hsome
    split_ifs at hsome with hpos
    cases hsome
    change size.toNat < 2 ^ 32 at hI
    change 0 < size.toNat at hpos
    obtain ⟨hone, hle, hmax⟩ := copyBytes_range ver src dst hpos hI
    have hrest := toNat_sub_of_le hle
    refine ⟨?_, ?_, _, decodeCopy_emit ver tmz src dst size hone (by omega), ⟨hone, hmax⟩, ?_⟩
    · change (size - copyBytes ver src dst size).toNat < 2 ^ 32
      omega
    · change (size - copyBytes ver src dst size).toNat < size.toNat
      omega
    · refine (Copy.moves_add src dst _ (size - copyBytes ver src dst size).toNat).trans ?_
      rw [hrest, Nat.add_sub_cancel' hle]

/-- Copies from 4 GiB on do not end. -/
theorem copyMemory_eq_none (tmz : Bool) (fuel : ℕ) (src dst : BitVec 64) (h : 2 ^ 32 ≤ size.toNat) :
    copyMemory ver tmz fuel src dst size = none := by
  refine loop_eq_none (I := fun s => 2 ^ 32 ≤ s.2.2.toNat) ?_ fuel h
  rintro ⟨src, dst, size⟩ hI
  change 2 ^ 32 ≤ size.toNat at hI
  have hpos : 0 < size := (pos_iff_toNat size).mpr (by omega)
  refine ⟨_, _, if_pos hpos, ?_⟩
  -- the upper half of the size stays as it is
  have hlow := copyBytes_le_low ver src dst hI
  have hle : (copyBytes ver src dst size).toNat ≤ size.toNat := hlow.trans (mod_le _ _)
  change 2 ^ 32 ≤ (size - copyBytes ver src dst size).toNat
  rw [toNat_sub_of_le hle]
  omega

lemma not_copiesRange_of_le (tmz : Bool) (src dst : BitVec 64) (h : 2 ^ 32 ≤ size.toNat) :
    ¬ CopiesRange ver tmz src dst size := by
  rintro ⟨-, fuel, packets, copies, hpackets, -⟩
  rw [copyMemory_eq_none ver tmz fuel src dst h] at hpackets
  cases hpackets

/-- Fills of whole dwords cover their range. -/
theorem fillsRange_of_dvd (value : BitVec 32) (va : BitVec 64) (h : size.toNat % 4 = 0) :
    FillsRange ver value va size := by
  refine exists_loop (I := fun s : _ × BitVec 64 => s.2.toNat % 4 = 0)
    (W := fun s => Fill.writes ⟨s.1, value, s.2.toNat⟩) (fun s => s.2.toNat) ?_ ?_ h
  · intro s _ hnone
    have hzero : s.2.toNat = 0 := by
      by_contra hne
      have hpos : 0 < s.2 := (pos_iff_toNat _).mpr (by omega)
      rw [fillNext, if_pos hpos] at hnone
      cases hnone
    rw [hzero]
    rfl
  · rintro ⟨va, size⟩ b t hI hsome
    unfold fillNext at hsome
    split_ifs at hsome with hpos
    cases hsome
    change size.toNat % 4 = 0 at hI
    change 0 < size.toNat at hpos
    obtain ⟨hfour, hmax, hdvd⟩ := maxFillSize_range ver
    have hbytes := toNat_min2 size (maxFillSize ver)
    have hle : (min2 size (maxFillSize ver)).toNat ≤ size.toNat := by omega
    have hrest := toNat_sub_of_le hle
    -- a packet takes whole dwords, so the pattern goes on
    have hdword : (min2 size (maxFillSize ver)).toNat % 4 = 0 := by omega
    refine ⟨?_, ?_, _, decodeFill_emit ver value va size (by omega) (by omega), ⟨?_, ?_⟩, ?_⟩
    · change (size - min2 size (maxFillSize ver)).toNat % 4 = 0
      omega
    · change (size - min2 size (maxFillSize ver)).toNat < size.toNat
      omega
    · change 1 ≤ (min2 size (maxFillSize ver)).toNat
      omega
    · change (min2 size (maxFillSize ver)).toNat ≤ _
      omega
    · refine (Fill.writes_add va _ value hdword (size - min2 size _).toNat).trans ?_
      rw [hrest, Nat.add_sub_cancel' hle]

end

end Ranges

/-- A copy with a version that the assertion admits covers its range exactly below 4 GiB, a fill of
whole dwords always. -/
theorem copiesRange_iff_and_fillsRange (ver : SdmaVersion) (tmz : Bool) (value : BitVec 32)
    (src dst size va fillSize : BitVec 64) (hdvd : fillSize.toNat % 4 = 0) :
    (CopiesRange ver tmz src dst size ↔ size.toNat < 2 ^ 32 ∧ (0 < size → .v2_0 ≤ ver)) ∧
      FillsRange ver value va fillSize := by
  refine ⟨⟨?_, fun h => copiesRange_of_lt ver tmz src dst h.1 h.2⟩,
    fillsRange_of_dvd ver value va hdvd⟩
  intro h
  refine ⟨?_, h.1⟩
  by_contra hge
  exact not_copiesRange_of_le ver tmz src dst (Nat.le_of_not_lt hge) h

/-- A copy of 7 bytes, and a fill of more than one packet. -/
theorem copiesRange_iff_and_fillsRange_small :
    CopiesRange .v5_2 false 0x1000 0x2000 7 ∧ FillsRange .v5_2 0xdeadbeef 0x1000 0x800000 :=
  have h := copiesRange_iff_and_fillsRange .v5_2 false 0xdeadbeef 0x1000 0x2000 7 0x1000 0x800000 (by decide)
  ⟨h.1.mpr ⟨by decide, fun _ => by decide⟩, h.2⟩

/-- A copy of 4 GiB between aligned addresses does not end. -/
theorem not_copiesRange_four_gib : ¬ CopiesRange .v5_2 false 0x100000 0x200000 0x100000000 :=
  not_copiesRange_of_le _ _ _ _ (by decide)

end RadvXclipse.Sdma
