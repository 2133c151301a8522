import RadvXclipse.Texcompress.Bits
import RadvXclipse.Util.Math
import Mathlib.Tactic.IntervalCases

/-!
# What the block formats BC6H and BC7 share

The partitions of a block into subsets, the anchor texels, whose indices have one bit less, and the
interpolation between two endpoints. The CPU decoder is `src/util/format/texcompress_bptc_tmp.h`,
the shader `src/compiler/glsl/bc_decoder.glsl`; each has its own tables.
-/

namespace RadvXclipse.Texcompress

open Lib Util Nat

/-- `endpoints[k][c]`. -/
abbrev Endpoints := ℕ → ℕ → ℕ

def Endpoints.set (ep : Endpoints) (k c v : ℕ) : Endpoints :=
  fun k' c' => if k' = k ∧ c' = c then v else ep k' c'

section Cpu

/-- `partition_table1`: the subset of each texel in two bits, for two subsets. -/
def partitionTable1 : List ℕ :=
  [0x50505050, 0x40404040, 0x54545454, 0x54505040, 0x50404000, 0x55545450, 0x55545040, 0x54504000,
   0x50400000, 0x55555450, 0x55544000, 0x54400000, 0x55555440, 0x55550000, 0x55555500, 0x55000000,
   0x55150100, 0x00004054, 0x15010000, 0x00405054, 0x00004050, 0x15050100, 0x05010000, 0x40505054,
   0x00404050, 0x05010100, 0x14141414, 0x05141450, 0x01155440, 0x00555500, 0x15014054, 0x05414150,
   0x44444444, 0x55005500, 0x11441144, 0x05055050, 0x05500550, 0x11114444, 0x41144114, 0x44111144,
   0x15055054, 0x01055040, 0x05041050, 0x05455150, 0x14414114, 0x50050550, 0x41411414, 0x00141400,
   0x00041504, 0x00105410, 0x10541000, 0x04150400, 0x50410514, 0x41051450, 0x05415014, 0x14054150,
   0x41050514, 0x41505014, 0x40011554, 0x54150140, 0x50505500, 0x00555050, 0x15151010, 0x54540404]

/-- `partition_table2`, for three subsets. -/
def partitionTable2 : List ℕ :=
  [0xaa685050, 0x6a5a5040, 0x5a5a4200, 0x5450a0a8, 0xa5a50000, 0xa0a05050, 0x5555a0a0, 0x5a5a5050,
   0xaa550000, 0xaa555500, 0xaaaa5500, 0x90909090, 0x94949494, 0xa4a4a4a4, 0xa9a59450, 0x2a0a4250,
   0xa5945040, 0x0a425054, 0xa5a5a500, 0x55a0a0a0, 0xa8a85454, 0x6a6a4040, 0xa4a45000, 0x1a1a0500,
   0x0050a4a4, 0xaaa59090, 0x14696914, 0x69691400, 0xa08585a0, 0xaa821414, 0x50a4a450, 0x6a5a0200,
   0xa9a58000, 0x5090a0a8, 0xa8a09050, 0x24242424, 0x00aa5500, 0x24924924, 0x24499224, 0x50a50a50,
   0x500aa550, 0xaaaa4444, 0x66660000, 0xa5a0a5a0, 0x50a050a0, 0x69286928, 0x44aaaa44, 0x66666600,
   0xaa444444, 0x54a854a8, 0x95809580, 0x96969600, 0xa85454a8, 0x80959580, 0xaa141414, 0x96960000,
   0xaaaa1414, 0xa05050a0, 0xa0a5a5a0, 0x96000000, 0x40804080, 0xa9a8a9a8, 0xaaaaaa44, 0x2a4a5254]

/-- `anchor_indices`: those of the second of two, the second of three and the third of three
subsets. -/
def anchorIndices : List (List ℕ) :=
  [[15, 15, 15, 15, 15, 15, 15, 15, 15, 15, 15, 15, 15, 15, 15, 15, 15, 2, 8, 2, 2, 8, 8, 15, 2, 8,
    2, 2, 8, 8, 2, 2, 15, 15, 6, 8, 2, 8, 15, 15, 2, 8, 2, 2, 2, 15, 15, 6, 6, 2, 6, 8, 15, 15, 2,
    2, 15, 15, 15, 15, 15, 2, 2, 15],
   [3, 3, 15, 15, 8, 3, 15, 15, 8, 8, 6, 6, 6, 5, 3, 3, 3, 3, 8, 15, 3, 3, 6, 10, 5, 8, 8, 6, 8, 5,
    15, 15, 8, 15, 3, 5, 6, 10, 8, 15, 15, 3, 15, 5, 15, 15, 15, 15, 3, 15, 5, 5, 5, 8, 5, 10, 5,
    10, 8, 13, 15, 12, 3, 3],
   [15, 8, 8, 3, 15, 15, 3, 8, 15, 15, 15, 15, 15, 15, 15, 8, 15, 8, 15, 3, 15, 8, 15, 8, 3, 15, 6,
    10, 15, 15, 10, 8, 15, 3, 15, 10, 10, 8, 9, 10, 6, 15, 8, 15, 3, 6, 6, 8, 15, 3, 15, 15, 15, 15,
    15, 15, 15, 15, 15, 15, 3, 15, 15, 8]]

/-- An entry of `anchor_indices`. -/
def anchorIndex (row partitionNum : ℕ) : ℕ := (anchorIndices.getD row []).getD partitionNum 0

/-- `is_anchor`. -/
def isAnchor (nSubsets partitionNum texel : ℕ) : Bool :=
  if texel = 0 then true
  else
    match nSubsets with
    | 2 => anchorIndex 0 partitionNum = texel
    | 3 => anchorIndex 1 partitionNum = texel ∨ anchorIndex 2 partitionNum = texel
    | _ => false

/-- `count_anchors_before_texel`. -/
def countAnchorsBeforeTexel (nSubsets partitionNum texel : ℕ) : ℕ :=
  if texel = 0 then 0
  else
    match nSubsets with
    | 2 => 1 + (if texel > anchorIndex 0 partitionNum then 1 else 0)
    | 3 =>
      1 + (if texel > anchorIndex 1 partitionNum then 1 else 0) +
        (if texel > anchorIndex 2 partitionNum then 1 else 0)
    | _ => 1

/-- `weights` of `interpolate`. -/
def weights : ℕ → List ℕ
  | 2 => [0, 21, 43, 64]
  | 3 => [0, 9, 18, 27, 37, 46, 55, 64]
  | 4 => [0, 4, 9, 13, 17, 21, 26, 30, 34, 38, 43, 47, 51, 55, 60, 64]
  | _ => []

/-- `interpolate`. -/
def interpolate (a b : ℤ) (index indexBits : ℕ) : ℤ :=
  let weight := (weights indexBits).getD index 0
  ((64 - weight) * a + weight * b + 32) >>> (6 : ℕ)

/-- The subset of a texel; `subsets` is an entry of a partition table. -/
def subsetNum (subsets texel : ℕ) : ℕ := subsets >>> (texel * 2) &&& 3

/-- The entry of the partition table a mode with `nSubsets` subsets uses. -/
def partitionSubsets (nSubsets partitionNum : ℕ) : ℕ :=
  match nSubsets with
  | 2 => partitionTable1.getD partitionNum 0
  | 3 => partitionTable2.getD partitionNum 0
  | _ => 0

end Cpu

section Shader

/-- `bc_part2`. -/
def bcPart2 : List ℕ :=
  [0x50505050, 0x40404040, 0x54545454, 0x54505040, 0x50404000, 0x55545450, 0x55545040, 0x54504000,
   0x50400000, 0x55555450, 0x55544000, 0x54400000, 0x55555440, 0x55550000, 0x55555500, 0x55000000,
   0x55150100, 0x00004054, 0x15010000, 0x00405054, 0x00004050, 0x15050100, 0x05010000, 0x40505054,
   0x00404050, 0x05010100, 0x14141414, 0x05141450, 0x01155440, 0x00555500, 0x15014054, 0x05414150,
   0x44444444, 0x55005500, 0x11441144, 0x05055050, 0x05500550, 0x11114444, 0x41144114, 0x44111144,
   0x15055054, 0x01055040, 0x05041050, 0x05455150, 0x14414114, 0x50050550, 0x41411414, 0x00141400,
   0x00041504, 0x00105410, 0x10541000, 0x04150400, 0x50410514, 0x41051450, 0x05415014, 0x14054150,
   0x41050514, 0x41505014, 0x40011554, 0x54150140, 0x50505500, 0x00555050, 0x15151010, 0x54540404]

/-- `bc_part3`. -/
def bcPart3 : List ℕ :=
  [0xaa685050, 0x6a5a5040, 0x5a5a4200, 0x5450a0a8, 0xa5a50000, 0xa0a05050, 0x5555a0a0, 0x5a5a5050,
   0xaa550000, 0xaa555500, 0xaaaa5500, 0x90909090, 0x94949494, 0xa4a4a4a4, 0xa9a59450, 0x2a0a4250,
   0xa5945040, 0x0a425054, 0xa5a5a500, 0x55a0a0a0, 0xa8a85454, 0x6a6a4040, 0xa4a45000, 0x1a1a0500,
   0x0050a4a4, 0xaaa59090, 0x14696914, 0x69691400, 0xa08585a0, 0xaa821414, 0x50a4a450, 0x6a5a0200,
   0xa9a58000, 0x5090a0a8, 0xa8a09050, 0x24242424, 0x00aa5500, 0x24924924, 0x24499224, 0x50a50a50,
   0x500aa550, 0xaaaa4444, 0x66660000, 0xa5a0a5a0, 0x50a050a0, 0x69286928, 0x44aaaa44, 0x66666600,
   0xaa444444, 0x54a854a8, 0x95809580, 0x96969600, 0xa85454a8, 0x80959580, 0xaa141414, 0x96960000,
   0xaaaa1414, 0xa05050a0, 0xa0a5a5a0, 0x96000000, 0x40804080, 0xa9a8a9a8, 0xaaaaaa44, 0x2a4a5254]

/-- `bc_anchor2`. -/
def bcAnchor2 : List ℕ :=
  [15, 15, 15, 15, 15, 15, 15, 15, 15, 15, 15, 15, 15, 15, 15, 15, 15, 2, 8, 2, 2, 8, 8, 15, 2, 8, 2,
   2, 8, 8, 2, 2, 15, 15, 6, 8, 2, 8, 15, 15, 2, 8, 2, 2, 2, 15, 15, 6, 6, 2, 6, 8, 15, 15, 2, 2, 15,
   15, 15, 15, 15, 2, 2, 15]

/-- `bc_anchor3b`. -/
def bcAnchor3b : List ℕ :=
  [3, 3, 15, 15, 8, 3, 15, 15, 8, 8, 6, 6, 6, 5, 3, 3, 3, 3, 8, 15, 3, 3, 6, 10, 5, 8, 8, 6, 8, 5,
   15, 15, 8, 15, 3, 5, 6, 10, 8, 15, 15, 3, 15, 5, 15, 15, 15, 15, 3, 15, 5, 5, 5, 8, 5, 10, 5, 10,
   8, 13, 15, 12, 3, 3]

/-- `bc_anchor3c`. -/
def bcAnchor3c : List ℕ :=
  [15, 8, 8, 3, 15, 15, 3, 8, 15, 15, 15, 15, 15, 15, 15, 8, 15, 8, 15, 3, 15, 8, 15, 8, 3, 15, 6,
   10, 15, 15, 10, 8, 15, 3, 15, 10, 10, 8, 9, 10, 6, 15, 8, 15, 3, 6, 6, 8, 15, 3, 15, 15, 15, 15,
   15, 15, 15, 15, 15, 15, 3, 15, 15, 8]

/-- `bc_weights`. -/
def bcWeights : List ℕ :=
  [0, 21, 43, 64, 0, 9, 18, 27, 37, 46, 55, 64, 0, 4, 9, 13, 17, 21, 26, 30, 34, 38, 43, 47, 51, 55,
   60, 64]

/-- `bc_is_anchor`. -/
def bcIsAnchor (nSubsets part texel : ℕ) : Bool :=
  if texel = 0 then true
  else if nSubsets = 2 then bcAnchor2.getD part 0 = texel
  else if nSubsets = 3 then bcAnchor3b.getD part 0 = texel ∨ bcAnchor3c.getD part 0 = texel
  else false

/-- `bc_anchors_before`. -/
def bcAnchorsBefore (nSubsets part texel : ℕ) : ℕ :=
  if texel = 0 then 0
  else if nSubsets = 2 then 1 + (if texel > bcAnchor2.getD part 0 then 1 else 0)
  else if nSubsets = 3 then
    1 + (if texel > bcAnchor3b.getD part 0 then 1 else 0) + (if texel > bcAnchor3c.getD part 0 then 1 else 0)
  else 1

/-- `bc_interpolate`. -/
def bcInterpolate (a b : ℤ) (index indexBits : ℕ) : ℤ :=
  let w := bcWeights.getD ((if indexBits = 2 then 0 else if indexBits = 3 then 4 else 12) + index) 0
  (a * (64 - w) + b * w + 32) >>> (6 : ℕ)

/-- The weight the specialised decoders compute, `int(float(i) * (64.0 / float((1 << n) - 1)) +
0.5)`, in exact arithmetic. -/
def exactWeight (n i : ℕ) : ℕ := (128 * i + (2 ^ n - 1)) / (2 * (2 ^ n - 1))

/-- The interpolation of the specialised decoders: `a * 64 + b * w + round - a * w`, divided by
64. -/
def lerp (a b w round : ℕ) : ℕ :=
  sub32 (add32 (add32 (shl32 a 6) (mul32 b w)) round) (mul32 a w) >>> 6

end Shader

section Tables

lemma bcPart2_eq : bcPart2 = partitionTable1 := rfl

lemma bcPart_eq (n part : ℕ) :
    (if n = 2 then bcPart2.getD part 0 else if n = 3 then bcPart3.getD part 0 else 0) =
      partitionSubsets n part := by
  split_ifs with h2 h3
  · subst h2
    rfl
  · subst h3
    rfl
  · unfold partitionSubsets
    split <;> first | rfl | contradiction

lemma bcIsAnchor_eq (n part texel : ℕ) : bcIsAnchor n part texel = isAnchor n part texel := by
  unfold bcIsAnchor isAnchor
  split_ifs with h0 h2 h3
  · rfl
  · subst h2
    rfl
  · subst h3
    rfl
  · split <;> first | rfl | contradiction

lemma bcAnchorsBefore_eq (n part texel : ℕ) :
    bcAnchorsBefore n part texel = countAnchorsBeforeTexel n part texel := by
  unfold bcAnchorsBefore countAnchorsBeforeTexel
  by_cases h0 : texel = 0
  · rw [if_pos h0, if_pos h0]
  · rw [if_neg h0, if_neg h0]
    by_cases h2 : n = 2
    · subst h2
      rfl
    · by_cases h3 : n = 3
      · subst h3
        rfl
      · rw [if_neg h2, if_neg h3]
        split <;> first | rfl | contradiction

/-- Every anchor is a texel other than the first, and the anchors of three subsets differ. -/
theorem anchorIndex_valid : ∀ p < 64, (∀ row < 3, 0 < anchorIndex row p ∧ anchorIndex row p < 16) ∧
    anchorIndex 1 p ≠ anchorIndex 2 p := by
  decide +kernel

/-- The texels belong to the subsets there are. -/
theorem subsetNum_table1 : ∀ p < 64, ∀ t < 16, subsetNum (partitionTable1.getD p 0) t < 2 := by
  decide +kernel

lemma subsetNum_table2 : ∀ p < 64, ∀ t < 16, subsetNum (partitionTable2.getD p 0) t < 3 := by
  decide +kernel

lemma subsetNum_lt {n p t : ℕ} (hn : 0 < n) (hp : p < 64) (ht : t < 16) :
    subsetNum (partitionSubsets n p) t < n := by
  unfold partitionSubsets
  split
  · exact subsetNum_table1 p hp t ht
  · exact subsetNum_table2 p hp t ht
  · simpa [subsetNum] using hn

end Tables

section Anchors

variable {n p : ℕ}

/-- One anchor more has been passed after an anchor. -/
theorem countAnchorsBeforeTexel_succ (hp : p < 64) (t : ℕ) :
    countAnchorsBeforeTexel n p (t + 1) =
      countAnchorsBeforeTexel n p t + (if isAnchor n p t then 1 else 0) := by
  have hvalid := anchorIndex_valid p hp
  have h0 := hvalid.1 0 (by omega)
  have h1 := hvalid.1 1 (by omega)
  have h2 := hvalid.1 2 (by omega)
  unfold countAnchorsBeforeTexel isAnchor
  rw [if_neg (succ_ne_zero t)]
  by_cases ht : t = 0
  · subst ht
    split <;> simp only [if_true] <;> split_ifs <;> omega
  · rw [if_neg ht, if_neg ht]
    split <;> simp only [decide_eq_true_eq, Bool.false_eq_true, if_false] <;> split_ifs <;> omega

/-- Every subset has one anchor. -/
theorem countAnchorsBeforeTexel_end (hn : 0 < n) (hn3 : n ≤ 3) (hp : p < 64) :
    countAnchorsBeforeTexel n p 16 = n := by
  have hvalid := anchorIndex_valid p hp
  have h0 := hvalid.1 0 (by omega)
  have h1 := hvalid.1 1 (by omega)
  have h2 := hvalid.1 2 (by omega)
  unfold countAnchorsBeforeTexel
  rw [if_neg (by omega)]
  interval_cases n
  · rfl
  · simp only [h0.2, if_true]
  · simp only [h1.2, h2.2, if_true]

/-- Not more anchors than texels. -/
theorem countAnchorsBeforeTexel_le (hp : p < 64) (t : ℕ) : countAnchorsBeforeTexel n p t ≤ t := by
  induction t with
  | zero => exact le_refl 0
  | succ t ih =>
    rw [countAnchorsBeforeTexel_succ hp]
    split_ifs <;> omega

/-- The width of the index of a texel, where an index has `ib` bits. -/
def indexWidth (n p ib t : ℕ) : ℕ := ib - (if isAnchor n p t then 1 else 0)

/-- Where the index of a texel begins, counted from the first one. -/
def indexOffset (n p ib t : ℕ) : ℕ := ib * t - countAnchorsBeforeTexel n p t

/-- What is read where a decoder computes the index of a texel to be. -/
theorem read_index_eq {bits : ℕ → ℕ → ℕ} {x k ib start : ℕ}
    (hbits : ∀ off w, w ≤ k → bits off w = field x off w)
    (hp : p < 64) (hpos : 0 < ib) (hle : ib ≤ k) (t : ℕ) :
    bits (start + ib * t - countAnchorsBeforeTexel n p t) (ib - if isAnchor n p t then 1 else 0) =
      field x (start + indexOffset n p ib t) (indexWidth n p ib t) := by
  have hcount := countAnchorsBeforeTexel_le (n := n) hp t
  have hmul : t ≤ ib * t := Nat.le_mul_of_pos_left t hpos
  rw [hbits _ _ (by omega), Nat.add_sub_assoc (by omega)]
  rfl

lemma indexOffset_zero (n p ib : ℕ) : indexOffset n p ib 0 = 0 := Nat.zero_sub _

/-- The indices lie one after the other. -/
theorem indexOffset_succ (hp : p < 64) (ib t : ℕ) :
    indexOffset n p ib (t + 1) = indexOffset n p ib t + indexWidth n p ib t := by
  unfold indexOffset indexWidth
  rcases Nat.eq_zero_or_pos ib with h0 | hpos
  · simp [h0]
  · have hle := countAnchorsBeforeTexel_le (n := n) hp t
    have hmul : t ≤ ib * t := Nat.le_mul_of_pos_left t hpos
    rw [countAnchorsBeforeTexel_succ hp, mul_succ]
    split_ifs <;> omega

lemma indexOffset_mono (hp : p < 64) (ib : ℕ) {s t : ℕ} (h : s ≤ t) :
    indexOffset n p ib s ≤ indexOffset n p ib t := by
  induction h with
  | refl => exact le_refl _
  | step _ ih =>
    rw [indexOffset_succ hp]
    omega

lemma indexOffset_end {ib : ℕ} (hn : 0 < n) (hn3 : n ≤ 3) (hp : p < 64) :
    indexOffset n p ib 16 = 16 * ib - n := by
  unfold indexOffset
  rw [countAnchorsBeforeTexel_end hn hn3 hp, mul_comm]

/-- Reading the index of a texel from a window of 64 bits, and shifting the window to the next
one. -/
theorem Uvec2.Shows.index {st : Uvec2} {x start ib t : ℕ} (hn : 0 < n) (hn3 : n ≤ 3) (hp : p < 64)
    (hib : ib ≤ 4) (ht : t < 16)
    (h : st.Shows x (start + indexOffset n p ib t) (64 - indexOffset n p ib t)) :
    bitfieldExtract st.x 0 (indexWidth n p ib t) =
      field x (start + indexOffset n p ib t) (indexWidth n p ib t) ∧
    (bcShr64 st (indexWidth n p ib t)).Shows x (start + indexOffset n p ib (t + 1))
      (64 - indexOffset n p ib (t + 1)) := by
  have hsucc := indexOffset_succ (n := n) hp ib t
  -- no more than 63 bits of a stream are read
  have hroom := indexOffset_mono (n := n) hp ib (show t + 1 ≤ 16 by omega)
  rw [indexOffset_end hn hn3 hp] at hroom
  have hw : indexWidth n p ib t ≤ ib := sub_le _ _
  have hshift := h.shift (n := indexWidth n p ib t) (by omega) (by omega)
  rw [add_assoc, Nat.sub_sub, ← hsucc] at hshift
  exact ⟨h.read (by omega) (by omega), hshift⟩

end Anchors

section Weights

/-- The tables hold the exact weights. -/
theorem weights_eq : ∀ n < 5, 2 ≤ n → ∀ i < 2 ^ n, (weights n).getD i 0 = exactWeight n i := by
  decide

lemma bcWeights_eq : ∀ n < 5, 2 ≤ n → ∀ i < 2 ^ n,
    bcWeights.getD ((if n = 2 then 0 else if n = 3 then 4 else 12) + i) 0 = exactWeight n i := by
  decide

lemma exactWeight_le : ∀ n < 5, 2 ≤ n → ∀ i < 2 ^ n, exactWeight n i ≤ 64 := by
  decide

/-- `a` and `b` in the proportion `64 - w` to `w`, rounded. -/
def blend (a b : ℤ) (w : ℕ) : ℤ := (a * (64 - w) + b * w + 32) / 64

variable {n i : ℕ}

lemma interpolate_eq (a b : ℤ) (hn : n < 5) (hn2 : 2 ≤ n) (hi : i < 2 ^ n) :
    interpolate a b i n = blend a b (exactWeight n i) := by
  unfold interpolate blend
  simp only [weights_eq n hn hn2 i hi, Int.shiftRight_eq_div_pow]
  congr 1
  ring

lemma bcInterpolate_eq (a b : ℤ) (hn : n < 5) (hn2 : 2 ≤ n) (hi : i < 2 ^ n) :
    bcInterpolate a b i n = blend a b (exactWeight n i) := by
  unfold bcInterpolate blend
  simp only [bcWeights_eq n hn hn2 i hi, Int.shiftRight_eq_div_pow]
  rfl

end Weights

section Words

lemma and_ff (n : ℕ) : n &&& 0xff = n % 256 := and_two_pow_sub_one_eq_mod n 8

lemma and_7f {n : ℕ} (h : n ≤ 64) : n &&& 0x7f = n := by
  rw [show 0x7f = 2 ^ 7 - 1 from rfl, and_two_pow_sub_one_eq_mod]
  omega

/-- Nothing wraps where the sum fits. -/
theorem lerp_eq {a b w r : ℕ} (hw : w ≤ 64) (h : a * 64 + b * 64 + r < 2 ^ 32) :
    lerp a b w r = (a * (64 - w) + b * w + r) / 64 := by
  have haw : a * w ≤ a * 64 := Nat.mul_le_mul_left a hw
  have hbw : b * w ≤ b * 64 := Nat.mul_le_mul_left b hw
  have hshl : shl32 a 6 = a * 64 := by
    unfold shl32
    rw [shiftLeft_eq]
    exact mod_eq_of_lt (by omega)
  have hmulb : mul32 b w = b * w := mod_eq_of_lt (by omega)
  have hmula : mul32 a w = a * w := mod_eq_of_lt (by omega)
  have hadd : add32 (add32 (a * 64) (b * w)) r = a * 64 + b * w + r := by
    rw [add32_of_lt (x := a * 64) (by omega), add32_of_lt (by omega)]
  have hsum : a * 64 + b * w + r - a * w = a * 64 - a * w + b * w + r := by omega
  unfold lerp
  rw [hshl, hmulb, hmula, hadd, sub32_of_le (by omega) (by omega), shiftRight_eq_div_pow, Nat.mul_sub, hsum]

end Words

end RadvXclipse.Texcompress
