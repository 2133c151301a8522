import RadvXclipse.Texcompress.Bptc

/-!
# The format BC7

Where every field of a block is and what a texel is, in terms of the fields alone. A block begins
with its mode in unary, then the partition, the rotation and the index selection, the endpoints
component by component, the p-bits, and one or two streams of indices. `start` is the position after
the mode.
-/

namespace RadvXclipse.Texcompress.Bc7

open Lib List Nat

/-- `struct bptc_unorm_mode`. -/
structure UnormMode where
  nSubsets : ℕ
  nPartitionBits : ℕ
  hasRotationBits : Bool
  hasIndexSelectionBit : Bool
  nColorBits : ℕ
  nAlphaBits : ℕ
  hasEndpointPbits : Bool
  hasSharedPbits : Bool
  nIndexBits : ℕ
  nSecondaryIndexBits : ℕ
deriving DecidableEq, Inhabited

/-- `bptc_unorm_modes`. -/
def unormModes : List UnormMode :=
  [⟨3, 4, false, false, 4, 0, true, false, 3, 0⟩,
   ⟨2, 6, false, false, 6, 0, false, true, 3, 0⟩,
   ⟨3, 6, false, false, 5, 0, false, false, 2, 0⟩,
   ⟨2, 6, false, false, 7, 0, true, false, 2, 0⟩,
   ⟨1, 0, true, true, 5, 6, false, false, 2, 3⟩,
   ⟨1, 0, true, false, 7, 8, false, false, 2, 2⟩,
   ⟨1, 0, false, false, 7, 7, true, false, 4, 0⟩,
   ⟨2, 6, false, false, 5, 5, true, false, 2, 0⟩]

/-- The number in the low bits of `v` becomes a byte: its high bits are repeated below it. -/
def expand (v bits : ℕ) : ℕ := v <<< (8 - bits) ||| v >>> (2 * bits - 8)

namespace UnormMode

variable (m : UnormMode)

/-- The p-bit a component gets, as a number of bits. -/
def extra : ℕ := m.hasEndpointPbits.toNat + m.hasSharedPbits.toNat

/-- What the decoders rely on. -/
structure Valid : Prop where
  subsets_pos : 0 < m.nSubsets
  subsets_le : m.nSubsets ≤ 3
  partition_le : m.nPartitionBits ≤ 6
  color_ge : 4 ≤ m.nColorBits + m.extra
  color_le : m.nColorBits + m.extra ≤ 8
  alpha_ge : 0 < m.nAlphaBits → 4 ≤ m.nAlphaBits + m.extra
  alpha_le : 0 < m.nAlphaBits → m.nAlphaBits + m.extra ≤ 8
  /-- one component of all endpoints fits a word -/
  color_word : 2 * m.nSubsets * m.nColorBits ≤ 32
  alpha_word : 2 * m.nSubsets * m.nAlphaBits ≤ 32
  one_pbit : m.hasEndpointPbits = false ∨ m.hasSharedPbits = false
  index_ge : 2 ≤ m.nIndexBits
  index_le : m.nIndexBits ≤ 4
  second_ge : 0 < m.nSecondaryIndexBits → 2 ≤ m.nSecondaryIndexBits
  second_le : m.nSecondaryIndexBits ≤ 4
  selection : m.hasIndexSelectionBit = true → 0 < m.nSecondaryIndexBits

lemma valid_of_mem (h : m ∈ unormModes) : m.Valid := by
  unfold unormModes at h
  simp only [mem_cons, not_mem_nil, or_false] at h
  rcases h with rfl | rfl | rfl | rfl | rfl | rfl | rfl | rfl <;> constructor <;> decide

/-- Either every endpoint has its p-bit, or the two of a subset share one, or there is none. -/
def nPbits : ℕ := if m.hasEndpointPbits then 2 * m.nSubsets else if m.hasSharedPbits then m.nSubsets else 0

section Fields

variable (start : ℕ)

def rotationStart : ℕ := start + m.nPartitionBits

def selectionStart : ℕ := m.rotationStart start + 2 * m.hasRotationBits.toNat

def colorStart : ℕ := m.selectionStart start + m.hasIndexSelectionBit.toNat

def alphaStart : ℕ := m.colorStart start + 3 * (2 * m.nSubsets * m.nColorBits)

def pbitStart : ℕ := m.alphaStart start + 2 * m.nSubsets * m.nAlphaBits

def indexStart : ℕ := m.pbitStart start + m.nPbits

def secondStart : ℕ := m.indexStart start + (16 * m.nIndexBits - m.nSubsets)

variable (x : ℕ)

def partition : ℕ := field x start m.nPartitionBits

def rotation : ℕ := field x (m.rotationStart start) (2 * m.hasRotationBits.toNat)

def selection : ℕ := field x (m.selectionStart start) m.hasIndexSelectionBit.toNat

/-- The p-bit of endpoint `k`. -/
def pbit (k : ℕ) : ℕ := field x (m.pbitStart start + if m.hasEndpointPbits then k else k / 2) m.extra

/-- A component of an endpoint before it is expanded. -/
def color (k c : ℕ) : ℕ :=
  field x (m.colorStart start + c * (2 * m.nSubsets * m.nColorBits) + k * m.nColorBits) m.nColorBits

def alpha (k : ℕ) : ℕ := field x (m.alphaStart start + k * m.nAlphaBits) m.nAlphaBits

/-- Component `c` of endpoint `k`; the endpoints of a subset are neighbours. -/
def endpoint (k c : ℕ) : ℕ :=
  if c < 3 then expand (m.color start x k c <<< m.extra ||| m.pbit start x k) (m.nColorBits + m.extra)
  else if m.nAlphaBits > 0 then
    expand (m.alpha start x k <<< m.extra ||| m.pbit start x k) (m.nAlphaBits + m.extra)
  else 255

/-- The primary index of a texel. -/
def index (t : ℕ) : ℕ :=
  field x (m.indexStart start + indexOffset m.nSubsets (m.partition start x) m.nIndexBits t)
    (indexWidth m.nSubsets (m.partition start x) m.nIndexBits t)

/-- The secondary index of a texel. -/
def second (t : ℕ) : ℕ :=
  field x (m.secondStart start + indexOffset m.nSubsets (m.partition start x) m.nSecondaryIndexBits t)
    (indexWidth m.nSubsets (m.partition start x) m.nSecondaryIndexBits t)

/-- The colour is interpolated with the secondary index. -/
def colorSecond : Bool := m.selection start x ≠ 0

/-- Alpha is. -/
def alphaSecond : Bool := m.nSecondaryIndexBits ≠ 0 ∧ m.selection start x = 0

/-- The weight of the second endpoint of a texel. -/
def weight (sec : Bool) (t : ℕ) : ℕ :=
  if sec then exactWeight m.nSecondaryIndexBits (m.second start x t)
  else exactWeight m.nIndexBits (m.index start x t)

def subset (t : ℕ) : ℕ := subsetNum (partitionSubsets m.nSubsets (m.partition start x)) t

/-- `a` and `b` in the proportion `64 - w` to `w`, rounded. -/
def blendNat (a b w : ℕ) : ℕ := (a * (64 - w) + b * w + 32) / 64

/-- A component of a texel before the rotation. -/
def component (t c : ℕ) : ℕ :=
  let k := m.subset start x t * 2
  blendNat (m.endpoint start x k c) (m.endpoint start x (k + 1) c)
    (m.weight start x (if c < 3 then m.colorSecond start x else m.alphaSecond start x) t)

/-- The rotation swaps a colour with alpha. -/
def rotate (rotation : ℕ) (v : ℕ → ℕ) (c : ℕ) : ℕ :=
  if rotation = 0 then v c
  else if c = 3 then v (rotation - 1)
  else if c = rotation - 1 then v 3
  else v c

end Fields

/-- The components of a texel. -/
def texel (start x t : ℕ) : ℕ → ℕ := rotate (m.rotation start x) (m.component start x t)

end UnormMode

/-- The mode is the number of zero bits the block begins with. -/
def mode (x : ℕ) : Option ℕ := (range 8).find? fun i => x.testBit i

/-- The components of the texels of a block. A block without a mode is reserved and black. -/
def decode (x t : ℕ) : ℕ → ℕ :=
  match mode x with
  | none => fun _ => 0
  | some i => (unormModes.getD i default).texel (i + 1) x t

section Facts

variable {m : UnormMode} {start x : ℕ}

lemma mode_lt {i : ℕ} (h : mode x = some i) : i < 8 :=
  mem_range.mp (mem_of_find?_eq_some h)

/-- The modes of the table are valid. -/
theorem valid_getD {i : ℕ} (h : i < 8) : (unormModes.getD i default).Valid := by
  apply UnormMode.valid_of_mem
  rw [getD_eq_getElem _ _ h]
  exact getElem_mem _

lemma expand_lt {v bits : ℕ} (hv : v < 2 ^ bits) (hle : bits ≤ 8) : expand v bits < 2 ^ 8 := by
  apply or_lt_two_pow
  · rw [shiftLeft_eq]
    calc v * 2 ^ (8 - bits) < 2 ^ bits * 2 ^ (8 - bits) := Nat.mul_lt_mul_of_pos_right hv (Nat.two_pow_pos _)
      _ = 2 ^ 8 := by rw [← pow_add, Nat.add_sub_cancel' hle]
  · exact lt_of_le_of_lt (shiftRight_le _ _) (lt_of_lt_of_le hv (Nat.pow_le_pow_right (by omega) hle))

/-- A field followed by its p-bit. -/
theorem shift_or_lt {v p n k : ℕ} (hv : v < 2 ^ n) (hp : p < 2 ^ k) : v <<< k ||| p < 2 ^ (n + k) := by
  apply or_lt_two_pow
  · rw [shiftLeft_eq, pow_add]
    exact Nat.mul_lt_mul_of_pos_right hv (Nat.two_pow_pos k)
  · exact lt_of_lt_of_le hp (Nat.pow_le_pow_right (by omega) (by omega))

lemma UnormMode.Valid.endpoint_lt (h : m.Valid) (k c : ℕ) : m.endpoint start x k c < 2 ^ 8 := by
  unfold endpoint
  split_ifs with hc ha
  · exact expand_lt (shift_or_lt (field_lt _ _ _) (field_lt _ _ _)) h.color_le
  · exact expand_lt (shift_or_lt (field_lt _ _ _) (field_lt _ _ _)) (h.alpha_le ha)
  · omega

lemma UnormMode.Valid.partition_lt (h : m.Valid) : m.partition start x < 64 :=
  field_lt_of_le _ _ h.partition_le

lemma indexWidth_le (n p ib t : ℕ) : indexWidth n p ib t ≤ ib := sub_le _ _

lemma UnormMode.index_lt (t : ℕ) : m.index start x t < 2 ^ m.nIndexBits :=
  field_lt_of_le _ _ (indexWidth_le ..)

lemma UnormMode.second_lt (t : ℕ) : m.second start x t < 2 ^ m.nSecondaryIndexBits :=
  field_lt_of_le _ _ (indexWidth_le ..)

/-- The secondary index is only selected where there is one. -/
theorem UnormMode.Valid.second_pos_of_color (h : m.Valid) (hsec : m.colorSecond start x = true) :
    0 < m.nSecondaryIndexBits := by
  apply h.selection
  unfold colorSecond UnormMode.selection at hsec
  cases hm : m.hasIndexSelectionBit
  · rw [hm] at hsec
    simp at hsec
  · rfl

lemma UnormMode.second_pos_of_alpha (hsec : m.alphaSecond start x = true) : 0 < m.nSecondaryIndexBits := by
  unfold alphaSecond at hsec
  simp only [decide_eq_true_eq] at hsec
  omega

lemma UnormMode.Valid.weight_le (h : m.Valid) {sec : Bool}
    (hsec : sec = true → 0 < m.nSecondaryIndexBits) (t : ℕ) : m.weight start x sec t ≤ 64 := by
  have hge := h.index_ge
  have hle := h.index_le
  have hle2 := h.second_le
  unfold weight
  split_ifs with hs
  · exact exactWeight_le _ (by omega) (h.second_ge (hsec hs)) _ (second_lt t)
  · exact exactWeight_le _ (by omega) hge _ (index_lt t)

lemma UnormMode.blendNat_lt {a b w : ℕ} (ha : a < 2 ^ 8) (hb : b < 2 ^ 8) (hw : w ≤ 64) :
    blendNat a b w < 2 ^ 8 := by
  have hamul : a * (64 - w) ≤ 255 * (64 - w) := Nat.mul_le_mul_right _ (by omega)
  have hbmul : b * w ≤ 255 * w := Nat.mul_le_mul_right _ (by omega)
  unfold blendNat
  omega

lemma UnormMode.Valid.component_lt (h : m.Valid) (t c : ℕ) : m.component start x t c < 2 ^ 8 := by
  apply blendNat_lt (h.endpoint_lt _ _) (h.endpoint_lt _ _)
  apply h.weight_le
  split_ifs
  · exact h.second_pos_of_color
  · exact second_pos_of_alpha

lemma UnormMode.rotate_lt {v : ℕ → ℕ} {b : ℕ} (hv : ∀ c, v c < b) (r c : ℕ) : rotate r v c < b := by
  unfold rotate
  split_ifs <;> apply hv

end Facts

end RadvXclipse.Texcompress.Bc7
