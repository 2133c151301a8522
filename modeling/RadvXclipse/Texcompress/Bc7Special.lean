import RadvXclipse.Texcompress.Bc7Table

/-!
# The specialised BC7 decoder of the shader

`bc7_decode_block` of `bc_decoder.glsl` without `BC_TABLES_BUFFER`. The parameters of a mode are
packed into constants, the endpoints are read from five windows of the block and kept as words, and
the indices are taken from two windows of 64 bits that are shifted along. Red and blue are
interpolated in one word.
-/

namespace RadvXclipse.Texcompress.Bc7

open Lib Function List Nat UnormMode

/-- The parameters of a mode, from the packed constants. -/
def bc7Packed (mode : ℕ) : UnormMode where
  nSubsets := 0x95bb >>> (mode * 2) &&& 3
  nPartitionBits := 0x60006664 >>> (mode * 4) &&& 15
  nColorBits := 0x57757564 >>> (mode * 4) &&& 15
  nAlphaBits := 0x57860000 >>> (mode * 4) &&& 15
  nIndexBits := 0x24222233 >>> (mode * 4) &&& 15
  nSecondaryIndexBits := 0x00230000 >>> (mode * 4) &&& 15
  hasRotationBits := 0x30 >>> mode &&& 1 ≠ 0
  hasIndexSelectionBit := 0x10 >>> mode &&& 1 ≠ 0
  hasEndpointPbits := 0xc9 >>> mode &&& 1 ≠ 0
  hasSharedPbits := 0x02 >>> mode &&& 1 ≠ 0

/-- The windows `wr`, `wg`, `wb`, `wal` and `wp`. -/
structure Windows where
  r : ℕ
  g : ℕ
  b : ℕ
  al : ℕ
  p : ℕ

/-- `ep[k]`. Past the last endpoint of the mode the offsets are clamped and the word is of no
use. -/
def packedEndpoint (m : UnormMode) (w : Windows) (k : ℕ) : ℕ :=
  let pext := m.extra
  let ctot := m.nColorBits + pext
  let atot := m.nAlphaBits + pext
  let p := bitfieldExtract w.p (if m.hasEndpointPbits then k else k >>> 1) pext
  let co := min (k * m.nColorBits) (32 - m.nColorBits)
  let ao := min (k * m.nAlphaBits) (32 - m.nAlphaBits)
  let v := expand (shl32 (bitfieldExtract w.r co m.nColorBits) pext ||| p) ctot
  let v := v ||| shl32 (expand (shl32 (bitfieldExtract w.g co m.nColorBits) pext ||| p) ctot) 8
  let v := v ||| shl32 (expand (shl32 (bitfieldExtract w.b co m.nColorBits) pext ||| p) ctot) 16
  let qa := shl32 (bitfieldExtract w.al ao m.nAlphaBits) pext ||| p
  v ||| shl32 (if m.nAlphaBits > 0 then expand qa atot else 255) 24

/-- What the loop over the texels reads and does not change. -/
structure Setup where
  mode : UnormMode
  ep : ℕ → ℕ
  subsets : ℕ
  ax : ℕ
  ay : ℕ
  cSec : Bool
  aSec : Bool
  rot8 : ℕ

/-- The word of a texel from its two indices. -/
def Setup.texel (s : Setup) (t pi qi : ℕ) : ℕ :=
  let sub := s.subsets >>> (2 * t) &&& 3
  let ea := if sub = 0 then s.ep 0 else if sub = 1 then s.ep 2 else s.ep 4
  let eb := if sub = 0 then s.ep 1 else if sub = 1 then s.ep 3 else s.ep 5
  let cib := if s.cSec then s.mode.nSecondaryIndexBits else s.mode.nIndexBits
  let aib := if s.aSec then s.mode.nSecondaryIndexBits else s.mode.nIndexBits
  let wcm := exactWeight cib (if s.cSec then qi else pi) &&& 0x7f
  let wam := exactWeight aib (if s.aSec then qi else pi) &&& 0x7f
  let rb := lerp (ea &&& 0xff00ff) (eb &&& 0xff00ff) wcm 0x200020 &&& 0xff00ff
  let g := lerp (ea >>> 8 &&& 0xff) (eb >>> 8 &&& 0xff) wcm 32
  let al := lerp (ea >>> 24) (eb >>> 24) wam 32
  let px := rb ||| shl32 g 8 ||| shl32 al 24
  let sw := bitfieldExtract px s.rot8 8
  let px := bitfieldInsert px (px >>> 24) s.rot8 8
  bitfieldInsert px sw 24 8

/-- The loop over the texels: `n` are left, `ps` and `qs` show the indices that have not been
read. -/
def Setup.loop (s : Setup) : ℕ → ℕ → Uvec2 → Uvec2 → List ℕ
  | 0, _, _, _ => []
  | n + 1, t, ps, qs =>
    let cut := if t = 0 ∨ t = s.ax ∨ t = s.ay then 1 else 0
    let pw := s.mode.nIndexBits - cut
    let qw := s.mode.nSecondaryIndexBits - cut
    let pi := bitfieldExtract ps.x 0 pw
    let qi := bitfieldExtract qs.x 0 qw
    s.texel t pi qi :: s.loop n (t + 1) (bcShr64 ps pw) (bcShr64 qs qw)

/-- `bc7_decode_block`: the sixteen words of `bc_px`. -/
def bc7DecodeBlock (blk : Block) : List ℕ :=
  match findLSB (blk.word 0 &&& 0xff) with
  | none => replicate 16 0
  | some mode =>
    let m := bc7Packed mode
    let nsub := m.nSubsets
    let bit := mode + 1
    let part := bcBits blk bit m.nPartitionBits
    let bit := bit + m.nPartitionBits
    let rotation := bcBits blk bit (2 * m.hasRotationBits.toNat)
    let bit := bit + 2 * m.hasRotationBits.toNat
    let isel := bcBits blk bit m.hasIndexSelectionBit.toNat
    let bit := bit + m.hasIndexSelectionBit.toNat
    let abase := bit + 6 * nsub * m.nColorBits
    let pbase := abase + 2 * nsub * m.nAlphaBits
    let w : Windows :=
      { r := bcWin32 blk bit
        g := bcWin32 blk (bit + 2 * nsub * m.nColorBits)
        b := bcWin32 blk (bit + 4 * nsub * m.nColorBits)
        al := bcWin32 blk abase
        p := bcWin32 blk pbase }
    let bitBase := pbase + if m.hasEndpointPbits then 2 * nsub else m.hasSharedPbits.toNat * nsub
    let secBase := bitBase + 16 * m.nIndexBits - nsub
    let s : Setup :=
      { mode := m
        ep := packedEndpoint m w
        subsets := if nsub = 2 then bcPart2.getD part 0 else if nsub = 3 then bcPart3.getD part 0 else 0
        ax := if nsub = 2 then bcAnchor2.getD part 0 else if nsub = 3 then bcAnchor3b.getD part 0 else 16
        ay := if nsub = 3 then bcAnchor3c.getD part 0 else 16
        cSec := isel ≠ 0
        aSec := m.nSecondaryIndexBits ≠ 0 ∧ isel = 0
        rot8 := if rotation = 0 then 24 else 8 * (rotation - 1) }
    s.loop 16 0 ⟨bcWin32 blk bitBase, bcWin32 blk (bitBase + 32)⟩
      ⟨bcWin32 blk secBase, bcWin32 blk (secBase + 32)⟩

lemma bc7Packed_eq : ∀ i < 8, bc7Packed i = unormModes.getD i default := by decide

section Words

/-- The two lanes of a word. -/
theorem and_lanes (n : ℕ) : n &&& 0xff00ff = n % 256 + 65536 * (n / 65536 % 256) := by
  have hmask : (0xff00ff : ℕ) = (2 ^ 8 - 1) ||| (2 ^ 8 - 1) <<< 16 := rfl
  have hhigh : n &&& (2 ^ 8 - 1) <<< 16 = (n / 65536 % 256) <<< 16 := by
    apply eq_of_testBit_eq
    intro i
    rw [testBit_and, testBit_shiftLeft, testBit_shiftLeft, testBit_two_pow_sub_one,
      show 256 = 2 ^ 8 from rfl, show 65536 = 2 ^ 16 from rfl, testBit_mod_two_pow, testBit_div_two_pow]
    by_cases hi : 16 ≤ i
    · have hsum : i - 16 + 16 = i := by omega
      simp only [hi, hsum, decide_true, Bool.true_and]
      exact Bool.and_comm _ _
    · simp only [hi, decide_false, Bool.false_and, Bool.and_false]
  rw [hmask, and_or_distrib_left, hhigh, and_two_pow_sub_one_eq_mod, Nat.or_comm,
    shiftLeft_eq, mul_comm, show 65536 = 2 ^ 16 from rfl,
    ← two_pow_add_eq_or_of_lt (i := 16) (by omega), add_comm]

lemma lerp_byte {a b w : ℕ} (ha : a < 2 ^ 8) (hb : b < 2 ^ 8) (hw : w ≤ 64) :
    lerp a b w 32 = UnormMode.blendNat a b w :=
  lerp_eq hw (by omega)

/-- The sum of a lane stays within its sixteen bits. -/
theorem lane_lt {a b w : ℕ} (ha : a < 2 ^ 8) (hb : b < 2 ^ 8) (hw : w ≤ 64) :
    a * (64 - w) + b * w + 32 < 2 ^ 14 := by
  have hamul : a * (64 - w) ≤ 255 * (64 - w) := Nat.mul_le_mul_right _ (by omega)
  have hbmul : b * w ≤ 255 * w := Nat.mul_le_mul_right _ (by omega)
  omega

/-- Two lanes at once. -/
theorem lerp_lanes {a a' b b' w : ℕ} (ha : a < 2 ^ 8) (ha' : a' < 2 ^ 8) (hb : b < 2 ^ 8)
    (hb' : b' < 2 ^ 8) (hw : w ≤ 64) :
    lerp (a + 65536 * a') (b + 65536 * b') w 0x200020 &&& 0xff00ff =
      UnormMode.blendNat a b w + 65536 * UnormMode.blendNat a' b' w := by
  have hlow := lane_lt ha hb hw
  have hhigh := lane_lt ha' hb' hw
  have hsplit : (a + 65536 * a') * (64 - w) + (b + 65536 * b') * w + 0x200020 =
      (a * (64 - w) + b * w + 32) + 65536 * (a' * (64 - w) + b' * w + 32) := by ring
  rw [lerp_eq hw (by omega), hsplit, and_lanes]
  unfold blendNat
  omega

section Bytes

variable {v : ℕ → ℕ} (hv : ∀ c, v c < 2 ^ 8)

include hv

lemma packRgba_lanes : packRgba v &&& 0xff00ff = v 0 + 65536 * v 2 := by
  have h0 := hv 0
  have h1 := hv 1
  have h2 := hv 2
  rw [and_lanes]
  unfold packRgba
  omega

lemma packRgba_green : packRgba v >>> 8 &&& 0xff = v 1 := by
  have h0 := hv 0
  have h1 := hv 1
  rw [and_ff, shiftRight_eq_div_pow]
  unfold packRgba
  omega

lemma packRgba_alpha : packRgba v >>> 24 = v 3 := by
  have h0 := hv 0
  have h1 := hv 1
  have h2 := hv 2
  unfold packRgba
  omega

/-- The lanes, green and alpha are put together. -/
theorem packRgba_join : (v 0 + 65536 * v 2) ||| shl32 (v 1) 8 ||| shl32 (v 3) 24 = packRgba v := by
  have h0 := hv 0
  have h2 := hv 2
  have hlanes : v 0 + 65536 * v 2 = v 0 ||| shl32 (v 2) 16 := by
    rw [shl32_of_lt h2 (by omega), Nat.or_comm, shiftLeft_eq, mul_comm (v 2),
      ← two_pow_add_eq_or_of_lt (i := 16) (by omega), add_comm]
  rw [← packRgba_or hv, hlanes, Nat.or_assoc (v 0), Nat.or_comm (shl32 (v 2) 16), ← Nat.or_assoc (v 0)]

lemma packRgba_extract {i : ℕ} (hi : i < 4) : bitfieldExtract (packRgba v) (8 * i) 8 = v i := by
  have h0 := hv 0
  have h1 := hv 1
  have h2 := hv 2
  have h3 := hv 3
  unfold bitfieldExtract field packRgba
  interval_cases i <;> omega

lemma packRgba_insert {i b : ℕ} (hi : i < 4) (hb : b < 2 ^ 8) :
    bitfieldInsert (packRgba v) b (8 * i) 8 = packRgba (update v i b) := by
  have h0 := hv 0
  have h1 := hv 1
  have h2 := hv 2
  have h3 := hv 3
  unfold bitfieldInsert packRgba
  interval_cases i <;> simp [update] <;> omega

/-- The swap of a byte with the highest one undoes the rotation. -/
theorem packRgba_rotate {rotation : ℕ} (hr : rotation < 4) :
    bitfieldInsert (bitfieldInsert (packRgba v) (packRgba v >>> 24) (if rotation = 0 then 24
      else 8 * (rotation - 1)) 8)
        (bitfieldExtract (packRgba v) (if rotation = 0 then 24 else 8 * (rotation - 1)) 8) 24 8 =
      packRgba (UnormMode.rotate rotation v) := by
  -- the byte that is swapped
  have hbyte : (if rotation = 0 then 24 else 8 * (rotation - 1)) =
      8 * (if rotation = 0 then 3 else rotation - 1) := by
    split_ifs <;> rfl
  have hlt : (if rotation = 0 then 3 else rotation - 1) < 4 := by split_ifs <;> omega
  have hv' : ∀ c, update v (if rotation = 0 then 3 else rotation - 1) (v 3) c < 2 ^ 8 := by
    intro c
    by_cases hc : c = if rotation = 0 then 3 else rotation - 1
    · rw [hc, update_self]
      exact hv 3
    · rw [update_of_ne hc]
      exact hv c
  rw [hbyte, packRgba_alpha hv, packRgba_extract hv hlt, packRgba_insert hv hlt (hv 3),
    show 24 = 8 * 3 from rfl, packRgba_insert hv' (by omega) (hv _)]
  congr 1
  funext c
  unfold UnormMode.rotate
  by_cases hc : c = 3
  · subst hc
    rw [update_self, if_pos rfl]
    split_ifs <;> rfl
  · rw [update_of_ne hc, if_neg hc]
    split_ifs with h0 hcr
    · rw [update_of_ne hc]
    · rw [hcr, update_self]
    · rw [update_of_ne hcr]

end Bytes

end Words

lemma findLSB_word (blk : Block) : findLSB (blk.word 0 &&& 0xff) = mode blk.toNat := by
  have hbit : ∀ i, (blk.word 0 &&& 0xff).testBit i = (decide (i < 8) && blk.toNat.testBit i) := by
    intro i
    have hlow : blk.word 0 &&& 0xff = field blk.toNat 0 8 := by
      rw [and_ff]
      exact field_mod (n := 8) (m := 32) (by omega)
    rw [hlow, testBit_field, zero_add]
  have hrange : range 32 = range 8 ++ (range 24).map (8 + ·) := by decide
  unfold findLSB mode
  simp only [hbit, hrange, find?_append]
  -- no bit past the first eight is set
  have hhigh : ((range 24).map (8 + ·)).find? (fun i => decide (i < 8) && blk.toNat.testBit i) = none := by
    rw [find?_eq_none]
    intro i hi
    rw [mem_map] at hi
    obtain ⟨j, _, rfl⟩ := hi
    simp
  have hlow : (range 8).find? (fun i => decide (i < 8) && blk.toNat.testBit i) =
      (range 8).find? fun i => blk.toNat.testBit i := by
    simp [show range 8 = [0, 1, 2, 3, 4, 5, 6, 7] from rfl, find?_cons]
  rw [hhigh, hlow, Option.or_none]

section Special

variable {m : UnormMode} {start x : ℕ} {blk : Block}

/-- The windows the endpoints of a block are read from. -/
def UnormMode.windows (m : UnormMode) (start x : ℕ) : Windows where
  r := field x (m.colorStart start) 32
  g := field x (m.colorStart start + 2 * m.nSubsets * m.nColorBits) 32
  b := field x (m.colorStart start + 2 * (2 * m.nSubsets * m.nColorBits)) 32
  al := field x (m.alphaStart start) 32
  p := field x (m.pbitStart start) 32

/-- A field of `n` bits, one of those of the endpoints, in a window. -/
theorem window_field {K k n off : ℕ} (hk : k < K) (h : K * n ≤ 32) :
    bitfieldExtract (field x off 32) (min (k * n) (32 - n)) n = field x (off + k * n) n := by
  have hle : (k + 1) * n ≤ K * n := Nat.mul_le_mul_right n hk
  rw [succ_mul] at hle
  unfold bitfieldExtract
  rw [min_eq_left (by omega), field_field (by omega)]

lemma UnormMode.Valid.pbit_window (h : m.Valid) {k : ℕ} (hk : k < 2 * m.nSubsets) :
    bitfieldExtract (field x (m.pbitStart start) 32) (if m.hasEndpointPbits then k
      else k >>> 1) m.extra = m.pbit start x k := by
  have hsub := h.subsets_le
  have hextra : m.extra ≤ 1 := by
    have hone := h.one_pbit
    unfold extra
    rcases hone with hone | hone <;> rw [hone] <;> simp [Bool.toNat_le]
  unfold bitfieldExtract pbit
  rw [shiftRight_eq_div_pow, pow_one, field_field]
  split_ifs <;> omega

/-- The words of the endpoints. -/
theorem UnormMode.Valid.packedEndpoint_eq (h : m.Valid) {k : ℕ} (hk : k < 2 * m.nSubsets) :
    packedEndpoint m (m.windows start x) k = packRgba (m.endpoint start x k) := by
  have hcolor := h.color_le
  have hc : ∀ off, shl32 (bitfieldExtract (field x off 32) (min (k * m.nColorBits) (32 - m.nColorBits))
      m.nColorBits) m.extra = field x (off + k * m.nColorBits) m.nColorBits <<< m.extra := by
    intro off
    rw [window_field hk h.color_word, shl32_of_lt (field_lt _ _ _) (by omega)]
  rw [← packRgba_or (h.endpoint_lt k)]
  unfold packedEndpoint windows
  simp only [hc, h.pbit_window hk]
  have ha : m.nAlphaBits > 0 → shl32 (bitfieldExtract (field x (m.alphaStart start) 32)
      (min (k * m.nAlphaBits) (32 - m.nAlphaBits)) m.nAlphaBits) m.extra = m.alpha start x k <<< m.extra := by
    intro hpos
    have halpha := h.alpha_le hpos
    rw [window_field hk h.alpha_word, shl32_of_lt (field_lt _ _ _) (by omega)]
    rfl
  have hcomp : ∀ c < 3, m.endpoint start x k c = expand (field x (m.colorStart start +
      c * (2 * m.nSubsets * m.nColorBits) + k * m.nColorBits) m.nColorBits <<< m.extra ||| m.pbit start x k)
      (m.nColorBits + m.extra) := fun c hc3 => if_pos hc3
  have halpha : m.endpoint start x k 3 = if m.nAlphaBits > 0 then
      expand (m.alpha start x k <<< m.extra ||| m.pbit start x k) (m.nAlphaBits + m.extra) else 255 := rfl
  rw [hcomp 0 (by omega), hcomp 1 (by omega), hcomp 2 (by omega), halpha, zero_mul, one_mul, add_zero]
  by_cases hpos : m.nAlphaBits > 0
  · rw [if_pos hpos, if_pos hpos, ha hpos]
  · rw [if_neg hpos, if_neg hpos]

/-- What the loop has in a block of mode `m`. -/
def UnormMode.setup (m : UnormMode) (start x : ℕ) : Setup where
  mode := m
  ep := packedEndpoint m (m.windows start x)
  subsets := partitionSubsets m.nSubsets (m.partition start x)
  ax := if m.nSubsets = 2 then anchorIndex 0 (m.partition start x)
    else if m.nSubsets = 3 then anchorIndex 1 (m.partition start x) else 16
  ay := if m.nSubsets = 3 then anchorIndex 2 (m.partition start x) else 16
  cSec := m.colorSecond start x
  aSec := m.alphaSecond start x
  rot8 := if m.rotation start x = 0 then 24 else 8 * (m.rotation start x - 1)

/-- The texels whose indices are one bit shorter are the anchors. -/
theorem UnormMode.setup_cut (m : UnormMode) {t : ℕ} (ht : t < 16) :
    (t = 0 ∨ t = (m.setup start x).ax ∨ t = (m.setup start x).ay) ↔
      isAnchor m.nSubsets (m.partition start x) t = true := by
  unfold setup isAnchor
  by_cases h0 : t = 0
  · simp [h0]
  · simp only [h0, false_or, if_false]
    generalize m.nSubsets = n
    match n with
    | 2 =>
      simp only [decide_eq_true_eq, if_true, reduceEqDiff, if_false]
      omega
    | 3 =>
      simp only [decide_eq_true_eq, if_true, reduceEqDiff, if_false]
      omega
    | 0 | 1 | n + 4 => simp [show t ≠ 16 by omega]

lemma UnormMode.Valid.setup_texel (h : m.Valid) {t : ℕ} (ht : t < 16) :
    (m.setup start x).texel t (m.index start x t) (m.second start x t) = packRgba (m.texel start x t) := by
  have hsub : m.subset start x t < m.nSubsets := subsetNum_lt h.subsets_pos h.partition_lt ht
  have hsub3 := h.subsets_le
  have hrot : m.rotation start x < 4 := by
    apply lt_of_lt_of_le (field_lt _ _ _)
    cases m.hasRotationBits <;> decide
  have hwc : m.weight start x (m.colorSecond start x) t ≤ 64 := h.weight_le h.second_pos_of_color t
  have hwa : m.weight start x (m.alphaSecond start x) t ≤ 64 := h.weight_le second_pos_of_alpha t
  -- the words of the two endpoints of the subset
  have hends : ∀ j < 2, (if m.subset start x t = 0 then packedEndpoint m (m.windows start x) j
      else if m.subset start x t = 1 then packedEndpoint m (m.windows start x) (2 + j)
      else packedEndpoint m (m.windows start x) (4 + j)) =
      packRgba (m.endpoint start x (m.subset start x t * 2 + j)) := by
    intro j hj
    rw [← h.packedEndpoint_eq (by omega)]
    generalize m.subset start x t = sub at hsub
    have hsub' : sub < 3 := by omega
    interval_cases sub
    · rw [zero_mul, zero_add]
      rfl
    · rfl
    · rfl
  have hea := hends 0 (by decide)
  have heb := hends 1 (by decide)
  -- the two weights
  have hweight : ∀ sec : Bool, exactWeight (if sec then m.nSecondaryIndexBits else m.nIndexBits)
      (if sec then m.second start x t else m.index start x t) = m.weight start x sec t := by
    intro sec
    cases sec <;> rfl
  have hsubset : (m.setup start x).subsets >>> (2 * t) &&& 3 = m.subset start x t := by
    rw [mul_comm]
    rfl
  have hep : ∀ k c, m.endpoint start x k c < 2 ^ 8 := fun k c => h.endpoint_lt k c
  unfold Setup.texel
  simp only [hsubset]
  unfold setup
  simp only [hea, heb, hweight, and_7f hwc, and_7f hwa, packRgba_lanes (hep _), packRgba_green (hep _),
    packRgba_alpha (hep _), lerp_lanes (hep _ _) (hep _ _) (hep _ _) (hep _ _) hwc,
    lerp_byte (hep _ _) (hep _ _) hwc, lerp_byte (hep _ _) (hep _ _) hwa]
  exact packRgba_join (v := m.component start x t) (h.component_lt t) ▸ packRgba_rotate
    (h.component_lt t) hrot

/-- The loop stores the texels that are left, if its streams show the indices that are left. -/
theorem UnormMode.Valid.setup_loop (h : m.Valid) (n : ℕ) : ∀ (t : ℕ) (ps qs : Uvec2), t + n = 16 →
    ps.Shows x (m.indexStart start + indexOffset m.nSubsets (m.partition start x) m.nIndexBits t)
      (64 - indexOffset m.nSubsets (m.partition start x) m.nIndexBits t) →
    qs.Shows x (m.secondStart start + indexOffset m.nSubsets (m.partition start x) m.nSecondaryIndexBits t)
      (64 - indexOffset m.nSubsets (m.partition start x) m.nSecondaryIndexBits t) →
    (m.setup start x).loop n t ps qs = (range' t n).map fun t => packRgba (m.texel start x t) := by
  have hpart : m.partition start x < 64 := h.partition_lt
  induction n with
  | zero => intros; rfl
  | succ n ih =>
    intro t ps qs ht hps hqs
    obtain ⟨hpread, hpshift⟩ := hps.index h.subsets_pos h.subsets_le hpart h.index_le (by omega)
    obtain ⟨hqread, hqshift⟩ := hqs.index h.subsets_pos h.subsets_le hpart h.second_le (by omega)
    have hcut : ∀ ib, ib - (if t = 0 ∨ t = (m.setup start x).ax ∨ t = (m.setup start x).ay then 1
        else 0) = indexWidth m.nSubsets (m.partition start x) ib t := by
      intro ib
      unfold indexWidth
      simp only [m.setup_cut (show t < 16 by omega)]
    have hread : (m.setup start x).mode = m := rfl
    rw [range'_succ, map_cons, Setup.loop]
    simp only [hread, hcut]
    rw [hpread, hqread, cons_eq_cons]
    constructor
    · exact h.setup_texel (by omega)
    · exact ih (t + 1) _ _ (by omega) hpshift hqshift

end Special

/-- The specialised decoder stores the texels of the block. -/
theorem bc7DecodeBlock_eq (blk : Block) :
    bc7DecodeBlock blk = (range 16).map fun t => packRgba (decode blk.toNat t) := by
  unfold bc7DecodeBlock decode
  rw [findLSB_word]
  cases hm : mode blk.toNat with
  | none => rfl
  | some i =>
    have hi := mode_lt hm
    have h := valid_getD hi
    dsimp only
    rw [bc7Packed_eq i hi]
    generalize unormModes.getD i default = m at h
    have hpart := h.partition_le
    have hsub := h.subsets_le
    have hge := h.index_ge
    -- the fields of the header and the positions after it
    have hrot : 2 * m.hasRotationBits.toNat ≤ 32 := by cases m.hasRotationBits <;> decide
    have hsel : m.hasIndexSelectionBit.toNat ≤ 32 := by cases m.hasIndexSelectionBit <;> decide
    have hcolor : i + 1 + m.nPartitionBits + 2 * m.hasRotationBits.toNat +
        m.hasIndexSelectionBit.toNat = m.colorStart (i + 1) := rfl
    have halpha : m.colorStart (i + 1) + 6 * m.nSubsets * m.nColorBits = m.alphaStart (i + 1) := by
      unfold alphaStart
      ring
    have hpbit : m.alphaStart (i + 1) + 2 * m.nSubsets * m.nAlphaBits = m.pbitStart (i + 1) := rfl
    have hindex : (m.pbitStart (i + 1) + if m.hasEndpointPbits then 2 * m.nSubsets
        else m.hasSharedPbits.toNat * m.nSubsets) = m.indexStart (i + 1) := by
      unfold indexStart nPbits
      cases m.hasSharedPbits <;> simp
    have hsecond : m.indexStart (i + 1) + 16 * m.nIndexBits - m.nSubsets = m.secondStart (i + 1) := by
      unfold secondStart
      omega
    have hblue : 4 * m.nSubsets * m.nColorBits = 2 * (2 * m.nSubsets * m.nColorBits) := by ring
    have hwindows : (⟨bcWin32 blk (m.colorStart (i + 1)),
        bcWin32 blk (m.colorStart (i + 1) + 2 * m.nSubsets * m.nColorBits),
        bcWin32 blk (m.colorStart (i + 1) + 4 * m.nSubsets * m.nColorBits),
        bcWin32 blk (m.alphaStart (i + 1)), bcWin32 blk (m.pbitStart (i + 1))⟩ : Windows) =
        m.windows (i + 1) blk.toNat := by
      simp only [bcWin32_eq, hblue]
      rfl
    rw [bcBits_eq blk _ _ (show m.nPartitionBits ≤ 32 by omega), bcBits_eq blk _ _ hrot,
      bcBits_eq blk _ _ hsel,
      hcolor, halpha, hpbit, hindex, hsecond, hwindows, bcPart_eq, range_eq_range']
    apply h.setup_loop 16 0 _ _ rfl
    · rw [indexOffset_zero]
      exact .win64 blk _
    · rw [indexOffset_zero]
      exact .win64 blk _

/-- On every block the specialised path and the table-driven path of `bc7_decode_block` store the
same texels, whatever was in the array of the endpoints. -/
theorem bc7DecodeBlock_eq_tables (junk : Endpoints) (blk : Block) :
    bc7DecodeBlock blk = bc7DecodeBlockTables junk blk := by
  rw [bc7DecodeBlock_eq, bc7DecodeBlockTables_eq]

end RadvXclipse.Texcompress.Bc7
