import RadvXclipse.Texcompress.Bc6hTable

/-!
# The specialised BC6H decoder of the shader

`bc6h_decode_store` of `bc_decoder.glsl` without `BC_TABLES_BUFFER`. Every field of every mode is
read at its own constant position, the indices are taken from a window of 64 bits that is shifted
along, and the channels are interpolated as unsigned numbers, signed ones offset by 32768.
-/

namespace RadvXclipse.Texcompress.Bc6h

open Lib List Nat FloatMode

/-- What the `switch` over the mode does: `.bits 2 1 3 1 4` in `fields` stands for the statement
`e2.y |= int(bc_bits(blk, 3, 1) << 4u)`, and `true` at the end for one that reverses the bits it
reads. -/
structure Case where
  neb : ℕ
  dw : List ℕ
  delta : Bool
  fields : List Placed
deriving DecidableEq

/-- The cases of the `switch`; the default is none. -/
def bc6Case : ℕ → Option Case
  | 0 => some ⟨10, [5, 5, 5], true,
    [.bits 2 1 2 1 4, .bits 2 2 3 1 4, .bits 3 2 4 1 4, .bits 0 0 5 10 0, .bits 0 1 15 10 0,
     .bits 0 2 25 10 0, .bits 1 0 35 5 0, .bits 3 1 40 1 4, .bits 2 1 41 4 0, .bits 1 1 45 5 0,
     .bits 3 2 50 1 0, .bits 3 1 51 4 0, .bits 1 2 55 5 0, .bits 3 2 60 1 1, .bits 2 2 61 4 0,
     .bits 2 0 65 5 0, .bits 3 2 70 1 2, .bits 3 0 71 5 0, .bits 3 2 76 1 3]⟩
  | 1 => some ⟨7, [6, 6, 6], true,
    [.bits 2 1 2 1 5, .bits 3 1 3 1 4, .bits 3 1 4 1 5, .bits 0 0 5 7 0, .bits 3 2 12 1 0,
     .bits 3 2 13 1 1, .bits 2 2 14 1 4, .bits 0 1 15 7 0, .bits 2 2 22 1 5, .bits 3 2 23 1 2,
     .bits 2 1 24 1 4, .bits 0 2 25 7 0, .bits 3 2 32 1 3, .bits 3 2 33 1 5, .bits 3 2 34 1 4,
     .bits 1 0 35 6 0, .bits 2 1 41 4 0, .bits 1 1 45 6 0, .bits 3 1 51 4 0, .bits 1 2 55 6 0,
     .bits 2 2 61 4 0, .bits 2 0 65 6 0, .bits 3 0 71 6 0]⟩
  | 2 => some ⟨11, [5, 4, 4], true,
    [.bits 0 0 5 10 0, .bits 0 1 15 10 0, .bits 0 2 25 10 0, .bits 1 0 35 5 0,
     .bits 0 0 40 1 10, .bits 2 1 41 4 0, .bits 1 1 45 4 0, .bits 0 1 49 1 10, .bits 3 2 50 1 0,
     .bits 3 1 51 4 0, .bits 1 2 55 4 0, .bits 0 2 59 1 10, .bits 3 2 60 1 1, .bits 2 2 61 4 0,
     .bits 2 0 65 5 0, .bits 3 2 70 1 2, .bits 3 0 71 5 0, .bits 3 2 76 1 3]⟩
  | 3 => some ⟨10, [10, 10, 10], false,
    [.bits 0 0 5 10 0, .bits 0 1 15 10 0, .bits 0 2 25 10 0, .bits 1 0 35 10 0,
     .bits 1 1 45 10 0, .bits 1 2 55 10 0]⟩
  | 4 => some ⟨11, [4, 5, 4], true,
    [.bits 0 0 5 10 0, .bits 0 1 15 10 0, .bits 0 2 25 10 0, .bits 1 0 35 4 0,
     .bits 0 0 39 1 10, .bits 3 1 40 1 4, .bits 2 1 41 4 0, .bits 1 1 45 5 0, .bits 0 1 50 1 10,
     .bits 3 1 51 4 0, .bits 1 2 55 4 0, .bits 0 2 59 1 10, .bits 3 2 60 1 1, .bits 2 2 61 4 0,
     .bits 2 0 65 4 0, .bits 3 2 69 1 0, .bits 3 2 70 1 2, .bits 3 0 71 4 0, .bits 2 1 75 1 4,
     .bits 3 2 76 1 3]⟩
  | 5 => some ⟨11, [9, 9, 9], true,
    [.bits 0 0 5 10 0, .bits 0 1 15 10 0, .bits 0 2 25 10 0, .bits 1 0 35 9 0,
     .bits 0 0 44 1 10, .bits 1 1 45 9 0, .bits 0 1 54 1 10, .bits 1 2 55 9 0,
     .bits 0 2 64 1 10]⟩
  | 6 => some ⟨11, [4, 4, 5], true,
    [.bits 0 0 5 10 0, .bits 0 1 15 10 0, .bits 0 2 25 10 0, .bits 1 0 35 4 0,
     .bits 0 0 39 1 10, .bits 2 2 40 1 4, .bits 2 1 41 4 0, .bits 1 1 45 4 0, .bits 0 1 49 1 10,
     .bits 3 2 50 1 0, .bits 3 1 51 4 0, .bits 1 2 55 5 0, .bits 0 2 60 1 10, .bits 2 2 61 4 0,
     .bits 2 0 65 4 0, .bits 3 2 69 1 1, .bits 3 2 70 1 2, .bits 3 0 71 4 0, .bits 3 2 75 1 4,
     .bits 3 2 76 1 3]⟩
  | 7 => some ⟨12, [8, 8, 8], true,
    [.bits 0 0 5 10 0, .bits 0 1 15 10 0, .bits 0 2 25 10 0, .bits 1 0 35 8 0,
     ⟨0, 0, 43, 2, 10, true⟩, .bits 1 1 45 8 0, ⟨0, 1, 53, 2, 10, true⟩, .bits 1 2 55 8 0,
     ⟨0, 2, 63, 2, 10, true⟩]⟩
  | 8 => some ⟨9, [5, 5, 5], true,
    [.bits 0 0 5 9 0, .bits 2 2 14 1 4, .bits 0 1 15 9 0, .bits 2 1 24 1 4, .bits 0 2 25 9 0,
     .bits 3 2 34 1 4, .bits 1 0 35 5 0, .bits 3 1 40 1 4, .bits 2 1 41 4 0, .bits 1 1 45 5 0,
     .bits 3 2 50 1 0, .bits 3 1 51 4 0, .bits 1 2 55 5 0, .bits 3 2 60 1 1, .bits 2 2 61 4 0,
     .bits 2 0 65 5 0, .bits 3 2 70 1 2, .bits 3 0 71 5 0, .bits 3 2 76 1 3]⟩
  | 9 => some ⟨16, [4, 4, 4], true,
    [.bits 0 0 5 10 0, .bits 0 1 15 10 0, .bits 0 2 25 10 0, .bits 1 0 35 4 0,
     ⟨0, 0, 39, 6, 10, true⟩, .bits 1 1 45 4 0, ⟨0, 1, 49, 6, 10, true⟩, .bits 1 2 55 4 0,
     ⟨0, 2, 59, 6, 10, true⟩]⟩
  | 10 => some ⟨8, [6, 5, 5], true,
    [.bits 0 0 5 8 0, .bits 3 1 13 1 4, .bits 2 2 14 1 4, .bits 0 1 15 8 0, .bits 3 2 23 1 2,
     .bits 2 1 24 1 4, .bits 0 2 25 8 0, .bits 3 2 33 1 3, .bits 3 2 34 1 4, .bits 1 0 35 6 0,
     .bits 2 1 41 4 0, .bits 1 1 45 5 0, .bits 3 2 50 1 0, .bits 3 1 51 4 0, .bits 1 2 55 5 0,
     .bits 3 2 60 1 1, .bits 2 2 61 4 0, .bits 2 0 65 6 0, .bits 3 0 71 6 0]⟩
  | 12 => some ⟨8, [5, 6, 5], true,
    [.bits 0 0 5 8 0, .bits 3 2 13 1 0, .bits 2 2 14 1 4, .bits 0 1 15 8 0, .bits 2 1 23 1 5,
     .bits 2 1 24 1 4, .bits 0 2 25 8 0, .bits 3 1 33 1 5, .bits 3 2 34 1 4, .bits 1 0 35 5 0,
     .bits 3 1 40 1 4, .bits 2 1 41 4 0, .bits 1 1 45 6 0, .bits 3 1 51 4 0, .bits 1 2 55 5 0,
     .bits 3 2 60 1 1, .bits 2 2 61 4 0, .bits 2 0 65 5 0, .bits 3 2 70 1 2, .bits 3 0 71 5 0,
     .bits 3 2 76 1 3]⟩
  | 14 => some ⟨8, [5, 5, 6], true,
    [.bits 0 0 5 8 0, .bits 3 2 13 1 1, .bits 2 2 14 1 4, .bits 0 1 15 8 0, .bits 2 2 23 1 5,
     .bits 2 1 24 1 4, .bits 0 2 25 8 0, .bits 3 2 33 1 5, .bits 3 2 34 1 4, .bits 1 0 35 5 0,
     .bits 3 1 40 1 4, .bits 2 1 41 4 0, .bits 1 1 45 5 0, .bits 3 2 50 1 0, .bits 3 1 51 4 0,
     .bits 1 2 55 6 0, .bits 2 2 61 4 0, .bits 2 0 65 5 0, .bits 3 2 70 1 2, .bits 3 0 71 5 0,
     .bits 3 2 76 1 3]⟩
  | 16 => some ⟨6, [6, 6, 6], false,
    [.bits 0 0 5 6 0, .bits 3 1 11 1 4, .bits 3 2 12 1 0, .bits 3 2 13 1 1, .bits 2 2 14 1 4,
     .bits 0 1 15 6 0, .bits 2 1 21 1 5, .bits 2 2 22 1 5, .bits 3 2 23 1 2, .bits 2 1 24 1 4,
     .bits 0 2 25 6 0, .bits 3 1 31 1 5, .bits 3 2 32 1 3, .bits 3 2 33 1 5, .bits 3 2 34 1 4,
     .bits 1 0 35 6 0, .bits 2 1 41 4 0, .bits 1 1 45 6 0, .bits 3 1 51 4 0, .bits 1 2 55 6 0,
     .bits 2 2 61 4 0, .bits 2 0 65 6 0, .bits 3 0 71 6 0]⟩
  | _ => none

/-- A statement of a case. -/
def readField (blk : Block) (ep : Endpoints) (p : Placed) : Endpoints :=
  let v := bcBits blk p.pos p.nBits
  let v := if p.reverse then bitfieldReverse v >>> (32 - p.nBits) else v
  ep.set p.endpoint p.component (ep p.endpoint p.component ||| shl32 v p.offset)

/-- `e0` to `e3` after the differences are added. -/
def caseEndpoints (blk : Block) (cs : Case) : Endpoints :=
  let ep := cs.fields.foldl (readField blk) fun _ _ => 0
  if cs.delta then fun e c =>
    if e = 0 then ep 0 c else ((ep 0 c + bcSignExtend (ep e c) (cs.dw.getD c 0)) % 2 ^ cs.neb).toNat
  else ep

/-- What the loop over the texels reads and does not change. -/
structure Setup where
  signed : Bool
  q : ℕ → ℕ → ℕ
  nib : ℕ
  subsets : ℕ
  ax : ℕ
  bias : ℕ

/-- The channels of a texel from its index. -/
def Setup.texel (s : Setup) (t idx : ℕ) : Uvec3 :=
  let wt := exactWeight s.nib idx &&& 0x7f
  let hi := s.subsets >>> (2 * t) &&& 3 ≠ 0
  let a := if hi then s.q 2 else s.q 0
  let b := if hi then s.q 3 else s.q 1
  Uvec3.of fun c =>
    let v : ℤ := lerp (a c) (b c) wt 32 - s.bias
    let m := mul32 v.natAbs 31
    if s.signed then m >>> 5 ||| (if v < 0 then 0x8000 else 0) else m >>> 6

/-- The loop over the texels: `n` are left, `st` shows the indices that have not been read. -/
def Setup.loop (s : Setup) : ℕ → ℕ → Uvec2 → List Uvec3
  | 0, _, _ => []
  | n + 1, t, st =>
    let w := s.nib - if t = 0 ∨ t = s.ax then 1 else 0
    s.texel t (bitfieldExtract st.x 0 w) :: s.loop n (t + 1) (bcShr64 st w)

/-- `bc6h_decode_store`. -/
def bc6hDecodeStore (blk : Block) (signed : Bool) : List Uvec3 :=
  let b0 := blk.word 0 &&& 0x1f
  let mode := if b0 &&& 2 ≠ 0 then ((b0 >>> 1 &&& 0xe) ||| (b0 &&& 1)) + 2 else b0 &&& 1
  match bc6Case mode with
  | none => replicate 16 ⟨0, 0, 0⟩
  | some cs =>
    let two := mode ≠ 3 ∧ mode ≠ 5 ∧ mode ≠ 7 ∧ mode ≠ 9
    let bias : ℕ := if signed then 32768 else 0
    let ep := caseEndpoints blk cs
    let s : Setup :=
      { signed := signed
        q := fun e c =>
          let u :=
            if signed then signedUnquantize (bcSignExtend (ep e c) cs.neb) cs.neb
            else unsignedUnquantize (ep e c) cs.neb
          toUint (u + bias) &&& 0xffff
        nib := if two then 3 else 4
        subsets := if two then bcPart2.getD (bcBits blk 77 5) 0 else 0
        ax := if two then bcAnchor2.getD (bcBits blk 77 5) 0 else 16
        bias := bias }
    s.loop 16 0 (if two then ⟨bcWin32 blk 82, bcWin32 blk 114⟩ else ⟨bcWin32 blk 65, bcWin32 blk 97⟩)

/-- The mode has two subsets. -/
def hasTwo (mode : ℕ) : Bool := mode ≠ 3 ∧ mode ≠ 5 ∧ mode ≠ 7 ∧ mode ≠ 9

/-- The cases are those of the table, with their positions filled in. -/
theorem bc6Case_eq : ∀ i < 18,
    bc6Case i = if (floatModes.getD i default).reserved then none
      else
        let m := floatModes.getD i default
        some ⟨m.nEndpointBits, m.nDeltaBits, m.transformedEndpoints,
          place (if i < 2 then 2 else 5) m.bitfields⟩ := by
  decide

/-- Everything after the header is at a fixed place. -/
theorem header_fixed : ∀ i < 18, (floatModes.getD i default).reserved = false →
    let m := floatModes.getD i default
    m.nPartitionBits = (if hasTwo i then 5 else 0) ∧ m.nIndexBits = (if hasTwo i then 3 else 4) ∧
      (if i < 2 then 2 else 5) + m.nHeaderBits = if hasTwo i then 77 else 65 := by
  decide

lemma modeStart_eq : ∀ b < 256, modeStart b = if modeNum b < 2 then 2 else 5 := by
  decide +kernel

lemma mode_low : ∀ b < 256,
    (if b % 32 &&& 2 ≠ 0 then (((b % 32) >>> 1 &&& 0xe) ||| (b % 32 &&& 1)) + 2 else b % 32 &&& 1) =
      modeNum b := by
  decide +kernel

section Special

variable {m : FloatMode} {start x : ℕ} {blk : Block}

/-- The statements of a case gather the fields. -/
theorem foldl_readField {ps : List Placed} (hps : ∀ p ∈ ps, p.offset + p.nBits ≤ 16) (ep : Endpoints) :
    ps.foldl (readField blk) ep = fun e c => gather blk.toNat ps e c (ep e c) := by
  induction ps generalizing ep with
  | nil => rfl
  | cons p ps ih =>
    have hp := hps p mem_cons_self
    have hvalue : shl32 (if p.reverse then bitfieldReverse (bcBits blk p.pos p.nBits) >>> (32 - p.nBits)
        else bcBits blk p.pos p.nBits) p.offset = p.value blk.toNat := by
      rw [bcBits_eq blk _ _ (by omega), bitfieldReverse_shift (by omega)]
      apply shl32_of_lt (n := p.nBits) _ (by omega)
      split_ifs
      · exact reverseBits_lt _ _
      · exact field_lt _ _ _
    rw [foldl_cons, ih fun q hq => hps q (mem_cons_of_mem p hq)]
    funext e c
    unfold gather readField Endpoints.set
    rw [foldl_cons, hvalue]
    congr 1
    by_cases he : e = p.endpoint ∧ c = p.component
    · obtain ⟨rfl, rfl⟩ := he
      simp only [and_self, if_true]
    · have he' : ¬ (p.endpoint = e ∧ p.component = c) := fun h => he ⟨h.1.symm, h.2.symm⟩
      simp only [he, he', if_false]

lemma FloatMode.Valid.caseEndpoints_eq (h : m.Valid) (start e : ℕ) {c : ℕ} (hc : c < 3) :
    caseEndpoints blk ⟨m.nEndpointBits, m.nDeltaBits, m.transformedEndpoints, place start m.bitfields⟩ e c =
      m.endpoint start blk.toNat e c := by
  have hword : ∀ p ∈ place start m.bitfields, p.offset + p.nBits ≤ 16 := by
    intro p hp
    obtain ⟨f, hf, _, _, hoffset, hbits⟩ := mem_place hp
    rw [← hoffset, ← hbits]
    exact h.fields_word f hf
  unfold caseEndpoints endpoint
  rw [foldl_readField hword]
  by_cases ht : m.transformedEndpoints = true
  · by_cases he : e = 0
    · subst he
      simp [ht, raw]
    · have hlt : m.raw start blk.toNat e c < 2 ^ m.width e c := h.raw_lt e c
      unfold width at hlt
      rw [if_pos ⟨ht, he⟩] at hlt
      have hextend := bcSignExtend_eq (h.delta_pos c hc) hlt
      simp only [ht, he, if_true, if_false, ne_eq, not_false_iff, and_self]
      rw [← hextend]
      rfl
  · simp [ht, raw]

/-- The interpolation of offset numbers. -/
theorem lerp_bias {a b lo : ℤ} {w : ℕ} (hw : w ≤ 64) (ha : lo ≤ a ∧ a < lo + 2 ^ 16)
    (hb : lo ≤ b ∧ b < lo + 2 ^ 16) :
    (lerp (a - lo).toNat (b - lo).toNat w 32 : ℤ) + lo = blend a b w := by
  rw [lerp_eq hw (by omega)]
  push_cast [hw]
  rw [Int.toNat_of_nonneg (by omega), Int.toNat_of_nonneg (by omega)]
  have hsum : (a - lo) * (64 - w) + (b - lo) * w + 32 = a * (64 - w) + b * w + 32 + -lo * 64 := by ring
  unfold blend
  omega

/-- What the loop has in a block of mode `m`. -/
structure Setup.For (s : Setup) (m : FloatMode) (start x : ℕ) (signed : Bool) : Prop where
  signed_eq : s.signed = signed
  q_eq : ∀ e, ∀ c < 3, s.q e c = (m.unquantized start x signed e c - lowest signed).toNat
  nib_eq : s.nib = m.nIndexBits
  subsets_eq : s.subsets = partitionSubsets m.nSubsets (m.partition start x)
  ax_eq : s.ax = if m.nPartitionBits ≠ 0 then anchorIndex 0 (m.partition start x) else 16
  bias_eq : (s.bias : ℤ) = -lowest signed

variable {s : Setup} {signed : Bool}

section

variable (hs : s.For m start x signed)
include hs

/-- The texels whose indices are one bit shorter are the anchors. -/
theorem Setup.For.cut {t : ℕ} (ht : t < 16) :
    (t = 0 ∨ t = s.ax) ↔ isAnchor m.nSubsets (m.partition start x) t = true := by
  rw [hs.ax_eq]
  unfold isAnchor nSubsets
  by_cases h0 : t = 0
  · simp [h0]
  · by_cases hp : m.nPartitionBits = 0
    · simp [h0, hp, show t ≠ 16 by omega]
    · simp only [h0, hp, ne_eq, not_false_iff, if_true, if_false, false_or, decide_eq_true_eq]
      omega

lemma Setup.For.texel_eq (h : m.Valid) {t : ℕ} (ht : t < 16) :
    s.texel t (m.index start x t) = Uvec3.of fun c => toHalf signed (m.channel start x signed t c) := by
  have hle := h.index_le
  have hw : exactWeight m.nIndexBits (m.index start x t) ≤ 64 :=
    exactWeight_le _ (by omega) h.index_ge _ (index_lt t)
  have hsub : m.subset start x t < 2 := by
    have hlt : m.subset start x t < m.nSubsets := by
      apply subsetNum_lt _ h.partition_lt ht
      unfold nSubsets
      split_ifs <;> omega
    unfold nSubsets at hlt
    split_ifs at hlt <;> omega
  have hsubset : s.subsets >>> (2 * t) &&& 3 = m.subset start x t := by
    rw [hs.subsets_eq, mul_comm]
    rfl
  -- the endpoints of the subset
  have hends : (if m.subset start x t ≠ 0 then s.q 2 else s.q 0) = s.q (m.subset start x t * 2) ∧
      (if m.subset start x t ≠ 0 then s.q 3 else s.q 1) = s.q (m.subset start x t * 2 + 1) := by
    generalize m.subset start x t = sub at hsub
    interval_cases sub <;> exact ⟨rfl, rfl⟩
  have hchannel : ∀ c < 3, (lerp (s.q (m.subset start x t * 2) c) (s.q (m.subset start x t * 2 + 1) c)
      (exactWeight m.nIndexBits (m.index start x t)) 32 : ℤ) - s.bias = m.channel start x signed t c := by
    intro c hc
    rw [hs.q_eq _ c hc, hs.q_eq _ c hc, hs.bias_eq, sub_neg_eq_add,
      lerp_bias hw (h.unquantized_range signed _ c) (h.unquantized_range signed _ c)]
    rfl
  have hhalf : ∀ v : ℤ, lowest signed ≤ v → v < lowest signed + 2 ^ 16 →
      (if signed then mul32 v.natAbs 31 >>> 5 ||| (if v < 0 then 0x8000 else 0)
        else mul32 v.natAbs 31 >>> 6) = toHalf signed v := by
    intro v hlo hhi
    have habs : v.natAbs < 2 ^ 16 := by
      unfold lowest at hlo hhi
      split_ifs at hlo hhi <;> omega
    have hmul : mul32 v.natAbs 31 = v.natAbs * 31 := mod_eq_of_lt (by omega)
    unfold toHalf
    rw [hmul, shiftRight_eq_div_pow, shiftRight_eq_div_pow]
  have hrange : ∀ c, lowest signed ≤ m.channel start x signed t c ∧
      m.channel start x signed t c < lowest signed + 2 ^ 16 := h.channel_range signed t
  unfold Setup.texel Uvec3.of
  simp only [hsubset, hends, hs.nib_eq, and_7f hw, hs.signed_eq]
  rw [hchannel 0 (by omega), hchannel 1 (by omega), hchannel 2 (by omega), hhalf _ (hrange 0).1 (hrange 0).2,
    hhalf _ (hrange 1).1 (hrange 1).2, hhalf _ (hrange 2).1 (hrange 2).2]

/-- The loop hands over the texels that are left, if its stream shows the indices that are left. -/
theorem Setup.For.loop_eq (h : m.Valid) (n : ℕ) : ∀ (t : ℕ) (st : Uvec2), t + n = 16 →
    st.Shows x (m.indexStart start + indexOffset m.nSubsets (m.partition start x) m.nIndexBits t)
      (64 - indexOffset m.nSubsets (m.partition start x) m.nIndexBits t) →
    s.loop n t st = (range' t n).map fun t =>
      Uvec3.of fun c => toHalf signed (m.channel start x signed t c) := by
  have hsubsets : 0 < m.nSubsets ∧ m.nSubsets ≤ 3 := by
    unfold nSubsets
    split_ifs <;> omega
  induction n with
  | zero => intros; rfl
  | succ n ih =>
    intro t st ht hst
    obtain ⟨hread, hshift⟩ := hst.index hsubsets.1 hsubsets.2 h.partition_lt h.index_le (by omega)
    have hcut : s.nib - (if t = 0 ∨ t = s.ax then 1 else 0) =
        indexWidth m.nSubsets (m.partition start x) m.nIndexBits t := by
      unfold indexWidth
      simp only [hs.cut (show t < 16 by omega), hs.nib_eq]
    rw [range'_succ, map_cons, Setup.loop]
    simp only [hcut]
    rw [hread, cons_eq_cons]
    exact ⟨hs.texel_eq h (by omega), ih (t + 1) _ (by omega) hshift⟩

end

end Special

/-- The specialised decoder hands over the channels of the block. -/
theorem bc6hDecodeStore_eq (blk : Block) (signed : Bool) :
    bc6hDecodeStore blk signed = (range 16).map fun t => Uvec3.of (decode signed blk.toNat t) := by
  have hb : field blk.toNat 0 8 < 256 := field_lt _ _ 8
  have hlow : blk.word 0 &&& 0x1f = field blk.toNat 0 8 % 32 := by
    rw [show 0x1f = 2 ^ 5 - 1 from rfl, and_two_pow_sub_one_eq_mod]
    exact (field_mod (n := 5) (m := 32) (by omega)).trans (field_mod (n := 5) (m := 8) (by omega)).symm
  have hlt := modeNum_lt _ hb
  unfold bc6hDecodeStore decode
  simp only [hlow, mode_low _ hb, bc6Case_eq _ hlt, modeStart_eq _ hb]
  cases hr : (floatModes.getD _ default).reserved with
  | true => rfl
  | false =>
    have h := valid_getD hlt hr
    have hfixed := header_fixed _ hlt hr
    generalize hi : modeNum (field blk.toNat 0 8) = i at *
    generalize floatModes.getD i default = m at *
    generalize hstart : (if i < 2 then 2 else 5) = start at *
    have hbias : ((if signed then 32768 else 0 : ℕ) : ℤ) = -lowest signed := by
      cases signed <;> rfl
    -- the offset endpoints fit their sixteen bits
    have hq : ∀ e, ∀ c < 3, (toUint ((if signed then
        signedUnquantize (bcSignExtend (caseEndpoints blk
          ⟨m.nEndpointBits, m.nDeltaBits, m.transformedEndpoints,
            place start m.bitfields⟩ e c) m.nEndpointBits)
          m.nEndpointBits
        else unsignedUnquantize (caseEndpoints blk
          ⟨m.nEndpointBits, m.nDeltaBits, m.transformedEndpoints,
            place start m.bitfields⟩ e c) m.nEndpointBits) +
        (if signed then 32768 else 0 : ℕ)) &&& 0xffff) =
        (m.unquantized start blk.toNat signed e c - lowest signed).toNat := by
      intro e c hc
      have hrange : _ ≤ m.unquantized start blk.toNat signed e c ∧ _ := h.unquantized_range signed e c
      rw [h.caseEndpoints_eq start e hc, bcSignExtend_eq h.endpoint_pos (h.endpoint_lt e c), hbias,
        ← unquantized, ← sub_eq_add_neg]
      generalize m.unquantized start blk.toNat signed e c = u at *
      obtain ⟨n, hn⟩ := Int.eq_ofNat_of_zero_le (show 0 ≤ u - lowest signed by omega)
      rw [hn, toUint_natCast (by omega), and_ffff (by omega), Int.toNat_natCast]
    by_cases htwo : i ≠ 3 ∧ i ≠ 5 ∧ i ≠ 7 ∧ i ≠ 9
    · have hhas : hasTwo i = true := decide_eq_true htwo
      simp only [hhas, if_true] at hfixed
      obtain ⟨hnpb, hnib, hhead⟩ := hfixed
      have hpart : bcBits blk 77 5 = m.partition start blk.toNat := by
        unfold FloatMode.partition
        rw [hhead, hnpb, bcBits_eq blk 77 5 (by omega)]
      simp only [if_pos htwo]
      refine Setup.For.loop_eq ⟨rfl, hq, hnib.symm, ?_, ?_, hbias⟩ h 16 0 _ rfl ?_
      · have hsubs : m.nSubsets = 2 := if_pos (by omega)
        rw [hsubs, ← hpart]
        rfl
      · exact ((if_pos (by omega)).trans (by rw [← hpart]; rfl)).symm
      · unfold indexStart
        rw [indexOffset_zero, hhead, hnpb]
        exact .win64 blk 82
    · have hhas : hasTwo i = false := decide_eq_false htwo
      simp only [hhas, if_false, Bool.false_eq_true] at hfixed
      obtain ⟨hnpb, hnib, hhead⟩ := hfixed
      simp only [if_neg htwo]
      refine Setup.For.loop_eq ⟨rfl, hq, hnib.symm, ?_, ?_, hbias⟩ h 16 0 _ rfl ?_
      · have hsubs : m.nSubsets = 1 := if_neg (by omega)
        rw [hsubs]
        rfl
      · exact (if_neg (by omega)).symm
      · unfold indexStart
        rw [indexOffset_zero, hhead, hnpb]
        exact .win64 blk 65

end RadvXclipse.Texcompress.Bc6h
