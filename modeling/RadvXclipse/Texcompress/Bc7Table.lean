import RadvXclipse.Texcompress.Bc7Endpoints

/-!
# The table-driven BC7 decoder of the shader

`bc7_decode_block` of `bc_decoder.glsl` with `BC_TABLES_BUFFER`. The tables in the buffer are
generated from the constant arrays of the same file. A texel is stored as one word, red in its
lowest byte.
-/

namespace RadvXclipse.Texcompress.Bc7

open Lib Function Nat

def bc7Nsub : List ℕ := [3, 2, 3, 2, 1, 1, 1, 2]
def bc7Npb : List ℕ := [4, 6, 6, 6, 0, 0, 0, 6]
def bc7Rot : List ℕ := [0, 0, 0, 0, 1, 1, 0, 0]
def bc7Isel : List ℕ := [0, 0, 0, 0, 1, 0, 0, 0]
def bc7Cbits : List ℕ := [4, 6, 5, 7, 5, 7, 7, 5]
def bc7Abits : List ℕ := [0, 0, 0, 0, 6, 8, 7, 5]
def bc7Epb : List ℕ := [1, 0, 0, 1, 0, 0, 1, 1]
def bc7Spb : List ℕ := [0, 1, 0, 0, 0, 0, 0, 0]
def bc7Ib : List ℕ := [3, 3, 2, 2, 2, 2, 4, 2]
def bc7Ib2 : List ℕ := [0, 0, 0, 0, 3, 2, 0, 0]

/-- The entries of the `bc7_` tables for a mode. -/
def bc7Mode (mode : ℕ) : UnormMode where
  nSubsets := bc7Nsub.getD mode 0
  nPartitionBits := bc7Npb.getD mode 0
  hasRotationBits := bc7Rot.getD mode 0 ≠ 0
  hasIndexSelectionBit := bc7Isel.getD mode 0 ≠ 0
  nColorBits := bc7Cbits.getD mode 0
  nAlphaBits := bc7Abits.getD mode 0
  hasEndpointPbits := bc7Epb.getD mode 0 ≠ 0
  hasSharedPbits := bc7Spb.getD mode 0 ≠ 0
  nIndexBits := bc7Ib.getD mode 0
  nSecondaryIndexBits := bc7Ib2.getD mode 0

/-- The colour with the rotation undone. -/
def swapAlpha (rotation : ℕ) (res : ℕ → ℤ) : ℕ → ℤ :=
  if rotation ≠ 0 then
    let t := res (rotation - 1)
    update (update res (rotation - 1) (res 3)) 3 t
  else res

/-- One round of the loop over the texels. -/
def tableTexel (blk : Block) (m : UnormMode) (part subsets rotation isel bitBase : ℕ)
    (ep : Endpoints) (texel : ℕ) : ℕ :=
  let ib := m.nIndexBits
  let ib2 := m.nSecondaryIndexBits
  let anchors := bcAnchorsBefore m.nSubsets part texel
  let secBit := bitBase + 16 * ib - m.nSubsets + ib2 * texel - anchors
  let tbit := bitBase + ib * texel - anchors
  let sub := subsets >>> (texel * 2) &&& 3
  let anchor := bcIsAnchor m.nSubsets part texel
  let idx0 := bcBits blk tbit (ib - if anchor then 1 else 0)
  let idx1 := if ib2 ≠ 0 then bcBits blk secBit (ib2 - if anchor then 1 else 0) else 0
  let cidx := if isel ≠ 0 then idx1 else idx0
  let cib := if isel ≠ 0 then ib2 else ib
  let epa := ep (sub * 2)
  let epb := ep (sub * 2 + 1)
  let aidx := if ib2 ≠ 0 ∧ isel = 0 then idx1 else idx0
  let aib := if ib2 ≠ 0 ∧ isel = 0 then ib2 else ib
  let res : ℕ → ℤ := fun c =>
    if c < 3 then bcInterpolate (epa c) (epb c) cidx cib else bcInterpolate (epa 3) (epb 3) aidx aib
  let res := swapAlpha rotation res
  toUint (res 0) ||| shl32 (toUint (res 1)) 8 ||| shl32 (toUint (res 2)) 16 ||| shl32 (toUint (res 3)) 24

/-- `bc7_decode_block` with tables: the sixteen words of `bc_px`. -/
def bc7DecodeBlockTables (junk : Endpoints) (blk : Block) : List ℕ :=
  match (List.range 8).find? fun i => bcBits blk i 1 ≠ 0 with
  | none => List.replicate 16 0
  | some mode =>
    let m := bc7Mode mode
    let bit := mode + 1
    let part := bcBits blk bit m.nPartitionBits
    let bit := bit + m.nPartitionBits
    let subsets := if m.nSubsets = 2 then bcPart2.getD part 0 else if m.nSubsets = 3 then bcPart3.getD part 0
      else 0
    let rotation := if m.hasRotationBits then bcBits blk bit 2 else 0
    let bit := if m.hasRotationBits then bit + 2 else bit
    let isel := if m.hasIndexSelectionBit then bcBits blk bit 1 else 0
    let bit := if m.hasIndexSelectionBit then bit + 1 else bit
    let ep := m.readEndpoints (bcBits blk) id junk bit
    (List.range 16).map (tableTexel blk m part subsets rotation isel ep.2 ep.1)

lemma bc7Mode_eq : ∀ i < 8, bc7Mode i = unormModes.getD i default := by decide

/-- A texel as a word. -/
def packRgba (v : ℕ → ℕ) : ℕ := v 0 + 2 ^ 8 * v 1 + 2 ^ 16 * v 2 + 2 ^ 24 * v 3

/-- The bytes of a word, put together with shifts. -/
theorem packRgba_or {v : ℕ → ℕ} (hv : ∀ c, v c < 2 ^ 8) :
    v 0 ||| shl32 (v 1) 8 ||| shl32 (v 2) 16 ||| shl32 (v 3) 24 = packRgba v := by
  have h0 := hv 0
  have h1 := hv 1
  have h2 := hv 2
  have h3 := hv 3
  -- each byte is put above the number so far
  have hor : ∀ a b n, a < 2 ^ n → a ||| b <<< n = a + 2 ^ n * b := by
    intro a b n ha
    rw [Nat.or_comm, shiftLeft_eq, mul_comm b, ← two_pow_add_eq_or_of_lt ha, add_comm]
  rw [shl32_of_lt h1 (by omega), shl32_of_lt h2 (by omega), shl32_of_lt h3 (by omega), hor _ _ 8 h0,
    hor _ _ 16 (by omega), hor _ _ 24 (by omega)]
  rfl

lemma swapAlpha_natCast (rotation : ℕ) (v : ℕ → ℕ) (c : ℕ) :
    swapAlpha rotation (fun c => (v c : ℤ)) c = (UnormMode.rotate rotation v c : ℤ) := by
  unfold swapAlpha UnormMode.rotate
  by_cases h0 : rotation = 0
  · simp only [h0, ne_eq, not_true, if_false, if_true]
  · simp only [h0, ne_eq, not_false_iff, if_true, if_false]
    by_cases h3 : c = 3
    · subst h3
      simp
    · by_cases hcr : c = rotation - 1
      · subst hcr
        rw [update_of_ne h3, update_self, if_neg h3, if_pos rfl]
      · rw [update_of_ne h3, update_of_ne hcr, if_neg h3, if_neg hcr]

lemma find_mode (blk : Block) : ((List.range 8).find? fun i => bcBits blk i 1 ≠ 0) = mode blk.toNat := by
  congr 1
  funext i
  have hbit : field blk.toNat i 1 = (blk.toNat.testBit i).toNat := by
    unfold field
    rw [pow_one, testBit, one_and_eq_mod_two]
    generalize blk.toNat >>> i = y
    rcases mod_two_eq_zero_or_one y with h | h <;> simp [h]
  rw [bcBits_eq blk i 1 (by omega), hbit]
  cases blk.toNat.testBit i <;> rfl

/-- A round of the loop stores the texel of the block. -/
theorem UnormMode.Valid.tableTexel_eq {m : UnormMode} {start : ℕ} {blk : Block} {ep : Endpoints} (h : m.Valid)
    (hep : ∀ k < 2 * m.nSubsets, ∀ c < 4, ep k c = m.endpoint start blk.toNat k c) {t : ℕ} (ht : t < 16) :
    tableTexel blk m (m.partition start blk.toNat) (partitionSubsets m.nSubsets (m.partition start blk.toNat))
      (m.rotation start blk.toNat) (m.selection start blk.toNat) (m.indexStart start) ep t =
        packRgba (m.texel start blk.toNat t) := by
  have hbits : ∀ off n, n ≤ 8 → bcBits blk off n = field blk.toNat off n :=
    fun off n hn => bcBits_eq blk off n (by omega)
  have hres := h.component_eq (fun a b n i => bcInterpolate_eq a b) ht
    (if m.nSecondaryIndexBits ≠ 0 then _ else 0)
    (fun hsec => (if_pos (by omega)).trans (h.read_second hbits hsec t)) hep
  have hlt : ∀ c, m.texel start blk.toNat t c < 2 ^ 8 := rotate_lt (h.component_lt t) _
  unfold tableTexel
  simp only [bcAnchorsBefore_eq, bcIsAnchor_eq, h.read_index hbits]
  unfold subset subsetNum at hres
  rw [hres]
  have hword : ∀ c, toUint (swapAlpha (m.rotation start blk.toNat)
      (fun c => (m.component start blk.toNat t c : ℤ)) c) = m.texel start blk.toNat t c := by
    intro c
    have hc := hlt c
    rw [swapAlpha_natCast, ← texel, toUint_natCast (by omega)]
  rw [hword, hword, hword, hword, packRgba_or hlt]

/-- The table-driven decoder stores the texels of the block. -/
theorem bc7DecodeBlockTables_eq (junk : Endpoints) (blk : Block) :
    bc7DecodeBlockTables junk blk = (List.range 16).map fun t => packRgba (decode blk.toNat t) := by
  unfold bc7DecodeBlockTables decode
  rw [find_mode]
  cases hm : mode blk.toNat with
  | none => rfl
  | some i =>
    have hi := mode_lt hm
    have h := valid_getD hi
    have hbits : ∀ off n, n ≤ 8 → bcBits blk off n = field blk.toNat off n :=
      fun off n hn => bcBits_eq blk off n (by omega)
    dsimp only
    rw [bc7Mode_eq i hi]
    generalize unormModes.getD i default = m at h
    have hheader := h.header_eq (i + 1) hbits
    have hkeep : ∀ v < 2 ^ 8, id v = v := fun _ _ => rfl
    have hep := h.readEndpoints_spec hbits hkeep (i + 1) junk
    simp only [hheader, bcPart_eq, hep.1]
    apply List.map_congr_left
    intro t ht
    exact h.tableTexel_eq hep.2 (List.mem_range.mp ht)

end RadvXclipse.Texcompress.Bc7
