import RadvXclipse.Texcompress.Bc7Special
import RadvXclipse.Texcompress.Rows

/-!
# The BC7 decoders of the CPU

`decompress_rgba_unorm_block` and `fetch_rgba_unorm_from_block` of `texcompress_bptc_tmp.h`. The
first writes a block of texels, or the part of it that is in the image, row by row to memory; the
second returns one texel. A pointer is an address of a byte.
-/

namespace RadvXclipse.Texcompress.Bc7

open Lib Util Function List Nat

/-- An `int` stored in a `uint8_t`. -/
def toUint8 (v : ℤ) : ℕ := (v % 2 ^ 8).toNat

/-- `extract_unorm_endpoints`. -/
def extractUnormEndpoints (mode : UnormMode) (block : Block) (bitOffset : ℕ) (endpoints : Endpoints) :
    Endpoints × ℕ :=
  mode.readEndpoints (extractBits block) (· % 2 ^ 8) endpoints bitOffset

/-- `apply_rotation`. -/
def applyRotation (rotation : ℕ) (result : ℕ → ℕ) : ℕ → ℕ :=
  if rotation = 0 then result
  else
    let rotation := rotation - 1
    let t := result rotation
    update (update result rotation (result 3)) 3 t

/-- What both functions have computed when they come to a texel. -/
structure Head where
  mode : UnormMode
  partitionNum : ℕ
  subsets : ℕ
  rotation : ℕ
  indexSelection : ℕ
  endpoints : Endpoints
  bitOffset : ℕ

/-- The first part of both functions; none for the reserved mode. -/
def readHead (junk : Endpoints) (block : Block) : Option Head :=
  let modeNum := ffs (BitVec.ofNat 32 (block.byte 0))
  if modeNum = 0 then none
  else
    let mode := unormModes.getD (modeNum - 1) default
    let bitOffset := modeNum
    let partitionNum := extractBits block bitOffset mode.nPartitionBits
    let bitOffset := bitOffset + mode.nPartitionBits
    let subsets := partitionSubsets mode.nSubsets partitionNum
    let rotation := if mode.hasRotationBits then extractBits block bitOffset 2 else 0
    let bitOffset := if mode.hasRotationBits then bitOffset + 2 else bitOffset
    let indexSelection := if mode.hasIndexSelectionBit then extractBits block bitOffset 1 else 0
    let bitOffset := if mode.hasIndexSelectionBit then bitOffset + 1 else bitOffset
    let endpoints := extractUnormEndpoints mode block bitOffset junk
    some ⟨mode, partitionNum, subsets, rotation, indexSelection, endpoints.1, endpoints.2⟩

/-- The rest of them: `result` for one texel. `indices[1]` is `junk` if the mode has no secondary
index. -/
def Head.result (h : Head) (block : Block) (junk texel : ℕ) : ℕ → ℕ :=
  let mode := h.mode
  let anchorsBeforeTexel := countAnchorsBeforeTexel mode.nSubsets h.partitionNum texel
  let secondaryBitOffset := h.bitOffset + 4 * 4 * mode.nIndexBits - mode.nSubsets +
    mode.nSecondaryIndexBits * texel - anchorsBeforeTexel
  let bitOffset := h.bitOffset + mode.nIndexBits * texel - anchorsBeforeTexel
  let subset := subsetNum h.subsets texel
  let anchor := isAnchor mode.nSubsets h.partitionNum texel
  let index0 := extractBits block bitOffset (mode.nIndexBits - if anchor then 1 else 0)
  let index1 :=
    if mode.nSecondaryIndexBits ≠ 0 then
      extractBits block secondaryBitOffset (mode.nSecondaryIndexBits - if anchor then 1 else 0)
    else junk
  let index := if h.indexSelection ≠ 0 then index1 else index0
  let indexBits := if h.indexSelection ≠ 0 then mode.nSecondaryIndexBits else mode.nIndexBits
  -- alpha uses the opposite index from the color components
  let alphaIndex := if mode.nSecondaryIndexBits ≠ 0 ∧ h.indexSelection = 0 then index1 else index0
  let alphaBits :=
    if mode.nSecondaryIndexBits ≠ 0 ∧ h.indexSelection = 0 then mode.nSecondaryIndexBits else mode.nIndexBits
  applyRotation h.rotation fun c => toUint8 <|
    if c < 3 then
      interpolate (h.endpoints (subset * 2) c) (h.endpoints (subset * 2 + 1) c) index indexBits
    else interpolate (h.endpoints (subset * 2) 3) (h.endpoints (subset * 2 + 1) 3) alphaIndex alphaBits

/-- What the locals hold before they are set. -/
structure Locals where
  endpoints : Endpoints
  index1 : ℕ

/-- `fetch_rgba_unorm_from_block`: the four bytes of the texel. -/
def fetchRgbaUnormFromBlock (junk : Locals) (block : Block) (texel : ℕ) : ℕ → ℕ :=
  match readHead junk.endpoints block with
  | none => fun _ => 0
  | some h => h.result block junk.index1 texel

/-- `decompress_rgba_unorm_block`: the memory after it. -/
def decompressRgbaUnormBlock (junk : Locals) (srcWidth srcHeight : ℕ) (block : Block) (mem : Memory)
    (dstRow dstRowstride : ℕ) : Memory :=
  match readHead junk.endpoints block with
  | none =>
    (storeRows srcHeight dstRowstride (fun _ mem dstRow => memset mem dstRow 0 (4 * srcWidth)) mem dstRow).1
  | some h =>
    (storeRows srcHeight dstRowstride (fun y => storeRow srcWidth y (h.result block junk.index1)) mem dstRow).1

section Result

lemma toUint8_natCast {n : ℕ} (h : n < 2 ^ 8) : toUint8 (n : ℤ) = n := by
  unfold toUint8
  omega

lemma applyRotation_eq (rotation : ℕ) (v : ℕ → ℕ) :
    applyRotation rotation v = UnormMode.rotate rotation v := by
  funext c
  unfold applyRotation UnormMode.rotate
  by_cases h0 : rotation = 0
  · rw [if_pos h0, if_pos h0]
  · rw [if_neg h0, if_neg h0]
    by_cases h3 : c = 3
    · subst h3
      rw [update_self, if_pos rfl]
    · rw [update_of_ne h3, if_neg h3]
      by_cases hcr : c = rotation - 1
      · rw [hcr, update_self, if_pos rfl]
      · rw [update_of_ne hcr, if_neg hcr]

lemma ffs_byte (block : Block) : ffs (BitVec.ofNat 32 (block.byte 0)) = match mode block.toNat with
      | none => 0
      | some i => i + 1 := by
  have hlsb : ∀ i, (BitVec.ofNat 32 (block.byte 0)).getLsbD i = (block.word 0 &&& 0xff).testBit i := by
    intro i
    have hbyte : block.byte 0 = block.word 0 &&& 0xff := by
      rw [and_ff]
      exact (field_mod (n := 8) (m := 32) (by omega)).symm
    have hlt : block.byte 0 < 2 ^ 32 := lt_of_lt_of_le (field_lt _ _ 8) (by decide)
    rw [BitVec.getLsbD, BitVec.toNat_ofNat, mod_eq_of_lt hlt, hbyte]
  rw [← findLSB_word]
  unfold ffs findLSB
  simp only [hlsb]
  generalize find? _ _ = r
  cases r <;> rfl

lemma readHead_none (junk : Endpoints) {block : Block} (hm : mode block.toNat = none) :
    readHead junk block = none := by
  unfold readHead
  simp only [ffs_byte, hm, if_true]

/-- The texels from the head of a block are those of the block. -/
theorem readHead_some (junk : Endpoints) {block : Block} {i : ℕ} (hm : mode block.toNat = some i) :
    ∃ h, readHead junk block = some h ∧ ∀ junk1, ∀ t < 16, h.result block junk1 t = decode block.toNat t := by
  have hi := mode_lt hm
  have h := valid_getD hi
  have hbits : ∀ off n, n ≤ 8 → extractBits block off n = field block.toNat off n :=
    fun off n _ => extractBits_eq block off n
  have hkeep : ∀ v < 2 ^ 8, v % 2 ^ 8 = v := fun v hv => mod_eq_of_lt hv
  unfold readHead extractUnormEndpoints decode
  simp only [ffs_byte, hm, Nat.add_sub_cancel, succ_ne_zero, if_false, Option.some.injEq]
  generalize unormModes.getD i default = m at h
  have hheader := h.header_eq (i + 1) hbits
  have hep := h.readEndpoints_spec hbits hkeep (i + 1) junk
  refine ⟨_, rfl, ?_⟩
  intro junk1 t ht
  have hres := h.component_eq (fun a b n i => interpolate_eq a b) ht
    (if m.nSecondaryIndexBits ≠ 0 then _ else junk1)
    (fun hsec => (if_pos (by omega)).trans (h.read_second hbits hsec t)) hep.2
  unfold Head.result
  simp only [hheader, hep.1, h.read_index hbits, reduceMul, applyRotation_eq]
  have hbyte : ∀ c, toUint8 (m.component (i + 1) block.toNat t c : ℤ) = m.component (i + 1) block.toNat t c :=
    fun c => toUint8_natCast (h.component_lt t c)
  congr 1
  funext c
  rw [← hbyte c]
  exact congrArg toUint8 (congrFun hres c)

end Result

/-- The fetch of a texel returns the texel of the block. -/
theorem fetchRgbaUnormFromBlock_eq (junk : Locals) (block : Block) {t : ℕ} (ht : t < 16) :
    fetchRgbaUnormFromBlock junk block t = decode block.toNat t := by
  unfold fetchRgbaUnormFromBlock
  cases hm : mode block.toNat with
  | none =>
    unfold decode
    rw [readHead_none junk.endpoints hm, hm]
  | some i =>
    obtain ⟨h, hread, hresult⟩ := readHead_some junk.endpoints hm
    rw [hread]
    exact hresult junk.index1 t ht

/-- The decoder writes the texels of the block that are in the image. -/
theorem decompressRgbaUnormBlock_eq (junk : Locals) {w h : ℕ} (hw : w ≤ 4) (hh : h ≤ 4) (block : Block)
    (mem : Memory) (dstRow : ℕ) {stride : ℕ} (hstride : 4 * w ≤ stride) {x y c : ℕ} (hx : x < w)
    (hy : y < h) (hc : c < 4) :
    decompressRgbaUnormBlock junk w h block mem dstRow stride (dstRow + y * stride + (4 * x + c)) =
      decode block.toNat (x + y * 4) c := by
  unfold decompressRgbaUnormBlock
  cases hm : mode block.toNat with
  | none =>
    have hrows := storeRows_eq (fun _ mem dstRow => memset mem dstRow 0 (4 * w)) (fun _ _ => 0)
      (fun _ _ _ => rfl) hstride mem dstRow h
    rw [readHead_none junk.endpoints hm]
    unfold decode
    rw [hm]
    exact hrows.2 y hy (4 * x + c) (by omega)
  | some i =>
    obtain ⟨head, hread, hresult⟩ := readHead_some junk.endpoints hm
    rw [hread]
    dsimp only
    rw [storeRows_storeRow _ hstride mem dstRow hx hy hc, hresult _ _ (by omega)]

lemma decode_lt (x t c : ℕ) : decode x t c < 2 ^ 8 := by
  unfold decode
  cases hm : mode x with
  | none => exact Nat.two_pow_pos 8
  | some i => exact UnormMode.rotate_lt ((valid_getD (mode_lt hm)).component_lt t) _ c

/-- The shader and the two decoders of the CPU agree on every byte of every texel of every block. -/
theorem bc7DecodeBlock_eq_cpu (junk junk' : Locals) (block : Block) (mem : Memory) (dstRow : ℕ)
    {w h stride : ℕ}
    (hw : w ≤ 4) (hh : h ≤ 4) (hstride : 4 * w ≤ stride) {x y c : ℕ} (hx : x < w) (hy : y < h) (hc : c < 4) :
    (bc7DecodeBlock block).getD (x + y * 4) 0 >>> (8 * c) &&& 0xff =
        decompressRgbaUnormBlock junk w h block mem dstRow stride (dstRow + y * stride + (4 * x + c)) ∧
      decompressRgbaUnormBlock junk w h block mem dstRow stride (dstRow + y * stride + (4 * x + c)) =
        fetchRgbaUnormFromBlock junk' block (x + y * 4) c := by
  have ht : x + y * 4 < 16 := by omega
  have hbyte := packRgba_extract (decode_lt block.toNat (x + y * 4)) hc
  have hword : (bc7DecodeBlock block).getD (x + y * 4) 0 = packRgba (decode block.toNat (x + y * 4)) := by
    rw [bc7DecodeBlock_eq, getD_eq_getElem _ _ (by simpa using ht), getElem_map, getElem_range]
  rw [decompressRgbaUnormBlock_eq junk hw hh block mem dstRow hstride hx hy hc,
    fetchRgbaUnormFromBlock_eq junk' block ht, hword, and_ff]
  exact ⟨hbyte, rfl⟩

/-- The alpha of a texel of a block of mode 4. -/
theorem bc7DecodeBlock_eq_cpu_mode4 :
    ((bc7DecodeBlock 0x123456789abcdef0fedcba9876543210#128).getD (2 + 1 * 4) 0 >>> (8 * 3) &&& 0xff =
        decompressRgbaUnormBlock ⟨fun _ _ => 7,
          3⟩ 4 4 0x123456789abcdef0fedcba9876543210#128 (fun _ => 0) 100 16
          (100 + 1 * 16 + (4 * 2 + 3)) ∧
      decompressRgbaUnormBlock ⟨fun _ _ => 7,
        3⟩ 4 4 0x123456789abcdef0fedcba9876543210#128 (fun _ => 0) 100 16
          (100 + 1 * 16 + (4 * 2 + 3)) =
        fetchRgbaUnormFromBlock ⟨fun _ _ => 0, 0⟩ 0x123456789abcdef0fedcba9876543210#128 (2 + 1 * 4) 3) ∧
    fetchRgbaUnormFromBlock ⟨fun _ _ => 0, 0⟩ 0x123456789abcdef0fedcba9876543210#128 (2 + 1 * 4) 3 = 62 :=
  ⟨bc7DecodeBlock_eq_cpu _ _ _ _ _ (by decide) (by decide) (by decide) (by decide) (by decide) (by decide),
    by decide +kernel⟩

end RadvXclipse.Texcompress.Bc7
