import RadvXclipse.Descriptor.LayoutSize
import RadvXclipse.Lib.Tally

/-!
# Padding inside a set

The layout puts the bindings of one alignment before those of the other, so that beside the gaps
behind inline uniform blocks there is at most one gap of 16 bytes in a set, at the change of the
alignment or at its end.
-/

namespace RadvXclipse.Descriptor

open Lib Util List Nat

/-! ## One binding -/

/-- Whether a binding is an inline uniform block. -/
def Binding.inlineCount (b : Binding) : ℕ := if b.descriptorType = .inlineUniformBlock then 1 else 0

/-- The types that the pool counts as descriptors of 16 bytes. -/
def has16Bytes : DescriptorType → Bool
  | .uniformBuffer | .storageBuffer | .uniformTexelBuffer | .storageTexelBuffer | .sampler
  | .accelerationStructure => true
  | _ => false

/-- The descriptors of 16 bytes of a binding. -/
def smallCount (bn : Binding × ℕ) : ℕ := if has16Bytes bn.1.descriptorType then bn.2 else 0

/-- The bytes of a binding without gaps. -/
def bytes (pdev : PhysicalDevice) (bn : Binding × ℕ) : ℕ := bn.2 * bn.1.descSize pdev

/-- A binding in a block of whole words, if it is one. -/
def WholeWords (bn : Binding × ℕ) : Prop := bn.1.descriptorType = .inlineUniformBlock → 4 ∣ bn.2

section Binding

variable {pdev : PhysicalDevice} {bn : Binding × ℕ}

lemma getCombinedImageSamplerDescSize_dvd (pdev : PhysicalDevice) :
    32 ∣ getCombinedImageSamplerDescSize pdev := by
  obtain ⟨a, b⟩ := pdev
  revert a b
  decide

lemma getSampledImageDescSize_dvd (pdev : PhysicalDevice) : 32 ∣ getSampledImageDescSize pdev := by
  obtain ⟨a, b⟩ := pdev
  revert a b
  decide

/-- Bindings with large descriptors have no gaps between them. -/
theorem bytes_dvd_of_large (h : descriptorAlignment bn.1.descriptorType = 32) : 32 ∣ bytes pdev bn := by
  apply Dvd.dvd.mul_left
  unfold Binding.descSize
  have hsampled := getSampledImageDescSize_dvd pdev
  have hcombined := getCombinedImageSamplerDescSize_dvd pdev
  cases ht : bn.1.descriptorType with
  | storageImage => exact dvd_rfl
  | sampledImage | inputAttachment => exact hsampled
  | combinedImageSampler =>
    exact (dvd_mod_iff (by decide)).mpr (hcombined.mul_left _)
  | mutableExt => exact dvd_zero _
  | _ =>
    rw [ht] at h
    exact absurd h (by decide)

lemma bytes_of_alignment_one (h : descriptorAlignment bn.1.descriptorType = 1) : bytes pdev bn = 0 := by
  unfold bytes Binding.descSize
  cases ht : bn.1.descriptorType with
  | uniformBufferDynamic | storageBufferDynamic | other => exact mul_zero _
  | _ =>
    rw [ht] at h
    exact absurd h (by decide)

/-- A binding with small descriptors has a gap behind it only if it is an inline uniform block. -/
theorem alignUp_bytes_le (pdev : PhysicalDevice) (h : descriptorAlignment bn.1.descriptorType = 16)
    (hwords : WholeWords bn) :
    alignUp (bytes pdev bn) 16 ≤ bytes pdev bn + 12 * bn.1.inlineCount := by
  by_cases ht : bn.1.descriptorType = .inlineUniformBlock
  · obtain ⟨k, hk⟩ := hwords ht
    have hbytes : bytes pdev bn = 4 * k := by
      unfold bytes Binding.descSize
      rw [ht, hk, mul_one]
    have hone : bn.1.inlineCount = 1 := if_pos ht
    unfold alignUp
    omega
  · have hdvd : 16 ∣ bytes pdev bn := by
      apply Dvd.dvd.mul_left
      unfold Binding.descSize
      cases ht' : bn.1.descriptorType with
      | inlineUniformBlock => exact absurd ht' ht
      | mutableExt => exact dvd_zero _
      | uniformBuffer | storageBuffer | uniformTexelBuffer | storageTexelBuffer | sampler
      | accelerationStructure => exact dvd_rfl
      | _ =>
        rw [ht'] at h
        exact absurd h (by decide)
    rw [alignUp_eq_self (by decide) hdvd]
    exact le_add_right _ _

/-- Nothing is added for a binding without descriptors. -/
theorem bytes_of_no_small (pdev : PhysicalDevice) (h : descriptorAlignment bn.1.descriptorType = 16)
    (hsmall : smallCount bn + bn.1.inlineCount = 0) : bytes pdev bn = 0 := by
  unfold smallCount Binding.inlineCount at hsmall
  unfold bytes
  cases ht : bn.1.descriptorType with
  | inlineUniformBlock => simp [ht] at hsmall
  | uniformBuffer | storageBuffer | uniformTexelBuffer | storageTexelBuffer | sampler
  | accelerationStructure => simp_all [has16Bytes]
  | _ =>
    rw [ht] at h
    exact absurd h (by decide)

end Binding

/-! ## One pass -/

section Pass

variable {pdev : PhysicalDevice} {first pass size : ℕ} {bn : Binding × ℕ} {l : List (Binding × ℕ)}

lemma descriptorAlignment_cases (t : DescriptorType) :
    descriptorAlignment t = 32 ∨ descriptorAlignment t = 16 ∨ descriptorAlignment t = 1 := by
  cases t <;> simp [descriptorAlignment]

/-- Wraps make sizes smaller and keep them aligned. -/
theorem alignUp_add32_le {c k : ℕ} (hc : c ∣ 2 ^ k) (hk : k < 32) (hpos : 0 < c) (size n : ℕ) :
    alignUp (add32 (align size (2 ^ k)) n) c ≤ alignUp size (2 ^ k) + alignUp n c := by
  have hdvd : c ∣ alignUp size (2 ^ k) % 2 ^ 32 :=
    (dvd_mod_iff (hc.trans (pow_dvd_pow 2 hk.le))).mpr (hc.trans (dvd_alignUp _ _))
  rw [align_two_pow hk]
  calc alignUp ((alignUp size (2 ^ k) % 2 ^ 32 + n) % 2 ^ 32) c
      ≤ alignUp (alignUp size (2 ^ k) % 2 ^ 32 + n) c := alignUp_mono hpos (mod_le _ _)
    _ = alignUp size (2 ^ k) % 2 ^ 32 + alignUp n c := alignUp_add_of_dvd hpos hdvd
    _ ≤ alignUp size (2 ^ k) + alignUp n c := Nat.add_le_add_right (mod_le _ _) _

lemma dvd_add32_align {k n : ℕ} (hk : k < 32) (h : 32 ∣ alignUp size (2 ^ k) + n) :
    32 ∣ add32 (align size (2 ^ k)) n := by
  unfold add32
  rw [align_two_pow hk]
  omega

/-- Nothing is placed where the alignment is one. -/
theorem sizeStep_of_one (pdev : PhysicalDevice) (first pass size : ℕ)
    (h : descriptorAlignment bn.1.descriptorType = 1) :
    sizeStep pdev first pass size bn ≤ size ∧ (32 ∣ size → 32 ∣ sizeStep pdev first pass size bn) := by
  have hzero : bn.2 * bn.1.descSize pdev = 0 := bytes_of_alignment_one h
  unfold sizeStep
  dsimp only
  rw [h]
  split
  · exact ⟨le_rfl, id⟩
  · have halign : align size 1 = size % 2 ^ 32 := by
      have := align_two_pow (k := 0) (by decide) size
      rw [pow_zero] at this
      rw [this, alignUp_eq_self Nat.one_pos (one_dvd size)]
    unfold add32
    omega

/-- The bindings that a pass places, counted by `f`. -/
def placed (first pass : ℕ) (f : Binding × ℕ → ℕ) (l : List (Binding × ℕ)) : ℕ :=
  (l.map fun bn => if skips pass (descriptorAlignment bn.1.descriptorType) first then 0 else f bn).sum

lemma placed_cons (f : Binding × ℕ → ℕ) : placed first pass f (bn :: l) =
    (if skips pass (descriptorAlignment bn.1.descriptorType) first then 0 else f bn) +
      placed first pass f l := by
  unfold placed
  rw [map_cons, sum_cons]

/-- A pass, if every binding that it places and that has an alignment adds at most `f` to the
rounded size. -/
theorem foldl_pass {c : ℕ} (hc : 0 < c) (f g : Binding × ℕ → ℕ)
    (h : ∀ bn ∈ l, skips pass (descriptorAlignment bn.1.descriptorType) first = false →
      descriptorAlignment bn.1.descriptorType ≠ 1 → ∀ size,
        alignUp (sizeStep pdev first pass size bn) c ≤ alignUp size c + f bn ∧
          (32 ∣ size → g bn = 0 → 32 ∣ sizeStep pdev first pass size bn)) (size : ℕ) :
    alignUp (l.foldl (sizeStep pdev first pass) size) c ≤ alignUp size c + placed first pass f l ∧
      (32 ∣ size → placed first pass g l = 0 → 32 ∣ l.foldl (sizeStep pdev first pass) size) := by
  induction l generalizing size with
  | nil => exact ⟨le_rfl, fun hd _ => hd⟩
  | cons bn l ih =>
    have hrest := ih (fun d hd => h d (mem_cons_of_mem bn hd)) (sizeStep pdev first pass size bn)
    have hstep : alignUp (sizeStep pdev first pass size bn) c ≤ alignUp size c +
          (if skips pass (descriptorAlignment bn.1.descriptorType) first then 0 else f bn) ∧
        (32 ∣ size → (if skips pass (descriptorAlignment bn.1.descriptorType) first then 0
          else g bn) = 0 → 32 ∣ sizeStep pdev first pass size bn) := by
      by_cases h1 : descriptorAlignment bn.1.descriptorType = 1
      · have hone := sizeStep_of_one pdev first pass size h1
        exact ⟨(alignUp_mono hc hone.1).trans (le_add_right _ _), fun hd _ => hone.2 hd⟩
      · cases hskip : skips pass _ first with
        | true =>
          unfold sizeStep
          dsimp only
          rw [hskip]
          exact ⟨le_rfl, fun hd _ => hd⟩
        | false => exact h bn mem_cons_self hskip h1 size
    rw [foldl_cons, placed_cons, placed_cons]
    exact ⟨by omega, fun hd hsum => hrest.2 (hstep.2 hd (by omega)) (by omega)⟩

/-- A pass that places no small descriptors adds no gaps. -/
theorem foldl_large
    (h : ∀ bn ∈ l, skips pass (descriptorAlignment bn.1.descriptorType) first = false →
      descriptorAlignment bn.1.descriptorType ≠ 16) (size : ℕ) :
    alignUp (l.foldl (sizeStep pdev first pass) size) 32 ≤
      alignUp size 32 + placed first pass (bytes pdev) l ∧
      (32 ∣ size → 32 ∣ l.foldl (sizeStep pdev first pass) size) := by
  have hpass := @foldl_pass pdev first pass l 32 (by decide) (bytes pdev) (fun _ => 0)
    (fun bn hbn hskip h1 size => by
    have h32 := ((descriptorAlignment_cases bn.1.descriptorType).resolve_right fun hor =>
      hor.elim (h bn hbn hskip) h1)
    have hdvd : 32 ∣ bytes pdev bn := bytes_dvd_of_large h32
    have hle := alignUp_add32_le (c := 32) (k := 5) dvd_rfl (by decide) (by decide) size (bytes pdev bn)
    rw [alignUp_eq_self (by decide) hdvd] at hle
    rw [h32] at hskip
    unfold sizeStep
    dsimp only
    rw [h32, hskip]
    exact ⟨hle, fun _ _ => dvd_add32_align (k := 5) (by decide) ((dvd_alignUp size 32).add hdvd)⟩) size
  exact ⟨hpass.1, fun hd => hpass.2 hd (by simp [placed])⟩

/-- A pass that places no large descriptors adds gaps behind inline uniform blocks only. -/
theorem foldl_small
    (h : ∀ bn ∈ l, skips pass (descriptorAlignment bn.1.descriptorType) first = false →
      descriptorAlignment bn.1.descriptorType ≠ 32) (hwords : ∀ bn ∈ l, WholeWords bn) (size : ℕ) :
    alignUp (l.foldl (sizeStep pdev first pass) size) 16 ≤
        alignUp size 16 + placed first pass (fun bn => bytes pdev bn + 12 * bn.1.inlineCount) l ∧
      (32 ∣ size → placed first pass (fun bn => smallCount bn + bn.1.inlineCount) l = 0 →
        32 ∣ l.foldl (sizeStep pdev first pass) size) := by
  refine foldl_pass (by decide) _ _ (fun bn hbn hskip h1 size => ?_) size
  have h16 := ((descriptorAlignment_cases bn.1.descriptorType).resolve_left (h bn hbn hskip)).resolve_right h1
  have hle := alignUp_add32_le (c := 16) (k := 4) dvd_rfl (by decide) (by decide) size (bytes pdev bn)
  rw [h16] at hskip
  unfold sizeStep
  dsimp only
  rw [h16, hskip]
  refine ⟨hle.trans (Nat.add_le_add_left (alignUp_bytes_le pdev h16 (hwords bn hbn)) _), fun hd hsmall => ?_⟩
  apply dvd_add32_align (k := 4) (by decide)
  show 32 ∣ alignUp size 16 + bytes pdev bn
  rw [bytes_of_no_small pdev h16 hsmall, alignUp_eq_self (by decide) (Dvd.dvd.trans (by decide) hd)]
  exact hd

/-! ## Both passes -/

/-- Sums over a list. -/
def total (f : Binding × ℕ → ℕ) (l : List (Binding × ℕ)) : ℕ := (l.map f).sum

lemma placed_add (first : ℕ) (f : Binding × ℕ → ℕ) (l : List (Binding × ℕ)) :
    placed first 0 f l + placed first 1 f l = total f l := sum_passes first f l

lemma placed_mono {f g : Binding × ℕ → ℕ} (h : ∀ bn, f bn ≤ g bn) (l : List (Binding × ℕ)) :
    placed first pass f l ≤ placed first pass g l := by
  induction l with
  | nil => exact le_rfl
  | cons bn l ih =>
    have hbn := h bn
    rw [placed_cons, placed_cons]
    split <;> omega

/-- Rounding up to 32 instead of 16 costs a gap of 16, if there is anything that needs it. -/
theorem alignUp_32_le {n m : ℕ} (h : n = 0 → 32 ∣ size) (hnm : n ≤ m) :
    alignUp size 32 ≤ alignUp size 16 + if m = 0 then 0 else 16 := by
  split
  · rw [alignUp_eq_self (by decide) (h (by omega))]
    exact le_alignUp (by decide) size
  · unfold alignUp
    omega

/-- The size of a set, rounded up: the bytes of its bindings, the gaps behind its inline uniform
blocks and one more gap. -/
theorem sizeLoop_le (hfirst : first = 16 ∨ first = 32) (hwords : ∀ bn ∈ l, WholeWords bn) :
    alignUp (sizeLoop pdev first l) 32 ≤ total (fun bn => bytes pdev bn + 12 * bn.1.inlineCount) l +
      if total (fun bn => smallCount bn + bn.1.inlineCount) l = 0 then 0 else 16 := by
  have hbytes := placed_add first (fun bn => bytes pdev bn + 12 * bn.1.inlineCount) l
  have hsmall := placed_add first (fun bn => smallCount bn + bn.1.inlineCount) l
  have hmono := fun pass =>
    @placed_mono first pass (bytes pdev) (fun bn => bytes pdev bn + 12 * bn.1.inlineCount)
    (fun bn => le_add_right _ _) l
  unfold sizeLoop
  rcases hfirst with rfl | rfl
  · -- small descriptors first
    have h0 := @foldl_small pdev 16 0 l
      (fun bn _ hskip h32 => by rw [h32] at hskip; exact absurd hskip (by decide)) hwords 0
    have h1 := @foldl_large pdev 16 1 l
      (fun bn _ hskip h16 => by rw [h16] at hskip; exact absurd hskip (by decide))
        (l.foldl (sizeStep pdev 16 0) 0)
    have hgap := alignUp_32_le (h0.2 (dvd_zero 32)) (Nat.le.intro hsmall)
    have hmono1 := hmono 1
    have hzero : alignUp 0 16 = 0 := rfl
    omega
  · have h0 := @foldl_large pdev 32 0 l
      (fun bn _ hskip h16 => by rw [h16] at hskip; exact absurd hskip (by decide)) 0
    have hdvd := h0.2 (dvd_zero 32)
    have h1 := @foldl_small pdev 32 1 l
      (fun bn _ hskip h32 => by rw [h32] at hskip; exact absurd hskip (by decide)) hwords
      (l.foldl (sizeStep pdev 32 0) 0)
    have hgap := alignUp_32_le (h1.2 hdvd) (Nat.le.intro ((add_comm _ _).trans hsmall))
    have hmono0 := hmono 0
    have hzero : alignUp 0 32 = 0 := rfl
    have hbase : alignUp (l.foldl (sizeStep pdev 32 0) 0) 16 =
        alignUp (l.foldl (sizeStep pdev 32 0) 0) 32 := by
      rw [alignUp_eq_self (by decide) hdvd, alignUp_eq_self (by decide) (Dvd.dvd.trans (by decide) hdvd)]
    omega

end Pass

end RadvXclipse.Descriptor
