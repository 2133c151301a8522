import RadvXclipse.Util.VmaHoles

/-!
# Where an allocation is placed

The place in a hole in exact arithmetic. Without blocks that must not be spanned, an allocation
takes the highest or the lowest aligned address from which enough addresses are free.
-/

namespace RadvXclipse.Util.Vma

open Lib List Nat

/-- The padding of an allocation from the bottom. -/
theorem add_pad_eq_alignUp (x : ℕ) {a : ℕ} (ha : 0 < a) :
    x + (if x % a ≠ 0 then a - x % a else 0) = alignUp x a := by
  have hdm := div_add_mod x a
  have hlt := mod_lt x ha
  apply le_antisymm
  · obtain ⟨k, hk⟩ := dvd_alignUp x a
    have hle := le_alignUp ha x
    split_ifs with hmod
    · have hq : x / a < k := by
        apply Nat.lt_of_mul_lt_mul_left (a := a)
        omega
      have hmul : a * (x / a + 1) ≤ a * k := Nat.mul_le_mul_left a hq
      rw [mul_add, mul_one] at hmul
      omega
    · omega
  · apply alignUp_le_of_dvd ha
    · split_ifs with hmod
      · exact ⟨x / a + 1, by rw [mul_add, mul_one]; omega⟩
      · exact ⟨x / a, by omega⟩
    · omega

lemma spans_zero (offset size : ℕ) : spans 0 offset size = false := rfl

section Place

variable {h : Hole} {size alignment : ℕ} (hh : Valid h) (hsize : 0 < size)
include hh hsize

/-- The place in a hole from the top, without blocks. -/
theorem placeHigh_eq (hfit : size ≤ h.size) : placeHigh 0 h size alignment =
    if (h.stop - size) / alignment * alignment < h.offset then none
    else some ((h.stop - size) / alignment * alignment) := by
  have hpos := hh.offset_pos
  have htop := hh.stop_le
  have hstop : h.stop = h.offset + h.size := rfl
  have hstart : add64 (sub64 h.size size) h.offset = h.stop - size := by
    rw [sub64_of_le hfit (by omega), add64_of_lt (by omega)]
    omega
  unfold placeHigh
  rw [if_neg (by omega)]
  simp only [hstart, spans_zero, Bool.false_eq_true, if_false, false_and]

/-- The place from the bottom. -/
theorem placeLow_eq (ha : 0 < alignment) : placeLow 0 h size alignment =
    if alignUp h.offset alignment + size ≤ h.stop then some (alignUp h.offset alignment) else none := by
  have hpos := hh.offset_pos
  have htop := hh.stop_le
  have hstop : h.stop = h.offset + h.size := rfl
  have hpad := add_pad_eq_alignUp h.offset ha
  unfold placeLow
  simp only [spans_zero, Bool.false_eq_true, if_false]
  generalize (if h.offset % alignment ≠ 0 then alignment - h.offset % alignment else 0) = pad at hpad ⊢
  generalize alignUp h.offset alignment = start at hpad ⊢
  by_cases hfit : h.size < size
  · rw [if_pos hfit, if_neg (by omega)]
  · rw [if_neg hfit, sub64_of_le (by omega) (by omega)]
    by_cases hp : pad > h.size - size
    · rw [if_pos hp, if_neg (by omega)]
    · rw [if_neg hp, if_pos (by omega), add64_of_lt (by omega), hpad]

end Place

/-! ## Without blocks -/

/-- The aligned addresses from which a range of the size is in the hole. -/
def candidates (size alignment : ℕ) (h : Hole) : Set ℕ := {o | alignment ∣ o ∧ Inside ⟨o, size⟩ h}

/-- `o` is the highest or the lowest number of a set. -/
def Extreme (high : Bool) (s : Set ℕ) (o : ℕ) : Prop := o ∈ s ∧ ∀ o' ∈ s, if high then o' ≤ o else o ≤ o'

/-- The place in a hole is the highest or the lowest one there is. -/
theorem place_extreme {heap : Heap} {h : Hole} {size alignment : ℕ} (hnospan : heap.nospanShift = 0)
    (hsize : 0 < size) (ha : 0 < alignment) (hh : Valid h) :
    match heap.place size alignment h with
    | none => candidates size alignment h = ∅
    | some o => Extreme heap.allocHigh (candidates size alignment h) o := by
  unfold Heap.place Extreme
  rw [hnospan]
  cases heap.allocHigh with
  | true =>
    -- the highest multiple of the alignment that leaves room for the size
    have hbest : ∀ o ∈ candidates size alignment h, size ≤ h.size ∧
        o ≤ (h.stop - size) / alignment * alignment := by
      rintro o ⟨⟨q, rfl⟩, hle, hend⟩
      simp only [Span.stop] at hle hend
      refine ⟨by omega, ?_⟩
      rw [mul_comm alignment q]
      refine Nat.mul_le_mul_right _ ((Nat.le_div_iff_mul_le ha).mpr ?_)
      rw [mul_comm q]
      simp only [Span.stop]
      omega
    by_cases hfit : size ≤ h.size
    · rw [if_pos rfl, placeHigh_eq hh hsize hfit]
      have hdown := div_mul_le_self (h.stop - size) alignment
      simp only [if_true]
      split_ifs with hlow
      · refine Set.eq_empty_of_forall_notMem fun o ho => ?_
        have hle := (hbest o ho).2
        have hge := ho.2.offset_le
        simp only at hge
        omega
      · refine ⟨⟨dvd_mul_left .., ⟨not_lt.mp hlow, ?_⟩⟩, fun o ho => (hbest o ho).2⟩
        simp only [Span.stop] at *
        omega
    · have hnone : placeHigh 0 h size alignment = none := if_pos (not_le.mp hfit)
      rw [if_pos rfl, hnone]
      exact Set.eq_empty_of_forall_notMem fun o ho => hfit (hbest o ho).1
  | false =>
    have hbest : ∀ o ∈ candidates size alignment h,
        alignUp h.offset alignment ≤ o ∧ alignUp h.offset alignment + size ≤ h.stop := by
      rintro o ⟨hdvd, hle, hend⟩
      have hup := alignUp_le_of_dvd ha hdvd hle
      simp only [Span.stop] at hend ⊢
      exact ⟨hup, by omega⟩
    have hle := le_alignUp ha h.offset
    rw [if_neg (by decide), placeLow_eq hh hsize ha]
    simp only [Bool.false_eq_true, if_false]
    split_ifs with hfit
    · exact ⟨⟨dvd_alignUp .., ⟨hle, hfit⟩⟩, fun o ho => (hbest o ho).1⟩
    · exact Set.eq_empty_of_forall_notMem fun o ho => hfit (hbest o ho).2

/-- Numbers that follow each other and are all covered are in one interval. -/
theorem inside_of_covers {l : List Span} {r : Span} (hc : Canonical l) (hr : 0 < r.size)
    (hcov : ∀ x, r.Has x → Covers l x) : ∃ t ∈ l, Inside r t := by
  obtain ⟨t, ht, hlo, hhi⟩ := hcov r.offset (Span.has_offset hr)
  refine ⟨t, ht, hlo, ?_⟩
  by_contra hlt
  rw [not_le] at hlt
  -- the number after the interval would be in another one, which touches it
  obtain ⟨u, hu, hlo', hhi'⟩ := hcov t.stop ⟨by omega, hlt⟩
  have hne : t ≠ u := by
    rintro rfl
    exact absurd hhi' (lt_irrefl _)
  have hgap : t.stop < u.offset ∨ u.stop < t.offset := by
    have : Std.Symm fun a b : Span => a.stop < b.offset ∨ b.stop < a.offset := ⟨fun _ _ h => h.symm⟩
    have hapart : l.Pairwise fun a b => a.stop < b.offset ∨ b.stop < a.offset := hc.desc.imp .inr
    exact hapart.forall ht hu hne
  omega

/-- The aligned addresses other than zero from which a range of the size is free. -/
def freeStarts (heap : Heap) (size alignment : ℕ) : Set ℕ :=
  {o | o ≠ 0 ∧ alignment ∣ o ∧ ∀ x, Span.Has ⟨o, size⟩ x → Covers heap.holes x}

section Extreme

variable {heap : Heap} {size alignment : ℕ} (hc : Canonical heap.holes)
  (hv : ∀ h ∈ heap.holes, Valid h) (hsize : 0 < size)
include hc hv hsize

lemma mem_freeStarts_iff {o : ℕ} :
    o ∈ freeStarts heap size alignment ↔ ∃ h ∈ heap.holes, o ∈ candidates size alignment h := by
  constructor
  · rintro ⟨-, hdvd, hcov⟩
    obtain ⟨h, hh, hin⟩ := inside_of_covers hc (r := ⟨o, size⟩) hsize hcov
    exact ⟨h, hh, hdvd, hin⟩
  · rintro ⟨h, hh, hdvd, hin⟩
    have hpos := (hv h hh).offset_pos
    have hle := hin.offset_le
    refine ⟨?_, hdvd, fun x hx => ⟨h, hh, hle.trans hx.1, lt_of_lt_of_le hx.2 hin.stop_le⟩⟩
    simp only at hle
    omega

variable (hnospan : heap.nospanShift = 0) (ha : 0 < alignment)
include hnospan ha

/-- An allocation fails only if nothing is free, and otherwise takes the highest or the lowest
start. -/
theorem heapAlloc_extreme :
    heapAlloc heap size alignment = (0, heap) ∧ freeStarts heap size alignment = ∅ ∨
      ∃ hi h lo offset, heap.holes = hi ++ h :: lo ∧ offset ∈ candidates size alignment h ∧
        Extreme heap.allocHigh (freeStarts heap size alignment) offset ∧
        heapAlloc heap size alignment = (offset, { heap with
          holes := hi ++ holeAlloc h offset size ++ lo, freeSize := sub64 heap.freeSize size }) := by
  have hnone : ∀ h ∈ heap.holes, heap.place size alignment h = none → candidates size alignment h = ∅ := by
    intro h hh heq
    have hbest := place_extreme hnospan hsize ha (hv h hh)
    rwa [heq] at hbest
  rcases heapAlloc_spec heap size alignment with ⟨heq, hall⟩ | ⟨hi, h, lo, o, hholes, hskip, hplace, heq⟩
  · refine .inl ⟨heq, Set.eq_empty_of_forall_notMem fun o ho => ?_⟩
    obtain ⟨h, hh, hcand⟩ := (mem_freeStarts_iff hc hv hsize).mp ho
    rw [hnone h hh (hall h hh)] at hcand
    exact hcand
  · have hh : h ∈ heap.holes := by simp [hholes]
    have hbest := place_extreme hnospan hsize ha (hv h hh)
    rw [hplace] at hbest
    have hdesc := hc.desc
    rw [hholes, pairwise_append, pairwise_cons] at hdesc
    obtain ⟨-, ⟨hbelow, -⟩, habove⟩ := hdesc
    refine .inr ⟨hi, h, lo, o, hholes, hbest.1,
      ⟨(mem_freeStarts_iff hc hv hsize).mpr ⟨h, hh, hbest.1⟩, ?_⟩, heq⟩
    intro o' ho'
    obtain ⟨t, ht, hcand⟩ := (mem_freeStarts_iff hc hv hsize).mp ho'
    have hskip' := fun ht' => hnone t ht (hskip t ht')
    obtain ⟨-, hle', hend'⟩ := id hcand
    obtain ⟨-, hle, hend⟩ := hbest.1
    simp only [Span.stop] at hle' hend' hle hend
    -- a hole on the side the search comes from has no candidate, one on the other side is too far
    rw [hholes, mem_append, mem_cons] at ht
    rcases ht with ht | rfl | ht
    · have hlt := habove t ht h mem_cons_self
      split_ifs at hskip' ⊢
      · rw [hskip' ht] at hcand
        exact hcand.elim
      · simp only [Span.stop] at hlt
        omega
    · exact hbest.2 o' hcand
    · have hlt := hbelow t ht
      split_ifs at hskip' ⊢
      · simp only [Span.stop] at hlt
        omega
      · rw [hskip' ht] at hcand
        exact hcand.elim

/-- `util_vma_heap_alloc` fails exactly if no aligned address starts a free range of the size, and
otherwise takes the highest or the lowest one; `util_vma_heap_alloc_addr` succeeds exactly if the
range is free. -/
theorem heapAlloc_free :
    ((heapAlloc heap size alignment).1 = 0 ↔ freeStarts heap size alignment = ∅) ∧
      ((heapAlloc heap size alignment).1 ≠ 0 →
        Extreme heap.allocHigh (freeStarts heap size alignment) (heapAlloc heap size alignment).1) ∧
      ∀ r : Span, Valid r →
        ((heapAllocAddr heap r.offset r.size).1 = true ↔ ∀ x, r.Has x → Covers heap.holes x) := by
  refine and_assoc.mp ⟨?_, fun r hr => ?_⟩
  · rcases heapAlloc_extreme hc hv hsize hnospan ha with ⟨heq, hempty⟩ | ⟨_, _, _, o, _, _, hext, heq⟩
    · rw [heq]
      exact ⟨iff_of_true rfl hempty, fun hne => absurd rfl hne⟩
    · rw [heq]
      exact ⟨iff_of_false hext.1.1 (Set.nonempty_iff_ne_empty.mp ⟨o, hext.1⟩), fun _ => hext⟩
  · unfold heapAllocAddr
    constructor
    · intro htrue x hx
      split at htrue
      · next heq => exact (allocAddrLoop_carved hv hr heq).covers_of_has hx
      · cases htrue
    · intro hcov
      obtain ⟨t, ht, hin⟩ := inside_of_covers hc hr.size_pos hcov
      split
      · rfl
      · next heq => exact absurd heq (allocAddrLoop_ne_none hc hr ht (hv t ht) hin)

end Extreme

/-- A heap with three holes; the lowest and the highest are too small for 64 bytes at a multiple of
24. -/
def threeHoles (allocHigh : Bool) : Heap := ⟨[⟨8192, 72⟩, ⟨4096, 1024⟩, ⟨96, 40⟩], 1136, allocHigh, 0⟩

/-- The lowest and the highest place are in the hole in the middle. -/
theorem heapAlloc_free_three : Extreme false (freeStarts (threeHoles false) 64 24) 4104 ∧
    Extreme true (freeStarts (threeHoles true) 64 24) 5040 ∧
    (heapAllocAddr (threeHoles false) 8200 64).1 = true := by
  have hv : ∀ h ∈ (threeHoles false).holes, Valid h := by
    simp only [threeHoles, forall_mem_cons]
    exact ⟨⟨by decide, by decide, by decide⟩, ⟨by decide, by decide, by decide⟩,
      ⟨by decide, by decide, by decide⟩, forall_mem_nil _⟩
  have hc : Canonical (threeHoles false).holes := ⟨fun h hh => (hv h hh).size_pos, by decide⟩
  have hlow := heapAlloc_free hc hv (show 0 < 64 by decide) rfl (show 0 < 24 by decide)
  have hhigh := heapAlloc_free (show Canonical (threeHoles true).holes from hc) hv
    (show 0 < 64 by decide) rfl (show 0 < 24 by decide)
  refine ⟨hlow.2.1 (by decide), hhigh.2.1 (by decide), ?_⟩
  refine (hlow.2.2 ⟨8200, 64⟩ ⟨by decide, by decide, by decide⟩).mpr fun x hx => ⟨⟨8192, 72⟩, ?_, ?_⟩
  · exact mem_cons_self
  · simp only [Span.Has, Span.stop] at hx ⊢
    omega

end RadvXclipse.Util.Vma
