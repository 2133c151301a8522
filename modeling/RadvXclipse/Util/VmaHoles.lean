import RadvXclipse.Util.Vma

/-!
# What the operations do to the holes

An allocation takes a range out of one hole, a free puts a range back; both keep the list of holes
canonical. The arithmetic does not wrap, as the holes lie between 1 and `2 ^ 64`.
-/

namespace RadvXclipse.Util.Vma

open Lib List Span

/-- A range of addresses that is not empty and does not hold the address zero. -/
structure Valid (s : Span) : Prop where
  offset_pos : 0 < s.offset
  size_pos : 0 < s.size
  stop_le : s.stop ≤ 2 ^ 64

/-- The range is inside the hole. -/
structure Inside (s h : Span) : Prop where
  offset_le : h.offset ≤ s.offset
  stop_le : s.stop ≤ h.stop

/-! ## Taking a range out of a hole -/

section Carve

variable {h s : Span}

/-- What is left above and below, where there is something left. -/
theorem holeAlloc_eq (hh : Valid h) (hs : Valid s) (hin : Inside s h) :
    holeAlloc h s.offset s.size =
      [⟨s.stop, h.stop - s.stop⟩, ⟨h.offset, s.offset - h.offset⟩].filter fun t => 0 < t.size := by
  have hpos := hh.offset_pos
  have htop := hh.stop_le
  have hspos := hs.size_pos
  have hle := hin.offset_le
  have hstop := hin.stop_le
  unfold stop at *
  have hsize : sub64 h.size s.size = h.size - s.size := sub64_of_le (by omega) (by omega)
  have hoff : sub64 s.offset h.offset = s.offset - h.offset := sub64_of_le hle (by omega)
  have hwaste : sub64 (h.size - s.size) (s.offset - h.offset) = h.size - s.size - (s.offset - h.offset) :=
    sub64_of_le (by omega) (by omega)
  simp only [holeAlloc, hsize, hoff, hwaste]
  split_ifs with hwhole hzero hbottom
  · rw [filter_cons_of_neg (by simp; omega), filter_cons_of_neg (by simp; omega), filter_nil]
  · rw [filter_cons_of_neg (by simp; omega), filter_cons_of_pos (by simp; omega), filter_nil,
      List.cons.injEq, mk.injEq]
    exact ⟨⟨rfl, by omega⟩, rfl⟩
  · rw [filter_cons_of_pos (by simp; omega), filter_cons_of_neg (by simp; omega), filter_nil,
      add64_of_lt (by omega), List.cons.injEq, mk.injEq]
    exact ⟨⟨by omega, by omega⟩, rfl⟩
  · rw [filter_cons_of_pos (by simp; omega), filter_cons_of_pos (by simp; omega), filter_nil,
      add64_of_lt (by omega), List.cons.injEq, mk.injEq]
    exact ⟨⟨rfl, by omega⟩, rfl⟩

variable (hh : Valid h) (hs : Valid s) (hin : Inside s h)
include hh hs hin

lemma mem_holeAlloc {t : Span} (ht : t ∈ holeAlloc h s.offset s.size) :
    0 < t.size ∧ (t = ⟨s.stop, h.stop - s.stop⟩ ∨ t = ⟨h.offset, s.offset - h.offset⟩) := by
  rw [holeAlloc_eq hh hs hin, mem_filter] at ht
  simpa [and_comm] using ht

lemma inside_of_mem_holeAlloc {t : Span} (ht : t ∈ holeAlloc h s.offset s.size) : Inside t h := by
  have hle := hin.offset_le
  have hstop := hin.stop_le
  rcases mem_holeAlloc hh hs hin ht with ⟨-, rfl | rfl⟩
  · constructor <;> simp only [stop] at * <;> omega
  · constructor <;> simp only [stop] at * <;> omega

lemma canonical_holeAlloc : Canonical (holeAlloc h s.offset s.size) := by
  constructor
  · intro t ht
    exact (mem_holeAlloc hh hs hin ht).1
  · rw [holeAlloc_eq hh hs hin]
    apply Pairwise.filter
    have hle := hin.offset_le
    have hspos := hs.size_pos
    simp only [pairwise_cons, mem_singleton, forall_eq, not_mem_nil, false_implies,
      implies_true, List.Pairwise.nil, and_true, stop] at *
    omega

lemma covers_holeAlloc (x : ℕ) : Covers (holeAlloc h s.offset s.size) x ↔ h.Has x ∧ ¬ s.Has x := by
  have hle := hin.offset_le
  have hstop := hin.stop_le
  rw [holeAlloc_eq hh hs hin, covers_filter, covers_cons, covers_cons, or_iff_left (covers_nil x)]
  simp only [Span.Has, stop] at *
  omega

lemma total_holeAlloc : total (holeAlloc h s.offset s.size) + s.size = h.size := by
  have hle := hin.offset_le
  have hstop := hin.stop_le
  have hfilter : ∀ t u : Span, total ([t, u].filter fun t => 0 < t.size) = t.size + u.size := by
    intro t u
    by_cases ht : 0 < t.size <;> by_cases hu : 0 < u.size <;> simp [total, ht, hu] <;> omega
  rw [holeAlloc_eq hh hs hin, hfilter]
  simp only [stop] at *
  omega

end Carve

/-! ## Allocation -/

/-- The range has been taken out of one of the holes `l`, which leaves the holes `l'`. -/
def Carved (s : Span) (l l' : List Hole) : Prop :=
  ∃ hi h lo, l = hi ++ h :: lo ∧ Inside s h ∧ l' = hi ++ holeAlloc h s.offset s.size ++ lo

/-- Another hole above does not matter. -/
theorem Carved.cons {s : Span} {l l' : List Hole} (h : Carved s l l') (a : Hole) :
    Carved s (a :: l) (a :: l') := by
  obtain ⟨hi, h, lo, rfl, hin, rfl⟩ := h
  exact ⟨a :: hi, h, lo, rfl, hin, rfl⟩

section Search

variable {size : ℕ} {l l' : List Hole} {offset : ℕ}

/-- The search from the top ends at the first hole with a place. -/
theorem allocFromTop_spec (place : Hole → Option ℕ) (size : ℕ) (l : List Hole) :
    match allocFromTop place size l with
    | none => ∀ h ∈ l, place h = none
    | some r => ∃ hi h lo, l = hi ++ h :: lo ∧ (∀ t ∈ hi, place t = none) ∧ place h = some r.1 ∧
        r.2 = hi ++ holeAlloc h r.1 size ++ lo := by
  induction l with
  | nil => exact forall_mem_nil _
  | cons a l ih =>
    unfold allocFromTop
    cases ha : place a with
    | some o => exact ⟨[], a, l, rfl, forall_mem_nil _, ha, rfl⟩
    | none =>
      cases hr : allocFromTop place size l with
      | none =>
        rw [hr] at ih
        exact forall_mem_cons.mpr ⟨ha, ih⟩
      | some r =>
        rw [hr] at ih
        obtain ⟨hi, h, lo, rfl, hhi, hh, hr'⟩ := ih
        exact ⟨a :: hi, h, lo, rfl, forall_mem_cons.mpr ⟨ha, hhi⟩, hh, congrArg (a :: ·) hr'⟩

/-- The search from the bottom ends at the last one. -/
theorem allocFromBottom_spec (place : Hole → Option ℕ) (size : ℕ) (l : List Hole) :
    match allocFromBottom place size l with
    | none => ∀ h ∈ l, place h = none
    | some r => ∃ hi h lo, l = hi ++ h :: lo ∧ (∀ t ∈ lo, place t = none) ∧ place h = some r.1 ∧
        r.2 = hi ++ holeAlloc h r.1 size ++ lo := by
  induction l with
  | nil => exact forall_mem_nil _
  | cons a l ih =>
    unfold allocFromBottom
    cases hr : allocFromBottom place size l with
    | some r =>
      rw [hr] at ih
      obtain ⟨hi, h, lo, rfl, hlo, hh, hr'⟩ := ih
      exact ⟨a :: hi, h, lo, rfl, hlo, hh, congrArg (a :: ·) hr'⟩
    | none =>
      rw [hr] at ih
      cases ha : place a with
      | none => exact forall_mem_cons.mpr ⟨ha, ih⟩
      | some o => exact ⟨[], a, l, rfl, ih, ha, rfl⟩

/-- Where `util_vma_heap_alloc` allocates in a hole. -/
def Heap.place (heap : Heap) (size alignment : ℕ) (h : Hole) : Option ℕ :=
  if heap.allocHigh then placeHigh heap.nospanShift h size alignment
  else placeLow heap.nospanShift h size alignment

/-- An allocation takes the place of the first hole that has one, from the top or from the
bottom. -/
theorem heapAlloc_spec (heap : Heap) (size alignment : ℕ) :
    heapAlloc heap size alignment = (0, heap) ∧ (∀ h ∈ heap.holes, heap.place size alignment h = none) ∨
      ∃ hi h lo offset, heap.holes = hi ++ h :: lo ∧
        (∀ t ∈ if heap.allocHigh then hi else lo, heap.place size alignment t = none) ∧
        heap.place size alignment h = some offset ∧
        heapAlloc heap size alignment = (offset, { heap with
          holes := hi ++ holeAlloc h offset size ++ lo, freeSize := sub64 heap.freeSize size }) := by
  have htop := allocFromTop_spec (heap.place size alignment) size heap.holes
  have hbottom := allocFromBottom_spec (heap.place size alignment) size heap.holes
  unfold heapAlloc
  unfold Heap.place at *
  cases hhigh : heap.allocHigh with
  | true =>
    simp only [hhigh, if_true] at htop ⊢
    cases hr : allocFromTop (placeHigh heap.nospanShift · size alignment) size heap.holes with
    | none => exact .inl ⟨rfl, by rw [hr] at htop; exact htop⟩
    | some r =>
      rw [hr] at htop
      obtain ⟨hi, h, lo, hl, hhi, hh, hr'⟩ := htop
      exact .inr ⟨hi, h, lo, r.1, hl, hhi, hh, by rw [← hr']⟩
  | false =>
    simp only [hhigh, Bool.false_eq_true, if_false] at hbottom ⊢
    cases hr : allocFromBottom (placeLow heap.nospanShift · size alignment) size heap.holes with
    | none => exact .inl ⟨rfl, by rw [hr] at hbottom; exact hbottom⟩
    | some r =>
      rw [hr] at hbottom
      obtain ⟨hi, h, lo, hl, hlo, hh, hr'⟩ := hbottom
      exact .inr ⟨hi, h, lo, r.1, hl, hlo, hh, by rw [← hr']⟩

lemma allocAddrLoop_carved (hl : ∀ h ∈ l, Valid h) (hs : Valid ⟨offset, size⟩)
    (h : allocAddrLoop offset size l = some l') : Carved ⟨offset, size⟩ l l' := by
  induction l generalizing l' with
  | nil => exact absurd h (by simp [allocAddrLoop])
  | cons a l ih =>
    have ha := hl a mem_cons_self
    unfold allocAddrLoop at h
    split_ifs at h with hoff hfit
    · obtain ⟨r, hr, rfl⟩ := Option.map_eq_some_iff.mp h
      exact (ih (fun h hm => hl h (mem_cons_of_mem a hm)) hr).cons a
    · rw [Option.some.injEq] at h
      subst h
      have hpos := ha.offset_pos
      have hspos := hs.size_pos
      have htop := hs.stop_le
      simp only [stop] at htop hspos
      rw [sub64_of_le (by omega) (by omega), add64_of_lt (by omega)] at hfit
      refine ⟨[], a, l, rfl, ?_, rfl⟩
      constructor <;> simp only [stop] <;> omega

/-- A range inside a hole is found. -/
theorem allocAddrLoop_ne_none {s t : Span} (hc : Canonical l) (hs : Valid s) (ht : t ∈ l)
    (hv : Valid t) (hin : Inside s t) : allocAddrLoop s.offset s.size l ≠ none := by
  have hle := hin.offset_le
  have hstop := hin.stop_le
  have htop := hs.stop_le
  have hpos := hs.size_pos
  have htpos := hv.offset_pos
  induction l with
  | nil => exact absurd ht not_mem_nil
  | cons a l ih =>
    unfold allocAddrLoop
    simp only [stop] at hstop htop
    rcases mem_cons.mp ht with rfl | ht'
    · rw [if_neg (by omega), sub64_of_le hle (by omega), add64_of_lt (by omega), if_neg (by omega)]
      exact Option.some_ne_none _
    · have hlt := (pairwise_cons.mp hc.desc).1 t ht'
      simp only [stop] at hlt
      rw [if_pos (by omega), ne_eq, Option.map_eq_none_iff]
      exact ih hc.tail ht'

end Search

section Carved

variable {s : Span} {l l' : List Hole} (hl : Canonical l) (hv : ∀ h ∈ l, Valid h)
  (hs : 0 < s.size) (h : Carved s l l')
include hv hs h

theorem Carved.valid : Valid s := by
  obtain ⟨hi, h, lo, rfl, hin, -⟩ := h
  have hh := hv h (by simp)
  exact ⟨lt_of_lt_of_le hh.offset_pos hin.offset_le, hs, hin.stop_le.trans hh.stop_le⟩

omit hv hs in
lemma Carved.covers_of_has {x : ℕ} (hx : s.Has x) : Covers l x := by
  obtain ⟨hi, h, lo, rfl, hin, -⟩ := h
  exact ⟨h, by simp, hin.offset_le.trans hx.1, lt_of_lt_of_le hx.2 hin.stop_le⟩

theorem Carved.total : total l' + s.size = total l := by
  have hsv := Carved.valid hv hs h
  obtain ⟨hi, h, lo, rfl, hin, rfl⟩ := h
  have hc := total_holeAlloc (hv h (by simp)) hsv hin
  simp only [total_append, total_cons]
  omega

include hl

lemma Carved.canonical : Canonical l' := by
  have hsv := Carved.valid hv hs h
  obtain ⟨hi, h, lo, rfl, hin, rfl⟩ := h
  have hh := hv h (by simp)
  apply hl.splice (canonical_holeAlloc hh hsv hin)
  intro t ht
  have ht' := inside_of_mem_holeAlloc hh hsv hin ht
  exact ⟨ht'.offset_le, ht'.stop_le⟩

lemma Carved.covers (x : ℕ) : Covers l' x ↔ Covers l x ∧ ¬ s.Has x := by
  have hsv := Carved.valid hv hs h
  obtain ⟨hi, h, lo, rfl, hin, rfl⟩ := h
  have hh := hv h (by simp)
  have hdesc := pairwise_append.mp hl.desc
  have hle := hin.offset_le
  have hstop := hin.stop_le
  -- the other holes lie above or below the one with the range
  have hhi : Covers hi x → ¬ s.Has x := by
    intro ⟨t, ht, hx⟩ hsx
    have hlt := hdesc.2.2 t ht h mem_cons_self
    simp only [Span.Has] at hx hsx
    omega
  have hlo : Covers lo x → ¬ s.Has x := by
    intro ⟨t, ht, hx⟩ hsx
    have hlt := (pairwise_cons.mp hdesc.2.1).1 t ht
    simp only [Span.Has] at hx hsx
    omega
  rw [covers_append, covers_append, covers_append, covers_cons, covers_holeAlloc hh hsv hin]
  tauto

end Carved

/-! ## Free -/

/-- The part of `freeHoles` above the range: the lowest hole there is joined to it if they touch. -/
def joinHigh (s : Span) (high : List Hole) : List Hole × Span :=
  match high.getLast? with
  | some h => if s.stop = h.offset then (high.dropLast, ⟨s.offset, s.size + h.size⟩) else (high, s)
  | none => (high, s)

/-- The part below the range. -/
def joinLow (s : Span) : List Hole → List Hole × Span
  | l :: low => if l.stop = s.offset then (low, ⟨l.offset, l.size + s.size⟩) else (l :: low, s)
  | [] => ([], s)

section Free

variable {s : Span} {high low : List Hole}

/-- Where the range is between the holes no sum wraps, and the two sides are joined one after the
other. -/
theorem freeHoles_eq (hs : Valid s) (hv : ∀ h ∈ high ++ low, Valid h)
    (hhigh : ∀ h ∈ high, s.stop ≤ h.offset) (hlow : ∀ h ∈ low, h.stop ≤ s.offset) :
    freeHoles s.offset s.size high low =
      (joinHigh s high).1 ++ (joinLow (joinHigh s high).2 low).2 :: (joinLow (joinHigh s high).2 low).1 := by
  have hpos := hs.size_pos
  have hspos := hs.offset_pos
  have htop := hs.stop_le
  have hadds : ∀ l ∈ low, 0 < l.offset ∧ add64 l.offset l.size = l.offset + l.size ∧
      add64 l.size s.size = l.size + s.size := by
    intro l hl
    have hle := hlow l hl
    have hlpos := (hv l (by simp [hl])).offset_pos
    unfold stop at *
    exact ⟨hlpos, add64_of_lt (by omega), add64_of_lt (by omega)⟩
  rcases eq_nil_or_concat high with rfl | ⟨high, h, rfl⟩
  · cases low with
    | nil => rfl
    | cons l low =>
      obtain ⟨-, hadd, hsize⟩ := hadds l mem_cons_self
      by_cases heq : l.offset + l.size = s.offset <;>
        simp [freeHoles, Option.filter, joinHigh, joinLow, hadd, heq, hsize, stop]
  · have hh := hhigh h (by simp)
    have hh' := (hv h (by simp)).stop_le
    have hhpos := (hv h (by simp)).size_pos
    simp only [stop] at *
    have hadd : add64 s.offset s.size = s.offset + s.size := add64_of_lt (by omega)
    have hsizeh : add64 h.size s.size = s.size + h.size := by
      rw [add64_of_lt (by omega), add_comm]
    have hsum : add64 s.size h.size = s.size + h.size := add64_of_lt (by omega)
    cases low with
    | nil =>
      by_cases heq : s.offset + s.size = h.offset <;>
        simp [freeHoles, Option.filter, joinHigh, joinLow, hadd, heq, hsizeh, stop]
    | cons l low =>
      obtain ⟨hlpos, haddl, hsize⟩ := hadds l mem_cons_self
      by_cases heq : s.offset + s.size = h.offset <;> by_cases heql : l.offset + l.size = s.offset
      · have hall : add64 l.size (s.size + h.size) = l.size + (s.size + h.size) := add64_of_lt (by omega)
        simp [freeHoles, Option.filter, joinHigh, joinLow, hadd, haddl, heq, heql, hsum, hall, stop]
      · simp [freeHoles, Option.filter, joinHigh, joinLow, hadd, haddl, heq, heql, hsizeh, stop]
      · simp [freeHoles, Option.filter, joinHigh, joinLow, hadd, haddl, heq, heql, hsize, stop]
      · simp [freeHoles, Option.filter, joinHigh, joinLow, hadd, haddl, heq, heql, stop]

/-- The joined range and the holes that are left are what the range and the holes were. -/
structure Joined (s : Span) (l : List Hole) (r : List Hole × Span) : Prop where
  sublist : r.1.Sublist l
  size_le : s.size ≤ r.2.size
  covers : ∀ x, Covers r.1 x ∨ r.2.Has x ↔ Covers l x ∨ s.Has x
  total : total r.1 + r.2.size = total l + s.size

lemma Joined.refl (s : Span) (l : List Hole) : Joined s l (l, s) := ⟨.refl _, le_rfl, fun _ => Iff.rfl, rfl⟩

/-- The holes above are apart from the range. -/
structure JoinedHigh (s : Span) (high : List Hole) (r : List Hole × Span) : Prop extends Joined s high r where
  offset_eq : r.2.offset = s.offset
  above : ∀ h ∈ r.1, r.2.stop < h.offset

lemma joinedHigh (hc : Canonical high) (hhigh : ∀ h ∈ high, s.stop ≤ h.offset) :
    JoinedHigh s high (joinHigh s high) := by
  rcases eq_nil_or_concat high with rfl | ⟨high, h, rfl⟩
  · exact ⟨.refl _ _, rfl, forall_mem_nil _⟩
  · rw [concat_eq_append] at *
    have hh := hhigh h (by simp)
    have hdesc := pairwise_append.mp hc.desc
    have hup : ∀ t ∈ high, h.stop < t.offset := fun t ht => hdesc.2.2 t ht h (mem_singleton_self h)
    by_cases heq : s.stop = h.offset
    · have hj : joinHigh s (high ++ [h]) = (high, ⟨s.offset, s.size + h.size⟩) := by
        simp [joinHigh, heq]
      rw [hj]
      refine ⟨⟨sublist_append_left _ _, Nat.le_add_right _ _, ?_, ?_⟩, rfl, ?_⟩
      · intro x
        rw [covers_append, covers_cons, or_iff_left (covers_nil x), or_assoc]
        apply or_congr Iff.rfl
        simp only [Span.Has, stop] at *
        omega
      · simp only [total_append, total_cons, total_nil]
        omega
      · intro t ht
        have hlt := hup t ht
        simp only [stop] at *
        omega
    · have hj : joinHigh s (high ++ [h]) = (high ++ [h], s) := by
        simp [joinHigh, heq]
      rw [hj]
      refine ⟨.refl _ _, rfl, ?_⟩
      refine forall_mem_append.mpr ⟨fun t ht => ?_, forall_mem_singleton.mpr (lt_of_le_of_ne hh heq)⟩
      have hlt := hup t ht
      simp only [stop] at *
      omega

/-- The same below. -/
structure JoinedLow (s : Span) (low : List Hole) (r : List Hole × Span) : Prop extends Joined s low r where
  stop_eq : r.2.stop = s.stop
  below : ∀ h ∈ r.1, h.stop < r.2.offset

lemma joinedLow (hc : Canonical low) (hlow : ∀ h ∈ low, h.stop ≤ s.offset) :
    JoinedLow s low (joinLow s low) := by
  cases low with
  | nil => exact ⟨.refl _ _, rfl, forall_mem_nil _⟩
  | cons l low =>
    have hl := hlow l mem_cons_self
    have hdown := (pairwise_cons.mp hc.desc).1
    by_cases heq : l.stop = s.offset
    · have hj : joinLow s (l :: low) = (low, ⟨l.offset, l.size + s.size⟩) := if_pos heq
      rw [hj]
      refine ⟨⟨sublist_cons_self _ _, Nat.le_add_left _ _, ?_, ?_⟩, ?_, hdown⟩
      · intro x
        rw [covers_cons, or_comm (b := Covers low x), or_assoc]
        apply or_congr Iff.rfl
        simp only [Span.Has, stop] at *
        omega
      · simp only [total_cons]
        omega
      · simp only [stop] at *
        omega
    · have hj : joinLow s (l :: low) = (l :: low, s) := if_neg heq
      rw [hj]
      refine ⟨.refl _ _, rfl, ?_⟩
      refine forall_mem_cons.mpr ⟨lt_of_le_of_ne hl heq, fun t ht => ?_⟩
      have hlt := hdown t ht
      simp only [stop] at *
      omega

/-- What a free does to a canonical list of holes. -/
structure Freed (s : Span) (l l' : List Hole) : Prop where
  canonical : Canonical l'
  covers : ∀ x, Covers l' x ↔ Covers l x ∨ s.Has x
  total : total l' = total l + s.size

lemma freed_freeHoles (hs : Valid s) (hc : Canonical (high ++ low)) (hv : ∀ h ∈ high ++ low, Valid h)
    (hhigh : ∀ h ∈ high, s.stop ≤ h.offset) (hlow : ∀ h ∈ low, h.stop ≤ s.offset) :
    Freed s (high ++ low) (freeHoles s.offset s.size high low) := by
  have hup := joinedHigh (hc.sublist (sublist_append_left high low)) hhigh
  have hlow' : ∀ h ∈ low, h.stop ≤ (joinHigh s high).2.offset := by
    rw [hup.offset_eq]
    exact hlow
  have hdown := joinedLow (hc.sublist (sublist_append_right high low)) hlow'
  have hpos := hs.size_pos
  rw [freeHoles_eq hs hv hhigh hlow]
  refine ⟨?_, ?_, ?_⟩
  · apply Canonical.insert
    · exact hc.sublist (hup.sublist.append hdown.sublist)
    · have h1 := hup.size_le
      have h2 := hdown.size_le
      omega
    · intro t ht
      rw [hdown.stop_eq]
      exact hup.above t ht
    · exact hdown.below
  · intro x
    have h1 := hup.covers x
    have h2 := hdown.covers x
    rw [covers_append, covers_cons, covers_append]
    tauto
  · have h1 := hup.total
    have h2 := hdown.total
    rw [total_append, total_cons, total_append]
    omega

/-- The holes that the search of `util_vma_heap_free` leaves below. -/
theorem offset_le_of_mem_dropWhile {l : List Hole} {x : ℕ} (hc : Canonical l) {t : Hole}
    (ht : t ∈ l.dropWhile (x < ·.offset)) : t.offset ≤ x := by
  induction l with
  | nil => exact absurd ht not_mem_nil
  | cons a l ih =>
    by_cases ha : x < a.offset
    · rw [dropWhile_cons_of_pos (by simpa using ha)] at ht
      exact ih hc.tail ht
    · rw [dropWhile_cons_of_neg (by simpa using ha)] at ht
      rcases mem_cons.mp ht with rfl | ht
      · omega
      · have hlt := (pairwise_cons.mp hc.desc).1 t ht
        simp only [stop] at hlt
        omega

/-- A free of a range that no hole overlaps. -/
theorem freed_heapFree {heap : Heap} (hs : Valid s) (hc : Canonical heap.holes)
    (hv : ∀ h ∈ heap.holes, Valid h) (hdisj : ∀ x, s.Has x → ¬ Covers heap.holes x) :
    Freed s heap.holes (heapFree heap s.offset s.size).holes := by
  have hsplit :=
    takeWhile_append_dropWhile (p := fun h : Hole => decide (s.offset < h.offset)) (l := heap.holes)
  have hhigh : ∀ t ∈ heap.holes.takeWhile (s.offset < ·.offset), s.stop ≤ t.offset := by
    intro t ht
    have hlt : s.offset < t.offset := by
      simpa using all_eq_true.mp (all_takeWhile ..) t ht
    have hmem := (takeWhile_sublist _).subset ht
    by_contra hle
    have hx : s.Has t.offset := ⟨hlt.le, by omega⟩
    exact hdisj _ hx ⟨t, hmem, has_offset (hc.pos t hmem)⟩
  have hlow : ∀ t ∈ heap.holes.dropWhile (s.offset < ·.offset), t.stop ≤ s.offset := by
    intro t ht
    have hle := offset_le_of_mem_dropWhile hc ht
    have hmem := (dropWhile_sublist _).subset ht
    by_contra hlt
    have hx : t.Has s.offset := ⟨hle, by omega⟩
    exact hdisj _ (has_offset hs.size_pos) ⟨t, hmem, hx⟩
  have h := freed_freeHoles hs (hsplit.symm ▸ hc) (hsplit.symm ▸ hv) hhigh hlow
  rw [hsplit] at h
  exact h

end Free

end RadvXclipse.Util.Vma
