import Mathlib.Data.List.Basic
import Mathlib.Data.List.Pairwise
import Mathlib.Tactic.Linarith

/-!
# Lists of intervals

A set of natural numbers that is a finite union of intervals has one list of maximal intervals in
descending order. Such a list is `Canonical`: its intervals are not empty and do not touch. Two
canonical lists that cover the same numbers are equal (`Canonical.ext`), so a structure that keeps
its list canonical keeps it a function of the set it stands for.
-/

namespace RadvXclipse.Lib

open List

/-- The numbers from `offset` to `offset + size - 1`. -/
structure Span where
  offset : ℕ
  size : ℕ
deriving DecidableEq

/-- The first number after the interval. -/
def Span.stop (s : Span) : ℕ := s.offset + s.size

def Span.Has (s : Span) (x : ℕ) : Prop := s.offset ≤ x ∧ x < s.stop

/-- Some interval of the list has the number. -/
def Covers (l : List Span) (x : ℕ) : Prop := ∃ s ∈ l, s.Has x

lemma covers_nil (x : ℕ) : ¬ Covers [] x := by
  intro ⟨s, hs, _⟩
  exact not_mem_nil hs

variable {l : List Span} {x : ℕ}

lemma covers_cons {s : Span} : Covers (s :: l) x ↔ s.Has x ∨ Covers l x := by
  unfold Covers
  rw [exists_mem_cons_iff]

lemma covers_append {m : List Span} : Covers (l ++ m) x ↔ Covers l x ∨ Covers m x := by
  unfold Covers
  simp only [mem_append, or_and_right, exists_or]

lemma Covers.perm {m : List Span} (h : l.Perm m) : Covers l x ↔ Covers m x :=
  exists_congr fun _ => and_congr_left fun _ => h.mem_iff

/-- Empty intervals do not matter. -/
theorem covers_filter : Covers (l.filter fun s => 0 < s.size) x ↔ Covers l x := by
  refine exists_congr fun s => and_congr_left fun hx => ?_
  have hpos : 0 < s.size := Nat.pos_of_lt_add_right (lt_of_le_of_lt hx.1 hx.2)
  simp [hpos]

/-- No number is in both. -/
def Span.Apart (s t : Span) : Prop := ∀ x, s.Has x → ¬ t.Has x

lemma Span.Apart.symm {s t : Span} (h : s.Apart t) : t.Apart s := fun x ht hs => h x hs ht

/-- The total size. -/
def total (l : List Span) : ℕ := (l.map Span.size).sum

lemma total_append (l m : List Span) : total (l ++ m) = total l + total m := by
  unfold total
  rw [map_append, sum_append]

lemma total_cons (s : Span) (l : List Span) : total (s :: l) = s.size + total l := by
  unfold total
  rw [map_cons, sum_cons]

lemma total_nil : total [] = 0 := rfl

/-- Intervals from high to low, none of them empty, none of them touching the next. -/
structure Canonical (l : List Span) : Prop where
  pos : ∀ s ∈ l, 0 < s.size
  desc : l.Pairwise fun a b => b.stop < a.offset

section Canonical

variable {a : Span} {l m hi lo : List Span}

lemma Canonical.nil : Canonical [] := ⟨forall_mem_nil _, .nil⟩

lemma Canonical.tail (h : Canonical (a :: l)) : Canonical l :=
  ⟨fun s hs => h.pos s (mem_cons_of_mem a hs), (pairwise_cons.mp h.desc).2⟩

/-- The rest of the list is below the first interval, with a gap between them. -/
theorem Canonical.lt_of_covers (h : Canonical (a :: l)) (hx : Covers l x) : x + 1 < a.offset := by
  obtain ⟨s, hs, _, hlt⟩ := hx
  have hstop := (pairwise_cons.mp h.desc).1 s hs
  omega

/-- The list between two parts is replaced by one that stays inside an interval of the old list. -/
theorem Canonical.splice (h : Canonical (hi ++ a :: lo)) (hm : Canonical m)
    (hin : ∀ s ∈ m, a.offset ≤ s.offset ∧ s.stop ≤ a.stop) : Canonical (hi ++ m ++ lo) := by
  have hdesc := h.desc
  rw [pairwise_append, pairwise_cons] at hdesc
  obtain ⟨hhi, ⟨halo, hlo⟩, hcross⟩ := hdesc
  refine ⟨?_, ?_⟩
  · rw [forall_mem_append, forall_mem_append]
    have hpos := forall_mem_append.mp h.pos
    exact ⟨⟨hpos.1, hm.pos⟩, (forall_mem_cons.mp hpos.2).2⟩
  · rw [append_assoc, pairwise_append, pairwise_append]
    refine ⟨hhi, ⟨hm.desc, hlo, ?_⟩, ?_⟩
    · intro s hs t ht
      exact lt_of_lt_of_le (halo t ht) (hin s hs).1
    · intro s hs
      obtain ⟨hsa, hslo⟩ := forall_mem_cons.mp (hcross s hs)
      exact forall_mem_append.mpr ⟨fun t ht => lt_of_le_of_lt (hin t ht).2 hsa, hslo⟩

/-- An interval is put between two parts of a list. -/
theorem Canonical.insert (h : Canonical (hi ++ lo)) (ha : 0 < a.size) (hhi : ∀ s ∈ hi, a.stop < s.offset)
    (hlo : ∀ s ∈ lo, s.stop < a.offset) : Canonical (hi ++ a :: lo) := by
  have hdesc := pairwise_append.mp h.desc
  refine ⟨?_, ?_⟩
  · obtain ⟨hpos, hpos'⟩ := forall_mem_append.mp h.pos
    exact forall_mem_append.mpr ⟨hpos, forall_mem_cons.mpr ⟨ha, hpos'⟩⟩
  · rw [pairwise_append, pairwise_cons]
    exact ⟨hdesc.1, ⟨hlo, hdesc.2.1⟩, fun s hs => forall_mem_cons.mpr ⟨hhi s hs, hdesc.2.2 s hs⟩⟩

/-- Part of a list. -/
theorem Canonical.sublist (h : Canonical l) (hm : m.Sublist l) : Canonical m :=
  ⟨fun s hs => h.pos s (hm.subset hs), h.desc.sublist hm⟩

lemma Span.has_last (ha : 0 < a.size) : a.Has (a.stop - 1) := by
  unfold Span.Has Span.stop
  omega

lemma Span.has_offset (ha : 0 < a.size) : a.Has a.offset := by
  unfold Span.Has Span.stop
  omega

/-- The first interval of a canonical list ends with the largest number. -/
theorem Canonical.stop_le {b : Span} (ha : Canonical (a :: l)) (hb : Canonical (b :: m))
    (h : ∀ x, Covers (a :: l) x → Covers (b :: m) x) : a.stop ≤ b.stop := by
  have hpos := ha.pos a mem_cons_self
  rcases covers_cons.mp (h _ (covers_cons.mpr (.inl (Span.has_last hpos)))) with ⟨_, hlt⟩ | hcov
  · unfold Span.stop at hlt ⊢
    omega
  · have hgap := hb.lt_of_covers hcov
    unfold Span.stop at hgap ⊢
    omega

/-- It cannot begin earlier than the first interval of a list that covers as much. -/
theorem Canonical.offset_le {b : Span} (hb : Canonical (b :: m))
    (h : ∀ x, Covers (a :: l) x → Covers (b :: m) x) (hstop : a.stop = b.stop) : b.offset ≤ a.offset := by
  by_contra hlt
  have hin : a.Has (b.offset - 1) := by
    unfold Span.Has Span.stop at *
    omega
  rcases covers_cons.mp (h _ (covers_cons.mpr (.inl hin))) with ⟨hge, _⟩ | hcov
  · omega
  · have hgap := hb.lt_of_covers hcov
    omega

/-- Below a common first interval the rest covers as much. -/
theorem Canonical.covers_tail (hl : Canonical (a :: l)) (h : Covers (a :: l) x → Covers (a :: m) x)
    (hx : Covers l x) : Covers m x := by
  have hlt := hl.lt_of_covers hx
  rcases covers_cons.mp (h (covers_cons.mpr (.inr hx))) with ⟨hge, _⟩ | hcov
  · omega
  · exact hcov

/-- The intervals do not overlap, so their sizes add up to no more than the range they are in. -/
theorem Canonical.total_le (hl : Canonical l) (lo hi : ℕ) (h : ∀ x, Covers l x → lo ≤ x ∧ x < hi) :
    total l ≤ hi - lo := by
  induction l generalizing hi with
  | nil => exact Nat.zero_le _
  | cons a l ih =>
    have hpos := hl.pos a mem_cons_self
    have hfirst := h _ (covers_cons.mpr (.inl (Span.has_offset hpos)))
    have hlast := h _ (covers_cons.mpr (.inl (Span.has_last hpos)))
    have htail : total l ≤ a.offset - lo := by
      apply ih hl.tail a.offset
      intro x hx
      have hlt := hl.lt_of_covers hx
      exact ⟨(h x (covers_cons.mpr (.inr hx))).1, by omega⟩
    rw [total_cons]
    simp only [Span.stop] at hlast
    omega

/-- Canonical lists that cover the same numbers are equal. -/
theorem Canonical.ext (hl : Canonical l) (hm : Canonical m) (h : ∀ x, Covers l x ↔ Covers m x) : l = m := by
  induction l generalizing m with
  | nil =>
    cases m with
    | nil => rfl
    | cons b m =>
      have hb := Span.has_offset (hm.pos b mem_cons_self)
      exact absurd ((h _).mpr (covers_cons.mpr (.inl hb))) (covers_nil _)
  | cons a l ih =>
    cases m with
    | nil =>
      have ha := Span.has_offset (hl.pos a mem_cons_self)
      exact absurd ((h _).mp (covers_cons.mpr (.inl ha))) (covers_nil _)
    | cons b m =>
      have hstop : a.stop = b.stop :=
        le_antisymm (hl.stop_le hm fun x => (h x).mp) (hm.stop_le hl fun x => (h x).mpr)
      have hoffset : a.offset = b.offset :=
        le_antisymm (hl.offset_le (fun x => (h x).mpr) hstop.symm) (hm.offset_le (fun x => (h x).mp) hstop)
      have hab : a = b := by
        cases a
        cases b
        simp only [Span.stop] at hstop hoffset
        rw [Span.mk.injEq]
        omega
      subst hab
      rw [ih hl.tail hm.tail fun x => ⟨hl.covers_tail (h x).mp, hm.covers_tail (h x).mpr⟩]

end Canonical

end RadvXclipse.Lib
