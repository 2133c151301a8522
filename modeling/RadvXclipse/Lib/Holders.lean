import Mathlib.Data.List.Nodup
import Mathlib.Data.List.Perm.Subperm

/-!
# Items with one holder

A family of lists, one for each holder, in which no item is held twice. An exchange between two
holders keeps that as long as what they hold afterwards is part of what they held before and of
items that nobody held.
-/

namespace RadvXclipse.Lib

open List

variable {ι α : Type*} {held held' : ι → List α}

/-- No item is held twice, by one holder or by two. -/
structure Exclusive (held : ι → List α) : Prop where
  nodup : ∀ i, (held i).Nodup
  eq_of_mem : ∀ {i j a}, a ∈ held i → a ∈ held j → i = j

namespace Exclusive

/-- An item is in one position of one list. -/
theorem position_eq (h : Exclusive held) {i j : ι} {m n : ℕ} {a : α} (hi : (held i)[m]? = some a)
    (hj : (held j)[n]? = some a) : i = j ∧ m = n := by
  obtain rfl := h.eq_of_mem (mem_of_getElem? hi) (mem_of_getElem? hj)
  obtain ⟨hm, rfl⟩ := List.getElem?_eq_some_iff.mp hi
  obtain ⟨hn, heq⟩ := List.getElem?_eq_some_iff.mp hj
  exact ⟨rfl, (h.nodup i).getElem_inj_iff.mp heq.symm⟩

lemma nodup_append (h : Exclusive held) {i k : ι} (hik : i ≠ k) : (held i ++ held k).Nodup := by
  refine List.nodup_append.mpr ⟨h.nodup i, h.nodup k, ?_⟩
  rintro a ha b hb rfl
  exact hik (h.eq_of_mem ha hb)

/-- An exchange between the holders `i` and `k`, with `new` items coming in. -/
theorem exchange (h : Exclusive held) {i k : ι} (hik : i ≠ k) {new : List α} (hnew : new.Nodup)
    (hfresh : ∀ a ∈ new, ∀ j, a ∉ held j) (hother : ∀ j, j ≠ i → j ≠ k → held' j = held j)
    (hsub : (held' i ++ held' k).Subperm (held i ++ held k ++ new)) : Exclusive held' := by
  have hbefore : (held i ++ held k ++ new).Nodup := by
    refine List.nodup_append.mpr ⟨h.nodup_append hik, hnew, ?_⟩
    rintro a ha b hb rfl
    rcases mem_append.mp ha with ha | ha
    · exact hfresh a hb i ha
    · exact hfresh a hb k ha
  have hafter : (held' i ++ held' k).Nodup := by
    obtain ⟨l, hperm, hl⟩ := hsub
    exact hperm.nodup_iff.mp (hl.nodup hbefore)
  obtain ⟨hnodup, hnodup', hdisjoint⟩ := List.nodup_append.mp hafter
  -- what `i` and `k` hold afterwards, no other holder holds
  have houtside : ∀ {j a}, j ≠ i → j ≠ k → a ∈ held' j → a ∉ held' i ++ held' k := by
    intro j a hji hjk ha hmem
    rw [hother j hji hjk] at ha
    have hold := hsub.subset hmem
    simp only [mem_append] at hold
    rcases hold with (hi | hk) | hn
    · exact hji (h.eq_of_mem ha hi)
    · exact hjk (h.eq_of_mem ha hk)
    · exact hfresh a hn j ha
  constructor
  · intro j
    by_cases hji : j = i
    · exact hji ▸ hnodup
    · by_cases hjk : j = k
      · exact hjk ▸ hnodup'
      · rw [hother j hji hjk]
        exact h.nodup j
  · intro j j' a hj hj'
    by_cases hin : j = i ∨ j = k
    · by_cases hin' : j' = i ∨ j' = k
      · rcases hin with rfl | rfl <;> rcases hin' with rfl | rfl
        · rfl
        · exact absurd rfl (hdisjoint a hj a hj')
        · exact absurd rfl (hdisjoint a hj' a hj)
        · rfl
      · rw [not_or] at hin'
        have hmem : a ∈ held' i ++ held' k := by
          rcases hin with rfl | rfl
          · exact mem_append_left _ hj
          · exact mem_append_right _ hj
        exact absurd hmem (houtside hin'.1 hin'.2 hj')
    · rw [not_or] at hin
      by_cases hin' : j' = i ∨ j' = k
      · have hmem : a ∈ held' i ++ held' k := by
          rcases hin' with rfl | rfl
          · exact mem_append_left _ hj'
          · exact mem_append_right _ hj'
        exact absurd hmem (houtside hin.1 hin.2 hj)
      · rw [not_or] at hin'
        rw [hother j hin.1 hin.2] at hj
        rw [hother j' hin'.1 hin'.2] at hj'
        exact h.eq_of_mem hj hj'

end Exclusive

end RadvXclipse.Lib
