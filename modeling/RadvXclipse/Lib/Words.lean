import Mathlib.Data.List.Basic

/-!
# Memory that begins with a given list of words

A memory region is a function from indices to words. `Begins f l` says that its first
`l.length` words are `l`; the lemmas follow how such a region is written: at its end, in place,
or by skipping over words that keep whatever value they had.
-/

namespace RadvXclipse.Lib

open List Function

variable {α : Type*}

/-- The first words of the region `f` are `l`. -/
def Begins (f : ℕ → α) (l : List α) : Prop := ∀ (i : ℕ) (h : i < l.length), f i = l[i]

lemma Begins.nil (f : ℕ → α) : Begins f [] := by
  intro i h
  exact absurd h (Nat.not_lt_zero i)

section

variable {f : ℕ → α} {l m : List α}

/-- A store right after `l` appends a word. -/
theorem Begins.store_end (h : Begins f l) (v : α) : Begins (update f l.length v) (l ++ [v]) := by
  intro i hi
  rw [length_append, length_singleton] at hi
  by_cases hil : i = l.length
  · subst hil
    rw [update_self, getElem_concat_length rfl]
  · have hlt : i < l.length := by omega
    rw [update_of_ne hil, getElem_append_left hlt]
    exact h i hlt

/-- A store inside `l` replaces a word. -/
theorem Begins.store_at (h : Begins f l) (i : ℕ) (v : α) : Begins (update f i v) (l.set i v) := by
  intro j hj
  rw [length_set] at hj
  rw [getElem_set]
  by_cases hij : i = j
  · subst hij
    rw [update_self, if_pos rfl]
  · rw [update_of_ne (Ne.symm hij), if_neg hij]
    exact h j hj

/-- A store inside the second part leaves the first as it is. -/
theorem Begins.store_right (h : Begins f (l ++ m)) (i : ℕ) (v : α) :
    Begins (update f (l.length + i) v) (l ++ m.set i v) := by
  have h' := h.store_at (l.length + i) v
  rwa [set_append_right (l.length + i) v (by omega), Nat.add_sub_cancel_left] at h'

/-- Skipping `n` words keeps them as they were. -/
theorem Begins.skip (h : Begins f l) (n : ℕ) : Begins f (l ++ (range n).map fun i => f (l.length + i)) := by
  intro i hi
  by_cases hil : i < l.length
  · rw [getElem_append_left hil]
    exact h i hil
  · rw [getElem_append_right (by omega)]
    simp only [getElem_map, getElem_range]
    congr 1
    omega

/-- Copying the first words of another region to the end of `l`. -/
theorem Begins.copy_end {g : ℕ → α} (h : Begins f l) (hg : Begins g m) :
    Begins (fun i => if l.length ≤ i ∧ i < l.length + m.length then g (i - l.length) else f i) (l ++ m) := by
  intro i hi
  have hlen : i < l.length + m.length := by rwa [length_append] at hi
  dsimp only
  by_cases hil : i < l.length
  · rw [if_neg (by omega), getElem_append_left hil]
    exact h i hil
  · rw [if_pos (by omega), getElem_append_right (by omega)]
    exact hg (i - l.length) (by omega)

theorem Begins.left (h : Begins f (l ++ m)) : Begins f l := by
  intro i hi
  rw [h i (by rw [length_append]; omega), getElem_append_left hi]

/-- The word at the start of the second part. -/
theorem Begins.at (h : Begins f (l ++ m)) (i : ℕ) (hi : i < m.length) : f (l.length + i) = m[i] := by
  rw [h (l.length + i) (by rw [length_append]; omega), getElem_append_right (by omega)]
  congr 1
  omega

/-- Reading back as many words as the list has. -/
theorem Begins.read (h : Begins f l) : (range l.length).map f = l := by
  apply ext_getElem
  · rw [length_map, length_range]
  · intro i _ hi
    rw [getElem_map, getElem_range]
    exact h i hi

end

end RadvXclipse.Lib
