import Mathlib.Data.List.Perm.Basic

/-!
# Removing an array entry by moving the last one into its place

`entries[i] = entries[--count]`: constant time, and the order of the remaining entries changes.
As a multiset the array loses exactly the entry at `i`.
-/

namespace RadvXclipse.Lib

open List Option

variable {α : Type*}

/-- The array without entry `i`, whose slot the last entry has taken. -/
def swapRemove (l : List α) (i : ℕ) : List α :=
  match l.getLast? with
  | some x => (l.set i x).dropLast
  | none => []

lemma swapRemove_concat (l : List α) (x : α) (i : ℕ) :
    swapRemove (l ++ [x]) i = ((l ++ [x]).set i x).dropLast := by
  simp [swapRemove]

section

variable {l : List α} {i : ℕ} {p : α → Bool}

/-- Replacing an entry that is put back in front. -/
theorem perm_cons_set (h : i < l.length) (x : α) : (l ++ [x]).Perm (l[i] :: l.set i x) := by
  have hsplit : l = l.take i ++ l[i] :: l.drop (i + 1) := by
    rw [← drop_eq_getElem_cons h, take_append_drop]
  have hset : l.set i x = l.take i ++ x :: l.drop (i + 1) := by
    rw [set_eq_take_append_cons_drop, if_pos h]
  rw [hset]
  calc (l ++ [x]).Perm (x :: l) := perm_append_singleton x l
    _ = x :: (l.take i ++ l[i] :: l.drop (i + 1)) := by rw [← hsplit]
    Perm _ (x :: l[i] :: (l.take i ++ l.drop (i + 1))) := perm_middle.cons x
    Perm _ (l[i] :: x :: (l.take i ++ l.drop (i + 1))) := Perm.swap _ _ _
    Perm _ (l[i] :: (l.take i ++ x :: l.drop (i + 1))) := perm_middle.symm.cons l[i]

/-- Swap-removal takes out exactly the entry it is asked for. -/
theorem perm_swapRemove (h : i < l.length) : l.Perm (l[i] :: swapRemove l i) := by
  rcases eq_nil_or_concat' l with rfl | ⟨init, x, rfl⟩
  · exact absurd h (Nat.not_lt_zero i)
  rw [swapRemove_concat]
  rw [length_append, length_singleton] at h
  by_cases hi : i < init.length
  · -- the last entry moves into the slot
    rw [getElem_append_left hi, set_append_left i x hi, dropLast_concat]
    exact perm_cons_set hi x
  · -- the last entry is the one removed
    obtain rfl : i = init.length := by omega
    simp

/-- The first entry that satisfies `p`, and the array without it. -/
def swapTake (p : α → Bool) (l : List α) : Option (α × List α) :=
  (l.findIdx? p).bind fun i => l[i]?.map fun x => (x, swapRemove l i)

lemma swapTake_some {l' : List α} {x : α} (h : swapTake p l = some (x, l')) :
    p x = true ∧ l.Perm (x :: l') := by
  obtain ⟨i, hi, hx⟩ := bind_eq_some_iff.mp h
  obtain ⟨hlt, hp, -⟩ := findIdx?_eq_some_iff_getElem.mp hi
  rw [getElem?_eq_getElem hlt, map_some, Option.some.injEq, Prod.mk.injEq] at hx
  rw [← hx.1, ← hx.2]
  exact ⟨hp, perm_swapRemove hlt⟩

lemma swapTake_none (h : swapTake p l = none) : ∀ x ∈ l, p x = false := by
  unfold swapTake at h
  cases hi : l.findIdx? p with
  | none => exact findIdx?_eq_none_iff.mp hi
  | some i =>
    obtain ⟨hlt, -, -⟩ := findIdx?_eq_some_iff_getElem.mp hi
    rw [hi, bind_some, getElem?_eq_getElem hlt] at h
    exact nomatch h

end

end RadvXclipse.Lib
