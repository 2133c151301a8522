import Mathlib.Algebra.BigOperators.Ring.Finset
import Mathlib.Algebra.Order.BigOperators.Group.Finset

/-!
# Counts by kind

A list of counts, each of some kind. If one list has no more of any kind than another, then neither
does any sum that weighs the kinds.
-/

namespace RadvXclipse.Lib

open List

variable {κ : Type}

/-- The sum with a weight for each kind. -/
def weigh (w : κ → ℕ) (l : List (κ × ℕ)) : ℕ := (l.map fun x => w x.1 * x.2).sum

@[simp]
lemma weigh_cons (w : κ → ℕ) (x : κ × ℕ) (l : List (κ × ℕ)) :
    weigh w (x :: l) = w x.1 * x.2 + weigh w l := by
  unfold weigh
  rw [map_cons, sum_cons]

variable [DecidableEq κ]

/-- How many there are of a kind. -/
def tally (l : List (κ × ℕ)) (k : κ) : ℕ := (l.map fun x => if x.1 = k then x.2 else 0).sum

lemma tally_cons (x : κ × ℕ) (l : List (κ × ℕ)) (k : κ) :
    tally (x :: l) k = (if x.1 = k then x.2 else 0) + tally l k := by
  unfold tally
  rw [map_cons, sum_cons]

/-- A weighed sum adds up the kinds. -/
theorem weigh_eq_sum [Fintype κ] (w : κ → ℕ) (l : List (κ × ℕ)) :
    weigh w l = ∑ k, w k * tally l k := by
  induction l with
  | nil => simp [weigh, tally]
  | cons x l ih =>
    have hhead : ∑ k, w k * (if x.1 = k then x.2 else 0) = w x.1 * x.2 := by simp
    rw [weigh_cons, ih, ← hhead, ← Finset.sum_add_distrib]
    apply Finset.sum_congr rfl
    intro k _
    rw [tally_cons, mul_add]

/-- A list with no more of any kind weighs no more. -/
theorem weigh_le_of_tally_le [Fintype κ] {l m : List (κ × ℕ)} (h : ∀ k, tally l k ≤ tally m k)
    (w : κ → ℕ) : weigh w l ≤ weigh w m := by
  rw [weigh_eq_sum, weigh_eq_sum]
  apply Finset.sum_le_sum
  intro k _
  exact Nat.mul_le_mul_left (w k) (h k)

end RadvXclipse.Lib
