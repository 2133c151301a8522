import Mathlib.Data.List.Chain

/-!
# Lists that tile an interval

A doubly linked list of blocks, sorted by address, covers an interval without gaps. `Tiles` says
so for any way of reading an offset and a size off a block; the lemmas replace a few neighbouring
blocks by others that cover the same part (`Tiles.splice`), which is all that splitting and
coalescing do. The rest of the file is about neighbours in a list: finding them, inserting next to
an element, and lists without two adjacent elements of a kind.
-/

namespace RadvXclipse.Lib

open List

variable {α : Type*}

/-! ## Tilings -/

/-- The blocks of the list are non-empty and cover `[a, b)` in order. -/
def Tiles (pos : α → ℕ × ℕ) : ℕ → List α → ℕ → Prop
  | a, [], b => a = b
  | a, x :: l, b => (pos x).1 = a ∧ 0 < (pos x).2 ∧ Tiles pos (a + (pos x).2) l b

instance Tiles.decidable (pos : α → ℕ × ℕ) : ∀ a l b, Decidable (Tiles pos a l b)
  | a, [], b => inferInstanceAs (Decidable (a = b))
  | a, x :: l, b =>
    have := Tiles.decidable pos (a + (pos x).2) l b
    inferInstanceAs (Decidable ((pos x).1 = a ∧ 0 < (pos x).2 ∧ Tiles pos (a + (pos x).2) l b))

section

variable {pos pos' : α → ℕ × ℕ} {l m : List α} {a b : ℕ} {x : α}

lemma tiles_append : Tiles pos a (l ++ m) b ↔ ∃ c, Tiles pos a l c ∧ Tiles pos c m b := by
  induction l generalizing a with
  | nil =>
    constructor
    · intro h
      exact ⟨a, rfl, h⟩
    · rintro ⟨c, rfl, h⟩
      exact h
  | cons x l ih =>
    constructor
    · rintro ⟨hoff, hsize, h⟩
      obtain ⟨c, hl, hm⟩ := ih.mp h
      exact ⟨c, ⟨hoff, hsize, hl⟩, hm⟩
    · rintro ⟨c, ⟨hoff, hsize, hl⟩, hm⟩
      exact ⟨hoff, hsize, ih.mpr ⟨c, hl, hm⟩⟩

lemma Tiles.congr (h : Tiles pos a l b) (heq : ∀ x ∈ l, pos' x = pos x) : Tiles pos' a l b := by
  induction l generalizing a with
  | nil => exact h
  | cons x l ih =>
    have hx := heq x mem_cons_self
    refine ⟨?_, ?_, ?_⟩
    · rw [hx]
      exact h.1
    · rw [hx]
      exact h.2.1
    · rw [hx]
      exact ih h.2.2 fun y hy => heq y (mem_cons_of_mem x hy)

/-- A block that is left out if it would be empty. -/
theorem tiles_toList {o : Option α} {n : ℕ} (hpos : ∀ x ∈ o, pos x = (a, n))
    (hnone : o = none ↔ n = 0) : Tiles pos a o.toList (a + n) := by
  cases o with
  | none => exact (congrArg (a + ·) (hnone.mp rfl)).symm
  | some x =>
    have hx := hpos x rfl
    have hn : n ≠ 0 := fun h => nomatch hnone.mpr h
    refine ⟨?_, ?_, ?_⟩
    · rw [hx]
    · rw [hx]
      exact Nat.pos_of_ne_zero hn
    · rw [hx]
      rfl

section

variable (h : Tiles pos a l b)
include h

lemma Tiles.le : a ≤ b := by
  induction l generalizing a with
  | nil => exact le_of_eq h
  | cons x l ih =>
    have hle := ih h.2.2
    omega

/-- If the offsets and sizes of all blocks are multiples of `k`, so are the ends. -/
theorem Tiles.dvd {k : ℕ} (hne : l ≠ []) (hoff : ∀ x ∈ l, k ∣ (pos x).1)
    (hsize : ∀ x ∈ l, k ∣ (pos x).2) : k ∣ a ∧ k ∣ b := by
  have hend : ∀ {l : List α} {a : ℕ}, Tiles pos a l b → (∀ x ∈ l, k ∣ (pos x).2) → k ∣ a → k ∣ b := by
    intro l
    induction l with
    | nil =>
      intro a h _ ha
      rw [← show a = b from h]
      exact ha
    | cons x l ih =>
      intro a h hsize ha
      refine ih h.2.2 (fun y hy => hsize y (mem_cons_of_mem x hy)) ?_
      exact Nat.dvd_add ha (hsize x mem_cons_self)
  have ha : k ∣ a := by
    cases l with
    | nil => exact absurd rfl hne
    | cons x l =>
      rw [← h.1]
      exact hoff x mem_cons_self
  exact ⟨ha, hend h hsize ha⟩

/-- Every block lies in the interval. -/
theorem Tiles.mem (hx : x ∈ l) : a ≤ (pos x).1 ∧ 0 < (pos x).2 ∧ (pos x).1 + (pos x).2 ≤ b := by
  obtain ⟨l1, l2, rfl⟩ := append_of_mem hx
  obtain ⟨c, h1, hoff, hsize, h2⟩ := tiles_append.mp h
  have hle1 := h1.le
  have hle2 := h2.le
  rw [hoff]
  exact ⟨hle1, hsize, hle2⟩

/-- Distinct blocks do not overlap. -/
theorem Tiles.disjoint {y : α} (hx : x ∈ l) (hy : y ∈ l) (hne : x ≠ y) :
    (pos x).1 + (pos x).2 ≤ (pos y).1 ∨ (pos y).1 + (pos y).2 ≤ (pos x).1 := by
  obtain ⟨l1, l2, rfl⟩ := append_of_mem hx
  obtain ⟨c, h1, hoff, hsize, h2⟩ := tiles_append.mp h
  rcases mem_append.mp hy with hy | hy
  · right
    have hmem := h1.mem hy
    omega
  · left
    rcases mem_cons.mp hy with rfl | hy
    · exact absurd rfl hne
    · have hmem := h2.mem hy
      omega

end

end

/-! ## Neighbours -/

/-- The element before `x`. -/
def before [DecidableEq α] (l : List α) (x : α) : Option α := (l.takeWhile (· ≠ x)).getLast?

/-- The element after `x`. -/
def after [DecidableEq α] (l : List α) (x : α) : Option α := ((l.dropWhile (· ≠ x)).drop 1).head?

/-- `y` inserted before `x`. -/
def insertBefore [DecidableEq α] (l : List α) (x y : α) : List α :=
  l.takeWhile (· ≠ x) ++ y :: l.dropWhile (· ≠ x)

/-- `y` inserted after `x`. -/
def insertAfter [DecidableEq α] (l : List α) (x y : α) : List α :=
  l.takeWhile (· ≠ x) ++ (l.dropWhile (· ≠ x)).take 1 ++ y :: (l.dropWhile (· ≠ x)).drop 1

section Neighbours

variable [DecidableEq α] {l r : List α} {x : α}

section

variable (h : x ∉ l)
include h

lemma takeWhile_ne_append : (l ++ x :: r).takeWhile (· ≠ x) = l := by
  induction l with
  | nil => simp
  | cons y l ih =>
    rw [mem_cons, not_or] at h
    rw [cons_append, takeWhile_cons_of_pos (by simpa using Ne.symm h.1), ih h.2]

lemma dropWhile_ne_append : (l ++ x :: r).dropWhile (· ≠ x) = x :: r := by
  induction l with
  | nil => simp
  | cons y l ih =>
    rw [mem_cons, not_or] at h
    rw [cons_append, dropWhile_cons_of_pos (by simpa using Ne.symm h.1), ih h.2]

lemma before_append : before (l ++ x :: r) x = l.getLast? := by
  rw [before, takeWhile_ne_append h]

lemma after_append : after (l ++ x :: r) x = r.head? := by
  rw [after, dropWhile_ne_append h, drop_one, tail_cons]

lemma insertBefore_append (y : α) : insertBefore (l ++ x :: r) x y = l ++ y :: x :: r := by
  rw [insertBefore, takeWhile_ne_append h, dropWhile_ne_append h]

lemma insertAfter_append (y : α) : insertAfter (l ++ x :: r) x y = l ++ x :: y :: r := by
  rw [insertAfter, takeWhile_ne_append h, dropWhile_ne_append h]
  simp

lemma erase_append_cons : (l ++ x :: r).erase x = l ++ r := by
  rw [erase_append_right _ h, erase_cons_head]

end

end Neighbours

/-! ## No two neighbours of a kind -/

/-- No two adjacent elements satisfy `p`. -/
def Apart (p : α → Prop) (l : List α) : Prop := l.IsChain fun x y => ¬ (p x ∧ p y)

/-- Between neighbours that do not satisfy `p`, anything that is itself apart may be put. -/
theorem Apart.splice {p : α → Prop} {l m r : List α} (hl : Apart p l) (hr : Apart p r)
    (hm : Apart p m) (hlast : ∀ x ∈ l.getLast?, ¬ p x) (hhead : ∀ x ∈ r.head?, ¬ p x) :
    Apart p (l ++ m ++ r) := by
  unfold Apart at *
  rw [isChain_append, isChain_append]
  refine ⟨⟨hl, hm, ?_⟩, hr, ?_⟩
  · intro x hx y _ hxy
    exact hlast x hx hxy.1
  · intro x _ y hy hxy
    exact hhead y hy hxy.2

/-- The neighbours of an element that satisfies `p` do not. -/
theorem Apart.neighbours {p : α → Prop} {l r : List α} {x : α} (h : Apart p (l ++ [x] ++ r))
    (hx : p x) : (∀ y ∈ l.getLast?, ¬ p y) ∧ ∀ y ∈ r.head?, ¬ p y := by
  unfold Apart at h
  rw [isChain_append, isChain_append] at h
  refine ⟨fun y hy hpy => ?_, fun y hy hpy => ?_⟩
  · exact h.1.2.2 y hy x rfl ⟨hpy, hx⟩
  · exact h.2.2 x (by simp) y hy ⟨hx, hpy⟩

/-- If no two adjacent blocks satisfy `p`, a range that avoids the other blocks lies in one block
that satisfies `p`, and the blocks before that one end before the range does. -/
theorem Tiles.exists_of_apart {pos : α → ℕ × ℕ} {p : α → Prop} {l : List α} {a b lo hi : ℕ}
    (h : Tiles pos a l b) (hp : Apart p l) (hlo : a ≤ lo) (hlt : lo < hi) (hhi : hi ≤ b)
    (hfree : ∀ x ∈ l, ¬ p x → hi ≤ (pos x).1 ∨ (pos x).1 + (pos x).2 ≤ lo) :
    ∃ m x r, l = m ++ x :: r ∧ p x ∧ (pos x).1 ≤ lo ∧ hi ≤ (pos x).1 + (pos x).2 ∧
      ∀ y ∈ m, (pos y).1 + (pos y).2 < hi := by
  induction l generalizing a with
  | nil =>
    have hab : a = b := h
    omega
  | cons x l ih =>
    have hx : (pos x).1 = a := h.1
    by_cases hend : hi ≤ a + (pos x).2
    · -- the range ends in this block, so the block satisfies `p`
      refine ⟨[], x, l, rfl, ?_, by omega, by omega, forall_mem_nil _⟩
      by_contra hnot
      have hx := hfree x mem_cons_self hnot
      omega
    · have hstart : a + (pos x).2 ≤ lo := by
        by_contra hin
        -- the range goes on into the next block, and one of the two does not satisfy `p`
        cases l with
        | nil =>
          have hab : a + (pos x).2 = b := h.2.2
          omega
        | cons y l =>
          have hy : (pos y).1 = a + (pos x).2 := h.2.2.1
          have hfx := hfree x mem_cons_self
          have hfy := hfree y (mem_cons_of_mem x mem_cons_self)
          refine (isChain_cons_cons.mp hp).1 ⟨?_, ?_⟩
          · by_contra hnot
            have hfx := hfx hnot
            omega
          · by_contra hnot
            have hfy := hfy hnot
            omega
      obtain ⟨m, z, r, rfl, hz, hle, hge, hm⟩ :=
        ih h.2.2 hp.tail hstart fun y hy => hfree y (mem_cons_of_mem x hy)
      refine ⟨x :: m, z, r, rfl, hz, hle, hge, fun y hy => ?_⟩
      rcases mem_cons.mp hy with rfl | hy
      · omega
      · exact hm y hy

lemma Apart.congr {p p' : α → Prop} {l : List α} (h : Apart p l)
    (himp : ∀ x ∈ l, p' x → p x) : Apart p' l := by
  unfold Apart at *
  induction l with
  | nil => exact .nil
  | cons x l ih =>
    rw [isChain_cons] at h ⊢
    refine ⟨fun y hy hxy => h.1 y hy ⟨?_, ?_⟩, ih h.2 fun z hz => himp z (mem_cons_of_mem x hz)⟩
    · exact himp x mem_cons_self hxy.1
    · exact himp y (mem_cons_of_mem x (mem_of_mem_head? hy)) hxy.2

end RadvXclipse.Lib
