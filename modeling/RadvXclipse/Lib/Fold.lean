import Mathlib.Data.List.Basic

/-!
# Loops over a list

What a left fold keeps, and what one of its iterations establishes for good; and the same for
loops whose iterations can fail.
-/

namespace RadvXclipse.Lib

open List

variable {σ α : Type*} {f : σ → α → σ} {P : σ → Prop} {s : σ} {l : List α}

/-- What every iteration keeps holds at the end. -/
theorem foldl_invariant (hs : P s) (hstep : ∀ a ∈ l, ∀ s, P s → P (f s a)) : P (l.foldl f s) := by
  induction l generalizing s with
  | nil => exact hs
  | cons a l ih =>
    apply ih
    · exact hstep a mem_cons_self s hs
    · intro b hb
      exact hstep b (mem_cons_of_mem a hb)

/-- What one iteration establishes and the others keep holds at the end. -/
theorem foldl_of_mem {I : σ → Prop} (hI : I s) (hIstep : ∀ a ∈ l, ∀ s, I s → I (f s a)) {a : α}
    (ha : a ∈ l) (hset : ∀ s, I s → P (f s a)) (hstep : ∀ b ∈ l, ∀ s, I s → P s → P (f s b)) :
    P (l.foldl f s) := by
  induction l generalizing s with
  | nil => exact absurd ha not_mem_nil
  | cons b l ih =>
    have hIs : I (f s b) := hIstep b mem_cons_self s hI
    have hIstep' : ∀ c ∈ l, ∀ s, I s → I (f s c) := fun c hc => hIstep c (mem_cons_of_mem b hc)
    have hstep' : ∀ c ∈ l, ∀ s, I s → P s → P (f s c) := fun c hc => hstep c (mem_cons_of_mem b hc)
    rcases mem_cons.mp ha with rfl | ha
    · have hboth : I (l.foldl f (f s a)) ∧ P (l.foldl f (f s a)) := by
        apply foldl_invariant (P := fun s => I s ∧ P s) ⟨hIs, hset s hI⟩
        intro c hc s hs
        exact ⟨hIstep' c hc s hs.1, hstep' c hc s hs.1 hs.2⟩
      exact hboth.2
    · exact ih hIs hIstep' ha hstep'

section Fallible

universe u

variable {ε : Type*} {α β σ : Type u} {l : List α} {s t : σ} {P : σ → Prop}

/-- A sequence of two computations succeeds if both do. -/
theorem bind_eq_ok {x : Except ε α} {f : α → Except ε β} {b : β} :
    (x >>= f) = .ok b ↔ ∃ a, x = .ok a ∧ f a = .ok b := by
  cases x with
  | error e => simp [bind, Except.bind]
  | ok a => simp [bind, Except.bind]

/-- What every successful iteration keeps holds after a loop that succeeds. -/
theorem foldlM_invariant {f : σ → α → Except ε σ} (h : l.foldlM f s = .ok t) (hs : P s)
    (hstep : ∀ a ∈ l, ∀ s s', f s a = .ok s' → P s → P s') : P t := by
  induction l generalizing s with
  | nil =>
    cases h
    exact hs
  | cons a l ih =>
    rw [foldlM_cons, bind_eq_ok] at h
    obtain ⟨s', ha, hl⟩ := h
    apply ih hl
    · exact hstep a mem_cons_self s s' ha hs
    · intro b hb
      exact hstep b (mem_cons_of_mem a hb)

end Fallible

/-- A loop that does not fail. The invariant is about the part of the list that is done. -/
theorem exists_foldlM {f : σ → α → Option σ} {I : List α → σ → Prop}
    (hstep : ∀ done a rest s, l = done ++ a :: rest → I done s → ∃ t, f s a = some t ∧ I (done ++ [a]) t) (hs : I [] s) :
    ∃ t, l.foldlM f s = some t ∧ I l t := by
  suffices h : ∀ rest done s, l = done ++ rest → I done s → ∃ t, rest.foldlM f s = some t ∧
      I l t from h l [] s rfl hs
  intro rest
  induction rest with
  | nil =>
    intro done s hl hs
    rw [append_nil] at hl
    exact ⟨s, rfl, hl ▸ hs⟩
  | cons a rest ih =>
    intro done s hl hs
    obtain ⟨t, ht, hI⟩ := hstep done a rest s hl hs
    obtain ⟨u, hu, hIu⟩ := ih (done ++ [a]) t (by rw [hl, append_assoc, singleton_append]) hI
    exact ⟨u, by rw [foldlM_cons, ht]; exact hu, hIu⟩

/-- The same for the numbers below `n`. -/
theorem exists_foldlM_finRange {n : ℕ} {f : σ → Fin n → Option σ} {I : ℕ → σ → Prop}
    (hstep : ∀ (i : Fin n) s, I i s → ∃ t, f s i = some t ∧ I (i + 1) t) (hs : I 0 s) :
    ∃ t, (finRange n).foldlM f s = some t ∧ I n t := by
  have h := exists_foldlM (l := finRange n) (f := f) (I := fun done s => I done.length s) (s := s) (by
    intro done a rest t hl ht
    have hlen : done.length < n := by
      have hn := congrArg List.length hl
      rw [length_finRange, length_append, length_cons] at hn
      omega
    have ha : (a : ℕ) = done.length := by
      have hget : (finRange n)[done.length]? = some a := by
        rw [hl, getElem?_append_right (Nat.le_refl _), Nat.sub_self, getElem?_cons_zero]
      rw [getElem?_eq_getElem (by rw [length_finRange]; exact hlen), getElem_finRange] at hget
      rw [← Option.some.inj hget]
      rfl
    rw [length_append, length_singleton, ← ha]
    exact hstep a t (ha ▸ ht)) hs
  rwa [length_finRange] at h

end RadvXclipse.Lib
