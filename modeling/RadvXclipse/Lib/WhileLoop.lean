import Mathlib.Data.List.Basic

/-!
# While loops that emit

A loop is a partial function `next`: `none` leaves the loop, `some (b, s)` emits `b` and goes on
from `s`. `loop fuel s` is what the loop has emitted when it is left, `none` if it is not left
within the fuel. A measure that falls gives enough fuel; an invariant under which the loop goes on
gives that no fuel is enough.
-/

namespace RadvXclipse.Lib

open List

variable {σ β : Type*} {next : σ → Option (β × σ)}

/-- What the loop emits. -/
def loop (next : σ → Option (β × σ)) : ℕ → σ → Option (List β)
  | 0, _ => none
  | fuel + 1, s =>
    match next s with
    | none => some []
    | some (b, t) => (loop next fuel t).map (b :: ·)

lemma loop_of_none {s : σ} (h : next s = none) (fuel : ℕ) : loop next (fuel + 1) s = some [] := by
  unfold loop
  rw [h]

lemma loop_of_some {s t : σ} {b : β} (h : next s = some (b, t)) (fuel : ℕ) :
    loop next (fuel + 1) s = (loop next fuel t).map (b :: ·) := by
  conv_lhs => unfold loop
  rw [h]

/-- A loop with an invariant and a measure is left. `W s` is what is to be made from `s` on: if each
thing that is emitted decodes to a part of it, then all of them together decode to the whole. -/
theorem exists_loop {γ δ : Type*} {I : σ → Prop} {D : β → Option γ} {P : γ → Prop} {F : γ → List δ}
    {W : σ → List δ} (measure : σ → ℕ) (hstop : ∀ s, I s → next s = none → W s = [])
    (hgo : ∀ s b t, I s → next s = some (b, t) →
      I t ∧ measure t < measure s ∧ ∃ c, D b = some c ∧ P c ∧ F c ++ W t = W s)
    {s : σ} (hs : I s) : ∃ fuel l, ∃ cs : List γ, loop next fuel s = some l ∧
      l.map D = cs.map some ∧ (∀ c ∈ cs, P c) ∧ cs.flatMap F = W s := by
  induction hm : measure s using Nat.strongRecOn generalizing s with
  | ind m ih =>
    cases hn : next s with
    | none => exact ⟨1, [], [], loop_of_none hn 0, rfl, by simp, (hstop s hs hn).symm⟩
    | some p =>
      obtain ⟨b, t⟩ := p
      obtain ⟨ht, hlt, c, hc, hP, hW⟩ := hgo s b t hs hn
      obtain ⟨fuel, l, cs, hl, hD, hall, hrest⟩ := ih _ (hm ▸ hlt) ht rfl
      refine ⟨fuel + 1, b :: l, c :: cs, ?_, ?_, forall_mem_cons.mpr ⟨hP, hall⟩, ?_⟩
      · rw [loop_of_some hn, hl, Option.map_some]
      · rw [map_cons, map_cons, hc, hD]
      · rw [flatMap_cons, hrest, hW]

/-- A loop that goes on under an invariant is never left. -/
theorem loop_eq_none {I : σ → Prop} (hgo : ∀ s, I s → ∃ b t, next s = some (b, t) ∧ I t) (fuel : ℕ)
    {s : σ} (hs : I s) : loop next fuel s = none := by
  induction fuel generalizing s with
  | zero => rfl
  | succ fuel ih =>
    obtain ⟨b, t, hn, ht⟩ := hgo s hs
    rw [loop_of_some hn, ih ht, Option.map_none]

end RadvXclipse.Lib
