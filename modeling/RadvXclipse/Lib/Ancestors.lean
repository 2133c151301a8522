import Mathlib.Order.WellFounded

/-!
# Ancestors

A partial function `parent` makes a forest, or more: a root may be its own parent. `Ancestor parent
a b` says that `a` is `b` or is met on the way up from `b`.
-/

namespace RadvXclipse.Lib

variable {V : Type*} {parent : V → Option V} {a b c : V}

/-- `a` is `b`, or an ancestor of its parent. -/
def Ancestor (parent : V → Option V) (a b : V) : Prop :=
  Relation.ReflTransGen (fun x y => parent x = some y) b a

lemma Ancestor.refl (a : V) : Ancestor parent a a := Relation.ReflTransGen.refl

lemma Ancestor.trans (h : Ancestor parent a b) (h' : Ancestor parent b c) : Ancestor parent a c :=
  Relation.ReflTransGen.trans h' h

theorem Ancestor.up (hb : parent b = some c) (h : Ancestor parent a c) : Ancestor parent a b :=
  Relation.ReflTransGen.head hb h

lemma ancestor_parent (hb : parent b = some a) : Ancestor parent a b := .up hb (.refl a)

theorem Ancestor.cases (h : Ancestor parent a b) : a = b ∨ ∃ c, parent b = some c ∧ Ancestor parent a c := by
  rcases Relation.ReflTransGen.cases_head h with rfl | ⟨c, hc, hac⟩
  · exact .inl rfl
  · exact .inr ⟨c, hc, hac⟩

/-- An induction from the lower end. -/
theorem Ancestor.rec_up {P : V → Prop} (h : Ancestor parent a b) (hself : P a)
    (hup : ∀ x y, parent x = some y → Ancestor parent a y → P y → P x) : P b := by
  induction h using Relation.ReflTransGen.head_induction_on with
  | refl => exact hself
  | head hxy hya ih => exact hup _ _ hxy hya ih

/-- A relation that holds between every node and its parent, and is transitive. -/
theorem Ancestor.lift {R : V → V → Prop} (hrefl : ∀ x, R x x) (htrans : ∀ x y z, R x y → R y z → R x z)
    (h : Ancestor parent a b)
    (hparent : ∀ x y, Ancestor parent a x → Ancestor parent x b → parent x = some y → R y x) :
    R a b := by
  suffices hall : ∀ x, Ancestor parent a x → Ancestor parent x b → R a x from hall b h (.refl b)
  intro x hax
  apply Ancestor.rec_up (P := fun x => Ancestor parent x b → R a x) hax
  · exact fun _ => hrefl a
  · intro y z hyz haz ih hyb
    exact htrans a z y (ih ((ancestor_parent hyz).trans hyb)) (hparent y z (.up hyz haz) hyb hyz)

/-- Two ancestors of a node are on one way up. -/
theorem Ancestor.total (ha : Ancestor parent a c) (hb : Ancestor parent b c) :
    Ancestor parent a b ∨ Ancestor parent b a := by
  have hunique : Relator.RightUnique fun x y => parent x = some y := by
    intro x y z hy hz
    exact Option.some.inj (hy.symm.trans hz)
  rcases Relation.ReflTransGen.total_of_right_unique hunique ha hb with h | h
  · exact .inr h
  · exact .inl h

lemma Ancestor.le [Preorder V] (h : Ancestor parent a b) (hle : ∀ x y, parent x = some y → y ≤ x) : a ≤ b :=
  h.lift (fun x => le_refl x) (fun _ _ _ => le_trans) fun x y _ _ => hle x y

end RadvXclipse.Lib
