import Mathlib.Data.Fintype.Card
import Mathlib.Order.WellFounded

/-!
# Dominance in a graph with an entry

`Path edge start v l`: the nodes `l`, last one first, lead from `start` to `v`. `a` dominates `b` if
it is on every path to `b`. If the nodes are ordered, an edge retreats if it does not go up;
`DominatesWithin k` looks only at the paths with fewer than `k` such edges, and for large `k` it is
dominance.
-/

namespace RadvXclipse.Lib

open List

variable {V : Type*}

/-- A path from `start`, last node first. -/
inductive Path (edge : V → V → Prop) (start : V) : V → List V → Prop
  | start : Path edge start start [start]
  | snoc {u v : V} {l : List V} : Path edge start u l → edge u v → Path edge start v (v :: l)

section Definitions

variable (edge : V → V → Prop) (start : V)

/-- There is a path to the node. -/
def Reachable (b : V) : Prop := ∃ l, Path edge start b l

/-- Every path to `b` passes through `a`. -/
def Dominates (a b : V) : Prop := ∀ l, Path edge start b l → a ∈ l

/-- `a` dominates `b` and is another node. -/
def StrictlyDominates (a b : V) : Prop := Dominates edge start a b ∧ a ≠ b

/-- The strict dominator that all others dominate. -/
def ImmediatelyDominates (a b : V) : Prop :=
  StrictlyDominates edge start a b ∧ ∀ d, StrictlyDominates edge start d b → Dominates edge start d a

/-- The dominance frontier of `a`: `a` dominates a predecessor of `b` that can be reached, and does
not strictly dominate `b`. -/
def InFrontier (a b : V) : Prop :=
  (∃ p, edge p b ∧ Reachable edge start p ∧ Dominates edge start a p) ∧ ¬ StrictlyDominates edge start a b

end Definitions

section Paths

variable {edge : V → V → Prop} {start a b u v : V} {l : List V}

section

variable (h : Path edge start v l)
include h

lemma Path.mem : v ∈ l := by
  cases h with
  | start => exact mem_cons_self
  | snoc _ _ => exact mem_cons_self

lemma Path.eq_cons : ∃ l', l = v :: l' := by
  cases h with
  | start => exact ⟨[], rfl⟩
  | snoc _ _ => exact ⟨_, rfl⟩

lemma Path.start_mem : start ∈ l := by
  induction h with
  | start => exact mem_cons_self
  | snoc _ _ ih => exact mem_cons_of_mem _ ih

/-- The part of a path up to a node on it. -/
theorem Path.upTo (hu : u ∈ l) : ∃ l', Path edge start u l' ∧ l' <:+ l := by
  induction h with
  | start =>
    rw [mem_singleton] at hu
    subst hu
    exact ⟨_, .start, suffix_refl _⟩
  | snoc h he ih =>
    rcases mem_cons.mp hu with rfl | hu
    · exact ⟨_, h.snoc he, suffix_refl _⟩
    · obtain ⟨l', hl', hsuffix⟩ := ih hu
      exact ⟨l', hl', hsuffix.trans (suffix_cons _ _)⟩

/-- A path without cycles. -/
theorem Path.exists_nodup : ∃ l', Path edge start v l' ∧ l'.Nodup ∧ l' ⊆ l := by
  induction h with
  | start => exact ⟨_, .start, nodup_singleton _, fun _ hx => hx⟩
  | @snoc u v l _ he ih =>
    obtain ⟨l', hl', hnodup, hsub⟩ := ih
    by_cases hv : v ∈ l'
    · obtain ⟨l'', hl'', hsuffix⟩ := hl'.upTo hv
      refine ⟨l'', hl'', hsuffix.sublist.nodup hnodup, ?_⟩
      intro x hx
      exact mem_cons_of_mem _ (hsub (hsuffix.subset hx))
    · exact ⟨v :: l', hl'.snoc he, nodup_cons.mpr ⟨hv, hnodup⟩, cons_subset_cons v hsub⟩

end

lemma reachable_start : Reachable edge start start := ⟨_, .start⟩

theorem Reachable.step (h : Reachable edge start u) (he : edge u v) : Reachable edge start v := by
  obtain ⟨l, hl⟩ := h
  exact ⟨_, hl.snoc he⟩

lemma dominates_refl (a : V) : Dominates edge start a a := fun _ h => h.mem

lemma dominates_start_iff : Dominates edge start a start ↔ a = start := by
  constructor
  · intro h
    exact mem_singleton.mp (h _ .start)
  · rintro rfl
    exact dominates_refl _

theorem Dominates.reachable (h : Dominates edge start a b) (hb : Reachable edge start b) :
    Reachable edge start a := by
  obtain ⟨l, hl⟩ := hb
  obtain ⟨l', hl', -⟩ := hl.upTo (h l hl)
  exact ⟨l', hl'⟩

/-- A strict dominator dominates the predecessors. -/
theorem StrictlyDominates.pred {p : V} (h : StrictlyDominates edge start a b) (he : edge p b) :
    Dominates edge start a p := by
  intro l hl
  rcases mem_cons.mp (h.1 _ (hl.snoc he)) with heq | hmem
  · exact absurd heq h.2
  · exact hmem

end Paths

/-! ## Ordered nodes -/

section Ordered

variable [LinearOrder V]

/-- Every node but the first has a predecessor below it. -/
def Ordered (edge : V → V → Prop) (start : V) : Prop :=
  ∀ b, Reachable edge start b → b ≠ start → ∃ p, edge p b ∧ Reachable edge start p ∧ p < b

/-- The edges of a path that do not go up. -/
def retreats : List V → ℕ
  | v :: u :: l => retreats (u :: l) + if u < v then 0 else 1
  | _ => 0

/-- Every path to `b` with fewer than `k` retreating edges passes through `a`. -/
def DominatesWithin (edge : V → V → Prop) (start : V) (k : ℕ) (a b : V) : Prop :=
  ∀ l, Path edge start b l → retreats l < k → a ∈ l

variable {edge : V → V → Prop} {start a b : V} {k : ℕ}

section Order

variable [WellFoundedLT V] (h : Ordered edge start) (hb : Reachable edge start b)
include h hb

/-- A path along which the nodes go up. -/
theorem Ordered.exists_path : ∃ l, Path edge start b l ∧ ∀ x ∈ l, x ≤ b := by
  induction b using WellFoundedLT.induction with
  | ind b ih =>
    by_cases hne : b = start
    · subst hne
      exact ⟨_, .start, fun x hx => (mem_singleton.mp hx).le⟩
    · obtain ⟨p, he, hp, hlt⟩ := h b hb hne
      obtain ⟨l, hl, hle⟩ := ih p hlt hp
      refine ⟨b :: l, hl.snoc he, ?_⟩
      exact forall_mem_cons.mpr ⟨le_rfl, fun x hx => (hle x hx).trans hlt.le⟩

/-- Dominators come first. -/
theorem Ordered.le_of_dominates (hdom : Dominates edge start a b) : a ≤ b := by
  obtain ⟨l, hl, hle⟩ := h.exists_path hb
  exact hle a (hdom l hl)

lemma Ordered.dominates_antisymm (hab : Dominates edge start a b) (hba : Dominates edge start b a) : a = b :=
  le_antisymm (h.le_of_dominates hb hab) (h.le_of_dominates (hab.reachable hb) hba)

end Order

lemma retreats_cons_le (v : V) (l : List V) : retreats l ≤ retreats (v :: l) := by
  cases l with
  | nil => exact le_refl 0
  | cons u l => exact Nat.le_add_right _ _

lemma retreats_le_of_suffix {l l' : List V} (h : l' <:+ l) : retreats l' ≤ retreats l := by
  obtain ⟨t, rfl⟩ := h
  induction t with
  | nil => exact le_refl _
  | cons v t ih => exact ih.trans (retreats_cons_le v (t ++ l'))

lemma retreats_lt_length {l : List V} (h : l ≠ []) : retreats l < l.length := by
  induction l with
  | nil => exact absurd rfl h
  | cons v l ih =>
    cases l with
    | nil => exact Nat.zero_lt_one
    | cons u l =>
      have hlt := ih (cons_ne_nil u l)
      rw [retreats, length_cons]
      split
      · omega
      · omega

lemma dominatesWithin_refl (k : ℕ) (a : V) : DominatesWithin edge start k a a := fun _ h _ => h.mem

lemma DominatesWithin.trans {c : V} (h : DominatesWithin edge start k a b)
    (h' : DominatesWithin edge start k b c) :
    DominatesWithin edge start k a c := by
  intro l hl hk
  obtain ⟨l', hl', hsuffix⟩ := hl.upTo (h' l hl hk)
  exact hsuffix.subset (h l' hl' (lt_of_le_of_lt (retreats_le_of_suffix hsuffix) hk))

lemma DominatesWithin.mono {k' : ℕ} (h : DominatesWithin edge start k' a b) (hk : k ≤ k') :
    DominatesWithin edge start k a b := fun l hl hlt => h l hl (lt_of_lt_of_le hlt hk)

/-- What dominates all predecessors, the ones that retreat with one edge less, dominates the
node. -/
theorem DominatesWithin.of_preds (hne : b ≠ start)
    (hup : ∀ p, edge p b → Reachable edge start p → p < b → DominatesWithin edge start (k + 1) a p)
    (hback : ∀ p, edge p b → Reachable edge start p → ¬ p < b → DominatesWithin edge start k a p) :
    DominatesWithin edge start (k + 1) a b := by
  intro l hl hk
  cases hl with
  | start => exact absurd rfl hne
  | @snoc p _ l hl he =>
    obtain ⟨l', rfl⟩ := hl.eq_cons
    rw [retreats] at hk
    apply mem_cons_of_mem
    by_cases hlt : p < b
    · rw [if_pos hlt] at hk
      exact hup p he ⟨_, hl⟩ hlt _ hl hk
    · rw [if_neg hlt] at hk
      exact hback p he ⟨_, hl⟩ hlt _ hl (by omega)

/-- Paths without cycles are enough. -/
theorem DominatesWithin.dominates [Fintype V] (h : DominatesWithin edge start k a b)
    (hk : Fintype.card V ≤ k) :
    Dominates edge start a b := by
  intro l hl
  obtain ⟨l', hl', hnodup, hsub⟩ := hl.exists_nodup
  have hlen : l'.length ≤ Fintype.card V := hnodup.length_le_card
  have hlt := retreats_lt_length (ne_nil_of_mem hl'.mem)
  exact hsub (h l' hl' (by omega))

end Ordered

/-! ## Depth-first search -/

section DepthFirst

variable (edge : V → V → Prop)

/-- `DepthFirst edge seen todo out`: a search that has seen some nodes visits `todo` and leaves the
nodes `out`, in this order. The successors of a node are visited in any order. -/
inductive DepthFirst : List V → List V → List V → Prop
  | nil (seen : List V) : DepthFirst seen [] []
  | skip {seen todo out : List V} {v : V} :
      v ∈ seen → DepthFirst seen todo out → DepthFirst seen (v :: todo) out
  | visit {seen todo succs out out' : List V} {v : V} :
      v ∉ seen → (∀ w, w ∈ succs ↔ edge v w) → DepthFirst (v :: seen) succs out →
      DepthFirst (out ++ v :: seen) todo out' → DepthFirst seen (v :: todo) (out ++ v :: out')

variable {edge}

variable {seen todo out : List V} {start : V}

/-- A node seen during a search is left by it, or was seen before. -/
theorem mem_of_inner {out' : List V} {x y : V} (h : y ∈ out ∨ y ∈ x :: seen) :
    y ∈ out ++ x :: out' ∨ y ∈ seen := by
  rcases h with hout | hcons
  · exact .inl (mem_append_left _ hout)
  · rcases mem_cons.mp hcons with rfl | hseen
    · exact .inl (mem_append_right _ mem_cons_self)
    · exact .inr hseen

section

variable (h : DepthFirst edge seen todo out)
include h

/-- What is visited is left, unless it has been seen. -/
theorem DepthFirst.mem_of_todo : ∀ v ∈ todo, v ∈ out ∨ v ∈ seen := by
  induction h with
  | nil => exact forall_mem_nil _
  | skip hv _ ih =>
    exact forall_mem_cons.mpr ⟨.inr hv, ih⟩
  | visit _ _ _ _ _ ih' =>
    intro w hw
    rcases mem_cons.mp hw with rfl | hw
    · exact .inl (mem_append_right _ mem_cons_self)
    · rcases ih' w hw with hout | hseen
      · exact .inl (mem_append_right _ (mem_cons_of_mem _ hout))
      · exact mem_of_inner (mem_append.mp hseen)

/-- The successors of what is left are left, unless they have been seen. -/
theorem DepthFirst.mem_of_edge : ∀ v ∈ out, ∀ w, edge v w → w ∈ out ∨ w ∈ seen := by
  induction h with
  | nil => exact forall_mem_nil _
  | skip _ _ ih => exact ih
  | @visit seen todo succs out out' x _ hsuccs h _ ih ih' =>
    intro v hv w he
    rcases mem_append.mp hv with hv | hv
    · exact mem_of_inner (ih v hv w he)
    rcases mem_cons.mp hv with rfl | hv
    · exact mem_of_inner (h.mem_of_todo w ((hsuccs w).mpr he))
    · rcases ih' v hv w he with hout | hseen
      · exact .inl (mem_append_right _ (mem_cons_of_mem _ hout))
      · exact mem_of_inner (mem_append.mp hseen)

/-- A node is left before one that has an edge to it, unless it was to be visited at first. -/
theorem DepthFirst.exists_pred [LT V] (hsorted : out.Pairwise fun a b => b < a) :
    ∀ w ∈ out, w ∈ todo ∨ ∃ v ∈ out, edge v w ∧ v < w := by
  induction h with
  | nil => exact forall_mem_nil _
  | skip _ _ ih =>
    intro w hw
    rcases ih hsorted w hw with hmem | hpred
    · exact .inl (mem_cons_of_mem _ hmem)
    · exact .inr hpred
  | @visit seen todo succs out out' x _ hsuccs _ _ ih ih' =>
    intro w hw
    obtain ⟨hsorted1, hsorted2, hbetween⟩ := pairwise_append.mp hsorted
    rcases mem_append.mp hw with hw | hw
    · right
      rcases ih hsorted1 w hw with hmem | ⟨v, hv, he, hlt⟩
      · exact ⟨x, mem_append_right _ mem_cons_self, (hsuccs w).mp hmem, hbetween w hw x mem_cons_self⟩
      · exact ⟨v, mem_append_left _ hv, he, hlt⟩
    rcases mem_cons.mp hw with rfl | hw
    · exact .inl mem_cons_self
    · rcases ih' (pairwise_cons.mp hsorted2).2 w hw with hmem | ⟨v, hv, he, hlt⟩
      · exact .inl (mem_cons_of_mem _ hmem)
      · exact .inr ⟨v, mem_append_right _ (mem_cons_of_mem _ hv), he, hlt⟩

/-- What is left can be reached if what is to be visited can. -/
theorem DepthFirst.reachable (htodo : ∀ v ∈ todo, Reachable edge start v) :
    ∀ v ∈ out, Reachable edge start v := by
  induction h with
  | nil => exact forall_mem_nil _
  | skip _ _ ih => exact ih fun v hv => htodo v (mem_cons_of_mem _ hv)
  | @visit seen todo succs out out' x _ hsuccs _ _ ih ih' =>
    have hx : Reachable edge start x := htodo x mem_cons_self
    intro v hv
    rcases mem_append.mp hv with hv | hv
    · exact ih (fun w hw => hx.step ((hsuccs w).mp hw)) v hv
    rcases mem_cons.mp hv with rfl | hv
    · exact hx
    · exact ih' (fun w hw => htodo w (mem_cons_of_mem _ hw)) v hv

end

/-- The order of the nodes that can be reached is a reverse post-order: a depth-first search from
the first node leaves them from the last to the first. -/
def ReversePostOrder [LT V] (edge : V → V → Prop) (start : V) : Prop :=
  ∃ out, DepthFirst edge [] [start] out ∧ out.Pairwise fun a b => b < a

theorem ReversePostOrder.ordered [LinearOrder V] (h : ReversePostOrder edge start) : Ordered edge start := by
  obtain ⟨out, hsearch, hsorted⟩ := h
  have hout : ∀ v ∈ out, Reachable edge start v := by
    apply hsearch.reachable
    intro v hv
    rw [mem_singleton.mp hv]
    exact reachable_start
  have hmem : ∀ v l, Path edge start v l → v ∈ out := by
    intro v l hl
    induction hl with
    | start => exact (hsearch.mem_of_todo start mem_cons_self).resolve_right not_mem_nil
    | snoc _ he ih => exact (hsearch.mem_of_edge _ ih _ he).resolve_right not_mem_nil
  intro b hb hne
  obtain ⟨l, hl⟩ := hb
  rcases hsearch.exists_pred hsorted b (hmem b l hl) with htodo | ⟨p, hp, he, hlt⟩
  · exact absurd (mem_singleton.mp htodo) hne
  · exact ⟨p, he, hout p hp, hlt⟩

end DepthFirst

end RadvXclipse.Lib
