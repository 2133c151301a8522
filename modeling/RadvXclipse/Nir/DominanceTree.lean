import Mathlib.Data.Finset.Union
import RadvXclipse.Nir.DominanceLoop

/-!
# Frontiers and indices of the dominance tree

With the tree of `Nir/DominanceLoop.lean`, the walks of `calc_dom_frontier` go through the blocks
that dominate a predecessor and do not strictly dominate the block, and `calc_dfs_indices` gives
every block an interval of indices that holds the intervals of the blocks below it and is disjoint
from all others.
-/

namespace RadvXclipse.Nir.Cfg

open Lib Util List Function
open Finset hiding mem_singleton filter_cons_of_pos

variable {g : Cfg}

/-! ## Dominance frontiers -/

section Frontier

variable {immDom : g.ImmDom} {block : g.Block}

/-- The way up from a block, without the ancestors of `top`. -/
theorem frontierWalk_spec (h : TreeInv immDom) {top : g.Block} (htop : immDom block = some top) {fuel : ℕ}
    {runner : g.Block} (hrunner : Ancestor immDom top runner) (hfuel : (runner : ℕ) < fuel)
    (frontier : g.DomFrontier) :
    ∃ t, frontierWalk immDom block fuel (some runner) frontier = some t ∧
      ∀ a c, c ∈ t a ↔ c ∈ frontier a ∨ (c = block ∧ Ancestor immDom a runner ∧ ¬ Ancestor immDom a top) := by
  induction fuel generalizing runner frontier with
  | zero => omega
  | succ fuel ih =>
    unfold frontierWalk
    rw [htop]
    by_cases hne : some runner ≠ some top
    · rw [if_pos hne, Option.bind_some]
      have hne' : top ≠ runner := fun heq => hne (heq ▸ rfl)
      rcases hrunner.cases with heq | ⟨next, hnext, hanc⟩
      · exact absurd heq hne'
      have hnot : ¬ Ancestor immDom runner top := fun hanc' =>
        hne' (le_antisymm (h.ancestor_le hrunner) (h.ancestor_le hanc'))
      have hlt : (next : ℕ) < runner := by
        apply h.lt runner next hnext
        intro hzero
        rw [hzero] at hrunner hne'
        exact hne' (h.ancestor_start hrunner)
      obtain ⟨t, ht, hmem⟩ := ih hanc (by omega) _
      refine ⟨t, by rw [hnext, ht], ?_⟩
      intro a c
      rw [hmem]
      by_cases har : a = runner
      · subst har
        rw [update_self, mem_insert]
        constructor
        · rintro ((hc | hc) | hc)
          · exact .inr ⟨hc, .refl a, hnot⟩
          · exact .inl hc
          · exact .inr ⟨hc.1, hc.2.1.up hnext, hc.2.2⟩
        · rintro (hc | hc)
          · exact .inl (.inr hc)
          · exact .inl (.inl hc.1)
      · rw [update_of_ne har]
        have hiff : Ancestor immDom a runner ↔ Ancestor immDom a next := by
          constructor
          · intro hanc'
            rcases hanc'.cases with heq | ⟨next', hnext', hanc'⟩
            · exact absurd heq har
            · rw [hnext] at hnext'
              exact Option.some.inj hnext' ▸ hanc'
          · exact fun hanc' => hanc'.up hnext
        rw [hiff]
    · rw [if_neg hne]
      rw [not_not] at hne
      rw [Option.some.inj hne]
      exact ⟨frontier, rfl, fun a c => ⟨.inl, fun hc => hc.resolve_right fun hc => hc.2.2 hc.2.1⟩⟩

section

variable (h : Fixpoint immDom)
include h

/-- A strict dominator is an ancestor of `imm_dom`. -/
theorem Fixpoint.strictlyDominates_iff {a b top : g.Block} (hb : b ≠ 0) (htop : immDom b = some top) :
    StrictlyDominates g.edge 0 a b ↔ Ancestor immDom a top := by
  have hreach : Reachable g.edge 0 top := h.tree.reachable top (h.tree.parent b top htop)
  constructor
  · intro hab
    exact h.ancestor_of_dominates hreach (h.tree.keeps b top a htop hab)
  · intro hanc
    refine ⟨h.dominates_of_ancestor (hanc.trans (ancestor_parent htop)), ?_⟩
    exact (lt_of_le_of_lt (h.tree.ancestor_le hanc) (h.tree.lt b top htop hb)).ne

/-- A block in a frontier has an `imm_dom`. -/
theorem Fixpoint.exists_immDom {p : g.Block} (he : g.edge p block) (hp : Reachable g.edge 0 p) :
    block ≠ 0 ∧ ∃ top, immDom block = some top ∧ Ancestor immDom top p := by
  have hb : block ≠ 0 := by
    rintro rfl
    unfold edge at he
    rw [g.preds_start] at he
    exact not_mem_nil he
  obtain ⟨top, htop⟩ := Option.ne_none_iff_exists'.mp (h.done block (hp.step he))
  exact ⟨hb, top, htop, ((h.meet block hb).meet top htop).ancestor p he (h.done p hp)⟩

/-- A block with one predecessor is in no frontier. -/
theorem Fixpoint.not_inFrontier {a : g.Block} (hlen : ¬ (g.preds block).length > 1) :
    ¬ InFrontier g.edge 0 a block := by
  rintro ⟨⟨p, he, hp, hap⟩, hnot⟩
  obtain ⟨hb, top, htop, htopp⟩ := h.exists_immDom he hp
  have hsingle : g.preds block = [p] := by
    have hpos := length_pos_of_mem (show p ∈ g.preds block from he)
    obtain ⟨q, hq⟩ := length_eq_one_iff.mp (show (g.preds block).length = 1 by omega)
    unfold edge at he
    rw [hq, mem_singleton] at he
    rw [hq, he]
  -- the only way to the block is through `p`
  have hdom : StrictlyDominates g.edge 0 p block := by
    refine ⟨?_, ?_⟩
    · intro l hl
      cases hl with
      | start => exact absurd rfl hb
      | snoc hl he' =>
        unfold edge at he'
        rw [hsingle, mem_singleton] at he'
        exact mem_cons_of_mem _ (he' ▸ hl.mem)
    · rintro rfl
      obtain ⟨l, hl⟩ := hp
      obtain ⟨l', hl', hnodup, -⟩ := hl.exists_nodup
      cases hl' with
      | start => exact hb rfl
      | snoc hl' he' =>
        unfold edge at he'
        rw [hsingle, mem_singleton] at he'
        exact (nodup_cons.mp hnodup).1 (he' ▸ hl'.mem)
  apply hnot
  rw [h.strictlyDominates_iff hb htop] at hdom ⊢
  exact (h.ancestor_of_dominates hp hap).trans hdom

lemma calcDomFrontier_spec (frontier : g.DomFrontier) (block : g.Block) :
    ∃ t, calcDomFrontier immDom frontier block = some t ∧
      ∀ a c, c ∈ t a ↔ c ∈ frontier a ∨ (c = block ∧ InFrontier g.edge 0 a block) := by
  unfold calcDomFrontier
  by_cases hlen : (g.preds block).length > 1
  · rw [if_pos hlen]
    rcases exists_foldlM (l := g.preds block) (f := fun frontier runner =>
        if immDom runner = none then some frontier
        else frontierWalk immDom block g.fuel (some runner) frontier)
      (I := fun done t => ∀ a c, c ∈ t a ↔ c ∈ frontier a ∨
        (c = block ∧ (∃ p ∈ done, Reachable g.edge 0 p ∧ Dominates g.edge 0 a p) ∧
          ¬ StrictlyDominates g.edge 0 a block)) (s := frontier) (by
      intro done p rest s hl hs
      have he : g.edge p block := by
        unfold edge
        rw [hl]
        exact mem_append_right _ mem_cons_self
      by_cases hnone : immDom p = none
      · have hnot : ¬ Reachable g.edge 0 p := fun hp => h.done p hp hnone
        refine ⟨s, if_pos hnone, ?_⟩
        intro a c
        rw [hs]
        simp only [mem_append, mem_singleton, or_and_right, exists_or, exists_eq_left, hnot,
          false_and, or_false]
      · have hp := h.tree.reachable p hnone
        obtain ⟨hb, top, htop, htopp⟩ := h.exists_immDom he hp
        obtain ⟨t, ht, hmem⟩ :=
          frontierWalk_spec h.tree htop htopp (show (p : ℕ) < g.fuel from Nat.lt_succ_of_lt p.isLt) s
        refine ⟨t, (if_neg hnone).trans ht, ?_⟩
        intro a c
        rw [hmem, hs, h.ancestor_iff hp, ← h.strictlyDominates_iff hb htop]
        simp only [mem_append, mem_singleton, or_and_right, exists_or, exists_eq_left, hp, true_and,
          and_or_left, or_assoc])
      (fun a c => by
        simp only [not_mem_nil, false_and, exists_false, and_false, or_false]) with ⟨t, ht, hmem⟩
    exact ⟨t, ht, hmem⟩
  · rw [if_neg hlen]
    exact ⟨frontier, rfl, fun a c => ⟨.inl, fun hc => hc.resolve_right fun hc => h.not_inFrontier hlen hc.2⟩⟩

lemma domFrontier_spec :
    ∃ t, ((finRange (g.last + 1)).foldlM (calcDomFrontier immDom) fun _ => ∅) = some t ∧
      ∀ a c, c ∈ t a ↔ InFrontier g.edge 0 a c := by
  rcases exists_foldlM_finRange (n := g.last + 1) (f := calcDomFrontier immDom) (s := fun _ => ∅)
    (I := fun i t => ∀ a c, c ∈ t a ↔ (c : ℕ) < i ∧ InFrontier g.edge 0 a c) (by
    intro i s hs
    obtain ⟨t, ht, hmem⟩ := calcDomFrontier_spec h s i
    refine ⟨t, ht, ?_⟩
    intro a c
    rw [hmem, hs]
    constructor
    · rintro (hc | ⟨rfl, hc⟩)
      · exact ⟨Nat.lt_succ_of_lt hc.1, hc.2⟩
      · exact ⟨Nat.lt_succ_self _, hc⟩
    · rintro ⟨hlt, hc⟩
      rcases Nat.lt_succ_iff_lt_or_eq.mp hlt with hlt | heq
      · exact .inl ⟨hlt, hc⟩
      · have hci : c = i := Fin.val_inj.mp heq
        exact .inr ⟨hci, hci ▸ hc⟩) (fun a c => by simp) with ⟨t, ht, hmem⟩
  exact ⟨t, ht, fun a c => (hmem a c).trans ⟨fun hc => hc.2, fun hc => ⟨c.isLt, hc⟩⟩⟩

end

end Frontier

/-! ## Children -/

lemma foldl_addDomChild (immDom : g.ImmDom) (l : List g.Block) (children : g.Block → List g.Block)
    (y : g.Block) :
    l.foldl (addDomChild immDom) children y = children y ++ l.filter fun x => immDom x = some y := by
  induction l generalizing children with
  | nil => rw [foldl_nil, filter_nil, append_nil]
  | cons x l ih =>
    rw [foldl_cons, ih]
    unfold addDomChild
    cases hx : immDom x with
    | none => rw [filter_cons_of_neg (by simp [hx])]
    | some p =>
      by_cases hpy : p = y
      · subst hpy
        dsimp only
        rw [update_self, filter_cons_of_pos (by simp [hx]), append_assoc, singleton_append]
      · dsimp only
        rw [update_of_ne (Ne.symm hpy), filter_cons_of_neg (by simp [hx, hpy])]

lemma calcDomChildren_eq (immDom : g.ImmDom) (y : g.Block) :
    calcDomChildren immDom y = (finRange (g.last + 1)).filter fun x => immDom x = some y :=
  foldl_addDomChild immDom _ _ y

lemma mem_calcDomChildren {immDom : g.ImmDom} {x y : g.Block} :
    x ∈ calcDomChildren immDom y ↔ immDom x = some y := by
  rw [calcDomChildren_eq, mem_filter, decide_eq_true_iff]
  exact ⟨fun h => h.2, fun h => ⟨mem_finRange x, h⟩⟩

lemma nodup_calcDomChildren (immDom : g.ImmDom) (y : g.Block) : (calcDomChildren immDom y).Nodup := by
  rw [calcDomChildren_eq]
  exact (nodup_finRange _).filter _

/-! ## Indices -/

section Indices

variable {tree : g.ImmDom}

open Classical in
/-- The blocks that have `b` as an ancestor. -/
noncomputable def subtree (tree : g.ImmDom) (b : g.Block) : Finset g.Block := {x | Ancestor tree b x}

lemma mem_subtree {x b : g.Block} : x ∈ subtree tree b ↔ Ancestor tree b x := by
  simp [subtree]

lemma card_subtree_le (tree : g.ImmDom) (b : g.Block) : (subtree tree b).card ≤ g.last + 1 := by
  have hle := card_le_univ (subtree tree b)
  rwa [Fintype.card_fin] at hle

/-- A call has given intervals of indices to the blocks of `S`, and has kept all others. -/
structure Numbered (tree : g.ImmDom) (S : Finset g.Block) (s t : DfsIndices g) : Prop where
  index : t.index = s.index + 2 * S.card
  interval : ∀ x ∈ S, s.index ≤ t.domPreIndex x ∧ t.domPreIndex x < t.domPostIndex x ∧
    t.domPostIndex x < t.index
  frame : ∀ x ∉ S, t.domPreIndex x = s.domPreIndex x ∧ t.domPostIndex x = s.domPostIndex x
  nested : ∀ x ∈ S, ∀ y ∈ S,
    (t.domPreIndex x ≤ t.domPreIndex y ∧ t.domPostIndex y ≤ t.domPostIndex x) ↔ Ancestor tree x y

theorem Numbered.empty (s : DfsIndices g) : Numbered tree ∅ s s :=
  ⟨rfl, fun _ hx => absurd hx (notMem_empty _), fun _ _ => ⟨rfl, rfl⟩,
    fun _ hx => absurd hx (notMem_empty _)⟩

/-- Two calls for blocks of which none is an ancestor of another. -/
theorem Numbered.append {S T : Finset g.Block} {s t u : DfsIndices g} (hS : Numbered tree S s t)
    (hT : Numbered tree T t u) (hapart : ∀ x ∈ S, ∀ y ∈ T, ¬ Ancestor tree x y ∧ ¬ Ancestor tree y x) :
    Numbered tree (S ∪ T) s u := by
  have hdisj : ∀ x ∈ S, x ∉ T := fun x hx hx' => (hapart x hx x hx').1 (.refl x)
  have hkeep : ∀ x ∈ S, u.domPreIndex x = t.domPreIndex x ∧ u.domPostIndex x = t.domPostIndex x :=
    fun x hx => hT.frame x (hdisj x hx)
  have hcard : (S ∪ T).card = S.card + T.card := card_union_of_disjoint (disjoint_left.mpr hdisj)
  have hS' := hS.index
  have hT' := hT.index
  refine ⟨by omega, ?_, ?_, ?_⟩
  · intro x hx
    rcases mem_union.mp hx with hx | hx
    · have hb := hS.interval x hx
      rw [(hkeep x hx).1, (hkeep x hx).2]
      omega
    · have hb := hT.interval x hx
      omega
  · intro x hx
    rw [mem_union, not_or] at hx
    rw [(hT.frame x hx.2).1, (hT.frame x hx.2).2]
    exact hS.frame x hx.1
  · intro x hx y hy
    rcases mem_union.mp hx with hx | hx
    · rcases mem_union.mp hy with hy | hy
      · rw [(hkeep x hx).1, (hkeep x hx).2, (hkeep y hy).1, (hkeep y hy).2]
        exact hS.nested x hx y hy
      · have hx' := hS.interval x hx
        have hy' := hT.interval y hy
        rw [(hkeep x hx).2]
        exact ⟨fun hle => by omega, fun hanc => absurd hanc (hapart x hx y hy).1⟩
    · rcases mem_union.mp hy with hy | hy
      · have hx' := hT.interval x hx
        have hy' := hS.interval y hy
        rw [(hkeep y hy).1]
        exact ⟨fun hle => by omega, fun hanc => absurd hanc (hapart y hy x hx).2⟩
      · exact hT.nested x hx y hy

/-- The index before the children and the index after them. -/
theorem Numbered.wrap {S : Finset g.Block} {s t : DfsIndices g} {b : g.Block}
    (h : Numbered tree S { s with domPreIndex := update s.domPreIndex b s.index, index := s.index + 1 } t)
    (hbelow : ∀ x ∈ S, Ancestor tree b x ∧ ¬ Ancestor tree x b) :
    Numbered tree (insert b S) s
      { t with domPostIndex := update t.domPostIndex b t.index, index := t.index + 1 } := by
  have hbS : b ∉ S := fun hb => (hbelow b hb).2 (.refl b)
  have hpre : t.domPreIndex b = s.index := (h.frame b hbS).1.trans (update_self ..)
  have hpost : ∀ x ∈ S, update t.domPostIndex b t.index x = t.domPostIndex x := by
    intro x hx
    have hne : x ≠ b := fun heq => hbS (heq ▸ hx)
    rw [update_of_ne hne]
  have hindex := h.index
  have hcard := card_insert_of_notMem hbS
  dsimp only at hindex
  have hinterval := h.interval
  dsimp only at hinterval
  refine ⟨by dsimp only; omega, ?_, ?_, ?_⟩
  · intro x hx
    dsimp only
    rcases mem_insert.mp hx with rfl | hx
    · rw [update_self, hpre]
      omega
    · have hb := hinterval x hx
      rw [hpost x hx]
      omega
  · intro x hx
    rw [mem_insert, not_or] at hx
    have hframe := h.frame x hx.2
    dsimp only at hframe ⊢
    rwa [update_of_ne hx.1] at hframe ⊢
  · intro x hx y hy
    dsimp only
    rcases mem_insert.mp hx with rfl | hxS
    · rcases mem_insert.mp hy with rfl | hy
      · exact ⟨fun _ => .refl y, fun _ => ⟨le_refl _, le_refl _⟩⟩
      · have hb := hinterval y hy
        rw [update_self, hpost y hy, hpre]
        exact ⟨fun _ => (hbelow y hy).1, fun _ => ⟨by omega, by omega⟩⟩
    · rcases mem_insert.mp hy with rfl | hy
      · have hb := hinterval x hxS
        exact ⟨fun hle => by omega, fun hanc => absurd hanc (hbelow x hxS).2⟩
      · rw [hpost x hxS, hpost y hy]
        exact h.nested x hxS y hy

/-- The blocks below the children of `b`. -/
theorem subtree_eq (b : g.Block) :
    subtree tree b = insert b ((calcDomChildren tree b).toFinset.biUnion (subtree tree)) := by
  ext x
  rw [mem_subtree, mem_insert, mem_biUnion]
  constructor
  · intro hanc
    apply Ancestor.rec_up (P := fun x => x = b ∨ ∃ c ∈ (calcDomChildren tree b).toFinset,
      x ∈ subtree tree c) hanc
    · exact .inl rfl
    · rintro x y hxy - (rfl | ⟨c, hc, hy⟩)
      · exact .inr ⟨x, mem_toFinset.mpr (mem_calcDomChildren.mpr hxy), mem_subtree.mpr (.refl x)⟩
      · exact .inr ⟨c, hc, mem_subtree.mpr ((mem_subtree.mp hy).up hxy)⟩
  · rintro (rfl | ⟨c, hc, hx⟩)
    · exact .refl x
    · exact (ancestor_parent (mem_calcDomChildren.mp (mem_toFinset.mp hc))).trans (mem_subtree.mp hx)

variable (hlt : ∀ x y, tree x = some y → y < x)

include hlt

lemma ancestor_le_of_lt {a b : g.Block} (h : Ancestor tree a b) : a ≤ b :=
  h.le fun x y hxy => (hlt x y hxy).le

/-- No block below a child is an ancestor of a block below another child. -/
theorem not_ancestor_of_children {b c c' x y : g.Block} (hc : tree c = some b)
    (hc' : tree c' = some b) (hne : c ≠ c')
    (hx : Ancestor tree c x) (hy : Ancestor tree c' y) : ¬ Ancestor tree x y := by
  have hapart : ∀ c c', tree c = some b → tree c' = some b → c ≠ c' → ¬ Ancestor tree c c' := by
    intro c c' hc hc' hne hanc
    rcases hanc.cases with heq | ⟨b', hb', hanc⟩
    · exact hne heq
    · rw [hc'] at hb'
      rw [← Option.some.inj hb'] at hanc
      exact absurd (ancestor_le_of_lt hlt hanc) (not_le.mpr (hlt c b hc))
  intro hxy
  rcases (hx.trans hxy).total hy with hanc | hanc
  · exact hapart c c' hc hc' hne hanc
  · exact hapart c' c hc' hc hne.symm hanc

/-- The blocks below a child are not `b`, and are not above it. -/
theorem not_ancestor_parent {b c x : g.Block} (hc : tree c = some b) (hx : Ancestor tree c x) :
    ¬ Ancestor tree x b := by
  intro hanc
  exact absurd (ancestor_le_of_lt hlt (hx.trans hanc)) (not_le.mpr (hlt c b hc))

/-- `calc_dfs_indices` numbers the blocks below a block. The recursion goes to larger indices, so
the fuel is enough. -/
theorem calcDfsIndices_spec (fuel : ℕ) (b : g.Block) (s : DfsIndices g) (hfuel : g.last < fuel + b)
    (hindex : s.index + 2 * (subtree tree b).card ≤ uint32Max - 1) :
    ∃ t, calcDfsIndices (calcDomChildren tree) fuel b s = some t ∧ Numbered tree (subtree tree b) s t := by
  induction fuel generalizing b s with
  | zero =>
    omega
  | succ fuel ih =>
    have hself : b ∉ (calcDomChildren tree b).toFinset.biUnion (subtree tree) := by
      intro hb
      obtain ⟨c, hc, hbc⟩ := mem_biUnion.mp hb
      exact not_ancestor_parent hlt (mem_calcDomChildren.mp (mem_toFinset.mp hc))
        (mem_subtree.mp hbc) (.refl b)
    have hcard : (subtree tree b).card =
        ((calcDomChildren tree b).toFinset.biUnion (subtree tree)).card + 1 := by
      rw [subtree_eq, card_insert_of_notMem hself]
    let s1 := { s with domPreIndex := update s.domPreIndex b s.index, index := s.index + 1 }
    rcases exists_foldlM (l := calcDomChildren tree b) (s := s1)
      (f := fun s child => calcDfsIndices _ fuel child s)
      (I := fun done t => Numbered tree (done.toFinset.biUnion (subtree tree)) s1 t) (by
      intro done c rest t hl ht
      have hmem : ∀ d ∈ done ++ [c], d ∈ calcDomChildren tree b := by
        intro d hd
        rw [hl, append_cons]
        exact mem_append_left _ hd
      have hparent : ∀ d ∈ done ++ [c], tree d = some b := fun d hd => mem_calcDomChildren.mp (hmem d hd)
      have hc : tree c = some b := hparent c (mem_append_right _ mem_cons_self)
      have hnotin : c ∉ done := by
        have hnodup := nodup_calcDomChildren tree b
        rw [hl] at hnodup
        exact fun hc => disjoint_of_nodup_append hnodup hc mem_cons_self
      have hapart : ∀ x ∈ done.toFinset.biUnion (subtree tree), ∀ y ∈ subtree tree c,
          ¬ Ancestor tree x y ∧ ¬ Ancestor tree y x := by
        intro x hx y hy
        obtain ⟨d, hd, hxd⟩ := mem_biUnion.mp hx
        have hd' := mem_toFinset.mp hd
        have hdp := hparent d (mem_append_left _ hd')
        have hne : d ≠ c := fun heq => hnotin (heq ▸ hd')
        rw [mem_subtree] at hxd hy
        exact ⟨not_ancestor_of_children hlt hdp hc hne hxd hy,
          not_ancestor_of_children hlt hc hdp hne.symm hy hxd⟩
      have hunion : (done ++ [c]).toFinset.biUnion (subtree tree) =
          done.toFinset.biUnion (subtree tree) ∪ subtree tree c := by
        rw [toFinset_append, union_biUnion, toFinset_cons, toFinset_nil, insert_empty,
          singleton_biUnion]
      -- the indices that this child and the children before it take
      have hle : (done.toFinset.biUnion (subtree tree)).card + (subtree tree c).card ≤
          ((calcDomChildren tree b).toFinset.biUnion (subtree tree)).card := by
        rw [← card_union_of_disjoint (disjoint_left.mpr fun x hx hx' => (hapart x hx x hx').1 (.refl x)),
          ← hunion]
        apply card_le_card
        apply biUnion_subset_biUnion_of_subset_left
        intro d hd
        exact mem_toFinset.mpr (hmem d (mem_toFinset.mp hd))
      have htindex := ht.index
      have hbc : (b : ℕ) < c := hlt c b hc
      dsimp only [s1] at htindex
      obtain ⟨u, hu, hnum⟩ := ih c t (by omega) (by omega)
      refine ⟨u, hu, ?_⟩
      rw [hunion]
      exact ht.append hnum hapart) (.empty _) with ⟨t, ht, hnum⟩
    have hassert : s.index < uint32Max - 2 := by omega
    unfold calcDfsIndices
    rw [if_pos hassert, ht, Option.map_some]
    refine ⟨_, rfl, ?_⟩
    rw [subtree_eq]
    apply hnum.wrap
    intro x hx
    obtain ⟨c, hc, hxc⟩ := mem_biUnion.mp hx
    have hcb := mem_calcDomChildren.mp (mem_toFinset.mp hc)
    have hxc' := mem_subtree.mp hxc
    exact ⟨(ancestor_parent hcb).trans hxc', not_ancestor_parent hlt hcb hxc'⟩

end Indices

/-! ## The result -/

section Result

variable {immDom : g.ImmDom}

/-- The start block loses its `imm_dom`, which was the block itself. -/
theorem Fixpoint.ancestor_update (h : Fixpoint immDom) {a b : g.Block} :
    Ancestor (update immDom 0 none) a b ↔ Ancestor immDom a b := by
  constructor
  · intro hanc
    apply Ancestor.rec_up (P := fun x => Ancestor immDom a x) hanc (.refl a)
    intro x y hxy _ ih
    have hx : x ≠ 0 := by
      rintro rfl
      cases hxy
    rw [update_of_ne hx] at hxy
    exact ih.up hxy
  · intro hanc
    apply Ancestor.rec_up (P := fun x => Ancestor _ a x) hanc (.refl a)
    intro x y hxy _ ih
    by_cases hx : x = 0
    · rw [hx, h.tree.start] at hxy
      rw [hx]
      rw [← Option.some.inj hxy] at ih
      exact ih
    · exact ih.up (by rw [update_of_ne hx]; exact hxy)

lemma Fixpoint.mem_subtree_start (h : Fixpoint immDom) {x : g.Block} :
    x ∈ subtree (update immDom 0 none) 0 ↔ Reachable g.edge 0 x := by
  rw [mem_subtree, h.ancestor_update]
  constructor
  · intro hanc
    rcases hanc.cases with rfl | ⟨y, hy, -⟩
    · exact reachable_start
    · exact h.tree.reachable x (by rw [hy]; exact Option.some_ne_none y)
  · exact fun hx => h.ancestor_of_dominates hx fun _ hl => hl.start_mem

/-- The indices say which block dominates which. -/
theorem Fixpoint.blockDominates_iff (h : Fixpoint immDom) (hn : 2 * (g.last + 1) ≤ uint32Max - 2)
    {frontier : g.DomFrontier} {t : DfsIndices g}
    (hnum : Numbered (update immDom 0 none) (subtree (update immDom 0 none) 0)
      ⟨fun _ => uint32Max, fun _ => 0, 1⟩ t) (a b : g.Block) :
    (Dominance.mk (update immDom 0 none) frontier t.domPreIndex t.domPostIndex).blockDominates a b = true ↔
      Dominates g.edge 0 a b := by
  have hcard := card_subtree_le (update immDom 0 none) 0
  have hindex := hnum.index
  have hin : ∀ x, Reachable g.edge 0 x → t.domPreIndex x < uint32Max := by
    intro x hx
    have hlt := hnum.interval x (h.mem_subtree_start.mpr hx)
    dsimp only at hindex
    omega
  have hout : ∀ x, ¬ Reachable g.edge 0 x → t.domPreIndex x = uint32Max ∧ t.domPostIndex x = 0 := by
    intro x hx
    rw [← h.mem_subtree_start] at hx
    exact hnum.frame x hx
  unfold Dominance.blockDominates
  rw [decide_eq_true_iff]
  dsimp only
  by_cases hb : Reachable g.edge 0 b
  · by_cases ha : Reachable g.edge 0 a
    · rw [← h.ancestor_iff hb, ← h.ancestor_update]
      exact hnum.nested a (h.mem_subtree_start.mpr ha) b (h.mem_subtree_start.mpr hb)
    · have hpre := hin b hb
      constructor
      · intro hle
        rw [(hout a ha).1] at hle
        omega
      · exact fun hab => absurd (hab.reachable hb) ha
  · -- every block dominates a block that cannot be reached
    have hle : t.domPreIndex a ≤ uint32Max := by
      by_cases ha : Reachable g.edge 0 a
      · exact (hin a ha).le
      · exact (hout a ha).1.le
    rw [(hout b hb).1, (hout b hb).2]
    exact ⟨fun _ l hl => absurd ⟨l, hl⟩ hb, fun _ => ⟨hle, Nat.zero_le _⟩⟩

/-- `nir_calc_dominance_impl` ends, and everything that it computes is as defined. The number of
blocks is bounded by the assertion on the indices of the tree. -/
theorem calcDominanceImpl_correct (g : Cfg) (hg : ReversePostOrder g.edge 0)
    (hn : 2 * (g.last + 1) ≤ uint32Max - 2) :
    ∃ d, g.calcDominanceImpl = some d ∧
      (∀ b, Reachable g.edge 0 b → b ≠ 0 → ∃ a, d.immDom b = some a ∧ ImmediatelyDominates g.edge 0 a b) ∧
      (∀ b, ¬ Reachable g.edge 0 b → d.immDom b = none) ∧
      (∀ a b, d.blockDominates a b = true ↔ Dominates g.edge 0 a b) ∧
      (∀ a b, b ∈ d.domFrontier a ↔ InFrontier g.edge 0 a b) := by
  obtain ⟨immDom, hloop, h⟩ := exists_fixpoint hg.ordered
  obtain ⟨frontier, hfrontier, hmem⟩ := domFrontier_spec h
  have hlt : ∀ x y, update immDom 0 none x = some y → y < x := by
    intro x y hxy
    have hx : x ≠ 0 := by
      rintro rfl
      cases hxy
    rw [update_of_ne hx] at hxy
    exact h.tree.lt x y hxy hx
  have hcard := card_subtree_le (update immDom 0 none) 0
  rcases calcDfsIndices_spec hlt g.fuel 0 ⟨fun _ => uint32Max, fun _ => 0, 1⟩
    (Nat.lt_succ_of_lt (Nat.lt_succ_self _)) (by dsimp only; omega) with ⟨t, ht, hnum⟩
  refine ⟨⟨update immDom 0 none, frontier, t.domPreIndex, t.domPostIndex⟩, ?_, ?_, ?_,
    fun a b => h.blockDominates_iff hn hnum a b, hmem⟩
  · unfold calcDominanceImpl
    rw [hloop, Option.bind_some, hfrontier, Option.bind_some]
    dsimp only
    rw [ht, Option.map_some]
  · intro b hb hb0
    obtain ⟨a, ha⟩ := Option.ne_none_iff_exists'.mp (h.done b hb)
    exact ⟨a, by dsimp only; rw [update_of_ne hb0, ha], h.immediatelyDominates ha hb0⟩
  · intro b hb
    have hb0 : b ≠ 0 := fun hb0 => hb (hb0 ▸ reachable_start)
    dsimp only
    rw [update_of_ne hb0]
    by_contra hne
    exact hb (h.tree.reachable b hne)

/-- A loop with two entries, and a block that cannot be reached with an edge into it. -/
def twoEntries : Cfg where
  last := 3
  preds b := match b with
    | 0 => []
    | 1 => [0, 2, 3]
    | 2 => [0, 1]
    | 3 => []
  preds_start := rfl

lemma reversePostOrder_twoEntries : ReversePostOrder twoEntries.edge 0 := by
  refine ⟨[2, 1, 0], ?_, by decide⟩
  have h2 : DepthFirst twoEntries.edge [1, 0] [2] [2] :=
    @DepthFirst.visit _ _ _ _ [1] [] [] _ (by decide) (show ∀ w, w ∈ [1] ↔ 2 ∈ twoEntries.preds w by decide)
      (.skip (by decide) (.nil _)) (.nil _)
  have h1 : DepthFirst twoEntries.edge [0] [1, 2] [2, 1] :=
    @DepthFirst.visit _ _ _ _ [2] [2] [] _ (by decide) (show ∀ w, w ∈ [2] ↔
      1 ∈ twoEntries.preds w by decide) h2
      (.skip (by decide) (.nil _))
  exact @DepthFirst.visit _ _ _ _ [1, 2] [2, 1] [] _ (by decide)
    (show ∀ w, w ∈ [1, 2] ↔ 0 ∈ twoEntries.preds w by decide) h1 (.nil _)

theorem calcDominanceImpl_correct_twoEntries :
    ReversePostOrder twoEntries.edge 0 ∧ 2 * (twoEntries.last + 1) ≤ uint32Max - 2 ∧
      ∃ d, twoEntries.calcDominanceImpl = some d ∧
        (∀ a b, d.blockDominates a b = true ↔ Dominates twoEntries.edge 0 a b) ∧
        ∀ a b, b ∈ d.domFrontier a ↔ InFrontier twoEntries.edge 0 a b := by
  refine ⟨reversePostOrder_twoEntries, by decide, ?_⟩
  obtain ⟨d, hd, -, -, hdominates, hfrontier⟩ :=
    calcDominanceImpl_correct twoEntries reversePostOrder_twoEntries (by decide)
  exact ⟨d, hd, hdominates, hfrontier⟩

example : twoEntries.calcDominanceImpl.map (fun d => ((finRange 4).map d.immDom, d.domFrontier 1)) =
    some ([none, some 0, some 0, none], {2}) := by decide +kernel

end Result

end RadvXclipse.Nir.Cfg
