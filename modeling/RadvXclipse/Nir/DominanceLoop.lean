import RadvXclipse.Lib.Ancestors
import RadvXclipse.Lib.Fold
import RadvXclipse.Nir.Dominance

/-!
# The loop that computes immediate dominators ends with them

`TreeInv`: on the way, every strict dominator of a block dominates its `imm_dom`. This is about one
block and its `imm_dom` only, so an update of another block cannot break it, also where the update
changes the ancestors of the block. After `k` passes, the `imm_dom` of a block is on every path to
it with fewer than `k` retreating edges. As no more edges are needed than there are blocks, the tree
does not change any more after that many passes.
-/

namespace RadvXclipse.Nir.Cfg

open Lib List Function Option Nat

variable {g : Cfg}

/-- What holds of `imm_dom` at all times. -/
structure TreeInv (immDom : g.ImmDom) : Prop where
  start : immDom 0 = some 0
  reachable : ∀ b, immDom b ≠ none → Reachable g.edge 0 b
  parent : ∀ b a, immDom b = some a → immDom a ≠ none
  lt : ∀ b a, immDom b = some a → b ≠ 0 → a < b
  keeps : ∀ b a d, immDom b = some a → StrictlyDominates g.edge 0 d b → Dominates g.edge 0 d a

namespace TreeInv

variable {immDom : g.ImmDom} (h : TreeInv immDom)

include h

lemma le {x y : g.Block} (hxy : immDom x = some y) : y ≤ x := by
  by_cases hx : x = 0
  · rw [hx, h.start] at hxy
    exact hx ▸ (Option.some.inj hxy).symm.le
  · exact (h.lt x y hxy hx).le

lemma ancestor_le {a b : g.Block} (hab : Ancestor immDom a b) : a ≤ b := hab.le fun _ _ => h.le

lemma ancestor_start {a : g.Block} (ha : Ancestor immDom a 0) : a = 0 := Fin.le_zero_iff.mp (h.ancestor_le ha)

/-- A node that is no dominator of all of a set is left behind, the dominators of all of it are
not. -/
theorem climb_spec (hg : Ordered g.edge 0) {limit : g.Block} (hlimit : immDom limit ≠ none)
    {fuel : ℕ} {b : g.Block} (hb : immDom b ≠ none) (hfuel : (b : ℕ) < fuel) :
    ∃ r, climb immDom limit fuel b = some r ∧ r ≤ limit ∧ immDom r ≠ none ∧ Ancestor immDom r b ∧
      ∀ d, Dominates g.edge 0 d b → Dominates g.edge 0 d limit → Dominates g.edge 0 d r := by
  induction fuel generalizing b with
  | zero => omega
  | succ fuel ih =>
    unfold climb
    by_cases hgt : b > limit
    · rw [if_pos hgt]
      obtain ⟨a, ha⟩ := ne_none_iff_exists'.mp hb
      have hlt : (a : ℕ) < b := h.lt b a ha (Fin.pos_iff_ne_zero.mp (lt_of_le_of_lt (Fin.zero_le _) hgt))
      obtain ⟨r, hr, hle, hne, hanc, hdom⟩ := ih (h.parent b a ha) (by omega)
      refine ⟨r, by rw [ha]; exact hr, hle, hne, hanc.up ha, ?_⟩
      intro d hdb hdl
      -- a dominator of the limit is below it, so it is not `b`
      have hdle := hg.le_of_dominates (h.reachable limit hlimit) hdl
      exact hdom d (h.keeps b a d ha ⟨hdb, (lt_of_le_of_lt hdle hgt).ne⟩) hdl
    · rw [if_neg hgt]
      exact ⟨b, rfl, not_lt.mp hgt, hb, .refl b, fun _ hdb _ => hdb⟩

/-- `intersect` finds a common ancestor that no common dominator is below. -/
theorem intersect_spec (hg : Ordered g.edge 0) {fuel : ℕ} {b1 b2 : g.Block} (hb1 : immDom b1 ≠ none)
    (hb2 : immDom b2 ≠ none) (hfuel1 : (b1 : ℕ) < fuel) (hfuel2 : (b2 : ℕ) < fuel) :
    ∃ r, intersect immDom fuel b1 b2 = some r ∧ immDom r ≠ none ∧ Ancestor immDom r b1 ∧
      Ancestor immDom r b2 ∧
      ∀ d, Dominates g.edge 0 d b1 → Dominates g.edge 0 d b2 → Dominates g.edge 0 d r := by
  induction fuel generalizing b1 b2 with
  | zero => omega
  | succ fuel ih =>
    unfold intersect
    by_cases hne : b1 ≠ b2
    · rw [if_pos hne]
      have hfuel : ∀ b : g.Block, (b : ℕ) < g.fuel := fun b => lt_succ_of_lt b.isLt
      obtain ⟨c1, hc1, hle1, hne1, hanc1, hdom1⟩ := h.climb_spec hg hb2 hb1 (hfuel b1)
      obtain ⟨c2, hc2, hle2, hne2, hanc2, hdom2⟩ := h.climb_spec hg hne1 hb2 (hfuel b2)
      -- the larger index has become smaller
      have hlt1 : (c1 : ℕ) < fuel := by
        rcases lt_or_gt_of_ne hne with hlt | hlt
        · exact lt_of_lt_of_le (lt_of_le_of_lt (h.ancestor_le hanc1) hlt) (Nat.lt_succ_iff.mp hfuel2)
        · exact lt_of_lt_of_le (lt_of_le_of_lt hle1 hlt) (Nat.lt_succ_iff.mp hfuel1)
      have hlt2 : (c2 : ℕ) < fuel := lt_of_le_of_lt hle2 hlt1
      obtain ⟨r, hr, hrne, hranc1, hranc2, hrdom⟩ := ih hne1 hne2 hlt1 hlt2
      refine ⟨r, ?_, hrne, hranc1.trans hanc1, hranc2.trans hanc2, ?_⟩
      · rw [hc1, bind_some, hc2, bind_some, hr]
      · intro d hd1 hd2
        have hdc1 := hdom1 d hd1 hd2
        exact hrdom d hdc1 (hdom2 d hd2 hdc1)
    · rw [if_neg hne]
      rw [not_not] at hne
      subst hne
      exact ⟨b1, rfl, hb1, .refl b1, .refl b1, fun _ hd _ => hd⟩

end TreeInv

/-! ## One block -/

/-- `r` is an ancestor of those of the blocks `ps` that have an `imm_dom`, and no common dominator
is below it. -/
structure Meet (immDom : g.ImmDom) (ps : List g.Block) (r : g.Block) : Prop where
  exists_pred : ∃ p ∈ ps, immDom p ≠ none
  defined : immDom r ≠ none
  ancestor : ∀ p ∈ ps, immDom p ≠ none → Ancestor immDom r p
  keeps : ∀ d, (∀ p ∈ ps, immDom p ≠ none → Dominates g.edge 0 d p) → Dominates g.edge 0 d r

/-- What `calc_dominance` finds for a block with the predecessors `ps`. -/
structure IsMeet (immDom : g.ImmDom) (ps : List g.Block) (newIdom : Option g.Block) : Prop where
  undefined : newIdom = none → ∀ p ∈ ps, immDom p = none
  meet : ∀ r, newIdom = some r → Meet immDom ps r

lemma IsMeet.of_some {immDom : g.ImmDom} {ps : List g.Block} {r : g.Block} (h : Meet immDom ps r) :
    IsMeet immDom ps (some r) :=
  ⟨nofun, fun _ hr => Option.some.inj hr ▸ h⟩

/-- One more predecessor. -/
theorem IsMeet.step {immDom : g.ImmDom} (h : TreeInv immDom) (hg : Ordered g.edge 0) {ps : List g.Block}
    {newIdom : Option g.Block} (hmeet : IsMeet immDom ps newIdom) (p : g.Block) :
    ∃ newIdom', newIdomStep immDom newIdom p = some newIdom' ∧ IsMeet immDom (ps ++ [p]) newIdom' := by
  unfold newIdomStep
  by_cases hp : immDom p ≠ none
  · rw [if_pos hp]
    cases newIdom with
    | none =>
      have hnone := hmeet.undefined rfl
      have honly : ∀ q ∈ ps ++ [p], immDom q ≠ none → q = p := by
        intro q hq hqne
        rcases mem_append.mp hq with hq | hq
        · exact absurd (hnone q hq) hqne
        · exact mem_singleton.mp hq
      refine ⟨some p, rfl, .of_some ⟨⟨p, mem_append_right _ mem_cons_self, hp⟩, hp, ?_, ?_⟩⟩
      · intro q hq hqne
        rw [honly q hq hqne]
        exact .refl p
      · exact fun d hd => hd p (mem_append_right _ mem_cons_self) hp
    | some idom =>
      have hfuel : ∀ b : g.Block, (b : ℕ) < g.fuel := fun b => lt_succ_of_lt b.isLt
      have hidom := hmeet.meet idom rfl
      obtain ⟨r, hr, hrne, hranc1, hranc2, hrdom⟩ :=
        h.intersect_spec hg hp hidom.defined (hfuel p) (hfuel idom)
      refine ⟨some r, by dsimp only; rw [hr]; rfl,
        .of_some ⟨⟨p, mem_append_right _ mem_cons_self, hp⟩, hrne, ?_, ?_⟩⟩
      · intro q hq hqne
        rcases mem_append.mp hq with hq | hq
        · exact hranc2.trans (hidom.ancestor q hq hqne)
        · rw [mem_singleton.mp hq]
          exact hranc1
      · intro d hd
        apply hrdom d
        · exact hd p (mem_append_right _ mem_cons_self) hp
        · exact hidom.keeps d fun q hq => hd q (mem_append_left _ hq)
  · rw [if_neg hp]
    rw [not_not] at hp
    have hold : ∀ q ∈ ps ++ [p], immDom q ≠ none → q ∈ ps := by
      intro q hq hqne
      rcases mem_append.mp hq with hq | hq
      · exact hq
      · rw [mem_singleton.mp hq] at hqne
        exact absurd hp hqne
    refine ⟨newIdom, rfl, ?_, ?_⟩
    · intro hnone q hq
      by_contra hqne
      exact hqne (hmeet.undefined hnone q (hold q hq hqne))
    · intro r hr
      obtain ⟨⟨q, hq, hqne⟩, hne, hanc, hkeeps⟩ := hmeet.meet r hr
      exact ⟨⟨q, mem_append_left _ hq, hqne⟩, hne, fun q hq hqne => hanc q (hold q hq hqne) hqne,
        fun d hd => hkeeps d fun q hq => hd q (mem_append_left _ hq)⟩

/-- `calc_dominance` sets `imm_dom` to what it finds and says whether this is new. -/
theorem calcDominance_eq {immDom : g.ImmDom} (h : TreeInv immDom) (hg : Ordered g.edge 0) (block : g.Block) :
    ∃ newIdom, IsMeet immDom (g.preds block) newIdom ∧
      calcDominance immDom block = some (update immDom block newIdom, decide (immDom block ≠ newIdom)) := by
  rcases exists_foldlM (f := newIdomStep immDom) (I := fun ps newIdom => IsMeet immDom ps newIdom)
    (l := g.preds block) (s := none) (fun done p _ newIdom _ hmeet => hmeet.step h hg p)
    ⟨fun _ p hp => absurd hp not_mem_nil, nofun⟩ with
    ⟨newIdom, heq, hmeet⟩
  refine ⟨newIdom, hmeet, ?_⟩
  unfold calcDominance
  rw [heq, map_some]
  by_cases hne : immDom block ≠ newIdom
  · rw [if_pos hne, decide_eq_true hne]
  · rw [if_neg hne, decide_eq_false hne]
    rw [not_not] at hne
    rw [← hne, update_eq_self]

section Update

variable {immDom : g.ImmDom} {block : g.Block} {newIdom : Option g.Block} (h : TreeInv immDom)
  (hmeet : IsMeet immDom (g.preds block) newIdom)
include h hmeet

/-- A block with an `imm_dom` has a predecessor with one. -/
theorem IsMeet.reachable (hsome : newIdom ≠ none) : Reachable g.edge 0 block := by
  obtain ⟨r, hr⟩ := ne_none_iff_exists'.mp hsome
  obtain ⟨p, hp, hpne⟩ := (hmeet.meet r hr).exists_pred
  exact (h.reachable p hpne).step hp

variable (hg : Ordered g.edge 0) (hbefore : ∀ x, Reachable g.edge 0 x → x < block → immDom x ≠ none)
  (hne : block ≠ 0)
include hg hbefore hne

/-- A block that can be reached gets an `imm_dom` before it, if the blocks before it have one. -/
theorem IsMeet.lt (hreach : Reachable g.edge 0 block) : ∃ r, newIdom = some r ∧ r < block := by
  obtain ⟨p, he, hp, hlt⟩ := hg block hreach hne
  have hpne := hbefore p hp hlt
  cases newIdom with
  | none => exact absurd (hmeet.undefined rfl p he) hpne
  | some r => exact ⟨r, rfl, lt_of_le_of_lt (h.ancestor_le ((hmeet.meet r rfl).ancestor p he hpne)) hlt⟩

lemma TreeInv.update : TreeInv (update immDom block newIdom) where
  start := by
    rw [update_of_ne hne.symm]
    exact h.start
  reachable b hb := by
    by_cases hbb : b = block
    · subst hbb
      rw [update_self] at hb
      exact hmeet.reachable h hb
    · rw [update_of_ne hbb] at hb
      exact h.reachable b hb
  parent b a hba := by
    by_cases hab : a = block
    · -- `block` is an `imm_dom`, so it can be reached and gets one
      subst hab
      rw [update_self]
      have hreach : Reachable g.edge 0 a := by
        by_cases hbb : b = a
        · subst hbb
          rw [update_self] at hba
          exact hmeet.reachable h (by rw [hba]; exact some_ne_none b)
        · rw [update_of_ne hbb] at hba
          exact h.reachable a (h.parent b a hba)
      obtain ⟨r, hr, -⟩ := hmeet.lt h hg hbefore hne hreach
      rw [hr]
      exact some_ne_none r
    · rw [update_of_ne hab]
      by_cases hbb : b = block
      · subst hbb
        rw [update_self] at hba
        exact (hmeet.meet a hba).defined
      · rw [update_of_ne hbb] at hba
        exact h.parent b a hba
  lt b a hba hb0 := by
    by_cases hbb : b = block
    · subst hbb
      rw [update_self] at hba
      obtain ⟨r, hr, hlt⟩ :=
        hmeet.lt h hg hbefore hne (hmeet.reachable h (by rw [hba]; exact some_ne_none a))
      rw [hba] at hr
      exact Option.some.inj hr ▸ hlt
    · rw [update_of_ne hbb] at hba
      exact h.lt b a hba hb0
  keeps b a d hba hd := by
    by_cases hbb : b = block
    · subst hbb
      rw [update_self] at hba
      exact (hmeet.meet a hba).keeps d fun p hp _ => hd.pred hp
    · rw [update_of_ne hbb] at hba
      exact h.keeps b a d hba hd

end Update

/-! ## One pass -/

/-- The state in pass `k + 1` when the blocks before `i` are done. -/
structure PassInv (k i : ℕ) (immDom : g.ImmDom) : Prop where
  tree : TreeInv immDom
  done : ∀ x : g.Block, Reachable g.edge 0 x → (x : ℕ) < i ∨ 0 < k → immDom x ≠ none
  within : ∀ x a : g.Block, immDom x = some a →
    DominatesWithin g.edge 0 (if (x : ℕ) < i then k + 1 else k) a x

section

variable {k : ℕ} {immDom : g.ImmDom} {a b : g.Block}

/-- The ancestors of a block are on the paths to it. -/
theorem PassInv.ancestor {i j : ℕ} (h : PassInv k i immDom) (hab : Ancestor immDom a b)
    (hj : j ≤ if (b : ℕ) < i then k + 1 else k) : DominatesWithin g.edge 0 j a b := by
  apply hab.lift (R := DominatesWithin g.edge 0 j) (dominatesWithin_refl j) fun _ _ _ => DominatesWithin.trans
  intro x y _ hxb hxy
  apply (h.within x y hxy).mono
  have hle : (x : ℕ) ≤ b := h.tree.ancestor_le hxb
  split at hj
  · rw [if_pos (by omega)]
    exact hj
  · split
    · omega
    · exact hj

lemma PassInv.update {block : g.Block} {newIdom : Option g.Block} (h : PassInv k block immDom)
    (hg : Ordered g.edge 0) (hmeet : IsMeet immDom (g.preds block) newIdom) (hne : block ≠ 0) :
    PassInv k (block + 1) (update immDom block newIdom) := by
  have hbefore : ∀ x, Reachable g.edge 0 x → x < block → immDom x ≠ none :=
    fun x hx hlt => h.done x hx (.inl hlt)
  refine ⟨h.tree.update hmeet hg hbefore hne, ?_, ?_⟩
  · intro x hx hor
    by_cases hxb : x = block
    · subst hxb
      obtain ⟨r, hr, -⟩ := hmeet.lt h.tree hg hbefore hne hx
      rw [update_self, hr]
      exact some_ne_none r
    · rw [update_of_ne hxb]
      apply h.done x hx
      rw [← Fin.val_inj] at hxb
      omega
  · intro x a hxa
    by_cases hxb : x = block
    · subst hxb
      rw [update_self] at hxa
      rw [if_pos (lt_succ_self _)]
      have hanc := (hmeet.meet a hxa).ancestor
      apply DominatesWithin.of_preds hne
      · intro p he hp hlt
        exact h.ancestor (hanc p he (hbefore p hp hlt)) (if_pos (show (p : ℕ) < _ from hlt)).ge
      · -- in the first pass there is no path with so few edges
        intro p he hp hlt
        rcases Nat.eq_zero_or_pos k with rfl | hk
        · exact fun _ _ hlt => absurd hlt (Nat.not_lt_zero _)
        · exact h.ancestor (hanc p he (h.done p hp (.inr hk))) (if_neg (show ¬ (p : ℕ) < _ from hlt)).ge
    · rw [update_of_ne hxb] at hxa
      have hiff : (x : ℕ) < (block : ℕ) + 1 ↔ (x : ℕ) < block := by
        rw [← Fin.val_inj] at hxb
        omega
      simp only [hiff]
      exact h.within x a hxa

/-- The start block is not visited. -/
theorem PassInv.skip (h : PassInv k 0 immDom) : PassInv k 1 immDom := by
  refine ⟨h.tree, ?_, ?_⟩
  · intro x hx hor
    by_cases hx0 : x = 0
    · rw [hx0, h.tree.start]
      exact some_ne_none 0
    · apply h.done x hx
      have hpos : 0 < (x : ℕ) := pos_of_ne_zero fun hzero => hx0 (Fin.val_inj.mp hzero)
      omega
  · intro x a hxa
    by_cases hx0 : x = 0
    · rw [hx0, h.tree.start] at hxa
      rw [hx0, ← Option.some.inj hxa]
      exact dominatesWithin_refl _ 0
    · have hpos : ¬ (x : ℕ) < 1 := by
        have hne : (x : ℕ) ≠ 0 := fun hzero => hx0 (Fin.val_inj.mp hzero)
        omega
      rw [if_neg hpos]
      have hwithin := h.within x a hxa
      rwa [if_neg (Nat.not_lt_zero _)] at hwithin

/-- What a pass that started from `immDom` has done to the blocks before `i`. -/
structure PassChange (immDom : g.ImmDom) (i : ℕ) (s : g.ImmDom × Bool) : Prop where
  rest : ∀ x : g.Block, i ≤ (x : ℕ) → s.1 x = immDom x
  same : s.2 = false → s.1 = immDom ∧
    ∀ x : g.Block, x ≠ 0 → (x : ℕ) < i → IsMeet immDom (g.preds x) (immDom x)
  changed : s.2 = true → s.1 ≠ immDom

lemma passStep_spec (hg : Ordered g.edge 0) (block : g.Block) {s : g.ImmDom × Bool}
    (h : PassInv k block s.1 ∧ PassChange immDom block s) :
    ∃ t, passStep s block = some t ∧ PassInv k (block + 1) t.1 ∧ PassChange immDom (block + 1) t := by
  obtain ⟨hinv, hchange⟩ := h
  unfold passStep
  by_cases hne : block ≠ 0
  · obtain ⟨newIdom, hmeet, heq⟩ := calcDominance_eq hinv.tree hg block
    refine ⟨(update s.1 block newIdom, s.2 || decide (s.1 block ≠ newIdom)), ?_, hinv.update hg hmeet hne, ?_⟩
    · rw [if_pos hne, heq, map_some]
    have hold : s.1 block = immDom block := hchange.rest block (le_refl _)
    refine ⟨?_, ?_, ?_⟩
    · intro x hx
      have hxb : x ≠ block := fun heq => by
        rw [heq] at hx
        omega
      dsimp only
      rw [update_of_ne hxb]
      exact hchange.rest x (by omega)
    · intro hflag
      rw [Bool.or_eq_false_iff, decide_eq_false_iff_not, not_not] at hflag
      obtain ⟨hsame, hmeets⟩ := hchange.same hflag.1
      rw [hsame] at hflag hmeet
      refine ⟨by dsimp only; rw [hsame, ← hflag.2, update_eq_self], ?_⟩
      intro x hx0 hx
      by_cases hxb : x = block
      · subst hxb
        rw [hflag.2]
        exact hmeet
      · apply hmeets x hx0
        rw [← Fin.val_inj] at hxb
        omega
    · intro hflag hsame
      dsimp only at hsame
      have hnew : newIdom = immDom block := by rw [← hsame, update_self]
      have hkeep : s.1 = immDom := by
        rw [← hsame, hnew, ← hold, update_eq_self]
      rw [Bool.or_eq_true, decide_eq_true_iff] at hflag
      rcases hflag with hflag | hflag
      · exact hchange.changed hflag hkeep
      · exact hflag (hold.trans hnew.symm)
  · rw [if_neg hne]
    rw [not_not] at hne
    subst hne
    refine ⟨s, rfl, hinv.skip, fun x hx => hchange.rest x (zero_le _), ?_, hchange.changed⟩
    intro hflag
    refine ⟨(hchange.same hflag).1, ?_⟩
    intro x hx0 hx
    have hzero : (x : ℕ) = 0 := lt_one_iff.mp hx
    exact absurd (Fin.val_inj.mp hzero) hx0

/-- The state between two passes. -/
theorem PassInv.next (h : PassInv k (g.last + 1) immDom) : PassInv (k + 1) 0 immDom := by
  refine ⟨h.tree, fun x hx _ => h.done x hx (.inl x.isLt), ?_⟩
  intro x a hxa
  have hwithin := h.within x a hxa
  rw [if_pos x.isLt] at hwithin
  rwa [if_neg (Nat.not_lt_zero _)]

lemma pass_spec (hg : Ordered g.edge 0) (h : PassInv k 0 immDom) :
    ∃ t, (finRange (g.last + 1)).foldlM passStep (immDom, false) = some t ∧ PassInv (k + 1) 0 t.1 ∧
      PassChange immDom (g.last + 1) t := by
  rcases exists_foldlM_finRange (n := g.last + 1) (f := passStep)
    (I := fun i s => PassInv k i s.1 ∧ PassChange immDom i s) (s := (immDom, false))
    (fun i s hs => passStep_spec hg i hs)
    ⟨h, fun _ _ => rfl, fun _ => ⟨rfl, fun x _ hx => absurd hx (Nat.not_lt_zero _)⟩, fun h => by cases h⟩ with
    ⟨t, ht, hinv, hchange⟩
  exact ⟨t, ht, hinv.next, hchange⟩

/-! ## The loop -/

/-- After that many passes, `imm_dom` is the immediate dominator. -/
theorem PassInv.immediatelyDominates (h : PassInv k 0 immDom) (hk : g.last + 1 ≤ k)
    (hba : immDom b = some a) (hb : b ≠ 0) : ImmediatelyDominates g.edge 0 a b := by
  have hwithin := h.within b a hba
  exact ⟨⟨hwithin.dominates (by rw [Fintype.card_fin]; exact hk), (h.tree.lt b a hba hb).ne⟩,
    fun d hd => h.tree.keeps b a d hba hd⟩

/-- So a further pass changes nothing. -/
theorem PassInv.unique (hg : Ordered g.edge 0) {k' : ℕ} {immDom' : g.ImmDom}
    (h : PassInv k 0 immDom) (h' : PassInv k' 0 immDom') (hk : g.last + 1 ≤ k)
    (hk' : g.last + 1 ≤ k') : immDom = immDom' := by
  funext b
  by_cases hb0 : b = 0
  · rw [hb0, h.tree.start, h'.tree.start]
  by_cases hreach : Reachable g.edge 0 b
  · obtain ⟨a, ha⟩ := ne_none_iff_exists'.mp (h.done b hreach (.inr (by omega)))
    obtain ⟨a', ha'⟩ := ne_none_iff_exists'.mp (h'.done b hreach (.inr (by omega)))
    have himm := h.immediatelyDominates hk ha hb0
    have himm' := h'.immediatelyDominates hk' ha' hb0
    rw [ha, ha', hg.dominates_antisymm (himm'.1.1.reachable hreach) (himm'.2 a himm.1) (himm.2 a' himm'.1)]
  · have hnone : immDom b = none := by
      by_contra hne
      exact hreach (h.tree.reachable b hne)
    have hnone' : immDom' b = none := by
      by_contra hne
      exact hreach (h'.tree.reachable b hne)
    rw [hnone, hnone']

/-- What the loop ends with. -/
structure Fixpoint (immDom : g.ImmDom) : Prop where
  tree : TreeInv immDom
  done : ∀ x : g.Block, Reachable g.edge 0 x → immDom x ≠ none
  meet : ∀ x : g.Block, x ≠ 0 → IsMeet immDom (g.preds x) (immDom x)

/-- The loop ends. The induction is on the fuel; with `k` passes done, a pass that changes something
has `k ≤ last`. -/
theorem calcLoop_spec (hg : Ordered g.edge 0) {fuel : ℕ} (h : PassInv k 0 immDom)
    (hfuel : g.last + 2 ≤ fuel + k) (hpos : 0 < fuel) :
    ∃ t, calcLoop fuel immDom = some t ∧ Fixpoint t := by
  induction fuel generalizing k immDom with
  | zero => omega
  | succ fuel ih =>
    obtain ⟨t, ht, hinv, hchange⟩ := pass_spec hg h
    unfold calcLoop
    rw [ht, bind_some]
    by_cases hflag : t.2 = true
    · rw [if_pos hflag]
      have hk : ¬ g.last + 1 ≤ k := fun hk => hchange.changed hflag (hinv.unique hg h (by omega) hk)
      exact ih hinv (by omega) (by omega)
    · rw [if_neg hflag]
      obtain ⟨hsame, hmeets⟩ := hchange.same (Bool.eq_false_iff.mpr hflag)
      exact ⟨t.1, rfl, hinv.tree, fun x hx => hinv.done x hx (.inr (succ_pos k)),
        fun x hx0 => hsame ▸ hmeets x hx0 x.isLt⟩

end

lemma passInv_init : PassInv 0 0 g.initImmDom := by
  have hsome : ∀ b a, g.initImmDom b = some a → b = 0 ∧ a = 0 := by
    intro b a hba
    unfold initImmDom at hba
    split at hba
    · next hb =>
      rw [hb] at hba
      exact ⟨hb, (Option.some.inj hba).symm⟩
    · cases hba
  refine ⟨⟨rfl, ?_, ?_, ?_, ?_⟩, ?_, ?_⟩
  · intro b hb
    obtain ⟨a, ha⟩ := ne_none_iff_exists'.mp hb
    rw [(hsome b a ha).1]
    exact reachable_start
  · intro b a hba
    rw [(hsome b a hba).2]
    exact some_ne_none 0
  · exact fun b a hba hb => absurd (hsome b a hba).1 hb
  · intro b a d hba hd
    rw [(hsome b a hba).1] at hd
    exact absurd (dominates_start_iff.mp hd.1) hd.2
  · intro x _ hor
    omega
  · exact fun x a _ l _ hlt => absurd hlt (Nat.not_lt_zero _)

lemma exists_fixpoint (hg : Ordered g.edge 0) : ∃ t, calcLoop g.fuel g.initImmDom = some t ∧ Fixpoint t :=
  calcLoop_spec hg passInv_init (le_refl _) (succ_pos _)

/-! ## The tree is the dominance tree -/

namespace Fixpoint

variable {immDom : g.ImmDom} (h : Fixpoint immDom)

include h

/-- An ancestor is on every path. The induction is on the path: the `imm_dom` of its last block is
an ancestor of the block before. -/
theorem dominates_of_ancestor {a b : g.Block} (hab : Ancestor immDom a b) : Dominates g.edge 0 a b := by
  intro l hl
  induction hl generalizing a with
  | start =>
    rw [h.tree.ancestor_start hab]
    exact mem_cons_self
  | @snoc u v l hl he ih =>
    by_cases hv0 : v = 0
    · rw [hv0] at hab he
      rw [h.tree.ancestor_start hab, hv0]
      exact mem_cons_self
    rcases hab.cases with rfl | ⟨r, hr, har⟩
    · exact mem_cons_self
    · have hanc := ((h.meet v hv0).meet r hr).ancestor u he (h.done u ⟨l, hl⟩)
      exact mem_cons_of_mem _ (ih (har.trans hanc))

lemma ancestor_of_dominates {a b : g.Block} (hb : Reachable g.edge 0 b) (hab : Dominates g.edge 0 a b) :
    Ancestor immDom a b := by
  induction b using WellFoundedLT.induction with
  | ind b ih =>
    by_cases hne : a = b
    · rw [hne]
      exact .refl b
    · have hb0 : b ≠ 0 := fun hb0 => by
        rw [hb0, dominates_start_iff] at hab
        exact hne (hab.trans hb0.symm)
      obtain ⟨r, hr⟩ := ne_none_iff_exists'.mp (h.done b hb)
      exact (ih r (h.tree.lt b r hr hb0) (h.tree.reachable r (h.tree.parent b r hr))
        (h.tree.keeps b r a hr ⟨hab, hne⟩)).up hr

lemma ancestor_iff {a b : g.Block} (hb : Reachable g.edge 0 b) :
    Ancestor immDom a b ↔ Dominates g.edge 0 a b :=
  ⟨h.dominates_of_ancestor, h.ancestor_of_dominates hb⟩

lemma immediatelyDominates {a b : g.Block} (hba : immDom b = some a) (hb : b ≠ 0) :
    ImmediatelyDominates g.edge 0 a b :=
  ⟨⟨h.dominates_of_ancestor (ancestor_parent hba), (h.tree.lt b a hba hb).ne⟩,
    fun d hd => h.tree.keeps b a d hba hd⟩

end Fixpoint

end RadvXclipse.Nir.Cfg
