import RadvXclipse.Shader.ArenaFail

/-!
# The bits of the free lists

`radv_alloc_shader_memory` looks into the first list whose bit is set. It finds a hole whenever
there is one in a class that is large enough, because between calls a bit is only set if its list is
not empty. `insert_block` clears the bit of the class of the resized hole, and not of the list that
the hole was on; for the hole of a new arena this is the highest list, and if the class is a lower
one then what is left of the arena is on the highest list.
-/

namespace RadvXclipse.ShaderArena

open Lib Util List Function Option Nat

/-- A bit is only set if the list is not empty. -/
def MaskExact (d : Device) : Prop :=
  ∀ l c, c < allocNumFreeLists → (d.freeList l).sizeMask.getLsbD c = true → (d.freeList l).freeLists c ≠ []

variable {d : Device}

lemma MaskExact.congr {d' : Device} (h : MaskExact d) (heq : d'.freeList = d.freeList) : MaskExact d' := by
  unfold MaskExact
  rw [heq]
  exact h

/-! ## Holes -/

section Hole

variable {d : Device} {l : FreeListId} {hole : BlockId}

lemma MaskExact.addHole (h : MaskExact d) (l : FreeListId) (hole : BlockId) :
    MaskExact (addHole d l hole) := by
  intro l' c hc hbit
  rw [addHole_sizeMask d l hole l' hc, Bool.or_eq_true] at hbit
  rw [addHole_freeLists]
  split_ifs with heq
  · simp
  · rcases hbit with hbit | hbit
    · exact h l' c hc hbit
    · exact absurd (of_decide_eq_true hbit) heq

lemma MaskExact.addHoleIf (h : MaskExact d) (l : Option FreeListId) (hole : BlockId) :
    MaskExact (addHoleIf d l hole) := by
  cases l with
  | none => exact h
  | some l => exact h.addHole l hole

lemma removeHole_freeLists (h : LinkOk d) (l : FreeListId) (hole : BlockId) (l' : FreeListId) (c : ℕ) :
    ((removeHole d l hole).freeList l').freeLists c = ((d.freeList l').freeLists c).erase hole := by
  rw [← listDelFreelist_freeLists h]
  simp only [removeHole]
  split_ifs
  · by_cases hl : l' = l
    · subst hl
      simp [Device.setFreeList]
    · simp [Device.setFreeList, hl]
  · rfl

/-- The bit of an empty list of the class of the hole is cleared. -/
theorem removeHole_sizeMask (h : LinkOk d) (l : FreeListId) (hole : BlockId) (l' : FreeListId) {c : ℕ}
    (hc : c < allocNumFreeLists) (hbit : ((removeHole d l hole).freeList l').sizeMask.getLsbD c = true) :
    (d.freeList l').sizeMask.getLsbD c = true ∧
      (l' = l → c = getSizeClass (d.block hole).size false →
        ((d.freeList l').freeLists c).erase hole ≠ []) := by
  simp only [removeHole] at hbit
  rw [← listDelFreelist_sizeMask d hole l', ← listDelFreelist_freeLists h]
  split_ifs at hbit with hempty
  · by_cases hl : l' = l
    · subst hl
      simp only [Device.setFreeList, update_self, BitVec.getLsbD_and, Bool.and_eq_true] at hbit
      refine ⟨hbit.1, fun _ hclass => ?_⟩
      have hclear := hbit.2
      simp [hclass] at hclear
    · simp only [Device.setFreeList, update_of_ne hl] at hbit
      exact ⟨hbit, fun heq => absurd heq hl⟩
  · refine ⟨hbit, fun hl hclass => ?_⟩
    subst hl hclass
    rwa [List.isEmpty_iff] at hempty

/-- The hole is on the list of its class, or leaves another one on its list. -/
theorem MaskExact.removeHole (h : MaskExact d) (hlinks : LinkOk d)
    (hother : ∀ l' c, (d.block hole).freelist = .linked l' c →
      (l' = l ∧ c = getSizeClass (d.block hole).size false) ∨ ((d.freeList l').freeLists c).erase hole ≠ []) :
    MaskExact (removeHole d l hole) := by
  intro l' c hc hbit
  obtain ⟨hold, hclass⟩ := removeHole_sizeMask hlinks l hole l' hc hbit
  rw [removeHole_freeLists hlinks]
  by_cases hmem : hole ∈ (d.freeList l').freeLists c
  · rcases hother l' c ((hlinks.mem_iff l' c hole).mp hmem) with ⟨hl, hcl⟩ | hne
    · exact hclass hl hcl
    · exact hne
  · rw [erase_of_not_mem hmem]
    exact h l' c hc hold

/-- A hole of an arena. -/
theorem MaskExact.removeHoleIf (h : MaskExact d) (hlinks : LinkOk d) {l : Option FreeListId}
    (hlink : (d.block hole).freelist = holeLink l (d.block hole).size) :
    MaskExact (removeHoleIf d l hole) := by
  cases l with
  | none => exact h
  | some l =>
    refine h.removeHole hlinks fun l' c heq => .inl ?_
    cases hlink.symm.trans heq
    exact ⟨rfl, rfl⟩

end Hole

/-! ## Allocations -/

variable {size : ℕ}

section Alloc

variable {d : Device} {l : FreeListId} {hole : BlockId} {a : ArenaId} {x : Arena}
    {L R : List BlockId} {size : ℕ}

lemma MaskExact.allocFromHole (h : MaskExact d) (hat : HoleAt d l hole a x L R) (hok : DeviceOk d)
    (size : ℕ) :
    MaskExact (allocFromHole d l hole size).2 := by
  have halloc := allocBlockObj_allocated hok.sound
  have hne : hole ≠ (allocBlockObj d).1 := by
    intro heq
    exact (hok.sound.available _ halloc.was).2 a x hat.arena (heq ▸ hat.mem)
  simp only [ShaderArena.allocFromHole]
  generalize allocBlockObj d = p at halloc hne ⊢
  obtain ⟨alloc, d1⟩ := p
  refine MaskExact.addHole (MaskExact.congr ?_ rfl) l hole
  generalize hd2 : (d1.editEntries (d1.block hole).arena fun es => insertBefore es hole alloc).setBlock alloc
    ⟨(d1.block hole).arena, (d1.block hole).offset, size, .null⟩ = d2
  have hlinks : LinkOk d2 := by
    rw [← hd2]
    refine LinkOk.setBlock (halloc.sound.links.congr rfl rfl) fun l c => ?_
    exact iff_of_false (by simp) (halloc.unlinked l c)
  have hblock : d2.block hole = d.block hole := by
    rw [← hd2, ← halloc.block]
    exact update_of_ne hne ..
  refine MaskExact.removeHoleIf (l := some l) (h.congr ?_) hlinks ?_
  · rw [← hd2]
    exact halloc.freeList
  · rw [hblock]
    exact hat.link

lemma MaskExact.createShaderArena (h : MaskExact d) (l : Option FreeListId) (minSize arenaSize : ℕ)
    (replayable : Bool) (replayVa : BitVec 64) :
    MaskExact (createShaderArena d l minSize arenaSize replayable replayVa).2 := by
  refine MaskExact.addHoleIf (MaskExact.congr h ?_) l _
  exact freeList_allocBlockObj _

lemma MaskExact.newHoleIf (h : MaskExact d) (c : Prop) [Decidable c] (l : Option FreeListId)
    (a : ArenaId) (offset size : ℕ) : MaskExact (newHoleIf d c l a offset size).2 := by
  unfold ShaderArena.newHoleIf
  split_ifs
  · simp only [newHole]
    refine MaskExact.addHoleIf (MaskExact.congr h ?_) l _
    exact freeList_allocBlockObj _
  · exact h

lemma freeList_link (d : Device) (hole : BlockId) (left right : Option BlockId) :
    (linkRight (linkLeft d hole left) hole right).freeList = d.freeList := by
  cases left <;> cases right <;> rfl

/-- In an arena without a free list no list changes. -/
theorem MaskExact.placeBlock_none (h : MaskExact d) (hole : BlockId) (offsetInHole size : ℕ) :
    MaskExact (placeBlock d hole offsetInHole size none) := by
  refine MaskExact.congr (MaskExact.newHoleIf (h.newHoleIf _ none (d.block hole).arena
    (d.block hole).offset offsetInHole) _ none _ _ _) (freeList_link ..)

/-- The highest class. -/
theorem getSizeClass_large (h : 2 ^ 15 ≤ size) : getSizeClass size false = 7 := by
  rw [getSizeClass_floor (by omega)]
  have hlog : 15 ≤ Nat.log 2 size := le_log_of_pow_le (by decide) h
  simp only [floorClass, allocMinSizeClass, allocNumFreeLists, allocMaxSizeClass]
  omega

/-- The first block of a new arena: it is of the highest class itself, or what is left is. -/
theorem MaskExact.placeBlock_new (h : MaskExact d) (hs : Sound d) (hx : d.arenas a = some x)
    (hent : x.entries = [hole]) (hlarge : 2 ^ 18 ≤ (d.block hole).size)
    (hlink : (d.block hole).freelist = .linked l (getSizeClass (d.block hole).size false))
    (hsize : size ≤ (d.block hole).size) (hfit : (d.block hole).offset + (d.block hole).size < 2 ^ 32) :
    MaskExact (placeBlock d hole 0 size (some l)) := by
  obtain ⟨hnew, heq⟩ :=
    insertBlock_newHoles (L := []) (R := []) hs hx hent (show 0 + size ≤ _ by omega) hfit (some l)
  have hmask := MaskExact.newHoleIf (h.newHoleIf (0 ≠ 0) (some l) a (d.block hole).offset 0)
    ((d.block hole).size > 0 + size) (some l) a ((d.block hole).offset + 0 + size)
      ((d.block hole).size - 0 - size)
  have hlinked := hnew.link (L := []) (R := []) hs hx hent (show 0 + size ≤ _ by omega) hfit
  unfold placeBlock
  rw [heq]
  generalize ShaderArena.newHoleIf d (0 ≠ 0) (some l) a (d.block hole).offset 0 = p1 at hnew hmask hlinked ⊢
  generalize ShaderArena.newHoleIf p1.2 ((d.block hole).size > 0 + size) (some l) a
    ((d.block hole).offset + 0 + size)
    ((d.block hole).size - 0 - size) = p2 at hnew hmask hlinked ⊢
  have hblock : (linkRight (linkLeft p2.2 hole p1.1) hole p2.1).block hole =
      ⟨a, (d.block hole).offset + 0, size, (d.block hole).freelist⟩ := by
    rw [hlinked.block, update_self]
  refine MaskExact.congr (MaskExact.removeHole (MaskExact.congr hmask (freeList_link ..)) hlinked.sound.links
    fun l' c hlink' => ?_) rfl
  rw [hblock] at hlink' ⊢
  rw [hlink, getSizeClass_large (by omega)] at hlink'
  cases hlink'
  by_cases hclass : 2 ^ 15 ≤ size
  · exact .inl ⟨rfl, (getSizeClass_large hclass).symm⟩
  · right
    -- what is left of the arena is on the highest list
    obtain ⟨r, hr⟩ : ∃ r, p2.1 = some r := by
      rw [← ne_none_iff_exists']
      intro hnone
      have hle := hnew.right_none.mp hnone
      omega
    have hright := hnew.block_right r hr
    have hne : r ≠ hole := by
      rintro rfl
      refine (hs.available r (hnew.unavailable r (.inr hr)).1).2 a x hx ?_
      rw [hent]
      exact mem_singleton_self r
    have hmem : r ∈ ((linkRight (linkLeft p2.2 hole p1.1) hole p2.1).freeList l).freeLists 7 := by
      rw [hlinked.sound.links.mem_iff, hlinked.block, update_of_ne hne, hright]
      simp only [holeLink, Nat.sub_zero, Link.linked.injEq, true_and]
      exact getSizeClass_large (by omega)
    exact ne_nil_of_mem ((mem_erase_of_ne hne).mpr hmem)

lemma MaskExact.allocFromNewArena (h : MaskExact d) (hok : DeviceOk d) (replayable : Bool)
    (hlt : size < 2 ^ 32) (hdvd : allocAlignment ∣ size) :
    MaskExact (allocFromNewArena d (if replayable then .captureReplay else .shader) size replayable).2 := by
  obtain ⟨hpos', hlt', hdvd', hle⟩ := arenaSize_spec d.shaderArenaShift hlt hdvd
  have hlarge : 2 ^ 18 ≤ max (allocMinArenaSize <<< min allocMaxArenaSizeShift d.shaderArenaShift) size := by
    have hall : ∀ k ≤ 5, 2 ^ 18 ≤ allocMinArenaSize <<< k := by decide
    exact le_max_of_le_left (hall _ (min_le_left _ _))
  generalize hl : (if replayable then FreeListId.captureReplay else .shader) = l
  have htype : (if replayable then ArenaType.replayable else .default).freeList = some l := by
    rw [← hl]
    cases replayable <;> rfl
  obtain ⟨hole, d1, heq, hcreate⟩ := @createShaderArena_creates d hok _ size 0 _ replayable 0
    (if replayable then .replayable else .default) (if_pos rfl) (if_neg (not_not_intro rfl)) htype hpos' hlt'
    (fun _ => hdvd')
  have hmask : MaskExact d1 := by
    have hmask := h.createShaderArena (some l) size 0 replayable 0
    rwa [heq] at hmask
  have hblock := hcreate.block
  have hplaced : MaskExact (placeBlock d1 hole 0 size (some l)) := by
    refine hmask.placeBlock_new hcreate.ok.sound hcreate.arena_self rfl ?_ ?_ ?_ ?_
    · rw [hblock]
      exact hlarge
    · rw [hblock]
      simp only [htype]
      rfl
    · rw [hblock]
      exact hle
    · rw [hblock, zero_add]
      exact hlt'
  simp only [ShaderArena.allocFromNewArena, heq, hcreate.arena_self]
  exact MaskExact.congr hplaced rfl

end Alloc

/-! ## Freeing -/

section Free

variable {d : Device} {l : Option FreeListId} {hole : BlockId}

lemma LinkOk.mergePrev (h : LinkOk d) (l : Option FreeListId) (hole : BlockId) (prev : Option BlockId) :
    LinkOk (mergePrev d l hole prev).2 := by
  cases prev with
  | none => exact h
  | some p =>
    refine LinkOk.congr (LinkOk.setBlock (h.removeHoleIf l p) (b := p) ?_) rfl rfl
    exact fun _ _ => Iff.rfl

lemma mergePrev_block_of_ne {prev : Option BlockId} {n : BlockId} (hn : n ∉ prev) :
    (mergePrev d l hole prev).2.block n = d.block n := by
  cases prev with
  | none => rfl
  | some p =>
    have hne : n ≠ p := fun heq => hn (heq ▸ rfl)
    have hremove : (removeHoleIf d l p).block n = d.block n := by
      rw [removeHoleIf_block]
      cases l with
      | none => rfl
      | some l => exact update_of_ne hne ..
    rw [← hremove]
    exact update_of_ne hne ..

lemma MaskExact.mergePrev (h : MaskExact d) (hole : BlockId) (hlinks : LinkOk d) {prev : Option BlockId}
    (hlink : ∀ p ∈ prev, (d.block p).freelist = holeLink l (d.block p).size) :
    MaskExact (mergePrev d l hole prev).2 := by
  cases prev with
  | none => exact h
  | some p => exact MaskExact.congr (h.removeHoleIf hlinks (hlink p rfl)) rfl

lemma MaskExact.mergeNext (h : MaskExact d) (hole : BlockId) (hlinks : LinkOk d) {next : Option BlockId}
    (hlink : ∀ n ∈ next, (d.block n).freelist = holeLink l (d.block n).size) :
    MaskExact (mergeNext d l hole next).2 := by
  cases next with
  | none => exact h
  | some n => exact MaskExact.congr (h.removeHoleIf hlinks (hlink n rfl)) rfl

lemma MaskExact.freeShaderMemory {b : BlockId} (h : MaskExact d) (hok : DeviceOk d) (hb : Live d b) :
    MaskExact (freeShaderMemory d b) := by
  obtain ⟨a, x, hx, hmem, -⟩ := hb
  have ha := hok.sound.owner a x hx b hmem
  obtain ⟨L, R, hent⟩ := append_of_mem hmem
  obtain ⟨-, hbl, -⟩ := hok.sound.at_entry hx hent
  have hnodup := hok.sound.nodup a x hx
  -- a neighbour that is a hole is on its list
  have hlink : ∀ o : Option BlockId, (∀ c ∈ o, c ∈ x.entries) → ∀ c ∈ getHole d o, c ∈ o ∧
      (d.block c).freelist = holeLink x.type.freeList (d.block c).size := by
    intro o ho c hc
    obtain ⟨e, he, hec⟩ := bind_eq_some_iff.mp hc
    obtain ⟨hhole, heq⟩ := ite_none_right_eq_some.mp hec
    cases heq
    exact ⟨he, (hok.arena a x hx).link c (ho c he) hhole⟩
  have hprev := hlink (before x.entries b) fun c hc => by
    rw [hent, before_append hbl] at hc
    rw [hent]
    exact mem_append_left _ (mem_of_mem_getLast? hc)
  have hnext := hlink (after x.entries b) fun c hc => by
    rw [hent, after_append hbl] at hc
    rw [hent]
    exact mem_append_right _ (mem_cons_of_mem _ (mem_of_mem_head? hc))
  have hne : ∀ n ∈ getHole d (after x.entries b), n ∉ getHole d (before x.entries b) := by
    intro n hn hp
    have hn' := (hnext n hn).1
    have hp' := (hprev n hp).1
    rw [hent, after_append hbl] at hn'
    rw [hent, before_append hbl] at hp'
    rw [hent] at hnodup
    exact (List.nodup_append.mp hnodup).2.2 n (mem_of_mem_getLast? hp') n
      (mem_cons_of_mem _ (mem_of_mem_head? hn')) rfl
  have hmerged := (h.mergePrev b hok.sound.links fun p hp => (hprev p hp).2).mergeNext
    (ShaderArena.mergePrev d x.type.freeList b (getHole d (before x.entries b))).1
    (hok.sound.links.mergePrev x.type.freeList b _) fun n hn => by
      rw [mergePrev_block_of_ne (hne n hn)]
      exact (hnext n hn).2
  simp only [ShaderArena.freeShaderMemory, ha, hx]
  split_ifs
  · exact MaskExact.congr hmerged rfl
  · unfold markHole
    cases hl : x.type.freeList with
    | none =>
      rw [hl] at hmerged
      exact MaskExact.congr hmerged rfl
    | some l =>
      rw [hl] at hmerged
      exact hmerged.addHole l _

end Free

/-! ## The search -/

section Search

variable {d : Device} {l : FreeListId} {n : ℕ}

lemma ffs_spec {x : BitVec 32} {c : ℕ} (hc : c < 32) (hbit : x.getLsbD c = true) :
    ∃ i ≤ c, ffs x = i + 1 ∧ x.getLsbD i = true := by
  unfold ffs
  cases hfind : (range 32).find? fun i => x.getLsbD i with
  | none =>
    have hnone := find?_eq_none.mp hfind c (mem_range.mpr hc)
    exact absurd hbit hnone
  | some i =>
    obtain ⟨hi, -, hbefore⟩ := find?_range_eq_some.mp hfind
    refine ⟨i, ?_, rfl, hi⟩
    by_contra hlt
    have hnot := hbefore c (by omega)
    rw [hbit] at hnot
    exact absurd hnot (by decide)

/-- A hole of a class that is not the highest is at least as large as the class says. -/
theorem DeviceOk.pow_le_size (hok : DeviceOk d) {c : ℕ} {hole : BlockId}
    (hmem : hole ∈ (d.freeList l).freeLists c) (hc : c < 7) : 2 ^ (c + 8) ≤ (d.block hole).size := by
  obtain ⟨a, x, L, R, hat⟩ := hok.holeAt hmem
  have hpos := (hat.bound hok).2
  have hlink := (hok.sound.links.mem_iff l c hole).mp hmem
  rw [hat.link, getSizeClass_floor hpos, Link.linked.injEq] at hlink
  have hdvd := ((hok.arena a x hat.arena).aligned hat.not_replayed hole hat.mem).2
  have hlog : 8 ≤ Nat.log 2 (d.block hole).size := le_log_of_pow_le (by decide) (le_of_dvd hpos hdvd)
  have hclass := hlink.2
  simp only [floorClass, allocMinSizeClass, allocNumFreeLists, allocMaxSizeClass] at hclass
  have heq : Nat.log 2 (d.block hole).size = c + 8 := by omega
  rw [← heq]
  exact pow_log_le_self 2 (by omega)

/-- The rounded-up class of a size, where it is not the highest. -/
theorem le_pow_of_getSizeClass {c : ℕ} (h : getSizeClass n true ≤ c) (hc : c < 7) : n ≤ 2 ^ (c + 8) := by
  simp only [getSizeClass, if_true, allocMinSizeClass, allocNumFreeLists, allocMaxSizeClass] at h
  have hlog : utilLogbase2Ceil n ≤ c + 8 := by omega
  unfold utilLogbase2Ceil at hlog
  split_ifs at hlog with hone
  · have hpow := Nat.one_le_two_pow (n := c + 8)
    omega
  · have hlt : n - 1 ||| 1 < 2 ^ (utilLogbase2 (n - 1) + 1) := lt_pow_succ_log_self (by decide) _
    have hle : n - 1 ≤ n - 1 ||| 1 := left_le_or
    have hpow : 2 ^ (utilLogbase2 (n - 1) + 1) ≤ 2 ^ (c + 8) := Nat.pow_le_pow_right (by decide) (by omega)
    omega

/-- The search finds a hole if there is one in a class that is large enough. -/
theorem findHole_complete (hok : DeviceOk d) (hmask : MaskExact d) (hnone : findHole d l n = none) {c : ℕ}
    (hc : getSizeClass n true ≤ c) {hole : BlockId} (hmem : hole ∈ (d.freeList l).freeLists c) :
    (d.block hole).size < n := by
  by_contra hge
  have hlink := (hok.sound.links.mem_iff l c hole).mp hmem
  obtain ⟨a, x, L, R, hat⟩ := hok.holeAt hmem
  have hc8 : c < 8 := by
    cases hat.link.symm.trans hlink
    exact getSizeClass_lt _ _
  have hbit := hok.sound.links.mask l c hc8 (ne_nil_of_mem hmem)
  have hffs : ∀ k < 8, (0xFF#32).getLsbD k = true := by decide
  have hset : ((d.freeList l).sizeMask.setWidth 32 &&& (0xFF#32 <<< getSizeClass n true)).getLsbD
    c = true := by
    rw [BitVec.getLsbD_and, BitVec.getLsbD_setWidth, BitVec.getLsbD_shiftLeft, hbit, hffs _ (by omega)]
    simp only [Bool.and_true, Bool.and_eq_true, decide_eq_true_eq, Bool.not_eq_true', decide_eq_false_iff_not]
    omega
  obtain ⟨i, hi, hffs, hlow⟩ := ffs_spec (by omega) hset
  rw [BitVec.getLsbD_and, BitVec.getLsbD_setWidth, BitVec.getLsbD_shiftLeft] at hlow
  simp only [Bool.and_eq_true, decide_eq_true_eq, Bool.not_eq_true', decide_eq_false_iff_not] at hlow
  have hfind : ((d.freeList l).freeLists i).find? (fun hole => ¬ (d.block hole).size < n) = none := by
    simp only [findHole, hffs] at hnone
    simpa using hnone
  rcases lt_or_ge i 7 with hi7 | hi7
  · -- any hole of a lower class than the highest fits
    obtain ⟨first, hfirst⟩ := exists_mem_of_ne_nil _ (hmask l i (show i < 8 by omega) hlow.1.2)
    have hsmall := find?_eq_none.mp hfind first hfirst
    have hsize := hok.pow_le_size hfirst hi7
    have hn := le_pow_of_getSizeClass (n := n) (c := i) (by omega) hi7
    simp only [decide_not, Bool.not_eq_true', decide_eq_false_iff_not, not_not] at hsmall
    omega
  · -- in the highest class all holes are looked at
    obtain rfl : i = c := by omega
    have hsmall := find?_eq_none.mp hfind hole hmem
    simp only [decide_not, Bool.not_eq_true', decide_eq_false_iff_not, not_not] at hsmall
    exact hge hsmall

end Search

/-! ## Runs -/

variable {gpu : Gpu}

lemma MaskExact.allocShaderMemory (h : MaskExact d) (hok : DeviceOk d)
    (replayable : Bool) (hlt : paddedSize gpu size < 2 ^ 32) :
    MaskExact (allocShaderMemory gpu d size replayable).2 := by
  have hdvd : allocAlignment ∣ paddedSize gpu size := dvd_alignUp _ _
  simp only [ShaderArena.allocShaderMemory, align_prefetch_eq hlt]
  generalize paddedSize gpu size = n at *
  generalize hl : (if replayable then FreeListId.captureReplay else .shader) = l
  cases hfind : findHole d l n with
  | none =>
    rw [← hl]
    exact h.allocFromNewArena hok replayable hlt hdvd
  | some hole =>
    obtain ⟨⟨c, hmem⟩, -⟩ := findHole_spec hfind
    obtain ⟨a, x, L, R, hat⟩ := hok.holeAt hmem
    simp only
    split_ifs
    · exact h.removeHoleIf (l := some l) hok.sound.links hat.link
    · exact h.allocFromHole hat hok n

lemma MaskExact.replayShaderArenaBlock (h : MaskExact d) (src : SerializedBlock) :
    MaskExact (replayShaderArenaBlock d src).2 := by
  have hloop : ∀ (d : Device) blockBegin blockEnd size es, MaskExact d →
      MaskExact (replayLoop d blockBegin blockEnd size es).2 := by
    intro d blockBegin blockEnd size es hd
    rcases replayLoop_spec es with heq | ⟨hole, -, -, -, -, heq⟩
    · rw [heq]
      exact hd
    · rw [heq]
      exact hd.placeBlock_none hole _ _
  apply hloop
  split
  · exact h
  · exact MaskExact.congr (h.createShaderArena none 0 src.arenaSize true src.arenaVa) rfl

theorem MaskExact.step {s s' : Sys} {op : Op} (h : MaskExact s.dev) (hs : SysOk s)
    (hfits : op.Fits gpu) (hstep : Step gpu s op s') : MaskExact s'.dev := by
  obtain ⟨hheld, rfl⟩ := hstep
  cases op with
  | alloc size replayable => exact h.allocShaderMemory hs.device replayable hfits.2
  | replay src => exact h.replayShaderArenaBlock src
  | free alloc =>
    cases alloc with
    | none => exact h
    | some b => exact h.freeShaderMemory hs.device ((hs.live_iff b).mpr (hheld b rfl))

lemma maskExact_of_run {cs : List Call} {s : Sys}
    (h : Run (only (Call.Ok gpu · ·) (StepEnv gpu)) .init cs s) : SysOk s ∧ MaskExact s.dev := by
  refine h.invariant (I := fun _ s => SysOk s ∧ MaskExact s.dev) ⟨SysOk.init, fun l c _ hbit => ?_⟩ ?_
  · have hzero : (Sys.init.dev.freeList l).sizeMask = 0 := rfl
    rw [hzero] at hbit
    simp at hbit
  · intro _ s c s' ⟨hs, hmask⟩ ⟨hok, hstep⟩
    rcases stepEnv_cases hok hstep with rfl | hstep
    · exact ⟨hs, hmask⟩
    · exact ⟨hs.step hok.1 hstep, hmask.step hs hok.1 hstep⟩

/-- An arena is there that was not there before. -/
def CreatesArena (d d' : Device) : Prop := ∃ a, d.arenas a = none ∧ d'.arenas a ≠ none

/-- An arena is only created where no hole was found. -/
theorem findHole_of_createsArena (hok : DeviceOk d) {env : Env} {replayable : Bool}
    (h : CreatesArena d (allocShaderMemoryEnv env gpu d size replayable).2) :
    findHole d (if replayable then .captureReplay else .shader)
      (align (acAlignShaderBinaryForPrefetch gpu size) allocAlignment) = none := by
  obtain ⟨a, hold, hnew⟩ := h
  simp only [allocShaderMemoryEnv] at hnew
  generalize align (acAlignShaderBinaryForPrefetch gpu size) allocAlignment = n at hnew ⊢
  generalize (if replayable then FreeListId.captureReplay else .shader) = l at hnew ⊢
  cases hfind : findHole d l n with
  | none => rfl
  | some hole =>
    obtain ⟨⟨c, hmem⟩, hle⟩ := findHole_spec hfind
    obtain ⟨a', x, L, R, hat⟩ := hok.holeAt hmem
    simp only [hfind] at hnew
    refine absurd ?_ hnew
    split_ifs with hsize
    · rw [(removeHole_sameArenas d l hole).arenas, hold]
    · exact hold
    · rw [(allocFromHole_spec hat hok (lt_of_le_of_ne hle hsize)).2.2.2.1, update_of_ne, hold]
      rintro rfl
      cases hat.arena.symm.trans hold

/-- In every run of calls that fit in which every new arena can be mapped, the bit of a list is set
exactly if the list is not empty, and a new arena is only created if no hole of a class that is
large enough fits. -/
theorem not_fits_of_createsArena {gpu : Gpu} {cs : List Call} {s : Sys}
    (h : Run (only (Call.Ok gpu · ·) (StepEnv gpu)) .init cs s) :
    (∀ l c, c < allocNumFreeLists →
      ((s.dev.freeList l).sizeMask.getLsbD c = true ↔ (s.dev.freeList l).freeLists c ≠ [])) ∧
    ∀ env size replayable, Op.Fits gpu (.alloc size replayable) →
      CreatesArena s.dev (allocShaderMemoryEnv env gpu s.dev size replayable).2 →
      ∀ c, getSizeClass (paddedSize gpu size) true ≤ c →
      ∀ hole ∈ (s.dev.freeList (if replayable then .captureReplay else .shader)).freeLists c,
        (s.dev.block hole).size < paddedSize gpu size := by
  obtain ⟨hs, hmask⟩ := maskExact_of_run h
  refine ⟨fun l c hc => ⟨hmask l c hc, hs.device.sound.links.mask l c hc⟩, ?_⟩
  intro env size replayable hfits hcreate c hc hole hmem
  have hnone := findHole_of_createsArena hs.device hcreate
  rw [align_prefetch_eq hfits.2] at hnone
  exact findHole_complete hs.device hmask hnone hc hmem

/-- Next to a shader of 600 bytes, one of 261952 bytes needs a new arena. -/
theorem not_fits_of_createsArena_oneShader :
    CreatesArena oneShader.dev (allocShaderMemoryEnv .ok gfx11 oneShader.dev 261952 false).2 ∧
      ∀ hole ∈ (oneShader.dev.freeList .shader).freeLists 7, (oneShader.dev.block hole).size < 262144 := by
  have hcreate : CreatesArena oneShader.dev
    (allocShaderMemoryEnv .ok gfx11 oneShader.dev 261952 false).2 := by
    refine ⟨1, by decide, ?_⟩
    decide
  refine ⟨hcreate, fun hole hmem => ?_⟩
  have hpadded : paddedSize gfx11 261952 = 262144 := by decide
  have hfits : Op.Fits gfx11 (.alloc 261952 false) :=
    show 0 < paddedSize gfx11 261952 ∧ paddedSize gfx11 261952 < 2 ^ 32 by decide
  have hfit := (not_fits_of_createsArena run_oneShader).2 .ok 261952 false hfits hcreate 7
    (by decide) hole hmem
  rwa [hpadded] at hfit

/-! ## Sizes that wrap -/

/-- After a request for all but 192 bytes of 4 GiB, which is padded to nothing. -/
def wrapped : Sys := (Sys.init.stepEnv gfx11 ⟨.alloc (2 ^ 32 - 192) false, .ok⟩).2

/-- After another shader is put behind the empty block. -/
def wrappedNext : Sys := (wrapped.stepEnv gfx11 ⟨.alloc 64 false, .ok⟩).2

/-- After the empty block is freed. -/
def wrappedFree : Sys := (wrappedNext.stepEnv gfx11 ⟨.free (some 0), .ok⟩).2

/-- The empty hole is on the lowest list. It hides the rest of the arena, and a new arena is
created. -/
theorem createsArena_wrapped :
    Run (StepEnv gfx11) .init
      ([] ++ [⟨.alloc (2 ^ 32 - 192) false, .ok⟩] ++ [⟨.alloc 64 false, .ok⟩] ++ [⟨.free (some 0), .ok⟩]) wrappedFree ∧
    CreatesArena wrappedFree.dev (allocShaderMemoryEnv .ok gfx11 wrappedFree.dev 64 false).2 ∧
    getSizeClass (paddedSize gfx11 64) true ≤ 7 ∧ 1 ∈ (wrappedFree.dev.freeList .shader).freeLists 7 ∧
    paddedSize gfx11 64 ≤ (wrappedFree.dev.block 1).size := by
  have hlive : wrappedNext.live.map Prod.fst = [2, 0] := by decide
  have hrun1 : Run (StepEnv gfx11) .init ([] ++ [⟨.alloc (2 ^ 32 - 192) false, .ok⟩]) wrapped :=
    .snoc .nil ⟨nofun, by decide, rfl⟩
  have hrun2 : Run (StepEnv gfx11) .init _ wrappedNext :=
    hrun1.snoc (a := ⟨.alloc 64 false, .ok⟩) ⟨nofun, by decide, rfl⟩
  have hfree : StepEnv gfx11 wrappedNext ⟨.free (some 0), .ok⟩ wrappedFree := by
    refine ⟨fun b hb => ?_, by decide, rfl⟩
    cases hb
    decide
  refine ⟨hrun2.snoc hfree, ⟨1, by decide, ?_⟩, by decide, by decide, by decide⟩
  decide

end RadvXclipse.ShaderArena
