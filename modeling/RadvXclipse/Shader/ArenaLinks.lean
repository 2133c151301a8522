import RadvXclipse.Shader.Arena

/-!
# Free lists of the shader arenas

`LinkOk` says that the free lists and the `freelist` nodes of the blocks agree: a block is on a
list exactly if its node says so, at most once, and the bit of a list that is not empty is set.
This holds at every moment, also while a block's size does not match the class of the list it is
on. A set bit may outlive the last hole of its list: `insert_block` clears the bit of the class of
the *resized* hole.
-/

namespace RadvXclipse.ShaderArena

open Lib Util Function List Device

/-- The free lists and the blocks agree. -/
structure LinkOk (d : Device) : Prop where
  mem_iff : ∀ l c b, b ∈ (d.freeList l).freeLists c ↔ (d.block b).freelist = .linked l c
  nodup : ∀ l c, ((d.freeList l).freeLists c).Nodup
  mask : ∀ l c, c < allocNumFreeLists → (d.freeList l).freeLists c ≠ [] →
    (d.freeList l).sizeMask.getLsbD c = true

lemma LinkOk.congr {d d' : Device} (h : LinkOk d) (hblock : d'.block = d.block)
    (hlists : d'.freeList = d.freeList) : LinkOk d' := by
  refine ⟨?_, hlists ▸ h.nodup, hlists ▸ h.mask⟩
  rw [hblock, hlists]
  exact h.mem_iff

/-- The node is in no free list. -/
def Unlinked (d : Device) (b : BlockId) : Prop := ∀ l c, (d.block b).freelist ≠ .linked l c

/-- No arena is created, and none is entered in the lists of arenas or leaves them. -/
structure Device.SameTables (d d' : Device) : Prop where
  nextArena : d'.nextArena = d.nextArena
  shaderArenas : d'.shaderArenas = d.shaderArenas
  vas : d'.captureReplayArenaVas = d.captureReplayArenaVas

lemma Device.SameTables.refl (d : Device) : d.SameTables d := ⟨rfl, rfl, rfl⟩

lemma Device.SameTables.trans {d d' d'' : Device} (h : d.SameTables d') (h' : d'.SameTables d'') :
    d.SameTables d'' :=
  ⟨h'.nextArena.trans h.nextArena, h'.shaderArenas.trans h.shaderArenas, h'.vas.trans h.vas⟩

/-- Two devices that differ at most in their blocks and free lists. -/
structure Device.SameArenas (d d' : Device) : Prop extends d.SameTables d' where
  arenas : d'.arenas = d.arenas
  nextBlock : d'.nextBlock = d.nextBlock
  pool : d'.shaderBlockObjPool = d.shaderBlockObjPool

lemma getSizeClass_lt (size : ℕ) (roundUp : Bool) : getSizeClass size roundUp < allocNumFreeLists := by
  have h : allocNumFreeLists - 1 < allocNumFreeLists := by decide
  exact lt_of_le_of_lt (min_le_right _ _) h

/-! ## Changing a block -/

section

variable {b hole : BlockId} {x : Block} (d : Device)

lemma setBlock_sameArenas (b : BlockId) (x : Block) : d.SameArenas (d.setBlock b x) :=
  ⟨⟨rfl, rfl, rfl⟩, rfl, rfl, rfl⟩

/-- A block may change as long as its node stays where it is. -/
theorem LinkOk.setBlock {d : Device} (h : LinkOk d)
    (hx : ∀ l c, x.freelist = .linked l c ↔ (d.block b).freelist = .linked l c) :
    LinkOk (d.setBlock b x) := by
  refine ⟨fun l c b' => ?_, h.nodup, h.mask⟩
  rw [show (d.setBlock b x).freeList = d.freeList from rfl, h.mem_iff]
  by_cases hb : b' = b
  · subst hb
    simp [setBlock, hx]
  · simp [Device.setBlock, hb]

/-! ## Removing a hole -/

lemma listDelFreelist_block (hole : BlockId) :
    (d.listDelFreelist hole).block = update d.block hole { d.block hole with freelist := .null } := by
  unfold listDelFreelist
  split <;> rfl

lemma listDelFreelist_sameArenas (hole : BlockId) : d.SameArenas (d.listDelFreelist hole) := by
  unfold listDelFreelist
  split <;> exact ⟨⟨rfl, rfl, rfl⟩, rfl, rfl, rfl⟩

lemma listDelFreelist_sizeMask (hole : BlockId) (l : FreeListId) :
    ((d.listDelFreelist hole).freeList l).sizeMask = (d.freeList l).sizeMask := by
  unfold listDelFreelist
  split
  · next l' c _ =>
    by_cases hl : l = l'
    · subst hl
      simp [setBlock, setFreeList]
    · simp [setBlock, setFreeList, hl]
  · rfl
  · rfl

/-- Every list loses the node, which is in at most one of them. -/
theorem listDelFreelist_freeLists {d : Device} (h : LinkOk d) (hole : BlockId) (l : FreeListId)
    (c : ℕ) : ((d.listDelFreelist hole).freeList l).freeLists c =
      ((d.freeList l).freeLists c).erase hole := by
  have hother : (d.block hole).freelist ≠ .linked l c →
      ((d.freeList l).freeLists c).erase hole = (d.freeList l).freeLists c := by
    intro hne
    apply erase_of_not_mem
    rw [h.mem_iff]
    exact hne
  unfold listDelFreelist
  split
  · next l' c' hlink =>
    by_cases hl : l = l'
    · subst hl
      by_cases hc : c = c'
      · subst hc
        simp [setBlock, setFreeList]
      · rw [hother (by rw [hlink]; simp [Ne.symm hc])]
        simp [setBlock, setFreeList, hc]
    · rw [hother (by rw [hlink]; simp [Ne.symm hl])]
      simp [setBlock, setFreeList, hl]
  · next hlink => rw [hother (by rw [hlink]; nofun)]; rfl
  · next hlink => rw [hother (by rw [hlink]; nofun)]; rfl

lemma LinkOk.listDelFreelist {d : Device} (h : LinkOk d) (hole : BlockId) :
    LinkOk (d.listDelFreelist hole) := by
  refine ⟨fun l c b => ?_, fun l c => ?_, fun l c hlt hne => ?_⟩
  · rw [listDelFreelist_freeLists h, listDelFreelist_block, (h.nodup l c).mem_erase_iff, h.mem_iff]
    by_cases hb : b = hole
    · subst hb
      simp
    · simp [hb]
  · rw [listDelFreelist_freeLists h]
    exact (h.nodup l c).erase hole
  · rw [listDelFreelist_freeLists h] at hne
    rw [listDelFreelist_sizeMask]
    apply h.mask l c hlt
    intro hnil
    rw [hnil] at hne
    exact hne rfl

section

variable (l : FreeListId)

variable (hole : BlockId)

lemma removeHole_block :
    (removeHole d l hole).block = update d.block hole { d.block hole with freelist := .null } := by
  rw [← listDelFreelist_block]
  simp only [removeHole]
  split_ifs <;> rfl

lemma removeHole_sameArenas : d.SameArenas (removeHole d l hole) := by
  have h := listDelFreelist_sameArenas d hole
  simp only [removeHole]
  split_ifs
  · exact { h with }
  · exact h

/-- Clearing the bit of an empty list. -/
theorem LinkOk.clearBit {d : Device} (h : LinkOk d) (l : FreeListId) (c : ℕ)
    (hnil : (d.freeList l).freeLists c = []) :
    LinkOk (d.setFreeList l { d.freeList l with
      sizeMask := (d.freeList l).sizeMask &&& ~~~(1#8 <<< c) }) := by
  have hlists : ∀ l' c', ((d.setFreeList l { d.freeList l with
      sizeMask := (d.freeList l).sizeMask &&& ~~~(1#8 <<< c) }).freeList l').freeLists c' =
      (d.freeList l').freeLists c' := by
    intro l' c'
    by_cases hl : l' = l
    · subst hl
      simp [setFreeList]
    · simp [setFreeList, hl]
  refine ⟨fun l' c' b => ?_, fun l' c' => ?_, fun l' c' hlt hne => ?_⟩
  · rw [hlists]
    exact h.mem_iff l' c' b
  · rw [hlists]
    exact h.nodup l' c'
  · rw [hlists] at hne
    have hbit := h.mask l' c' hlt hne
    by_cases hl : l' = l
    · subst hl
      have hc : c' ≠ c := by
        rintro rfl
        exact hne hnil
      have hlt8 : c' < 8 := hlt
      have hoff : c' < c ∨ c' - c ≠ 0 := by omega
      simpa [setFreeList, hbit, hlt8] using hoff
    · simpa [setFreeList, hl] using hbit

lemma LinkOk.removeHole {d : Device} (h : LinkOk d) (l : FreeListId) (hole : BlockId) :
    LinkOk (removeHole d l hole) := by
  have hdel := h.listDelFreelist hole
  simp only [ShaderArena.removeHole]
  split_ifs with hempty
  · exact hdel.clearBit l _ (List.isEmpty_iff.mp hempty)
  · exact hdel

/-! ## Adding a hole -/

lemma addHole_block :
    (addHole d l hole).block = update d.block hole
      { d.block hole with freelist := .linked l (getSizeClass (d.block hole).size false) } := rfl

lemma addHole_sameArenas : d.SameArenas (addHole d l hole) := ⟨⟨rfl, rfl, rfl⟩, rfl, rfl, rfl⟩

lemma addHole_freeLists (l' : FreeListId) (c : ℕ) :
    ((addHole d l hole).freeList l').freeLists c =
      if l' = l ∧ c = getSizeClass (d.block hole).size false then
        (d.freeList l').freeLists c ++ [hole]
      else (d.freeList l').freeLists c := by
  by_cases hl : l' = l
  · subst hl
    by_cases hc : c = getSizeClass (d.block hole).size false
    · subst hc
      simp [addHole, setBlock, setFreeList]
    · simp [addHole, setBlock, setFreeList, hc]
  · simp [addHole, setBlock, setFreeList, hl]

lemma addHole_sizeMask (l' : FreeListId) {c : ℕ} (hc : c < allocNumFreeLists) :
    ((addHole d l hole).freeList l').sizeMask.getLsbD c =
      ((d.freeList l').sizeMask.getLsbD c ||
        decide (l' = l ∧ c = getSizeClass (d.block hole).size false)) := by
  have hc8 : c < 8 := hc
  by_cases hl : l' = l
  · subst hl
    simp [addHole, setBlock, setFreeList, hc8]
    congr 1
    simp only [← decide_not, ← Bool.decide_and, decide_eq_decide]
    omega
  · simp [addHole, setBlock, setFreeList, hl]

end

lemma LinkOk.addHole {d : Device} (h : LinkOk d) (l : FreeListId) (hfree : Unlinked d hole) :
    LinkOk (addHole d l hole) := by
  have hmem : ∀ l' c, hole ∉ (d.freeList l').freeLists c := by
    intro l' c
    rw [h.mem_iff]
    exact hfree l' c
  refine ⟨fun l' c b => ?_, fun l' c => ?_, fun l' c hlt hne => ?_⟩
  · rw [addHole_freeLists, addHole_block]
    by_cases hb : b = hole
    · subst hb
      rw [update_self]
      split_ifs with heq
      · simp [heq.1, heq.2]
      · simp only [hmem l' c, false_iff, Link.linked.injEq]
        exact fun hlc => heq ⟨hlc.1.symm, hlc.2.symm⟩
    · rw [update_of_ne hb, ← h.mem_iff]
      split_ifs
      · rw [mem_append, mem_singleton]
        exact or_iff_left hb
      · rfl
  · rw [addHole_freeLists]
    split_ifs
    · rw [List.nodup_append]
      refine ⟨h.nodup l' c, nodup_cons.mpr ⟨not_mem_nil, nodup_nil⟩, ?_⟩
      intro x hx y hy hxy
      rw [mem_singleton] at hy
      rw [hxy, hy] at hx
      exact hmem l' c hx
    · exact h.nodup l' c
  · rw [addHole_sizeMask d l hole l' hlt, Bool.or_eq_true]
    rw [addHole_freeLists] at hne
    split_ifs at hne with heq
    · right
      exact decide_eq_true heq
    · left
      exact h.mask l' c hlt hne

/-! ## With or without a free list -/

lemma removeHoleIf_block (l : Option FreeListId) (hole : BlockId) :
    (removeHoleIf d l hole).block = match l with
      | some _ => update d.block hole { d.block hole with freelist := .null }
      | none => d.block := by
  cases l with
  | none => rfl
  | some l => exact removeHole_block d l hole

lemma removeHoleIf_sameArenas (l : Option FreeListId) (hole : BlockId) :
    d.SameArenas (removeHoleIf d l hole) := by
  cases l with
  | none => exact ⟨⟨rfl, rfl, rfl⟩, rfl, rfl, rfl⟩
  | some l => exact removeHole_sameArenas d l hole

lemma LinkOk.removeHoleIf {d : Device} (h : LinkOk d) (l : Option FreeListId) (hole : BlockId) :
    LinkOk (removeHoleIf d l hole) := by
  cases l with
  | none => exact h
  | some l => exact h.removeHole l hole

/-- The node of a hole in an arena of the given kind. -/
def holeLink (l : Option FreeListId) (size : ℕ) : Link :=
  match l with
  | some l => .linked l (getSizeClass size false)
  | none => .self

variable (l : Option FreeListId)

lemma holeLink_ne_null (size : ℕ) : holeLink l size ≠ .null := by
  cases l <;> exact nofun

lemma of_holeLink_eq {l : Option FreeListId} {size c : ℕ} {l' : FreeListId}
    (h : holeLink l size = .linked l' c) :
    l = some l' ∧ c = getSizeClass size false := by
  cases l with
  | none => cases h
  | some l =>
    cases h
    exact ⟨rfl, rfl⟩

lemma addHoleIf_block (hole : BlockId) (hself : (d.block hole).freelist = .self) :
    (addHoleIf d l hole).block = update d.block hole
      { d.block hole with freelist := holeLink l (d.block hole).size } := by
  cases l with
  | none =>
    show d.block = _
    rw [holeLink, ← hself, update_eq_self_iff.mpr rfl]
  | some l => rfl

lemma addHoleIf_sameArenas (hole : BlockId) : d.SameArenas (addHoleIf d l hole) := by
  cases l with
  | none => exact ⟨⟨rfl, rfl, rfl⟩, rfl, rfl, rfl⟩
  | some l => exact addHole_sameArenas d l hole

end

end RadvXclipse.ShaderArena
