import RadvXclipse.Shader.ArenaEdit

/-!
# Splitting a hole

`insert_block` places a block anywhere in a hole. Its steps are followed one by one: the new holes
are created outside any arena, the hole is resized and its new neighbours are linked, and the hole
leaves its free list. The whole is one `Edit` of the hole.
-/

namespace RadvXclipse.ShaderArena

open Lib Util List Function Option

/-! ## Creating the new holes -/

/-- A hole of an arena whose holes are on the list `l`. -/
abbrev holeBlock (l : Option FreeListId) (a : ArenaId) (offset size : ℕ) : Block :=
  ⟨a, offset, size, holeLink l size⟩

/-- If `c` holds a new block object `o` with contents `y` is made, in no arena yet. -/
structure HoleIf (d : Device) (c : Prop) (y : Block) (o : Option BlockId) (d' : Device) : Prop where
  sound : Sound d'
  none_iff : o = none ↔ ¬ c
  was : ∀ b ∈ o, Available d b
  unavailable : ∀ b ∈ o, ¬ Available d' b
  block : ∀ b ∈ o, d'.block b = y
  frame : ∀ b, b ∉ o → d'.block b = d.block b
  mono : ∀ b, Available d' b → Available d b
  arenas : d'.arenas = d.arenas
  tables : d.SameTables d'

lemma newHole_holeIf {d : Device} (hs : Sound d) {c : Prop} (hc : c) (l : Option FreeListId)
    (a : ArenaId) (offset size : ℕ) :
    HoleIf d c (holeBlock l a offset size) (some (newHole d l a offset size).1)
      (newHole d l a offset size).2 := by
  have halloc := allocBlockObj_allocated hs
  unfold newHole
  generalize allocBlockObj d = p at halloc
  obtain ⟨b, d1⟩ := p
  -- the object is filled in, then linked into its free list
  have hs2 : Sound (d1.setBlock b ⟨a, offset, size, .self⟩) :=
    halloc.sound.setBlock_unlinked halloc.unlinked (fun _ _ => nofun) (.inl halloc.loose)
  have hself : (d1.setBlock b ⟨a, offset, size, .self⟩).block b = ⟨a, offset, size, .self⟩ := update_self ..
  have hun : Unlinked (d1.setBlock b ⟨a, offset, size, .self⟩) b := by
    intro l' c'
    rw [hself]
    exact nofun
  have hsame := addHoleIf_sameArenas (d1.setBlock b ⟨a, offset, size, .self⟩) l b
  have hblock := addHoleIf_block _ l b (by rw [hself])
  rw [hself, show (d1.setBlock b ⟨a, offset, size, .self⟩).block =
    update d1.block b ⟨a, offset, size, .self⟩ from rfl, update_idem,
    halloc.block] at hblock
  refine ⟨hs2.addHoleIf l hun halloc.unavailable, ?_, ?_, ?_, ?_, ?_, ?_,
    hsame.arenas.trans halloc.arenas, halloc.tables.trans { hsame.toSameTables with }⟩
  · exact iff_of_false nofun (not_not_intro hc)
  · rintro _ ⟨⟩
    exact halloc.was
  · rintro _ ⟨⟩
    rw [hsame.available]
    exact halloc.unavailable
  · rintro _ ⟨⟩
    rw [hblock, update_self]
  · intro c' hc'
    rw [hblock, update_of_ne]
    rintro rfl
    exact hc' rfl
  · intro c' hc'
    rw [hsame.available] at hc'
    exact halloc.mono c' hc'

lemma newHoleIf_holeIf {d : Device} (hs : Sound d) (c : Prop) [Decidable c] (l : Option FreeListId)
    (a : ArenaId) (offset size : ℕ) :
    HoleIf d c (holeBlock l a offset size) (newHoleIf d c l a offset size).1
      (newHoleIf d c l a offset size).2 := by
  unfold newHoleIf
  split_ifs with hc
  · exact newHole_holeIf hs hc l a offset size
  · refine ⟨hs, iff_of_true rfl hc, ?_, ?_, ?_, fun _ _ => rfl, fun _ h => h, rfl, .refl d⟩
    · exact fun b hb => nomatch hb
    · exact fun b hb => nomatch hb
    · exact fun b hb => nomatch hb

/-! ## Linking them -/

/-- One arena and the block `hole` change. -/
structure Linked (d d' : Device) (a : ArenaId) (x : Arena) (es : List BlockId) (hole : BlockId)
    (y : Block) : Prop where
  sound : Sound d'
  arenas : d'.arenas = update d.arenas a (some { x with entries := es })
  block : d'.block = update d.block hole y
  available : ∀ b, Available d' b ↔ Available d b
  tables : d.SameTables d'

section Link

variable {d : Device} {a : ArenaId} {x : Arena} {L R : List BlockId} {hole : BlockId}

/-- The hole is resized and a loose block becomes its neighbour. -/
theorem Sound.link (hs : Sound d) (hx : d.arenas a = some x)
    (hent : x.entries = L ++ hole :: R) {b : BlockId} {y : Block} {es : List BlockId}
    (f : List BlockId → List BlockId) (hf : f x.entries = es) (hes : es.Perm (b :: x.entries))
    (hlink : y.freelist = (d.block hole).freelist) (harena : y.arena = (d.block hole).arena)
    (hloose : Loose d b) (hav : ¬ Available d b) (howner : (d.block b).arena = a) :
    Linked d ((d.setBlock hole y).editEntries a f) a x es hole y := by
  have hs1 : Sound (d.setBlock hole y) := hs.setBlock hlink harena
  have harenas : ((d.setBlock hole y).editEntries a f).arenas =
      Function.update d.arenas a (some { x with entries := es }) := by
    rw [editEntries_arenas (show (d.setBlock hole y).arenas a = some x from hx), hf]
    rfl
  have hne : b ≠ hole := by
    rintro rfl
    exact hloose a x hx (by rw [hent]; exact mem_append_right L mem_cons_self)
  refine ⟨hs1.insertEntry hx hes harenas rfl rfl rfl rfl hloose hav ?_, harenas, rfl,
    fun _ => Iff.rfl, ⟨rfl, rfl, rfl⟩⟩
  show (Function.update d.block hole y b).arena = a
  rw [update_of_ne hne]
  exact howner

lemma Sound.at_entry (hs : Sound d) (hx : d.arenas a = some x) (hent : x.entries = L ++ hole :: R) :
    (d.block hole).arena = a ∧ hole ∉ L ∧ hole ∉ R := by
  have hnodup := hs.nodup a x hx
  have howner := hs.owner a x hx hole
  rw [hent] at hnodup howner
  rw [perm_middle.nodup_iff, nodup_cons, mem_append, not_or] at hnodup
  exact ⟨howner (mem_append_right L mem_cons_self), hnodup.1⟩

/-- The size of an optional block. -/
def sizeIf (d : Device) (o : Option BlockId) : ℕ := o.elim 0 fun b => (d.block b).size

/-- Without a neighbour nothing changes. -/
theorem Sound.linked_self (hs : Sound d) (hx : d.arenas a = some x)
    (hent : x.entries = L ++ hole :: R) : Linked d d a x (L ++ hole :: R) hole (d.block hole) := by
  refine ⟨hs, ?_, (update_eq_self_iff.mpr rfl).symm, fun _ => Iff.rfl, .refl d⟩
  rw [← hent]
  exact (update_eq_self_iff.mpr hx.symm).symm

variable {o : Option BlockId} (hs : Sound d) (hx : d.arenas a = some x)
  (hent : x.entries = L ++ hole :: R) (hloose : ∀ b ∈ o, Loose d b)
  (hav : ∀ b ∈ o, ¬ Available d b) (howner : ∀ b ∈ o, (d.block b).arena = a)
  (hsize : sizeIf d o ≤ (d.block hole).size)
include hs hx hent hloose hav howner hsize

lemma linkLeft_linked (hfit : (d.block hole).offset + (d.block hole).size < 2 ^ 32) :
    Linked d (linkLeft d hole o) a x (L ++ (o.toList ++ hole :: R)) hole
      ⟨a, (d.block hole).offset + sizeIf d o, (d.block hole).size - sizeIf d o, (d.block hole).freelist⟩ := by
  obtain ⟨ha, hL, -⟩ := hs.at_entry hx hent
  cases o with
  | none =>
    rw [← ha]
    exact hs.linked_self (ha ▸ hx) hent
  | some b =>
    unfold linkLeft
    simp only [sizeIf, elim_some] at hsize ⊢
    rw [add32_of_lt (by omega), sub32_of_le hsize (by omega), ha]
    refine hs.link hx hent _ ?_ ?_ rfl ha.symm (hloose b rfl) (hav b rfl) (howner b rfl)
    · rw [hent, insertBefore_append hL]
      rfl
    · rw [hent]
      exact perm_middle

lemma linkRight_linked (hfit : (d.block hole).size < 2 ^ 32) :
    Linked d (linkRight d hole o) a x (L ++ hole :: (o.toList ++ R)) hole
      ⟨a, (d.block hole).offset, (d.block hole).size - sizeIf d o, (d.block hole).freelist⟩ := by
  obtain ⟨ha, hL, -⟩ := hs.at_entry hx hent
  cases o with
  | none =>
    rw [← ha]
    exact hs.linked_self (ha ▸ hx) hent
  | some b =>
    unfold linkRight
    simp only [sizeIf, elim_some] at hsize ⊢
    rw [sub32_of_le hsize hfit, ha]
    refine hs.link hx hent _ ?_ ?_ rfl ha.symm (hloose b rfl) (hav b rfl) (howner b rfl)
    · rw [hent, insertAfter_append hL]
      rfl
    · rw [hent, append_cons, append_cons L hole R]
      exact perm_middle

end Link

/-! ## The whole insertion -/

/-- The node of `hole` leaves the list it is on; nothing else changes. -/
structure Unlinks (d d' : Device) (hole : BlockId) : Prop where
  sound : Sound d'
  unlinked : Unlinked d' hole
  frame : ∀ b, b ≠ hole → d'.block b = d.block b
  arena : (d'.block hole).arena = (d.block hole).arena
  pos : d'.pos hole = d.pos hole
  same : d.SameArenas d'

lemma removeHoleIf_unlinks {d : Device} (hs : Sound d) (l : Option FreeListId) {hole : BlockId}
    {n : ℕ} (hlink : (d.block hole).freelist = holeLink l n) :
    Unlinks d (removeHoleIf d l hole) hole := by
  cases l with
  | none =>
    refine ⟨hs, fun l' c => ?_, fun _ _ => rfl, rfl, rfl, removeHoleIf_sameArenas d none hole⟩
    show (d.block hole).freelist ≠ _
    rw [hlink]
    exact nofun
  | some l =>
    have hblock := removeHole_block d l hole
    refine ⟨hs.removeHole l hole, fun l' c => ?_, fun b hb => ?_, ?_, ?_, removeHole_sameArenas d l hole⟩
    · rw [removeHoleIf, hblock, update_self]
      exact nofun
    · rw [removeHoleIf, hblock, update_of_ne hb]
    · rw [removeHoleIf, hblock, update_self]
    · rw [removeHoleIf, Device.pos, hblock, update_self]
      rfl

/-! ### The holes on both sides -/

/-- Both new holes exist, neither of them in an arena yet. -/
structure NewHoles (d : Device) (a : ArenaId) (o n : ℕ) (l : Option FreeListId)
    (offsetInHole size : ℕ) (left right : Option BlockId) (d' : Device) : Prop where
  sound : Sound d'
  frame : ∀ b, b ∉ left → b ∉ right → d'.block b = d.block b
  arenas : d'.arenas = d.arenas
  tables : d.SameTables d'
  unavailable : ∀ b, b ∈ left ∨ b ∈ right → Available d b ∧ ¬ Available d' b
  ne : ∀ b ∈ left, b ∉ right
  left_none : left = none ↔ offsetInHole = 0
  right_none : right = none ↔ n ≤ offsetInHole + size
  block_left : ∀ b ∈ left, d'.block b = holeBlock l a o offsetInHole
  block_right : ∀ b ∈ right, d'.block b =
    holeBlock l a (o + offsetInHole + size) (n - offsetInHole - size)

lemma HoleIf.newHoles {d d1 d2 : Device} {a : ArenaId} {o n offsetInHole size : ℕ}
    {l : Option FreeListId} {left right : Option BlockId}
    (h1 : HoleIf d (offsetInHole ≠ 0) (holeBlock l a o offsetInHole) left d1)
    (h2 : HoleIf d1 (n > offsetInHole + size)
      (holeBlock l a (o + offsetInHole + size) (n - offsetInHole - size)) right d2) :
    NewHoles d a o n l offsetInHole size left right d2 := by
  refine ⟨h2.sound, ?_, h2.arenas.trans h1.arenas, h1.tables.trans h2.tables,
    ?_, ?_, ?_, ?_, ?_, h2.block⟩
  · intro b hl hr
    rw [h2.frame b hr, h1.frame b hl]
  · rintro b (hb | hb)
    · exact ⟨h1.was b hb, fun hav => h1.unavailable b hb (h2.mono b hav)⟩
    · exact ⟨h1.mono b (h2.was b hb), h2.unavailable b hb⟩
  · intro b hb hb'
    exact h1.unavailable b hb (h2.was b hb')
  · rw [h1.none_iff, not_ne_iff]
  · rw [h2.none_iff, gt_iff_lt, not_lt]
  · intro b hb
    rw [h2.frame b fun hb' => h1.unavailable b hb (h2.was b hb'), h1.block b hb]

section Place

variable {d d' : Device} {a : ArenaId} {x : Arena} {L R : List BlockId} {hole : BlockId}
  {l : Option FreeListId} {offsetInHole size : ℕ} {left right : Option BlockId}

lemma NewHoles.sizeIf_left {o n : ℕ} (h : NewHoles d a o n l offsetInHole size left right d') :
    sizeIf d' left = offsetInHole := by
  cases hl : left with
  | none => exact (h.left_none.mp hl).symm
  | some b =>
    show (d'.block b).size = _
    rw [h.block_left b hl]

lemma NewHoles.sizeIf_right {o n : ℕ} (h : NewHoles d a o n l offsetInHole size left right d') :
    sizeIf d' right = n - offsetInHole - size := by
  cases hr : right with
  | none =>
    have hle := h.right_none.mp hr
    show 0 = _
    omega
  | some b =>
    show (d'.block b).size = _
    rw [h.block_right b hr]

section InHole

variable (hs : Sound d) (hx : d.arenas a = some x) (hent : x.entries = L ++ hole :: R)
  (hin : offsetInHole + size ≤ (d.block hole).size)
  (hfit : (d.block hole).offset + (d.block hole).size < 2 ^ 32)
include hs hx hent hin hfit

/-- The hole shrinks to the allocation and its new neighbours are linked. -/
theorem NewHoles.link (h : NewHoles d a (d.block hole).offset (d.block hole).size l offsetInHole
      size left right d') :
    Linked d' (linkRight (linkLeft d' hole left) hole right) a x
      (L ++ left.toList ++ hole :: (right.toList ++ R)) hole
      ⟨a, (d.block hole).offset + offsetInHole, size, (d.block hole).freelist⟩ := by
  have hmem : hole ∈ x.entries := by
    rw [hent]
    exact mem_append_right L mem_cons_self
  have hnew : ¬ (hole ∈ left ∨ hole ∈ right) := fun hb =>
    (hs.available hole (h.unavailable hole hb).1).2 a x hx hmem
  have hhole : d'.block hole = d.block hole :=
    h.frame hole (fun hb => hnew (.inl hb)) fun hb => hnew (.inr hb)
  have hloose : ∀ b, b ∈ left ∨ b ∈ right → Loose d' b := by
    intro b hb
    unfold Loose
    rw [h.arenas]
    exact (hs.available b (h.unavailable b hb).1).2
  have hx' : d'.arenas a = some x := by
    rw [h.arenas]
    exact hx
  have hleft := linkLeft_linked h.sound hx' hent (fun b hb => hloose b (.inl hb))
    (fun b hb => (h.unavailable b (.inl hb)).2) (fun b hb => by rw [h.block_left b hb])
    (by rw [h.sizeIf_left, hhole]; omega) (by rw [hhole]; exact hfit)
  rw [h.sizeIf_left, hhole] at hleft
  generalize linkLeft d' hole left = d1 at *
  -- the right hole has not changed in the meantime
  have hne : ∀ b ∈ right, b ≠ hole := by
    rintro b hb rfl
    exact hloose b (.inr hb) a x hx' hmem
  have hright : ∀ b ∈ right, d1.block b = d'.block b := by
    intro b hb
    rw [hleft.block, update_of_ne (hne b hb)]
  have hsize : sizeIf d1 right = sizeIf d' right := by
    cases hr : right with
    | none => rfl
    | some b => exact congrArg Block.size (hright b hr)
  have hhole' : d1.block hole = ⟨a, (d.block hole).offset + offsetInHole,
      (d.block hole).size - offsetInHole, (d.block hole).freelist⟩ := by
    rw [hleft.block, update_self]
  have hx'' : d1.arenas a = some { x with entries := L ++ (left.toList ++ hole :: R) } := by
    rw [hleft.arenas, update_self]
  have hloose' : ∀ b ∈ right, Loose d1 b := by
    intro b hb a' x' hxa'
    rw [hleft.arenas, update_apply, ite_eq_iff] at hxa'
    rcases hxa' with ⟨-, ⟨⟩⟩ | ⟨-, hxa'⟩
    · have hbx := hloose b (.inr hb) a x hx'
      rw [hent] at hbx
      simp only [mem_append, mem_toList, not_or] at hbx ⊢
      exact ⟨hbx.1, fun hbl => h.ne b hbl hb, hbx.2⟩
    · exact hloose b (.inr hb) a' x' hxa'
  have hle : sizeIf d1 right ≤ (d1.block hole).size := by
    rw [hsize, h.sizeIf_right, hhole']
    exact Nat.sub_le _ _
  have hlt : (d1.block hole).size < 2 ^ 32 := by
    rw [hhole']
    show (d.block hole).size - offsetInHole < 2 ^ 32
    omega
  have hlast := linkRight_linked hleft.sound hx'' (append_assoc L left.toList (hole :: R)).symm
    hloose' (fun b hb hav => (h.unavailable b (.inr hb)).2 ((hleft.available b).mp hav))
    (fun b hb => by rw [hright b hb, h.block_right b hb]) hle hlt
  have hrest : (d.block hole).size - offsetInHole - ((d.block hole).size - offsetInHole - size) = size := by
    omega
  rw [hsize, h.sizeIf_right, hhole', hrest] at hlast
  refine ⟨hlast.sound, ?_, ?_, fun b => (hlast.available b).trans (hleft.available b),
    hleft.tables.trans hlast.tables⟩
  · rw [hlast.arenas, hleft.arenas, update_idem]
  · rw [hlast.block, hleft.block, update_idem]

/-- `insert_block` is the creation of the new holes, their linking and the unlinking of the hole. -/
theorem insertBlock_newHoles (l : Option FreeListId) :
    let p1 := newHoleIf d (offsetInHole ≠ 0) l a (d.block hole).offset offsetInHole
    let p2 := newHoleIf p1.2 ((d.block hole).size > offsetInHole + size) l a
      ((d.block hole).offset + offsetInHole + size) ((d.block hole).size - offsetInHole - size)
    NewHoles d a (d.block hole).offset (d.block hole).size l offsetInHole size p1.1 p2.1 p2.2 ∧
      insertBlock d hole offsetInHole size l =
        (hole, removeHoleIf (linkRight (linkLeft p2.2 hole p1.1) hole p2.1) l hole) := by
  intro p1 p2
  obtain ⟨ha, -, -⟩ := hs.at_entry hx hent
  have h1 : HoleIf d _ _ p1.1 p1.2 := newHoleIf_holeIf hs _ l a _ _
  have hhole1 : p1.2.block hole = d.block hole :=
    h1.frame hole fun hb => (hs.available hole (h1.was hole hb)).2 a x hx (by rw [hent]; simp)
  have h2 : HoleIf p1.2 _ _ p2.1 p2.2 := newHoleIf_holeIf h1.sound _ l a _ _
  refine ⟨h1.newHoles h2, ?_⟩
  -- nothing wraps: the block lies in the hole and the hole in the arena
  have hbegin : add32 (add32 (d.block hole).offset offsetInHole) size =
      (d.block hole).offset + offsetInHole + size := by
    rw [add32_of_lt (x := (d.block hole).offset) (by omega), add32_of_lt (by omega)]
  have hend : sub32 (add32 (d.block hole).offset (d.block hole).size)
      ((d.block hole).offset + offsetInHole + size) = (d.block hole).size - offsetInHole - size := by
    rw [add32_of_lt hfit, sub32_of_le (by omega) hfit]
    omega
  have hsum : add32 offsetInHole size = offsetInHole + size := add32_of_lt (by omega)
  simp only [insertBlock, ha, hhole1, hbegin, hend, hsum, p1, p2]

end InHole

/-- The hole becomes an allocation of `size` bytes, with holes of what is left over around it. -/
theorem placeBlock_edit (hs : Sound d) (hx : d.arenas a = some x)
    (hent : x.entries = L ++ [hole] ++ R)
    (hlink : (d.block hole).freelist = holeLink l (d.block hole).size) (hsize : 0 < size)
    (hin : offsetInHole + size ≤ (d.block hole).size)
    (hfit : (d.block hole).offset + (d.block hole).size < 2 ^ 32) :
    ∃ left right : Option BlockId,
      Edit d (placeBlock d hole offsetInHole size l) a x L [hole] (left.toList ++ [hole] ++ right.toList) R ∧
      (placeBlock d hole offsetInHole size l).block hole = ⟨a, (d.block hole).offset + offsetInHole, size, .null⟩ ∧
      (∀ b ∈ left, (placeBlock d hole offsetInHole size l).block b =
        holeBlock l a (d.block hole).offset offsetInHole) ∧
      (∀ b ∈ right, (placeBlock d hole offsetInHole size l).block b =
        holeBlock l a ((d.block hole).offset + offsetInHole + size)
          ((d.block hole).size - offsetInHole - size)) := by
  have hent' : x.entries = L ++ hole :: R := by
    rw [hent, append_assoc, singleton_append]
  have hmem : hole ∈ x.entries := by
    rw [hent']
    exact mem_append_right L mem_cons_self
  obtain ⟨left, right, d2, hnew, heq⟩ : ∃ left right d2, NewHoles d a _ _ l offsetInHole size left right d2 ∧
      insertBlock d hole offsetInHole size l =
        (hole, removeHoleIf (linkRight (linkLeft d2 hole left) hole right) l hole) :=
    ⟨_, _, _, insertBlock_newHoles hs hx hent' hin hfit l⟩
  have hlinked := hnew.link hs hx hent' hin hfit
  have hlink4 : ((linkRight (linkLeft d2 hole left) hole right).block hole).freelist =
      holeLink l (d.block hole).size := by
    rw [hlinked.block, update_self]
    exact hlink
  have hun := removeHoleIf_unlinks hlinked.sound l hlink4
  generalize hd4 : linkRight (linkLeft d2 hole left) hole right = d4 at *
  have hplace : placeBlock d hole offsetInHole size l = (removeHoleIf d4 l hole).setBlock hole
      { (removeHoleIf d4 l hole).block hole with freelist := .null } := by
    unfold placeBlock
    rw [heq]
  generalize removeHoleIf d4 l hole = d5 at *
  generalize placeBlock d hole offsetInHole size l = d' at *
  -- the contents of the blocks in the end
  have hblock : ∀ b, b ≠ hole → d'.block b = d2.block b := by
    intro b hb
    rw [hplace]
    show update d5.block hole _ b = _
    rw [update_of_ne hb, hun.frame b hb, hlinked.block, update_of_ne hb]
  have hhole : d'.block hole = ⟨a, (d.block hole).offset + offsetInHole, size, .null⟩ := by
    have harena := hun.arena
    have hpos := hun.pos
    rw [hlinked.block, update_self] at harena
    rw [Device.pos, Device.pos, hlinked.block, update_self, Prod.mk.injEq] at hpos
    rw [hplace]
    show update d5.block hole _ hole = _
    rw [update_self, harena, hpos.1, hpos.2]
  have hne : ∀ b, b ∈ left ∨ b ∈ right → b ≠ hole := by
    rintro b hb rfl
    exact (hs.available b (hnew.unavailable b hb).1).2 a x hx hmem
  have hleft : ∀ b ∈ left, d'.block b = holeBlock l a (d.block hole).offset offsetInHole := by
    intro b hb
    rw [hblock b (hne b (.inl hb)), hnew.block_left b hb]
  have hright : ∀ b ∈ right, d'.block b = holeBlock l a ((d.block hole).offset + offsetInHole + size)
      ((d.block hole).size - offsetInHole - size) := by
    intro b hb
    rw [hblock b (hne b (.inr hb)), hnew.block_right b hb]
  have harenas : d'.arenas = update d.arenas a
      (some { x with entries := L ++ (left.toList ++ [hole] ++ right.toList) ++ R }) := by
    rw [hplace, show (Device.setBlock d5 hole _).arenas = d5.arenas from rfl, hun.same.arenas,
      hlinked.arenas, hnew.arenas]
    simp
  refine ⟨left, right, ⟨hx, hent, harenas, ?_, ?_, ?_, ?_, ?_⟩, hhole, hleft, hright⟩
  · rintro c e - ⟨hoff, -, hend⟩
    -- left hole, allocation and right hole, one after the other
    have hend' : c + offsetInHole + size + ((d.block hole).size - offsetInHole - size) = e := by
      have hend : c + (d.block hole).size = e := hend
      omega
    have hoff : (d.block hole).offset = c := hoff
    refine tiles_append.mpr ⟨c + offsetInHole + size, tiles_append.mpr ⟨c + offsetInHole, ?_, ?_⟩, ?_⟩
    · refine tiles_toList (fun b hb => ?_) hnew.left_none
      rw [Device.pos, hleft b hb, hoff]
    · refine ⟨?_, ?_, ?_⟩
      · rw [Device.pos, hhole, hoff]
      · rw [Device.pos, hhole]
        exact hsize
      · rw [Device.pos, hhole]
        rfl
    · rw [← hend']
      refine tiles_toList (fun b hb => ?_) (hnew.right_none.trans ?_)
      · rw [Device.pos, hright b hb, hoff]
      · omega
  · intro b hb hne'
    rw [hblock b (fun h => hne' (mem_singleton.mpr h))]
    have hold : ¬ (b ∈ left ∨ b ∈ right) := fun h =>
      hb (hs.available b (hnew.unavailable b h).1).2
    exact hnew.frame b (fun h => hold (.inl h)) fun h => hold (.inr h)
  · refine unlinked_of_subset hx harenas (by rw [hent]; grind) fun b hb => ?_
    simp only [mem_append, mem_singleton, mem_toList, not_or] at hb
    rw [hblock b hb.1.2.1.2, hnew.frame b hb.1.2.1.1 hb.1.2.2]
  · rw [hplace]
    exact hun.sound.setBlock_unlinked hun.unlinked (fun _ _ h => by cases h) (.inr rfl)
  · rw [hplace]
    exact { (hnew.tables.trans hlinked.tables).trans hun.same.toSameTables with }

end Place

end RadvXclipse.ShaderArena
