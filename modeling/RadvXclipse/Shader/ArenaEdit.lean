import RadvXclipse.Shader.ArenaLinks

/-!
# The invariant of the shader arenas

Two layers. `Sound` is what holds at every moment, also in the middle of an operation: the
intrusive lists agree with the blocks they link. `DeviceOk` is what holds between any two calls
into the allocator. All operations have one shape: a few neighbouring blocks of one arena are
replaced by others that cover the same part (`Edit`). `DeviceOk.edit` says once what such a step
keeps; the operations then only have to say what their new blocks look like.
-/

namespace RadvXclipse.ShaderArena

open Lib Util List Function Nat

/-! ## At every moment -/

/-- The block object is in the pool or has not been handed out by `malloc` yet. -/
def Available (d : Device) (b : BlockId) : Prop := b ∈ d.shaderBlockObjPool ∨ d.nextBlock ≤ b

/-- The block is in no arena. -/
def Loose (d : Device) (b : BlockId) : Prop := ∀ a x, d.arenas a = some x → b ∉ x.entries

structure PoolOk (d : Device) : Prop where
  nodup : d.shaderBlockObjPool.Nodup
  lt : ∀ b ∈ d.shaderBlockObjPool, b < d.nextBlock

/-- The lists and the blocks agree. -/
structure Sound (d : Device) : Prop where
  links : LinkOk d
  pool : PoolOk d
  available : ∀ b, Available d b → Unlinked d b ∧ Loose d b
  nodup : ∀ a x, d.arenas a = some x → x.entries.Nodup
  owner : ∀ a x, d.arenas a = some x → ∀ b ∈ x.entries, (d.block b).arena = a

section

variable {d d' : Device} {b hole : BlockId} {y : Block} {a : ArenaId} {x : Arena}

lemma Device.SameArenas.available (h : d.SameArenas d') : Available d' b ↔ Available d b := by
  unfold Available
  rw [h.pool, h.nextBlock]

lemma Device.SameArenas.loose (h : d.SameArenas d') : Loose d' b ↔ Loose d b := by
  unfold Loose
  rw [h.arenas]

section

variable (h : Sound d)
include h

/-- One block changes, and its arena does not unless it is in none. -/
theorem Sound.update (hsame : d.SameArenas d') (hblock : d'.block = update d.block b y)
    (hlinks : LinkOk d') (hun : Available d b → Unlinked d' b)
    (howner : Loose d b ∨ y.arena = (d.block b).arena) : Sound d' := by
  refine ⟨hlinks, ⟨?_, ?_⟩, ?_, ?_, ?_⟩
  · rw [hsame.pool]
    exact h.pool.nodup
  · rw [hsame.pool, hsame.nextBlock]
    exact h.pool.lt
  · intro c hc
    rw [hsame.available] at hc
    rw [hsame.loose]
    refine ⟨?_, (h.available c hc).2⟩
    by_cases hcb : c = b
    · subst hcb
      exact hun hc
    · unfold Unlinked
      rw [hblock, update_of_ne hcb]
      exact (h.available c hc).1
  · rw [hsame.arenas]
    exact h.nodup
  · rw [hsame.arenas]
    intro a x hx c hc
    by_cases hcb : c = b
    · subst hcb
      rw [hblock, update_self]
      rcases howner with hloose | hsame'
      · exact absurd hc (hloose a x hx)
      · rw [hsame']
        exact h.owner a x hx c hc
    · rw [hblock, update_of_ne hcb]
      exact h.owner a x hx c hc

/-- A block's offset and size may change freely. -/
theorem Sound.setBlock (hlink : y.freelist = (d.block b).freelist)
    (harena : y.arena = (d.block b).arena) : Sound (d.setBlock b y) := by
  refine h.update (setBlock_sameArenas d b y) rfl (h.links.setBlock fun _ _ => by rw [hlink]) ?_ (.inr harena)
  intro hav l c
  rw [show (d.setBlock b y).block b = y from update_self .., hlink]
  exact (h.available b hav).1 l c

lemma Sound.setBlock_unlinked (hun : Unlinked d b) (hy : ∀ l c, y.freelist ≠ .linked l c)
    (howner : Loose d b ∨ y.arena = (d.block b).arena) : Sound (d.setBlock b y) := by
  refine h.update (setBlock_sameArenas d b y) rfl
    (h.links.setBlock fun l c => iff_of_false (hy l c) (hun l c)) ?_
    howner
  intro _ l c
  rw [show (d.setBlock b y).block b = y from update_self ..]
  exact hy l c

lemma Sound.removeHole (l : FreeListId) (hole : BlockId) : Sound (removeHole d l hole) := by
  refine h.update (removeHole_sameArenas d l hole) (removeHole_block d l hole)
    (h.links.removeHole l hole) ?_ (.inr rfl)
  intro _ l' c
  rw [removeHole_block, update_self]
  exact nofun

lemma Sound.addHole (l : FreeListId) (hun : Unlinked d hole) (hav : ¬ Available d hole) :
    Sound (addHole d l hole) :=
  h.update (addHole_sameArenas d l hole) (addHole_block d l hole) (h.links.addHole l hun)
    (fun hav' => absurd hav' hav) (.inr rfl)

lemma Sound.addHoleIf (l : Option FreeListId) (hun : Unlinked d hole) (hav : ¬ Available d hole) :
    Sound (addHoleIf d l hole) := by
  cases l with
  | none => exact h
  | some l => exact h.addHole l hun hav

end

/-- The lists and the blocks do not depend on the lists of arenas. -/
theorem Sound.tables (h : Sound d) (next : ArenaId) (list : List ArenaId) (shift : ℕ)
    (vas : List (BitVec 64 × ArenaId)) :
    Sound { d with nextArena := next, shaderArenas := list, shaderArenaShift := shift,
                   captureReplayArenaVas := vas } :=
  ⟨h.links.congr rfl rfl, ⟨h.pool.nodup, h.pool.lt⟩, h.available, h.nodup, h.owner⟩

/-! ### Block objects -/

/-- What a freshly allocated block object is like. -/
structure Allocated (d : Device) (b : BlockId) (d' : Device) : Prop where
  sound : Sound d'
  was : Available d b
  block : d'.block = d.block
  freeList : d'.freeList = d.freeList
  arenas : d'.arenas = d.arenas
  tables : d.SameTables d'
  unlinked : Unlinked d' b
  loose : Loose d' b
  unavailable : ¬ Available d' b
  mono : ∀ c, Available d' c → Available d c

lemma allocBlockObj_allocated (h : Sound d) : Allocated d (allocBlockObj d).1 (allocBlockObj d).2 := by
  unfold allocBlockObj
  split
  · next b rest hpool =>
    have hnodup := h.pool.nodup
    have hlt := h.pool.lt
    rw [hpool] at hnodup hlt
    rw [nodup_cons] at hnodup
    have hav : Available d b := .inl (by rw [hpool]; exact mem_cons_self)
    have hsub : ∀ c, Available { d with shaderBlockObjPool := rest } c → Available d c := by
      intro c hc
      rcases hc with hc | hc
      · exact .inl (by rw [hpool]; exact mem_cons_of_mem b hc)
      · exact .inr hc
    refine ⟨⟨h.links.congr rfl rfl, ⟨hnodup.2, fun c hc => hlt c (mem_cons_of_mem b hc)⟩, ?_,
      h.nodup, h.owner⟩,
      hav, rfl, rfl, rfl, ⟨rfl, rfl, rfl⟩, (h.available b hav).1, (h.available b hav).2, ?_, hsub⟩
    · intro c hc
      exact h.available c (hsub c hc)
    · intro hc
      rcases hc with hc | hc
      · exact hnodup.1 hc
      · exact absurd (hlt b mem_cons_self) (not_lt.mpr hc)
  · next hpool =>
    have hav : Available d d.nextBlock := .inr (le_refl _)
    have hsub : ∀ c, Available { d with nextBlock := d.nextBlock + 1 } c → Available d c := by
      intro c hc
      rcases hc with hc | hc
      · exact .inl hc
      · exact .inr (le_of_succ_le hc)
    refine ⟨⟨h.links.congr rfl rfl, ⟨h.pool.nodup, ?_⟩, ?_, h.nodup, h.owner⟩,
      hav, rfl, rfl, rfl, ⟨rfl, rfl, rfl⟩, (h.available _ hav).1, (h.available _ hav).2, ?_, hsub⟩
    · intro c hc
      exact lt_succ_of_lt (h.pool.lt c hc)
    · intro c hc
      exact h.available c (hsub c hc)
    · intro hc
      rcases hc with hc | hc
      · exact absurd (h.pool.lt _ hc) (lt_irrefl _)
      · exact absurd hc (not_succ_le_self _)

/-- An entry list may become any list of blocks of its arena without repetitions. -/
theorem Sound.setEntries (h : Sound d) (harenas : d'.arenas = Function.update d.arenas a (some x))
    (hblock : d'.block = d.block) (hlists : d'.freeList = d.freeList) (hpool : PoolOk d')
    (hnodup : x.entries.Nodup) (howner : ∀ b ∈ x.entries, (d.block b).arena = a)
    (hav : ∀ b, Available d' b → Unlinked d b ∧ b ∉ x.entries ∧
      ∀ a' x', a' ≠ a → d.arenas a' = some x' → b ∉ x'.entries) : Sound d' := by
  have hcases : ∀ a' x', d'.arenas a' = some x' → (a' = a ∧ x' = x) ∨ (a' ≠ a ∧ d.arenas a' = some x') := by
    intro a' x' hx'
    rw [harenas] at hx'
    rw [update_apply, ite_eq_iff] at hx'
    exact hx'.imp_left fun ⟨ha, heq⟩ => ⟨ha, (Option.some.inj heq).symm⟩
  refine ⟨h.links.congr hblock hlists, hpool, ?_, ?_, ?_⟩
  · intro b hb
    refine ⟨?_, fun a' x' hx' => ?_⟩
    · unfold Unlinked
      rw [hblock]
      exact (hav b hb).1
    · rcases hcases a' x' hx' with ⟨rfl, rfl⟩ | ⟨ha, hx'⟩
      · exact (hav b hb).2.1
      · exact (hav b hb).2.2 a' x' ha hx'
  · intro a' x' hx'
    rcases hcases a' x' hx' with ⟨rfl, rfl⟩ | ⟨_, hx'⟩
    · exact hnodup
    · exact h.nodup a' x' hx'
  · intro a' x' hx' b hb
    rw [hblock]
    rcases hcases a' x' hx' with ⟨rfl, rfl⟩ | ⟨_, hx'⟩
    · exact howner b hb
    · exact h.owner a' x' hx' b hb

lemma editEntries_arenas (hx : d.arenas a = some x) (f : List BlockId → List BlockId) :
    (d.editEntries a f).arenas = update d.arenas a (some { x with entries := f x.entries }) := by
  unfold Device.editEntries
  rw [hx]
  rfl

/-- A loose block enters an arena. -/
theorem Sound.insertEntry (h : Sound d) (hx : d.arenas a = some x) {es : List BlockId}
    (hes : es.Perm (b :: x.entries))
    (harenas : d'.arenas = Function.update d.arenas a (some { x with entries := es }))
    (hblock : d'.block = d.block) (hlists : d'.freeList = d.freeList)
    (hpool : d'.shaderBlockObjPool = d.shaderBlockObjPool) (hnext : d'.nextBlock = d.nextBlock)
    (hloose : Loose d b) (hav : ¬ Available d b) (howner : (d.block b).arena = a) : Sound d' := by
  have hav' : ∀ c, Available d' c → Available d c := by
    intro c hc
    unfold Available at hc ⊢
    rw [hpool, hnext] at hc
    exact hc
  refine h.setEntries harenas hblock hlists ⟨?_, ?_⟩ ?_ ?_ ?_
  · rw [hpool]
    exact h.pool.nodup
  · rw [hpool, hnext]
    exact h.pool.lt
  · exact hes.nodup_iff.mpr (nodup_cons.mpr ⟨hloose a x hx, h.nodup a x hx⟩)
  · intro c hc
    rcases mem_cons.mp (hes.mem_iff.mp hc) with rfl | hc
    · exact howner
    · exact h.owner a x hx c hc
  · intro c hc
    have hc' := h.available c (hav' c hc)
    refine ⟨hc'.1, fun hmem => ?_, fun a' x' _ hx' => hc'.2 a' x' hx'⟩
    rcases mem_cons.mp (hes.mem_iff.mp hmem) with rfl | hmem
    · exact hav (hav' c hc)
    · exact hc'.2 a x hx hmem

lemma freeBlockObj_arenas (hx : d.arenas (d.block b).arena = some x) : (freeBlockObj d b).arenas =
      update d.arenas (d.block b).arena (some { x with entries := x.entries.erase b }) :=
  editEntries_arenas hx fun l => l.erase b

lemma Sound.freeBlockObj (h : Sound d) (hx : d.arenas a = some x) (hb : b ∈ x.entries)
    (hun : Unlinked d b) : Sound (freeBlockObj d b) := by
  have howner := h.owner a x hx b hb
  have hav : ¬ Available d b := fun hav => (h.available b hav).2 a x hx hb
  have harenas := freeBlockObj_arenas (show d.arenas (d.block b).arena = some x by rw [howner]; exact hx)
  rw [howner] at harenas
  refine h.setEntries harenas rfl rfl ⟨?_, ?_⟩ ((h.nodup a x hx).erase b) ?_ ?_
  · exact nodup_cons.mpr ⟨fun hmem => hav (.inl hmem), h.pool.nodup⟩
  · exact forall_mem_cons.mpr ⟨Nat.lt_of_not_le fun hle => hav (.inr hle), h.pool.lt⟩
  · intro c hc
    exact h.owner a x hx c (mem_of_mem_erase hc)
  · intro c hc
    -- the freed block is in no arena any more; the others were available before
    have hcases : c = b ∨ Available d c := by
      rcases hc with hc | hc
      · rcases mem_cons.mp hc with rfl | hc
        · exact .inl rfl
        · exact .inr (.inl hc)
      · exact .inr (.inr hc)
    rcases hcases with rfl | hc
    · refine ⟨hun, fun hmem => ?_, fun a' x' ha hx' hmem => ?_⟩
      · exact absurd rfl ((h.nodup a x hx).mem_erase_iff.mp hmem).1
      · exact ha ((h.owner a' x' hx' c hmem).symm.trans howner)
    · have hc' := h.available c hc
      exact ⟨hc'.1, fun hmem => hc'.2 a x hx (mem_of_mem_erase hmem), fun a' x' _ hx' => hc'.2 a' x' hx'⟩

/-! ## Between calls -/

/-- Offset and size of a block. -/
def Device.pos (d : Device) (b : BlockId) : ℕ × ℕ := ((d.block b).offset, (d.block b).size)

/-- A block is a hole if `freelist.prev` is not `NULL`. -/
def Device.IsHole (d : Device) (b : BlockId) : Prop := (d.block b).freelist ≠ .null

instance (d : Device) (b : BlockId) : Decidable (d.IsHole b) :=
  inferInstanceAs (Decidable ((d.block b).freelist ≠ .null))

/-- The entries of an arena tile it, without adjacent holes, and its holes are where their kind
of arena wants them. -/
structure ArenaOk (d : Device) (x : Arena) : Prop where
  tiles : Tiles d.pos 0 x.entries x.size
  size : x.size < 2 ^ 32
  apart : Apart d.IsHole x.entries
  link : ∀ b ∈ x.entries, d.IsHole b →
    (d.block b).freelist = holeLink x.type.freeList (d.block b).size
  aligned : x.type ≠ .replayed → ∀ b ∈ x.entries,
    allocAlignment ∣ (d.block b).offset ∧ allocAlignment ∣ (d.block b).size

structure DeviceOk (d : Device) : Prop where
  sound : Sound d
  loose : ∀ b, Loose d b → Unlinked d b
  arena : ∀ a x, d.arenas a = some x → ArenaOk d x
  fresh : ∀ a, d.nextArena ≤ a → d.arenas a = none
  vas : ∀ e ∈ d.captureReplayArenaVas, ∃ x, d.arenas e.2 = some x ∧ x.type = .replayed
  vas_nodup : (d.captureReplayArenaVas.map Prod.snd).Nodup
  listed : ∀ a ∈ d.shaderArenas, d.arenas a ≠ none
  listed_nodup : d.shaderArenas.Nodup

lemma isHole_congr (h : d'.block b = d.block b) : d'.IsHole b ↔ d.IsHole b := by
  rw [Device.IsHole, Device.IsHole, h]

lemma pos_congr (h : d'.block b = d.block b) : d'.pos b = d.pos b := by
  rw [Device.pos, Device.pos, h]

lemma ArenaOk.congr (h : ArenaOk d x) (heq : ∀ b ∈ x.entries, d'.block b = d.block b) : ArenaOk d' x := by
  refine ⟨h.tiles.congr fun b hb => pos_congr (heq b hb), h.size,
    h.apart.congr fun b hb => (isHole_congr (heq b hb)).mp, ?_, ?_⟩
  · intro b hb hhole
    rw [isHole_congr (heq b hb)] at hhole
    rw [heq b hb]
    exact h.link b hb hhole
  · intro htype b hb
    rw [heq b hb]
    exact h.aligned htype b hb

/-- The lists of arenas may become any lists of arenas that exist. -/
theorem DeviceOk.tables (h : DeviceOk d) (shift : ℕ) {list : List ArenaId}
    {vas : List (BitVec 64 × ArenaId)} (hlist : ∀ a ∈ list, d.arenas a ≠ none) (hnodup : list.Nodup)
    (hvas : ∀ e ∈ vas, ∃ x, d.arenas e.2 = some x ∧ x.type = .replayed)
    (hvas' : (vas.map Prod.snd).Nodup) :
    DeviceOk { d with shaderArenas := list, shaderArenaShift := shift, captureReplayArenaVas := vas } :=
  ⟨h.sound.tables .., h.loose, fun a x hx => (h.arena a x hx).congr fun _ _ => rfl, h.fresh, hvas,
    hvas', hlist, hnodup⟩

/-! ## Replacing neighbouring blocks -/

/-- In arena `a` the blocks `m` between `l` and `r` are replaced by `m'`, which cover the same
part of the arena. Only they and blocks in no arena change. -/
structure Edit (d d' : Device) (a : ArenaId) (x : Arena) (l m m' r : List BlockId) : Prop where
  old : d.arenas a = some x
  entries : x.entries = l ++ m ++ r
  new : d'.arenas = update d.arenas a (some { x with entries := l ++ m' ++ r })
  tiles : ∀ c e, e < 2 ^ 32 → Tiles d.pos c m e → Tiles d'.pos c m' e
  frame : ∀ b, ¬ Loose d b → b ∉ m → d'.block b = d.block b
  unlinked : (∀ b, Loose d b → Unlinked d b) → ∀ b, Loose d' b → Unlinked d' b
  sound : Sound d'
  tables : d.SameTables d'

lemma not_loose (hx : d.arenas a = some x) (hb : b ∈ x.entries) : ¬ Loose d b :=
  fun h => h a x hx hb

/-- If one arena gains blocks and only its blocks change, then those in no arena are on no list
either. -/
theorem unlinked_of_subset {x' : Arena} (hx : d.arenas a = some x)
    (harenas : d'.arenas = update d.arenas a (some x')) (hsub : x.entries ⊆ x'.entries)
    (hframe : ∀ b ∉ x'.entries, d'.block b = d.block b) (hun : ∀ b, Loose d b → Unlinked d b) :
    ∀ b, Loose d' b → Unlinked d' b := by
  intro b hb l c
  rw [hframe b (hb a x' (by rw [harenas, update_self]))]
  refine hun b (fun a' y hy hmem => ?_) l c
  by_cases ha : a' = a
  · subst ha
    cases hx.symm.trans hy
    exact hb a' x' (by rw [harenas, update_self]) (hsub hmem)
  · refine hb a' y ?_ hmem
    rw [harenas, update_of_ne ha]
    exact hy

end

section Edit

variable {d d' d'' : Device} {a : ArenaId} {x : Arena} {l m m' m'' r : List BlockId}

/-- Only the node of one block changes. -/
theorem Edit.relink (hs : Sound d') (hx : d.arenas a = some x) {hole : BlockId}
    (hent : x.entries = l ++ [hole] ++ r) (hsame : d.SameArenas d') {y : Block}
    (hblock : d'.block = update d.block hole y) (hpos : (y.offset, y.size) = d.pos hole) :
    Edit d d' a x l [hole] [hole] r := by
  have hmem : hole ∈ x.entries := by
    rw [hent, mem_append, mem_append]
    exact .inl (.inr (mem_singleton_self hole))
  have hne : ∀ b, b ≠ hole → d'.block b = d.block b := by
    intro b hb
    rw [hblock, update_of_ne hb]
  refine ⟨hx, hent, ?_, ?_, ?_, ?_, hs, hsame.toSameTables⟩
  · rw [hsame.arenas, ← hent]
    exact (update_eq_self_iff.mpr hx.symm).symm
  · intro c e _ htiles
    refine htiles.congr fun b hb => ?_
    rw [mem_singleton.mp hb, Device.pos, hblock, update_self]
    exact hpos
  · intro b _ hb
    exact hne b fun heq => hb (mem_singleton.mpr heq)
  · intro hun b hb l' c
    rw [hsame.loose] at hb
    rw [hne b fun heq => not_loose hx hmem (heq ▸ hb)]
    exact hun b hb l' c

lemma Edit.arena_self (h : Edit d d' a x l m m' r) :
    d'.arenas a = some { x with entries := l ++ m' ++ r } := by
  rw [h.new, update_self]

lemma Edit.arena_other (h : Edit d d' a x l m m' r) {a' : ArenaId} (ha : a' ≠ a) :
    d'.arenas a' = d.arenas a' := by
  rw [h.new, update_of_ne ha]

lemma mem_middle {b : BlockId} : b ∈ l ++ m ++ r ↔ b ∈ m ∨ b ∈ l ++ r := by
  rw [mem_append, mem_append, mem_append]
  tauto

lemma Edit.mem_entries (h : Edit d d' a x l m m' r) {b : BlockId} :
    b ∈ x.entries ↔ b ∈ m ∨ b ∈ l ++ r := by
  rw [h.entries]
  exact mem_middle

lemma not_mem_middle (h : (l ++ m ++ r).Nodup) {b : BlockId} (hb : b ∈ l ++ r) : b ∉ m := by
  intro hm
  rw [nodup_append, nodup_append] at h
  rcases mem_append.mp hb with hl | hr
  · exact h.1.2.2 b hl b hm rfl
  · exact h.2.2 b (mem_append_right l hm) b hr rfl

section

variable (h : Edit d d' a x l m m' r)
include h

/-- The blocks around the middle stay as they are. -/
theorem Edit.frame_rest (hs : Sound d) {b : BlockId} (hb : b ∈ l ++ r) :
    d'.block b = d.block b := by
  have hnodup := hs.nodup a x h.old
  rw [h.entries] at hnodup
  exact h.frame b (not_loose h.old (h.mem_entries.mpr (.inr hb))) (not_mem_middle hnodup hb)

/-- The other arenas do not notice. -/
theorem Edit.frame_other (hs : Sound d) {a' : ArenaId} {x' : Arena} (ha : a' ≠ a)
    (hx' : d.arenas a' = some x') {b : BlockId} (hb : b ∈ x'.entries) : d'.block b = d.block b := by
  refine h.frame b (not_loose hx' hb) fun hm => ?_
  have h1 := hs.owner a' x' hx' b hb
  have h2 := hs.owner a x h.old b (h.mem_entries.mpr (.inl hm))
  exact ha (h1.symm.trans h2)

lemma Edit.trans (hs : Sound d) (h' : Edit d' d'' a { x with entries := l ++ m' ++ r } l m' m'' r) :
    Edit d d'' a x l m m'' r := by
  refine ⟨h.old, h.entries, ?_, ?_, ?_, fun hun => h'.unlinked (h.unlinked hun), h'.sound,
    h.tables.trans h'.tables⟩
  · rw [h'.new, h.new, update_idem]
  · intro c e he htiles
    exact h'.tiles c e he (h.tiles c e he htiles)
  · intro b hb hm
    -- such a block is in an arena, and outside the middle also after the first edit
    obtain ⟨a', x', hx', hmem⟩ : ∃ a' x', d.arenas a' = some x' ∧ b ∈ x'.entries := by
      simpa [Loose] using hb
    by_cases ha : a' = a
    · subst ha
      cases h.old.symm.trans hx'
      have hrest := (h.mem_entries.mp hmem).resolve_left hm
      rw [h'.frame_rest h.sound hrest, h.frame_rest hs hrest]
    · have hx'' : d'.arenas a' = some x' := by
        rw [h.arena_other ha]
        exact hx'
      rw [h'.frame_other h.sound ha hx'' hmem, h.frame_other hs ha hx' hmem]

/-- The edited arena, if its new blocks are in order. -/
theorem Edit.arenaOk (hok : DeviceOk d) (hlast : ∀ b ∈ l.getLast?, ¬ d.IsHole b)
    (hhead : ∀ b ∈ r.head?, ¬ d.IsHole b) (hapart : Apart d'.IsHole m')
    (hlink : ∀ b ∈ m', d'.IsHole b → (d'.block b).freelist = holeLink x.type.freeList (d'.block b).size)
    (haligned : x.type ≠ .replayed → ∀ b ∈ m',
      allocAlignment ∣ (d'.block b).offset ∧ allocAlignment ∣ (d'.block b).size) :
    ArenaOk d' { x with entries := l ++ m' ++ r } := by
  have hx := hok.arena a x h.old
  have htiles := hx.tiles
  have hchain := hx.apart
  rw [h.entries] at htiles hchain
  have hrest : ∀ b ∈ l ++ r, d'.block b = d.block b := fun b hb => h.frame_rest hok.sound hb
  have hmem : ∀ b ∈ l ++ r, b ∈ x.entries := fun b hb => h.mem_entries.mpr (.inr hb)
  refine ⟨?_, hx.size, ?_, ?_, ?_⟩
  · -- the middle ends inside the arena, so nothing wraps
    obtain ⟨e, hlm, hr⟩ := tiles_append.mp htiles
    obtain ⟨c, hl, hm⟩ := tiles_append.mp hlm
    have hle := hr.le
    have hsize := hx.size
    have hm' := h.tiles c e (by omega) hm
    refine tiles_append.mpr ⟨e, tiles_append.mpr ⟨c, hl.congr ?_, hm'⟩, hr.congr ?_⟩
    · exact fun b hb => pos_congr (hrest b (mem_append_left r hb))
    · exact fun b hb => pos_congr (hrest b (mem_append_right l hb))
  · unfold Apart at hchain
    rw [isChain_append, isChain_append] at hchain
    have hsame : ∀ b ∈ l ++ r, d'.IsHole b → d.IsHole b := fun b hb => (isHole_congr (hrest b hb)).mp
    refine Apart.splice ?_ ?_ hapart ?_ ?_
    · exact Apart.congr hchain.1.1 fun b hb => hsame b (mem_append_left r hb)
    · exact Apart.congr hchain.2.1 fun b hb => hsame b (mem_append_right l hb)
    · intro b hb hhole
      exact hlast b hb (hsame b (mem_append_left r (mem_of_getLast? hb)) hhole)
    · intro b hb hhole
      exact hhead b hb (hsame b (mem_append_right l (mem_of_mem_head? hb)) hhole)
  · intro b hb hhole
    rcases mem_middle.mp hb with hb | hb
    · exact hlink b hb hhole
    · rw [isHole_congr (hrest b hb)] at hhole
      rw [hrest b hb]
      exact hx.link b (hmem b hb) hhole
  · intro htype b hb
    rcases mem_middle.mp hb with hb | hb
    · exact haligned htype b hb
    · rw [hrest b hb]
      exact hx.aligned htype b (hmem b hb)

end

/-- An edit whose arena is in order keeps the invariant. -/
theorem DeviceOk.edit (hok : DeviceOk d) (h : Edit d d' a x l m m' r)
    (harena : ArenaOk d' { x with entries := l ++ m' ++ r }) : DeviceOk d' := by
  refine ⟨h.sound, h.unlinked hok.loose, ?_, ?_, ?_, h.tables.vas ▸ hok.vas_nodup, fun a' ha' => ?_,
    h.tables.shaderArenas ▸ hok.listed_nodup⟩
  · intro a' x' hx'
    rw [h.new, update_apply, ite_eq_iff] at hx'
    rcases hx' with ⟨rfl, ⟨⟩⟩ | ⟨ha, hx'⟩
    · exact harena
    · exact (hok.arena a' x' hx').congr fun b hb => h.frame_other hok.sound ha hx' hb
  · intro a' ha'
    rw [h.tables.nextArena] at ha'
    have hnone := hok.fresh a' ha'
    rw [h.arena_other, hnone]
    rintro rfl
    rw [h.old] at hnone
    exact nomatch hnone
  · rw [h.tables.vas]
    intro e he
    obtain ⟨x', hx', htype⟩ := hok.vas e he
    by_cases ha : e.2 = a
    · rw [ha] at hx' ⊢
      cases h.old.symm.trans hx'
      exact ⟨_, h.arena_self, htype⟩
    · rw [h.arena_other ha]
      exact ⟨x', hx', htype⟩
  · rw [h.tables.shaderArenas] at ha'
    rw [h.new, update_apply]
    split_ifs
    · exact nofun
    · exact hok.listed a' ha'

end Edit

end RadvXclipse.ShaderArena
