import RadvXclipse.Shader.ArenaInsert

/-!
# Allocating shader memory

`radv_alloc_shader_memory` takes a hole of exactly the right size, splits a larger one or creates
an arena. In all three cases the device gains one live block (`Allocates`).
-/

namespace RadvXclipse.ShaderArena

open Lib Util List Function Nat

/-! ## Live blocks -/

/-- A block of an arena that is not a hole. -/
def Live (d : Device) (b : BlockId) : Prop :=
  ∃ a x, d.arenas a = some x ∧ b ∈ x.entries ∧ ¬ d.IsHole b

variable {d : Device} {b : BlockId}

lemma Live.not_loose (h : Live d b) : ¬ Loose d b := by
  obtain ⟨a, x, hx, hb, -⟩ := h
  exact ShaderArena.not_loose hx hb

/-- An edit replaces the live blocks of the middle. -/
theorem Edit.live_iff {d d' : Device} {a : ArenaId} {x : Arena} {l m m' r : List BlockId}
    (h : Edit d d' a x l m m' r) (hs : Sound d) (b : BlockId) :
    Live d' b ↔ (b ∈ m' ∧ ¬ d'.IsHole b) ∨ (b ∉ m ∧ Live d b) := by
  constructor
  · rintro ⟨a', x', hx', hb, hhole⟩
    rw [h.new, update_apply, ite_eq_iff] at hx'
    rcases hx' with ⟨rfl, ⟨⟩⟩ | ⟨ha, hx'⟩
    · rcases mem_middle.mp hb with hb | hb
      · exact .inl ⟨hb, hhole⟩
      · have hnodup := hs.nodup a' x h.old
        rw [h.entries] at hnodup
        rw [isHole_congr (h.frame_rest hs hb)] at hhole
        exact .inr ⟨not_mem_middle hnodup hb, a', x, h.old, h.mem_entries.mpr (.inr hb), hhole⟩
    · rw [isHole_congr (h.frame_other hs ha hx' hb)] at hhole
      refine .inr ⟨fun hm => ?_, a', x', hx', hb, hhole⟩
      have h1 := hs.owner a' x' hx' b hb
      have h2 := hs.owner a x h.old b (h.mem_entries.mpr (.inl hm))
      exact ha (h1.symm.trans h2)
  · rintro (⟨hb, hhole⟩ | ⟨hm, a', x', hx', hb, hhole⟩)
    · exact ⟨a, _, h.arena_self, mem_middle.mpr (.inl hb), hhole⟩
    · have hblock := h.frame b (not_loose hx' hb) hm
      rw [← isHole_congr hblock] at hhole
      by_cases ha : a' = a
      · subst ha
        cases h.old.symm.trans hx'
        exact ⟨a', _, h.arena_self, mem_middle.mpr (.inr ((h.mem_entries.mp hb).resolve_left hm)), hhole⟩
      · exact ⟨a', x', by rw [h.arena_other ha]; exact hx', hb, hhole⟩

/-- Block `b` becomes live; the other live blocks do not change and no arena disappears. -/
structure Allocates (d d' : Device) (b : BlockId) : Prop where
  ok : DeviceOk d'
  fresh : ¬ Live d b
  live_iff : ∀ c, Live d' c ↔ Live d c ∨ c = b
  frame : ∀ c, Live d c → d'.block c = d.block c
  arenas : ∀ a, d.arenas a ≠ none → d'.arenas a ≠ none

/-- The live blocks do not change and no arena disappears. -/
structure Keeps (d d' : Device) : Prop where
  ok : DeviceOk d'
  live_iff : ∀ c, Live d' c ↔ Live d c
  frame : ∀ c, Live d c → d'.block c = d.block c
  arenas : ∀ a, d.arenas a ≠ none → d'.arenas a ≠ none

lemma Keeps.allocates {d' d'' : Device} (h : Keeps d d')
    (h' : Allocates d' d'' b) : Allocates d d'' b where
  ok := h'.ok
  fresh hlive := h'.fresh ((h.live_iff b).mpr hlive)
  live_iff c := by rw [h'.live_iff, h.live_iff]
  frame c hc := by rw [h'.frame c ((h.live_iff c).mpr hc), h.frame c hc]
  arenas a ha := h'.arenas a (h.arenas a ha)

variable {hole : BlockId}

/-- A hole is replaced by blocks of which one is live. -/
theorem Edit.allocates {d' : Device} {a : ArenaId} {x : Arena} {l m' r : List BlockId}
    (h : Edit d d' a x l [hole] m' r) (hs : Sound d) (hok : DeviceOk d')
    (hhole : d.IsHole hole) (hb : b = hole ∨ Loose d b) (hmem : b ∈ m')
    (hlive : ∀ c ∈ m', ¬ d'.IsHole c ↔ c = b) : Allocates d d' b := by
  have hnot : ¬ Live d hole := by
    rintro ⟨a', x', hx', hb', hnull⟩
    exact hnull hhole
  refine ⟨hok, ?_, ?_, ?_, ?_⟩
  · rcases hb with rfl | hloose
    · exact hnot
    · exact fun hlive' => hlive'.not_loose hloose
  · intro c
    rw [h.live_iff hs]
    constructor
    · rintro (⟨hc, hnull⟩ | ⟨-, hc⟩)
      · exact .inr ((hlive c hc).mp hnull)
      · exact .inl hc
    · rintro (hc | rfl)
      · refine .inr ⟨fun hm => ?_, hc⟩
        rw [mem_singleton.mp hm] at hc
        exact hnot hc
      · exact .inl ⟨hmem, (hlive c hmem).mpr rfl⟩
  · intro c hc
    refine h.frame c hc.not_loose fun hm => ?_
    rw [mem_singleton.mp hm] at hc
    exact hnot hc
  · intro a' ha'
    rw [h.new, update_apply]
    split_ifs
    · exact nofun
    · exact ha'

/-! ## Using a hole -/

/-- The arena around a hole of a free list. -/
structure HoleAt (d : Device) (l : FreeListId) (hole : BlockId) (a : ArenaId) (x : Arena)
    (L R : List BlockId) : Prop where
  arena : d.arenas a = some x
  entries : x.entries = L ++ [hole] ++ R
  type : x.type.freeList = some l
  link : (d.block hole).freelist = .linked l (getSizeClass (d.block hole).size false)

lemma DeviceOk.holeAt (hok : DeviceOk d) {l : FreeListId} {c : ℕ}
    (hmem : hole ∈ (d.freeList l).freeLists c) : ∃ a x L R, HoleAt d l hole a x L R := by
  have hlink := (hok.sound.links.mem_iff l c hole).mp hmem
  have hin : ∃ a x, d.arenas a = some x ∧ hole ∈ x.entries := by
    by_contra hnone
    refine hok.loose hole (fun a x hx hmem => ?_) l c hlink
    exact hnone ⟨a, x, hx, hmem⟩
  obtain ⟨a, x, hx, hin⟩ := hin
  obtain ⟨L, R, hent⟩ := append_of_mem hin
  have hexp := (hok.arena a x hx).link hole hin (by rw [Device.IsHole, hlink]; exact fun h => by cases h)
  obtain ⟨htype, hclass⟩ := of_holeLink_eq (hexp.symm.trans hlink)
  exact ⟨a, x, L, R, hx, by rw [hent]; simp, htype, hclass ▸ hlink⟩

variable {size : ℕ}

lemma findHole_spec {l : FreeListId} (h : findHole d l size = some hole) :
    (∃ c, hole ∈ (d.freeList l).freeLists c) ∧ size ≤ (d.block hole).size := by
  simp only [findHole] at h
  split_ifs at h with hc
  refine ⟨⟨_, mem_of_find?_eq_some h⟩, ?_⟩
  have hp := find?_some h
  simpa using hp

section Hole

variable {d : Device} {l : FreeListId} {hole : BlockId} {a : ArenaId} {x : Arena}
  {L R : List BlockId} {size : ℕ}

section

variable (h : HoleAt d l hole a x L R)
include h

lemma HoleAt.mem : hole ∈ x.entries := by
  rw [h.entries]
  exact mem_middle.mpr (.inl (mem_singleton_self hole))

lemma HoleAt.isHole : d.IsHole hole := by simp [Device.IsHole, h.link]

lemma HoleAt.not_replayed : x.type ≠ .replayed := by
  intro htype
  have hl := h.type
  rw [htype] at hl
  exact nomatch hl

section

variable (hok : DeviceOk d)
include hok

/-- A hole ends inside its arena. -/
theorem HoleAt.bound : (d.block hole).offset + (d.block hole).size < 2 ^ 32 ∧ 0 < (d.block hole).size := by
  have hx := hok.arena a x h.arena
  have hmem := hx.tiles.mem h.mem
  have hsize := hx.size
  unfold Device.pos at hmem
  omega

lemma HoleAt.neighbours : (∀ b ∈ L.getLast?, ¬ d.IsHole b) ∧ ∀ b ∈ R.head?, ¬ d.IsHole b := by
  have hapart := (hok.arena a x h.arena).apart
  rw [h.entries] at hapart
  exact hapart.neighbours h.isHole

/-- The hole is used as it is. -/
theorem removeHole_edit : Edit d (removeHole d l hole) a x L [hole] [hole] R :=
  .relink (hok.sound.removeHole l hole) h.arena h.entries (removeHole_sameArenas d l hole)
    (removeHole_block d l hole) rfl

/-- Being taken from its free list is all that happens to the hole. -/
theorem removeHole_allocates : Allocates d (removeHole d l hole) hole := by
  have hedit := removeHole_edit h hok
  have hblock : (removeHole d l hole).block hole = { d.block hole with freelist := .null } := by
    rw [removeHole_block, update_self]
  have hnull : ¬ (removeHole d l hole).IsHole hole := by
    rw [Device.IsHole, hblock, ne_eq, not_not]
  have harena := hedit.arenaOk hok (h.neighbours hok).1 (h.neighbours hok).2
    (isChain_singleton hole)
    (fun b hb hhole => absurd hhole (by rw [mem_singleton.mp hb]; exact hnull))
    (fun htype b hb => by
      rw [mem_singleton.mp hb, hblock]
      exact (hok.arena a x h.arena).aligned htype hole h.mem)
  refine hedit.allocates hok.sound (hok.edit hedit harena) h.isHole (.inl rfl) (mem_singleton_self hole) ?_
  intro b hb
  rw [mem_singleton.mp hb]
  exact iff_of_true hnull rfl

end

end

/-! ### Splitting it -/

/-- A hole loses its first `size` bytes and moves to the list of its new class. -/
theorem shrinkHole_spec (hs : Sound d) (l : FreeListId)
    (hav : ¬ Available d hole) (hle : size ≤ (d.block hole).size)
    (hfit : (d.block hole).offset + (d.block hole).size < 2 ^ 32) :
    let d1 := removeHole d l hole
    let x := d1.block hole
    let d' := addHole (d1.setBlock hole
      { x with offset := add32 x.offset size, size := sub32 x.size size }) l hole
    Sound d' ∧ d.SameArenas d' ∧ d'.block = update d.block hole
      (holeBlock (some l) (d.block hole).arena ((d.block hole).offset + size)
        ((d.block hole).size - size)) := by
  intro d1 x d'
  have hx : x = { d.block hole with freelist := .null } := by
    show (removeHole d l hole).block hole = _
    rw [removeHole_block, update_self]
  have hs2 : Sound (d1.setBlock hole
      { x with offset := add32 x.offset size, size := sub32 x.size size }) :=
    (hs.removeHole l hole).setBlock rfl rfl
  have hsame := removeHole_sameArenas d l hole
  have hself : (d1.setBlock hole { x with
      offset := add32 x.offset size, size := sub32 x.size size }).block hole =
      ⟨(d.block hole).arena, (d.block hole).offset + size, (d.block hole).size - size, .null⟩ := by
    show update d1.block hole _ hole = _
    rw [update_self, hx, add32_of_lt (by show (d.block hole).offset + size < _; omega),
      sub32_of_le hle (by show (d.block hole).size < _; omega)]
  refine ⟨hs2.addHole l ?_ ?_, { hsame with }, ?_⟩
  · intro l' c
    rw [hself]
    exact nofun
  · rw [(setBlock_sameArenas d1 hole _).available, hsame.available]
    exact hav
  · rw [show d'.block = _ from addHole_block _ l hole, hself]
    show update (update d1.block hole _) hole _ = _
    rw [update_idem, show d1.block = _ from removeHole_block d l hole, update_idem]
    rfl

section

variable (h : HoleAt d l hole a x L R)
include h

/-- What `allocFromHole` leaves behind. -/
theorem allocFromHole_spec (hok : DeviceOk d) (hlt : size < (d.block hole).size) :
    let alloc := (allocFromHole d l hole size).1
    let d' := (allocFromHole d l hole size).2
    Available d alloc ∧ alloc ≠ hole ∧ Sound d' ∧
    d'.arenas = update d.arenas a (some { x with entries := L ++ [alloc, hole] ++ R }) ∧
    d'.block = update (update d.block alloc ⟨a, (d.block hole).offset, size, .null⟩)
      hole (holeBlock (some l) a ((d.block hole).offset + size) ((d.block hole).size - size)) ∧
    d.SameTables d' := by
  have hent : x.entries = L ++ hole :: R := by
    rw [h.entries, append_assoc, singleton_append]
  have halloc := allocBlockObj_allocated hok.sound
  have hbound := h.bound hok
  obtain ⟨ha, hL, -⟩ := hok.sound.at_entry h.arena hent
  have hne : (allocBlockObj d).1 ≠ hole := by
    intro heq
    exact (hok.sound.available _ halloc.was).2 a x h.arena (heq ▸ h.mem)
  simp only [allocFromHole]
  generalize allocBlockObj d = p at halloc hne
  obtain ⟨alloc, d1⟩ := p
  have hblock1 : d1.block = d.block := halloc.block
  have harenas1 : d1.arenas = d.arenas := halloc.arenas
  have hx1 : d1.arenas a = some x := by
    rw [harenas1]
    exact h.arena
  simp only [hblock1, ha]
  -- the allocation is filled in and linked before the hole
  generalize hd2 : (d1.editEntries a fun es => insertBefore es hole alloc).setBlock alloc
    ⟨a, (d.block hole).offset, size, .null⟩ = d2
  have hblock2 : d2.block = update d.block alloc ⟨a, (d.block hole).offset, size, .null⟩ := by
    rw [← hd2, ← hblock1]
    rfl
  have harenas2 : d2.arenas = update d.arenas a (some { x with entries := L ++ alloc :: hole :: R }) := by
    rw [← hd2, ← harenas1, ← insertBefore_append hL alloc, ← hent]
    exact editEntries_arenas hx1 fun es => insertBefore es hole alloc
  have hs2 : Sound d2 := by
    have hs1 : Sound (d1.setBlock alloc ⟨a, (d.block hole).offset, size, .null⟩) :=
      halloc.sound.setBlock_unlinked halloc.unlinked (fun _ _ => nofun) (.inl halloc.loose)
    rw [← harenas1] at harenas2
    subst hd2
    refine hs1.insertEntry hx1 ?_ harenas2 rfl rfl rfl rfl halloc.loose halloc.unavailable ?_
    · rw [hent]
      exact perm_middle
    · exact congrArg Block.arena (update_self alloc _ d1.block)
  have hhole2 : d2.block hole = d.block hole := by
    rw [hblock2, update_of_ne hne.symm]
  have hav2 : ¬ Available d2 hole := by
    intro hav
    refine (hs2.available hole hav).2 a _ (by rw [harenas2, update_self]) ?_
    exact mem_append_right L (mem_cons_of_mem _ mem_cons_self)
  obtain ⟨hs', hsame, hblock⟩ :=
    shrinkHole_spec hs2 l hav2 (hhole2.symm ▸ hlt.le) (hhole2.symm ▸ hbound.1)
  rw [hhole2, hblock2, ha] at hblock
  refine ⟨halloc.was, hne, hs', ?_, hblock,
    (halloc.tables.trans (hd2 ▸ ⟨rfl, rfl, rfl⟩)).trans hsame.toSameTables⟩
  rw [hsame.arenas, harenas2]
  simp

/-- The allocation takes the place of the first part of the hole. -/
theorem allocFromHole_edit (hok : DeviceOk d) (hpos : 0 < size) (hlt : size < (d.block hole).size) :
    Edit d (allocFromHole d l hole size).2 a x L [hole] [(allocFromHole d l hole size).1, hole] R := by
  obtain ⟨hav, hne, hs, harenas, hblock, htables⟩ := allocFromHole_spec h hok hlt
  generalize allocFromHole d l hole size = p at *
  obtain ⟨alloc, d'⟩ := p
  have hloose := (hok.sound.available alloc hav).2
  refine ⟨h.arena, h.entries, harenas, ?_, ?_, ?_, hs, htables⟩
  · rintro c e - ⟨hoff, -, hend⟩
    have hoff : (d.block hole).offset = c := hoff
    have hend : c + (d.block hole).size = e := hend
    have halloc : d'.pos alloc = (c, size) := by
      rw [Device.pos, hblock, update_of_ne hne, update_self, hoff]
    have hhole : d'.pos hole = (c + size, (d.block hole).size - size) := by
      rw [Device.pos, hblock, update_self, hoff]
    show (d'.pos alloc).1 = c ∧ 0 < (d'.pos alloc).2 ∧ (d'.pos hole).1 = c + (d'.pos alloc).2 ∧
      0 < (d'.pos hole).2 ∧ c + (d'.pos alloc).2 + (d'.pos hole).2 = e
    rw [halloc, hhole]
    omega
  · intro b hb hmem
    rw [hblock, update_of_ne fun heq => hmem (mem_singleton.mpr heq), update_of_ne]
    rintro rfl
    exact hb hloose
  · refine unlinked_of_subset h.arena harenas (by rw [h.entries]; grind) fun b hb => ?_
    simp only [mem_append, mem_cons, not_mem_nil, or_false, not_or] at hb
    rw [hblock, update_of_ne hb.1.2.2, update_of_ne hb.1.2.1]

lemma allocFromHole_allocates (hok : DeviceOk d) (hpos : 0 < size) (hdvd : allocAlignment ∣ size)
    (hlt : size < (d.block hole).size) :
    Allocates d (allocFromHole d l hole size).2 (allocFromHole d l hole size).1 ∧
    ((allocFromHole d l hole size).2.block (allocFromHole d l hole size).1).size = size := by
  have hedit := allocFromHole_edit h hok hpos hlt
  obtain ⟨hav, hne, -, -, hblock, -⟩ := allocFromHole_spec h hok hlt
  generalize allocFromHole d l hole size = p at *
  obtain ⟨alloc, d'⟩ := p
  have hloose := (hok.sound.available alloc hav).2
  have halloc : d'.block alloc = ⟨a, (d.block hole).offset, size, .null⟩ := by
    rw [hblock, update_of_ne hne, update_self]
  have hhole : d'.block hole =
      holeBlock (some l) a ((d.block hole).offset + size) ((d.block hole).size - size) := by
    rw [hblock, update_self]
  have hnull : ¬ d'.IsHole alloc := by
    rw [Device.IsHole, halloc, ne_eq, not_not]
  have hlinked : d'.IsHole hole := by
    simp [Device.IsHole, hhole, holeLink]
  have hcases : ∀ b ∈ [alloc, hole], b = alloc ∨ b = hole := by
    intro b hb
    simpa using hb
  have harena := hedit.arenaOk hok (h.neighbours hok).1 (h.neighbours hok).2 (by
      unfold Apart
      rw [isChain_pair]
      exact fun hboth => hnull hboth.1)
    (by
      intro b hb hisHole
      rcases hcases b hb with rfl | rfl
      · exact absurd hisHole hnull
      · rw [hhole, h.type])
    (by
      intro htype b hb
      obtain ⟨hoff, hsize⟩ := (hok.arena a x h.arena).aligned htype hole h.mem
      rcases hcases b hb with rfl | rfl
      · rw [halloc]
        exact ⟨hoff, hdvd⟩
      · rw [hhole]
        exact ⟨Nat.dvd_add hoff hdvd, Nat.dvd_sub hsize hdvd⟩)
  refine ⟨hedit.allocates hok.sound (hok.edit hedit harena) h.isHole (.inr hloose)
    mem_cons_self ?_, by rw [halloc]⟩
  intro b hb
  rcases hcases b hb with rfl | rfl
  · exact iff_of_true hnull rfl
  · exact iff_of_false (not_not_intro hlinked) hne.symm

end

end Hole

/-! ## Creating an arena -/

/-- A new arena that is one hole. -/
structure Creates (d d' : Device) (a : ArenaId) (x : Arena) (hole : BlockId) : Prop where
  ok : DeviceOk d'
  old : d.arenas a = none
  new : d'.arenas = update d.arenas a (some x)
  entries : x.entries = [hole]
  block : d'.block hole = holeBlock x.type.freeList a 0 x.size
  frame : ∀ b, ¬ Loose d b → d'.block b = d.block b
  shaderArenas : d'.shaderArenas = d.shaderArenas
  vas : d'.captureReplayArenaVas = d.captureReplayArenaVas

section Create

variable {d d' : Device} {a : ArenaId} {x : Arena} {hole : BlockId}

section

variable (h : Creates d d' a x hole)
include h

lemma Creates.arena_self : d'.arenas a = some x := by
  rw [h.new, update_self]

lemma Creates.arena_other {a' : ArenaId} (ha : a' ≠ a) : d'.arenas a' = d.arenas a' := by
  rw [h.new, update_of_ne ha]

lemma Creates.isHole : d'.IsHole hole := by
  rw [Device.IsHole, h.block]
  exact holeLink_ne_null _ _

/-- An existing arena is not the new one. -/
theorem Creates.ne {a' : ArenaId} {x' : Arena} (hx' : d.arenas a' = some x') : a' ≠ a := by
  rintro rfl
  rw [h.old] at hx'
  exact nomatch hx'

lemma Creates.live_iff (b : BlockId) : Live d' b ↔ Live d b := by
  constructor
  · rintro ⟨a', x', hx', hb, hnull⟩
    rw [h.new, update_apply, ite_eq_iff] at hx'
    rcases hx' with ⟨-, ⟨⟩⟩ | ⟨-, hx'⟩
    · rw [h.entries, mem_singleton] at hb
      rw [hb] at hnull
      exact absurd h.isHole hnull
    · rw [isHole_congr (h.frame b (not_loose hx' hb))] at hnull
      exact ⟨a', x', hx', hb, hnull⟩
  · rintro ⟨a', x', hx', hb, hnull⟩
    rw [← isHole_congr (h.frame b (not_loose hx' hb))] at hnull
    exact ⟨a', x', by rw [h.arena_other (h.ne hx')]; exact hx', hb, hnull⟩

theorem Creates.keeps : Keeps d d' where
  ok := h.ok
  live_iff := h.live_iff
  frame c hc := h.frame c hc.not_loose
  arenas a' ha' := by
    obtain ⟨x', hx'⟩ := Option.ne_none_iff_exists'.mp ha'
    rw [h.arena_other (h.ne hx')]
    exact ha'

end

end Create

section CreateArena

variable {d : Device} (hok : DeviceOk d) {l : Option FreeListId}
  {minSize arenaSize size : ℕ} {replayable : Bool} {replayVa : BitVec 64} {type : ArenaType}
  (hsize : (if arenaSize = 0 then
    max (allocMinArenaSize <<< min allocMaxArenaSizeShift d.shaderArenaShift) minSize
    else arenaSize) = size)
  (htype : (if replayVa ≠ 0 then .replayed else if replayable then .replayable else .default) = type)
include hok hsize htype

/-- The structural part of `radv_create_shader_arena`. -/
theorem createShaderArena_spec :
    ∃ hole d', createShaderArena d l minSize arenaSize replayable replayVa = (d.nextArena, d') ∧
      Available d hole ∧ Sound d' ∧
      d'.arenas = update d.arenas d.nextArena (some ⟨[hole], size, type⟩) ∧
      d'.block = update d.block hole (holeBlock l d.nextArena 0 size) ∧
      { d with nextArena := d.nextArena + 1 }.SameTables d' := by
  have hs0 : Sound { d with nextArena := d.nextArena + 1 } := hok.sound.tables ..
  have halloc := allocBlockObj_allocated hs0
  generalize hp : allocBlockObj { d with nextArena := d.nextArena + 1 } = p at halloc
  obtain ⟨alloc, d1⟩ := p
  have hblock1 : d1.block = d.block := halloc.block
  have harenas1 : d1.arenas = d.arenas := halloc.arenas
  -- the block is filled in, becomes the only entry of the arena and is then linked
  have hs2 : Sound (d1.setBlock alloc ⟨d.nextArena, 0, size, .self⟩) :=
    halloc.sound.setBlock_unlinked halloc.unlinked (fun _ _ => nofun) (.inl halloc.loose)
  have hself : (d1.setBlock alloc ⟨d.nextArena, 0, size, .self⟩).block alloc =
      ⟨d.nextArena, 0, size, .self⟩ := update_self ..
  generalize hd3 : { d1.setBlock alloc ⟨d.nextArena, 0, size, .self⟩ with
    arenas := update d1.arenas d.nextArena (some ⟨[alloc], size, type⟩) } = d3
  have hs3 : Sound d3 := by
    rw [← hd3]
    refine hs2.setEntries rfl rfl rfl ⟨hs2.pool.nodup,
      hs2.pool.lt⟩ (nodup_cons.mpr ⟨not_mem_nil, nodup_nil⟩) ?_ ?_
    · intro b hb
      rw [mem_singleton.mp hb, hself]
    · intro b hb
      refine ⟨(hs2.available b hb).1, fun hmem => ?_, fun a' x' _ hx' => (hs2.available b hb).2 a' x' hx'⟩
      rw [mem_singleton.mp hmem] at hb
      exact halloc.unavailable hb
  have hself3 : d3.block alloc = ⟨d.nextArena, 0, size, .self⟩ := by
    rw [← hd3]
    exact hself
  have hblock := addHoleIf_block d3 l alloc (by rw [hself3])
  have hsame := addHoleIf_sameArenas d3 l alloc
  refine ⟨alloc, addHoleIf d3 l alloc, ?_, halloc.was, hs3.addHoleIf l ?_ ?_, ?_, ?_,
    (halloc.tables.trans (hd3 ▸ ⟨rfl, rfl, rfl⟩)).trans hsame.toSameTables⟩
  · simp only [createShaderArena, hp, hsize, htype]
    rw [← hd3]
    rfl
  · intro l' c
    rw [hself3]
    exact nofun
  · rw [← hd3]
    exact halloc.unavailable
  · rw [hsame.arenas, ← hd3, harenas1]
  · rw [hblock, hself3, ← hd3]
    show update (update d1.block alloc _) alloc _ = _
    rw [update_idem, hblock1]

lemma createShaderArena_creates (hl : type.freeList = l) (hpos : 0 < size) (hlt : size < 2 ^ 32)
    (hdvd : type ≠ .replayed → allocAlignment ∣ size) :
    ∃ hole d', createShaderArena d l minSize arenaSize replayable replayVa = (d.nextArena, d') ∧
      Creates d d' d.nextArena ⟨[hole], size, type⟩ hole := by
  obtain ⟨hole, d', heq, hav, hs, harenas, hblock, hnext, hlist, hvas⟩ :=
    createShaderArena_spec (l := l) hok hsize htype
  have hold : d.arenas d.nextArena = none := hok.fresh _ (le_refl _)
  have hloose := (hok.sound.available hole hav).2
  have hframe : ∀ b, ¬ Loose d b → d'.block b = d.block b := by
    intro b hb
    rw [hblock, update_of_ne]
    rintro rfl
    exact hb hloose
  have hself : d'.block hole = holeBlock l d.nextArena 0 size := by
    rw [hblock, update_self]
  have hother : ∀ {a' x'}, d'.arenas a' = some x' →
      (a' = d.nextArena ∧ x' = ⟨[hole], size, type⟩) ∨ d.arenas a' = some x' := by
    intro a' x' hx'
    rw [harenas, update_apply, ite_eq_iff] at hx'
    exact hx'.imp (fun ⟨ha, hx⟩ => ⟨ha, (Option.some.inj hx).symm⟩) And.right
  have hkeep : ∀ {a' x'}, d.arenas a' = some x' → d'.arenas a' = some x' := by
    intro a' x' hx'
    rw [harenas, update_of_ne, hx']
    rintro rfl
    rw [hold] at hx'
    exact nomatch hx'
  refine ⟨hole, d', heq, ⟨hs, ?_, ?_, ?_, ?_, hvas ▸ hok.vas_nodup, ?_, hlist ▸ hok.listed_nodup⟩,
    hold, harenas, rfl, ?_, hframe, hlist, hvas⟩
  · intro b hb l' c
    have hne : b ≠ hole := by
      rintro rfl
      exact hb d.nextArena _ (by rw [harenas, update_self]) (mem_singleton_self b)
    rw [hblock, update_of_ne hne]
    exact hok.loose b (fun a' x' hx' => hb a' x' (hkeep hx')) l' c
  · intro a' x' hx'
    rcases hother hx' with ⟨-, rfl⟩ | hx'
    · refine ⟨⟨?_, ?_, ?_⟩, hlt, isChain_singleton hole, ?_, ?_⟩
      · rw [Device.pos, hself]
      · rw [Device.pos, hself]
        exact hpos
      · rw [Device.pos, hself]
        exact zero_add size
      · intro b hb _
        rw [mem_singleton.mp hb, hself, hl]
      · intro hne b hb
        rw [mem_singleton.mp hb, hself]
        exact ⟨dvd_zero _, hdvd hne⟩
    · exact (hok.arena a' x' hx').congr fun b hb => hframe b (not_loose hx' hb)
  · intro a' ha'
    rw [hnext] at ha'
    rw [harenas, update_of_ne (ne_of_gt ha')]
    exact hok.fresh a' (le_of_succ_le ha')
  · rw [hvas]
    intro e he
    obtain ⟨x', hx', htype'⟩ := hok.vas e he
    exact ⟨x', hkeep hx', htype'⟩
  · intro a' ha'
    rw [hlist] at ha'
    rw [harenas, update_of_ne]
    · exact hok.listed a' ha'
    · rintro rfl
      exact hok.listed _ ha' hold
  · rw [hself, hl]

end CreateArena

/-! ## Placing a block in a hole -/

lemma placeBlock_allocates {d : Device} {a : ArenaId} {x : Arena} {L R : List BlockId}
    {hole : BlockId} {offsetInHole size : ℕ} (hok : DeviceOk d) (hx : d.arenas a = some x)
    (hent : x.entries = L ++ [hole] ++ R) (hhole : d.IsHole hole) (hpos : 0 < size)
    (hin : offsetInHole + size ≤ (d.block hole).size)
    (hdvd : x.type ≠ .replayed → allocAlignment ∣ offsetInHole ∧ allocAlignment ∣ size) :
    Allocates d (placeBlock d hole offsetInHole size x.type.freeList) hole ∧
    (placeBlock d hole offsetInHole size x.type.freeList).block hole =
      ⟨a, (d.block hole).offset + offsetInHole, size, .null⟩ ∧
    (placeBlock d hole offsetInHole size x.type.freeList).shaderArenas = d.shaderArenas := by
  have hmem : hole ∈ x.entries := by
    rw [hent]
    exact mem_middle.mpr (.inl (mem_singleton_self hole))
  have hxok := hok.arena a x hx
  have hfit : (d.block hole).offset + (d.block hole).size < 2 ^ 32 :=
    lt_of_le_of_lt (hxok.tiles.mem hmem).2.2 hxok.size
  obtain ⟨left, right, hedit, hblock, hleft, hright⟩ :=
    placeBlock_edit hok.sound hx hent (hxok.link hole hmem hhole) hpos hin hfit
  generalize placeBlock d hole offsetInHole size x.type.freeList = d' at *
  have hnull : ¬ d'.IsHole hole := by
    rw [Device.IsHole, hblock, ne_eq, not_not]
  have hholes : ∀ b, b ∈ left ∨ b ∈ right → d'.IsHole b := by
    intro b hb
    rcases hb with hb | hb
    · rw [Device.IsHole, hleft b hb]
      exact holeLink_ne_null _ _
    · rw [Device.IsHole, hright b hb]
      exact holeLink_ne_null _ _
  have hcases : ∀ b ∈ left.toList ++ [hole] ++ right.toList, b = hole ∨ b ∈ left ∨ b ∈ right := by
    intro b hb
    simp only [mem_append, mem_singleton, Option.mem_toList] at hb
    tauto
  have hapart := hxok.apart
  rw [hent] at hapart
  have hnbs := hapart.neighbours hhole
  have harena := hedit.arenaOk hok hnbs.1 hnbs.2 (by
      -- the allocation separates the two holes
      unfold Apart
      cases left <;> cases right <;> simp [hnull])
    (by
      intro b hb hisHole
      rcases hcases b hb with rfl | hb | hb
      · exact absurd hisHole hnull
      · rw [hleft b hb]
      · rw [hright b hb])
    (by
      intro htype b hb
      obtain ⟨hoff, hsize⟩ := hxok.aligned htype hole hmem
      obtain ⟨hoff', hsize'⟩ := hdvd htype
      rcases hcases b hb with rfl | hb | hb
      · rw [hblock]
        exact ⟨Nat.dvd_add hoff hoff', hsize'⟩
      · rw [hleft b hb]
        exact ⟨hoff, hoff'⟩
      · rw [hright b hb]
        exact ⟨Nat.dvd_add (Nat.dvd_add hoff hoff') hsize', Nat.dvd_sub (Nat.dvd_sub hsize hoff') hsize'⟩)
  refine ⟨hedit.allocates hok.sound (hok.edit hedit harena) hhole (.inl rfl) (by simp) ?_, hblock,
    hedit.tables.shaderArenas⟩
  intro b hb
  rcases hcases b hb with rfl | hb
  · exact iff_of_true hnull rfl
  · refine iff_of_false (not_not_intro (hholes b hb)) fun heq => ?_
    exact hnull (heq ▸ hholes b hb)

/-- The new arena can be appended to the list of arenas. -/
theorem Creates.listed {d d' d'' : Device} {a : ArenaId} {x : Arena} {hole : BlockId}
    (h : Creates d d' a x hole) (hok : DeviceOk d)
    (harenas : ∀ a, d'.arenas a ≠ none → d''.arenas a ≠ none) :
    (∀ a' ∈ d'.shaderArenas ++ [a], d''.arenas a' ≠ none) ∧ (d'.shaderArenas ++ [a]).Nodup := by
  refine ⟨forall_mem_append.mpr ⟨fun a' ha' => harenas a' (h.ok.listed a' ha'), ?_⟩, ?_⟩
  · refine forall_mem_singleton.mpr (harenas a ?_)
    rw [h.arena_self]
    exact nofun
  · refine nodup_append.mpr ⟨h.ok.listed_nodup, by simp, fun a' ha' b hb => ?_⟩
    rintro rfl
    rw [mem_singleton.mp hb, h.shaderArenas] at ha'
    exact hok.listed a ha' h.old

/-- The size of a new arena for `minSize` bytes. -/
theorem arenaSize_spec (shift : ℕ) {minSize : ℕ} (hlt : minSize < 2 ^ 32)
    (hdvd : allocAlignment ∣ minSize) :
    let size := max (allocMinArenaSize <<< min allocMaxArenaSizeShift shift) minSize
    0 < size ∧ size < 2 ^ 32 ∧ allocAlignment ∣ size ∧ minSize ≤ size := by
  intro size
  have hk : min allocMaxArenaSizeShift shift ≤ 5 := min_le_left _ _
  have hall : ∀ k ≤ 5, allocAlignment ∣ allocMinArenaSize <<< k ∧ 0 < allocMinArenaSize <<< k ∧
      allocMinArenaSize <<< k < 2 ^ 32 := by decide
  obtain ⟨hbase, hpos, hbound⟩ := hall _ hk
  refine ⟨lt_max_of_lt_left hpos, max_lt hbound hlt, ?_, le_max_right _ _⟩
  rcases max_choice _ minSize with h | h
  · rw [show size = _ from h]
    exact hbase
  · rw [show size = _ from h]
    exact hdvd

lemma allocFromNewArena_allocates (hok : DeviceOk d) (replayable : Bool)
    (hpos : 0 < size) (hlt : size < 2 ^ 32) (hdvd : allocAlignment ∣ size) :
    ∃ alloc d', allocFromNewArena d (if replayable then .captureReplay else .shader) size replayable =
      (alloc, d') ∧ Allocates d d' alloc ∧ (d'.block alloc).size = size := by
  obtain ⟨hpos', hlt', hdvd', hle⟩ := arenaSize_spec d.shaderArenaShift hlt hdvd
  have htype : (if replayable then ArenaType.replayable else .default).freeList =
      some (if replayable then .captureReplay else .shader) := by
    cases replayable <;> rfl
  rcases @createShaderArena_creates d hok _ size 0 _ replayable 0
    (if replayable then .replayable else .default) (if_pos rfl) (if_neg (not_not_intro rfl)) htype
    hpos' hlt' (fun _ => hdvd') with ⟨hole, d1, heq, hcreate⟩
  have hhole := hcreate.block
  have hin : 0 + size ≤ (d1.block hole).size := by
    rw [hhole, zero_add]
    exact hle
  rcases placeBlock_allocates (L := []) (R := []) hcreate.ok hcreate.arena_self rfl hcreate.isHole
    hpos hin (fun _ => ⟨dvd_zero _, hdvd⟩) with ⟨halloc, hblock, hlist⟩
  rw [show ArenaType.freeList _ = _ from htype] at halloc hblock hlist
  generalize hp : placeBlock d1 hole 0 size _ = d2 at halloc hblock hlist
  obtain ⟨hmem, hnodup⟩ := hcreate.listed hok halloc.arenas
  rw [← hlist] at hmem hnodup
  refine ⟨hole, { d2 with shaderArenaShift := add32 d2.shaderArenaShift 1,
                          shaderArenas := d2.shaderArenas ++ [d.nextArena] }, ?_,
    { hcreate.keeps.allocates halloc with
      ok := halloc.ok.tables _ hmem hnodup halloc.ok.vas halloc.ok.vas_nodup }, ?_⟩
  · simp only [allocFromNewArena, heq, hcreate.arena_self]
    rw [← hp]
    rfl
  · exact congrArg Block.size hblock

/-! ## The whole allocation -/

/-- The size that is allocated for a shader of `size` bytes, if nothing wraps. -/
def paddedSize (gpu : Gpu) (size : ℕ) : ℕ :=
  alignUp
    (if gpu.instrPrefetchDistance ≠ 0 then
      alignUp (size + gpu.instrPrefetchDistance * 64) (if gpu.gfx11Plus then 128 else 64)
    else size)
    allocAlignment

lemma le_paddedSize (gpu : Gpu) (size : ℕ) : size ≤ paddedSize gpu size := by
  unfold paddedSize
  refine le_trans ?_ (le_alignUp (by decide) _)
  split_ifs
  · exact le_trans (le_add_right _ _) (le_alignUp (by decide) _)
  · exact le_trans (le_add_right _ _) (le_alignUp (by decide) _)
  · exact le_rfl

/-- Without wrap-around the driver computes the padded size. -/
theorem align_prefetch_eq {gpu : Gpu} (h : paddedSize gpu size < 2 ^ 32) :
    align (acAlignShaderBinaryForPrefetch gpu size) allocAlignment = paddedSize gpu size := by
  have hinner : acAlignShaderBinaryForPrefetch gpu size =
      if gpu.instrPrefetchDistance ≠ 0 then
        alignUp (size + gpu.instrPrefetchDistance * 64) (if gpu.gfx11Plus then 128 else 64)
      else size := by
    -- rounding to 256 bytes only adds to the size, so the first rounding does not wrap either
    have hle := lt_of_le_of_lt (le_alignUp (a := allocAlignment) (by decide) _) h
    unfold acAlignShaderBinaryForPrefetch
    split_ifs at hle ⊢ with hdist hgfx
    · rw [show (128 : ℕ) = 2 ^ 7 from rfl] at hle ⊢
      rw [align_two_pow (by decide), mod_eq_of_lt hle]
    · rw [show (64 : ℕ) = 2 ^ 6 from rfl] at hle ⊢
      rw [align_two_pow (by decide), mod_eq_of_lt hle]
    · rfl
  unfold paddedSize at h ⊢
  rw [hinner, show allocAlignment = 2 ^ 8 from rfl] at *
  rw [align_two_pow (by decide), mod_eq_of_lt h]

lemma allocShaderMemory_allocates {gpu : Gpu} (hok : DeviceOk d)
    (replayable : Bool) (hn : 0 < paddedSize gpu size) (hlt : paddedSize gpu size < 2 ^ 32) :
    ∃ alloc d', allocShaderMemory gpu d size replayable = (alloc, d') ∧ Allocates d d' alloc ∧
      (d'.block alloc).size = paddedSize gpu size := by
  have hdvd : allocAlignment ∣ paddedSize gpu size := dvd_alignUp _ _
  simp only [allocShaderMemory, align_prefetch_eq hlt]
  generalize paddedSize gpu size = n at *
  generalize hl : (if replayable then FreeListId.captureReplay else .shader) = l
  cases hfind : findHole d l n with
  | none =>
    rw [← hl]
    exact allocFromNewArena_allocates hok replayable hn hlt hdvd
  | some hole =>
    obtain ⟨⟨c, hmem⟩, hfit⟩ := findHole_spec hfind
    obtain ⟨a, x, L, R, hat⟩ := hok.holeAt hmem
    simp only
    split_ifs with heq
    · refine ⟨hole, _, rfl, removeHole_allocates hat hok, ?_⟩
      rw [removeHole_block, update_self]
      exact heq.symm
    · obtain ⟨halloc, hsize⟩ := allocFromHole_allocates hat hok hn hdvd (by omega)
      exact ⟨_, _, rfl, halloc, hsize⟩

end RadvXclipse.ShaderArena
