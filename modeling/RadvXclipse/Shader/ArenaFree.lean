import RadvXclipse.Shader.ArenaAlloc

/-!
# Freeing shader memory

`radv_free_shader_memory` merges the freed block with the holes next to it. Both merges are one
argument: a hole absorbs its neighbour (`absorb_edit`). What remains is a hole between live blocks,
or the arena is empty and goes away.
-/

namespace RadvXclipse.ShaderArena

open Lib Util List Function Option

section Edit

variable {d d' : Device} {a : ArenaId} {x : Arena} {l m m' n r : List BlockId}

lemma Edit.refl (hs : Sound d) (hx : d.arenas a = some x) (hent : x.entries = l ++ m ++ r) :
    Edit d d a x l m m r := by
  refine ⟨hx, hent, ?_, fun _ _ _ h => h, fun _ _ _ => rfl, fun h => h, hs, .refl d⟩
  rw [← hent]
  exact (update_eq_self_iff.mpr hx.symm).symm

/-- The middle may include blocks that stay. -/
theorem Edit.widen (h : Edit d d' a x l m m' (n ++ r)) (hs : Sound d) :
    Edit d d' a x l (m ++ n) (m' ++ n) r := by
  refine ⟨h.old, ?_, ?_, ?_, ?_, h.unlinked, h.sound, h.tables⟩
  · rw [h.entries]
    simp
  · rw [h.new]
    simp
  · intro c e he htiles
    obtain ⟨c', hm, hn⟩ := tiles_append.mp htiles
    have hle := hn.le
    refine tiles_append.mpr ⟨c', h.tiles c c' (by omega) hm, hn.congr fun b hb => ?_⟩
    exact pos_congr (h.frame_rest hs (mem_append_right l (mem_append_left r hb)))
  · intro b hb hmem
    exact h.frame b hb fun hm => hmem (mem_append_left n hm)

end Edit

/-! ## Merging -/

section Merge

variable {d : Device} {a : ArenaId} {x : Arena} {L m R : List BlockId} {keep gone : BlockId}

/-- The hole `keep` takes over the place of its neighbour `gone`. -/
theorem absorb_edit (hs : Sound d) (hx : d.arenas a = some x) (hent : x.entries = L ++ m ++ R)
    (hm : m = [keep, gone] ∨ m = [gone, keep]) (l : Option FreeListId) {k offset size : ℕ}
    (hlink : (d.block keep).freelist = holeLink l k) (hun : Unlinked d gone)
    {d1 d2 : Device} (htiles : d1.pos keep = d.pos keep → d1.block gone = d.block gone →
      ∀ c e, e < 2 ^ 32 → Tiles d.pos c m e → offset = c ∧ 0 < size ∧ c + size = e)
    (hd1 : removeHoleIf d l keep = d1)
    (hd2 : d1.setBlock keep { d1.block keep with offset := offset, size := size } = d2) :
    Edit d (freeBlockObj d2 gone) a x L m [keep] R ∧ Unlinked (freeBlockObj d2 gone) keep := by
  have hdel := removeHoleIf_unlinks hs l hlink
  rw [hd1] at hdel
  have hnodup := hs.nodup a x hx
  rw [hent] at hnodup
  have hne : gone ≠ keep := by
    rintro rfl
    rw [nodup_append, nodup_append] at hnodup
    rcases hm with rfl | rfl <;> exact absurd hnodup.1.2.1 (by simp)
  have hgoneMem : gone ∈ x.entries := by
    rw [hent]
    rcases hm with rfl | rfl <;> simp
  have hkeepMem : keep ∈ x.entries := by
    rw [hent]
    rcases hm with rfl | rfl <;> simp
  have herase : x.entries.erase gone = L ++ [keep] ++ R := by
    have hL : gone ∉ L := by
      intro h
      have := not_mem_middle hnodup (mem_append_left R h)
      rcases hm with rfl | rfl <;> simp at this
    rw [hent]
    rcases hm with rfl | rfl
    · have heq : L ++ [keep, gone] ++ R = (L ++ [keep]) ++ gone :: R := by simp
      rw [heq, erase_append_cons]
      simp [hL, hne]
    · have heq : L ++ [gone, keep] ++ R = L ++ gone :: ([keep] ++ R) := by simp
      rw [heq, erase_append_cons hL]
      simp
  have hs2 : Sound d2 := by
    rw [← hd2]
    exact hdel.sound.setBlock rfl rfl
  have hx2 : d2.arenas a = some x := by
    rw [← hd2]
    show d1.arenas a = some x
    rw [hdel.same.arenas, hx]
  have hne2 : ∀ b, b ≠ keep → d2.block b = d.block b := by
    intro b hb
    rw [← hd2, ← hdel.frame b hb]
    exact update_of_ne hb _ _
  have hkeep2 : d2.block keep = { d1.block keep with offset := offset, size := size } := by
    rw [← hd2]
    exact update_self ..
  have hgone2 : (d2.block gone).arena = a := hs2.owner a x hx2 gone hgoneMem
  have hunGone : Unlinked d2 gone := by
    intro l' c
    rw [hne2 gone hne]
    exact hun l' c
  have harenas : (freeBlockObj d2 gone).arenas =
      update d.arenas a (some { x with entries := L ++ [keep] ++ R }) := by
    have h := freeBlockObj_arenas (show d2.arenas (d2.block gone).arena = some x by rw [hgone2, hx2])
    rw [hgone2, herase] at h
    rw [h, ← hd2]
    show update d1.arenas a _ = _
    rw [hdel.same.arenas]
  have hunKeep : Unlinked (freeBlockObj d2 gone) keep := by
    intro l' c
    show (d2.block keep).freelist ≠ _
    rw [hkeep2]
    exact hdel.unlinked l' c
  refine ⟨⟨hx, hent, harenas, ?_, ?_, ?_, hs2.freeBlockObj hx2 hgoneMem hunGone, ?_⟩, hunKeep⟩
  · intro c e he ht
    have hpos : (freeBlockObj d2 gone).pos keep = (offset, size) := by
      show d2.pos keep = _
      rw [Device.pos, hkeep2]
    unfold Tiles Tiles
    rw [hpos]
    exact htiles hdel.pos (hdel.frame gone hne) c e he ht
  · intro b _ hb
    refine hne2 b fun heq => hb ?_
    rw [heq]
    rcases hm with rfl | rfl <;> simp
  · -- the freed block is the only one that was in an arena before
    intro hloose b hb l' c
    show (d2.block b).freelist ≠ _
    by_cases hgone : b = gone
    · rw [hgone]
      exact hunGone l' c
    · have hkeep : b ≠ keep := by
        rintro rfl
        refine hb a _ (by rw [harenas, update_self]) ?_
        exact mem_middle.mpr (.inl (mem_singleton_self b))
      rw [hne2 b hkeep]
      refine hloose b (fun a' x' hx' hmem => ?_) l' c
      by_cases ha : a' = a
      · rw [ha] at hx'
        cases hx.symm.trans hx'
        refine hb a _ (by rw [harenas, update_self]) ?_
        show b ∈ L ++ [keep] ++ R
        rw [← herase]
        exact (mem_erase_of_ne hgone).mpr hmem
      · refine hb a' x' ?_ hmem
        rw [harenas, update_of_ne ha]
        exact hx'
  · rw [← hd2]
    exact { hdel.same.toSameTables with }

variable {hole : BlockId} {side : Option BlockId} {l : Option FreeListId} (hs : Sound d)
  (hx : d.arenas a = some x) (hun : Unlinked d hole)
  (hlink : ∀ b ∈ side, (d.block b).freelist = holeLink l (d.block b).size)
include hs hx hun hlink

/-- Merging with the hole before, if there is one. -/
theorem mergePrev_edit (hent : x.entries = L ++ (side.toList ++ [hole]) ++ R) :
    Edit d (mergePrev d l hole side).2 a x L (side.toList ++ [hole]) [(mergePrev d l hole side).1] R ∧
    Unlinked (mergePrev d l hole side).2 (mergePrev d l hole side).1 := by
  cases side with
  | none => exact ⟨Edit.refl hs hx hent, hun⟩
  | some p =>
    refine absorb_edit hs hx hent (.inl rfl) l (hlink p rfl) hun ?_ rfl rfl
    rintro hpos hgone c e he ⟨hoff, hsize, -, hsize', hend⟩
    unfold Device.pos at hpos hoff hsize hsize' hend
    rw [Prod.mk.injEq] at hpos
    rw [hpos.1, hpos.2, hgone]
    have hend : c + (d.block p).size + (d.block hole).size = e := hend
    rw [add32_of_lt (by omega)]
    omega

/-- Merging with the hole after, if there is one. -/
theorem mergeNext_edit (hent : x.entries = L ++ ([hole] ++ side.toList) ++ R) :
    Edit d (mergeNext d l hole side).2 a x L ([hole] ++ side.toList) [(mergeNext d l hole side).1] R ∧
    Unlinked (mergeNext d l hole side).2 (mergeNext d l hole side).1 := by
  cases side with
  | none => exact ⟨Edit.refl hs hx hent, hun⟩
  | some n =>
    refine absorb_edit hs hx hent (.inr rfl) l (hlink n rfl) hun ?_ rfl rfl
    rintro hpos hgone c e he ⟨hoff, hsize, hoff', hsize', hend⟩
    unfold Device.pos at hpos hoff hsize hoff' hsize' hend
    rw [Prod.mk.injEq] at hpos
    rw [hpos.1, hpos.2, hgone]
    have hend : c + (d.block hole).size + (d.block n).size = e := hend
    rw [add32_of_lt (by omega), sub32_of_le (by omega) (by omega)]
    omega

end Merge

/-! ## The holes next to a block -/

section Neighbours

variable {d : Device}

lemma prevHole_cases {l : List BlockId} (h : Apart d.IsHole l) :
    ∃ L, l = L ++ (getHole d l.getLast?).toList ∧
      (∀ p ∈ getHole d l.getLast?, d.IsHole p) ∧ ∀ b ∈ L.getLast?, ¬ d.IsHole b := by
  rcases eq_nil_or_concat' l with rfl | ⟨L, p, rfl⟩
  · exact ⟨[], rfl, nofun, nofun⟩
  · rw [getLast?_append, getLast?_singleton, some_or]
    by_cases hp : d.IsHole p
    · have hget : getHole d (some p) = some p := if_pos hp
      rw [hget]
      refine ⟨L, rfl, ?_, ?_⟩
      · rintro _ ⟨⟩
        exact hp
      · rw [← append_nil (L ++ [p])] at h
        exact (h.neighbours hp).1
    · have hget : getHole d (some p) = none := if_neg hp
      rw [hget]
      refine ⟨L ++ [p], by simp, nofun, ?_⟩
      intro b hb
      rw [getLast?_append, getLast?_singleton, some_or] at hb
      cases hb
      exact hp

lemma nextHole_cases {r : List BlockId} (h : Apart d.IsHole r) :
    ∃ R, r = (getHole d r.head?).toList ++ R ∧ (∀ n ∈ getHole d r.head?, d.IsHole n) ∧
      ∀ b ∈ R.head?, ¬ d.IsHole b := by
  cases r with
  | nil => exact ⟨[], rfl, nofun, nofun⟩
  | cons n R =>
    rw [head?_cons]
    by_cases hn : d.IsHole n
    · have hget : getHole d (some n) = some n := if_pos hn
      rw [hget]
      refine ⟨R, rfl, ?_, ?_⟩
      · rintro _ ⟨⟩
        exact hn
      · exact (Apart.neighbours (l := []) h hn).2
    · have hget : getHole d (some n) = none := if_neg hn
      rw [hget]
      refine ⟨n :: R, rfl, nofun, ?_⟩
      rintro _ ⟨⟩
      exact hn

end Neighbours

/-! ## The merged hole -/

/-- A live block and the holes next to it have become one block on no list. -/
structure Merges (d d' : Device) (b : BlockId) (a : ArenaId) (x : Arena) (hole : BlockId)
    (L m R : List BlockId) : Prop where
  edit : Edit d d' a x L m [hole] R
  unlinked : Unlinked d' hole
  mem : b ∈ m
  holes : ∀ c ∈ m, c ≠ b → d.IsHole c
  last : ∀ c ∈ L.getLast?, ¬ d.IsHole c
  head : ∀ c ∈ R.head?, ¬ d.IsHole c

section

variable {d : Device} {a : ArenaId} {x : Arena} {hole : BlockId}

lemma merge_merges (hok : DeviceOk d) (hx : d.arenas a = some x) {b : BlockId}
    (hb : b ∈ x.entries) (hnull : ¬ d.IsHole b) :
    ∃ hole d' L m R,
      (let p := mergePrev d x.type.freeList b (getHole d (before x.entries b))
       mergeNext p.2 x.type.freeList p.1 (getHole d (after x.entries b))) = (hole, d') ∧
      Merges d d' b a x hole L m R := by
  have hs := hok.sound
  have hxok := hok.arena a x hx
  obtain ⟨l, r, hent⟩ := append_of_mem hb
  obtain ⟨-, hbl, hbr⟩ := hs.at_entry hx hent
  have hapart := hxok.apart
  rw [hent] at hapart
  unfold Apart at hapart
  rw [isChain_append, isChain_cons] at hapart
  have hbefore : before x.entries b = l.getLast? := by rw [hent, before_append hbl]
  have hafter : after x.entries b = r.head? := by rw [hent, after_append hbl]
  rw [hbefore, hafter]
  obtain ⟨L, hl, hprev, hlast⟩ := prevHole_cases hapart.1
  obtain ⟨R, hr, hnext, hhead⟩ := nextHole_cases hapart.2.1.2
  generalize getHole d l.getLast? = prev at *
  generalize getHole d r.head? = next at *
  have hun : Unlinked d b := by
    intro l' c heq
    refine hnull ?_
    rw [Device.IsHole, heq]
    exact fun h => by cases h
  have hlink : ∀ c ∈ x.entries, d.IsHole c →
      (d.block c).freelist = holeLink x.type.freeList (d.block c).size := hxok.link
  -- the hole before
  have hent1 : x.entries = L ++ (prev.toList ++ [b]) ++ (next.toList ++ R) := by
    rw [hent, hl, hr]
    simp
  have hprevMem : ∀ p ∈ prev, p ∈ x.entries := by
    intro p hp
    rw [hent1]
    simp [mem_def.mp hp]
  have hnextMem : ∀ n ∈ next, n ∈ x.entries := by
    intro n hn
    rw [hent1]
    simp [mem_def.mp hn]
  obtain ⟨hedit1, hun1⟩ :=
    mergePrev_edit hs hx hun (fun p hp => hlink p (hprevMem p hp) (hprev p hp)) hent1
  generalize mergePrev d x.type.freeList b prev = p1 at *
  obtain ⟨hole1, d1⟩ := p1
  -- the hole after has not changed
  have hnext1 : ∀ n ∈ next, d1.block n = d.block n := by
    intro n hn
    refine hedit1.frame_rest hs ?_
    simp [mem_def.mp hn]
  have hwide := hedit1.widen hs
  obtain ⟨hedit2, hun2⟩ := mergeNext_edit hedit1.sound hwide.arena_self hun1 (fun n hn => by
      rw [hnext1 n hn]
      exact hlink n (hnextMem n hn) (hnext n hn)) rfl
  refine ⟨_, _, L, prev.toList ++ [b] ++ next.toList, R, rfl, hwide.trans hs hedit2, hun2, by simp,
    ?_, hlast, hhead⟩
  intro c hc hne
  simp only [mem_append, mem_singleton, mem_toList] at hc
  rcases hc with (hc | hc) | hc
  · exact hprev c hc
  · exact absurd hc hne
  · exact hnext c hc

/-! ## Keeping the hole or destroying the arena -/

lemma markHole_block (d : Device) (l : Option FreeListId) (hole : BlockId) :
    (markHole d l hole).block = update d.block hole
      { d.block hole with freelist := holeLink l (d.block hole).size } := by
  cases l <;> rfl

lemma markHole_sameArenas (d : Device) (l : Option FreeListId) (hole : BlockId) :
    d.SameArenas (markHole d l hole) := by
  cases l <;> exact ⟨⟨rfl, rfl, rfl⟩, rfl, rfl, rfl⟩

lemma Sound.markHole (hs : Sound d) (l : Option FreeListId) (hun : Unlinked d hole)
    (hav : ¬ Available d hole) : Sound (markHole d l hole) := by
  cases l with
  | none => exact hs.setBlock_unlinked hun (fun _ _ => nofun) (.inr rfl)
  | some l => exact hs.addHole l hun hav

/-- The merged block becomes a hole again. -/
theorem markHole_edit (hs : Sound d) {L R : List BlockId} (hx : d.arenas a = some x)
    (hent : x.entries = L ++ [hole] ++ R) (hun : Unlinked d hole) (l : Option FreeListId) :
    Edit d (markHole d l hole) a x L [hole] [hole] R := by
  have hmem : hole ∈ x.entries := by
    rw [hent]
    exact mem_middle.mpr (.inl (mem_singleton_self hole))
  have hsound := hs.markHole l hun fun hav => (hs.available hole hav).2 a x hx hmem
  exact .relink hsound hx hent (markHole_sameArenas d l hole) (markHole_block d l hole) rfl

/-- The entry of a destroyed arena leaves the table; the others are of other arenas. -/
theorem mem_eraseP_snd {α : Type*} [DecidableEq α] {β : Type*} {l : List (β × α)} {a : α}
    (hnodup : (l.map Prod.snd).Nodup) {e : β × α} (he : e ∈ l.eraseP fun e => e.2 = a) :
    e ∈ l ∧ e.2 ≠ a := by
  refine ⟨mem_of_mem_eraseP he, ?_⟩
  induction l with
  | nil => exact nomatch he
  | cons y l ih =>
    rw [map_cons, nodup_cons] at hnodup
    by_cases hy : y.2 = a
    · rw [eraseP_cons_of_pos (by simpa using hy)] at he
      rintro rfl
      exact hnodup.1 (hy ▸ mem_map_of_mem he)
    · rw [eraseP_cons_of_neg (by simpa using hy)] at he
      rcases mem_cons.mp he with rfl | he
      · exact hy
      · exact ih hnodup.2 he

/-- What is left of the device when an arena with a single block is destroyed. -/
theorem destroyArena_ok {d' : Device} (hok : DeviceOk d) {m : List BlockId}
    (hedit : Edit d d' a x [] m [hole] []) (hun : Unlinked d' hole) :
    DeviceOk (destroyArena d' hole) ∧
    (destroyArena d' hole).arenas = update d.arenas a none ∧
    (destroyArena d' hole).block = d'.block := by
  have hs := hedit.sound
  have hx := hedit.arena_self
  have hmem : hole ∈ ([] ++ [hole] ++ [] : List BlockId) := by simp
  have ha : (d'.block hole).arena = a := hs.owner a _ hx hole hmem
  have hfree := hs.freeBlockObj hx hmem hun
  have harenas : (destroyArena d' hole).arenas = update d.arenas a none := by
    show update (freeBlockObj d' hole).arenas (d'.block hole).arena none = _
    rw [freeBlockObj_arenas (by rw [ha]; exact hx), ha, update_idem, hedit.new, update_idem]
  have hother : ∀ {a' x'}, (destroyArena d' hole).arenas a' = some x' → a' ≠ a ∧ d.arenas a' = some x' := by
    intro a' x' hx'
    rwa [harenas, update_apply, ite_none_left_eq_some] at hx'
  have hkeep : ∀ {a' x'}, a' ≠ a → d.arenas a' = some x' → (destroyArena d' hole).arenas a' = some x' := by
    intro a' x' haa hx'
    rw [harenas, update_of_ne haa, hx']
  have hsub : ∀ {a' x'}, (destroyArena d' hole).arenas a' = some x' →
      (freeBlockObj d' hole).arenas a' = some x' := by
    intro a' x' hx'
    obtain ⟨haa, hx'⟩ := hother hx'
    rw [freeBlockObj_arenas (by rw [ha]; exact hx), ha, update_of_ne haa, hedit.arena_other haa, hx']
  have hvas : (destroyArena d' hole).captureReplayArenaVas = d.captureReplayArenaVas.eraseP fun e =>
    e.2 = a := by
    show d'.captureReplayArenaVas.eraseP (fun e => e.2 = (d'.block hole).arena) = _
    rw [hedit.tables.vas, ha]
  have hlist : (destroyArena d' hole).shaderArenas = d.shaderArenas.erase a := by
    show d'.shaderArenas.erase (d'.block hole).arena = _
    rw [hedit.tables.shaderArenas, ha]
  refine ⟨⟨⟨?_, ⟨hfree.pool.nodup, hfree.pool.lt⟩, ?_, ?_, ?_⟩, ?_, ?_, ?_, ?_, ?_, ?_,
    hlist ▸ hok.listed_nodup.erase a⟩, harenas, rfl⟩
  · exact hfree.links.congr rfl rfl
  · intro b hb
    exact ⟨(hfree.available b hb).1, fun a' x' hx' => (hfree.available b hb).2 a' x' (hsub hx')⟩
  · exact fun a' x' hx' => hfree.nodup a' x' (hsub hx')
  · exact fun a' x' hx' => hfree.owner a' x' (hsub hx')
  · intro b hb
    by_cases hbh : b = hole
    · rw [hbh]
      exact hun
    · refine hedit.unlinked hok.loose b fun a' x' hx' hmem' => ?_
      rw [hedit.new, update_apply, ite_eq_iff] at hx'
      rcases hx' with ⟨-, ⟨⟩⟩ | ⟨haa, hx'⟩
      · exact hbh (by simpa using hmem')
      · exact hb a' x' (hkeep haa hx') hmem'
  · intro a' x' hx'
    obtain ⟨haa, hx'⟩ := hother hx'
    exact (hok.arena a' x' hx').congr fun b hb => hedit.frame_other hok.sound haa hx' hb
  · intro a' ha'
    rw [show (destroyArena d' hole).nextArena = _ from hedit.tables.nextArena] at ha'
    rw [harenas, update_apply, hok.fresh a' ha', ite_self]
  · rw [hvas]
    intro e he
    obtain ⟨hmem', haa⟩ := mem_eraseP_snd hok.vas_nodup he
    obtain ⟨x', hx', htype⟩ := hok.vas e hmem'
    exact ⟨x', hkeep haa hx', htype⟩
  · rw [hvas]
    exact hok.vas_nodup.sublist (eraseP_sublist.map Prod.snd)
  · intro a' ha'
    rw [hlist, hok.listed_nodup.mem_erase_iff] at ha'
    rw [harenas, update_of_ne ha'.1]
    exact hok.listed a' ha'.2

end

/-! ## The whole operation -/

/-- Block `b` is no longer live; the other live blocks do not change, and the arenas that go away
are those in which `b` was the last live block. -/
structure Frees (d d' : Device) (b : BlockId) : Prop where
  ok : DeviceOk d'
  live_iff : ∀ c, Live d' c ↔ Live d c ∧ c ≠ b
  frame : ∀ c, Live d c → c ≠ b → d'.block c = d.block c
  destroyed : ∀ a, d.arenas a ≠ none ∧ d'.arenas a = none ↔
    (d.block b).arena = a ∧ ∀ c, Live d c → (d.block c).arena = a → c = b

section Free

variable {d d' : Device} {b : BlockId} {a : ArenaId} {x : Arena} {hole : BlockId}
  {L m R : List BlockId}

section

variable (h : Merges d d' b a x hole L m R)
include h

/-- The only live block among the merged ones is the freed one. -/
theorem Merges.live_mem {c : BlockId} (hc : c ∈ m) (hlive : Live d c) : c = b := by
  by_contra hne
  obtain ⟨_, _, _, _, hnull⟩ := hlive
  exact hnull (h.holes c hc hne)

lemma Merges.not_mem {c : BlockId} (hlive : Live d c) (hne : c ≠ b) :
    c ∉ m := fun hc => hne (h.live_mem hc hlive)

/-- A live block of the arena that is not merged is a neighbour of the others. -/
theorem Merges.live_rest (hs : Sound d) (hne : L ≠ [] ∨ R ≠ []) : ∃ c ∈ L ++ R, ¬ d.IsHole c ∧ c ≠ b := by
  have hnodup := hs.nodup a x h.edit.old
  rw [h.edit.entries] at hnodup
  have hother : ∀ c ∈ L ++ R, c ≠ b := by
    rintro c hc rfl
    exact not_mem_middle hnodup hc h.mem
  rcases hne with hne | hne
  · have hmem := getLast_mem hne
    exact ⟨L.getLast hne, mem_append_left R hmem, h.last _ (getLast?_eq_some_getLast hne),
      hother _ (mem_append_left R hmem)⟩
  · have hmem := head_mem hne
    exact ⟨R.head hne, mem_append_right L hmem, h.head _ (head?_eq_some_head hne),
      hother _ (mem_append_right L hmem)⟩

end

lemma Live.arena_eq {c : BlockId} (hs : Sound d) (hc : Live d c) (hx : d.arenas a = some x)
    (ha : (d.block c).arena = a) : c ∈ x.entries := by
  obtain ⟨a', x', hx', hmem, -⟩ := hc
  obtain rfl : a' = a := (hs.owner a' x' hx' c hmem).symm.trans ha
  cases hx.symm.trans hx'
  exact hmem

/-- The ends of aligned blocks are aligned. -/
theorem Merges.aligned (h : Merges d d' b a x hole L m R) (hok : DeviceOk d)
    (htype : x.type ≠ .replayed) :
    allocAlignment ∣ (d'.block hole).offset ∧ allocAlignment ∣ (d'.block hole).size := by
  have hxok := hok.arena a x h.edit.old
  have htiles := hxok.tiles
  rw [h.edit.entries] at htiles
  obtain ⟨e, hlm, hr⟩ := tiles_append.mp htiles
  obtain ⟨c, -, hm⟩ := tiles_append.mp hlm
  have hle := hr.le
  have hsize := hxok.size
  obtain ⟨hoff, -, hend⟩ := h.edit.tiles c e (by omega) hm
  have haligned : ∀ c ∈ m, allocAlignment ∣ (d.block c).offset ∧ allocAlignment ∣ (d.block c).size :=
    fun c hc => hxok.aligned htype c (h.edit.mem_entries.mpr (.inl hc))
  obtain ⟨hc, he⟩ :=
    hm.dvd (ne_nil_of_mem h.mem) (fun c hc => (haligned c hc).1) (fun c hc => (haligned c hc).2)
  have hoff : (d'.block hole).offset = c := hoff
  rw [hoff]
  refine ⟨hc, ?_⟩
  rw [← hend] at he
  exact (Nat.dvd_add_right hc).mp he

/-- The hole stays in the arena. -/
theorem Merges.frees (h : Merges d d' b a x hole L m R) (hok : DeviceOk d)
    (hne : L ≠ [] ∨ R ≠ []) : Frees d (markHole d' x.type.freeList hole) b := by
  have hs := hok.sound
  have hedit := h.edit.trans hs (markHole_edit h.edit.sound h.edit.arena_self rfl h.unlinked x.type.freeList)
  have hblock : (markHole d' x.type.freeList hole).block hole =
      { d'.block hole with freelist := holeLink x.type.freeList (d'.block hole).size } := by
    rw [markHole_block, update_self]
  have hhole : (markHole d' x.type.freeList hole).IsHole hole := by
    rw [Device.IsHole, hblock]
    exact holeLink_ne_null _ _
  generalize markHole d' x.type.freeList hole = d'' at *
  have harena := hedit.arenaOk hok h.last h.head (isChain_singleton hole)
    (fun c hc _ => by rw [mem_singleton.mp hc, hblock])
    (fun htype c hc => by
      rw [mem_singleton.mp hc, hblock]
      exact h.aligned hok htype)
  obtain ⟨c, hc, hnull, hcb⟩ := h.live_rest hs hne
  have hcx : c ∈ x.entries := h.edit.mem_entries.mpr (.inr hc)
  refine ⟨hok.edit hedit harena, ?_, ?_, ?_⟩
  · intro c
    rw [hedit.live_iff hs]
    constructor
    · rintro (⟨hc, hnull⟩ | ⟨hc, hlive⟩)
      · rw [mem_singleton.mp hc] at hnull
        exact absurd hhole hnull
      · exact ⟨hlive, fun heq => hc (heq ▸ h.mem)⟩
    · rintro ⟨hlive, hcb⟩
      exact .inr ⟨h.not_mem hlive hcb, hlive⟩
  · intro c hc hcb
    exact hedit.frame c hc.not_loose (h.not_mem hc hcb)
  · intro a'
    refine iff_of_false ?_ ?_
    · rintro ⟨hsome, hnone⟩
      rw [hedit.new, update_apply, ite_eq_iff] at hnone
      rcases hnone with ⟨-, ⟨⟩⟩ | ⟨-, hnone⟩
      exact hsome hnone
    · rintro ⟨ha', honly⟩
      refine hcb (honly c ⟨a, x, h.edit.old, hcx, hnull⟩ ?_)
      rw [← ha', hs.owner a x h.edit.old c hcx,
        hs.owner a x h.edit.old b (h.edit.mem_entries.mpr (.inl h.mem))]

/-- The arena is destroyed. -/
theorem Merges.frees_destroy (h : Merges d d' b a x hole [] m []) (hok : DeviceOk d) :
    Frees d (destroyArena d' hole) b := by
  have hs := hok.sound
  obtain ⟨hok', harenas, hblock⟩ := destroyArena_ok hok h.edit h.unlinked
  generalize destroyArena d' hole = d'' at *
  have hmem : ∀ c, c ∈ x.entries ↔ c ∈ m := by
    intro c
    rw [h.edit.entries]
    simp
  have hba : (d.block b).arena = a := hs.owner a x h.edit.old b ((hmem b).mpr h.mem)
  have hframe : ∀ {a' x' c}, a' ≠ a → d.arenas a' = some x' → c ∈ x'.entries →
      d''.block c = d.block c := by
    intro a' x' c ha hx' hc
    rw [hblock]
    exact h.edit.frame_other hs ha hx' hc
  refine ⟨hok', ?_, ?_, ?_⟩
  · intro c
    constructor
    · rintro ⟨a', x', hx', hc, hnull⟩
      rw [harenas, update_apply, ite_none_left_eq_some] at hx'
      obtain ⟨ha, hx'⟩ := hx'
      rw [isHole_congr (hframe ha hx' hc)] at hnull
      refine ⟨⟨a', x', hx', hc, hnull⟩, ?_⟩
      rintro rfl
      exact ha ((hs.owner a' x' hx' c hc).symm.trans hba)
    · rintro ⟨⟨a', x', hx', hc, hnull⟩, hcb⟩
      have ha : a' ≠ a := by
        rintro rfl
        cases h.edit.old.symm.trans hx'
        exact hnull (h.holes c ((hmem c).mp hc) hcb)
      rw [← isHole_congr (hframe ha hx' hc)] at hnull
      exact ⟨a', x', by rw [harenas, update_of_ne ha]; exact hx', hc, hnull⟩
  · intro c hc hcb
    rw [hblock]
    exact h.edit.frame c hc.not_loose (h.not_mem hc hcb)
  · intro a'
    rw [hba, harenas]
    by_cases ha : a' = a
    · subst ha
      refine iff_of_true ⟨?_, update_self ..⟩ ⟨rfl, fun c hc hca => ?_⟩
      · rw [h.edit.old]
        exact nofun
      · exact h.live_mem ((hmem c).mp (hc.arena_eq hs h.edit.old hca)) hc
    · refine iff_of_false ?_ fun hr => ha hr.1.symm
      rw [update_of_ne ha]
      exact fun hl => hl.1 hl.2

lemma freeShaderMemory_frees (hok : DeviceOk d) (hb : Live d b) : Frees d (freeShaderMemory d b) b := by
  obtain ⟨a, x, hx, hmem, hnull⟩ := hb
  have ha := hok.sound.owner a x hx b hmem
  obtain ⟨hole, d', L, m, R, heq, hmerge⟩ := merge_merges hok hx hmem hnull
  simp only [freeShaderMemory, ha, hx, heq, hmerge.edit.arena_self]
  split_ifs with hone
  · have hnil : L = [] ∧ R = [] := by
      have hone : L ++ [hole] ++ R = [hole] := hone
      have hlen := congrArg List.length hone
      simp only [length_append, length_cons, length_nil] at hlen
      exact ⟨eq_nil_of_length_eq_zero (by omega), eq_nil_of_length_eq_zero (by omega)⟩
    rw [hnil.1, hnil.2] at hmerge
    exact hmerge.frees_destroy hok
  · refine hmerge.frees hok ?_
    by_contra hnil
    rw [not_or, not_not, not_not] at hnil
    rw [hnil.1, hnil.2] at hone
    exact hone rfl

end Free

end RadvXclipse.ShaderArena
