import Mathlib.Data.List.Nodup
import RadvXclipse.Lib.Run
import RadvXclipse.Shader.ArenaFree

/-!
# Runs of the shader allocator

The calls into the allocator as steps of a system, which also keeps the blocks that were handed
out and the sizes that were asked for. Every run keeps `DeviceOk` and agrees with that record.
-/

namespace RadvXclipse.ShaderArena

open Lib Util List Nat

/-! ## Replaying a block -/

variable {hole : BlockId}

section Replay

variable {d : Device} {blockBegin blockEnd size : ℕ}

/-- The search stops at a hole that contains the block, or fails without any change. -/
theorem replayLoop_spec (es : List BlockId) :
    replayLoop d blockBegin blockEnd size es = (none, d) ∨
    ∃ hole ∈ es, d.IsHole hole ∧ (d.block hole).offset ≤ blockBegin ∧
      blockEnd ≤ add32 (d.block hole).offset (d.block hole).size ∧
      replayLoop d blockBegin blockEnd size es =
        (some hole, placeBlock d hole (sub32 blockBegin (d.block hole).offset) size none) := by
  induction es with
  | nil => exact .inl rfl
  | cons hole rest ih =>
    simp only [replayLoop]
    split_ifs with hnull hend hbegin
    · -- an allocation
      exact ih.imp_right fun ⟨b, hb, h⟩ => ⟨b, mem_cons_of_mem hole hb, h⟩
    · -- a hole that ends before the block
      exact ih.imp_right fun ⟨b, hb, h⟩ => ⟨b, mem_cons_of_mem hole hb, h⟩
    · exact .inl rfl
    · exact .inr ⟨hole, mem_cons_self, hnull, by omega, by omega, rfl⟩

/-- The search passes over what ends before the block does, and stops at a hole that contains it. -/
theorem replayLoop_append {L R : List BlockId} (hhole : d.IsHole hole)
    (hfit : ∀ b ∈ L ++ hole :: R, (d.block b).offset + (d.block b).size < 2 ^ 32)
    (hbegin : (d.block hole).offset ≤ blockBegin)
    (hend : blockEnd ≤ (d.block hole).offset + (d.block hole).size)
    (hbefore : ∀ b ∈ L, (d.block b).offset + (d.block b).size < blockEnd) :
    replayLoop d blockBegin blockEnd size (L ++ hole :: R) =
      (some hole, placeBlock d hole (sub32 blockBegin (d.block hole).offset) size none) := by
  induction L with
  | nil =>
    simp only [nil_append, replayLoop, add32_of_lt (hfit hole mem_cons_self)]
    rw [if_neg hhole, if_neg (by omega), if_neg (by omega)]
  | cons b L ih =>
    simp only [cons_append, replayLoop, add32_of_lt (hfit b mem_cons_self)]
    rw [if_pos (hbefore b mem_cons_self), ite_self]
    exact ih (fun c hc => hfit c (mem_cons_of_mem b hc)) fun c hc => hbefore c (mem_cons_of_mem b hc)

end Replay

/-- What the caller promises about a serialized block: its arena has an address, and its end can be
computed. It need not lie in the arena. `arena_size` is a `uint32_t`. -/
structure SerializedBlock.Fits (src : SerializedBlock) : Prop where
  arenaVa : src.arenaVa ≠ 0
  size : 0 < src.size
  bound : src.offset + src.size < 2 ^ 32
  arenaSize : src.arenaSize < 2 ^ 32

/-- The arena of a serialized block, which is created if its address is not known. -/
def replayArena (d : Device) (src : SerializedBlock) : ArenaId × Device :=
  match d.captureReplayArenaVas.find? fun e => e.1 = src.arenaVa with
  | some e => (e.2, d)
  | none =>
    let (a, d) := createShaderArena d none 0 src.arenaSize true src.arenaVa
    (a, { d with captureReplayArenaVas := d.captureReplayArenaVas ++ [(src.arenaVa, a)],
                 shaderArenas := d.shaderArenas ++ [a] })

/-- The range lies in the arena and meets no allocation. -/
def RangeFree (d : Device) (x : Arena) (rangeBegin rangeEnd : ℕ) : Prop :=
  rangeEnd ≤ x.size ∧ ∀ b ∈ x.entries, ¬ d.IsHole b →
    rangeEnd ≤ (d.block b).offset ∨ (d.block b).offset + (d.block b).size ≤ rangeBegin

instance (d : Device) (x : Arena) (rangeBegin rangeEnd : ℕ) :
    Decidable (RangeFree d x rangeBegin rangeEnd) :=
  inferInstanceAs (Decidable (_ ∧ ∀ b ∈ x.entries, ¬ d.IsHole b → _ ∨ _))

variable {x : Arena}

/-- Creating the arena of a serialized block registers its address. -/
theorem Creates.registerVa {d d' : Device} {a : ArenaId} (h : Creates d d' a x hole)
    (hok : DeviceOk d) (htype : x.type = .replayed) (va : BitVec 64) :
    Keeps d
      { d' with
        captureReplayArenaVas := d'.captureReplayArenaVas ++ [(va, a)]
        shaderArenas := d'.shaderArenas ++ [a] } := by
  obtain ⟨hmem, hnodup⟩ := h.listed hok fun _ ha => ha
  refine { h.keeps with ok := h.ok.tables _ hmem hnodup ?_ ?_ }
  · exact forall_mem_append.mpr ⟨h.ok.vas, forall_mem_singleton.mpr ⟨x, h.arena_self, htype⟩⟩
  · -- the arenas of the table existed before
    rw [map_append, nodup_append]
    refine ⟨h.ok.vas_nodup, by simp, ?_⟩
    rintro a' ha' b hb rfl
    rw [h.vas] at ha'
    obtain ⟨e, he, rfl⟩ := mem_map.mp ha'
    obtain ⟨x', hx', -⟩ := hok.vas e he
    exact h.ne hx' (by simpa using hb)

section Replay

variable {d : Device} {src : SerializedBlock}

section

variable (hok : DeviceOk d) (hsrc : src.Fits)
include hok hsrc

/-- Placing the block of a serialized block in a hole of its arena that contains it. -/
theorem placeBlock_replay {a : ArenaId} (hx : d.arenas a = some x) (htype : x.type = .replayed)
    (hmem : hole ∈ x.entries) (hhole : d.IsHole hole)
    (hbegin : (d.block hole).offset ≤ src.offset)
    (hend : src.offset + src.size ≤ (d.block hole).offset + (d.block hole).size) :
    Allocates d (placeBlock d hole (sub32 src.offset (d.block hole).offset) src.size none) hole ∧
    (placeBlock d hole (sub32 src.offset (d.block hole).offset) src.size none).block hole =
      ⟨a, src.offset, src.size, .null⟩ := by
  have hbound := hsrc.bound
  obtain ⟨L, R, hent⟩ := append_of_mem hmem
  have hent' : x.entries = L ++ [hole] ++ R := by
    rw [hent]
    simp
  rw [sub32_of_le hbegin (by omega)]
  have hl : x.type.freeList = none := by
    rw [htype]
    rfl
  rcases placeBlock_allocates hok hx hent' hhole hsrc.size
    (show src.offset - (d.block hole).offset + src.size ≤ (d.block hole).size by omega)
    (fun hne => absurd htype hne) with ⟨halloc, hblock, -⟩
  rw [hl] at halloc hblock
  refine ⟨halloc, ?_⟩
  rw [hblock, Nat.add_sub_cancel' hbegin]

/-- The arena is there, or created without a change to what is there. -/
theorem replayArena_spec :
    ∃ a x d1, replayArena d src = (a, d1) ∧ d1.arenas a = some x ∧ x.type = .replayed ∧ Keeps d d1 := by
  cases hfind : d.captureReplayArenaVas.find? fun e => e.1 = src.arenaVa with
  | some e =>
    obtain ⟨x, hx, htype⟩ := hok.vas e (mem_of_find?_eq_some hfind)
    exact ⟨e.2, x, d, by rw [replayArena, hfind], hx, htype,
      ⟨hok, fun _ => .rfl, fun _ _ => rfl, fun _ ha => ha⟩⟩
  | none =>
    -- an arena of no recorded size gets the size of a new one
    generalize hsize : (if src.arenaSize = 0 then
      max (allocMinArenaSize <<< min allocMaxArenaSizeShift d.shaderArenaShift) 0
      else src.arenaSize) = size
    have hpos : 0 < size ∧ size < 2 ^ 32 := by
      have hnew := @arenaSize_spec d.shaderArenaShift 0 (by decide) (dvd_zero _)
      have hlt := hsrc.arenaSize
      split_ifs at hsize
      · exact hsize ▸ ⟨hnew.1, hnew.2.1⟩
      · omega
    rcases @createShaderArena_creates d hok none _ _ _ true _ _ hsize (if_pos hsrc.arenaVa) rfl hpos.1 hpos.2
      (fun hne => absurd rfl hne) with ⟨hole, d1, heq, hcreate⟩
    refine ⟨d.nextArena, ⟨[hole], size, .replayed⟩, _, ?_, ?_, rfl, hcreate.registerVa hok rfl src.arenaVa⟩
    · simp only [replayArena, hfind, heq]
    · exact hcreate.arena_self

/-- A replay places the block where it was recorded if the range is free there, and fails without
a change to the arena otherwise. -/
theorem replayShaderArenaBlock_spec :
    ∃ a x d1, replayArena d src = (a, d1) ∧ d1.arenas a = some x ∧ x.type = .replayed ∧
      Keeps d d1 ∧
      (RangeFree d1 x src.offset (src.offset + src.size) ∧
        (∃ b d', replayShaderArenaBlock d src = (some b, d') ∧ Allocates d d' b ∧
          d'.block b = ⟨a, src.offset, src.size, .null⟩) ∨
      ¬ RangeFree d1 x src.offset (src.offset + src.size) ∧ replayShaderArenaBlock d src = (none, d1)) := by
  obtain ⟨a, x, d1, harena, hx, htype, hkeeps⟩ := replayArena_spec hok hsrc
  refine ⟨a, x, d1, harena, hx, htype, hkeeps, ?_⟩
  have hpos := hsrc.size
  have hxok := hkeeps.ok.arena a x hx
  have hfit : ∀ b ∈ x.entries, (d1.block b).offset + (d1.block b).size < 2 ^ 32 := fun b hb =>
    lt_of_le_of_lt (hxok.tiles.mem hb).2.2 hxok.size
  have heq : replayShaderArenaBlock d src =
      replayLoop d1 src.offset (src.offset + src.size) src.size x.entries := by
    show replayLoop (replayArena d src).2 _ _ _ (((replayArena d src).2.arenas (replayArena d src).1).map
      Arena.entries |>.getD []) = _
    rw [harena, hx, add32_of_lt hsrc.bound]
    rfl
  rw [heq]
  by_cases hfree : RangeFree d1 x src.offset (src.offset + src.size)
  · -- no two holes are adjacent, so one hole contains the range
    refine .inl ⟨hfree, ?_⟩
    rcases hxok.tiles.exists_of_apart hxok.apart (zero_le _) (Nat.lt_add_of_pos_right hpos) hfree.1
      hfree.2 with ⟨L, hole, R, hent, hhole, hbegin, hend, hbefore⟩
    have hmem : hole ∈ x.entries := by
      rw [hent]
      exact mem_append_right L mem_cons_self
    obtain ⟨halloc, hblock⟩ := placeBlock_replay hkeeps.ok hsrc hx htype hmem hhole hbegin hend
    refine ⟨hole, _, ?_, hkeeps.allocates halloc, hblock⟩
    rw [hent] at hfit ⊢
    exact replayLoop_append hhole hfit hbegin hend hbefore
  · refine .inr ⟨hfree, (replayLoop_spec _).resolve_right ?_⟩
    rintro ⟨hole, hmem, hhole, hbegin, hend, -⟩
    rw [add32_of_lt (hfit hole hmem)] at hend
    refine hfree ⟨le_trans hend (hxok.tiles.mem hmem).2.2, fun b hb hnull => ?_⟩
    have hne : b ≠ hole := fun h => hnull (h ▸ hhole)
    rcases hxok.tiles.disjoint hb hmem hne with h | h
    · exact .inr (le_trans h hbegin)
    · exact .inl (le_trans hend h)

lemma replayShaderArenaBlock_arenas (a : ArenaId)
    (ha : d.arenas a ≠ none) : (replayShaderArenaBlock d src).2.arenas a ≠ none := by
  rcases replayShaderArenaBlock_spec hok hsrc with
    ⟨_, x, d1, -, -, -, hkeeps, ⟨-, b, d', heq, halloc, -⟩ | ⟨-, heq⟩⟩
  · rw [heq]
    exact halloc.arenas a ha
  · rw [heq]
    exact hkeeps.arenas a ha

end

end Replay

/-! ## The system -/

/-- The device and the blocks its users hold, with the sizes they asked for. -/
structure Sys where
  dev : Device
  live : List (BlockId × ℕ)

inductive Op
  | alloc (size : ℕ) (replayable : Bool)
  | replay (src : SerializedBlock)
  | free (alloc : Option BlockId)

def Sys.step (gpu : Gpu) (s : Sys) : Op → Sys
  | .alloc size replayable =>
    let p := allocShaderMemory gpu s.dev size replayable
    ⟨p.2, (p.1, size) :: s.live⟩
  | .replay src =>
    let p := replayShaderArenaBlock s.dev src
    ⟨p.2, (p.1.map fun b => (b, src.size)).toList ++ s.live⟩
  | .free none => s
  | .free (some b) => ⟨freeShaderMemory s.dev b, s.live.filter fun e => e.1 ≠ b⟩

/-- A block is freed by a user who holds it. -/
def Step (gpu : Gpu) (s : Sys) (op : Op) (s' : Sys) : Prop :=
  (∀ b, op = .free (some b) → b ∈ s.live.map Prod.fst) ∧ s' = s.step gpu op

/-- The call asks for something that fits in 32 bits, padding included, or replays a block whose end
does. -/
def Op.Fits (gpu : Gpu) : Op → Prop
  | .alloc size _ => 0 < paddedSize gpu size ∧ paddedSize gpu size < 2 ^ 32
  | .replay src => src.Fits
  | .free _ => True

/-- The device is in order and agrees with the record. -/
structure SysOk (s : Sys) : Prop where
  device : DeviceOk s.dev
  live_iff : ∀ b, Live s.dev b ↔ b ∈ s.live.map Prod.fst
  nodup : (s.live.map Prod.fst).Nodup
  size : ∀ e ∈ s.live, e.2 ≤ (s.dev.block e.1).size

section

variable {s s' : Sys} {d' : Device} {b : BlockId} {gpu : Gpu} {op : Op}

lemma SysOk.allocates (h : SysOk s) {n : ℕ} (ha : Allocates s.dev d' b)
    (hn : n ≤ (d'.block b).size) : SysOk ⟨d', (b, n) :: s.live⟩ := by
  have hlive : ∀ e ∈ s.live, Live s.dev e.1 := fun e he =>
    (h.live_iff e.1).mpr (mem_map_of_mem he)
  refine ⟨ha.ok, ?_, ?_, ?_⟩
  · intro c
    rw [ha.live_iff, h.live_iff, map_cons, mem_cons]
    exact or_comm
  · rw [map_cons, nodup_cons, ← h.live_iff]
    exact ⟨ha.fresh, h.nodup⟩
  · intro e he
    rcases mem_cons.mp he with rfl | he
    · exact hn
    · rw [ha.frame e.1 (hlive e he)]
      exact h.size e he

theorem SysOk.frees (h : SysOk s) (hf : Frees s.dev d' b) : SysOk ⟨d', s.live.filter fun e => e.1 ≠ b⟩ := by
  refine ⟨hf.ok, ?_, ?_, ?_⟩
  · intro c
    rw [hf.live_iff, h.live_iff]
    simp only [mem_map, mem_filter, decide_eq_true_eq]
    constructor
    · rintro ⟨⟨e, he, rfl⟩, hne⟩
      exact ⟨e, ⟨he, hne⟩, rfl⟩
    · rintro ⟨e, ⟨he, hne⟩, rfl⟩
      exact ⟨⟨e, he, rfl⟩, hne⟩
  · exact h.nodup.sublist (filter_sublist.map Prod.fst)
  · intro e he
    simp only [mem_filter, decide_eq_true_eq] at he
    rw [hf.frame e.1 ((h.live_iff e.1).mpr (mem_map_of_mem he.1)) he.2]
    exact h.size e he.1

theorem SysOk.keeps (h : SysOk s) (hk : Keeps s.dev d') : SysOk ⟨d', s.live⟩ := by
  refine ⟨hk.ok, fun c => (hk.live_iff c).trans (h.live_iff c), h.nodup, fun e he => ?_⟩
  rw [hk.frame e.1 ((h.live_iff e.1).mpr (mem_map_of_mem he))]
  exact h.size e he

theorem SysOk.step (h : SysOk s) (hfits : op.Fits gpu) (hstep : Step gpu s op s') : SysOk s' := by
  obtain ⟨hheld, rfl⟩ := hstep
  cases op with
  | alloc size replayable =>
    obtain ⟨b, d', heq, ha, hsize⟩ :=
      allocShaderMemory_allocates h.device replayable hfits.1 hfits.2
    rw [Sys.step, heq]
    refine h.allocates ha ?_
    rw [hsize]
    exact le_paddedSize gpu size
  | replay src =>
    rcases replayShaderArenaBlock_spec h.device hfits with
      ⟨a, x, d1, -, -, -, hkeeps, ⟨-, b, d', heq, ha, hblock⟩ | ⟨-, heq⟩⟩
    · rw [Sys.step, heq]
      exact h.allocates ha (by rw [hblock])
    · rw [Sys.step, heq]
      exact h.keeps hkeeps
  | free alloc =>
    cases alloc with
    | none => exact h
    | some b =>
      exact h.frees (freeShaderMemory_frees h.device ((h.live_iff b).mpr (hheld b rfl)))

/-- `radv_init_shader_arenas`, with no block handed out. -/
def Sys.init : Sys := ⟨initShaderArenas, []⟩

theorem SysOk.init : SysOk .init := by
  refine ⟨⟨⟨⟨?_, ?_, ?_⟩, ⟨nodup_nil, nofun⟩, ?_, nofun, nofun⟩, ?_, nofun, fun _ _ => rfl, nofun,
    nodup_nil, nofun, nodup_nil⟩, ?_, nodup_nil, nofun⟩
  · exact fun _ _ _ => iff_of_false not_mem_nil nofun
  · exact fun _ _ => nodup_nil
  · exact fun _ _ _ hne => absurd rfl hne
  · exact fun b _ => ⟨fun _ _ => nofun, nofun⟩
  · exact fun b _ _ _ => nofun
  · exact fun b => iff_of_false (fun ⟨_, _, hx, _⟩ => nomatch hx) not_mem_nil

lemma sysOk_of_run {ops : List Op}
    (h : Run (only (fun _ op => op.Fits gpu) (Step gpu)) .init ops s) : SysOk s :=
  h.invariant (I := fun _ s => SysOk s) SysOk.init fun _ _ _ _ hs hstep =>
    hs.step hstep.1 hstep.2

/-- In every state that is reached by calls of admissible size and replays of any blocks, a block
is replayed exactly if its range is free in the arena, and the arena does not change otherwise. The
arena is one that was there, in the unchanged device, or a new one. -/
theorem replayShaderArenaBlock_of_run {ops : List Op} {src : SerializedBlock}
    (h : Run (only (fun _ op => op.Fits gpu) (Step gpu)) .init ops s) (hsrc : src.Fits) :
    ∃ a x d1, replayArena s.dev src = (a, d1) ∧ d1.arenas a = some x ∧ x.type = .replayed ∧
      ((src.arenaVa, a) ∈ s.dev.captureReplayArenaVas → d1 = s.dev) ∧
      (RangeFree d1 x src.offset (src.offset + src.size) →
        ∃ b d', replayShaderArenaBlock s.dev src = (some b, d') ∧ Live d' b ∧
          d'.block b = ⟨a, src.offset, src.size, .null⟩) ∧
      (¬ RangeFree d1 x src.offset (src.offset + src.size) →
        replayShaderArenaBlock s.dev src = (none, d1)) := by
  obtain ⟨a, x, d1, harena, hx, htype, -, hcases⟩ :=
    replayShaderArenaBlock_spec (sysOk_of_run h).device hsrc
  refine ⟨a, x, d1, harena, hx, htype, fun hmem => ?_, fun hfree => ?_, fun hfree => ?_⟩
  · -- the search for the address finds something
    cases hfind : s.dev.captureReplayArenaVas.find? fun e => e.1 = src.arenaVa with
    | some e =>
      rw [replayArena, hfind] at harena
      exact (Prod.mk.inj harena).2.symm
    | none => exact absurd (decide_eq_true rfl) (find?_eq_none.mp hfind _ hmem)
  · rcases hcases with ⟨-, b, d', heq, ha, hblock⟩ | ⟨hnot, -⟩
    · exact ⟨b, d', heq, (ha.live_iff b).mpr (.inr rfl), hblock⟩
    · exact absurd hfree hnot
  · rcases hcases with ⟨hyes, -⟩ | ⟨-, heq⟩
    · exact absurd hyes hfree
    · exact heq

/-- A chip of gfx11. -/
def gfx11 : Gpu := ⟨true, 3⟩

/-- A device with a block that was replayed into the middle of an arena of 1024 bytes. -/
def replayedOne : Sys := Sys.init.step gfx11 (.replay ⟨256, 256, 0x10000, 1024⟩)

/-- Another block is replayed behind it, but none that meets it. -/
theorem replayShaderArenaBlock_of_run_twice :
    (∃ b d', replayShaderArenaBlock replayedOne.dev ⟨768, 256, 0x10000, 1024⟩ = (some b, d') ∧
      Live d' b ∧ d'.block b = ⟨0, 768, 256, .null⟩) ∧
    replayShaderArenaBlock replayedOne.dev ⟨0, 512, 0x10000, 1024⟩ = (none, replayedOne.dev) := by
  have hrun : Run (only (fun _ op => op.Fits gfx11) (Step gfx11)) .init
      [.replay ⟨256, 256, 0x10000, 1024⟩] replayedOne :=
    .snoc (l := []) .nil ⟨⟨by decide, by decide, by decide, by decide⟩, nofun, rfl⟩
  constructor
  · rcases @replayShaderArenaBlock_of_run _ _ _ ⟨768, 256, 0x10000, 1024⟩ hrun
      ⟨by decide, by decide, by decide, by decide⟩ with ⟨a, x, d1, harena, hx, -, -, hsome, -⟩
    cases harena
    cases hx
    exact hsome (by decide)
  · rcases @replayShaderArenaBlock_of_run _ _ _ ⟨0, 512, 0x10000, 1024⟩ hrun
      ⟨by decide, by decide, by decide, by decide⟩ with ⟨a, x, d1, harena, hx, -, -, -, hnone⟩
    cases harena
    cases hx
    exact hnone (by decide)

/-! ## What holds in every state -/

/-- The class of a size: its logarithm, rounded down, within the range of the lists. -/
def floorClass (size : ℕ) : ℕ := min (Nat.log 2 size - allocMinSizeClass) (allocNumFreeLists - 1)

lemma getSizeClass_floor {size : ℕ} (h : 0 < size) : getSizeClass size false = floorClass size := by
  have hlog : utilLogbase2 size = Nat.log 2 size := by
    -- the lowest bit does not matter for the logarithm of a positive number
    unfold utilLogbase2
    have hor : (size ||| 1) / 2 = size / 2 := by
      rw [← shiftRight_one, shiftRight_or_distrib, shiftRight_one]
      simp
    by_cases hone : size = 1
    · rw [hone]
      rfl
    · have hle : size ≤ size ||| 1 := left_le_or
      rw [log_of_one_lt_of_le (b := 2) (n := size) (by decide) (by omega),
        log_of_one_lt_of_le (b := 2) (n := size ||| 1) (by decide) (by omega), hor]
  have hmax : ∀ n, max n allocMinSizeClass - allocMinSizeClass = n - allocMinSizeClass := by
    intro n
    omega
  simp only [getSizeClass, Bool.false_eq_true, if_false, hlog, hmax, floorClass]

/-- The arenas, the free lists and the blocks that are held. -/
structure ArenasOk (s : Sys) : Prop where
  /-- the entries tile the arena with non-empty blocks, in order and without adjacent holes -/
  tiled : ∀ a x, s.dev.arenas a = some x →
    Tiles s.dev.pos 0 x.entries x.size ∧ x.entries.Nodup ∧ Apart s.dev.IsHole x.entries
  /-- a hole is on one free list, that of its class, and the bit of the list is set -/
  listed : ∀ a x l, s.dev.arenas a = some x → x.type.freeList = some l → ∀ b ∈ x.entries,
    s.dev.IsHole b →
    (∀ l' c, ((s.dev.freeList l').freeLists c).count b =
      if l' = l ∧ c = floorClass (s.dev.block b).size then 1 else 0) ∧
    (s.dev.freeList l).sizeMask.getLsbD (floorClass (s.dev.block b).size) = true
  /-- a hole of a replayed arena is on no free list -/
  unlisted : ∀ a x, s.dev.arenas a = some x → x.type = .replayed → ∀ b ∈ x.entries,
    ∀ l c, b ∉ (s.dev.freeList l).freeLists c
  /-- the blocks that are not holes are those that are held -/
  held : ∀ b, b ∈ s.live.map Prod.fst ↔
    ∃ a x, s.dev.arenas a = some x ∧ b ∈ x.entries ∧ ¬ s.dev.IsHole b
  /-- a held block is large enough, and aligned unless it was replayed -/
  fit : ∀ e ∈ s.live, e.2 ≤ (s.dev.block e.1).size ∧
    ∀ x, s.dev.arenas (s.dev.block e.1).arena = some x → x.type ≠ .replayed →
      allocAlignment ∣ (s.dev.block e.1).offset
  /-- held blocks do not overlap -/
  disjoint : s.live.Pairwise fun e f =>
    (s.dev.block e.1).arena = (s.dev.block f.1).arena →
    (s.dev.block e.1).offset + (s.dev.block e.1).size ≤ (s.dev.block f.1).offset ∨
    (s.dev.block f.1).offset + (s.dev.block f.1).size ≤ (s.dev.block e.1).offset

theorem SysOk.listed (h : SysOk s) {a : ArenaId} {l : FreeListId}
    (hx : s.dev.arenas a = some x) (hl : x.type.freeList = some l) (hb : b ∈ x.entries)
    (hhole : s.dev.IsHole b) :
    (s.dev.block b).freelist = .linked l (floorClass (s.dev.block b).size) := by
  have hxok := h.device.arena a x hx
  have hpos : 0 < (s.dev.block b).size := (hxok.tiles.mem hb).2.1
  rw [hxok.link b hb hhole, hl, holeLink, getSizeClass_floor hpos]

lemma SysOk.arenasOk (h : SysOk s) : ArenasOk s := by
  have hs := h.device.sound
  have hlive : ∀ e ∈ s.live, Live s.dev e.1 := fun e he =>
    (h.live_iff e.1).mpr (mem_map_of_mem he)
  refine ⟨?_, ?_, ?_, fun b => (h.live_iff b).symm, ?_, ?_⟩
  · intro a x hx
    exact ⟨(h.device.arena a x hx).tiles, hs.nodup a x hx, (h.device.arena a x hx).apart⟩
  · intro a x l hx hl b hb hhole
    have hlink := h.listed hx hl hb hhole
    constructor
    · intro l' c
      have hmem := hs.links.mem_iff l' c b
      rw [hlink, Link.linked.injEq] at hmem
      split_ifs with heq
      · exact count_eq_one_of_mem (hs.links.nodup l' c) (hmem.mpr ⟨heq.1.symm, heq.2.symm⟩)
      · refine count_eq_zero.mpr fun hin => heq ?_
        exact ⟨(hmem.mp hin).1.symm, (hmem.mp hin).2.symm⟩
    · refine hs.links.mask l _ ?_ (ne_nil_of_mem ((hs.links.mem_iff l _ b).mpr hlink))
      exact lt_of_le_of_lt (min_le_right _ _) (by decide)
  · intro a x hx htype b hb l c hin
    have hlink := (hs.links.mem_iff l c b).mp hin
    have hexp := (h.device.arena a x hx).link b hb (by rw [Device.IsHole, hlink]; exact fun h => by cases h)
    rw [hlink, htype] at hexp
    cases hexp
  · intro e he
    refine ⟨h.size e he, fun x hx htype => ?_⟩
    exact ((h.device.arena _ x hx).aligned htype e.1 ((hlive e he).arena_eq hs hx rfl)).1
  · have hpair : s.live.Pairwise fun e f => e.1 ≠ f.1 := pairwise_map.mp h.nodup
    refine hpair.imp_of_mem fun he hf hne harena => ?_
    obtain ⟨a, x, hx, hmem, -⟩ := hlive _ he
    have ha := hs.owner a x hx _ hmem
    have hmem' := (hlive _ hf).arena_eq hs hx (harena.symm.trans ha)
    exact (h.device.arena a x hx).tiles.disjoint hmem hmem' hne

/-- The arenas that a step destroys. -/
theorem SysOk.destroyed (h : SysOk s) (hfits : op.Fits gpu) (hstep : Step gpu s op s')
    (a : ArenaId) :
    s.dev.arenas a ≠ none ∧ s'.dev.arenas a = none ↔
      ∃ b, op = .free (some b) ∧ (s.dev.block b).arena = a ∧
        ∀ c ∈ s.live.map Prod.fst, (s.dev.block c).arena = a → c = b := by
  obtain ⟨hheld, rfl⟩ := hstep
  cases op with
  | alloc size replayable =>
    obtain ⟨b, d', heq, ha, -⟩ := allocShaderMemory_allocates h.device replayable hfits.1 hfits.2
    rw [Sys.step, heq]
    exact iff_of_false (fun hgone => ha.arenas a hgone.1 hgone.2) nofun
  | replay src =>
    have hkept := replayShaderArenaBlock_arenas h.device hfits a
    exact iff_of_false (fun hgone => hkept hgone.1 hgone.2) nofun
  | free alloc =>
    cases alloc with
    | none => exact iff_of_false (fun hgone => hgone.1 hgone.2) nofun
    | some b =>
      have hf := freeShaderMemory_frees h.device ((h.live_iff b).mpr (hheld b rfl))
      show s.dev.arenas a ≠ none ∧ (freeShaderMemory s.dev b).arenas a = none ↔ _
      rw [hf.destroyed a]
      simp only [h.live_iff]
      constructor
      · intro hlast
        exact ⟨b, rfl, hlast⟩
      · rintro ⟨b', hb', hlast⟩
        cases hb'
        exact hlast

end

/-- In every state that is reached by calls that fit the arenas are in order, and the next call
destroys an arena exactly if it frees the last block held in it. -/
theorem arenas_of_run {gpu : Gpu} {ops : List Op} {s : Sys}
    (h : Run (only (fun _ op => op.Fits gpu) (Step gpu)) .init ops s) :
    ArenasOk s ∧ ∀ op s', op.Fits gpu → Step gpu s op s' → ∀ a,
      (s.dev.arenas a ≠ none ∧ s'.dev.arenas a = none ↔
        ∃ b, op = .free (some b) ∧ (s.dev.block b).arena = a ∧
          ∀ c ∈ s.live.map Prod.fst, (s.dev.block c).arena = a → c = b) := by
  have hok := sysOk_of_run h
  exact ⟨hok.arenasOk, fun op s' hfits hstep => hok.destroyed hfits hstep⟩

/-- A shader is placed next to a replayed block: in an arena of its own. Freeing either of them
destroys its arena. -/
theorem arenas_of_run_two :
    let s := replayedOne.step gfx11 (.alloc 600 false)
    ArenasOk s ∧ s.live = [(3, 600), (0, 256)] ∧ ∀ b ∈ [3, 0], ∀ s', Step gfx11 s
      (.free (some b)) s' → s'.dev.arenas (s.dev.block b).arena = none := by
  intro s
  have hrun : Run (only (fun _ op => op.Fits gfx11) (Step gfx11)) .init
      [.replay ⟨256, 256, 0x10000, 1024⟩, .alloc 600 false] s :=
    .snoc (l := [_]) (.snoc (l := []) .nil
      ⟨⟨by decide, by decide, by decide, by decide⟩, nofun, rfl⟩)
      ⟨show 0 < paddedSize gfx11 600 ∧ paddedSize gfx11 600 < 2 ^ 32 by decide, nofun, rfl⟩
  obtain ⟨hok, hdestroyed⟩ := arenas_of_run hrun
  have hlast : ∀ b ∈ [3, 0], ∀ c ∈ s.live.map Prod.fst,
      (s.dev.block c).arena = (s.dev.block b).arena → c = b := by decide
  refine ⟨hok, by decide, fun b hb s' hstep => ?_⟩
  exact ((hdestroyed (.free (some b)) s' trivial hstep _).mpr ⟨b, rfl, rfl, hlast b hb⟩).2

/-- The call is possible on a new device, but leaves the arenas out of order. -/
def Breaks (gpu : Gpu) (op : Op) : Prop :=
  Run (Step gpu) .init [op] (Sys.init.step gpu op) ∧ ¬ ArenasOk (Sys.init.step gpu op)

lemma breaks_of_not_tiles {gpu : Gpu} {op : Op} {x : Arena} (hop : ∀ b, op ≠ .free (some b))
    (hx : (Sys.init.step gpu op).dev.arenas 0 = some x)
    (h : ¬ Tiles (Sys.init.step gpu op).dev.pos 0 x.entries x.size) : Breaks gpu op :=
  ⟨.snoc (l := []) .nil ⟨fun b hb => absurd hb (hop b), rfl⟩, fun hok => h (hok.tiled 0 x hx).1⟩

/-- What `Op.Fits` leaves out: a size that wraps, on a chip without prefetch a size of nothing, and
a replayed block that is empty, whose end wraps, or whose arena has no address. -/
theorem arenas_wrap :
    Breaks gfx11 (.alloc (2 ^ 32 - 192) false) ∧ Breaks ⟨false, 0⟩ (.alloc 0 false) ∧
    Breaks gfx11 (.replay ⟨0, 0, 0x10000, 512⟩) ∧
    Breaks gfx11 (.replay ⟨256, 2 ^ 32 - 256, 0x10000, 512⟩) ∧
    Breaks gfx11 (.replay ⟨0, 256, 0, 512⟩) := by
  refine ⟨breaks_of_not_tiles nofun rfl (by decide), breaks_of_not_tiles nofun rfl (by decide),
    breaks_of_not_tiles nofun rfl (by decide), breaks_of_not_tiles nofun rfl (by decide),
    .snoc (l := []) .nil ⟨nofun, rfl⟩, fun hok => ?_⟩
  -- the arena counts as replayable, but the hole behind the block is on no list
  have hcount := (hok.listed 0 _ .captureReplay rfl rfl 1 (by decide) (by decide)).1 .captureReplay 0
  exact absurd hcount (by decide)

end RadvXclipse.ShaderArena
