import RadvXclipse.Shader.ArenaRun

/-!
# When memory runs out

`radv_alloc_shader_memory` with the outcomes of `calloc`, `malloc`, and of the creation and the
mapping of the BO of a new arena. Where all of them succeed it is the function of `Arena.lean`. A
call that returns `NULL` has changed nothing, unless it was the mapping that failed: the hole of the
new arena is on a free list by then, and stays there when its object goes back to the pool.
-/

namespace RadvXclipse.ShaderArena

open Lib Util List Option

/-! ## Outcomes -/

/-- The outcomes of one call. -/
structure Env where
  /-- the `calloc` of an arena -/
  calloc : Bool
  boCreate : Bool
  /-- `device->shader_use_invisible_vram`: the BOs of arenas are not mapped -/
  shaderUseInvisibleVram : Bool
  bufferMap : Bool
  /-- the `malloc` of the first block object that the call needs -/
  malloc : Bool
  /-- the `malloc` of the hole after the first block of a new arena -/
  mallocRight : Bool

inductive Result
  | block (b : BlockId)
  | null
  /-- a null pointer is followed -/
  | crash
deriving DecidableEq

/-- Whether `alloc_block_obj` returns an object. -/
def canAllocBlockObj (malloc : Bool) (d : Device) : Bool := !d.shaderBlockObjPool.isEmpty || malloc

/-- The label `fail` of `radv_create_shader_arena` when there is a block object: it goes to the
pool. -/
def failShaderArena (d : Device) (a : ArenaId) : Device :=
  let d := freeBlockObj d ((((d.arenas a).map Arena.entries).getD []).head?.getD 0)
  { d with arenas := Function.update d.arenas a none }

/-- `radv_create_shader_arena`. -/
def createShaderArenaEnv (env : Env) (d : Device) (l : Option FreeListId) (minSize arenaSize : ℕ)
    (replayable : Bool) (replayVa : BitVec 64) : Option ArenaId × Device :=
  if !env.calloc then (none, d)
  else if !env.boCreate then (none, d)
  else if !canAllocBlockObj env.malloc d then (none, d)
  else
    let (a, d) := createShaderArena d l minSize arenaSize replayable replayVa
    if !env.shaderUseInvisibleVram && !env.bufferMap then (none, failShaderArena d a) else (some a, d)

/-- `radv_alloc_shader_memory`. -/
def allocShaderMemoryEnv (env : Env) (gpu : Gpu) (d : Device) (size : ℕ) (replayable : Bool) :
    Result × Device :=
  let size := acAlignShaderBinaryForPrefetch gpu size
  let size := align size allocAlignment
  let l : FreeListId := if replayable then .captureReplay else .shader
  match findHole d l size with
  | some hole =>
    if size = (d.block hole).size then (.block hole, removeHole d l hole)
    else if !canAllocBlockObj env.malloc d then (.null, d)
    else
      let (alloc, d) := allocFromHole d l hole size
      (.block alloc, d)
  | none =>
    match createShaderArenaEnv env d (some l) size 0 replayable 0 with
    | (none, d) => (.null, d)
    | (some a, d) =>
      let first := (((d.arenas a).map Arena.entries).getD []).head?.getD 0
      -- `insert_block` returns `NULL` without the object of a hole after the block
      if (d.block first).size > add32 0 size && !canAllocBlockObj env.mallocRight d then (.crash, d)
      else
        let d := placeBlock d first 0 size (some l)
        (.block first, { d with shaderArenaShift := add32 d.shaderArenaShift 1,
                                shaderArenas := d.shaderArenas ++ [a] })

/-! ## What a failed call leaves -/

/-- The free lists with their masks, the list of arenas and the blocks of the arenas are the
same. -/
structure Unchanged (d d' : Device) : Prop where
  freeList : d'.freeList = d.freeList
  shaderArenas : d'.shaderArenas = d.shaderArenas
  arenas : d'.arenas = d.arenas
  block : ∀ a x, d.arenas a = some x → ∀ b ∈ x.entries, d'.block b = d.block b

/-- No list has an object that was freed or returned to the pool. -/
structure Clean (d : Device) : Prop where
  freeList : ∀ l c, ∀ b ∈ (d.freeList l).freeLists c,
    b ∉ d.shaderBlockObjPool ∧ d.arenas (d.block b).arena ≠ none
  entries : ∀ a x, d.arenas a = some x → ∀ b ∈ x.entries, b ∉ d.shaderBlockObjPool
  shaderArenas : ∀ a ∈ d.shaderArenas, d.arenas a ≠ none

/-- No hole is found, and a new arena cannot be mapped. -/
def MapFails (env : Env) (gpu : Gpu) (d : Device) (size : ℕ) (replayable : Bool) : Prop :=
  findHole d (if replayable then .captureReplay else .shader)
      (align (acAlignShaderBinaryForPrefetch gpu size) allocAlignment) = none ∧
    env.calloc = true ∧ env.boCreate = true ∧ canAllocBlockObj env.malloc d = true ∧
    env.shaderUseInvisibleVram = false ∧ env.bufferMap = false

section Call

variable {env : Env} {gpu : Gpu} {d d' : Device} {size : ℕ} {replayable : Bool}

/-- A call that returns a block did what it does when nothing fails. -/
theorem allocShaderMemory_of_block {b : BlockId}
    (h : allocShaderMemoryEnv env gpu d size replayable = (.block b, d')) :
    allocShaderMemory gpu d size replayable = (b, d') := by
  simp only [allocShaderMemoryEnv] at h
  simp only [allocShaderMemory]
  generalize align (acAlignShaderBinaryForPrefetch gpu size) allocAlignment = n at h ⊢
  generalize (if replayable then FreeListId.captureReplay else .shader) = l at h ⊢
  cases hfind : findHole d l n with
  | some hole =>
    simp only [hfind] at h ⊢
    split_ifs at h ⊢
    · cases h
      rfl
    · cases h
    · obtain ⟨hb, rfl⟩ := Prod.mk.inj h
      cases hb
      rfl
  | none =>
    simp only [hfind] at h ⊢
    unfold createShaderArenaEnv at h
    unfold allocFromNewArena
    split_ifs at h
    · cases h
    · cases h
    · cases h
    · cases h
    · generalize createShaderArena d (some l) n 0 replayable 0 = created at h ⊢
      dsimp only at h ⊢
      split_ifs at h
      · cases h
      · obtain ⟨hb, rfl⟩ := Prod.mk.inj h
        cases hb
        rfl

/-- A call that returns `NULL` changed nothing, or could not map a new arena. -/
theorem cases_of_null (h : allocShaderMemoryEnv env gpu d size replayable = (.null, d')) :
    (¬ MapFails env gpu d size replayable ∧ d' = d) ∨
      (MapFails env gpu d size replayable ∧
        d' = failShaderArena (createShaderArena d (some (if replayable then .captureReplay else .shader))
          (align (acAlignShaderBinaryForPrefetch gpu size) allocAlignment) 0 replayable 0).2 d.nextArena) := by
  simp only [allocShaderMemoryEnv] at h
  unfold MapFails
  generalize align (acAlignShaderBinaryForPrefetch gpu size) allocAlignment = n at h ⊢
  generalize (if replayable then FreeListId.captureReplay else .shader) = l at h ⊢
  cases hfind : findHole d l n with
  | some hole =>
    simp only [hfind] at h
    split_ifs at h
    · cases h
    · cases h
      exact .inl ⟨fun hmap => by simp at hmap, rfl⟩
    · cases h
  | none =>
    simp only [hfind] at h
    unfold createShaderArenaEnv at h
    split_ifs at h with hcalloc hbo hblock hmap
    · cases h
      exact .inl ⟨fun hfail => by simp [hfail.2.1] at hcalloc, rfl⟩
    · cases h
      exact .inl ⟨fun hfail => by simp [hfail.2.2.1] at hbo, rfl⟩
    · cases h
      exact .inl ⟨fun hfail => by simp [hfail.2.2.2.1] at hblock, rfl⟩
    · cases h
      refine .inr ⟨⟨rfl, ?_⟩, rfl⟩
      simp only [Bool.not_eq_true', Bool.not_eq_false, Bool.and_eq_true] at hcalloc hbo hblock hmap
      exact ⟨hcalloc, hbo, hblock, hmap.1, hmap.2⟩
    · dsimp only at h
      split_ifs at h <;> cases h

end Call

lemma freeList_allocBlockObj (d : Device) : (allocBlockObj d).2.freeList = d.freeList := by
  unfold allocBlockObj
  split <;> rfl

section

variable (d : Device) (l : FreeListId) (minSize arenaSize : ℕ) (replayable : Bool)
  (replayVa : BitVec 64) (a : ArenaId)

/-- The hole of an arena that could not be mapped is on a free list. -/
theorem freeLists_failShaderArena :
    ∃ b c, ((failShaderArena (createShaderArena d (some l) minSize arenaSize replayable replayVa).2 a).freeList
      l).freeLists c = (d.freeList l).freeLists c ++ [b] := by
  obtain ⟨d', b, heq, hfree⟩ : ∃ d' b,
      (createShaderArena d (some l) minSize arenaSize replayable replayVa).2 = addHole d' l b ∧
      d'.freeList = d.freeList := ⟨_, _, rfl, freeList_allocBlockObj _⟩
  refine ⟨b, getSizeClass (d'.block b).size false, ?_⟩
  have hkeep : (failShaderArena (addHole d' l b) a).freeList = (addHole d' l b).freeList := rfl
  rw [heq, hkeep, addHole_freeLists, if_pos ⟨rfl, rfl⟩, hfree]

lemma not_unchanged_failShaderArena :
    ¬ Unchanged d (failShaderArena (createShaderArena d (some l) minSize arenaSize replayable replayVa).2 a) := by
  intro h
  obtain ⟨b, c, hlist⟩ := freeLists_failShaderArena d l minSize arenaSize replayable replayVa a
  rw [h.freeList] at hlist
  have hlen := congrArg List.length hlist
  rw [length_append, length_singleton] at hlen
  omega

end

/-! ## Runs -/

/-- A call, with the outcomes that matter for allocations. -/
structure Call where
  op : Op
  env : Env

def Sys.stepEnv (gpu : Gpu) (s : Sys) (c : Call) : Result × Sys :=
  match c.op with
  | .alloc size replayable =>
    match allocShaderMemoryEnv c.env gpu s.dev size replayable with
    | (.block b, d) => (.block b, ⟨d, (b, size) :: s.live⟩)
    | (r, d) => (r, ⟨d, s.live⟩)
  | op => (.null, s.step gpu op)

/-- A block is freed by a user who holds it; the program ends when a null pointer is followed. -/
def StepEnv (gpu : Gpu) (s : Sys) (c : Call) (s' : Sys) : Prop :=
  (∀ b, c.op = .free (some b) → b ∈ s.live.map Prod.fst) ∧
    (s.stepEnv gpu c).1 ≠ .crash ∧ s' = (s.stepEnv gpu c).2

/-- The call fits, and if it needs a new arena then this can be mapped. -/
def Call.Ok (gpu : Gpu) (s : Sys) (c : Call) : Prop :=
  c.op.Fits gpu ∧
    ∀ size replayable, c.op = .alloc size replayable → ¬ MapFails c.env gpu s.dev size replayable

/-- A call either does nothing or what it does when nothing fails. -/
theorem stepEnv_cases {gpu : Gpu} {s s' : Sys} {c : Call} (hok : c.Ok gpu s) (hstep : StepEnv gpu s c s') :
    s' = s ∨ Step gpu s c.op s' := by
  obtain ⟨hheld, hcrash, rfl⟩ := hstep
  cases hop : c.op with
  | alloc size replayable =>
    rw [Sys.stepEnv, hop] at hcrash ⊢
    dsimp only at hcrash ⊢
    generalize hres : allocShaderMemoryEnv c.env gpu s.dev size replayable = res at hcrash ⊢
    obtain ⟨r, d⟩ := res
    cases r with
    | block b =>
      refine .inr ⟨(fun _ h => by cases h), ?_⟩
      rw [Sys.step, allocShaderMemory_of_block hres]
    | null =>
      left
      rcases cases_of_null hres with ⟨-, rfl⟩ | ⟨hmap, -⟩
      · rfl
      · exact absurd hmap (hok.2 size replayable hop)
    | crash => exact absurd rfl hcrash
  | replay src =>
    refine .inr ⟨(fun _ h => by cases h), ?_⟩
    rw [Sys.stepEnv, hop]
  | free alloc =>
    refine .inr ⟨?_, ?_⟩
    · rw [← hop]
      exact hheld
    · rw [Sys.stepEnv, hop]

/-- The state of a run in which every new arena can be mapped. -/
theorem sysOk_of_runEnv {gpu : Gpu} {cs : List Call} {s : Sys}
    (h : Run (only (Call.Ok gpu · ·) (StepEnv gpu)) .init cs s) : SysOk s := by
  refine h.invariant (I := fun _ s => SysOk s) SysOk.init ?_
  intro _ s c s' hs ⟨hok, hstep⟩
  rcases stepEnv_cases hok hstep with rfl | hstep
  · exact hs
  · exact hs.step hok.1 hstep

theorem DeviceOk.clean {d : Device} (h : DeviceOk d) : Clean d := by
  refine ⟨fun l c b hb => ?_, fun a x hx b hb hpool => ?_, h.listed⟩
  · have hlink := (h.sound.links.mem_iff l c b).mp hb
    refine ⟨fun hpool => (h.sound.available b (.inl hpool)).1 l c hlink, ?_⟩
    obtain ⟨a, x, L, R, hat⟩ := h.holeAt hb
    rw [h.sound.owner a x hat.arena b hat.mem, hat.arena]
    exact nofun
  · exact (h.sound.available b (.inl hpool)).2 a x hx hb

/-- In every run of calls that fit in which every new arena can be mapped, no list has an object
that was freed or returned to the pool; and in every state, a call that returns `NULL` leaves the
lists and the arenas as they were, with no such object, if and only if it was not the mapping of a
new arena that failed. -/
theorem unchanged_of_null {gpu : Gpu} {cs : List Call} {s : Sys}
    (h : Run (only (Call.Ok gpu · ·) (StepEnv gpu)) .init cs s) :
    Clean s.dev ∧ ∀ env size replayable d', allocShaderMemoryEnv env gpu s.dev size replayable = (.null, d') →
      (Unchanged s.dev d' ∧ Clean d' ↔ ¬ MapFails env gpu s.dev size replayable) := by
  have hclean : Clean s.dev := (sysOk_of_runEnv h).device.clean
  refine ⟨hclean, fun env size replayable d' hnull => ?_⟩
  rcases cases_of_null hnull with ⟨hmap, rfl⟩ | ⟨hmap, rfl⟩
  · exact iff_of_true ⟨⟨rfl, rfl, rfl, fun _ _ _ _ _ => rfl⟩, hclean⟩ hmap
  · refine iff_of_false (fun hsame => ?_) (not_not_intro hmap)
    exact not_unchanged_failShaderArena _ _ _ _ _ _ _ hsame.1

/-- Nothing fails. -/
def Env.ok : Env := ⟨true, true, false, true, true, true⟩

def Env.noMap : Env := { Env.ok with bufferMap := false }
def Env.noMalloc : Env := { Env.ok with malloc := false }

/-- A device with a shader of 600 bytes. -/
def oneShader : Sys := (Sys.init.stepEnv gfx11 ⟨.alloc 600 false, .ok⟩).2

lemma run_oneShader :
    Run (only (Call.Ok gfx11 · ·) (StepEnv gfx11)) .init ([] ++ [⟨.alloc 600 false, .ok⟩]) oneShader := by
  have hok : Call.Ok gfx11 Sys.init ⟨.alloc 600 false, .ok⟩ := by
    refine ⟨show 0 < paddedSize gfx11 600 ∧ paddedSize gfx11 600 < 2 ^ 32 by decide, fun _ _ _ hmap => ?_⟩
    exact absurd hmap.2.2.2.2.2 (by decide)
  exact .snoc .nil ⟨hok, nofun, by decide, rfl⟩

/-- Another shader needs a block object that cannot be allocated. -/
theorem unchanged_of_null_malloc :
    ∃ d', allocShaderMemoryEnv .noMalloc gfx11 oneShader.dev 300 false = (.null, d') ∧
      Unchanged oneShader.dev d' ∧ Clean d' := by
  have hnull : (allocShaderMemoryEnv .noMalloc gfx11 oneShader.dev 300 false).1 = .null := by decide
  generalize hres : allocShaderMemoryEnv .noMalloc gfx11 oneShader.dev 300 false = res at hnull
  obtain ⟨r, d'⟩ := res
  obtain rfl : r = .null := hnull
  refine ⟨d', rfl, ((unchanged_of_null run_oneShader).2 .noMalloc 300 false d' hres).mpr fun hmap => ?_⟩
  exact absurd hmap.2.2.2.2.2 (by decide)

/-- The first arena cannot be mapped: its hole is on a free list and in the pool. -/
theorem not_unchanged_bufferMap :
    let d := (allocShaderMemoryEnv .noMap gfx11 initShaderArenas 600 false).2
    (allocShaderMemoryEnv .noMap gfx11 initShaderArenas 600 false).1 = .null ∧
      ¬ Unchanged initShaderArenas d ∧ ¬ Clean d := by
  intro d
  have hlisted : (d.freeList .shader).freeLists 7 = [0] := by decide
  refine ⟨by decide, fun hsame => ?_, fun hclean => ?_⟩
  · rw [hsame.freeList] at hlisted
    cases hlisted
  · exact (hclean.freeList .shader 7 0 (by rw [hlisted]; exact mem_singleton_self _)).1 (by decide)

end RadvXclipse.ShaderArena
