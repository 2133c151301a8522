import RadvXclipse.Lib.Tiling
import RadvXclipse.Util.Math

/-!
# Shader memory arenas

The allocator of `radv_shader.c` that places shader code in large BOs. An arena is a BO cut into
blocks, kept in a list sorted by offset; a block is either an allocation or a hole. Holes of
default and replayable arenas are also linked into a free list, one per size class; arenas that
are recreated for capture and replay have none.

A block object is named by an identifier. Its `freelist` node is described by what it is linked
into: `null` is `freelist.prev = NULL`, which marks an allocation, and `self` a node that was
only initialised. `malloc`, `calloc` and the creation and mapping of BOs succeed.
-/

namespace RadvXclipse.ShaderArena

open Lib Util

/-! ## Constants -/

def allocAlignment : ℕ := 256
def allocMinArenaSize : ℕ := 256 * 1024
def allocMaxArenaSizeShift : ℕ := 5
def allocMinSizeClass : ℕ := 8
def allocMaxSizeClass : ℕ := 15
def allocNumFreeLists : ℕ := allocMaxSizeClass - allocMinSizeClass + 1

/-! ## State -/

abbrev BlockId := ℕ
abbrev ArenaId := ℕ

/-- `enum radv_shader_arena_type`. -/
inductive ArenaType
  | default | replayable | replayed
deriving DecidableEq, Repr

/-- The two `radv_shader_free_list` structures of the device. -/
inductive FreeListId
  | shader | captureReplay
deriving DecidableEq, Repr

/-- What a block's `freelist` node is linked into. -/
inductive Link
  | null
  | self
  | linked (freeList : FreeListId) (sizeClass : ℕ)
deriving DecidableEq, Repr

/-- `union radv_shader_arena_block`. -/
structure Block where
  arena : ArenaId
  offset : ℕ
  size : ℕ
  freelist : Link

/-- `struct radv_shader_arena`. -/
structure Arena where
  entries : List BlockId
  size : ℕ
  type : ArenaType

/-- `struct radv_shader_free_list`. -/
structure FreeList where
  sizeMask : BitVec 8
  freeLists : ℕ → List BlockId

/-- The allocator's part of `struct radv_device`. `arenas` holds the arenas that exist, and
`captureReplayArenaVas` is the hash table from addresses to replayed arenas. -/
structure Device where
  block : BlockId → Block
  nextBlock : BlockId
  shaderBlockObjPool : List BlockId
  arenas : ArenaId → Option Arena
  nextArena : ArenaId
  shaderArenas : List ArenaId
  freeList : FreeListId → FreeList
  shaderArenaShift : ℕ
  captureReplayArenaVas : List (BitVec 64 × ArenaId)

/-- `struct radv_serialized_shader_arena_block`. -/
structure SerializedBlock where
  offset : ℕ
  size : ℕ
  arenaVa : BitVec 64
  arenaSize : ℕ

/-- The fields of `radeon_info` that the allocator reads. -/
structure Gpu where
  gfx11Plus : Bool
  instrPrefetchDistance : ℕ

/-! ## Field updates -/

variable (d : Device)

def Device.setBlock (b : BlockId) (x : Block) : Device :=
  { d with block := Function.update d.block b x }

def Device.setFreeList (l : FreeListId) (x : FreeList) : Device :=
  { d with freeList := Function.update d.freeList l x }

/-- Edits the entry list of an arena. -/
def Device.editEntries (a : ArenaId) (f : List BlockId → List BlockId) : Device :=
  { d with
    arenas := Function.update d.arenas a
      ((d.arenas a).map fun x => { x with entries := f x.entries }) }

/-! ## Holes -/

/-- `get_size_class`. -/
def getSizeClass (size : ℕ) (roundUp : Bool) : ℕ :=
  let size := if roundUp then utilLogbase2Ceil size else utilLogbase2 size
  min (max size allocMinSizeClass - allocMinSizeClass) (allocNumFreeLists - 1)

/-- `list_del(&hole->freelist)`: the node leaves the list it is linked into. -/
def Device.listDelFreelist (hole : BlockId) : Device :=
  let d := match (d.block hole).freelist with
    | .linked l c =>
      let x := d.freeList l
      d.setFreeList l { x with freeLists := Function.update x.freeLists c ((x.freeLists c).erase hole) }
    | .self => d
    | .null => d
  d.setBlock hole { d.block hole with freelist := .null }

/-- `remove_hole`. -/
def removeHole (l : FreeListId) (hole : BlockId) : Device :=
  let sizeClass := getSizeClass (d.block hole).size false
  let d := d.listDelFreelist hole
  let x := d.freeList l
  if (x.freeLists sizeClass).isEmpty then
    d.setFreeList l { x with sizeMask := x.sizeMask &&& ~~~(1#8 <<< sizeClass) }
  else d

/-- `add_hole`. -/
def addHole (l : FreeListId) (hole : BlockId) : Device :=
  let sizeClass := getSizeClass (d.block hole).size false
  let x := d.freeList l
  let d := d.setFreeList l
    { sizeMask := x.sizeMask ||| (1#8 <<< sizeClass),
      freeLists := Function.update x.freeLists sizeClass (x.freeLists sizeClass ++ [hole]) }
  d.setBlock hole { d.block hole with freelist := .linked l sizeClass }

/-- `if (free_list) remove_hole(free_list, hole)`. -/
def removeHoleIf (l : Option FreeListId) (hole : BlockId) : Device :=
  match l with
  | some l => removeHole d l hole
  | none => d

/-- `if (free_list) add_hole(free_list, hole)`. -/
def addHoleIf (l : Option FreeListId) (hole : BlockId) : Device :=
  match l with
  | some l => addHole d l hole
  | none => d

/-- `alloc_block_obj`. -/
def allocBlockObj : BlockId × Device :=
  match d.shaderBlockObjPool with
  | b :: rest => (b, { d with shaderBlockObjPool := rest })
  | [] => (d.nextBlock, { d with nextBlock := d.nextBlock + 1 })

/-- `free_block_obj`: `pool` shares its storage with `list`, so the block leaves its arena. -/
def freeBlockObj (b : BlockId) : Device :=
  let d := d.editEntries (d.block b).arena fun l => l.erase b
  { d with shaderBlockObjPool := b :: d.shaderBlockObjPool }

/-! ## Arenas -/

/-- `radv_create_shader_arena`. -/
def createShaderArena (l : Option FreeListId) (minSize arenaSize : ℕ)
    (replayable : Bool) (replayVa : BitVec 64) : ArenaId × Device :=
  let a := d.nextArena
  let arenaSize :=
    if arenaSize = 0 then
      max (allocMinArenaSize <<< min allocMaxArenaSizeShift d.shaderArenaShift) minSize
    else arenaSize
  let (alloc, d) := allocBlockObj { d with nextArena := a + 1 }
  let d := d.setBlock alloc { arena := a, offset := 0, size := arenaSize, freelist := .self }
  let type :=
    if replayVa ≠ 0 then .replayed
    else if replayable then .replayable
    else .default
  let d := { d with
    arenas := Function.update d.arenas a (some { entries := [alloc], size := arenaSize, type := type }) }
  (a, addHoleIf d l alloc)

/-- The creation of `left_hole` and `right_hole` in `insert_block`. -/
def newHole (l : Option FreeListId) (a : ArenaId) (offset size : ℕ) : BlockId × Device :=
  let (b, d) := allocBlockObj d
  let d := d.setBlock b { arena := a, offset := offset, size := size, freelist := .self }
  (b, addHoleIf d l b)

def newHoleIf (c : Prop) [Decidable c] (l : Option FreeListId) (a : ArenaId)
    (offset size : ℕ) : Option BlockId × Device :=
  if c then (some (newHole d l a offset size).1, (newHole d l a offset size).2) else (none, d)

/-- `if (left_hole)` in `insert_block`. -/
def linkLeft (hole : BlockId) (left : Option BlockId) : Device :=
  match left with
  | some b =>
    let x := d.block hole
    let n := (d.block b).size
    let d := d.setBlock hole { x with offset := add32 x.offset n, size := sub32 x.size n }
    d.editEntries x.arena fun es => insertBefore es hole b
  | none => d

/-- `if (right_hole)` in `insert_block`. -/
def linkRight (hole : BlockId) (right : Option BlockId) : Device :=
  match right with
  | some b =>
    let x := d.block hole
    let d := d.setBlock hole { x with size := sub32 x.size (d.block b).size }
    d.editEntries x.arena fun es => insertAfter es hole b
  | none => d

/-- `insert_block`. -/
def insertBlock (hole : BlockId) (offsetInHole size : ℕ) (l : Option FreeListId) :
    BlockId × Device :=
  let holeBegin := (d.block hole).offset
  let holeEnd := add32 (d.block hole).offset (d.block hole).size
  let a := (d.block hole).arena
  let (left, d) := newHoleIf d (offsetInHole ≠ 0) l a holeBegin offsetInHole
  let offset := add32 (add32 holeBegin offsetInHole) size
  let (right, d) := newHoleIf d ((d.block hole).size > add32 offsetInHole size) l a offset
    (sub32 holeEnd offset)
  let d := linkLeft d hole left
  let d := linkRight d hole right
  (hole, removeHoleIf d l hole)

/-- `insert_block`, followed by `freelist.prev = NULL` for the block it returns. -/
def placeBlock (hole : BlockId) (offsetInHole size : ℕ) (l : Option FreeListId) : Device :=
  let p := insertBlock d hole offsetInHole size l
  p.2.setBlock p.1 { p.2.block p.1 with freelist := .null }

/-- `ac_align_shader_binary_for_prefetch`. -/
def acAlignShaderBinaryForPrefetch (gpu : Gpu) (size : ℕ) : ℕ :=
  if gpu.instrPrefetchDistance ≠ 0 then
    if gpu.gfx11Plus then align (size + gpu.instrPrefetchDistance * 64) 128
    else align (size + gpu.instrPrefetchDistance * 64) 64
  else size

/-- The first hole of the list that is large enough. -/
def findHole (l : FreeListId) (size : ℕ) : Option BlockId :=
  let x := d.freeList l
  let sizeClass := ffs (x.sizeMask.setWidth 32 &&& (0xFF#32 <<< getSizeClass size true))
  if sizeClass ≠ 0 then
    (x.freeLists (sizeClass - 1)).find? fun hole => ¬ (d.block hole).size < size
  else none

/-- `radv_alloc_shader_memory` with a hole that is larger than needed: the allocation is put in
front of it. -/
def allocFromHole (l : FreeListId) (hole : BlockId) (size : ℕ) : BlockId × Device :=
  let (alloc, d) := allocBlockObj d
  let x := d.block hole
  let d := d.editEntries x.arena fun es => insertBefore es hole alloc
  let d := d.setBlock alloc { arena := x.arena, offset := x.offset, size := size, freelist := .null }
  let d := removeHole d l hole
  let x := d.block hole
  let d := d.setBlock hole { x with offset := add32 x.offset size, size := sub32 x.size size }
  (alloc, addHole d l hole)

/-- `radv_alloc_shader_memory` without a suitable hole. -/
def allocFromNewArena (l : FreeListId) (size : ℕ) (replayable : Bool) :
    BlockId × Device :=
  let (a, d) := createShaderArena d (some l) size 0 replayable 0
  let first := (((d.arenas a).map Arena.entries).getD []).head?.getD 0
  let d := placeBlock d first 0 size (some l)
  (first, { d with shaderArenaShift := add32 d.shaderArenaShift 1,
                   shaderArenas := d.shaderArenas ++ [a] })

/-- `radv_alloc_shader_memory`. -/
def allocShaderMemory (gpu : Gpu) (d : Device) (size : ℕ) (replayable : Bool) : BlockId × Device :=
  let size := acAlignShaderBinaryForPrefetch gpu size
  let size := align size allocAlignment
  let l : FreeListId := if replayable then .captureReplay else .shader
  match findHole d l size with
  | some hole =>
    if size = (d.block hole).size then (hole, removeHole d l hole)
    else allocFromHole d l hole size
  | none => allocFromNewArena d l size replayable

/-! ## Freeing and replaying -/

/-- `get_hole`, for the neighbour found in the entry list. -/
def getHole (neighbour : Option BlockId) : Option BlockId :=
  neighbour.bind fun b => if (d.block b).freelist ≠ .null then some b else none

/-- The free list that the holes of an arena are on. -/
def ArenaType.freeList : ArenaType → Option FreeListId
  | .default => some .shader
  | .replayable => some .captureReplay
  | .replayed => none

/-- The destruction of an arena whose only block is a hole. -/
def destroyArena (hole : BlockId) : Device :=
  let a := (d.block hole).arena
  let d := freeBlockObj d hole
  { d with
    arenas := Function.update d.arenas a none
    shaderArenas := d.shaderArenas.erase a
    captureReplayArenaVas := d.captureReplayArenaVas.eraseP fun e => e.2 = a }

/-- `if (hole_prev)` in `radv_free_shader_memory`. -/
def mergePrev (l : Option FreeListId) (hole : BlockId) (holePrev : Option BlockId) :
    BlockId × Device :=
  match holePrev with
  | some p =>
    let d := removeHoleIf d l p
    let d := d.setBlock p { d.block p with size := add32 (d.block p).size (d.block hole).size }
    (p, freeBlockObj d hole)
  | none => (hole, d)

/-- `if (hole_next)` in `radv_free_shader_memory`. -/
def mergeNext (l : Option FreeListId) (hole : BlockId) (holeNext : Option BlockId) :
    BlockId × Device :=
  match holeNext with
  | some n =>
    let d := removeHoleIf d l n
    let x := d.block n
    let size := (d.block hole).size
    let d := d.setBlock n { x with offset := sub32 x.offset size, size := add32 x.size size }
    (n, freeBlockObj d hole)
  | none => (hole, d)

/-- `add_hole`, or `list_inithead(&hole->freelist)` in an arena without free list. -/
def markHole (l : Option FreeListId) (hole : BlockId) : Device :=
  match l with
  | some l => addHole d l hole
  | none => d.setBlock hole { d.block hole with freelist := .self }

/-- `radv_free_shader_memory`. -/
def freeShaderMemory (alloc : BlockId) : Device :=
  let a := (d.block alloc).arena
  match d.arenas a with
  | none => d
  | some arena =>
    let holePrev := getHole d (before arena.entries alloc)
    let holeNext := getHole d (after arena.entries alloc)
    let l := arena.type.freeList
    let (hole, d) := mergePrev d l alloc holePrev
    let (hole, d) := mergeNext d l hole holeNext
    if ((d.arenas a).map Arena.entries).getD [] = [hole] then destroyArena d hole
    else markHole d l hole

/-- The search of `radv_replay_shader_arena_block` through the entries of an arena. -/
def replayLoop (d : Device) (blockBegin blockEnd size : ℕ) : List BlockId → Option BlockId × Device
  | [] => (none, d)
  | hole :: rest =>
    let x := d.block hole
    if x.freelist = .null then replayLoop d blockBegin blockEnd size rest
    else if add32 x.offset x.size < blockEnd then replayLoop d blockBegin blockEnd size rest
    else if x.offset > blockBegin then (none, d)
    else (some hole, placeBlock d hole (sub32 blockBegin x.offset) size none)

/-- `radv_replay_shader_arena_block`. -/
def replayShaderArenaBlock (src : SerializedBlock) : Option BlockId × Device :=
  let (a, d) := match d.captureReplayArenaVas.find? fun e => e.1 = src.arenaVa with
    | some e => (e.2, d)
    | none =>
      let (a, d) := createShaderArena d none 0 src.arenaSize true src.arenaVa
      (a, { d with captureReplayArenaVas := d.captureReplayArenaVas ++ [(src.arenaVa, a)],
                   shaderArenas := d.shaderArenas ++ [a] })
  replayLoop d src.offset (add32 src.offset src.size) src.size
    (((d.arenas a).map Arena.entries).getD [])

/-- `radv_init_shader_arenas`. -/
def initShaderArenas : Device :=
  { block := fun _ => ⟨0, 0, 0, .null⟩, nextBlock := 0, shaderBlockObjPool := [],
    arenas := fun _ => none, nextArena := 0, shaderArenas := [],
    freeList := fun _ => ⟨0, fun _ => []⟩, shaderArenaShift := 0, captureReplayArenaVas := [] }

end RadvXclipse.ShaderArena
