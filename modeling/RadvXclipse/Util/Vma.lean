import RadvXclipse.Lib.Spans
import RadvXclipse.Util.Math

/-!
# The heap of virtual addresses

The model of `src/util/vma.c`. Holes are kept from high to low. All arithmetic is that of
`uint64_t`; the range of a heap may end at `2 ^ 64`, where the end of its highest hole wraps to
zero.
-/

namespace RadvXclipse.Util.Vma

open Lib

/-- `struct util_vma_hole`. -/
abbrev Hole := Span

/-- `struct util_vma_heap`. -/
@[ext]
structure Heap where
  holes : List Hole
  freeSize : ℕ
  allocHigh : Bool
  nospanShift : ℕ

/-- What `util_vma_hole_alloc` leaves of a hole, from high to low. -/
def holeAlloc (hole : Hole) (offset size : ℕ) : List Hole :=
  if offset = hole.offset ∧ size = hole.size then []
  else
    let waste := sub64 (sub64 hole.size size) (sub64 offset hole.offset)
    if waste = 0 then [⟨hole.offset, sub64 hole.size size⟩]
    else if offset = hole.offset then [⟨add64 hole.offset size, sub64 hole.size size⟩]
    else [⟨add64 offset size, waste⟩, ⟨hole.offset, sub64 offset hole.offset⟩]

/-- The last address of an allocation is in another block than the first. -/
def spans (shift offset size : ℕ) : Bool :=
  shift ≠ 0 ∧ sub64 (add64 offset size) 1 >>> shift ≠ offset >>> shift

/-- Where `util_vma_heap_alloc` allocates in a hole when it prefers high addresses. -/
def placeHigh (shift : ℕ) (hole : Hole) (size alignment : ℕ) : Option ℕ :=
  if size > hole.size then none
  else
    let offset := add64 (sub64 hole.size size) hole.offset
    let crosses := spans shift offset size
    let offset := if crosses then sub64 offset size else offset
    if crosses ∧ offset < hole.offset then none
    else
      let offset := offset / alignment * alignment
      if offset < hole.offset then none else some offset

/-- The same for low addresses. -/
def placeLow (shift : ℕ) (hole : Hole) (size alignment : ℕ) : Option ℕ :=
  if size > hole.size then none
  else
    let misalign := hole.offset % alignment
    let pad := if misalign ≠ 0 then alignment - misalign else 0
    if pad > sub64 hole.size size then none
    else
      let offset := add64 hole.offset pad
      if spans shift offset size then
        let offset := sub64 (add64 offset size) 1 / 2 ^ shift * 2 ^ shift
        if add64 offset size > add64 hole.offset hole.size then none else some offset
      else some offset

/-- The first hole with a place, from the top. -/
def allocFromTop (place : Hole → Option ℕ) (size : ℕ) : List Hole → Option (ℕ × List Hole)
  | [] => none
  | hole :: holes =>
    match place hole with
    | some offset => some (offset, holeAlloc hole offset size ++ holes)
    | none => (allocFromTop place size holes).map fun r => (r.1, hole :: r.2)

/-- The first hole with a place, from the bottom. -/
def allocFromBottom (place : Hole → Option ℕ) (size : ℕ) : List Hole → Option (ℕ × List Hole)
  | [] => none
  | hole :: holes =>
    match allocFromBottom place size holes with
    | some r => some (r.1, hole :: r.2)
    | none => (place hole).map fun offset => (offset, holeAlloc hole offset size ++ holes)

/-- `util_vma_heap_alloc`; zero if there is no place. -/
def heapAlloc (heap : Heap) (size alignment : ℕ) : ℕ × Heap :=
  let found :=
    if heap.allocHigh then
      allocFromTop (placeHigh heap.nospanShift · size alignment) size heap.holes
    else allocFromBottom (placeLow heap.nospanShift · size alignment) size heap.holes
  match found with
  | some (offset, holes) => (offset, { heap with holes := holes, freeSize := sub64 heap.freeSize size })
  | none => (0, heap)

/-- The search of `util_vma_heap_alloc_addr`. -/
def allocAddrLoop (offset size : ℕ) : List Hole → Option (List Hole)
  | [] => none
  | hole :: holes =>
    if hole.offset > offset then (allocAddrLoop offset size holes).map (hole :: ·)
    else if hole.size < add64 (sub64 offset hole.offset) size then none
    else some (holeAlloc hole offset size ++ holes)

/-- `util_vma_heap_alloc_addr`. -/
def heapAllocAddr (heap : Heap) (offset size : ℕ) : Bool × Heap :=
  match allocAddrLoop offset size heap.holes with
  | some holes => (true, { heap with holes := holes, freeSize := sub64 heap.freeSize size })
  | none => (false, heap)

/-- The holes after `util_vma_heap_free`: `high` and `low` are those above and below the range. -/
def freeHoles (offset size : ℕ) (high low : List Hole) : List Hole :=
  let highAdjacent := high.getLast?.filter fun h => add64 offset size = h.offset
  let lowAdjacent := low.head?.filter fun h => add64 h.offset h.size = offset
  match lowAdjacent, highAdjacent with
  | some l, some h => high.dropLast ++ ⟨l.offset, add64 l.size (add64 size h.size)⟩ :: low.tail
  | some l, none => high ++ ⟨l.offset, add64 l.size size⟩ :: low.tail
  | none, some h => high.dropLast ++ ⟨offset, add64 h.size size⟩ :: low
  | none, none => high ++ ⟨offset, size⟩ :: low

/-- `util_vma_heap_free`. -/
def heapFree (heap : Heap) (offset size : ℕ) : Heap :=
  { heap with
    holes := freeHoles offset size (heap.holes.takeWhile (offset < ·.offset))
      (heap.holes.dropWhile (offset < ·.offset))
    freeSize := add64 heap.freeSize size }

/-- `util_vma_heap_init`. -/
def heapInit (start size : ℕ) : Heap :=
  let heap : Heap := ⟨[], 0, false, 0⟩
  let heap := if size > 0 then heapFree heap start size else heap
  { heap with allocHigh := true, nospanShift := 0 }

end RadvXclipse.Util.Vma
