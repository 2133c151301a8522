import Mathlib.Algebra.Group.Nat.Defs
import RadvXclipse.Lib.Dominators
import RadvXclipse.Util.Math

/-!
# The dominance tree

The model of `src/compiler/nir/nir_dominance.c`. A block is its index: `nir_index_blocks` counts the
blocks in the order in which all loops here visit them. `none` is a null pointer where a block may
have one; as the result of a function it is a loop that has not ended within its fuel, a null
pointer that is followed, or an assertion that fails. The fuel of the calls is enough for all
graphs.
-/

namespace RadvXclipse.Nir

open Lib Util List

/-- The control flow graph of a `nir_function_impl`. The end block is not part of it. -/
structure Cfg where
  /-- The index of the last block. -/
  last : ℕ
  preds : Fin (last + 1) → List (Fin (last + 1))
  /-- `validate_block_predecessors`: the start block cannot have any predecessors. -/
  preds_start : preds 0 = []

namespace Cfg

variable (g : Cfg)

abbrev Block := Fin (g.last + 1)

/-- `imm_dom` of all blocks. -/
abbrev ImmDom := g.Block → Option g.Block

/-- `dom_frontier` of all blocks. -/
abbrev DomFrontier := g.Block → Finset g.Block

def edge (p b : g.Block) : Prop := p ∈ g.preds b

/-- More than the steps of any walk up the tree. -/
def fuel : ℕ := g.last + 2

/-! ## Immediate dominators -/

/-- `imm_dom` after `init_block`. -/
def initImmDom : g.ImmDom := fun block => if block = 0 then some block else none

variable {g}

/-- `while (b1->index > b2->index) b1 = b1->imm_dom`. -/
def climb (immDom : g.ImmDom) (limit : g.Block) : (fuel : ℕ) → g.Block → Option g.Block
  | 0, _ => none
  | fuel + 1, b => if b > limit then (immDom b).bind (climb immDom limit fuel) else some b

/-- `intersect`. -/
def intersect (immDom : g.ImmDom) : (fuel : ℕ) → (b1 b2 : g.Block) → Option g.Block
  | 0, _, _ => none
  | fuel + 1, b1, b2 =>
    if b1 ≠ b2 then
      (climb immDom b2 g.fuel b1).bind fun b1 =>
        (climb immDom b1 g.fuel b2).bind fun b2 => intersect immDom fuel b1 b2
    else some b1

variable (immDom : g.ImmDom)

/-- One iteration of the loop over the predecessors. -/
def newIdomStep (newIdom : Option g.Block) (pred : g.Block) : Option (Option g.Block) :=
  if immDom pred ≠ none then
    match newIdom with
    | some idom => (intersect immDom g.fuel pred idom).map some
    | none => some (some pred)
  else some newIdom

/-- `calc_dominance`. -/
def calcDominance (block : g.Block) : Option (g.ImmDom × Bool) :=
  ((g.preds block).foldlM (newIdomStep immDom) none).map fun newIdom =>
    if immDom block ≠ newIdom then (Function.update immDom block newIdom, true) else (immDom, false)

/-- One iteration of the loop over the blocks. -/
def passStep (s : g.ImmDom × Bool) (block : g.Block) : Option (g.ImmDom × Bool) :=
  if block ≠ 0 then (calcDominance s.1 block).map fun r => (r.1, s.2 || r.2) else some s

/-- `while (progress)`. -/
def calcLoop : (fuel : ℕ) → g.ImmDom → Option g.ImmDom
  | 0, _ => none
  | fuel + 1, immDom =>
    ((finRange (g.last + 1)).foldlM passStep (immDom, false)).bind fun r =>
      if r.2 then calcLoop fuel r.1 else some r.1

/-! ## Dominance frontiers -/

/-- `while (runner != block->imm_dom)`. -/
def frontierWalk (immDom : g.ImmDom) (block : g.Block) :
    (fuel : ℕ) → Option g.Block → g.DomFrontier → Option g.DomFrontier
  | 0, _, _ => none
  | fuel + 1, runner, frontier =>
    if runner ≠ immDom block then
      runner.bind fun r =>
        frontierWalk immDom block fuel (immDom r) (Function.update frontier r (insert block (frontier r)))
    else some frontier

/-- `calc_dom_frontier`. -/
def calcDomFrontier (frontier : g.DomFrontier) (block : g.Block) : Option g.DomFrontier :=
  if (g.preds block).length > 1 then
    (g.preds block).foldlM
      (fun frontier runner =>
        if immDom runner = none then some frontier
        else frontierWalk immDom block g.fuel (some runner) frontier) frontier
  else some frontier

/-! ## The tree -/

/-- One iteration of the last loop of `calc_dom_children`. -/
def addDomChild (children : g.Block → List g.Block) (block : g.Block) :
    g.Block → List g.Block :=
  match immDom block with
  | some idom => Function.update children idom (children idom ++ [block])
  | none => children

/-- `calc_dom_children`. -/
def calcDomChildren : g.Block → List g.Block :=
  (finRange (g.last + 1)).foldl (addDomChild immDom) fun _ => []

/-- The indices of all blocks, and the next index. -/
structure DfsIndices (g : Cfg) where
  domPreIndex : g.Block → ℕ
  domPostIndex : g.Block → ℕ
  index : ℕ

/-- `calc_dfs_indices`. -/
def calcDfsIndices (children : g.Block → List g.Block) :
    (fuel : ℕ) → g.Block → DfsIndices g → Option (DfsIndices g)
  | 0, _, _ => none
  | fuel + 1, block, s =>
    if s.index < uint32Max - 2 then
      ((children block).foldlM (fun s child => calcDfsIndices children fuel child s)
        { s with domPreIndex := Function.update s.domPreIndex block s.index, index := s.index + 1 }).map fun s =>
          { s with domPostIndex := Function.update s.domPostIndex block s.index, index := s.index + 1 }
    else none

/-! ## The metadata -/

/-- What `nir_calc_dominance_impl` computes. -/
structure Dominance (g : Cfg) where
  immDom : g.ImmDom
  domFrontier : g.DomFrontier
  domPreIndex : g.Block → ℕ
  domPostIndex : g.Block → ℕ

variable (g) in
/-- `nir_calc_dominance_impl`. -/
def calcDominanceImpl : Option (Dominance g) :=
  (calcLoop g.fuel g.initImmDom).bind fun immDom =>
    ((finRange (g.last + 1)).foldlM (calcDomFrontier immDom) fun _ => ∅).bind fun frontier =>
      let immDom := Function.update immDom 0 none
      (calcDfsIndices (calcDomChildren immDom) g.fuel 0 ⟨fun _ => uint32Max, fun _ => 0, 1⟩).map fun s =>
        ⟨immDom, frontier, s.domPreIndex, s.domPostIndex⟩

/-- `nir_block_dominates`. -/
def Dominance.blockDominates (d : Dominance g) (parent child : g.Block) : Bool :=
  d.domPreIndex child ≥ d.domPreIndex parent ∧ d.domPostIndex child ≤ d.domPostIndex parent

end Cfg

end RadvXclipse.Nir
