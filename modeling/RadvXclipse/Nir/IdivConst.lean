import RadvXclipse.Nir.Opcodes
import RadvXclipse.Util.FastIdiv

/-!
# Divisions by constants

The model of `nir_opt_idiv_const.c`: divisions and remainders whose second source is a constant are
replaced by multiplications, shifts and selections. The instructions that the pass builds are trees
over the components of the first source. A builder gives `none` if a search for a magic number did
not end.
-/

namespace RadvXclipse.Nir

open Util

/-! ## Instructions -/

inductive Unop
  | ineg | iabs | inot
deriving DecidableEq

def Unop.eval {w : ℕ} : Unop → BitVec w → BitVec w
  | .ineg => Nir.ineg
  | .iabs => Nir.iabs
  | .inot => Nir.inot

inductive Binop
  | iadd | isub | imul | iand | ior | uaddSat | umulHigh | imulHigh
deriving DecidableEq

def Binop.eval {w : ℕ} : Binop → BitVec w → BitVec w → BitVec w
  | .iadd => Nir.iadd
  | .isub => Nir.isub
  | .imul => Nir.imul
  | .iand => Nir.iand
  | .ior => Nir.ior
  | .uaddSat => Nir.uaddSat
  | .umulHigh => Nir.umulHigh
  | .imulHigh => Nir.imulHigh

inductive Shift
  | ishl | ishr | ushr
deriving DecidableEq

def Shift.eval {w : ℕ} : Shift → BitVec w → BitVec 32 → BitVec w
  | .ishl => Nir.ishl
  | .ishr => Nir.ishr
  | .ushr => Nir.ushr

inductive Cmp
  | ieq | ilt | ige | ult | uge
deriving DecidableEq

def Cmp.eval {w : ℕ} : Cmp → BitVec w → BitVec w → BitVec 1
  | .ieq => Nir.ieq
  | .ilt => Nir.ilt
  | .ige => Nir.ige
  | .ult => Nir.ult
  | .uge => Nir.uge

/-- A `nir_def` of a bit size, over the components of a source of bit size `N`. -/
inductive Def (N : ℕ) : ℕ → Type
  /-- `nir_channel` -/
  | channel (i : ℕ) : Def N N
  /-- `nir_imm_intN_t`, which keeps the low bits -/
  | imm (w : ℕ) (x : ℤ) : Def N w
  | unop {w : ℕ} (op : Unop) (a : Def N w) : Def N w
  | binop {w : ℕ} (op : Binop) (a b : Def N w) : Def N w
  | shift {w : ℕ} (op : Shift) (a : Def N w) (s : Def N 32) : Def N w
  | cmp {w : ℕ} (op : Cmp) (a b : Def N w) : Def N 1
  | bcsel {w : ℕ} (c : Def N 1) (a b : Def N w) : Def N w
  | b2i (w : ℕ) (c : Def N 1) : Def N w

/-- The value of a definition, for the components of the source. -/
def Def.eval {N : ℕ} (v : ℕ → BitVec N) : {w : ℕ} → Def N w → BitVec w
  | _, .channel i => v i
  | _, .imm w x => BitVec.ofInt w x
  | _, .unop op a => op.eval (a.eval v)
  | _, .binop op a b => op.eval (a.eval v) (b.eval v)
  | _, .shift op a s => op.eval (a.eval v) (s.eval v)
  | _, .cmp op a b => op.eval (a.eval v) (b.eval v)
  | _, .bcsel c a b => Nir.bcsel (c.eval v) (a.eval v) (b.eval v)
  | _, .b2i w c => Nir.b2i w (c.eval v)

section Builder

variable {N : ℕ} {w : ℕ}

/-! ## `nir_builder` -/

/-- `y & BITFIELD64_MASK(bit_size)`. -/
def lowBits (w : ℕ) (y : ℤ) : ℕ := (y % 2 ^ w).toNat

/-- `nir_iadd_imm`. -/
def iaddImm (x : Def N w) (y : ℤ) : Def N w :=
  if lowBits w y = 0 then x else .binop .iadd x (.imm w (lowBits w y))

variable (lowerBitops : Bool)

/-- `nir_imul_imm`; `lowerBitops` is an option of the shader. -/
def imulImm (x : Def N w) (y : ℤ) : Def N w :=
  if lowBits w y = 0 then .imm w 0
  else if lowBits w y = 1 then x
  else if lowerBitops = false ∧ isPowerOfTwoOrZero64 (lowBits w y) then
    .shift .ishl x (.imm 32 ((ffsll (lowBits w y) - 1 : ℕ) : ℤ))
  else .binop .imul x (.imm w (lowBits w y))

/-- `nir_iand_imm`. -/
def iandImm (x : Def N w) (y : ℤ) : Def N w :=
  if lowBits w y = 0 then .imm w 0
  else if lowBits w y = 2 ^ w - 1 then x
  else .binop .iand x (.imm w (lowBits w y))

/-- `nir_ushr_imm`. -/
def ushrImm (x : Def N w) (y : ℕ) : Def N w := if y = 0 then x else .shift .ushr x (.imm 32 y)

/-- `nir_ishr_imm`. -/
def ishrImm (x : Def N w) (y : ℕ) : Def N w := if y = 0 then x else .shift .ishr x (.imm 32 y)

/-- `nir_ieq_imm`, `nir_ilt_imm` and `nir_uge_imm`. -/
def cmpImm (op : Cmp) (x : Def N w) (y : ℤ) : Def N 1 := .cmp op x (.imm w y)

/-! ## The builders of the pass -/

/-- The instructions of an unsigned division by multiplication, the end of `build_udiv`. -/
def magicUdiv (m : FastUdivInfo) (n : Def N w) : Def N w :=
  let n := if m.preShift ≠ 0 then ushrImm n m.preShift else n
  let n := if m.increment ≠ 0 then .binop .uaddSat n (.imm w m.increment) else n
  let n := .binop .umulHigh n (.imm w m.multiplier)
  if m.postShift ≠ 0 then ushrImm n m.postShift else n

/-- The corrected high part of a product. -/
def magicHigh (m : FastSdivInfo) (d : ℤ) (n : Def N w) : Def N w :=
  let res := .binop .imulHigh n (.imm w m.multiplier)
  let res := if 0 < d ∧ m.multiplier < 0 then .binop .iadd res n else res
  if d < 0 ∧ 0 < m.multiplier then .binop .isub res n else res

/-- The instructions of a signed division by multiplication, the end of `build_idiv`. -/
def magicIdiv (m : FastSdivInfo) (d : ℤ) (n : Def N w) : Def N w :=
  let res := magicHigh m d n
  let res := if m.shift ≠ 0 then ishrImm res m.shift else res
  .binop .iadd res (ushrImm res (w - 1))

/-- `build_udiv`. -/
def buildUdiv (n : Def N w) (d : ℕ) : Option (Def N w) :=
  let uintMax := 2 ^ w - 1
  if d = 0 then some (.imm w 0)
  else if d = uintMax then some (.b2i w (cmpImm .ieq n uintMax))
  else if d > uintMax / 2 then some (.b2i w (cmpImm .uge n d))
  else if isPowerOfTwoOrZero64 d then some (ushrImm n (utilLogbase264 d))
  else (computeFastUdivInfo d w w).map fun m => magicUdiv m n

/-- `build_umod`. -/
def buildUmod (n : Def N w) (d : ℕ) : Option (Def N w) :=
  if d = 0 then some (.imm w 0)
  else if isPowerOfTwoOrZero64 d then some (iandImm n (d - 1))
  else (buildUdiv n d).map fun q => .binop .isub n (imulImm lowerBitops q d)

/-- `build_idiv`. -/
def buildIdiv (n : Def N w) (d : ℤ) : Option (Def N w) :=
  if d = intMin w then some (.b2i w (cmpImm .ieq n (intMin w)))
  else
    let absD := d.natAbs
    if d = 0 then some (.imm w 0)
    else if d = 1 then some n
    else if d = -1 then some (.unop .ineg n)
    else if isPowerOfTwoOrZero64 absD then
      let uq := ushrImm (.unop .iabs n) (utilLogbase264 absD)
      let nNeg := cmpImm .ilt n 0
      let neg := if d < 0 then .unop .inot nNeg else nNeg
      some (.bcsel neg (.unop .ineg uq) uq)
    else (computeFastSdivInfo d w).map fun m => magicIdiv m d n

/-- `build_irem`. -/
def buildIrem (n : Def N w) (d : ℤ) : Option (Def N w) :=
  if d = 0 then some (.imm w 0)
  else if d = intMin w then some (.bcsel (cmpImm .ieq n (intMin w)) (.imm w 0) n)
  else
    let d := if d < 0 then -d else d
    if isPowerOfTwoOrZero64 d.toNat then
      let tmp := .bcsel (cmpImm .ilt n 0) (iaddImm n (d - 1)) n
      some (.binop .isub n (iandImm tmp (-d)))
    else (buildIdiv n d).map fun q => .binop .isub n (imulImm lowerBitops q d)

/-- `build_imod`. -/
def buildImod (n : Def N w) (d : ℤ) : Option (Def N w) :=
  if d = 0 then some (.imm w 0)
  else if d = intMin w then
    let intMinDef := .imm w (intMin w)
    let isNegNotIntMin := .cmp .ult intMinDef n
    let isZero := cmpImm .ieq n 0
    some (.bcsel (.binop .ior isNegNotIntMin isZero) n (.binop .iadd intMinDef n))
  else if 0 < d ∧ isPowerOfTwoOrZero64 d.toNat then some (iandImm n (d - 1))
  else if d < 0 ∧ isPowerOfTwoOrZero64 (-d).toNat then
    let dDef := .imm w d
    let res := .binop .ior n dDef
    some (.bcsel (.cmp .ieq res dDef) (.imm w 0) res)
  else
    (buildIrem lowerBitops n d).map fun rem =>
      let zero := .imm w 0
      let signSame := if d < 0 then .cmp .ilt n zero else .cmp .ige n zero
      let remZero := .cmp .ieq rem zero
      .bcsel (.binop .ior remZero signSame) rem (iaddImm rem d)

end Builder

/-! ## The pass -/

/-- The opcodes that the pass replaces. -/
inductive DivOp
  | udiv | idiv | umod | imod | irem
deriving DecidableEq

def DivOp.eval {w : ℕ} : DivOp → BitVec w → BitVec w → BitVec w
  | .udiv => Nir.udiv
  | .idiv => Nir.idiv
  | .umod => Nir.umod
  | .imod => Nir.imod
  | .irem => Nir.irem

/-- The second source is unsigned. -/
def DivOp.isUint : DivOp → Bool
  | .udiv | .umod => true
  | .idiv | .imod | .irem => false

/-- The `nir_alu_instr` of a division; `src1` are the components of its second source if that is a
constant. -/
structure AluInstr (N : ℕ) where
  op : DivOp
  numComponents : ℕ
  swizzle0 : ℕ → ℕ
  src1 : Option (ℕ → BitVec N)
  swizzle1 : ℕ → ℕ

/-- The value of a component; `v0` and `v1` are the components of the sources. -/
def AluInstr.eval {N : ℕ} (alu : AluInstr N) (v0 v1 : ℕ → BitVec N) (comp : ℕ) : BitVec N :=
  alu.op.eval (v0 (alu.swizzle0 comp)) (alu.src1.getD v1 (alu.swizzle1 comp))

/-- One component of `nir_opt_idiv_const_instr`. -/
def buildComponent {N : ℕ} (lowerBitops : Bool) (op : DivOp) (n : Def N N) (d : ℤ) : Option (Def N N) :=
  -- `nir_src_comp_as_int` has extended the sign
  let d := if op.isUint ∧ N < 64 then ((d % 2 ^ N).toNat : ℤ) else d
  match op with
  | .udiv => buildUdiv n (lowBits 64 d)
  | .idiv => buildIdiv n d
  | .umod => buildUmod lowerBitops n (lowBits 64 d)
  | .imod => buildImod lowerBitops n d
  | .irem => buildIrem lowerBitops n d

/-- `nir_opt_idiv_const_instr`: the components of the new definition, or nothing if the instruction
stays. -/
def optIdivConstInstr {N : ℕ} (lowerBitops : Bool) (minBitSize : ℕ) (alu : AluInstr N) :
    Option (Option (List (Def N N))) :=
  if N < minBitSize then some none
  else
    match alu.src1 with
    | none => some none
    | some c =>
      ((List.range alu.numComponents).mapM fun comp =>
        buildComponent lowerBitops alu.op (.channel (alu.swizzle0 comp))
          (c (alu.swizzle1 comp)).toInt).map some

/-- The value of a component after the pass. -/
def newValue {N : ℕ} (alu : AluInstr N) (v0 v1 : ℕ → BitVec N) (comp : ℕ) :
    Option (List (Def N N)) → Option (BitVec N)
  | none => some (alu.eval v0 v1 comp)
  | some q => q[comp]?.map (Def.eval v0)

end RadvXclipse.Nir
