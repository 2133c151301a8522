import RadvXclipse.Nir.Opcodes
import RadvXclipse.Util.Math
import Mathlib.Data.Nat.Size

/-!
# Upper bounds of scalars

The model of `nir_unsigned_upper_bound` and `nir_is_op_nuw` in `nir_range_analysis.c`. A scalar is
one component of a definition, after `nir_scalar_chase_movs`. The bounds of the sources of an
instruction are found by queries on an explicit stack, and the results are kept in a hash table that
several calls share. Phis and the few opcodes on floats are not modelled; an instruction without a
rule is `other`.
-/

namespace RadvXclipse.Nir

open Util

/-- `bitmask`. -/
def bitmask (size : ℕ) : ℕ := if size ≥ 32 then uint32Max else 2 ^ size - 1

/-- `util_last_bit64`. -/
def utilLastBit64 (u : ℕ) : ℕ := if u = 0 then 0 else Nat.log 2 u + 1

/-- `bitmask(util_last_bit64(u))`. -/
def lastBitMask (u : ℕ) : ℕ := bitmask (utilLastBit64 u)

/-! ## Shaders -/

/-- `nir_scalar`; the index of a definition leaves room for the component in a key. -/
structure Scalar where
  index : Fin (2 ^ 28 - 1)
  comp : Fin 16
deriving DecidableEq

/-- The opcodes of `unsigned_upper_bound_alu_supported`, without those on floats. -/
inductive AluOp
  | umin | imin | imax | umax | iand | ior | ixor | ishl | imul | ushr | ishr | iadd | umod | udiv
  | bcsel | b32csel | ubfe | bfi | bfm | bitfieldSelect | msad4x8
  | extractU8 | extractI8 | extractU16 | extractI16 | b2i | bitCount | u2u
deriving DecidableEq

def AluOp.numInputs : AluOp → ℕ
  | .b2i | .bitCount | .u2u => 1
  | .bcsel | .b32csel | .ubfe | .bfi | .bitfieldSelect | .msad4x8 => 3
  | _ => 2

/-- The operations of reductions and scans that have a rule. -/
inductive ReductionOp
  | umin | umax | imax | imin | iand | ior | ixor | iadd
deriving DecidableEq

inductive ScanKind
  | reduce | inclusive | exclusive
deriving DecidableEq

/-- `desc->channel[comp]` of a format whose channel is unsigned. -/
structure Channel where
  size : ℕ
  normalized : Bool
  pureInteger : Bool

/-- The intrinsics whose bound does not depend on their sources. -/
inductive LeafIntrinsic
  | loadLocalInvocationIndex
  | loadLocalInvocationId
  | loadWorkgroupId
  | loadNumWorkgroups
  | loadGlobalInvocationId
  | loadInvocationId
  /-- `load_subgroup_invocation` and `first_invocation` -/
  | loadSubgroupInvocation
  | loadSubgroupSize
  | loadSubgroupId
  | loadNumSubgroups
  /-- `load_tess_rel_patch_id_amd` and `load_tcs_num_patches_amd` -/
  | loadTessRelPatchId
  /-- `load_typed_buffer_amd`, with its channel if the format is known and the channel is
  unsigned -/
  | loadTypedBuffer (channel : Option Channel)
  /-- the loads of arguments and of `ttmp` registers, with `arg_upper_bound_u32_amd` -/
  | loadArg (upperBound : ℕ)
  | imageSamples
  /-- an intrinsic without a rule -/
  | other

inductive Intrinsic
  | leaf (k : LeafIntrinsic)
  | mbcnt
  | scan (op : ReductionOp) (kind : ScanKind)
  /-- `read_first_invocation` and the others that read one source in another invocation -/
  | lane
  /-- `shuffle_up_intel`, `shuffle_down_intel` and `write_invocation_amd` -/
  | twoLanes

inductive Instr
  | const (value : ℕ)
  | intrinsic (i : Intrinsic) (srcs : List Scalar)
  | alu (op : AluOp) (srcs : List Scalar)
  | other

def Instr.srcs : Instr → List Scalar
  | .intrinsic _ srcs => srcs
  | .alu _ srcs => srcs
  | _ => []

/-- The parts of `shader->info` and `shader->options` that are read. `fui` gives the bits of an
integer as a float. -/
structure ShaderInfo where
  stageUsesWorkgroup : Bool
  isTessCtrl : Bool
  workgroupSizeVariable : Bool
  workgroupSize : ℕ → ℕ
  maxWorkgroupInvocations : ℕ
  maxWorkgroupCount : ℕ → ℕ
  tcsVerticesOut : ℕ
  maxSubgroupSize : ℕ
  minSubgroupSize : ℕ
  apiSubgroupSize : ℕ
  maxSamples : ℕ
  fui : ℕ → ℕ
  maxSubgroupSize_lt : maxSubgroupSize < 2 ^ 32

/-! ## Types -/

/-- The bit sizes of booleans and of the integers that have bounds. -/
def HasBound (w : ℕ) : Prop := w = 1 ∨ w = 8 ∨ w = 16 ∨ w = 32

/-- The bit sizes of the sources of an opcode. -/
def AluOp.Typed (op : AluOp) (w : ℕ) (size : ℕ → ℕ) : Prop :=
  match op with
  | .umin | .imin | .imax | .umax | .iand | .ior | .ixor => HasBound w ∧ size 0 = w ∧ size 1 = w
  | .imul | .iadd | .umod | .udiv | .extractU8 | .extractI8 | .extractU16 | .extractI16 =>
    HasBound w ∧ w ≠ 1 ∧ size 0 = w ∧ size 1 = w
  | .ishl | .ushr | .ishr => HasBound w ∧ w ≠ 1 ∧ size 0 = w ∧ size 1 = 32
  | .bcsel => HasBound w ∧ size 0 = 1 ∧ size 1 = w ∧ size 2 = w
  | .b32csel => HasBound w ∧ size 0 = 32 ∧ size 1 = w ∧ size 2 = w
  | .ubfe | .bfi | .msad4x8 => w = 32 ∧ size 0 = 32 ∧ size 1 = 32 ∧ size 2 = 32
  | .bfm => w = 32 ∧ size 0 = 32 ∧ size 1 = 32
  | .bitfieldSelect => HasBound w ∧ size 0 = w ∧ size 1 = w ∧ size 2 = w
  | .b2i => HasBound w ∧ w ≠ 1 ∧ size 0 = 1
  | .bitCount => w = 32 ∧ (HasBound (size 0) ∨ size 0 = 64)
  | .u2u => HasBound w ∧ (HasBound (size 0) ∨ size 0 = 64)

/-- The value of an opcode, from the values of its sources. -/
def AluOp.eval (op : AluOp) (w size0 : ℕ) (x : ℕ → ℕ) : ℕ :=
  let a (i : ℕ) : BitVec w := BitVec.ofNat w (x i)
  let a32 (i : ℕ) : BitVec 32 := BitVec.ofNat 32 (x i)
  match op with
  | .umin => (Nir.umin (a 0) (a 1)).toNat
  | .imin => (Nir.imin (a 0) (a 1)).toNat
  | .imax => (Nir.imax (a 0) (a 1)).toNat
  | .umax => (Nir.umax (a 0) (a 1)).toNat
  | .iand => (Nir.iand (a 0) (a 1)).toNat
  | .ior => (Nir.ior (a 0) (a 1)).toNat
  | .ixor => (Nir.ixor (a 0) (a 1)).toNat
  | .ishl => (Nir.ishl (a 0) (a32 1)).toNat
  | .imul => (Nir.imul (a 0) (a 1)).toNat
  | .ushr => (Nir.ushr (a 0) (a32 1)).toNat
  | .ishr => (Nir.ishr (a 0) (a32 1)).toNat
  | .iadd => (Nir.iadd (a 0) (a 1)).toNat
  | .umod => (Nir.umod (a 0) (a 1)).toNat
  | .udiv => (Nir.udiv (a 0) (a 1)).toNat
  | .bcsel => (Nir.bcsel (BitVec.ofNat 1 (x 0)) (a 1) (a 2)).toNat
  | .b32csel => (Nir.b32csel (a32 0) (a 1) (a 2)).toNat
  | .ubfe => (Nir.ubfe (a32 0) (a32 1) (a32 2)).toNat
  | .bfi => (Nir.bfi (a32 0) (a32 1) (a32 2)).toNat
  | .bfm => (Nir.bfm (a32 0) (a32 1)).toNat
  | .bitfieldSelect => (Nir.bitfieldSelect (a 0) (a 1) (a 2)).toNat
  | .msad4x8 => (Nir.msad4x8 (a32 0) (a32 1) (a32 2)).toNat
  | .extractU8 => (Nir.extractU 8 (a 0) (a 1)).toNat
  | .extractI8 => (Nir.extractI 8 (a 0) (a 1)).toNat
  | .extractU16 => (Nir.extractU 16 (a 0) (a 1)).toNat
  | .extractI16 => (Nir.extractI 16 (a 0) (a 1)).toNat
  | .b2i => (Nir.b2i w (BitVec.ofNat 1 (x 0))).toNat
  | .bitCount => (Nir.bitCount (BitVec.ofNat size0 (x 0))).toNat
  | .u2u => ((BitVec.ofNat size0 (x 0)).setWidth w).toNat

/-- The bit sizes and the number of the sources that a rule for an intrinsic reads. -/
def Intrinsic.Typed (i : Intrinsic) (w numSrcs : ℕ) (size : ℕ → ℕ) : Prop :=
  match i with
  | .leaf _ => True
  | .mbcnt => w = 32 ∧ size 1 = 32 ∧ numSrcs = 2
  | .scan _ _ | .lane => size 0 = w ∧ 1 ≤ numSrcs
  | .twoLanes => size 0 = w ∧ size 1 = w ∧ 2 ≤ numSrcs

/-- The sources of an instruction, by their numbers. -/
def srcAt {α : Type} (l : List Scalar) (f : Scalar → α) (d : α) (i : ℕ) : α := ((l[i]?).map f).getD d

structure Shader where
  info : ShaderInfo
  instr : Scalar → Instr
  bitSize : Scalar → ℕ
  /-- expressions are acyclic -/
  acyclic : ∃ rank : Scalar → ℕ, ∀ s, ∀ t ∈ (instr s).srcs, rank t < rank s
  const_lt : ∀ s v, instr s = .const v → v < 2 ^ bitSize s
  alu_typed : ∀ s op srcs, instr s = .alu op srcs →
    srcs.length = op.numInputs ∧ op.Typed (bitSize s) (srcAt srcs bitSize 0)
  intrinsic_typed : ∀ s i srcs, instr s = .intrinsic i srcs →
    i.Typed (bitSize s) srcs.length (srcAt srcs bitSize 0)

/-- `nir_scalar_is_const` and `nir_scalar_as_uint`. -/
def Shader.constant (sh : Shader) (s : Scalar) : Option ℕ :=
  match sh.instr s with
  | .const v => some v
  | _ => none

/-! ## Bounds of intrinsics -/

variable (i : ShaderInfo)

/-- `get_max_workgroup_invocations`. -/
def ShaderInfo.getMaxWorkgroupInvocations : ℕ :=
  if i.maxWorkgroupInvocations = 0 then 2 ^ 16 - 1 else i.maxWorkgroupInvocations

/-- `get_max_workgroup_count`. -/
def ShaderInfo.getMaxWorkgroupCount (dim : ℕ) : ℕ :=
  if i.maxWorkgroupCount dim = 0 then uint32Max else i.maxWorkgroupCount dim

/-- `mul_clamp`. -/
def mulClamp (a b : ℕ) : ℕ := if a ≠ 0 ∧ a * b % 2 ^ 32 / a ≠ b then uint32Max + 1 else a * b % 2 ^ 32

/-- The size of a workgroup, as in `load_local_invocation_index` and `load_num_subgroups`. -/
def ShaderInfo.workgroupInvocations : ℕ :=
  i.workgroupSize 0 * i.workgroupSize 1 % 2 ^ 32 * i.workgroupSize 2 % 2 ^ 32

/-- `DIV_ROUND_UP` of the workgroup size. -/
def ShaderInfo.numSubgroups : ℕ :=
  let size := if i.stageUsesWorkgroup ∧ ¬ i.workgroupSizeVariable then i.workgroupInvocations
    else i.getMaxWorkgroupInvocations
  sub32 (add32 size i.minSubgroupSize) 1 / i.minSubgroupSize

/-- The cases of `get_intrinsic_uub` without sources. -/
def leafUub (k : LeafIntrinsic) (comp bitSize : ℕ) : ℕ :=
  match k with
  | .loadLocalInvocationIndex =>
    if ¬ i.stageUsesWorkgroup ∨ i.workgroupSizeVariable then sub32 i.getMaxWorkgroupInvocations 1
    else sub32 i.workgroupInvocations 1
  | .loadLocalInvocationId =>
    if i.workgroupSizeVariable then sub32 i.getMaxWorkgroupInvocations 1 else sub32 (i.workgroupSize comp) 1
  | .loadWorkgroupId => sub32 (i.getMaxWorkgroupCount comp) 1
  | .loadNumWorkgroups => i.getMaxWorkgroupCount comp
  | .loadGlobalInvocationId =>
    if i.workgroupSizeVariable then
      sub64 (mulClamp i.getMaxWorkgroupInvocations (i.getMaxWorkgroupCount comp)) 1 % 2 ^ 32
    else sub32 (i.workgroupSize comp * i.getMaxWorkgroupCount comp % 2 ^ 32) 1
  | .loadInvocationId =>
    if i.isTessCtrl then (if i.tcsVerticesOut ≠ 0 then i.tcsVerticesOut - 1 else 511) else bitmask bitSize
  | .loadSubgroupInvocation => sub32 i.maxSubgroupSize 1
  | .loadSubgroupSize => if i.apiSubgroupSize ≠ 0 then i.apiSubgroupSize else i.maxSubgroupSize
  | .loadSubgroupId => sub32 i.numSubgroups 1
  | .loadNumSubgroups => i.numSubgroups
  | .loadTessRelPatchId => i.getMaxWorkgroupInvocations / max i.tcsVerticesOut 1
  | .loadTypedBuffer channel =>
    match channel with
    | none => bitmask bitSize
    | some c =>
      if c.normalized then i.fui 1
      else if c.pureInteger then 2 ^ c.size - 1 else i.fui (2 ^ c.size - 1)
  | .loadArg upperBound => if upperBound ≠ 0 then upperBound else bitmask bitSize
  | .imageSamples => if 0 < i.maxSamples then i.maxSamples else bitmask bitSize
  | .other => bitmask bitSize

/-- `nir_alu_binop_identity`. -/
def ReductionOp.identity (op : ReductionOp) (w : ℕ) : ℕ :=
  match op with
  | .umin | .iand => 2 ^ w - 1
  | .umax | .ior | .ixor | .iadd => 0
  | .imax => 2 ^ (w - 1)
  | .imin => 2 ^ (w - 1) - 1

/-- The bound of a reduction or a scan, before the identity of an exclusive scan. -/
def ReductionOp.uub (op : ReductionOp) (w lanes u : ℕ) : ℕ :=
  match op with
  | .umin | .umax | .imax | .imin | .iand => u
  | .ior | .ixor => lastBitMask u
  | .iadd => min (bitmask w) (u * lanes)

/-- `get_intrinsic_uub`; `src` are the bounds of the sources that have been queried. -/
def getIntrinsicUub (info : ShaderInfo) (i : Intrinsic) (comp w : ℕ) (src : ℕ → ℕ) : ℕ :=
  match i with
  | .leaf k => leafUub info k comp w
  | .mbcnt =>
    let src0 := sub32 info.maxSubgroupSize 1
    if add32 src0 (src 0) ≥ src0 then add32 src0 (src 0) else bitmask w
  | .scan op kind =>
    let exclusive := if kind = .exclusive then 1 else 0
    let result := op.uub w (sub32 info.maxSubgroupSize exclusive) (src 0)
    if kind = .exclusive then max result (op.identity w) else result
  | .lane => src 0
  | .twoLanes => max (src 0) (src 1)

/-! ## Bounds of ALU instructions -/

/-- `get_alu_uub` for a supported opcode; `src` are the bounds of the sources and `c` their values
if they are constants. -/
def getAluUub (op : AluOp) (w : ℕ) (c : ℕ → Option ℕ) (src : ℕ → ℕ) : ℕ :=
  let max := bitmask w
  match op with
  | .umin => if src 0 < src 1 then src 0 else src 1
  | .imin | .imax | .umax => if src 0 > src 1 then src 0 else src 1
  | .iand =>
    match c 0, c 1 with
    | some k, _ => lastBitMask (src 1) &&& k
    | none, some k => lastBitMask (src 0) &&& k
    | none, none => lastBitMask (src 0) &&& lastBitMask (src 1)
  | .ior | .ixor =>
    match c 0, c 1 with
    | some k, _ => lastBitMask (src 1) ||| k
    | none, some k => lastBitMask (src 0) ||| k
    | none, none => lastBitMask (src 0) ||| lastBitMask (src 1)
  | .ishl =>
    let src1 := min (src 1) (w - 1)
    let result := if utilLastBit64 (src 0) + src1 ≤ w then src 0 * 2 ^ src1 % 2 ^ 32 else max
    let result := min result max
    match c 1 with
    | some k => min result (max / 2 ^ (k &&& (w - 1)) * 2 ^ (k &&& (w - 1)))
    | none => result
  | .imul =>
    let product := src 0 * src 1 % 2 ^ 32
    let result := if src 0 = 0 ∨ product / src 0 = src 1 then product else max
    let result := min result max
    match c 0, c 1 with
    | some k, _ => if k ≠ 0 then min result (max / k * k) else 0
    | none, some k => if k ≠ 0 then min result (max / k * k) else 0
    | none, none => result
  | .ushr =>
    match c 1 with
    | some k => src 0 >>> (k &&& (w - 1))
    | none => src 0
  | .ishr =>
    match c 1 with
    | some k => if src 0 ≤ 2147483647 then src 0 >>> (k &&& (w - 1)) else src 0
    | none => src 0
  | .iadd =>
    let result := if add32 (src 0) (src 1) ≥ src 0 then add32 (src 0) (src 1) else max
    min result max
  | .umod => if src 1 ≠ 0 then src 1 - 1 else 0
  | .udiv =>
    match c 1 with
    | some k => if k ≠ 0 then src 0 / k else 0
    | none => src 0
  | .bcsel | .b32csel => if src 1 > src 2 then src 1 else src 2
  | .ubfe => bitmask (min (src 2) w)
  | .bfm =>
    match c 1 with
    | some k => bitmask (min (src 0) 31) <<< (k &&& 0x1f) % 2 ^ 32
    | none => bitmask (min (min (src 0) 31 + min (src 1) 31) 32)
  | .bfi =>
    match c 0 with
    | some s0 =>
      if s0 = 0 then lastBitMask (src 2)
      else (s0 &&& lastBitMask (src 1) <<< (ffsll s0 - 1) ||| (2 ^ 64 - 1 - s0) &&& lastBitMask (src 2)) % 2 ^ 32
    | none => lastBitMask (src 0) ||| lastBitMask (src 2)
  | .bitfieldSelect =>
    match c 0 with
    | some s0 => (s0 &&& lastBitMask (src 1) ||| (2 ^ 64 - 1 - s0) &&& lastBitMask (src 2)) % 2 ^ 32
    | none => lastBitMask (src 0) &&& lastBitMask (src 1) ||| lastBitMask (src 2)
  | .msad4x8 => min (src 2 + 4 * 255) uint32Max
  | .extractU8 => min (src 0) (2 ^ 8 - 1)
  | .extractI8 => if src 0 ≥ 0x80 then max else min (src 0) (2 ^ 7 - 1)
  | .extractU16 => min (src 0) (2 ^ 16 - 1)
  | .extractI16 => if src 0 ≥ 0x8000 then max else min (src 0) (2 ^ 15 - 1)
  | .b2i => 1
  | .bitCount => utilLastBit64 (src 0)
  | .u2u => min (src 0) max

/-! ## Queries -/

section Queries

variable (sh : Shader)

/-- `unsigned_upper_bound_alu_supported`. -/
def aluSupported (op : AluOp) (srcs : List Scalar) : Bool :=
  match op with
  | .u2u => srcAt srcs sh.bitSize 0 0 ≤ 32
  | _ => true

/-- The scalars that a query pushes when it is processed for the first time. -/
def querySources (s : Scalar) : List Scalar :=
  match sh.instr s with
  | .const _ => []
  | .intrinsic i srcs =>
    match i with
    | .leaf _ => []
    | .mbcnt => (srcs.drop 1).take 1
    | .scan _ _ | .lane => srcs.take 1
    | .twoLanes => srcs.take 2
  | .alu op srcs =>
    if aluSupported sh op srcs = false ∨ (op = .bitCount ∧ srcAt srcs sh.bitSize 0 0 > 32) then [] else srcs
  | .other => []

/-- The result of a query, from the results of the queries it has pushed, before it is stored. -/
def queryBound (s : Scalar) (src : List ℕ) : ℕ :=
  let w := sh.bitSize s
  match sh.instr s with
  | .const v => v
  | .intrinsic i _ => getIntrinsicUub sh.info i s.comp w fun j => src.getD j 0
  | .alu op srcs =>
    if aluSupported sh op srcs = false then bitmask w
    else if op = .bitCount ∧ srcAt srcs sh.bitSize 0 0 > 32 then srcAt srcs sh.bitSize 0 0
    else getAluUub op w (srcAt srcs sh.constant none) fun j => src.getD j 0
  | .other => bitmask w

/-- `*result`, a `uint32_t`. -/
def queryResult (s : Scalar) (src : List ℕ) : ℕ := queryBound sh s src % 2 ^ 32

/-- `get_uub_scalar_key`. -/
def getUubScalarKey (s : Scalar) : ℕ :=
  match sh.instr s with
  | .const _ => uint32Max
  | .alu op srcs => if aluSupported sh op srcs = false then uint32Max else (s.index + 1) * 16 + s.comp
  | _ => (s.index + 1) * 16 + s.comp

/-- `struct scalar_query`. -/
structure Query where
  scalar : Scalar
  pushedQueries : ℕ
  resultIndex : ℕ

/-- The stacks of `struct analysis_state`, the top of the first at its head, and the table. -/
structure AnalysisState where
  queryStack : List Query
  resultStack : List ℕ
  rangeHt : ℕ → Option ℕ

/-- `push_scalar_query`. -/
def pushScalarQuery (st : AnalysisState) (s : Scalar) : AnalysisState :=
  { st with queryStack := ⟨s, 0, st.resultStack.length⟩ :: st.queryStack, resultStack := st.resultStack ++ [0] }

/-- What `perform_analysis` is told of the queries: those that a query pushes, its result from
theirs, the result that it has until then, and its key. -/
structure Analysis where
  sources : Scalar → List Scalar
  result : Scalar → List ℕ → ℕ
  initial : Scalar → ℕ
  key : Scalar → ℕ

section Perform

variable (A : Analysis)

/-- The table finds the result of a query that has not been started. -/
def Analysis.lookup (st : AnalysisState) (q : Query) : Option ℕ :=
  if q.pushedQueries = 0 ∧ A.key q.scalar ≠ uint32Max then st.rangeHt (A.key q.scalar) else none

/-- The table as it is after a result has been stored. -/
def Analysis.store (ht : ℕ → Option ℕ) (s : Scalar) (u : ℕ) : ℕ → Option ℕ :=
  if A.key s ≠ uint32Max then Function.update ht (A.key s) (some u) else ht

/-- One round of the loop of `perform_analysis`. -/
def Analysis.step (st : AnalysisState) : AnalysisState :=
  match st.queryStack with
  | [] => st
  | cur :: rest =>
    match A.lookup st cur with
    | some v => { st with queryStack := rest, resultStack := st.resultStack.set cur.resultIndex v }
    | none =>
      let src := st.resultStack.drop (st.resultStack.length - cur.pushedQueries)
      let results := st.resultStack.take (st.resultStack.length - cur.pushedQueries)
      let sources := A.sources cur.scalar
      if cur.pushedQueries = 0 ∧ sources ≠ [] then
        sources.foldl pushScalarQuery
          { queryStack := { cur with pushedQueries := sources.length } :: rest
            resultStack := results.set cur.resultIndex (A.initial cur.scalar)
            rangeHt := st.rangeHt }
      else
        let result := A.result cur.scalar src
        { queryStack := rest
          resultStack := results.set cur.resultIndex result
          rangeHt := A.store st.rangeHt cur.scalar result }

/-- `perform_analysis` of one scalar, which ends when there are no more queries: its result and the
table. -/
def Analysis.perform (fuel : ℕ) (ht : ℕ → Option ℕ) (s : Scalar) : Option (ℕ × (ℕ → Option ℕ)) :=
  let st := A.step^[fuel] (pushScalarQuery ⟨[], [], ht⟩ s)
  if st.queryStack.isEmpty then some (st.resultStack.getLastD 0, st.rangeHt) else none

end Perform

/-- The analysis with `process_uub_query`. -/
def uub : Analysis where
  sources := querySources sh
  result := queryResult sh
  initial s := bitmask (sh.bitSize s)
  key := getUubScalarKey sh

/-- `nir_unsigned_upper_bound`: the bound and the table. -/
def unsignedUpperBound (fuel : ℕ) (rangeHt : ℕ → Option ℕ) (s : Scalar) : Option (ℕ × (ℕ → Option ℕ)) :=
  (uub sh).perform fuel rangeHt s

end Queries

/-! ## Unsigned wraps -/

inductive NuwOp
  | iadd | ishl | imul
deriving DecidableEq

/-- The test of `nir_is_op_nuw`, from the bounds of the sources. -/
def nuwTest (op : NuwOp) (w ub0 ub1 : ℕ) : Bool :=
  let max := 2 ^ w - 1
  match op with
  | .iadd => sub32 max ub0 ≥ ub1
  | .ishl => ub1 ≤ sub32 w (utilLastBit64 ub0)
  | .imul => ub0 = 0 ∨ ub1 ≤ max / ub0

/-- `nir_is_op_nuw`: the answer and the table. -/
def isOpNuw (sh : Shader) (fuel : ℕ) (rangeHt : ℕ → Option ℕ) (op : NuwOp) (src0 src1 : Scalar) :
    Option (Bool × (ℕ → Option ℕ)) := do
  let (ub0, rangeHt) ← unsignedUpperBound sh fuel rangeHt src0
  let (ub1, rangeHt) ← unsignedUpperBound sh fuel rangeHt src1
  return (nuwTest op (sh.bitSize src0) ub0 ub1, rangeHt)

/-- The exact result of an operation. -/
def NuwOp.exact (op : NuwOp) (a b : ℕ) : ℕ :=
  match op with
  | .iadd => a + b
  | .ishl => a * 2 ^ b
  | .imul => a * b

end RadvXclipse.Nir
