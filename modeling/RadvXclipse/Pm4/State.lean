import RadvXclipse.Util.Math

/-!
# Building register packets

`ac_pm4_set_reg` and `ac_pm4_finalize` of `ac_pm4.c`. A packet is grown in place: a register that
follows the last one is added to it, a packed packet with an odd number of registers is padded with
its first register, the padding is taken away when another register follows, and at the end a packed
packet of consecutive registers is rewritten to the plain form.

`pm4` is the list of the dwords in use, so `ndw` is its length; a dword that is only reserved is 0
until it is set. `none` is a failed assertion or a store behind `max_dw`. Recording the shader
address for the thread tracer, which does not change the dwords, is left out. The register map of
TITAN can be changed entry by entry from the environment, so the two maps are arbitrary
functions.
-/

namespace RadvXclipse.Pm4

open Util

/-- `enum amd_gfx_level`. -/
inductive GfxLevel
  | classUnknown | r300 | r400 | r500 | r600 | r700 | evergreen | cayman | gfx6 | gfx7 | gfx8 | gfx9 | gfx10
  | gfx10_3 | gfx11 | gfx11_5 | gfx11_7 | gfx12 | gfx12_1
deriving DecidableEq

/-- The enumerators are numbered in order, from 0. -/
instance : LE GfxLevel := ⟨fun a b => a.ctorIdx ≤ b.ctorIdx⟩
instance (a b : GfxLevel) : Decidable (a ≤ b) := inferInstanceAs (Decidable (a.ctorIdx ≤ b.ctorIdx))

/-- The `PKT3_*` opcodes that are used here. -/
inductive Opcode
  | copyData | setConfigReg | setContextReg | setShReg | setUconfigReg | setContextRegPairs
  | setContextRegPairsPacked | setShRegPairs | setShRegPairsPacked | setShRegPairsPackedN | setUconfigRegPairs
deriving DecidableEq

def Opcode.value : Opcode → ℕ
  | copyData => 0x40
  | setConfigReg => 0x68
  | setContextReg => 0x69
  | setShReg => 0x76
  | setUconfigReg => 0x79
  | setContextRegPairs => 0xb8
  | setContextRegPairsPacked => 0xb9
  | setShRegPairs => 0xba
  | setShRegPairsPacked => 0xbb
  | setShRegPairsPackedN => 0xbd
  | setUconfigRegPairs => 0xbe

/-- `opcode_is_pairs`. -/
def Opcode.isPairs : Opcode → Bool
  | setContextRegPairs | setShRegPairs | setUconfigRegPairs => true
  | _ => false

/-- `opcode_is_pairs_packed`. -/
def Opcode.isPairsPacked : Opcode → Bool
  | setContextRegPairsPacked | setShRegPairsPacked | setShRegPairsPackedN => true
  | _ => false

/-- `pairs_packed_opcode_to_regular`. -/
def Opcode.packedToRegular : Opcode → Opcode
  | setContextRegPairsPacked => setContextReg
  | _ => setShReg

/-! ## Register spaces -/

def siConfigRegOffset : ℕ := 0x8000
def siConfigRegEnd : ℕ := 0xb000
def siShRegOffset : ℕ := 0xb000
def siShRegEnd : ℕ := 0xc000
def siContextRegOffset : ℕ := 0x28000
def siContextRegEnd : ℕ := 0x30000
def cikUconfigRegOffset : ℕ := 0x30000
def cikUconfigRegEnd : ℕ := 0x40000

/-- What a state is created with: the parts of `radeon_info`, the queue, the size, and the register
map. -/
structure Config where
  gfxLevel : GfxLevel
  hasSetContextPairs : Bool
  hasSetContextPairsPacked : Bool
  hasSetShPairs : Bool
  hasSetShPairsPacked : Bool
  hasSetUconfigPairs : Bool
  isComputeQueue : Bool
  debugSqtt : Bool
  maxDw : ℕ
  regmapActive : Bool
  preambleRemap : Bool
  ctxDw : ℕ → ℕ
  shDw : ℕ → ℕ

/-- `struct ac_pm4_state`. `lastOpcode` is `none` for 0 and for the invalid opcode 255. -/
structure State where
  lastReg : ℕ
  lastPm4 : ℕ
  lastOpcode : Option Opcode
  lastIdx : ℕ
  packedIsPadded : Bool
  pm4 : List ℕ

/-- `ac_pm4_create_sized`. -/
def State.create : State := ⟨0, 0, none, 0, false, []⟩

variable (s : State)

def State.ndw : ℕ := s.pm4.length

/-- `PKT3(op, count, 0)`. -/
def pkt3 (op : Opcode) (count : ℕ) : ℕ := 3 <<< 30 ||| (count &&& 0x3fff) <<< 16 ||| op.value <<< 8

/-- `opcode_is_pairs_packed(state->last_opcode)`. -/
def State.isPacked : Bool := s.lastOpcode.any Opcode.isPairsPacked

/-! ## Packed packets -/

/-- `packed_next_is_reg_offset_pair`. -/
def State.packedNextIsRegOffsetPair : Bool := (s.ndw - s.lastPm4) % 3 = 2

/-- `packed_next_is_reg_value1`, also `packed_prev_is_reg_value0`. -/
def State.packedNextIsRegValue1 : Bool := (s.ndw - s.lastPm4) % 3 = 1

/-- `get_packed_reg_dw_offsetN`. -/
def State.packedRegDwOffset (index : ℕ) : ℕ :=
  s.pm4.getD (s.lastPm4 + 2 + index / 2 * 3) 0 >>> (index % 2 * 16) &&& 0xffff

/-- `get_packed_reg_valueN_idx`. -/
def packedRegValueIdx (lastPm4 index : ℕ) : ℕ := lastPm4 + 2 + index / 2 * 3 + 1 + index % 2

/-- `get_packed_reg_valueN`. -/
def State.packedRegValue (index : ℕ) : ℕ := s.pm4.getD (packedRegValueIdx s.lastPm4 index) 0

/-- `get_packed_reg_count`. -/
def State.packedRegCount : ℕ := (s.ndw - s.lastPm4 - 2) / 3 * 2

section Build

variable (cfg : Config)

variable (s : State)

/-- The rewriting of a packed packet of consecutive registers, in place. -/
def State.unpack (op : Opcode) (regCount regDwOffset0 : ℕ) : List ℕ :=
  let pm4 := (s.pm4.set s.lastPm4 (pkt3 op.packedToRegular regCount)).set (s.lastPm4 + 1) regDwOffset0
  let pm4 := (List.range regCount).foldl
    (fun pm4 i => pm4.set (s.lastPm4 + 2 + i) (pm4.getD (packedRegValueIdx s.lastPm4 i) 0)) pm4
  pm4.take (s.lastPm4 + 2 + regCount)

/-- `ac_pm4_finalize`. -/
def finalize : State :=
  match s.lastOpcode with
  | none => s
  | some op =>
    if op.isPairsPacked then
      let regDwOffset0 := s.packedRegDwOffset 0
      let regCount := if s.packedIsPadded then s.packedRegCount - 1 else s.packedRegCount
      let allConsecutive := (List.range regCount).all fun i =>
        i = 0 ∨ regDwOffset0 = sub32 (s.packedRegDwOffset i) i
      if allConsecutive then
        { s with pm4 := s.unpack op regCount regDwOffset0, lastOpcode := some .setShReg }
      else
        let regCount :=
          if cfg.debugSqtt ∧ (op = .setShRegPairsPacked ∨ op = .setShRegPairsPackedN) ∧ s.packedIsPadded then
            regCount + 1
          else regCount
        -- the `_N` variant takes at most 14 registers
        if op = .setShRegPairsPacked ∧ regCount ≤ 14 then
          let header := s.pm4.getD s.lastPm4 0 &&& 0xffff00ff ||| Opcode.setShRegPairsPackedN.value <<< 8
          { s with pm4 := s.pm4.set s.lastPm4 header }
        else s
    else s

/-- `state->pm4[state->ndw++] = dw`. -/
def State.emit (dw : ℕ) : Option State :=
  if s.ndw < cfg.maxDw then some { s with pm4 := s.pm4 ++ [dw] } else none

/-- `ac_pm4_cmd_begin`. -/
def cmdBegin (opcode : Opcode) : Option State :=
  let s := finalize cfg s
  { s with lastOpcode := some opcode, lastPm4 := s.ndw, packedIsPadded := false }.emit cfg 0

/-- `ac_pm4_cmd_add`. -/
def cmdAdd (dw : ℕ) : Option State := (s.emit cfg dw).map ({ · with lastOpcode := none })

/-- `need_reset_filter_cam`. The registers are those of the thread tracer in UCONFIG. -/
def needResetFilterCam (op : Opcode) : Bool :=
  ¬ cfg.isComputeQueue ∧ (op.isPairs ∨ op.isPairsPacked) ∨
    GfxLevel.gfx11 ≤ cfg.gfxLevel ∧ ¬ cfg.isComputeQueue ∧
      s.lastReg <<< 2 + cikUconfigRegOffset ∈ [0x367a4, 0x367a0, 0x367b4, 0x367b8, 0x367b0]

/-- `PKT3(op, count, false) | PKT3_RESET_FILTER_CAM_S(x)`. -/
def header (op : Opcode) (count : ℕ) (resetFilterCam : Bool) : ℕ :=
  pkt3 op count ||| resetFilterCam.toNat <<< 2

/-- `ac_pm4_cmd_end` of a packet `op`; `setReg` is `ac_pm4_set_reg_custom`. -/
def cmdEnd (setReg : State → ℕ → ℕ → Opcode → ℕ → Option State) (op : Opcode) (s : State) : Option State := do
  let count := s.ndw - s.lastPm4 - 2
  let s := { s with pm4 := s.pm4.set s.lastPm4 (header op count (needResetFilterCam cfg s op)) }
  if op.isPairsPacked then
    let s ←
      if s.packedNextIsRegValue1 then
        (setReg s (s.packedRegDwOffset 0 * 4) (s.packedRegValue 0) op 0).map
          ({ · with packedIsPadded := true })
      else some s
    some { s with pm4 := s.pm4.set (s.lastPm4 + 1) s.packedRegCount }
  else some s

/-- The packet that `ac_pm4_set_reg_custom` writes to: the last one, or a new one. -/
def openPacket (reg : ℕ) (opcode : Opcode) (idx : ℕ) : Option State :=
  if opcode.isPairsPacked then
    if some opcode ≠ s.lastOpcode then (cmdBegin cfg s opcode).bind (·.emit cfg 0) else some s
  else if opcode.isPairs then
    (if some opcode ≠ s.lastOpcode then cmdBegin cfg s opcode else some s).bind (·.emit cfg reg)
  else if some opcode ≠ s.lastOpcode ∨ reg ≠ s.lastReg + 1 ∨ idx ≠ s.lastIdx then
    (cmdBegin cfg s opcode).bind (·.emit cfg (reg ||| idx <<< 28))
  else some s

/-- The offset of a register in a packed packet, in place of the padding if there is one. -/
def packOffset (reg : ℕ) : Option State :=
  let s := if s.packedIsPadded then { s with packedIsPadded := false, pm4 := s.pm4.dropLast } else s
  if s.packedNextIsRegOffsetPair then s.emit cfg reg
  else if s.packedNextIsRegValue1 then
    some { s with pm4 := s.pm4.set (s.ndw - 2) (s.pm4.getD (s.ndw - 2) 0 &&& 0xffff ||| reg <<< 16) }
  else some s

/-- `ac_pm4_set_reg_custom`. The padding of `ac_pm4_cmd_end` calls it once more. -/
def setRegCustom : ℕ → State → ℕ → ℕ → Opcode → ℕ → Option State
  | 0, _, _, _, _, _ => none
  | depth + 1, s, reg, val, opcode, idx => do
    let reg := reg >>> 2
    if cfg.maxDw < s.ndw + 2 then none
    else
      let s ← openPacket cfg s reg opcode idx
      if 0xffff < reg then none
      else
        let s := { s with lastReg := reg, lastIdx := idx }
        let s ← if opcode.isPairsPacked then packOffset cfg s reg else some s
        let s ← s.emit cfg val
        cmdEnd cfg (setRegCustom depth) opcode s

/-- `ac_pm4_set_privileged_reg`: `COPY_DATA` of an immediate to a register. -/
def setPrivilegedReg (reg val : ℕ) : Option State := do
  let s ← cmdAdd cfg s (pkt3 .copyData 4)
  let s ← cmdAdd cfg s (5 ||| 4 <<< 8)
  let s ← cmdAdd cfg s val
  let s ← cmdAdd cfg s 0
  let s ← cmdAdd cfg s (reg >>> 2)
  cmdAdd cfg s 0

/-! ## Registers -/

/-- `is_privileged_reg`. -/
def isPrivilegedReg (reg : ℕ) : Bool :=
  if GfxLevel.gfx10 ≤ cfg.gfxLevel ∧ cfg.gfxLevel ≤ .gfx10_3 then
    reg ∈ [0x8d04, 0x8d00, 0x8d14, 0x8d18, 0x8d1c]
  else if GfxLevel.gfx6 ≤ cfg.gfxLevel ∧ cfg.gfxLevel ≤ .gfx8 then reg = 0x9100
  else false

/-- `regular_opcode_to_pairs`. -/
def regularToPairs (opcode : Opcode) : Opcode :=
  match opcode with
  | .setContextReg =>
    if cfg.hasSetContextPairsPacked then .setContextRegPairsPacked
    else if cfg.hasSetContextPairs then .setContextRegPairs
    else opcode
  | .setShReg =>
    if cfg.hasSetShPairsPacked then .setShRegPairsPacked
    else if cfg.hasSetShPairs then .setShRegPairs
    else opcode
  | .setUconfigReg => if cfg.hasSetUconfigPairs then .setUconfigRegPairs else opcode
  | _ => opcode

/-- The space of a register and its offset there, in bytes. -/
def regSpace (reg : ℕ) : Option (Opcode × ℕ) :=
  if siConfigRegOffset ≤ reg ∧ reg < siConfigRegEnd then some (.setConfigReg, reg - siConfigRegOffset)
  else if siShRegOffset ≤ reg ∧ reg < siShRegEnd then some (.setShReg, reg - siShRegOffset)
  else if siContextRegOffset ≤ reg ∧ reg < siContextRegEnd then
    some (.setContextReg, reg - siContextRegOffset)
  else if cikUconfigRegOffset ≤ reg ∧ reg < cikUconfigRegEnd then
    some (.setUconfigReg, reg - cikUconfigRegOffset)
  else none

/-- The remapping of the preamble, `ac_titan_remap_dw(space, reg >> 2) << 2`. -/
def remapReg (opcode : Opcode) (reg : ℕ) : ℕ :=
  if cfg.regmapActive ∧ cfg.preambleRemap then
    match opcode with
    | .setContextReg => cfg.ctxDw (reg >>> 2) <<< 2 % 2 ^ 32
    | .setShReg => cfg.shDw (reg >>> 2) <<< 2 % 2 ^ 32
    | _ => reg
  else reg

/-- `ac_pm4_set_reg`. -/
def setReg (reg val : ℕ) : Option State :=
  match regSpace reg with
  | none => some s
  | some (opcode, offset) =>
    if isPrivilegedReg cfg reg then setPrivilegedReg cfg s reg val
    else setRegCustom cfg 2 s (remapReg cfg opcode offset) val (regularToPairs cfg opcode) 0

/-- A sequence of `ac_pm4_set_reg` calls. -/
def setRegs (s : State) : List (ℕ × ℕ) → Option State
  | [] => some s
  | w :: ws => (setReg cfg s w.1 w.2).bind fun s => setRegs s ws

end Build

end RadvXclipse.Pm4
