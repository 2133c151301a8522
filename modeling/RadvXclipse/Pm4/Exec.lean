import RadvXclipse.Lib.BitField
import RadvXclipse.Pm4.State

/-!
# What register packets do

The formats are those that `sid.h` gives for the packets: a header with the opcode and the number of
dwords that follow, less one; then for a plain packet the first offset and the values of consecutive
registers, for pairs an offset and a value each, and for packed pairs the number of registers and
for every two registers their offsets in one dword and the two values. A list of dwords is decoded
to the register writes that it performs, in order.
-/

namespace RadvXclipse.Pm4

open Lib List Nat

/-- The registers, by their dword address. -/
abbrev Regs := ℕ → ℕ

/-- Writes to registers, one after another. -/
def apply (ws : List (ℕ × ℕ)) (r : Regs) : Regs := ws.foldl (fun r w => Function.update r w.1 w.2) r

lemma apply_append (ws ws' : List (ℕ × ℕ)) (r : Regs) : apply (ws ++ ws') r = apply ws' (apply ws r) :=
  foldl_append ..

lemma apply_cons (w : ℕ × ℕ) (ws : List (ℕ × ℕ)) (r : Regs) :
    apply (w :: ws) r = apply ws (Function.update r w.1 w.2) := rfl

/-- The first dword of the space of a packet. -/
def Opcode.base : Opcode → ℕ
  | copyData => 0
  | setConfigReg => siConfigRegOffset / 4
  | setShReg | setShRegPairs | setShRegPairsPacked | setShRegPairsPackedN => siShRegOffset / 4
  | setContextReg | setContextRegPairs | setContextRegPairsPacked => siContextRegOffset / 4
  | setUconfigReg | setUconfigRegPairs => cikUconfigRegOffset / 4

/-- The opcode with a value. -/
def Opcode.ofValue (v : ℕ) : Option Opcode :=
  [copyData, setConfigReg, setContextReg, setShReg, setUconfigReg, setContextRegPairs,
    setContextRegPairsPacked,
    setShRegPairs, setShRegPairsPacked, setShRegPairsPackedN, setUconfigRegPairs].find? (·.value = v)

section

variable {ws ws' : List (ℕ × ℕ)} {l l' : List ℕ} {count : ℕ} (op : Opcode)

lemma Opcode.ofValue_value : ofValue op.value = some op := by
  cases op <;> rfl

lemma Opcode.value_lt : op.value < 2 ^ 8 := by
  cases op <;> decide

/-! ## Bodies of packets -/

/-- Consecutive registers. -/
def seqWrites (reg : ℕ) : List ℕ → List (ℕ × ℕ)
  | [] => []
  | v :: vals => (reg, v) :: seqWrites (reg + 1) vals

/-- Pairs of an offset and a value. -/
def pairWrites (base : ℕ) : List ℕ → List (ℕ × ℕ)
  | reg :: v :: l => (base + reg, v) :: pairWrites base l
  | _ => []

/-- Two offsets in one dword, and two values. -/
def packedWrites (base : ℕ) : ℕ → List ℕ → List (ℕ × ℕ)
  | n + 1, regs :: v0 :: v1 :: l =>
    (base + field regs 0 16, v0) :: (base + field regs 16 16, v1) :: packedWrites base n l
  | _, _ => []

/-- The writes of a packet. -/
def Opcode.writes (op : Opcode) (body : List ℕ) : List (ℕ × ℕ) :=
  if op.isPairsPacked then
    match body with
    | count :: l => packedWrites op.base (count / 2) l
    | [] => []
  else if op.isPairs then pairWrites op.base body
  else if op = .copyData then
    match body with
    | [_, v, _, reg, _] => [(reg, v)]
    | _ => []
  else
    match body with
    | reg :: vals => seqWrites (op.base + field reg 0 16) vals
    | [] => []

/-! ## Streams of packets -/

/-- The writes of a list of dwords, for at most `fuel` packets. -/
def decode : ℕ → List ℕ → List (ℕ × ℕ)
  | 0, _ => []
  | _ + 1, [] => []
  | fuel + 1, h :: l =>
    let n := field h 16 14 + 1
    ((Opcode.ofValue (field h 8 8)).map (·.writes (l.take n))).getD [] ++ decode fuel (l.drop n)

/-- The writes of a list of dwords. -/
def writesOf (l : List ℕ) : List (ℕ × ℕ) := decode l.length l

/-- Fuel for every dword is enough. -/
theorem decode_eq_writesOf (fuel : ℕ) (l : List ℕ) (h : l.length ≤ fuel) : decode fuel l = writesOf l := by
  unfold writesOf
  induction fuel using Nat.strongRecOn generalizing l with
  | ind fuel ih =>
    cases l with
    | nil => cases fuel <;> rfl
    | cons d l =>
      obtain ⟨k, rfl⟩ : ∃ k, fuel = k + 1 := ⟨fuel - 1, by simp only [length_cons] at h; omega⟩
      simp only [length_cons] at h ⊢
      unfold decode
      have hdrop : (l.drop (field d 16 14 + 1)).length ≤ l.length := by
        rw [length_drop]
        omega
      have hk := ih k (by omega) (l.drop (field d 16 14 + 1)) (by omega)
      by_cases hlt : l.length < k + 1
      · have hl := ih l.length hlt _ hdrop
        simp only [hk, hl]
      · omega

lemma writesOf_cons (h : ℕ) (l : List ℕ) :
    writesOf (h :: l) =
      ((Opcode.ofValue (field h 8 8)).map (·.writes (l.take (field h 16 14 + 1)))).getD [] ++
      writesOf (l.drop (field h 16 14 + 1)) := by
  have hdrop : (l.drop (field h 16 14 + 1)).length ≤ l.length := by
    rw [length_drop]
    omega
  rw [← decode_eq_writesOf l.length _ hdrop]
  rfl

/-- `l` is whole packets that perform the writes `ws`. -/
def Runs (l : List ℕ) (ws : List (ℕ × ℕ)) : Prop := ∀ rest, writesOf (l ++ rest) = ws ++ writesOf rest

lemma Runs.nil : Runs [] [] := fun _ => rfl

lemma Runs.append (h : Runs l ws) (h' : Runs l' ws') : Runs (l ++ l') (ws ++ ws') := by
  intro rest
  rw [append_assoc, h, h', append_assoc]

lemma Runs.writesOf_eq (h : Runs l ws) : writesOf l = ws := by
  have hnil := h []
  rwa [append_nil, show writesOf [] = [] from rfl, append_nil] at hnil

/-- `l` is whole packets with the effect of the writes `ws`. -/
def Does (l : List ℕ) (ws : List (ℕ × ℕ)) : Prop := ∃ ws', Runs l ws' ∧ apply ws' = apply ws

theorem Runs.does (h : Runs l ws) : Does l ws := ⟨ws, h, rfl⟩

lemma Does.append (h : Does l ws) (h' : Does l' ws') : Does (l ++ l') (ws ++ ws') := by
  obtain ⟨v, hv, heq⟩ := h
  obtain ⟨v', hv', heq'⟩ := h'
  refine ⟨v ++ v', hv.append hv', ?_⟩
  funext r
  rw [apply_append, apply_append, heq, heq']

/-! ## Headers -/

variable (hcount : count < 2 ^ 14) (cam : Bool)
include hcount

/-- A header as a sum. -/
theorem header_eq :
    header op count cam = 3 * 2 ^ 30 + count * 2 ^ 16 + op.value * 2 ^ 8 + cam.toNat * 2 ^ 2 := by
  have hop := op.value_lt
  have hcam : cam.toNat < 2 := Bool.toNat_lt cam
  unfold header pkt3
  rw [show 0x3fff = 2 ^ 14 - 1 from rfl, and_two_pow_sub_one_eq_mod, mod_eq_of_lt hcount, Nat.or_assoc,
    Nat.or_assoc, ← shiftLeft_add_eq_or_of_lt (a := op.value) (i := 8) (by rw [shiftLeft_eq]; omega),
    ← shiftLeft_add_eq_or_of_lt (a := count) (i := 16) (by simp only [shiftLeft_eq]; omega),
    ← shiftLeft_add_eq_or_of_lt (a := 3) (i := 30) (by simp only [shiftLeft_eq]; omega)]
  omega

lemma field_header_opcode : field (header op count cam) 8 8 = op.value := by
  have hop := op.value_lt
  have hcam : cam.toNat < 2 := Bool.toNat_lt cam
  rw [header_eq op hcount, field, shiftRight_eq_div_pow]
  omega

lemma field_header_count : field (header op count cam) 16 14 = count := by
  have hop := op.value_lt
  have hcam : cam.toNat < 2 := Bool.toNat_lt cam
  rw [header_eq op hcount, field, shiftRight_eq_div_pow]
  omega

/-- The opcode of a header can be replaced. -/
theorem header_replace (op' : Opcode) :
    header op count cam &&& 0xffff00ff ||| op'.value <<< 8 = header op' count cam := by
  have hop := op.value_lt
  have hop' := op'.value_lt
  have hcam : cam.toNat < 2 := Bool.toNat_lt cam
  have hlow : header op count cam &&& 0xff = cam.toNat * 2 ^ 2 := by
    rw [show 0xff = 2 ^ 8 - 1 from rfl, and_two_pow_sub_one_eq_mod, header_eq op hcount]
    omega
  have hhigh : header op count cam &&& 0xffff0000 = (3 * 2 ^ 14 + count) <<< 16 := by
    rw [show 0xffff0000 = (2 ^ 16 - 1) <<< 16 from rfl, and_mask, header_eq op hcount, field,
      shiftRight_eq_div_pow]
    congr 1
    omega
  rw [show 0xffff00ff = 0xffff0000 ||| 0xff from rfl, and_or_distrib_left, hlow, hhigh,
    Nat.or_assoc, Nat.or_comm (cam.toNat * 2 ^ 2),
    ← shiftLeft_add_eq_or_of_lt (a := op'.value) (i := 8) (by omega),
    ← shiftLeft_add_eq_or_of_lt (a := 3 * 2 ^ 14 + count) (i := 16) (by rw [shiftLeft_eq]; omega),
    header_eq op' hcount]
  omega

/-- One packet. -/
theorem runs_packet (body : List ℕ) (hbody : body.length = count + 1) :
    Runs (header op count cam :: body) (op.writes body) := by
  intro rest
  rw [cons_append, writesOf_cons, field_header_opcode op hcount, field_header_count op hcount,
    Opcode.ofValue_value, Option.map_some, Option.getD_some, ← hbody, take_left, drop_left]

end

end RadvXclipse.Pm4
