import Mathlib.Data.BitVec
import Mathlib.Tactic.Positivity

/-!
# Integer opcodes of NIR

The constant expressions of `nir_opcodes.py`, on words of any bit size. A signed source is its word
in two's complement. Booleans are words of one bit.
-/

namespace RadvXclipse.Nir

variable {w : ℕ}

/-- `u_intN_min`. -/
def intMin (w : ℕ) : ℤ := -2 ^ (w - 1)

/-! ## Arithmetic -/

variable (a b : BitVec w)

def ineg : BitVec w := if a.toInt = intMin w then a else -a

def iabs : BitVec w := if a.toInt < 0 then -a else a

def inot : BitVec w := ~~~a

def iadd : BitVec w := a + b

def isub : BitVec w := a - b

def imul : BitVec w := a * b

def uaddSat : BitVec w := if 2 ^ w ≤ a.toNat + b.toNat then BitVec.ofNat w (2 ^ w - 1) else a + b

/-- The high half of the product; for 64 bits the source computes it from products of 32 bits. -/
def umulHigh : BitVec w := BitVec.ofNat w (a.toNat * b.toNat / 2 ^ w)

def imulHigh : BitVec w := BitVec.ofInt w (a.toInt * b.toInt / 2 ^ w)

/-! ## Division -/

def udiv : BitVec w := if b.toNat = 0 then 0 else BitVec.ofNat w (a.toNat / b.toNat)

def umod : BitVec w := if b.toNat = 0 then 0 else BitVec.ofNat w (a.toNat % b.toNat)

/-- The sources of a signed division without a result. -/
def idivUndefined : Prop := b.toInt = 0 ∨ (a.toInt = intMin w ∧ b.toInt = -1)

instance : Decidable (idivUndefined a b) := inferInstanceAs (Decidable (_ ∨ _))

def idiv : BitVec w := if idivUndefined a b then 0 else BitVec.ofInt w (a.toInt.tdiv b.toInt)

def irem : BitVec w := if idivUndefined a b then 0 else BitVec.ofInt w (a.toInt.tmod b.toInt)

def imod : BitVec w :=
  if idivUndefined a b then 0
  else if a.toInt.tmod b.toInt = 0 ∨ (0 ≤ a.toInt ↔ 0 ≤ b.toInt) then BitVec.ofInt w (a.toInt.tmod b.toInt)
  else BitVec.ofInt w (a.toInt.tmod b.toInt + b.toInt)

/-! ## Comparisons and selections -/

def ieq : BitVec 1 := BitVec.ofBool (a.toInt = b.toInt)

def ilt : BitVec 1 := BitVec.ofBool (a.toInt < b.toInt)

def ige : BitVec 1 := BitVec.ofBool (b.toInt ≤ a.toInt)

def ult : BitVec 1 := BitVec.ofBool (a.toNat < b.toNat)

def uge : BitVec 1 := BitVec.ofBool (b.toNat ≤ a.toNat)

def bcsel (c : BitVec 1) (a b : BitVec w) : BitVec w := if c = 0 then b else a

/-- `b32csel`, with a boolean of 32 bits. -/
def b32csel (c : BitVec 32) (a b : BitVec w) : BitVec w := if c = 0 then b else a

/-- `b2i8`, `b2i16`, `b2i32` and `b2i64`. -/
def b2i (w : ℕ) (c : BitVec 1) : BitVec w := if c = 0 then 0 else 1

/-! ## Bits -/

def iand : BitVec w := a &&& b

def ior : BitVec w := a ||| b

def ixor : BitVec w := a ^^^ b

/-- `bitfield_select`. -/
def bitfieldSelect (a b c : BitVec w) : BitVec w := a &&& b ||| ~~~a &&& c

/-- The shift amount: the low bits of the second source. -/
def shiftAmount (w : ℕ) (s : BitVec 32) : ℕ := s.toNat &&& (w - 1)

def ishl (s : BitVec 32) : BitVec w := a <<< shiftAmount w s

def ishr (s : BitVec 32) : BitVec w := a.sshiftRight (shiftAmount w s)

def ushr (s : BitVec 32) : BitVec w := a >>> shiftAmount w s

/-- The count of the loop over the bits. -/
def countBits (a : BitVec w) : ℕ → ℕ
  | 0 => 0
  | bit + 1 => countBits a bit + if a.getLsbD bit then 1 else 0

/-- `bit_count`. -/
def bitCount : BitVec 32 := BitVec.ofNat 32 (countBits a w)

def ubfe (a b c : BitVec 32) : BitVec 32 :=
  let offset := b.toNat % 32
  let bits := c.toNat % 32
  if bits = 0 then 0
  else if offset + bits < 32 then (a <<< (32 - bits - offset)) >>> (32 - bits)
  else a >>> offset

def bfm (a b : BitVec 32) : BitVec 32 := BitVec.ofNat 32 (2 ^ (a.toNat % 32) - 1) <<< (b.toNat % 32)

/-- The loop of `bfi`, which moves the inserted bits to the lowest bit of the mask. -/
def alignInsert : (fuel : ℕ) → (tmp insert : BitVec 32) → BitVec 32
  | 0, _, insert => insert
  | fuel + 1, tmp, insert => if tmp.getLsbD 0 then insert else alignInsert fuel (tmp >>> 1) (insert <<< 1)

def bfi (mask insert base : BitVec 32) : BitVec 32 :=
  if mask = 0 then base else base &&& ~~~mask ||| alignInsert 32 mask insert &&& mask

/-- The part of a byte in `msad`. -/
def absDiffByte (ref src : ℕ) : ℕ := if ref ≠ 0 then max ref src - min ref src else 0

/-- `msad_4x8`. -/
def msad4x8 (a b c : BitVec 32) : BitVec 32 :=
  let byte (x : BitVec 32) (i : ℕ) := x.toNat / 2 ^ (i * 8) % 2 ^ 8
  BitVec.ofNat 32 (c.toNat + absDiffByte (byte a 0) (byte b 0) + absDiffByte (byte a 1) (byte b 1) +
    absDiffByte (byte a 2) (byte b 2) + absDiffByte (byte a 3) (byte b 3))

/-- `extract_u8` and `extract_u16`; there is no field past the bit size. -/
def extractU (k : ℕ) (a b : BitVec w) : BitVec w :=
  let shift := b.toNat * k % 2 ^ 32
  if w ≤ shift then 0 else BitVec.ofNat w (a.toNat / 2 ^ shift % 2 ^ k)

/-- `extract_i8` and `extract_i16`. -/
def extractI (k : ℕ) (a b : BitVec w) : BitVec w :=
  let shift := b.toNat * k % 2 ^ 32
  if w ≤ shift then 0 else BitVec.ofInt w (BitVec.ofNat k (a.toNat / 2 ^ shift)).toInt

/-! ## Minima and maxima -/

def umin : BitVec w := if a.toNat < b.toNat then a else b

def umax : BitVec w := if b.toNat < a.toNat then a else b

def imin : BitVec w := if a.toInt < b.toInt then a else b

def imax : BitVec w := if b.toInt < a.toInt then a else b

/-! ## Bit sizes -/

/-- The bit sizes of integers. -/
inductive BitSize
  | s8 | s16 | s32 | s64
deriving DecidableEq

def BitSize.bits : BitSize → ℕ
  | .s8 => 8
  | .s16 => 16
  | .s32 => 32
  | .s64 => 64

/-- What the proofs need of a bit size. -/
structure IntSize (w : ℕ) : Prop where
  pow : ∃ j, w = 2 ^ j
  ge : 8 ≤ w
  le : w ≤ 64

lemma BitSize.intSize (s : BitSize) : IntSize s.bits := by
  cases s with
  | s8 => exact ⟨⟨3, rfl⟩, by decide, by decide⟩
  | s16 => exact ⟨⟨4, rfl⟩, by decide, by decide⟩
  | s32 => exact ⟨⟨5, rfl⟩, by decide, by decide⟩
  | s64 => exact ⟨⟨6, rfl⟩, by decide, by decide⟩

section

variable (h : IntSize w)
include h

lemma IntSize.and_eq {k : ℕ} (hk : k < w) : k &&& (w - 1) = k := by
  obtain ⟨j, rfl⟩ := h.pow
  rw [Nat.and_two_pow_sub_one_eq_mod, Nat.mod_eq_of_lt hk]

/-- A constant shift amount below the bit size is itself. -/
theorem shiftAmount_ofInt {k : ℕ} (hk : k < w) : shiftAmount w (BitVec.ofInt 32 k) = k := by
  have hle := h.le
  unfold shiftAmount
  rw [BitVec.ofInt_natCast, BitVec.toNat_ofNat, Nat.mod_eq_of_lt (by omega), h.and_eq hk]

theorem IntSize.double : 2 ^ w = 2 * 2 ^ (w - 1) := by
  have hge := h.ge
  exact (mul_pow_sub_one (by omega) 2).symm

lemma IntSize.double_int : (2 : ℤ) ^ w = 2 * 2 ^ (w - 1) := by
  have hge := h.ge
  exact (mul_pow_sub_one (by omega) 2).symm

/-- Integers in the range of signed words. -/
theorem IntSize.toInt_ofInt {x : ℤ} (hge : intMin w ≤ x) (hlt : x < 2 ^ (w - 1)) :
    (BitVec.ofInt w x).toInt = x := by
  have hdouble := h.double_int
  unfold intMin at hge
  rw [BitVec.toInt_ofInt]
  apply Int.bmod_eq_of_le
  · push_cast
    omega
  · push_cast
    omega

end

lemma intMin_le_toInt : intMin w ≤ a.toInt := BitVec.le_toInt a

lemma ofBool_eq_zero_iff (p : Prop) [Decidable p] : BitVec.ofBool (decide p) = 0 ↔ ¬ p := by
  by_cases hp : p
  · simp [hp]
  · simp [hp]

end RadvXclipse.Nir
