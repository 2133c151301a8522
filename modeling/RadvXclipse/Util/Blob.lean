import RadvXclipse.Lib.Run
import RadvXclipse.Util.Math
import Mathlib.Data.Nat.Digits.Defs

/-!
# Reading a blob

The reader of `blob.c` on a byte string of any content. A call is given with the bytes that it
reads, and a failed assertion ends the program.
-/

namespace RadvXclipse.Util.Blob

open Lib List

structure ByteString where
  bytes : List (BitVec 8)
  /-- no object is larger than `PTRDIFF_MAX` -/
  size_lt : bytes.length < 2 ^ 63

/-- `struct blob_reader`; `end` and `current` count from `data`. -/
structure BlobReader where
  data : ByteString
  current : ℕ
  overrun : Bool

variable (r : BlobReader)

def BlobReader.stop : ℕ := r.data.bytes.length

/-- `blob_reader_init`. -/
def blobReaderInit (data : ByteString) : BlobReader := ⟨data, 0, false⟩

/-- `ensure_can_read`. -/
def ensureCanRead (size : ℕ) : Bool × BlobReader :=
  if r.overrun then (false, r)
  else if r.current ≤ r.stop ∧ r.stop - r.current ≥ size then (true, r)
  else (false, { r with overrun := true })

/-- `blob_read_bytes`. -/
def blobReadBytes (size : ℕ) : Option ℕ × BlobReader :=
  match ensureCanRead r size with
  | (false, r) => (none, r)
  | (true, r) => (some r.current, { r with current := r.current + size })

/-- The types of `BLOB_READ_TYPE`. -/
inductive IntType
  | uint8
  | uint16
  | uint32
  | uint64
  | intptr

def IntType.size : IntType → ℕ
  | .uint8 => 1
  | .uint16 => 2
  | .uint32 => 4
  | .uint64 | .intptr => 8

inductive Ret
  | pointer (p : Option ℕ)
  | value (v : ℕ)
  | void
  /-- an assertion has failed -/
  | abort
deriving DecidableEq

/-- What a call returns, the offset and the number of the bytes that it reads, and the reader after
it. -/
structure Outcome where
  ret : Ret
  touched : ℕ × ℕ
  reader : BlobReader

/-- `BLOB_READ_TYPE`, with `blob_reader_align` and `blob_copy_bytes`. -/
def blobReadType (t : IntType) (r : BlobReader) : Outcome :=
  let r := { r with current := align64 r.current t.size }
  match blobReadBytes r t.size with
  | (none, r) => ⟨.value 0, (0, 0), r⟩
  | (some p, r) => ⟨.value (Nat.ofDigits 256 (((r.data.bytes.drop p).take t.size).map BitVec.toNat)), (p, t.size), r⟩

/-- A count that is stored in an `int` and then taken for a `size_t`. -/
def intToSize (n : ℕ) : ℕ := if n % 2 ^ 32 < 2 ^ 31 then n % 2 ^ 32 else n % 2 ^ 32 + (2 ^ 64 - 2 ^ 32)

/-- `blob_read_string`. -/
def blobReadString : Outcome :=
  if r.current ≥ r.stop then ⟨.pointer none, (0, 0), { r with overrun := true }⟩
  else
    -- `memchr`
    match (r.data.bytes.drop r.current).findIdx? (· = 0) with
    | none => ⟨.pointer none, (r.current, r.stop - r.current), { r with overrun := true }⟩
    | some nul =>
      let size := intToSize (nul + 1)
      match ensureCanRead r size with
      | (false, r) => ⟨.abort, (r.current, nul + 1), r⟩
      | (true, r) => ⟨.pointer (some r.current), (r.current, nul + 1), { r with current := r.current + size }⟩

inductive Op
  | bytes (size : ℕ)
  | skip (size : ℕ)
  | type (t : IntType)
  | string

/-- One call; `blob_skip_bytes` returns nothing. -/
def BlobReader.call : Op → Outcome
  | .bytes size =>
    let (p, r) := blobReadBytes r size
    ⟨.pointer p, p.elim (0, 0) fun p => (p, size), r⟩
  | .skip size =>
    let (ok, r) := ensureCanRead r size
    ⟨.void, (0, 0), if ok then { r with current := r.current + size } else r⟩
  | .type t => blobReadType t r
  | .string => blobReadString r

/-- A call that does not end the program. -/
def Step (op : Op) (r' : BlobReader) : Prop := (r.call op).ret ≠ .abort ∧ r' = (r.call op).reader

/-- The call touches no byte at or beyond the end and fails no assertion, and `overrun` stays set
with nothing returned but zero or `NULL`. -/
structure Safe (r : BlobReader) (o : Outcome) : Prop where
  touched : o.touched.1 + o.touched.2 ≤ r.stop
  asserts : o.ret ≠ .abort
  overrun : r.overrun = true → o.reader.overrun = true ∧
    (o.ret = .value 0 ∨ o.ret = .pointer none ∨ o.ret = .void)

/-- A string that is there, after an overrun or with a length that is no `int`. -/
def StringLost (op : Op) : Prop :=
  op = .string ∧ ∃ nul, (r.data.bytes.drop r.current).findIdx? (· = 0) = some nul ∧
    (r.overrun = true ∨ 2 ^ 31 ≤ (nul + 1) % 2 ^ 32)

/-! ## Every call -/

/-- Alignment moves the cursor past the end by a few bytes, and only together with an overrun. -/
structure BlobReader.Ok (r : BlobReader) : Prop where
  bound : r.current ≤ alignUp r.stop 8
  within : r.overrun = false → r.current ≤ r.stop

section

variable {r : BlobReader} {op : Op}

lemma ensureCanRead_cases (r : BlobReader) (size : ℕ) :
    ensureCanRead r size = (false, { r with overrun := true }) ∨
      r.overrun = false ∧ r.current + size ≤ r.stop ∧ ensureCanRead r size = (true, r) := by
  unfold ensureCanRead
  split_ifs with hover hfit
  · left
    rw [← hover]
  · exact .inr ⟨Bool.eq_false_iff.mpr hover, by omega, rfl⟩
  · exact .inl rfl

lemma align64_current (h : r.Ok) (t : IntType) :
    align64 r.current t.size = alignUp r.current t.size ∧ alignUp r.current t.size ≤ alignUp r.stop 8 := by
  have hlt : alignUp r.stop 8 < r.stop + 8 := alignUp_lt (by decide) _
  have hdata := r.data.size_lt
  obtain ⟨k, hk, hsize⟩ : ∃ k ≤ 3, t.size = 2 ^ k := by
    cases t with
    | uint8 => exact ⟨0, by decide, rfl⟩
    | uint16 => exact ⟨1, by decide, rfl⟩
    | uint32 => exact ⟨2, by decide, rfl⟩
    | uint64 | intptr => exact ⟨3, by decide, rfl⟩
  have hle : alignUp r.current (2 ^ k) ≤ alignUp r.stop 8 :=
    alignUp_le_of_dvd (Nat.two_pow_pos k) ((pow_dvd_pow 2 hk).trans (dvd_alignUp _ _)) h.bound
  rw [hsize, align64, toNat_alignPot (by omega)]
  exact ⟨Nat.mod_eq_of_lt (by unfold BlobReader.stop at *; omega), hle⟩

/-- The cursor moves over bytes that are there. -/
theorem ok_add {n : ℕ} (h : r.current + n ≤ r.stop) : BlobReader.Ok { r with current := r.current + n } :=
  ⟨h.trans (le_alignUp (by decide) _), fun _ => h⟩

lemma ok_overrun (h : r.current ≤ alignUp r.stop 8) : BlobReader.Ok { r with overrun := true } :=
  ⟨h, fun hfalse => by cases hfalse⟩

lemma call_string (h : r.Ok) :
    (blobReadString r).reader.Ok ∧ (Safe r (blobReadString r) ↔ ¬ StringLost r .string) := by
  unfold blobReadString
  split_ifs with hge
  · refine ⟨ok_overrun h.bound, iff_of_true ⟨Nat.zero_le _, by simp, by simp⟩ ?_⟩
    rintro ⟨-, nul, hnul, -⟩
    rw [drop_eq_nil_of_le hge] at hnul
    cases hnul
  cases hnul : (r.data.bytes.drop r.current).findIdx? (· = 0) with
  | none =>
    refine ⟨ok_overrun h.bound, iff_of_true ⟨?_, by simp, by simp⟩ ?_⟩
    · dsimp only
      omega
    · rintro ⟨-, nul, hsome, -⟩
      rw [hnul] at hsome
      cases hsome
  | some nul =>
    have hlost : StringLost r .string ↔ r.overrun = true ∨ 2 ^ 31 ≤ (nul + 1) % 2 ^ 32 := by
      simp only [StringLost, hnul, true_and, Option.some.injEq, exists_eq_left']
    have hlt : nul < r.stop - r.current := by
      have hlt := (findIdx?_eq_some_iff_getElem.mp hnul).1
      rwa [length_drop] at hlt
    have hdata : r.stop < 2 ^ 63 := r.data.size_lt
    rw [hlost]
    dsimp only
    rcases ensureCanRead_cases r (intToSize (nul + 1)) with heq | ⟨hover, hfit, heq⟩
    · rw [heq]
      refine ⟨ok_overrun h.bound, iff_of_false (fun hsafe => hsafe.asserts rfl) (not_not_intro ?_)⟩
      -- the bytes up to the zero are there, so it is the flag or the conversion that fails
      by_contra hnot
      rw [not_or, Bool.not_eq_true] at hnot
      have hsize : intToSize (nul + 1) ≤ nul + 1 := by
        unfold intToSize
        split_ifs <;> omega
      rw [ensureCanRead, if_neg (by simp [hnot.1]), if_pos (by omega)] at heq
      cases heq
    · rw [heq]
      refine ⟨ok_add hfit, iff_of_true ⟨?_, by simp, by simp [hover]⟩ ?_⟩
      · dsimp only
        omega
      · rw [hover]
        unfold intToSize at hfit
        split_ifs at hfit <;> simp <;> omega

/-- A call keeps the reader in bounds, and is safe unless it loses a string. -/
theorem call_spec (h : r.Ok) (op : Op) :
    (r.call op).reader.Ok ∧ (Safe r (r.call op) ↔ ¬ StringLost r op) := by
  cases op with
  | bytes size | skip size =>
    rcases ensureCanRead_cases r size with heq | ⟨hover, hfit, heq⟩
    · simp only [BlobReader.call, blobReadBytes, heq]
      exact ⟨ok_overrun h.bound, iff_of_true ⟨Nat.zero_le _, by simp, by simp⟩ fun hlost => by cases hlost.1⟩
    · simp only [BlobReader.call, blobReadBytes, heq]
      exact ⟨ok_add hfit,
        iff_of_true ⟨by simp [hfit], by simp, by simp [hover]⟩ fun hlost => by cases hlost.1⟩
  | type t =>
    obtain ⟨halign, hle⟩ := align64_current h t
    simp only [BlobReader.call, blobReadType, blobReadBytes, halign]
    rcases ensureCanRead_cases { r with current := alignUp r.current t.size } t.size
      with heq | ⟨hover, hfit, heq⟩
    · rw [heq]
      exact ⟨ok_overrun hle, iff_of_true ⟨Nat.zero_le _, by simp, by simp⟩ fun hlost => by cases hlost.1⟩
    · rw [heq]
      refine ⟨ok_add hfit, iff_of_true ⟨hfit, by simp, fun htrue => ?_⟩ fun hlost => by cases hlost.1⟩
      exact absurd (hover.symm.trans htrue) (by decide)
  | string => exact call_string h

end

/-- After every sequence of calls on a byte string, the next call is safe if and only if it loses no
string. -/
theorem safe_iff_of_run {data : ByteString} {ops : List Op} {r : BlobReader}
    (h : Run Step (blobReaderInit data) ops r) (op : Op) : Safe r (r.call op) ↔ ¬ StringLost r op := by
  have hok : r.Ok := by
    refine h.invariant (I := fun _ r => r.Ok) ⟨Nat.zero_le _, fun _ => Nat.zero_le _⟩ ?_
    rintro _ r op _ hr ⟨-, rfl⟩
    exact (call_spec hr op).1
  exact (call_spec hok op).2

def twoBytes : ByteString := ⟨[1, 0], by decide⟩

/-- A `uint32_t` that is not there. -/
theorem run_twoBytes : Run Step (blobReaderInit twoBytes) ([] ++ [.type .uint32]) ⟨twoBytes, 0, true⟩ :=
  .snoc .nil ⟨by decide, rfl⟩

/-- A byte read behind an overrun is safe. -/
theorem safe_iff_of_run_bytes :
    Safe ⟨twoBytes, 0, true⟩ (BlobReader.call ⟨twoBytes, 0, true⟩ (.bytes 1)) :=
  (safe_iff_of_run run_twoBytes (.bytes 1)).mpr fun hlost => by cases hlost.1

/-- The string behind an overrun fails the assertion. -/
theorem not_safe_string :
    ∃ r, Run Step (blobReaderInit twoBytes) [.type .uint32] r ∧ ¬ Safe r (r.call .string) :=
  ⟨_, run_twoBytes, fun hsafe => hsafe.asserts (by decide)⟩

end RadvXclipse.Util.Blob
