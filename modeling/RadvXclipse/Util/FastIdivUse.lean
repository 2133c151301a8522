import RadvXclipse.Util.FastSdiv

/-!
# Divisions with magic numbers

The instruction sequences that `src/util/fast_idiv_by_const.h` documents, its functions for 32-bit
registers, and the calls that compute the constants with their own assertions: a call that fails one
gives `none`.
-/

namespace RadvXclipse.Util

open Nat

/-! ## The constants -/

/-- `util_compute_fast_udiv_info`, with the recursive call as an argument. -/
def checkedUdivInfoStep (rec : ℕ → ℕ → Option FastUdivInfo) (D numBits uintBits : ℕ) : Option FastUdivInfo :=
  if 0 < numBits ∧ numBits ≤ uintBits ∧ D ≠ 0 then
    fastUdivInfoStep (fun D' numBits' => (rec D' numBits').filter fun info => info.increment = 0 ∧
      info.preShift = 0)
      D numBits uintBits
  else none

/-- `util_compute_fast_udiv_info`. The recursive call has an odd divisor and makes no further
call. -/
def checkedUdivInfo (D numBits uintBits : ℕ) : Option FastUdivInfo :=
  checkedUdivInfoStep
    (fun D' numBits' => checkedUdivInfoStep (fun _ _ => none) D' numBits' uintBits) D numBits
    uintBits

/-- `util_compute_fast_sdiv_info`. -/
def checkedSdivInfo (D : ℤ) (sintBits : ℕ) : Option FastSdivInfo :=
  if D ≠ 0 ∧ D ≠ 1 ∧ D ≠ -1 then computeFastSdivInfo D sintBits else none

/-! ## The sequences -/

/-- `saturated_increment`. -/
def saturatedIncrement (w n : ℕ) : ℕ := if n = 2 ^ w - 1 then n else n + 1

namespace FastUdivInfo

variable (info : FastUdivInfo)

/-- The first sequence for registers of `w` bits. The product has twice as many. -/
def saturating (w n : ℕ) : ℕ :=
  let n := if info.preShift > 0 then n >>> info.preShift else n
  let n := if info.increment ≠ 0 then saturatedIncrement w n else n
  let result := (info.multiplier * n % 2 ^ (2 * w)) >>> w
  if info.postShift > 0 then result >>> info.postShift else result

/-- The second sequence. -/
def widening (w n : ℕ) : ℕ :=
  let n := if info.preShift > 0 then n >>> info.preShift else n
  let result := info.multiplier * n % 2 ^ (2 * w)
  let result := if info.increment ≠ 0 then (result + info.multiplier) % 2 ^ (2 * w) else result
  let result := result >>> w
  if info.postShift > 0 then result >>> info.postShift else result

/-- `util_fast_udiv32`. -/
def fastUdiv32 (n : ℕ) : ℕ :=
  let n := n >>> info.preShift
  let n := (((n + info.increment) % 2 ^ 64 * info.multiplier % 2 ^ 64) >>> 32) % 2 ^ 32
  n >>> info.postShift

/-- `util_fast_udiv32_nuw`. -/
def fastUdiv32Nuw (n : ℕ) : Option ℕ :=
  if n ≠ 2 ^ 32 - 1 then
    let n := n >>> info.preShift
    let n := (n + info.increment) % 2 ^ 32
    let n := ((n * info.multiplier % 2 ^ 64) >>> 32) % 2 ^ 32
    some (n >>> info.postShift)
  else none

/-- `util_fast_udiv32_u31_d_not_one`. -/
def fastUdiv32U31DNotOne (n : ℕ) : Option ℕ :=
  if info.preShift = 0 ∧ info.increment = 0 then
    let n := ((n * info.multiplier % 2 ^ 64) >>> 32) % 2 ^ 32
    some (n >>> info.postShift)
  else none

end FastUdivInfo

/-- The sequence for signed registers of `w` bits. The product has twice as many. -/
def FastSdivInfo.rounding (info : FastSdivInfo) (w : ℕ) (D n : ℤ) : ℤ :=
  let result := ((info.multiplier * n).bmod (2 ^ (2 * w)) / 2 ^ w).bmod (2 ^ w)
  let result := if D > 0 ∧ info.multiplier < 0 then (result + n).bmod (2 ^ w) else result
  let result := if D < 0 ∧ info.multiplier > 0 then (result - n).bmod (2 ^ w) else result
  let result := if info.shift > 0 then result / 2 ^ info.shift else result
  (result + if result < 0 then 1 else 0).bmod (2 ^ w)

/-! ## Unsigned -/

variable {n : ℕ}

section Unsigned

variable {w bits D : ℕ} {info : FastUdivInfo}

/-- A shift that is left out is a shift by zero. -/
theorem ite_shiftRight (n s : ℕ) : (if s > 0 then n >>> s else n) = n / 2 ^ s := by
  split
  · exact shiftRight_eq_div_pow n s
  · next h =>
    have hs : s = 0 := by omega
    rw [hs, pow_zero, Nat.div_one]

lemma saturatedIncrement_eq (hn : n < 2 ^ w) : saturatedIncrement w n = min (n + 1) (2 ^ w - 1) := by
  unfold saturatedIncrement
  split
  · omega
  · omega

/-- The product fits in a register of twice the size. -/
theorem mul_lt_two_pow {a m : ℕ} (ha : a ≤ 2 ^ w) (hm : m < 2 ^ w) : a * m < 2 ^ (2 * w) := by
  calc a * m ≤ 2 ^ w * m := Nat.mul_le_mul_right m ha
    _ < 2 ^ w * 2 ^ w := Nat.mul_lt_mul_of_pos_left hm (Nat.two_pow_pos w)
    _ = 2 ^ (2 * w) := by rw [← pow_add, two_mul]

lemma preShift_lt (info : FastUdivInfo) (hbits : bits ≤ w) (hn : n < 2 ^ bits) :
    n / 2 ^ info.preShift < 2 ^ w :=
  calc n / 2 ^ info.preShift ≤ n := Nat.div_le_self _ _
    _ < 2 ^ bits := hn
    _ ≤ 2 ^ w := Nat.pow_le_pow_right (by omega) hbits

/-- The first sequence computes the quotient that saturates. -/
theorem FastUdivInfo.Divides.saturating_eq (h : info.Divides w bits D) (hinc : info.increment ≤ 1)
    (hbits : bits ≤ w) (hn : n < 2 ^ bits) : info.saturating w n = n / D := by
  have hshift := preShift_lt info hbits hn
  have hstep : (if info.increment ≠ 0 then saturatedIncrement w (n / 2 ^ info.preShift)
      else n / 2 ^ info.preShift) = min (n / 2 ^ info.preShift + info.increment) (2 ^ w - 1) := by
    split
    · rw [saturatedIncrement_eq hshift]
      have hone : info.increment = 1 := by omega
      rw [hone]
    · omega
  unfold FastUdivInfo.saturating
  rw [ite_shiftRight, ite_shiftRight, hstep, mul_comm info.multiplier,
    mod_eq_of_lt (mul_lt_two_pow (by omega) h.multiplier), shiftRight_eq_div_pow]
  exact h.quotient n hn

namespace FastUdivInfo.Exact

/-- The second sequence needs no saturation. -/
theorem widening_eq (h : info.Exact w bits D) (hbits : bits ≤ w) (hn : n < 2 ^ bits) :
    info.widening w n = n / D := by
  have hshift := preShift_lt info hbits hn
  have hinc := h.increment
  have hstep : (if info.increment ≠ 0 then (info.multiplier * (n / 2 ^ info.preShift) + info.multiplier) % 2 ^ (2 * w)
      else info.multiplier * (n / 2 ^ info.preShift)) =
      (n / 2 ^ info.preShift + info.increment) * info.multiplier := by
    split
    · have hone : info.increment = 1 := by omega
      rw [hone, ← mul_succ, mul_comm, mod_eq_of_lt (mul_lt_two_pow (by omega) h.multiplier)]
    · next hzero =>
      rw [not_not] at hzero
      rw [hzero, add_zero, mul_comm]
  unfold FastUdivInfo.widening
  rw [ite_shiftRight, ite_shiftRight,
    mod_eq_of_lt (show info.multiplier * (n / 2 ^ info.preShift) < 2 ^ (2 * w) by
      rw [mul_comm]
      exact mul_lt_two_pow hshift.le h.multiplier),
    hstep, shiftRight_eq_div_pow]
  exact h.quotient n hn

section

variable (h : info.Exact 32 bits D)
include h

/-- The high half of the product of the functions for 32-bit registers. -/
theorem high32 {a : ℕ} (ha : a ≤ 2 ^ 32) :
    ((a * info.multiplier % 2 ^ 64) >>> 32) % 2 ^ 32 = a * info.multiplier / 2 ^ 32 := by
  have hprod : a * info.multiplier < 2 ^ 64 := mul_lt_two_pow ha h.multiplier
  rw [mod_eq_of_lt hprod, shiftRight_eq_div_pow, mod_eq_of_lt (by omega)]

lemma fastUdiv32_eq (hbits : bits ≤ 32) (hn : n < 2 ^ bits) : info.fastUdiv32 n = n / D := by
  have hshift := preShift_lt info hbits hn
  have hinc := h.increment
  unfold FastUdivInfo.fastUdiv32
  dsimp only
  rw [shiftRight_eq_div_pow n,
    mod_eq_of_lt (show n / 2 ^ info.preShift + info.increment < 2 ^ 64 by omega),
    h.high32 (by omega), shiftRight_eq_div_pow]
  exact h.quotient n hn

lemma fastUdiv32Nuw_eq (hbits : bits ≤ 32) (hn : n < 2 ^ bits) (hmax : n ≠ 2 ^ 32 - 1) :
    info.fastUdiv32Nuw n = some (n / D) := by
  have hn32 : n < 2 ^ 32 := lt_of_lt_of_le hn (Nat.pow_le_pow_right (by omega) hbits)
  have hle : n / 2 ^ info.preShift ≤ n := Nat.div_le_self _ _
  have hinc := h.increment
  unfold FastUdivInfo.fastUdiv32Nuw
  dsimp only
  rw [if_pos hmax, shiftRight_eq_div_pow n,
    mod_eq_of_lt (show n / 2 ^ info.preShift + info.increment < 2 ^ 32 by omega), h.high32 (by omega),
    shiftRight_eq_div_pow, h.quotient n hn]

lemma fastUdiv32U31DNotOne_eq (hpre : info.preShift = 0) (hzero : info.increment = 0)
    (hbits : bits ≤ 32) (hn : n < 2 ^ bits) :
    info.fastUdiv32U31DNotOne n = some (n / D) := by
  have hn32 : n < 2 ^ 32 := lt_of_lt_of_le hn (Nat.pow_le_pow_right (by omega) hbits)
  have hquot := h.quotient n hn
  rw [hpre, hzero, pow_zero, Nat.div_one, add_zero] at hquot
  unfold FastUdivInfo.fastUdiv32U31DNotOne
  dsimp only
  rw [if_pos ⟨hpre, hzero⟩, h.high32 hn32.le, shiftRight_eq_div_pow, hquot]

end

end FastUdivInfo.Exact

/-! ### The constants of powers of two -/

lemma exact_two_pow {k : ℕ} (hk : 0 < k) (hkw : k < w) :
    FastUdivInfo.Exact ⟨2 ^ (w - k), 0, 0, 0⟩ w bits (2 ^ k) := by
  refine ⟨Nat.pow_lt_pow_right (by omega) (by omega), by dsimp only; omega, by dsimp only; omega,
    zero_le 1, ?_⟩
  intro n _
  have hsplit : 2 ^ w = 2 ^ k * 2 ^ (w - k) := by
    rw [← pow_add]
    congr 1
    omega
  rw [pow_zero, Nat.div_one, Nat.div_one, add_zero, hsplit, Nat.mul_div_mul_right _ _ (Nat.two_pow_pos _)]

lemma exact_one (hw : 0 < w) (hbits : bits ≤ w) : FastUdivInfo.Exact ⟨2 ^ w - 1, 0, 0, 1⟩ w bits 1 := by
  have hpos := Nat.two_pow_pos w
  refine ⟨by dsimp only; omega, hw, hw, le_refl 1, ?_⟩
  intro n hn
  have hnw : n < 2 ^ w := lt_of_lt_of_le hn (Nat.pow_le_pow_right (by omega) hbits)
  dsimp only
  rw [pow_zero, Nat.div_one, Nat.div_one, Nat.mul_sub, mul_one]
  apply Nat.div_eq_of_lt_le
  · rw [add_mul, one_mul]
    omega
  · exact sub_lt (mul_pos (succ_pos n) hpos) (succ_pos n)

/-! ### The calls -/

/-- The constants that a call returns. -/
structure CheckedUdiv (w bits D : ℕ) (info : FastUdivInfo) : Prop where
  exact : info.Exact w bits D
  saturates : D ≠ 1 → info.Saturates w D
  /-- Fewer bits need neither a shift before the product nor an increment. -/
  plain : bits < w → D ≠ 1 → info.preShift = 0 ∧ info.increment = 0

/-- The recursive call passes the assertion after it. -/
theorem checkedUdivInfoStep_of_lt (rec : ℕ → ℕ → Option FastUdivInfo) (h : UdivArgs w D)
    (hbits : bits < w) (hbits0 : 0 < bits) :
    ∃ m e, checkedUdivInfoStep rec D bits w = some ⟨m, 0, e, 0⟩ ∧
      FastUdivInfo.Exact ⟨m, 0, e, 0⟩ w bits D := by
  unfold checkedUdivInfoStep
  rw [if_pos ⟨hbits0, hbits.le, h.pos.ne'⟩]
  exact fastUdivInfoStep_of_lt _ h hbits

lemma checkedUdivInfo_two_pow {k : ℕ} (hw64 : w ≤ 64) (hbits0 : 0 < bits) (hbits : bits ≤ w) (hk : k < w) :
    ∃ info, checkedUdivInfo (2 ^ k) bits w = some info ∧ CheckedUdiv w bits (2 ^ k) info := by
  have hlt : 2 ^ k < 2 ^ 64 := Nat.pow_lt_pow_right (by omega) (by omega)
  unfold checkedUdivInfo checkedUdivInfoStep
  rw [if_pos ⟨hbits0, hbits, (Nat.two_pow_pos k).ne'⟩]
  unfold fastUdivInfoStep
  rw [if_pos ((isPowerOfTwoOrZero64_iff (Nat.two_pow_pos k) hlt).mpr ⟨k, rfl⟩)]
  dsimp only
  rw [utilLogbase264_two_pow]
  split
  · next hne =>
    exact ⟨_, rfl, exact_two_pow (by omega) hk, fun _ h => absurd h zero_ne_one, fun _ _ => ⟨rfl, rfl⟩⟩
  · next hzero =>
    rw [not_not] at hzero
    rw [hzero, pow_zero]
    exact ⟨_, rfl, exact_one (by omega) hbits, fun h => absurd rfl h, fun _ h => absurd rfl h⟩

lemma checkedUdivInfo_spec (hw : 2 ≤ w) (hw64 : w ≤ 64) (hbits0 : 0 < bits) (hbits : bits ≤ w) (hpos : 0 < D)
    (hlt : D < 2 ^ w) : ∃ info, checkedUdivInfo D bits w = some info ∧ CheckedUdiv w bits D info := by
  by_cases hpow : ∃ k, D = 2 ^ k
  · obtain ⟨k, rfl⟩ := hpow
    exact checkedUdivInfo_two_pow hw64 hbits0 hbits ((Nat.pow_lt_pow_iff_right (by omega)).mp hlt)
  have hargs : UdivArgs w D := ⟨hw, hw64, hpos, hlt, not_exists.mp hpow⟩
  rcases Nat.lt_or_eq_of_le hbits with hless | rfl
  · rcases checkedUdivInfoStep_of_lt
      (fun D' numBits' => checkedUdivInfoStep (fun _ _ => none) D' numBits' w) hargs
      hless hbits0 with ⟨m, e, heq, hexact⟩
    exact ⟨_, heq, hexact, fun _ h => absurd h zero_ne_one, fun _ _ => ⟨rfl, rfl⟩⟩
  · have hstep := fastUdivInfoStep_exact (fun D' numBits' =>
        (checkedUdivInfoStep (fun _ _ => none) D' numBits' bits).filter fun info =>
          info.increment = 0 ∧ info.preShift = 0) hargs hbits (by
      intro D' j hargs' hj hjw
      obtain ⟨m, e, heq, hexact⟩ :=
        checkedUdivInfoStep_of_lt (fun _ _ => none) hargs' (show bits - j < bits by omega) (by omega)
      refine ⟨m, e, ?_, hexact⟩
      rw [heq]
      rfl)
    obtain ⟨info, heq, hexact, hsat⟩ := hstep
    exact ⟨info, (if_pos ⟨hbits0, hbits, by omega⟩).trans heq, hexact, fun _ => hsat,
      fun h => absurd h (lt_irrefl bits)⟩

end Unsigned

/-! ## Signed -/

section Signed

variable {w : ℕ} {D n : ℤ} {info : FastSdivInfo}

lemma bmod_two_pow (hw : 0 < w) (hge : -2 ^ (w - 1) ≤ n) (hlt : n < 2 ^ (w - 1)) : n.bmod (2 ^ w) = n := by
  have hdouble : ((2 ^ w : ℕ) : ℤ) = 2 * 2 ^ (w - 1) := by
    push_cast
    exact (mul_pow_sub_one (by omega) 2).symm
  apply Int.bmod_eq_of_le
  · omega
  · omega

/-- The product has twice as many bits, its high part fits in the register. -/
theorem product_bounds {m : ℤ} (hw : 2 ≤ w) (hm : -2 ^ (w - 1) ≤ m) (hm' : m < 2 ^ (w - 1))
    (hge : -2 ^ (w - 1) ≤ n) (hlt : n < 2 ^ (w - 1)) :
    ((m * n).bmod (2 ^ (2 * w)) / 2 ^ w).bmod (2 ^ w) = n * m / 2 ^ w := by
  have hhalf : (2 : ℤ) ^ w = 2 * 2 ^ (w - 1) := (mul_pow_sub_one (by omega) 2).symm
  have hwide : (2 : ℤ) ^ (2 * w - 1) = 2 ^ (w - 1) * 2 ^ w := by
    rw [← pow_add]
    congr 1
    omega
  have hT : (0 : ℤ) < 2 ^ (w - 1) := by positivity
  have hP : (0 : ℤ) < 2 ^ w := by positivity
  have habs : |m * n| ≤ 2 ^ (w - 1) * 2 ^ (w - 1) := by
    rw [abs_mul]
    exact mul_le_mul (abs_le.mpr ⟨hm, hm'.le⟩) (abs_le.mpr ⟨hge, hlt.le⟩) (abs_nonneg n) hT.le
  have hsquare : (2 : ℤ) ^ (w - 1) * 2 ^ (w - 1) < 2 ^ (w - 1) * 2 ^ w := mul_lt_mul_of_pos_left (by omega) hT
  rw [abs_le] at habs
  have hfit : (m * n).bmod (2 ^ (2 * w)) = m * n :=
    bmod_two_pow (by omega) (by rw [hwide]; omega) (by rw [hwide]; omega)
  rw [hfit, bmod_two_pow (by omega), mul_comm]
  · rw [Int.le_ediv_iff_mul_le hP]
    linarith [habs.1]
  · rw [Int.ediv_lt_iff_lt_mul hP]
    linarith [habs.2]

/-- A quotient is no larger than its dividend. -/
theorem tdiv_bounds (hD : 2 ≤ D.natAbs) (hge : -2 ^ (w - 1) ≤ n) (hlt : n < 2 ^ (w - 1)) :
    -2 ^ (w - 1) ≤ n.tdiv D ∧ n.tdiv D < 2 ^ (w - 1) := by
  have hle : (n.tdiv D).natAbs ≤ n.natAbs / 2 := by
    rw [Int.natAbs_tdiv]
    exact div_le_div_left hD (by omega)
  omega

/-- Nothing wraps in the sequence for signed registers. -/
theorem FastSdivInfo.Divides.rounding_eq (h : info.Divides w D) (hD : 2 ≤ D.natAbs) (hw : 2 ≤ w)
    (hge : -2 ^ (w - 1) ≤ n) (hlt : n < 2 ^ (w - 1)) : info.rounding w D n = n.tdiv D := by
  obtain ⟨hhigh, hhigh'⟩ := h.high n hge hlt
  have hquot := h.quotient n hge hlt
  obtain ⟨htdiv, htdiv'⟩ := tdiv_bounds hD hge hlt
  have hcorr : (if D < 0 ∧ info.multiplier > 0 then
        ((if D > 0 ∧ info.multiplier < 0 then (n * info.multiplier / 2 ^ w + n).bmod (2 ^ w)
          else n * info.multiplier / 2 ^ w) - n).bmod (2 ^ w)
      else (if D > 0 ∧ info.multiplier < 0 then (n * info.multiplier / 2 ^ w + n).bmod (2 ^ w)
        else n * info.multiplier / 2 ^ w)) = info.high w D n := by
    unfold FastSdivInfo.high at hhigh hhigh' ⊢
    by_cases hneg : D < 0 ∧ 0 < info.multiplier
    · rw [if_neg (by omega), if_pos hneg] at hhigh hhigh'
      rw [if_pos hneg, if_neg (by omega), if_neg (by omega), if_pos hneg, add_zero]
      exact bmod_two_pow (by omega) (by omega) (by omega)
    · rw [if_neg hneg] at hhigh hhigh'
      rw [if_neg hneg, if_neg hneg, sub_zero]
      by_cases hpos : 0 < D ∧ info.multiplier < 0
      · rw [if_pos hpos] at hhigh hhigh'
        rw [if_pos hpos, if_pos hpos]
        exact bmod_two_pow (by omega) (by omega) (by omega)
      · rw [if_neg hpos, if_neg hpos, add_zero]
  have hshift : (if info.shift > 0 then info.high w D n / 2 ^ info.shift else info.high w D n) =
      info.high w D n / 2 ^ info.shift := by
    split
    · rfl
    · next hzero =>
      have hs : info.shift = 0 := by omega
      rw [hs, pow_zero, Int.ediv_one]
  unfold FastSdivInfo.quotient at hquot
  unfold FastSdivInfo.rounding
  dsimp only
  rw [product_bounds hw h.multiplier_ge h.multiplier_lt hge hlt, hcorr, hshift, hquot]
  exact bmod_two_pow (by omega) htdiv htdiv'

lemma checkedSdivInfo_divides (hw : 3 ≤ w) (hw64 : w ≤ 64) (hD : 2 ≤ D.natAbs)
    (hlt : D.natAbs < 2 ^ (w - 1)) :
    ∃ info, checkedSdivInfo D w = some info ∧ info.Divides w D := by
  unfold checkedSdivInfo
  rw [if_pos (by omega)]
  exact computeFastSdivInfo_divides hw hw64 hD hlt

end Signed

/-! ## All sequences divide -/

/-- Everything that may be done with the constants for `n`. -/
structure FastUdivInfo.Quotient (info : FastUdivInfo) (w bits D n : ℕ) : Prop where
  widening : info.widening w n = n / D
  saturating : D ≠ 1 → info.saturating w n = n / D
  udiv32 : w = 32 → info.fastUdiv32 n = n / D
  nuw : w = 32 → n ≠ 2 ^ 32 - 1 → info.fastUdiv32Nuw n = some (n / D)
  u31 : w = 32 → bits = 31 → 1 < D → D < 2 ^ 31 → info.fastUdiv32U31DNotOne n = some (n / D)

theorem CheckedUdiv.quotient {w bits D : ℕ} {info : FastUdivInfo} (h : CheckedUdiv w bits D info)
    (hw : 2 ≤ w) (hbits : bits ≤ w) (hn : n < 2 ^ bits) : info.Quotient w bits D n := by
  refine ⟨h.exact.widening_eq hbits hn, ?_, ?_, ?_, ?_⟩
  · intro hD
    exact (h.exact.divides (h.saturates hD) hw hbits).saturating_eq h.exact.increment hbits hn
  · rintro rfl
    exact h.exact.fastUdiv32_eq hbits hn
  · rintro rfl hmax
    exact h.exact.fastUdiv32Nuw_eq hbits hn hmax
  · rintro rfl rfl hD -
    obtain ⟨hpre, hinc⟩ := h.plain (by omega) (by omega)
    exact h.exact.fastUdiv32U31DNotOne_eq hpre hinc hbits hn

/-- In registers of 8, 16, 32 and 64 bits, the constants of all divisors are found, no shift is as
long as a register, and all sequences give the quotient. -/
theorem fastIdiv_quotient (w : ℕ) (hw : w = 8 ∨ w = 16 ∨ w = 32 ∨ w = 64) :
    (∀ bits D, 0 < bits → bits ≤ w → 0 < D → D < 2 ^ w →
      ∃ info, checkedUdivInfo D bits w = some info ∧ info.preShift < w ∧ info.postShift < w ∧
        ∀ n < 2 ^ bits, info.Quotient w bits D n) ∧
    (∀ D : ℤ, 2 ≤ D.natAbs → -2 ^ (w - 1) < D → D < 2 ^ (w - 1) →
      ∃ info, checkedSdivInfo D w = some info ∧ info.shift < w ∧
        ∀ n : ℤ, -2 ^ (w - 1) ≤ n → n < 2 ^ (w - 1) → info.rounding w D n = n.tdiv D) := by
  constructor
  · intro bits D hbits0 hbits hpos hlt
    obtain ⟨info, heq, h⟩ := checkedUdivInfo_spec (show 2 ≤ w by omega) (by omega) hbits0 hbits hpos hlt
    exact ⟨info, heq, h.exact.preShift, h.exact.postShift, fun n hn => h.quotient (by omega) hbits hn⟩
  · intro D hD hge hlt
    have habs : D.natAbs < 2 ^ (w - 1) := by
      have hcast : ((2 ^ (w - 1) : ℕ) : ℤ) = 2 ^ (w - 1) := cast_pow 2 _
      omega
    obtain ⟨info, heq, h⟩ := checkedSdivInfo_divides (show 3 ≤ w by omega) (by omega) hD habs
    exact ⟨info, heq, h.shift, fun n hn hn' => h.rounding_eq hD (by omega) hn hn'⟩

/-- Seven is rounded down in 32-bit registers. -/
theorem fastIdiv_quotient_seven :
    (32 = 8 ∨ 32 = 16 ∨ 32 = 32 ∨ 32 = 64) ∧
      ∃ info, checkedUdivInfo 7 32 32 = some info ∧ info.fastUdiv32 (2 ^ 32 - 1) = 613566756 := by
  refine ⟨by decide, ?_⟩
  obtain ⟨info, heq, -, -, h⟩ :=
    (fastIdiv_quotient 32 (by decide)).1 32 7 (by decide) (by decide) (by decide) (by decide)
  exact ⟨info, heq, (h (2 ^ 32 - 1) (by decide)).udiv32 rfl⟩

end RadvXclipse.Util
