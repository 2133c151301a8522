import RadvXclipse.Util.Math

/-!
# Magic numbers for divisions

The model of `src/util/fast_idiv_by_const.c`. All arithmetic is that of `uint64_t`. The loops that
double a quotient until a power of two works have fuel and give `none` without it; the fuel of the
calls is enough for all divisors that are not powers of two.
-/

namespace RadvXclipse.Util

/-- `struct util_fast_udiv_info`. -/
structure FastUdivInfo where
  multiplier : ℕ
  preShift : ℕ
  postShift : ℕ
  increment : ℕ
deriving DecidableEq

/-- `struct util_fast_sdiv_info`. -/
structure FastSdivInfo where
  multiplier : ℤ
  shift : ℕ
deriving DecidableEq

/-! ## Unsigned -/

/-- `for (tmp = D; tmp > 0; tmp >>= 1) ceil_log_2_D += 1`. -/
def ceilLog2 : (fuel tmp : ℕ) → ℕ
  | 0, _ => 0
  | fuel + 1, tmp => if tmp > 0 then 1 + ceilLog2 fuel (tmp >>> 1) else 0

/-- The quotient and the remainder for the next power of two. -/
def udivDouble (D quotient remainder : ℕ) : ℕ × ℕ :=
  if remainder ≥ sub64 D remainder then ((quotient * 2 + 1) % 2 ^ 64, sub64 (remainder * 2 % 2 ^ 64) D)
  else (quotient * 2 % 2 ^ 64, remainder * 2 % 2 ^ 64)

/-- The search for an exponent: the exponent and the quotient when the loop ends, and the multiplier
and the exponent for rounding down, if there are any. -/
def udivLoop (D extraShift ceilLog : ℕ) : (fuel exponent quotient remainder : ℕ) → Option (ℕ × ℕ) →
    Option (ℕ × ℕ × Option (ℕ × ℕ))
  | 0, _, _, _, _ => none
  | fuel + 1, exponent, quotient, remainder, down =>
    let quotient' := (udivDouble D quotient remainder).1
    let remainder' := (udivDouble D quotient remainder).2
    if exponent + extraShift ≥ ceilLog ∨ sub64 D remainder' ≤ 2 ^ (exponent + extraShift) then
      some (exponent, quotient', down)
    else
      let down' :=
        if down = none ∧ remainder' ≤ 2 ^ (exponent + extraShift) then some (quotient', exponent) else down
      udivLoop D extraShift ceilLog fuel (exponent + 1) quotient' remainder' down'

/-- `while ((shifted_D & 1) == 0)`. -/
def stripZeros : (fuel shiftedD preShift : ℕ) → ℕ × ℕ
  | 0, shiftedD, preShift => (shiftedD, preShift)
  | fuel + 1, shiftedD, preShift =>
    if shiftedD % 2 = 0 then stripZeros fuel (shiftedD >>> 1) (preShift + 1) else (shiftedD, preShift)

/-- The end of `util_compute_fast_udiv_info`, for what the loop found. -/
def udivFinish (rec : ℕ → ℕ → Option FastUdivInfo) (D numBits ceilLog exponent quotient : ℕ)
    (down : Option (ℕ × ℕ)) : Option FastUdivInfo :=
  if exponent < ceilLog then some ⟨add64 quotient 1, 0, exponent, 0⟩
  else if D % 2 = 1 then down.map fun m => ⟨m.1, 0, m.2, 1⟩
  else
    let (shiftedD, preShift) := stripZeros 64 D 0
    (rec shiftedD (numBits - preShift)).map fun info => { info with preShift := preShift }

/-- The body of `util_compute_fast_udiv_info`, with the recursive call as an argument. -/
def fastUdivInfoStep (rec : ℕ → ℕ → Option FastUdivInfo) (D numBits uintBits : ℕ) :
    Option FastUdivInfo :=
  if isPowerOfTwoOrZero64 D then
    let divShift := utilLogbase264 D
    if divShift ≠ 0 then some ⟨2 ^ (uintBits - divShift), 0, 0, 0⟩ else some ⟨2 ^ uintBits - 1, 0, 0, 1⟩
  else
    let extraShift := uintBits - numBits
    let initial := 2 ^ (uintBits - 1)
    let ceilLog := ceilLog2 64 D
    match udivLoop D extraShift ceilLog 65 0 (initial / D) (initial % D) none with
    | none => none
    | some (exponent, quotient, down) => udivFinish rec D numBits ceilLog exponent quotient down

/-- `util_compute_fast_udiv_info`. The recursive call has an odd divisor and makes no further
call. -/
def computeFastUdivInfo (D numBits uintBits : ℕ) : Option FastUdivInfo :=
  fastUdivInfoStep
    (fun D' numBits' => fastUdivInfoStep (fun _ _ => none) D' numBits' uintBits) D numBits uintBits

/-! ## Signed -/

/-- A quotient and a remainder are doubled. -/
def sdivDouble (divisor quotient remainder : ℕ) : ℕ × ℕ :=
  let quotient := quotient * 2 % 2 ^ 64
  let remainder := remainder * 2 % 2 ^ 64
  if remainder ≥ divisor then (add64 quotient 1, sub64 remainder divisor) else (quotient, remainder)

/-- The exponent and the second quotient when the loop ends. -/
def sdivLoop (absD testNumer : ℕ) :
    (fuel exponent quotient1 remainder1 quotient2 remainder2 : ℕ) → Option (ℕ × ℕ)
  | 0, _, _, _, _, _ => none
  | fuel + 1, exponent, quotient1, remainder1, quotient2, remainder2 =>
    let first := sdivDouble testNumer quotient1 remainder1
    let second := sdivDouble absD quotient2 remainder2
    let delta := sub64 absD second.2
    if first.1 < delta ∨ (first.1 = delta ∧ first.2 = 0) then
      sdivLoop absD testNumer fuel (exponent + 1) first.1 first.2 second.1 second.2
    else some (exponent + 1, second.1)

/-- `util_mask_sign_extend`. -/
def signExtend (val width : ℕ) : ℤ := (BitVec.ofNat width val).toInt

/-- `util_sign_extend`, nothing if its assertion fails. -/
def checkedSignExtend (val width : ℕ) : Option ℤ :=
  if width = 64 ∨ val < 2 ^ width then some (signExtend val width) else none

/-- `util_compute_fast_sdiv_info`. -/
def computeFastSdivInfo (D : ℤ) (sintBits : ℕ) : Option FastSdivInfo :=
  let absD := D.natAbs
  let initial := 2 ^ (sintBits - 1)
  let tmp := initial + if D < 0 then 1 else 0
  let testNumer := tmp - 1 - tmp % absD
  (sdivLoop absD testNumer sintBits (sintBits - 1) (initial / testNumer) (initial % testNumer)
    (initial / absD) (initial % absD)).bind fun r =>
      (checkedSignExtend (add64 r.2 1) sintBits).map fun multiplier =>
        ⟨if D < 0 then -multiplier else multiplier, r.1 - sintBits⟩

end RadvXclipse.Util
