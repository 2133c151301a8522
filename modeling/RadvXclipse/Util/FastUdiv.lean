import RadvXclipse.Lib.MagicDivision
import Mathlib.Data.Nat.Prime.Basic
import RadvXclipse.Util.FastIdiv

/-!
# Magic numbers for unsigned divisions are right

The search of `util_compute_fast_udiv_info` tries the powers `2 ^ (w + e)` for `e = 0, 1, ...` and
ends at the first that can be rounded up (`UpOk`). A divisor of `c` bits ends it at `c` at the
latest. If it ends before, the multiplier has `w` bits. Otherwise an odd divisor is rounded down,
which works for some smaller `e`, and an even one is made odd.
-/

namespace RadvXclipse.Util

open Lib Nat

/-! ## The small loops -/

/-- The number of bits of a divisor. -/
theorem ceilLog2_le_iff {fuel tmp m : ℕ} (h : tmp < 2 ^ fuel) : ceilLog2 fuel tmp ≤ m ↔ tmp < 2 ^ m := by
  induction fuel generalizing tmp m with
  | zero =>
    have hzero : tmp = 0 := lt_one_iff.mp h
    simp [ceilLog2, hzero]
  | succ fuel ih =>
    unfold ceilLog2
    split
    · cases m with
      | zero =>
        omega
      | succ m =>
        rw [shiftRight_eq_div_pow, pow_one, add_comm, Nat.add_le_add_iff_right, ih (by omega)]
        omega
    · have hpos := Nat.two_pow_pos m
      omega

lemma stripZeros_spec {fuel D : ℕ} (hpos : 0 < D) (h : D < 2 ^ fuel) (k : ℕ) :
    ∃ D' j, stripZeros fuel D k = (D', k + j) ∧ D = D' * 2 ^ j ∧ D' % 2 = 1 := by
  induction fuel generalizing D k with
  | zero =>
    omega
  | succ fuel ih =>
    unfold stripZeros
    split
    · have hhalf : D >>> 1 = D / 2 := by rw [shiftRight_eq_div_pow, pow_one]
      rw [hhalf]
      obtain ⟨D', j, heq, hD', hodd⟩ := ih (show 0 < D / 2 by omega) (by omega) (k + 1)
      refine ⟨D', j + 1, by rw [heq, add_right_comm, add_assoc], ?_, hodd⟩
      rw [pow_succ, ← mul_assoc, ← hD']
      omega
    · exact ⟨D, 0, rfl, by omega, by omega⟩

/-! ## The search -/

lemma udivDouble_eq {D : ℕ} (hD : 0 < D) (hlt : D < 2 ^ 64) (x : ℕ) :
    udivDouble D (x / D % 2 ^ 64) (x % D) = (2 * x / D % 2 ^ 64, 2 * x % D) := by
  have hr : x % D < D := mod_lt x hD
  obtain ⟨hwrap, hstay⟩ := two_mul_div_mod x hD
  unfold udivDouble
  rw [sub64_of_le hr.le (by omega)]
  split
  · obtain ⟨hq, hm⟩ := hwrap (by omega)
    -- a doubled remainder that does not fit is still right after the divisor is subtracted
    have hsub : sub64 (x % D * 2 % 2 ^ 64) D = 2 * (x % D) - D := by
      unfold sub64
      omega
    rw [hq, hm, hsub]
    apply Prod.ext
    · dsimp only
      omega
    · rfl
  · obtain ⟨hq, hm⟩ := hstay (by omega)
    apply Prod.ext
    · dsimp only
      omega
    · dsimp only
      omega

variable {e : ℕ} {down : Option (ℕ × ℕ)}

section Search

variable (w D extra c : ℕ)

/-- The loop ends at this exponent. -/
def UpOk (e : ℕ) : Prop := c ≤ e + extra ∨ D - 2 ^ (w + e) % D ≤ 2 ^ (e + extra)

/-- What the loop knows about rounding down before it tries an exponent. -/
def DownOk (e : ℕ) : Option (ℕ × ℕ) → Prop
  | none => ∀ i < e, ¬ 2 ^ (w + i) % D ≤ 2 ^ (i + extra)
  | some (m, i) => i < e ∧ m = 2 ^ (w + i) / D % 2 ^ 64 ∧ 2 ^ (w + i) % D ≤ 2 ^ (i + extra)

variable {w D extra c}

theorem DownOk.step (h : DownOk w D extra e down) :
    DownOk w D extra (e + 1)
      (if down = none ∧ 2 ^ (w + e) % D ≤ 2 ^ (e + extra) then some (2 ^ (w + e) / D % 2 ^ 64, e)
        else down) := by
  cases down with
  | some m =>
    exact ⟨lt_succ_of_lt h.1, h.2⟩
  | none =>
    split
    · next hcond => exact ⟨lt_succ_self e, rfl, hcond.2⟩
    · next hcond =>
      intro i hi hle
      rcases Nat.lt_succ_iff_lt_or_eq.mp hi with hlt | rfl
      · exact h i hlt hle
      · exact hcond ⟨rfl, hle⟩

/-- The loop ends at the first exponent that works. The induction is on the fuel; `e` is below the
bound `c` as long as the loop goes on. -/
theorem udivLoop_spec (hw : 0 < w) (hD : 0 < D) (hlt : D < 2 ^ 64) {fuel : ℕ}
    (hfuel : c < fuel + e) (hup : ∀ i < e, ¬ UpOk w D extra c i) (hdown : DownOk w D extra e down) :
    ∃ e' down', udivLoop D extra c fuel e (2 ^ (w - 1 + e) / D % 2 ^ 64) (2 ^ (w - 1 + e) % D) down =
        some (e', 2 ^ (w + e') / D % 2 ^ 64, down') ∧
      UpOk w D extra c e' ∧ (∀ i < e', ¬ UpOk w D extra c i) ∧ DownOk w D extra e' down' := by
  induction fuel generalizing e down with
  | zero => exact absurd (.inl (by omega)) (hup c (by omega))
  | succ fuel ih =>
    have hpow : 2 * 2 ^ (w - 1 + e) = 2 ^ (w + e) := by
      rw [← pow_succ']
      congr 1
      omega
    have hr : 2 ^ (w + e) % D < D := mod_lt _ hD
    unfold udivLoop
    rw [udivDouble_eq hD hlt, hpow]
    dsimp only
    rw [sub64_of_le hr.le (by omega)]
    split
    · next hok => exact ⟨e, down, rfl, hok, hup, hdown⟩
    · next hok =>
      have hup' : ∀ i < e + 1, ¬ UpOk w D extra c i := by
        intro i hi
        rcases Nat.lt_succ_iff_lt_or_eq.mp hi with hlt | rfl
        · exact hup i hlt
        · exact hok
      have hnext := ih (e := e + 1) (by omega) hup' hdown.step
      have hexp : w - 1 + (e + 1) = w + e := by omega
      rw [hexp] at hnext
      exact hnext

lemma UpOk.le (hup : ∀ i < e, ¬ UpOk w D extra c i) : e ≤ c := by
  by_contra hlt
  exact hup c (by omega) (.inl (by omega))

/-- If fewer bits are divided, the search ends before `c`. -/
theorem UpOk.lt (hup : ∀ i < e, ¬ UpOk w D extra c i) (hextra : 0 < extra) (hc : 0 < c) : e < c := by
  by_contra hlt
  exact hup (c - 1) (by omega) (.inl (by omega))

end Search

/-! ## Products -/

section Products

variable {w D extra c e n : ℕ}

lemma two_pow_div_succ_mul (hD : 0 < D) (p : ℕ) :
    (2 ^ p / D + 1) * D = 2 ^ p + (D - 2 ^ p % D) ∧ 0 < D - 2 ^ p % D := by
  have hdiv := div_add_mod (2 ^ p) D
  have hr : 2 ^ p % D < D := mod_lt _ hD
  have hexp : (2 ^ p / D + 1) * D = D * (2 ^ p / D) + D := by ring
  omega

/-- The multiplier that is rounded up divides the numbers of `w - extra` bits. -/
theorem mul_div_of_upOk (hD : 0 < D) (hc : D < 2 ^ c) (hup : UpOk w D extra c e) (hextra : extra ≤ w)
    (hn : n < 2 ^ (w - extra)) : n * (2 ^ (w + e) / D + 1) / 2 ^ w / 2 ^ e = n / D := by
  have hdelta : D - 2 ^ (w + e) % D ≤ 2 ^ (e + extra) := by
    rcases hup with hge | hle
    · have hpow : 2 ^ c ≤ 2 ^ (e + extra) := Nat.pow_le_pow_right (by omega) hge
      omega
    · exact hle
  have herr : n * (D - 2 ^ (w + e) % D) < 2 ^ (w + e) := by
    calc n * (D - 2 ^ (w + e) % D) ≤ n * 2 ^ (e + extra) := Nat.mul_le_mul_left n hdelta
      _ < 2 ^ (w - extra) * 2 ^ (e + extra) := Nat.mul_lt_mul_of_pos_right hn (Nat.two_pow_pos _)
      _ = 2 ^ (w + e) := by
        rw [← pow_add]
        congr 1
        omega
  have hrem : (n % D + 1) * 2 ^ (w + e) ≤ D * 2 ^ (w + e) := Nat.mul_le_mul_right _ (mod_lt n hD)
  rw [Nat.div_div_eq_div_mul, ← pow_add]
  apply mul_div_eq_of_up (two_pow_div_succ_mul hD _).1
  rw [add_mul] at hrem
  omega

/-- The multiplier that is rounded down. -/
theorem succ_mul_div_of_down (hD : 0 < D) (hpos : 0 < 2 ^ (w + e) % D) (hdown : 2 ^ (w + e) % D ≤ 2 ^ e)
    (hn : n + 1 ≤ 2 ^ w) : (n + 1) * (2 ^ (w + e) / D) / 2 ^ w / 2 ^ e = n / D := by
  have hmul : 2 ^ (w + e) / D * D + 2 ^ (w + e) % D = 2 ^ (w + e) := by
    rw [mul_comm]
    exact div_add_mod _ _
  rw [Nat.div_div_eq_div_mul, ← pow_add]
  apply succ_mul_div_eq_of_down hD hmul hpos
  calc (n + 1) * (2 ^ (w + e) % D) ≤ 2 ^ w * 2 ^ e := Nat.mul_le_mul hn hdown
    _ = 2 ^ (w + e) := (pow_add 2 w e).symm

/-- A divisor of all ones is rounded up, so the saturated increment of all ones does no harm. -/
theorem upOk_of_dvd (hlo : 2 ^ (c - 1) < D) (hc : D < 2 ^ c) (hpos : 0 < c) (hdvd : D ∣ 2 ^ w - 1) :
    UpOk w D 0 c (c - 1) := by
  have hone : 2 ^ w % D = 1 % D := by
    have hsplit : 2 ^ w = 1 + (2 ^ w - 1) := by
      have hw := Nat.two_pow_pos w
      omega
    rw [hsplit, add_mod, mod_eq_zero_of_dvd hdvd, add_zero, mod_mod]
  have hmod : 2 ^ (w + (c - 1)) % D = 2 ^ (c - 1) := by
    rw [pow_add, mul_mod, hone, ← mul_mod, one_mul, mod_eq_of_lt hlo]
  have hdouble : 2 ^ c = 2 ^ (c - 1) * 2 := (pow_sub_one_mul (by omega) 2).symm
  refine .inr ?_
  rw [hmod, add_zero]
  omega

end Products

/-! ## The result -/

/-- The quotient of `n` as the shifts, the saturated increment and the product compute it. -/
def FastUdivInfo.quotient (info : FastUdivInfo) (w n : ℕ) : ℕ :=
  min (n / 2 ^ info.preShift + info.increment) (2 ^ w - 1) * info.multiplier / 2 ^ w / 2 ^ info.postShift

/-- The constants fit the instructions and divide the numbers of `bits` bits by `D`. -/
structure FastUdivInfo.Divides (info : FastUdivInfo) (w bits D : ℕ) : Prop where
  multiplier : info.multiplier < 2 ^ w
  preShift : info.preShift < w
  postShift : info.postShift < w
  increment : info.increment < 2 ^ w
  quotient : ∀ n < 2 ^ bits, info.quotient w n = n / D

/-- The constants divide if the increment does not saturate. -/
structure FastUdivInfo.Exact (info : FastUdivInfo) (w bits D : ℕ) : Prop where
  multiplier : info.multiplier < 2 ^ w
  preShift : info.preShift < w
  postShift : info.postShift < w
  increment : info.increment ≤ 1
  quotient : ∀ n < 2 ^ bits,
    (n / 2 ^ info.preShift + info.increment) * info.multiplier / 2 ^ w / 2 ^ info.postShift = n / D

/-- An increment may saturate: the largest dividend has the quotient of the one before. -/
def FastUdivInfo.Saturates (info : FastUdivInfo) (w D : ℕ) : Prop :=
  info.increment = 1 → info.preShift = 0 ∧ ¬ D ∣ 2 ^ w - 1

section Result

variable {w bits D : ℕ}

lemma FastUdivInfo.Exact.divides {info : FastUdivInfo} (h : info.Exact w bits D)
    (hsat : info.Saturates w D) (hw : 2 ≤ w) (hbits : bits ≤ w) : info.Divides w bits D := by
  have hinc := h.increment
  have hone : 1 < 2 ^ w := Nat.one_lt_two_pow (by omega)
  refine ⟨h.multiplier, h.preShift, h.postShift, by omega, ?_⟩
  intro n hn
  have hnw : n < 2 ^ w := lt_of_lt_of_le hn (Nat.pow_le_pow_right (by omega) hbits)
  have hshift : n / 2 ^ info.preShift ≤ n := Nat.div_le_self _ _
  unfold FastUdivInfo.quotient
  by_cases hle : n / 2 ^ info.preShift + info.increment ≤ 2 ^ w - 1
  · rw [min_eq_left hle]
    exact h.quotient n hn
  · -- only the increment of the largest dividend saturates
    have hinc1 : info.increment = 1 := by omega
    obtain ⟨hpre, hndvd⟩ := hsat hinc1
    have hmax : 2 ^ w - 1 = n := by omega
    have hsplit : n = n - 1 + 1 := by omega
    have hquot := h.quotient (n - 1) (by omega)
    rw [hpre, pow_zero, Nat.div_one, hinc1, ← hsplit] at hquot
    rw [min_eq_right (by omega), hmax, hquot]
    conv_rhs => rw [hsplit]
    rw [Nat.succ_div, if_neg (by rw [← hsplit, ← hmax]; exact hndvd), add_zero]

lemma not_isPowerOfTwoOrZero64 (hpos : 0 < D) (hlt : D < 2 ^ 64) (hpow : ∀ k, D ≠ 2 ^ k) :
    ¬ isPowerOfTwoOrZero64 D = true := by
  intro h
  obtain ⟨k, hk⟩ := (isPowerOfTwoOrZero64_iff hpos hlt).mp h
  exact hpow k hk

/-- The number of bits of a divisor that is not a power of two. -/
theorem ceilLog2_bounds (hpos : 0 < D) (hlt : D < 2 ^ 64) (hpow : ∀ k, D ≠ 2 ^ k) :
    0 < ceilLog2 64 D ∧ 2 ^ (ceilLog2 64 D - 1) < D ∧ D < 2 ^ ceilLog2 64 D := by
  have hzero := @ceilLog2_le_iff 64 D 0 hlt
  have hlast := @ceilLog2_le_iff 64 D (ceilLog2 64 D - 1) hlt
  exact ⟨by omega, lt_of_le_of_ne (by omega) (hpow _).symm, (ceilLog2_le_iff hlt).mp le_rfl⟩

/-- A divisor of `w` bits that is not a power of two. -/
structure UdivArgs (w D : ℕ) : Prop where
  le_bits : 2 ≤ w
  bits_le : w ≤ 64
  pos : 0 < D
  lt : D < 2 ^ w
  ne_pow : ∀ k, D ≠ 2 ^ k

lemma UdivArgs.lt_64 (h : UdivArgs w D) : D < 2 ^ 64 :=
  lt_of_lt_of_le h.lt (Nat.pow_le_pow_right (by omega) h.bits_le)

lemma UdivArgs.ceilLog2_le (h : UdivArgs w D) : ceilLog2 64 D ≤ w := (ceilLog2_le_iff h.lt_64).mpr h.lt

/-- What the end of `util_compute_fast_udiv_info` is given: the search ended at `e`. -/
theorem fastUdivInfoStep_eq (rec : ℕ → ℕ → Option FastUdivInfo) (h : UdivArgs w D) :
    ∃ e down, fastUdivInfoStep rec D bits w =
        udivFinish rec D bits (ceilLog2 64 D) e (2 ^ (w + e) / D % 2 ^ 64) down ∧
      UpOk w D (w - bits) (ceilLog2 64 D) e ∧ (∀ i < e, ¬ UpOk w D (w - bits) (ceilLog2 64 D) i) ∧
      DownOk w D (w - bits) e down := by
  have hw := h.le_bits
  have hw64 := h.bits_le
  have hc := h.ceilLog2_le
  have hinit : 2 ^ (w - 1) / D % 2 ^ 64 = 2 ^ (w - 1) / D := by
    apply mod_eq_of_lt
    calc 2 ^ (w - 1) / D ≤ 2 ^ (w - 1) := Nat.div_le_self _ _
      _ < 2 ^ 64 := Nat.pow_lt_pow_right (by omega) (by omega)
  have hspec := udivLoop_spec (w := w) (D := D) (c := ceilLog2 64 D) (e := 0) (by omega) h.pos h.lt_64
    (show _ < 65 + 0 by omega) (fun i hi => absurd hi (Nat.not_lt_zero i))
    (show DownOk w D (w - bits) 0 none from fun i hi => absurd hi (Nat.not_lt_zero i))
  rw [add_zero, hinit] at hspec
  obtain ⟨e, down, heq, hup, hfirst, hdown⟩ := hspec
  refine ⟨e, down, ?_, hup, hfirst, hdown⟩
  unfold fastUdivInfoStep
  rw [if_neg (not_isPowerOfTwoOrZero64 h.pos h.lt_64 h.ne_pow)]
  dsimp only
  rw [heq]

/-- A search that ends early: the multiplier is rounded up. -/
theorem exact_of_up (h : UdivArgs w D) (hbits : bits ≤ w)
    (hup : UpOk w D (w - bits) (ceilLog2 64 D) e) (he : e < ceilLog2 64 D) :
    FastUdivInfo.Exact ⟨add64 (2 ^ (w + e) / D % 2 ^ 64) 1, 0, e, 0⟩ w bits D := by
  have hw' : 2 ^ w ≤ 2 ^ 64 := Nat.pow_le_pow_right (by omega) h.bits_le
  obtain ⟨_, hlo, hhi⟩ := ceilLog2_bounds h.pos h.lt_64 h.ne_pow
  have hc := h.ceilLog2_le
  have hmul : 2 ^ (w + e) / D + 1 < 2 ^ w := two_pow_div_succ_lt hlo hc h.le_bits he
  have hadd : add64 (2 ^ (w + e) / D % 2 ^ 64) 1 = 2 ^ (w + e) / D + 1 := by
    rw [mod_eq_of_lt (by omega), add64_of_lt (by omega)]
  rw [hadd]
  refine ⟨hmul, by dsimp only; omega, by dsimp only; omega, zero_le 1, ?_⟩
  intro n hn
  rw [pow_zero, Nat.div_one, add_zero]
  have hsub : w - (w - bits) = bits := by omega
  exact mul_div_of_upOk h.pos hhi hup (by omega) (by rw [hsub]; exact hn)

/-- A search for an odd divisor that does not end early has found a multiplier to round down. -/
theorem exact_of_down (h : UdivArgs w D)
    (hfirst : ∀ i < e, ¬ UpOk w D 0 (ceilLog2 64 D) i) (he : ¬ e < ceilLog2 64 D)
    (hdown : DownOk w D 0 e down) :
    ∃ m i, down = some (m, i) ∧ FastUdivInfo.Exact ⟨m, 0, i, 1⟩ w w D ∧ ¬ D ∣ 2 ^ w - 1 := by
  have hw' : 2 ^ w ≤ 2 ^ 64 := Nat.pow_le_pow_right (by omega) h.bits_le
  obtain ⟨hcpos, hlo, hhi⟩ := ceilLog2_bounds h.pos h.lt_64 h.ne_pow
  have hc := h.ceilLog2_le
  have hlast : ¬ UpOk w D 0 (ceilLog2 64 D) (ceilLog2 64 D - 1) := hfirst _ (by omega)
  -- rounding up fails at the last exponent, so rounding down works there
  have hexists : 2 ^ (w + (ceilLog2 64 D - 1)) % D ≤ 2 ^ (ceilLog2 64 D - 1 + 0) := by
    have hdouble : 2 ^ ceilLog2 64 D = 2 ^ (ceilLog2 64 D - 1) * 2 := (pow_sub_one_mul (by omega) 2).symm
    have hfail : ¬ D - 2 ^ (w + (ceilLog2 64 D - 1)) % D ≤ 2 ^ (ceilLog2 64 D - 1 + 0) :=
      fun h => hlast (.inr h)
    rw [add_zero] at hfail ⊢
    omega
  match down, hdown with
  | none, hdown => exact absurd hexists (hdown _ (by omega))
  | some (m, i), hdown =>
    obtain ⟨hi, hm, hle⟩ := hdown
    have hile := UpOk.le hfirst
    have hmul : 2 ^ (w + i) / D + 1 < 2 ^ w := two_pow_div_succ_lt hlo hc h.le_bits (by omega)
    rw [mod_eq_of_lt (by omega)] at hm
    subst hm
    have hrem : 0 < 2 ^ (w + i) % D := by
      apply pos_of_ne_zero
      intro hzero
      obtain ⟨k, -, hk⟩ := (Nat.dvd_prime_pow prime_two).mp (dvd_of_mod_eq_zero hzero)
      exact h.ne_pow k hk
    refine ⟨_, i, rfl, ⟨by dsimp only; omega, by dsimp only; omega, by dsimp only; omega, le_refl 1,
      ?_⟩, fun hdvd => hlast (upOk_of_dvd hlo hhi hcpos hdvd)⟩
    intro n hn
    rw [pow_zero, Nat.div_one]
    exact succ_mul_div_of_down h.pos hrem hle hn

/-- Constants for an odd divisor and what is left of the dividend without its low bits. -/
theorem FastUdivInfo.Exact.shift {m D' j : ℕ} (h : FastUdivInfo.Exact ⟨m, 0, e, 0⟩ w (w - j) D')
    (hj : j < w) :
    FastUdivInfo.Exact ⟨m, j, e, 0⟩ w w (D' * 2 ^ j) := by
  refine ⟨h.multiplier, hj, h.postShift, zero_le 1, ?_⟩
  intro n hn
  have hn' : n / 2 ^ j < 2 ^ (w - j) := by
    rw [Nat.div_lt_iff_lt_mul (Nat.two_pow_pos j), ← pow_add]
    have hadd : w - j + j = w := by omega
    rw [hadd]
    exact hn
  have hquot := h.quotient (n / 2 ^ j) hn'
  rw [pow_zero, Nat.div_one] at hquot
  rw [hquot, Nat.div_div_eq_div_mul, mul_comm]

variable (rec : ℕ → ℕ → Option FastUdivInfo)

/-- If fewer bits are divided, the multiplier is rounded up. -/
theorem fastUdivInfoStep_of_lt (h : UdivArgs w D) (hbits : bits < w) :
    ∃ m e, fastUdivInfoStep rec D bits w = some ⟨m, 0, e, 0⟩ ∧ FastUdivInfo.Exact ⟨m, 0, e, 0⟩ w bits D := by
  obtain ⟨e, down, heq, hup, hfirst, -⟩ := @fastUdivInfoStep_eq w bits D rec h
  have he : e < ceilLog2 64 D := UpOk.lt hfirst (by omega) (ceilLog2_bounds h.pos h.lt_64 h.ne_pow).1
  refine ⟨_, e, ?_, exact_of_up h hbits.le hup he⟩
  rw [heq]
  unfold udivFinish
  rw [if_pos he]

/-- One call of `util_compute_fast_udiv_info`, if the call that it makes for an even divisor is
right. -/
theorem fastUdivInfoStep_exact (h : UdivArgs w D) (hbits : bits ≤ w)
    (hrec : ∀ D' j, UdivArgs w D' → 0 < j → j < w →
      ∃ m e, rec D' (w - j) = some ⟨m, 0, e, 0⟩ ∧ FastUdivInfo.Exact ⟨m, 0, e, 0⟩ w (w - j) D') :
    ∃ info, fastUdivInfoStep rec D bits w = some info ∧ info.Exact w bits D ∧ info.Saturates w D := by
  rcases Nat.lt_or_eq_of_le hbits with hless | rfl
  · obtain ⟨m, e, heq, hexact⟩ := fastUdivInfoStep_of_lt rec h hless
    exact ⟨_, heq, hexact, fun h => absurd h zero_ne_one⟩
  obtain ⟨e, down, heq, hup, hfirst, hdown⟩ := @fastUdivInfoStep_eq bits bits D rec h
  rw [heq]
  unfold udivFinish
  split
  · next he => exact ⟨_, rfl, exact_of_up h hbits hup he, fun h => absurd h zero_ne_one⟩
  next he =>
  rw [Nat.sub_self] at hfirst hdown
  split
  · obtain ⟨m, i, rfl, hexact, hndvd⟩ := exact_of_down h hfirst he hdown
    exact ⟨_, rfl, hexact, fun _ => ⟨rfl, hndvd⟩⟩
  · next hodd =>
    -- the divisor without its factors of two divides what is left of the dividend
    obtain ⟨D', j, hstrip, hD', hodd'⟩ := stripZeros_spec h.pos h.lt_64 0
    rw [hstrip, zero_add]
    dsimp only
    have hj : 0 < j := by
      apply pos_of_ne_zero
      intro hzero
      rw [hzero, pow_zero, mul_one] at hD'
      omega
    have hle : D' ≤ D := by
      rw [hD']
      exact Nat.le_mul_of_pos_right D' (Nat.two_pow_pos j)
    have hjw : j < bits := by
      apply (Nat.pow_lt_pow_iff_right (show 1 < 2 by omega)).mp
      exact lt_of_le_of_lt (by rw [hD']; exact Nat.le_mul_of_pos_left _ (by omega)) h.lt
    have hargs : UdivArgs bits D' := ⟨h.le_bits, h.bits_le, by omega, lt_of_le_of_lt hle h.lt,
      fun k hk => h.ne_pow (k + j) (by rw [hD', hk, pow_add])⟩
    obtain ⟨m, e', heq', hexact⟩ := hrec D' j hargs hj hjw
    rw [heq']
    refine ⟨_, rfl, ?_, fun h => absurd h zero_ne_one⟩
    rw [hD']
    exact hexact.shift hjw

/-- `util_compute_fast_udiv_info` gives constants that divide. -/
theorem computeFastUdivInfo_divides (hw : 2 ≤ w) (hw64 : w ≤ 64) (hpos : 0 < D) (hlt : D < 2 ^ w)
    (hpow : ∀ k, D ≠ 2 ^ k) :
    ∃ info, computeFastUdivInfo D w w = some info ∧ info.Divides w w D := by
  rcases fastUdivInfoStep_exact (fun D' numBits' => fastUdivInfoStep (fun _ _ => none) D' numBits' w)
    ⟨hw, hw64, hpos, hlt, hpow⟩ (le_refl w)
    (fun D' j hargs hj hjw => fastUdivInfoStep_of_lt _ hargs (by omega)) with ⟨info, heq, hexact, hsat⟩
  exact ⟨info, heq, hexact.divides hsat hw (le_refl w)⟩

end Result

end RadvXclipse.Util
