import RadvXclipse.Util.FastUdiv
import Mathlib.Algebra.Order.Ring.Abs

/-!
# Magic numbers for signed divisions are right

`util_compute_fast_sdiv_info` tries the powers `2 ^ p` for `p = w, w + 1, ...`. With `d` the
absolute value of the divisor and `nc` the largest dividend whose remainder is `d - 1`, it ends at
the first `p` with `nc * (d - 2 ^ p % d) < 2 ^ p`. The product with `2 ^ p / d + 1` then gives the
quotient, rounded down: one is added if it is negative.
-/

namespace RadvXclipse.Util

open Lib Nat

/-! ## The search -/

lemma sdivDouble_eq {b x : ℕ} (hb : 0 < b) (hlt : b ≤ 2 ^ 63) (hq : 2 * x / b < 2 ^ 64) :
    sdivDouble b (x / b) (x % b) = (2 * x / b, 2 * x % b) := by
  have hr : x % b < b := mod_lt x hb
  obtain ⟨hwrap, hstay⟩ := two_mul_div_mod x hb
  unfold sdivDouble
  dsimp only
  split
  · obtain ⟨hq', hm⟩ := hwrap (by omega)
    rw [hq', hm, mod_eq_of_lt (by omega), add64_of_lt (by omega), sub64_of_le (by omega) (by omega)]
    apply Prod.ext
    · dsimp only
      omega
    · dsimp only
      omega
  · obtain ⟨hq', hm⟩ := hstay (by omega)
    apply Prod.ext
    · dsimp only
      omega
    · dsimp only
      omega

/-- The loop ends at this power. -/
def SdivStop (d nc p : ℕ) : Prop := nc * (d - 2 ^ p % d) < 2 ^ p

/-- The test of the loop, which compares quotients, says the same. -/
theorem not_sdivStop_iff {d nc p : ℕ} (hnc : 0 < nc) :
    (2 ^ p / nc < d - 2 ^ p % d ∨ (2 ^ p / nc = d - 2 ^ p % d ∧ 2 ^ p % nc = 0)) ↔ ¬ SdivStop d nc p := by
  have hsplit := div_add_mod (2 ^ p) nc
  have hr : 2 ^ p % nc < nc := mod_lt _ hnc
  unfold SdivStop
  generalize d - 2 ^ p % d = δ
  constructor
  · intro h
    rcases h with h | ⟨h, hzero⟩
    · have hle : nc * (2 ^ p / nc + 1) ≤ nc * δ := Nat.mul_le_mul_left nc h
      rw [mul_add] at hle
      omega
    · rw [← h]
      omega
  · intro h
    by_contra hnot
    rw [not_or, not_lt] at hnot
    rcases Nat.lt_or_eq_of_le hnot.1 with hlt | heq
    · have hle : nc * (δ + 1) ≤ nc * (2 ^ p / nc) := Nat.mul_le_mul_left nc hlt
      rw [mul_add] at hle
      omega
    · have hzero : 2 ^ p % nc = 0 := by
        rw [← heq] at hsplit
        omega
      exact hnot.2 ⟨heq.symm, hzero⟩

/-- The loop ends at the first power that works; it is at most `2 ^ last`. -/
theorem sdivLoop_spec {d nc : ℕ} {last : ℕ} (hd : 0 < d) (hd63 : d < 2 ^ 63) (hnc : 0 < nc)
    (hnc63 : nc ≤ 2 ^ 63)
    (hlast : SdivStop d nc last) (hquot : 2 ^ last / d < 2 ^ 64) {fuel p : ℕ} (hp : p < last)
    (hfuel : last ≤ fuel + p) (hq : 2 ^ p / nc < 2 ^ 63) :
    ∃ p', sdivLoop d nc fuel p (2 ^ p / nc) (2 ^ p % nc) (2 ^ p / d) (2 ^ p % d) = some (p', 2 ^ p' / d) ∧
      p < p' ∧ p' ≤ last ∧ SdivStop d nc p' ∧ ∀ i, p < i → i < p' → ¬ SdivStop d nc i := by
  induction fuel generalizing p with
  | zero => omega
  | succ fuel ih =>
    have hpow : 2 * 2 ^ p = 2 ^ (p + 1) := (pow_succ' 2 p).symm
    have hr : 2 ^ (p + 1) % d < d := mod_lt _ hd
    have hfirst : sdivDouble nc (2 ^ p / nc) (2 ^ p % nc) = (2 ^ (p + 1) / nc, 2 ^ (p + 1) % nc) := by
      rw [← hpow]
      apply sdivDouble_eq hnc hnc63
      rw [Nat.div_lt_iff_lt_mul hnc] at hq ⊢
      omega
    have hsecond : sdivDouble d (2 ^ p / d) (2 ^ p % d) = (2 ^ (p + 1) / d, 2 ^ (p + 1) % d) := by
      rw [← hpow]
      apply sdivDouble_eq hd hd63.le
      rw [hpow]
      exact lt_of_le_of_lt (Nat.div_le_div_right (Nat.pow_le_pow_right (by omega) hp)) hquot
    unfold sdivLoop
    dsimp only
    rw [hfirst, hsecond, sub64_of_le hr.le (by omega)]
    by_cases hstop : SdivStop d nc (p + 1)
    · rw [if_neg fun h => (not_sdivStop_iff hnc).mp h hstop]
      exact ⟨p + 1, rfl, lt_succ_self p, hp, hstop, fun i hi hi' => by omega⟩
    · rw [if_pos ((not_sdivStop_iff hnc).mpr hstop)]
      have hne : p + 1 ≠ last := fun h => hstop (h ▸ hlast)
      -- the loop goes on, so the first quotient is still below the divisor
      have hq' : 2 ^ (p + 1) / nc < 2 ^ 63 := by
        unfold SdivStop at hstop
        rw [not_lt] at hstop
        have hle : 2 ^ (p + 1) / nc ≤ d - 2 ^ (p + 1) % d := by
          apply Nat.div_le_of_le_mul
          exact hstop
        omega
      obtain ⟨p', heq, hlt, hle, hstop', hbefore⟩ := ih (show p + 1 < last by omega) (by omega) hq'
      refine ⟨p', heq, by omega, hle, hstop', ?_⟩
      intro i hi hi'
      rcases Nat.lt_or_eq_of_le (show p + 1 ≤ i from hi) with hlt' | rfl
      · exact hbefore i hlt' hi'
      · exact hstop

/-! ## The test numerator -/

section Numerator

variable {d T : ℕ}

/-- The largest number below `T` whose remainder is `d - 1`. -/
def testNumer (d T : ℕ) : ℕ := T - 1 - T % d

lemma testNumer_facts (hd : 0 < d) (hT : d ≤ T) :
    testNumer d T + 1 + T % d = T ∧ (testNumer d T + 1) % d = 0 ∧ d - 1 ≤ testNumer d T := by
  have hsplit := div_add_mod T d
  have hquot : d * 1 ≤ d * (T / d) := Nat.mul_le_mul_left d (Nat.div_pos hT hd)
  have hsucc : testNumer d T + 1 = d * (T / d) := by
    unfold testNumer
    omega
  refine ⟨by omega, ?_, by omega⟩
  rw [hsucc]
  exact mul_mod_right d _

/-- The error of the product is small enough for all dividends up to the test numerator, and for the
next ones, as their remainders are smaller. -/
theorem error_lt {P δ k : ℕ} (hd : 0 < d) (hT : d ≤ T) (hstop : testNumer d T * δ < P)
    (hk : k + 1 < testNumer d T + 1 + d) : k % d * P + k * δ < d * P := by
  obtain ⟨_, hmod, hge⟩ := testNumer_facts hd hT
  generalize testNumer d T = nc at hstop hk hmod hge
  rcases lt_or_ge nc k with hlt | hle
  · -- `k` is in the row after the test numerator
    have hrem : k % d = k - (nc + 1) := by
      have hk' : k = nc + 1 + (k - (nc + 1)) := by omega
      rw [hk', add_mod, hmod, zero_add, mod_mod, mod_eq_of_lt (by omega)]
      omega
    have herr : (k - nc) * δ ≤ nc * δ := Nat.mul_le_mul_right δ (by omega)
    have hsum : k * δ = nc * δ + (k - nc) * δ := by
      rw [← add_mul]
      congr 1
      omega
    have hrow : (k % d + 2) * P ≤ d * P := Nat.mul_le_mul_right P (by omega)
    rw [add_mul] at hrow
    omega
  · have herr : k * δ ≤ nc * δ := Nat.mul_le_mul_right δ hle
    have hrow : (k % d + 1) * P ≤ d * P := Nat.mul_le_mul_right P (mod_lt k hd)
    rw [add_mul] at hrow
    omega

end Numerator

/-! ## Quotients -/

/-- A product that is negative is rounded away from zero. -/
theorem neg_ediv_of_lt_of_le {a q P : ℕ} (hlt : q * P < a) (hle : a ≤ (q + 1) * P) :
    -(a : ℤ) / (P : ℤ) = -((q : ℤ) + 1) := by
  have hP : (0 : ℤ) < P := by
    have hpos : 0 < P := pos_of_ne_zero fun hzero => by
      rw [hzero, mul_zero] at hle
      omega
    exact_mod_cast hpos
  apply le_antisymm
  · apply Int.le_of_lt_add_one
    rw [Int.ediv_lt_iff_lt_mul hP]
    linarith
  · rw [Int.le_ediv_iff_mul_le hP]
    linarith

/-- What the search finds: the product with `m`, divided by `P`, is the quotient of all dividends
below `T`, and the quotient of `T` itself is not too large. -/
structure SdivMagic (d T P m : ℕ) : Prop where
  quotient : ∀ k < T, k * m / P = k / d
  lower : ∀ k, 0 < k → k / d * P < k * m
  upper : ∀ k < T, k * m ≤ (k / d + 1) * P

section Magic

variable {d T p : ℕ}

lemma sdivMagic_of_stop (hd : 0 < d) (hT : d ≤ T) (hstop : SdivStop d (testNumer d T) p) :
    SdivMagic d T (2 ^ p) (2 ^ p / d + 1) := by
  obtain ⟨hmul, hpos⟩ := two_pow_div_succ_mul hd p
  have hrow : ∀ k < T, k % d * 2 ^ p + k * (d - 2 ^ p % d) < d * 2 ^ p := by
    intro k hk
    apply error_lt hd hT hstop
    have hfacts := (testNumer_facts hd hT).1
    have hr : T % d < d := mod_lt T hd
    omega
  exact ⟨fun k hk => mul_div_eq_of_up hmul (hrow k hk), fun k hk => lt_mul_of_up hmul hk hpos,
    fun k hk => mul_le_of_up hd hmul (hrow k hk).le⟩

/-- The most negative dividend. If its remainder is the largest one, the search has ended at
once. -/
theorem mul_le_of_two_pow {w : ℕ} (hw : 0 < w) (hd : 2 ≤ d) (hT : d ≤ 2 ^ (w - 1)) (hp : w ≤ p)
    (hstop : SdivStop d (testNumer d (2 ^ (w - 1))) p)
    (hfirst : ∀ i, w ≤ i → i < p → ¬ SdivStop d (testNumer d (2 ^ (w - 1))) i) :
    2 ^ (w - 1) * (2 ^ p / d + 1) ≤ (2 ^ (w - 1) / d + 1) * 2 ^ p := by
  have hd0 : 0 < d := by omega
  have hfacts := testNumer_facts hd0 hT
  have hr : 2 ^ (w - 1) % d < d := mod_lt _ hd0
  apply mul_le_of_up hd0 (two_pow_div_succ_mul hd0 p).1
  by_cases hlast : 2 ^ (w - 1) % d = d - 1
  · have hdouble : 2 ^ w = 2 * 2 ^ (w - 1) := (mul_pow_sub_one (by omega) 2).symm
    have hmod : 2 ^ w % d = d - 2 := by
      have hwrap := ((two_mul_div_mod (2 ^ (w - 1)) hd0).1 (by omega)).2
      rw [hdouble, hwrap]
      omega
    have hdelta : d - 2 ^ w % d = 2 := by omega
    have hstopw : SdivStop d (testNumer d (2 ^ (w - 1))) w := by
      unfold SdivStop
      rw [hdelta, hdouble]
      omega
    have hpw : p = w := by
      by_contra hne
      exact hfirst w (le_refl w) (by omega) hstopw
    rw [hpw, hlast, hdelta, hdouble, Nat.sub_mul]
    have hle : 1 * (2 * 2 ^ (w - 1)) ≤ d * (2 * 2 ^ (w - 1)) := Nat.mul_le_mul_right _ (by omega)
    omega
  · exact (error_lt hd0 hT hstop (by omega)).le

end Magic

/-! ## The result -/

lemma signExtend_eq {m w : ℕ} (hw : 0 < w) (hm : m < 2 ^ w) :
    signExtend m w = if m < 2 ^ (w - 1) then (m : ℤ) else (m : ℤ) - 2 ^ w := by
  have hdouble : 2 ^ w = 2 * 2 ^ (w - 1) := (mul_pow_sub_one (by omega) 2).symm
  unfold signExtend
  rw [BitVec.toInt_eq_toNat_cond, BitVec.toNat_ofNat, mod_eq_of_lt hm]
  apply if_congr _ rfl rfl
  omega

/-- Where the search ends. -/
structure SearchEnd (w d T p : ℕ) : Prop where
  ge : w ≤ p
  lt : p - w < w
  stop : SdivStop d (testNumer d T) p
  first : ∀ i, w ≤ i → i < p → ¬ SdivStop d (testNumer d T) i
  multiplier_lt : 2 ^ p / d + 1 < 2 ^ w
  multiplier_ne : 2 ^ p / d + 1 ≠ 2 ^ (w - 1)

section Result

variable {w d T : ℕ}

/-- Half of the range is never the multiplier: the error would be a multiple of it. -/
theorem two_pow_div_succ_ne {p : ℕ} (hd : 0 < d) (hlt : d < 2 ^ (w - 1)) (hp : w ≤ p) :
    2 ^ p / d + 1 ≠ 2 ^ (w - 1) := by
  intro hhalf
  obtain ⟨hprod, hpos⟩ := two_pow_div_succ_mul hd p
  rw [hhalf] at hprod
  have hdvd : 2 ^ (w - 1) ∣ d - 2 ^ p % d := by
    rw [← Nat.dvd_add_right (pow_dvd_pow 2 (show w - 1 ≤ p by omega)), ← hprod]
    exact dvd_mul_right _ _
  have hle := le_of_dvd hpos hdvd
  omega

/-- A search that can stop at `2 ^ last`, where the multiplier still has `w` bits. -/
structure SearchBound (w d nc last : ℕ) : Prop where
  stop : SdivStop d nc last
  ge : w ≤ last
  lt : last < w + w
  multiplier_lt : ∀ p, w ≤ p → p ≤ last → 2 ^ p / d + 1 < 2 ^ w

/-- A divisor of `c` bits that is not a power of two. -/
theorem searchBound_of_ne (hw : 3 ≤ w) (hw64 : w ≤ 64) (hd : 2 ≤ d) (hlt : d < 2 ^ (w - 1))
    (hpow : ∀ k, d ≠ 2 ^ k)
    {nc : ℕ} (hnc : nc ≤ 2 ^ (w - 1)) : SearchBound w d nc (w - 1 + ceilLog2 64 d) := by
  have h63 : 2 ^ (w - 1) ≤ 2 ^ 63 := Nat.pow_le_pow_right (by omega) (by omega)
  obtain ⟨hcpos, hlo, hhi⟩ := ceilLog2_bounds (show 0 < d by omega) (by omega) hpow
  have hc := (ceilLog2_le_iff (show d < 2 ^ 64 by omega)).mpr hlt
  refine ⟨?_, by omega, by omega, ?_⟩
  · unfold SdivStop
    calc nc * (d - 2 ^ (w - 1 + ceilLog2 64 d) % d) ≤ 2 ^ (w - 1) * d := Nat.mul_le_mul hnc (sub_le _ _)
      _ < 2 ^ (w - 1) * 2 ^ ceilLog2 64 d := Nat.mul_lt_mul_of_pos_left hhi (Nat.two_pow_pos _)
      _ = 2 ^ (w - 1 + ceilLog2 64 d) := (pow_add 2 _ _).symm
  · intro p hge hle
    have hsplit : p = w + (p - w) := by omega
    rw [hsplit]
    exact two_pow_div_succ_lt hlo (by omega) (by omega) (by omega)

/-- A power of two. -/
theorem searchBound_two_pow {k : ℕ} (hw : 3 ≤ w) (hk : 0 < k) (hlt : k < w - 1) {nc : ℕ}
    (hnc : nc < 2 ^ (w - 1)) :
    SearchBound w (2 ^ k) nc (w - 1 + k) := by
  refine ⟨?_, by omega, by omega, ?_⟩
  · unfold SdivStop
    calc nc * (2 ^ k - 2 ^ (w - 1 + k) % 2 ^ k) ≤ nc * 2 ^ k := Nat.mul_le_mul_left nc (sub_le _ _)
      _ < 2 ^ (w - 1) * 2 ^ k := Nat.mul_lt_mul_of_pos_right hnc (Nat.two_pow_pos k)
      _ = 2 ^ (w - 1 + k) := (pow_add 2 _ _).symm
  · intro p hge hle
    have hone : 1 < 2 ^ (w - 1) := Nat.one_lt_two_pow (by omega)
    have hpow : 2 ^ (p - k) ≤ 2 ^ (w - 1) := Nat.pow_le_pow_right (by omega) (by omega)
    have hdouble : 2 ^ w = 2 * 2 ^ (w - 1) := (mul_pow_sub_one (by omega) 2).symm
    rw [Nat.pow_div (by omega) (by omega)]
    omega

section

variable (hw : 3 ≤ w) (hw64 : w ≤ 64) (hd : 2 ≤ d) (hlt : d < 2 ^ (w - 1))
  (hT : T = 2 ^ (w - 1) ∨ T = 2 ^ (w - 1) + 1)
include hw hw64 hd hlt hT

/-- The bounds of the test numerators. -/
theorem searchBound_testNumer :
    2 ≤ testNumer d T ∧ testNumer d T ≤ 2 ^ (w - 1) ∧ ∃ last, SearchBound w d (testNumer d T) last := by
  have hd0 : 0 < d := by omega
  have hfacts := testNumer_facts hd0 (show d ≤ T by omega)
  by_cases hpow : ∃ k, d = 2 ^ k
  · obtain ⟨k, rfl⟩ := hpow
    have hk : k < w - 1 := (Nat.pow_lt_pow_iff_right (by omega)).mp hlt
    have hk0 : 0 < k := pos_of_ne_zero fun hzero => by simp [hzero] at hd
    have hdvd : 2 ^ (w - 1) % 2 ^ k = 0 := mod_eq_zero_of_dvd (pow_dvd_pow 2 hk.le)
    -- both bounds of the dividends give the same numerator
    have hmod : T % 2 ^ k + 2 ^ (w - 1) = T := by
      rcases hT with rfl | rfl
      · omega
      · rw [add_mod, hdvd, zero_add, mod_mod, mod_eq_of_lt (by omega)]
        omega
    exact ⟨by omega, by omega, _, searchBound_two_pow hw hk0 hk (by omega)⟩
  · rw [not_exists] at hpow
    have hne2 := hpow 1
    exact ⟨by omega, by omega, _, searchBound_of_ne hw hw64 hd hlt hpow (by omega)⟩

lemma sdivLoop_end :
    ∃ p, sdivLoop d (testNumer d T) w (w - 1) (2 ^ (w - 1) / testNumer d T) (2 ^ (w - 1) % testNumer d T)
        (2 ^ (w - 1) / d) (2 ^ (w - 1) % d) = some (p, 2 ^ p / d) ∧ SearchEnd w d T p := by
  have h63 : 2 ^ (w - 1) ≤ 2 ^ 63 := Nat.pow_le_pow_right (by omega) (by omega)
  have hwpow : 2 ^ w ≤ 2 ^ 64 := Nat.pow_le_pow_right (by omega) hw64
  have hd0 : 0 < d := by omega
  obtain ⟨hnc, hnc', last, hlast⟩ := searchBound_testNumer hw hw64 hd hlt hT
  have hge := hlast.ge
  have hlt2 := hlast.lt
  have hquot : 2 ^ last / d < 2 ^ 64 := by
    have h := hlast.multiplier_lt last hge (le_refl last)
    omega
  have hinit : 2 ^ (w - 1) / testNumer d T < 2 ^ 63 := by
    rw [Nat.div_lt_iff_lt_mul (by omega)]
    omega
  rcases @sdivLoop_spec d (testNumer d T) _ hd0 (by omega) (by omega) (by omega) hlast.stop hquot w (w - 1)
    (by omega) (by omega) hinit with ⟨p, heq, hlt', hle, hstop, hfirst⟩
  have hwp : w ≤ p := by omega
  exact ⟨p, heq, hwp, by omega, hstop, fun i hi => hfirst i (by omega),
    hlast.multiplier_lt p hwp hle, two_pow_div_succ_ne hd0 hlt hwp⟩

end

/-- The bound of the absolute values of the dividends: a negative divisor has one more. -/
def dividendBound (D : ℤ) (w : ℕ) : ℕ := 2 ^ (w - 1) + if D < 0 then 1 else 0

/-- What `util_compute_fast_sdiv_info` returns. -/
theorem computeFastSdivInfo_eq {D : ℤ} (hw : 3 ≤ w) (hw64 : w ≤ 64) (hd : 2 ≤ D.natAbs)
    (hlt : D.natAbs < 2 ^ (w - 1)) :
    ∃ p, computeFastSdivInfo D w =
        some ⟨if D < 0 then -signExtend (2 ^ p / D.natAbs + 1) w
          else signExtend (2 ^ p / D.natAbs + 1) w, p - w⟩ ∧
      SearchEnd w D.natAbs (dividendBound D w) p := by
  have hbound : dividendBound D w = 2 ^ (w - 1) ∨ dividendBound D w = 2 ^ (w - 1) + 1 := by
    unfold dividendBound
    split
    · exact .inr rfl
    · exact .inl rfl
  obtain ⟨p, heq, hend⟩ := sdivLoop_end hw hw64 hd hlt hbound
  have hwpow : 2 ^ w ≤ 2 ^ 64 := Nat.pow_le_pow_right (by omega) hw64
  have hmul := hend.multiplier_lt
  have hadd : add64 (2 ^ p / D.natAbs) 1 = 2 ^ p / D.natAbs + 1 := add64_of_lt (by omega)
  refine ⟨p, ?_, hend⟩
  unfold computeFastSdivInfo
  unfold testNumer dividendBound at heq
  dsimp only
  rw [heq, Option.bind_some, hadd, checkedSignExtend, if_pos (.inr hmul), Option.map_some]

end Result

/-! ## Integers -/

/-- The high part of the product with the corrections for the multipliers that do not fit. -/
def FastSdivInfo.high (info : FastSdivInfo) (w : ℕ) (D n : ℤ) : ℤ :=
  n * info.multiplier / 2 ^ w + (if 0 < D ∧ info.multiplier < 0 then n else 0) -
    (if D < 0 ∧ 0 < info.multiplier then n else 0)

/-- The quotient of `n` as the product, the shift and the addition of the sign bit compute it. -/
def FastSdivInfo.quotient (info : FastSdivInfo) (w : ℕ) (D n : ℤ) : ℤ :=
  info.high w D n / 2 ^ info.shift + if info.high w D n / 2 ^ info.shift < 0 then 1 else 0

/-- The constants fit the instructions and divide all dividends by `D`. -/
structure FastSdivInfo.Divides (info : FastSdivInfo) (w : ℕ) (D : ℤ) : Prop where
  shift : info.shift < w
  multiplier_ge : -2 ^ (w - 1) ≤ info.multiplier
  multiplier_lt : info.multiplier < 2 ^ (w - 1)
  high : ∀ n : ℤ, -2 ^ (w - 1) ≤ n → n < 2 ^ (w - 1) →
    -2 ^ (w - 1) ≤ info.high w D n ∧ info.high w D n < 2 ^ (w - 1)
  quotient : ∀ n : ℤ, -2 ^ (w - 1) ≤ n → n < 2 ^ (w - 1) → info.quotient w D n = n.tdiv D

section Integers

variable {w m : ℕ} {D n : ℤ}

/-- The multiplier with the sign of the divisor. -/
def signedMultiplier (D : ℤ) (m : ℕ) : ℤ := if D < 0 then -(m : ℤ) else m

/-- The corrections undo the reduction of the multiplier to `w` bits. -/
theorem high_eq {s : ℕ} (hw : 0 < w) (hm : m < 2 ^ w) (hpos : 0 < m) (hD : D ≠ 0) :
    (FastSdivInfo.mk (if D < 0 then -signExtend m w else signExtend m w) s).high w D n =
      n * signedMultiplier D m / 2 ^ w := by
  have hP : (2 : ℤ) ^ w ≠ 0 := by positivity
  have hm' : (m : ℤ) < 2 ^ w := by exact_mod_cast hm
  unfold FastSdivInfo.high signedMultiplier
  dsimp only
  rw [signExtend_eq hw hm]
  by_cases hneg : D < 0
  · rw [if_pos hneg, if_pos hneg, if_neg (show ¬ (0 < D ∧ _) from fun h => by omega), add_zero]
    by_cases hlow : m < 2 ^ (w - 1)
    · rw [if_pos hlow, if_neg (by omega), sub_zero]
    · rw [if_neg hlow, if_pos ⟨hneg, by omega⟩]
      have hexp : n * -((m : ℤ) - 2 ^ w) = n * -(m : ℤ) + n * 2 ^ w := by ring
      rw [hexp, Int.add_mul_ediv_right _ _ hP, add_sub_cancel_right]
  · rw [if_neg hneg, if_neg hneg, if_neg (show ¬ (D < 0 ∧ _) from fun h => hneg h.1), sub_zero]
    by_cases hlow : m < 2 ^ (w - 1)
    · rw [if_pos hlow, if_neg (by omega), add_zero]
    · rw [if_neg hlow, if_pos ⟨by omega, by omega⟩]
      have hexp : n * ((m : ℤ) - 2 ^ w) = n * m + -n * 2 ^ w := by ring
      rw [hexp, Int.add_mul_ediv_right _ _ hP, neg_add_cancel_right]

/-- A product that is not negative. -/
theorem round_of_nonneg {d T P k : ℕ} (h : SdivMagic d T P m) (hk : k < T) :
    ((k * m : ℕ) : ℤ) / (P : ℤ) + (if ((k * m : ℕ) : ℤ) / (P : ℤ) < 0 then 1 else 0) = ((k / d : ℕ) : ℤ) := by
  have hquot : ((k * m : ℕ) : ℤ) / (P : ℤ) = ((k / d : ℕ) : ℤ) := by
    rw [← Int.natCast_ediv, h.quotient k hk]
  rw [hquot, if_neg (not_lt.mpr (Int.natCast_nonneg _)), add_zero]

/-- A product that is negative. -/
theorem round_of_neg {d T P k : ℕ} (h : SdivMagic d T P m) (hk : 0 < k) (hle : k * m ≤ (k / d + 1) * P) :
    -((k * m : ℕ) : ℤ) / (P : ℤ) + (if -((k * m : ℕ) : ℤ) / (P : ℤ) < 0 then 1 else 0) =
      -((k / d : ℕ) : ℤ) := by
  have hnonneg : (0 : ℤ) ≤ ((k / d : ℕ) : ℤ) := Int.natCast_nonneg _
  rw [neg_ediv_of_lt_of_le (h.lower k hk) hle]
  generalize ((k / d : ℕ) : ℤ) = q at hnonneg
  omega

/-- A quotient is that of the absolute values, with the sign of the quotient. -/
theorem tdiv_eq_natAbs (x d : ℤ) :
    x.tdiv d = if (x < 0 ↔ d < 0) then ((x.natAbs / d.natAbs : ℕ) : ℤ)
      else -((x.natAbs / d.natAbs : ℕ) : ℤ) := by
  cases x <;> cases d <;> split <;> first | rfl | grind

lemma mul_signedMultiplier (n D : ℤ) (m : ℕ) :
    n * signedMultiplier D m = if (n < 0 ↔ D < 0) then ((n.natAbs * m : ℕ) : ℤ)
      else -((n.natAbs * m : ℕ) : ℤ) := by
  unfold signedMultiplier
  push_cast
  rcases abs_cases n with ⟨hn, _⟩ | ⟨hn, _⟩ <;> rw [hn] <;> split_ifs <;> first | omega | ring

/-- The rounded product is the quotient, rounded towards zero. -/
theorem round_eq_tdiv {P : ℕ} (h : SdivMagic D.natAbs (dividendBound D w) P m)
    (hmost : ¬ D < 0 → 2 ^ (w - 1) * m ≤ (2 ^ (w - 1) / D.natAbs + 1) * P) (hge : -2 ^ (w - 1) ≤ n)
    (hlt : n < 2 ^ (w - 1)) :
    n * signedMultiplier D m / P + (if n * signedMultiplier D m / P < 0 then 1 else 0) = n.tdiv D := by
  have hcast : ((2 ^ (w - 1) : ℕ) : ℤ) = 2 ^ (w - 1) := cast_pow 2 _
  have hbound : dividendBound D w = 2 ^ (w - 1) + if D < 0 then 1 else 0 := rfl
  rw [mul_signedMultiplier, tdiv_eq_natAbs]
  split
  · exact round_of_nonneg h (by split at hbound <;> omega)
  · rcases n.natAbs.eq_zero_or_pos with hn | hn
    · simp [hn]
    apply round_of_neg h hn
    -- the most negative dividend, with a positive divisor, is past the bound
    by_cases hk : n.natAbs = 2 ^ (w - 1) ∧ ¬ D < 0
    · exact hk.1 ▸ hmost hk.2
    · exact h.upper _ (by split at hbound <;> omega)

/-- The high part of a product with a multiplier of `w` bits has `w` bits. -/
theorem high_bounds (hm : m < 2 ^ w) (hge : -2 ^ (w - 1) ≤ n) (hlt : n < 2 ^ (w - 1)) :
    -2 ^ (w - 1) ≤ n * signedMultiplier D m / 2 ^ w ∧ n * signedMultiplier D m / 2 ^ w < 2 ^ (w - 1) := by
  have hP : (0 : ℤ) < 2 ^ w := by positivity
  have hT : (0 : ℤ) < 2 ^ (w - 1) := by positivity
  have hm' : (m : ℤ) < 2 ^ w := by exact_mod_cast hm
  have habs : |n * signedMultiplier D m| < 2 ^ (w - 1) * 2 ^ w := by
    have hn : |n| ≤ 2 ^ (w - 1) := abs_le.mpr ⟨hge, hlt.le⟩
    have hmu : |signedMultiplier D m| = m := by
      unfold signedMultiplier
      split
      · rw [abs_neg, abs_cast]
      · rw [abs_cast]
    rw [abs_mul, hmu]
    calc |n| * m ≤ 2 ^ (w - 1) * m := mul_le_mul_of_nonneg_right hn (by omega)
      _ < 2 ^ (w - 1) * 2 ^ w := mul_lt_mul_of_pos_left hm' hT
  rw [abs_lt] at habs
  constructor
  · rw [Int.le_ediv_iff_mul_le hP]
    linarith [habs.1]
  · rw [Int.ediv_lt_iff_lt_mul hP]
    exact habs.2

/-- The multiplier fits in a signed integer of `w` bits. -/
theorem signExtend_bounds (hw : 0 < w) (hm : m < 2 ^ w) (hne : m ≠ 2 ^ (w - 1)) :
    -2 ^ (w - 1) < signExtend m w ∧ signExtend m w < 2 ^ (w - 1) := by
  have hcast : ((2 ^ (w - 1) : ℕ) : ℤ) = 2 ^ (w - 1) := cast_pow 2 _
  have hdouble : (2 : ℤ) ^ w = 2 * 2 ^ (w - 1) := (mul_pow_sub_one (by omega) 2).symm
  have hm' : (m : ℤ) < 2 ^ w := by exact_mod_cast hm
  rw [signExtend_eq hw hm]
  split
  · omega
  · omega

/-- `util_compute_fast_sdiv_info` gives constants that divide. -/
theorem computeFastSdivInfo_divides (hw : 3 ≤ w) (hw64 : w ≤ 64) (hd : 2 ≤ D.natAbs)
    (hlt : D.natAbs < 2 ^ (w - 1)) :
    ∃ info, computeFastSdivInfo D w = some info ∧ info.Divides w D := by
  obtain ⟨p, heq, hend⟩ := computeFastSdivInfo_eq hw hw64 hd hlt
  have hd0 : 0 < D.natAbs := by omega
  have hT : D.natAbs ≤ dividendBound D w := by
    unfold dividendBound
    omega
  have hmagic := sdivMagic_of_stop hd0 hT hend.stop
  have hmost : ¬ D < 0 → 2 ^ (w - 1) * (2 ^ p / D.natAbs + 1) ≤ (2 ^ (w - 1) / D.natAbs + 1) * 2 ^ p := by
    intro hD
    have hbound : dividendBound D w = 2 ^ (w - 1) := by
      unfold dividendBound
      rw [if_neg hD, add_zero]
    have hstop := hend.stop
    have hfirst := hend.first
    rw [hbound] at hstop hfirst
    exact mul_le_of_two_pow (by omega) hd hlt.le hend.ge hstop hfirst
  have hhigh : ∀ n, FastSdivInfo.high _ w D n = n * signedMultiplier D (2 ^ p / D.natAbs + 1) / 2 ^ w :=
    fun n => high_eq (s := p - w) (by omega) hend.multiplier_lt (succ_pos _) (by omega)
  have hfit := signExtend_bounds (show 0 < w by omega) hend.multiplier_lt hend.multiplier_ne
  refine ⟨_, heq, hend.lt, ?_, ?_, ?_, ?_⟩
  · dsimp only
    split
    · omega
    · omega
  · dsimp only
    split
    · omega
    · omega
  · intro n hge hlt'
    rw [hhigh]
    exact high_bounds hend.multiplier_lt hge hlt'
  · intro n hge hlt'
    unfold FastSdivInfo.quotient
    rw [hhigh]
    have hexp : (2 : ℤ) ^ w * 2 ^ (p - w) = ((2 ^ p : ℕ) : ℤ) := by
      rw [← pow_add]
      push_cast
      congr 1
      have hge' := hend.ge
      omega
    rw [Int.ediv_ediv_of_nonneg (by positivity), hexp]
    exact round_eq_tdiv hmagic hmost hge hlt'

end Integers

end RadvXclipse.Util
