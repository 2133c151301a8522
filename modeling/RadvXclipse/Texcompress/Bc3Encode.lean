import RadvXclipse.Lib.Fold
import RadvXclipse.Texcompress.Bits
import Mathlib.Algebra.Order.Field.Basic
import Mathlib.Algebra.Order.Field.Rat
import Mathlib.Tactic.FieldSimp

/-!
# The alpha half of the BC3 encoder

`bc_bc3_encode` of the shader. The two extremes of the alphas are the endpoints of a BC4 block, and
the index of a texel is its level on the line between them, rounded to the nearest.
-/

namespace RadvXclipse.Texcompress.Bc3

open Lib List Nat

variable (px : ℕ → BitVec 32)

/-- The alpha of a texel of `bc_px`. -/
def alpha (t : ℕ) : ℕ := (px t).toNat >>> 24

/-- `bc_dxt_put`, on `loW` and `hiW`. -/
def bcDxtPut (w : Uvec2) (off n v : ℕ) : Uvec2 :=
  (range n).foldl (fun w i =>
    if v &&& 1 <<< i ≠ 0 then
      let b := off + i
      if b ≥ 32 then { w with y := w.y ||| 1 <<< (b - 32) } else { w with x := w.x ||| 1 <<< b }
    else w) w

/-- `amin` and `amax`. -/
def extremes : ℕ × ℕ :=
  (range 16).foldl (fun m t => (min m.1 (alpha px t), max m.2 (alpha px t))) (255, 0)

/-- The compares that stand for a division; the state is `q` and `thr`. -/
def countThresholds (num rng : ℕ) : ℕ :=
  ((range 7).foldl (fun (st : ℕ × ℕ) _ => (st.1 + if num ≥ st.2 then 1 else 0, st.2 + rng)) (0, rng)).1

/-- The index of a texel. -/
def index (amin rng t : ℕ) : ℕ :=
  let num := (alpha px t - amin) * 7 + rng / 2
  let q := countThresholds num rng
  if q = 7 then 0 else if q = 0 then 1 else 8 - q

/-- The alpha half of `bc_bc3_encode`. -/
def bcBc3EncodeAlpha : Uvec2 :=
  let amin := (extremes px).1
  let amax := (extremes px).2
  let a := bcDxtPut (bcDxtPut ⟨0, 0⟩ 0 8 amax) 8 8 amin
  if amax > amin then
    (range 16).foldl (fun a t => bcDxtPut a (16 + 3 * t) 3 (index px amin (amax - amin) t)) a
  else a

/-! ## The format -/

/-- The levels of a BC4 block. -/
def palette (a0 a1 i : ℕ) : ℚ :=
  if i = 0 then a0 else if i = 1 then a1
  else if a0 > a1 then ((8 - i) * a0 + (i - 1) * a1) / 7
  else if i < 6 then ((6 - i) * a0 + (i - 1) * a1) / 5
  else if i = 6 then 0 else 255

/-- The level of index `i` of a block. -/
def level (x i : ℕ) : ℚ := palette (field x 0 8) (field x 8 8) i

/-- The index of a texel of a block. -/
def texelIndex (x t : ℕ) : ℕ := field x (16 + 3 * t) 3

/-- The alpha of a texel of a block. -/
def decode (x t : ℕ) : ℚ := level x (texelIndex x t)

/-! ## The fields of the block -/

section Fields

variable {x off n v o : ℕ} {w : Uvec2}

lemma or_one_shiftLeft (h : x < 2 ^ n) : x ||| 1 <<< n = x + 2 ^ n := by
  have hor := two_pow_add_eq_or_of_lt h 1
  rw [mul_one] at hor
  rw [one_shiftLeft, Nat.or_comm, ← hor, add_comm]

lemma value_put (h : w.value < 2 ^ n) :
    (if n ≥ 32 then { w with y := w.y ||| 1 <<< (n - 32) }
      else { w with x := w.x ||| 1 <<< n } : Uvec2).value = w.value + 2 ^ n := by
  unfold Uvec2.value at h ⊢
  split_ifs with hn
  · have hpow : 2 ^ n = 2 ^ 32 * 2 ^ (n - 32) := by rw [← pow_add, Nat.add_sub_cancel' hn]
    rw [hpow] at h ⊢
    rw [or_one_shiftLeft (by omega)]
    ring
  · have hpow : 2 ^ n < 2 ^ 32 := Nat.pow_lt_pow_right (by omega) (by omega)
    rw [or_one_shiftLeft (by omega)]
    ring

lemma add_mul_lt (h : x < 2 ^ off) (hv : v < 2 ^ n) : x + 2 ^ off * v < 2 ^ (off + n) := by
  have hmul := Nat.mul_le_mul_left (2 ^ off) (succ_le_of_lt hv)
  rw [mul_succ] at hmul
  rw [pow_add]
  omega

/-- The fields are written from the low bits up, so that a new one is a sum. -/
theorem value_bcDxtPut (hw : w.value < 2 ^ off) :
    (bcDxtPut w off n v).value = w.value + 2 ^ off * (v % 2 ^ n) := by
  unfold bcDxtPut
  induction n with
  | zero => simp [mod_one]
  | succ n ih =>
    rw [range_succ, foldl_append, foldl_cons, foldl_nil, mod_pow_succ]
    generalize (range n).foldl _ _ = r at ih
    have hr : r.value < 2 ^ (off + n) := ih ▸ add_mul_lt hw (mod_lt v (Nat.two_pow_pos n))
    simp only [and_bit, testBit_eq_decide_div_mod_eq, decide_eq_true_eq]
    rcases mod_two_eq_zero_or_one (v / 2 ^ n) with hbit | hbit
    · simp [hbit, ih]
    · rw [if_pos hbit, value_put hr, ih, hbit, pow_add]
      ring

lemma field_add_self (h : x < 2 ^ off) (hv : v < 2 ^ n) : field (x + 2 ^ off * v) off n = v := by
  rw [field, shiftRight_eq_div_pow, add_mul_div_left _ _ (Nat.two_pow_pos off), div_eq_of_lt h,
    zero_add, mod_eq_of_lt hv]

lemma field_add_above (h : o + n ≤ off) : field (x + 2 ^ off * v) o n = field x o n := by
  obtain ⟨d, rfl⟩ := Nat.exists_eq_add_of_le h
  rw [field, field, shiftRight_eq_div_pow, shiftRight_eq_div_pow, pow_add, pow_add, mul_assoc,
    mul_assoc, add_mul_div_left _ _ (Nat.two_pow_pos o), add_mul_mod_self_left]

/-- The endpoints and the indices of the first `k` texels. -/
theorem foldl_index {amin amax : ℕ} (hmin : amin < 2 ^ 8) (hmax : amax < 2 ^ 8) (idx : ℕ → ℕ) (k : ℕ) :
    let x := ((range k).foldl (fun a t => bcDxtPut a (16 + 3 * t) 3 (idx t))
      (bcDxtPut (bcDxtPut ⟨0, 0⟩ 0 8 amax) 8 8 amin)).value
    x < 2 ^ (16 + 3 * k) ∧ field x 0 8 = amax ∧ field x 8 8 = amin ∧ ∀ t < k, texelIndex x t = idx t % 8 := by
  induction k with
  | zero =>
    have h0 : (bcDxtPut ⟨0, 0⟩ 0 8 amax).value = amax := by
      rw [value_bcDxtPut (by decide), mod_eq_of_lt hmax]
      simp [Uvec2.value]
    rw [range_zero, foldl_nil, value_bcDxtPut (by rwa [h0]), h0, mod_eq_of_lt hmin]
    refine ⟨add_mul_lt hmax hmin, ?_, field_add_self hmax hmin, fun t ht => absurd ht (Nat.not_lt_zero t)⟩
    rw [field_add_above (le_refl 8), field, shiftRight_zero, mod_eq_of_lt hmax]
  | succ k ih =>
    rw [range_succ, foldl_append, foldl_cons, foldl_nil]
    generalize (range k).foldl _ _ = r at ih
    obtain ⟨hlt, hlo, hhi, hidx⟩ := ih
    have hmod : idx k % 2 ^ 3 < 2 ^ 3 := mod_lt _ (by decide)
    rw [value_bcDxtPut hlt]
    refine ⟨add_mul_lt hlt hmod, ?_, ?_, fun t ht => ?_⟩
    · rw [field_add_above (by omega), hlo]
    · rw [field_add_above (by omega), hhi]
    · rcases Nat.lt_succ_iff_lt_or_eq.mp ht with ht | rfl
      · rw [texelIndex, field_add_above (by omega)]
        exact hidx t ht
      · exact field_add_self hlt hmod

end Fields

/-! ## The levels -/

section Levels

variable {num rng : ℕ}

lemma countThresholds_eq (hr : 0 < rng) (hn : num < 8 * rng) : countThresholds num rng = num / rng := by
  have hfold : ∀ k, (range k).foldl (fun (st : ℕ × ℕ) _ => (st.1 + if num ≥ st.2 then 1 else 0, st.2 + rng))
      (0, rng) = (min k (num / rng), (k + 1) * rng) := by
    intro k
    induction k with
    | zero => simp
    | succ k ih =>
      rw [range_succ, foldl_append, ih, foldl_cons, foldl_nil]
      have hle := @Nat.le_div_iff_mul_le rng (k + 1) num hr
      refine Prod.ext ?_ (by ring)
      split_ifs <;> omega
  have hlt : num / rng < 8 := (Nat.div_lt_iff_lt_mul hr).mpr hn
  rw [countThresholds, hfold]
  exact min_eq_right (by omega)

variable (px : ℕ → BitVec 32)

lemma alpha_le (t : ℕ) : alpha px t ≤ 255 := by
  rw [alpha, shiftRight_eq_div_pow]
  omega

lemma extremes_le {t : ℕ} (ht : t < 16) : (extremes px).1 ≤ alpha px t ∧ alpha px t ≤ (extremes px).2 := by
  apply foldl_of_mem (P := fun m : ℕ × ℕ => m.1 ≤ alpha px t ∧ alpha px t ≤ m.2) (I := fun _ => True) trivial
    (fun _ _ _ _ => trivial) (mem_range.mpr ht)
  · exact fun m _ => ⟨min_le_right _ _, le_max_right _ _⟩
  · exact fun s _ m _ h => ⟨(min_le_left _ _).trans h.1, h.2.trans (le_max_left _ _)⟩

lemma le_extremes {a : ℕ} (ha : a ≤ 255) (h : ∀ t < 16, a ≤ alpha px t) : a ≤ (extremes px).1 :=
  foldl_invariant (P := fun m : ℕ × ℕ => a ≤ m.1) ha fun t ht _ hm => le_min hm (h t (mem_range.mp ht))

lemma extremes_le_of_forall {a : ℕ} (h : ∀ t < 16, alpha px t ≤ a) : (extremes px).2 ≤ a :=
  foldl_invariant (P := fun m : ℕ × ℕ => m.2 ≤ a) (zero_le a) fun t ht _ hm =>
    max_le hm (h t (mem_range.mp ht))

/-- The place of index `i` on the line from `a1` to `a0`. -/
def place (i : ℕ) : ℕ := if i = 0 then 7 else if i = 1 then 0 else 8 - i

lemma palette_eq {a0 a1 i : ℕ} (h : a1 < a0) (hi : i < 8) :
    palette a0 a1 i = a1 + place i * (a0 - a1 : ℕ) / 7 := by
  rw [cast_sub h.le]
  unfold palette place
  split_ifs
  · field_simp
    ring
  · simp
  · rw [cast_sub hi.le]
    field_simp
    ring

/-- Rounding to the nearest place. -/
theorem abs_sub_le {a1 a d R q : ℕ} (ha : a = a1 + d) (hR : 0 < R) (hq : q = (d * 7 + R / 2) / R) (p : ℕ) :
    |(a1 + q * R / 7 - a : ℚ)| ≤ |(a1 + p * R / 7 - a : ℚ)| := by
  have hcast : ∀ k : ℕ, |(a1 + k * R / 7 - a : ℚ)| = (((k * R : ℕ) - 7 * d : ℤ).natAbs : ℚ) / 7 := by
    intro k
    have heq : (a1 + k * R / 7 - a : ℚ) = (((k * R : ℕ) - 7 * d : ℤ) : ℚ) / 7 := by
      rw [ha]
      push_cast
      ring
    rw [heq, abs_div, cast_natAbs, Int.cast_abs, abs_of_pos (by norm_num : (0 : ℚ) < 7)]
  rw [hcast, hcast, div_le_div_iff_of_pos_right (by norm_num), cast_le]
  have hle : q * R ≤ d * 7 + R / 2 := hq ▸ div_mul_le_self _ _
  have hlt : d * 7 + R / 2 < (q + 1) * R := by
    rw [← Nat.div_lt_iff_lt_mul hR]
    omega
  rw [Nat.add_one_mul] at hlt
  -- another place is at least one step away
  have hstep : ∀ {i j : ℕ}, i < j → i * R + R ≤ j * R := fun h => by
    rw [← succ_mul]
    exact Nat.mul_le_mul_right R h
  rcases Nat.lt_trichotomy p q with h | rfl | h
  · have := hstep h
    omega
  · exact le_refl _
  · have := hstep h
    omega

lemma place_index {amin t : ℕ} (hr : 0 < rng) (h : alpha px t - amin ≤ rng) :
    place (index px amin rng t % 8) = ((alpha px t - amin) * 7 + rng / 2) / rng := by
  have hlt : (alpha px t - amin) * 7 + rng / 2 < 8 * rng := by omega
  have hq : ((alpha px t - amin) * 7 + rng / 2) / rng < 8 := (Nat.div_lt_iff_lt_mul hr).mpr hlt
  simp only [index, place, countThresholds_eq hr hlt]
  grind

/-- The smallest and the largest alpha are exact, and every texel has a nearest level. -/
theorem bcBc3EncodeAlpha_nearest :
    (∀ t < 16, (∀ s < 16, alpha px t ≤ alpha px s) ∨ (∀ s < 16, alpha px s ≤ alpha px t) →
      decode (bcBc3EncodeAlpha px).value t = alpha px t) ∧
    ∀ t < 16, ∀ i < 8, |decode (bcBc3EncodeAlpha px).value t - alpha px t| ≤
      |level (bcBc3EncodeAlpha px).value i - alpha px t| := by
  have hle : ∀ t < 16, _ := fun t => extremes_le px
  have hmin := fun {a} => @le_extremes px a
  have hmax := fun {a} => @extremes_le_of_forall px a
  generalize heq : (bcBc3EncodeAlpha px).value = x
  unfold bcBc3EncodeAlpha at heq
  generalize (extremes px).1 = amin at *
  generalize (extremes px).2 = amax at *
  have hlt : amax < 2 ^ 8 := lt_succ_of_le (hmax fun t _ => alpha_le px t)
  have hfields := foldl_index (((hle 0 (by decide)).1.trans (hle 0 (by decide)).2).trans_lt hlt) hlt
    (index px amin (amax - amin))
  have hx : field x 0 8 = amax ∧ field x 8 8 = amin ∧
      ∀ t < 16, texelIndex x t = if amax > amin then index px amin (amax - amin) t % 8 else 0 := by
    subst heq
    dsimp only
    split_ifs with h
    · exact (hfields 16).2
    · have hlt := (hfields 0).1
      refine ⟨(hfields 0).2.1, (hfields 0).2.2.1, fun t _ => field_eq_zero_of_lt (hlt.trans_le ?_)⟩
      exact Nat.pow_le_pow_right (by decide) (by omega)
  obtain ⟨h0, h1, hidx⟩ := hx
  have hnear : ∀ t < 16, ∀ i < 8, |decode x t - alpha px t| ≤ |level x i - alpha px t| := by
    intro t ht i hi
    have hle := hle t ht
    unfold decode level
    rw [hidx t ht, h0, h1]
    split_ifs with hlt
    · rw [palette_eq hlt (mod_lt _ (by decide)), palette_eq hlt hi]
      exact abs_sub_le (add_sub_of_le hle.1).symm (by omega) (place_index px (by omega) (by omega)) _
    · have heq : amax = alpha px t := by omega
      simp [palette, heq]
  refine ⟨fun t ht h => ?_, hnear⟩
  rw [← sub_eq_zero, ← abs_nonpos_iff]
  -- the endpoints are levels
  rcases h with h | h
  · have heq : amin = alpha px t := le_antisymm (hle t ht).1 (hmin (alpha_le px t) h)
    refine (hnear t ht 1 (by decide)).trans ?_
    simp [level, palette, h1, heq]
  · have heq : amax = alpha px t := le_antisymm (hmax h) (hle t ht).2
    refine (hnear t ht 0 (by decide)).trans ?_
    simp [level, palette, h0, heq]

end Levels

end RadvXclipse.Texcompress.Bc3
