import RadvXclipse.Pm4.Exec

/-!
# Packed packets

The body of a packed packet is a list of triples: the offsets of two registers in one dword, and
their values. A register goes into the second half of the last triple or starts a new one, and the
padding fills a last half.
-/

namespace RadvXclipse.Pm4

open Lib List Nat

/-- The body for a list of registers and values. With an odd number the last triple is cut off. -/
def triples : List (ℕ × ℕ) → List ℕ
  | a :: b :: l => (a.1 ||| b.1 <<< 16) :: a.2 :: b.2 :: triples l
  | [a] => [a.1, a.2]
  | [] => []

variable {l : List (ℕ × ℕ)}

lemma triples_append (h : l.length % 2 = 0) (m : List (ℕ × ℕ)) :
    triples (l ++ m) = triples l ++ triples m := by
  induction l using triples.induct with
  | case1 a b l ih =>
    simp only [length_cons] at h
    simp only [cons_append, triples, ih (by omega)]
  | case2 a => simp at h
  | case3 => rfl

lemma length_triples (l : List (ℕ × ℕ)) : (triples l).length = 3 * (l.length / 2) + 2 * (l.length % 2) := by
  induction l using triples.induct with
  | case1 a b l ih =>
    simp only [triples, length_cons, ih]
    omega
  | case2 a => simp [triples]
  | case3 => rfl

lemma length_triples_mod (h : l.length % 2 = 0) : (triples l).length % 3 = 0 := by
  rw [length_triples]
  omega

section Halves

variable {a b : ℕ}

/-- Two offsets in one dword. -/
theorem or_shiftLeft_eq (ha : a < 2 ^ 16) (b : ℕ) : a ||| b <<< 16 = b * 2 ^ 16 + a := by
  rw [Nat.or_comm, ← shiftLeft_add_eq_or_of_lt ha, shiftLeft_eq]

lemma field_lo (ha : a < 2 ^ 16) (b : ℕ) : field (a ||| b <<< 16) 0 16 = a := by
  rw [or_shiftLeft_eq ha, field, shiftRight_zero]
  omega

lemma field_of_lt (ha : a < 2 ^ 16) : field a 0 16 = a := mod_eq_of_lt ha

lemma field_hi (ha : a < 2 ^ 16) (hb : b < 2 ^ 16) : field (a ||| b <<< 16) 16 16 = b := by
  rw [or_shiftLeft_eq ha, field, shiftRight_eq_div_pow]
  omega

lemma and_16 (x : ℕ) : x &&& 0xffff = field x 0 16 := and_two_pow_sub_one_eq_mod x 16

end Halves

/-- The engine reads the registers back. -/
theorem packedWrites_triples (base : ℕ) (heven : l.length % 2 = 0) (hreg : ∀ w ∈ l, w.1 < 2 ^ 16) :
    packedWrites base (l.length / 2) (triples l) = l.map fun w => (base + w.1, w.2) := by
  induction l using triples.induct with
  | case1 a b l ih =>
    simp only [length_cons] at heven
    have hlen : (a :: b :: l).length / 2 = l.length / 2 + 1 := by
      simp only [length_cons]
      omega
    have ha : a.1 < 2 ^ 16 := hreg a (by simp)
    have hb : b.1 < 2 ^ 16 := hreg b (by simp)
    rw [hlen]
    simp only [triples, packedWrites, field_lo ha, field_hi ha hb, map_cons]
    rw [ih (by omega) fun w hw => hreg w (by simp [hw])]
  | case2 a => simp at heven
  | case3 => rfl

/-- The offset of a register in the body. -/
theorem triples_offset (hreg : ∀ w ∈ l, w.1 < 2 ^ 16) {i : ℕ} (hi : i < l.length) :
    (triples l).getD (i / 2 * 3) 0 >>> (i % 2 * 16) &&& 0xffff = (l.getD i (0, 0)).1 := by
  induction l using triples.induct generalizing i with
  | case1 a b l ih =>
    have ha : a.1 < 2 ^ 16 := hreg a (by simp)
    have hb : b.1 < 2 ^ 16 := hreg b (by simp)
    match i with
    | 0 =>
      have hlo := field_lo ha b.1
      rw [and_16]
      simpa [triples] using hlo
    | 1 =>
      have hhi := field_hi ha hb
      rw [and_16]
      simpa [triples, field] using hhi
    | i + 2 =>
      have hdiv : (i + 2) / 2 * 3 = i / 2 * 3 + 3 := by omega
      have hmod : (i + 2) % 2 = i % 2 := by omega
      simp only [length_cons] at hi
      have hrec := ih (fun w hw => hreg w (by simp [hw])) (i := i) (by omega)
      rw [hdiv, hmod]
      simpa only [triples, getD_cons_succ] using hrec
  | case2 a =>
    simp only [length_singleton] at hi
    obtain rfl : i = 0 := by omega
    have ha : a.1 < 2 ^ 16 := hreg a (by simp)
    rw [and_16]
    exact field_of_lt ha
  | case3 => simp at hi

/-- The value of a register in the body. -/
theorem triples_value {i : ℕ} (hi : i < l.length) :
    (triples l).getD (i / 2 * 3 + 1 + i % 2) 0 = (l.getD i (0, 0)).2 := by
  induction l using triples.induct generalizing i with
  | case1 a b l ih =>
    match i with
    | 0 => rfl
    | 1 => rfl
    | i + 2 =>
      have hidx : (i + 2) / 2 * 3 + 1 + (i + 2) % 2 = i / 2 * 3 + 1 + i % 2 + 3 := by omega
      simp only [length_cons] at hi
      have hrec := ih (i := i) (by omega)
      rw [hidx]
      simpa only [triples, getD_cons_succ] using hrec
  | case2 a =>
    simp only [length_singleton] at hi
    obtain rfl : i = 0 := by omega
    rfl
  | case3 => simp at hi

end RadvXclipse.Pm4
