import Mathlib.Data.List.Basic

/-!
# Rows of texels in memory

The decoders of the CPU write a block of texels row by row. A texel has four elements, and an
address counts elements.
-/

namespace RadvXclipse.Texcompress

open List

/-- The elements of memory. -/
abbrev Memory := ℕ → ℕ

/-- `memset`. -/
def memset (mem : Memory) (dst value n : ℕ) : Memory :=
  fun a => if dst ≤ a ∧ a < dst + n then value else mem a

/-- The four elements of a texel are stored. -/
def storeTexel (mem : Memory) (result : ℕ) (bytes : ℕ → ℕ) : Memory :=
  fun a => if result ≤ a ∧ a < result + 4 then bytes (a - result) else mem a

/-- The loop over the texels of a row. -/
def storeRow (srcWidth y : ℕ) (texel : ℕ → ℕ → ℕ) (mem : Memory) (dstRow : ℕ) : Memory :=
  ((range srcWidth).foldl
    (fun (st : Memory × ℕ) x => (storeTexel st.1 st.2 (texel (x + y * 4)), st.2 + 4)) (mem, dstRow)).1

/-- The loop over the rows of a block. -/
def storeRows (srcHeight dstRowstride : ℕ) (row : ℕ → Memory → ℕ → Memory) (mem : Memory) (dstRow : ℕ) :
    Memory × ℕ :=
  (range srcHeight).foldl (fun st y => (row y st.1 st.2, st.2 + dstRowstride)) (mem, dstRow)

section Rows

/-- A loop that writes four elements at a time: `elem x j` is element `j` of texel `x` after what it
was before. -/
theorem foldl_row (write : Memory → ℕ → ℕ → Memory) (elem : ℕ → ℕ → ℕ → ℕ)
    (hwrite : ∀ mem p x a, write mem p x a = if p ≤ a ∧ a < p + 4 then elem x (a - p) (mem a)
    else mem a) (w : ℕ) (mem : Memory) (dstRow : ℕ) :
    (range w).foldl (fun (st : Memory × ℕ) x => (write st.1 st.2 x, st.2 + 4)) (mem, dstRow) =
      (fun a => if dstRow ≤ a ∧ a < dstRow + 4 * w then elem ((a - dstRow) / 4) ((a - dstRow) % 4) (mem a)
        else mem a, dstRow + 4 * w) := by
  induction w with
  | zero =>
    rw [range_zero, foldl_nil, Nat.mul_zero, Nat.add_zero, Prod.mk.injEq]
    refine ⟨?_, rfl⟩
    funext a
    rw [if_neg (by omega)]
  | succ w ih =>
    rw [range_succ, foldl_append, ih, foldl_cons, foldl_nil, Prod.mk.injEq]
    refine ⟨?_, by omega⟩
    funext a
    rw [hwrite]
    dsimp only
    by_cases hlast : dstRow + 4 * w ≤ a ∧ a < dstRow + 4 * w + 4
    · have hdiv : (a - dstRow) / 4 = w := by omega
      have hmod : (a - dstRow) % 4 = a - (dstRow + 4 * w) := by omega
      rw [if_pos hlast, if_neg (show ¬ (dstRow ≤ a ∧ a < dstRow + 4 * w) by omega),
        if_pos (by omega), hdiv, hmod]
    · have hiff : (dstRow ≤ a ∧ a < dstRow + 4 * w) ↔ (dstRow ≤ a ∧ a < dstRow + 4 * (w + 1)) := by omega
      simp only [if_neg hlast, hiff]

/-- A row of texels in memory. -/
theorem storeRow_eq (w y : ℕ) (texel : ℕ → ℕ → ℕ) (mem : Memory) (dstRow : ℕ) :
    storeRow w y texel mem dstRow = fun a =>
      if dstRow ≤ a ∧ a < dstRow + 4 * w then texel ((a - dstRow) / 4 + y * 4) ((a - dstRow) % 4)
      else mem a :=
  congrArg Prod.fst
    (foldl_row (fun mem p x => storeTexel mem p (texel (x + y * 4))) (fun x j _ => texel (x + y * 4) j)
      (fun _ _ _ _ => rfl) w mem dstRow)

/-- The rows do not overlap: each is in memory as it was stored. -/
theorem storeRows_eq {n stride : ℕ} (row : ℕ → Memory → ℕ → Memory) (bytes : ℕ → ℕ → ℕ)
    (hrow : ∀ y mem dstRow, row y mem dstRow = fun a =>
      if dstRow ≤ a ∧ a < dstRow + n then bytes y (a - dstRow) else mem a)
    (hn : n ≤ stride) (mem : Memory) (dstRow h : ℕ) :
    (storeRows h stride row mem dstRow).2 = dstRow + h * stride ∧
      ∀ y < h, ∀ j < n, (storeRows h stride row mem dstRow).1 (dstRow + y * stride + j) = bytes y j := by
  unfold storeRows
  induction h with
  | zero => simp
  | succ h ih =>
    rw [range_succ, foldl_append, foldl_cons, foldl_nil]
    generalize (range h).foldl _ _ = st at ih
    rw [hrow, ih.1, Nat.succ_mul]
    refine ⟨by omega, ?_⟩
    intro y hy j hj
    dsimp only
    by_cases hlast : y = h
    · subst hlast
      rw [if_pos (by omega), Nat.add_sub_cancel_left]
    · have hbelow : (y + 1) * stride ≤ h * stride := Nat.mul_le_mul_right stride (by omega)
      rw [Nat.succ_mul] at hbelow
      rw [if_neg (by omega), ih.2 y (by omega) j hj]

/-- The elements of all texels. -/
theorem storeRows_storeRow (texel : ℕ → ℕ → ℕ) {w h stride : ℕ} (hstride : 4 * w ≤ stride)
    (mem : Memory) (dstRow : ℕ) {x y c : ℕ} (hx : x < w) (hy : y < h) (hc : c < 4) :
    (storeRows h stride (fun y => storeRow w y texel) mem dstRow).1
      (dstRow + y * stride + (4 * x + c)) = texel (x + y * 4) c := by
  have hrows := storeRows_eq _ (fun y j => texel (j / 4 + y * 4) (j % 4))
    (fun y => storeRow_eq w y texel) hstride mem
    dstRow h
  have hdiv : (4 * x + c) / 4 = x := by omega
  have hmod : (4 * x + c) % 4 = c := by omega
  rw [hrows.2 y hy (4 * x + c) (by omega), hdiv, hmod]

end Rows

end RadvXclipse.Texcompress
