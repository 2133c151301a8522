import RadvXclipse.Lib.Fold
import RadvXclipse.Nir.RangeAluExact
import RadvXclipse.Nir.RangeQueries
import Mathlib.Tactic.IntervalCases

/-!
# Bounds hold in every execution

An execution gives each scalar a value in each invocation. Intrinsics without a source respect the
bound that `get_intrinsic_uub` gives them; those that read other invocations, and reductions, are
tied to the values there. Where the ALU instructions below a scalar satisfy `AluOk`, the scalar is
at most what `nir_unsigned_upper_bound` returns for it.
-/

namespace RadvXclipse.Nir

open Lib Util List Nat ReductionOp

/-! ## Executions -/

def ReductionOp.aluOp : ReductionOp → AluOp
  | .umin => .umin
  | .umax => .umax
  | .imax => .imax
  | .imin => .imin
  | .iand => .iand
  | .ior => .ior
  | .ixor => .ixor
  | .iadd => .iadd

def ReductionOp.combine (op : ReductionOp) (w a b : ℕ) : ℕ :=
  op.aluOp.eval w w fun i => if i = 0 then a else b

/-- The reduction of the values of some lanes. -/
def ReductionOp.reduce (op : ReductionOp) (w : ℕ) : List ℕ → ℕ
  | [] => op.identity w
  | a :: l => l.foldl (op.combine w) a

/-- The values of the scalars of a shader in its invocations. -/
structure Execution (sh : Shader) (ι : Type) where
  val : ι → Scalar → ℕ
  val_lt : ∀ i s, val i s < 2 ^ sh.bitSize s
  const : ∀ i s v, sh.instr s = .const v → val i s = v
  alu : ∀ i s op srcs, sh.instr s = .alu op srcs →
    val i s = op.eval (sh.bitSize s) (srcAt srcs sh.bitSize 0 0) (srcAt srcs (val i) 0)
  /-- an intrinsic without a source respects its bound -/
  leaf : ∀ i s k srcs, sh.instr s = .intrinsic (.leaf k) srcs →
    val i s ≤ leafUub sh.info k s.comp (sh.bitSize s) % 2 ^ 32
  /-- the number of bits below the lane is added -/
  mbcnt : ∀ i s srcs, sh.instr s = .intrinsic .mbcnt srcs →
    ∃ n < sh.info.maxSubgroupSize, val i s = (n + srcAt srcs (val i) 0 1) % 2 ^ 32
  /-- the value in some lane, or zero if there is none -/
  lane : ∀ i s srcs, sh.instr s = .intrinsic .lane srcs → val i s = 0 ∨ ∃ j, val i s = srcAt srcs (val j) 0 0
  twoLanes : ∀ i s srcs, sh.instr s = .intrinsic .twoLanes srcs →
    val i s = 0 ∨ ∃ j, val i s = srcAt srcs (val j) 0 0 ∨ val i s = srcAt srcs (val j) 0 1
  /-- only an exclusive scan may have no lanes, and it leaves one out -/
  scan : ∀ i s op kind srcs, sh.instr s = .intrinsic (.scan op kind) srcs →
    ∃ lanes : List ι, lanes.length + (if kind = .exclusive then 1 else 0) ≤
      sh.info.maxSubgroupSize ∧ (lanes = [] → kind = .exclusive) ∧
      val i s = op.reduce (sh.bitSize s) (lanes.map fun j => srcAt srcs (val j) 0 0)

/-- The scalars that the query of a scalar asks for. -/
def Below (sh : Shader) : Scalar → Scalar → Prop := Relation.ReflTransGen fun s t => t ∈ querySources sh s

/-- All ALU instructions that are asked for satisfy what their rules need. -/
def Execution.Ok {sh : Shader} {ι : Type} (E : Execution sh ι) (s : Scalar) : Prop :=
  ∀ t, Below sh s t → ∀ i op srcs, sh.instr t = .alu op srcs →
    AluOk op (sh.bitSize t) (srcAt srcs sh.constant none) (srcAt srcs (E.val i) 0)

/-- The bounds of the intrinsics that are asked for are values of their bit size. -/
def LeavesFit (sh : Shader) (s : Scalar) : Prop :=
  ∀ t, Below sh s t → ∀ k srcs, sh.instr t = .intrinsic (.leaf k) srcs →
    leafUub sh.info k t.comp (sh.bitSize t) % 2 ^ 32 ≤ bitmask (sh.bitSize t)

/-! ## Reductions -/

section Reductions

variable {op : ReductionOp} {w a b : ℕ}

lemma ReductionOp.combine_lt (op : ReductionOp) (w a b : ℕ) : op.combine w a b < 2 ^ w := by
  cases op <;> exact BitVec.isLt _

/-- A reduction has what its values have, if the operation keeps it. -/
theorem ReductionOp.reduce_of_combine {I : ℕ → Prop} {l : List ℕ} (hne : l ≠ [])
    (hl : ∀ a ∈ l, I a ∧ a < 2 ^ w)
    (hop : ∀ a b, I a → a < 2 ^ w → I b → b < 2 ^ w → I (op.combine w a b)) : I (op.reduce w l) := by
  cases l with
  | nil => exact absurd rfl hne
  | cons a l =>
    have hfold : I (l.foldl (op.combine w) a) ∧ l.foldl (op.combine w) a < 2 ^ w := by
      apply foldl_invariant (P := fun r => I r ∧ r < 2 ^ w) (hl a mem_cons_self)
      intro b hb r hr
      have hval := hl b (mem_cons_of_mem a hb)
      exact ⟨hop r b hr.1 hr.2 hval.1 hval.2, op.combine_lt w r b⟩
    exact hfold.1

lemma toNat_ofNat_of_lt (h : a < 2 ^ w) : (BitVec.ofNat w a).toNat = a := by
  rw [BitVec.toNat_ofNat, mod_eq_of_lt h]

/-- Minima, maxima and `iand` do not go above a common bound. -/
theorem ReductionOp.combine_le {u : ℕ} (ha : a < 2 ^ w) (hb : b < 2 ^ w) (hau : a ≤ u) (hbu : b ≤ u)
    (hop : op = .umin ∨ op = .umax ∨ op = .imax ∨ op = .imin ∨ op = .iand) : op.combine w a b ≤ u := by
  have hselect : ∀ (p : Prop) [Decidable p],
      (if p then BitVec.ofNat w a else BitVec.ofNat w b).toNat ≤ u := by
    intro p _
    rcases ite_eq_or_eq p _ _ with h | h
    · rw [h, toNat_ofNat_of_lt ha]
      exact hau
    · rw [h, toNat_ofNat_of_lt hb]
      exact hbu
  rcases hop with rfl | rfl | rfl | rfl | rfl
  · exact hselect _
  · exact hselect _
  · exact hselect _
  · exact hselect _
  · show (Nir.iand (BitVec.ofNat w a) (BitVec.ofNat w b)).toNat ≤ u
    unfold Nir.iand
    rw [BitVec.toNat_and, toNat_ofNat_of_lt ha]
    exact and_le_left.trans hau

/-- `ior` and `ixor` do not set bits that no value has. -/
theorem ReductionOp.combine_bitsLe {m : ℕ} (ha : a < 2 ^ w) (hb : b < 2 ^ w) (ham : BitsLe a m)
    (hbm : BitsLe b m) (hop : op = .ior ∨ op = .ixor) : BitsLe (op.combine w a b) m := by
  rcases hop with rfl | rfl
  · show BitsLe (Nir.ior (BitVec.ofNat w a) (BitVec.ofNat w b)).toNat m
    unfold Nir.ior
    rw [BitVec.toNat_or, toNat_ofNat_of_lt ha, toNat_ofNat_of_lt hb]
    exact ham.or_le hbm
  · show BitsLe (Nir.ixor (BitVec.ofNat w a) (BitVec.ofNat w b)).toNat m
    unfold Nir.ixor
    rw [BitVec.toNat_xor, toNat_ofNat_of_lt ha, toNat_ofNat_of_lt hb]
    exact (ham.xor hbm).trans ((BitsLe.refl m).or_le (BitsLe.refl m))

lemma ReductionOp.combine_iadd_le (ha : a < 2 ^ w) (hb : b < 2 ^ w) :
    ReductionOp.iadd.combine w a b ≤ a + b := by
  show (Nir.iadd (BitVec.ofNat w a) (BitVec.ofNat w b)).toNat ≤ a + b
  unfold Nir.iadd
  rw [BitVec.toNat_add, toNat_ofNat_of_lt ha, toNat_ofNat_of_lt hb]
  exact mod_le _ _

/-- A sum is at most the bound for each lane. -/
theorem ReductionOp.foldl_iadd_le {u : ℕ} {l : List ℕ} (ha : a < 2 ^ w) (hl : ∀ b ∈ l, b ≤ u ∧ b < 2 ^ w) :
    l.foldl (ReductionOp.iadd.combine w) a ≤ a + u * l.length := by
  induction l generalizing a with
  | nil => exact le_add_right a _
  | cons b l ih =>
    have hb := hl b mem_cons_self
    have hrest := ih (iadd.combine_lt w a b) fun d hd => hl d (mem_cons_of_mem b hd)
    have hsum := combine_iadd_le ha hb.2
    rw [foldl_cons, length_cons, mul_succ]
    omega

/-- The bound of a reduction that is not empty. -/
theorem ReductionOp.reduce_le {u lanes : ℕ} {l : List ℕ} (hw : w ≤ 32) (hu : u < 2 ^ 32) (hne : l ≠ [])
    (hl : ∀ a ∈ l, a ≤ u ∧ a < 2 ^ w) (hlanes : l.length ≤ lanes) : op.reduce w l ≤ op.uub w lanes u := by
  have hselect : (op = .umin ∨ op = .umax ∨ op = .imax ∨ op = .imin ∨ op = .iand) → op.reduce w l ≤ u := by
    intro hop
    apply reduce_of_combine (I := fun r => r ≤ u) hne hl
    intro a b ha hlt hb hlt'
    exact combine_le hlt hlt' ha hb hop
  have hbits : (op = .ior ∨ op = .ixor) → op.reduce w l ≤ lastBitMask u := by
    intro hop
    apply BitsLe.le
    apply reduce_of_combine (I := fun r => BitsLe r (lastBitMask u)) hne
    · intro a ha
      exact ⟨bitsLe_lastBitMask (hl a ha).1 hu, (hl a ha).2⟩
    · intro a b ha hlt hb hlt'
      exact combine_bitsLe hlt hlt' ha hb hop
  cases op with
  | umin | umax | imax | imin | iand => exact hselect (by simp)
  | ior | ixor => exact hbits (by simp)
  | iadd =>
    apply le_min
    · have hlt : iadd.reduce w l < 2 ^ w :=
        reduce_of_combine (I := fun r => r < 2 ^ w) hne (fun a ha => ⟨(hl a ha).2, (hl a ha).2⟩)
          fun a b _ _ _ _ => combine_lt _ w a b
      rw [bitmask_of_le hw]
      omega
    · cases l with
      | nil => exact absurd rfl hne
      | cons a l =>
        have ha := hl a mem_cons_self
        have hsum := foldl_iadd_le ha.2 fun b hb => hl b (mem_cons_of_mem a hb)
        have hmul : u * (l.length + 1) ≤ u * lanes := Nat.mul_le_mul_left u hlanes
        rw [mul_succ] at hmul
        show l.foldl (iadd.combine w) a ≤ u * lanes
        omega

lemma ReductionOp.uub_le (op : ReductionOp) {u n : ℕ} (lanes : ℕ) (hn : n ≤ 32) (hw : w ≤ n)
    (hu : u ≤ bitmask n) :
    op.uub w lanes u ≤ bitmask n := by
  cases op with
  | ior | ixor => exact (bitsLe_bitmask hn hu).le
  | iadd => exact (min_le_left _ _).trans (bitmask_mono hw)
  | _ => exact hu

lemma ReductionOp.identity_lt (op : ReductionOp) (hw : 0 < w) : op.identity w < 2 ^ w := by
  have hdouble := Nat.two_pow_pred_mul_two hw
  have hpos := Nat.two_pow_pos (w - 1)
  unfold identity
  cases op <;> dsimp only <;> omega

end Reductions

/-! ## Results of queries -/

section Results

variable {sh : Shader} {ι : Type}

/-- What a query returns: the values respect it where the rules are right, and it is a value of the
bit size where the bounds of the intrinsics are. -/
structure Execution.Bound (E : Execution sh ι) (s : Scalar) (u : ℕ) : Prop where
  lt : u < 2 ^ 32
  const : ∀ v, sh.instr s = .const v → u = v % 2 ^ 32
  le : HasBound (sh.bitSize s) → E.Ok s → ∀ i, E.val i s ≤ u
  fits : HasBound (sh.bitSize s) → LeavesFit sh s → u ≤ bitmask (sh.bitSize s)

variable {E : Execution sh ι} {s : Scalar}

variable {t : Scalar} {srcs : List Scalar} {r a u b : ℕ} {p : Prop}

theorem Execution.Ok.source (h : E.Ok s) (ht : t ∈ querySources sh s) : E.Ok t :=
  fun t' ht' => h t' (.head ht ht')

theorem LeavesFit.source (h : LeavesFit sh s) (ht : t ∈ querySources sh s) : LeavesFit sh t :=
  fun t' ht' => h t' (.head ht ht')

lemma Execution.le_bitmask (E : Execution sh ι) (h : HasBound (sh.bitSize s)) (i : ι) :
    E.val i s ≤ bitmask (sh.bitSize s) := by
  have hlt := E.val_lt i s
  rw [bitmask_of_le h.le]
  omega

/-- The sources of a query and their results, by their numbers. -/
theorem forall₂_srcAt {P : Scalar → ℕ → Prop} {us : List ℕ} (h : Forall₂ P srcs us) (i : ℕ) :
    (∃ t u, t ∈ srcs ∧ srcs[i]? = some t ∧ us[i]? = some u ∧ P t u) ∨ (srcs[i]? = none ∧ us[i]? = none) := by
  induction h generalizing i with
  | nil => exact .inr ⟨rfl, rfl⟩
  | @cons t u srcs us htu _ ih =>
    cases i with
    | zero => exact .inl ⟨t, u, mem_cons_self, rfl, rfl, htu⟩
    | succ i =>
      rcases ih i with ⟨t', u', hmem, ht', hu', hP⟩ | hnone
      · exact .inl ⟨t', u', mem_cons_of_mem t hmem, ht', hu', hP⟩
      · exact .inr hnone

/-- The sources of a supported opcode have bounds. -/
theorem AluOp.Typed.size_bound {op : AluOp} {w : ℕ} {size : ℕ → ℕ} (h : op.Typed w size)
    (hsize : op = .u2u ∨ op = .bitCount → size 0 ≤ 32) {i : ℕ} (hi : i < op.numInputs) :
    HasBound (size i) := by
  have h64 : HasBound (size 0) ∨ size 0 = 64 → size 0 ≤ 32 → HasBound (size 0) := by
    intro hor hle
    exact hor.resolve_right (by omega)
  have h1 : HasBound 1 := .inl rfl
  have h32 : HasBound 32 := .inr (.inr (.inr rfl))
  unfold AluOp.Typed at h
  unfold AluOp.numInputs at hi
  cases op <;> dsimp only at h hi <;> interval_cases i <;> simp_all

/-- A result that does not come from a constant. -/
theorem Execution.Bound.of_result (hconst : ∀ v, sh.instr s ≠ .const v)
    (hlt : HasBound (sh.bitSize s) → r < 2 ^ 32)
    (hle : HasBound (sh.bitSize s) → E.Ok s → ∀ i, E.val i s ≤ r)
    (hfits : HasBound (sh.bitSize s) → LeavesFit sh s → r ≤ bitmask (sh.bitSize s)) :
    E.Bound s (r % 2 ^ 32) where
  lt := mod_lt r (by decide)
  const v hv := absurd hv (hconst v)
  le hw hok i := by
    rw [mod_eq_of_lt (hlt hw)]
    exact hle hw hok i
  fits hw hleaves := (mod_le _ _).trans (hfits hw hleaves)

lemma Execution.bound_const {v : ℕ} (h : sh.instr s = .const v) : E.Bound s (v % 2 ^ 32) where
  lt := mod_lt v (by decide)
  const v' hv' := by
    rw [h] at hv'
    cases hv'
    rfl
  le hw _ i := by
    rw [mod_eq_of_lt (lt_two_pow_32 hw.le (sh.const_lt s v h)), E.const i s v h]
  fits hw _ := by
    have hlt := sh.const_lt s v h
    rw [bitmask_of_le hw.le]
    omega

lemma Execution.bound_leaf {k : LeafIntrinsic} (h : sh.instr s = .intrinsic (.leaf k) srcs) :
    E.Bound s (leafUub sh.info k s.comp (sh.bitSize s) % 2 ^ 32) where
  lt := mod_lt _ (by decide)
  const v hv := by
    rw [h] at hv
    cases hv
  le _ _ i := E.leaf i s k srcs h
  fits _ hleaves := hleaves s .refl k srcs h

lemma Execution.bound_mbcnt {a : Scalar} (h : sh.instr s = .intrinsic .mbcnt [a, t])
    (ht : E.Bound t u) :
    E.Bound s (getIntrinsicUub sh.info .mbcnt s.comp (sh.bitSize s) (fun j => [u].getD j 0) % 2 ^ 32) := by
  have htyped := sh.intrinsic_typed s _ _ h
  have hw : sh.bitSize s = 32 := htyped.1
  have htw : sh.bitSize t = 32 := htyped.2.1
  have hmem : t ∈ querySources sh s := by
    rw [querySources, h]
    exact mem_cons_self
  obtain ⟨m, hm⟩ : ∃ m, sub32 sh.info.maxSubgroupSize 1 = m := ⟨_, rfl⟩
  have hresult : getIntrinsicUub sh.info .mbcnt s.comp (sh.bitSize s) (fun j => [u].getD j 0) =
      if add32 m u ≥ m then add32 m u else 2 ^ 32 - 1 := by
    rw [hw, ← hm]
    rfl
  have hle : (if add32 m u ≥ m then add32 m u else 2 ^ 32 - 1) ≤ 2 ^ 32 - 1 := by
    unfold add32
    split <;> omega
  rw [hresult]
  apply Execution.Bound.of_result (by simp [h])
  · intro _
    omega
  · intro _ hok i
    have hu := ht.le (.inr (.inr (.inr htw))) (hok.source hmem) i
    have hult := ht.lt
    have hsize := sh.info.maxSubgroupSize_lt
    obtain ⟨n, hn, hval⟩ := E.mbcnt i s _ h
    have hval' : E.val i s = (n + E.val i t) % 2 ^ 32 := hval
    rw [hval', ← hm, sub32_of_le (by omega) hsize]
    unfold add32
    split <;> omega
  · intro _ _
    rw [hw]
    exact hle

section

variable (ht : E.Bound t u) (hmem : t ∈ querySources sh s) (hsize : sh.bitSize t = sh.bitSize s)
  (hw : HasBound (sh.bitSize s))
include ht hmem hsize hw

/-- The value of a source in some invocation. -/
theorem Execution.Bound.le_source (hok : E.Ok s) (j : ι) :
    E.val j t ≤ u :=
  ht.le (hsize ▸ hw) (hok.source hmem) j

lemma Execution.Bound.fits_source (hleaves : LeavesFit sh s) :
    u ≤ bitmask (sh.bitSize s) := by
  have hfits := ht.fits (hsize ▸ hw) (hleaves.source hmem)
  rwa [hsize] at hfits

end

lemma Execution.bound_lane (h : sh.instr s = .intrinsic .lane (t :: srcs)) (ht : E.Bound t u) :
    E.Bound s (u % 2 ^ 32) := by
  have hsize : sh.bitSize t = sh.bitSize s := (sh.intrinsic_typed s _ _ h).1
  have hmem : t ∈ querySources sh s := by
    rw [querySources, h]
    exact mem_cons_self
  apply Execution.Bound.of_result (by simp [h])
  · exact fun _ => ht.lt
  · intro hw hok i
    rcases E.lane i s _ h with hzero | ⟨j, hj⟩
    · rw [hzero]
      exact zero_le u
    · rw [hj]
      exact ht.le_source hmem hsize hw hok j
  · exact ht.fits_source hmem hsize

lemma Execution.bound_twoLanes {t' : Scalar} {u' : ℕ}
    (h : sh.instr s = .intrinsic .twoLanes (t :: t' :: srcs)) (ht : E.Bound t u)
    (ht' : E.Bound t' u') : E.Bound s (max u u' % 2 ^ 32) := by
  have hsize : sh.bitSize t = sh.bitSize s := (sh.intrinsic_typed s _ _ h).1
  have hsize' : sh.bitSize t' = sh.bitSize s := (sh.intrinsic_typed s _ _ h).2.1
  have hmem : t ∈ querySources sh s := by
    rw [querySources, h]
    exact mem_cons_self
  have hmem' : t' ∈ querySources sh s := by
    rw [querySources, h]
    exact mem_cons_of_mem t mem_cons_self
  apply Execution.Bound.of_result (by simp [h])
  · exact fun _ => max_lt ht.lt ht'.lt
  · intro hw hok i
    rcases E.twoLanes i s _ h with hzero | ⟨j, hj | hj⟩
    · rw [hzero]
      exact zero_le _
    · rw [hj]
      exact (ht.le_source hmem hsize hw hok j).trans (le_max_left _ _)
    · rw [hj]
      exact (ht'.le_source hmem' hsize' hw hok j).trans (le_max_right _ _)
  · intro hw hleaves
    exact max_le (ht.fits_source hmem hsize hw hleaves) (ht'.fits_source hmem' hsize' hw hleaves)

/-- The bound of a scan, with or without the identity. -/
theorem ite_max_le [Decidable p] {m : ℕ} (ha : a ≤ m) (hb : b ≤ m) :
    (if p then max a b else a) ≤ m := by
  split
  · exact max_le ha hb
  · exact ha

lemma le_ite_max [Decidable p] (h : r ≤ a) : r ≤ if p then max a b else a := by
  split
  · exact h.trans (le_max_left a b)
  · exact h

lemma Execution.bound_scan {op : ReductionOp} {kind : ScanKind}
    (h : sh.instr s = .intrinsic (.scan op kind) (t :: srcs)) (ht : E.Bound t u) :
    E.Bound s (getIntrinsicUub sh.info (.scan op kind) s.comp (sh.bitSize s) (fun j => [u].getD j 0) % 2 ^ 32) := by
  have hsize : sh.bitSize t = sh.bitSize s := (sh.intrinsic_typed s _ _ h).1
  have hmem : t ∈ querySources sh s := by
    rw [querySources, h]
    exact mem_cons_self
  -- the bound before the identity, for any number of lanes
  have hbound : ∀ {n}, n ≤ 32 → HasBound (sh.bitSize s) → sh.bitSize s ≤ n → u ≤ bitmask n →
      getIntrinsicUub sh.info (.scan op kind) s.comp (sh.bitSize s) (fun j => [u].getD j 0) ≤ bitmask n := by
    intro n hn hw hwn hu
    have hid : op.identity (sh.bitSize s) ≤ bitmask n := by
      have hlt := op.identity_lt hw.pos
      have hmono := bitmask_mono hwn
      rw [bitmask_of_le hw.le] at hmono
      omega
    exact ite_max_le (op.uub_le _ hn hwn hu) hid
  apply Execution.Bound.of_result (by simp [h])
  · intro hw
    exact lt_of_le_of_lt (hbound le_rfl hw hw.le (le_sub_one_of_lt ht.lt)) (bitmask_lt 32)
  · intro hw hok i
    obtain ⟨lanes, hlen, hempty, hval⟩ := E.scan i s _ _ _ h
    have hmax := sh.info.maxSubgroupSize_lt
    have hlanes : lanes.length ≤ sub32 sh.info.maxSubgroupSize (if kind = .exclusive then 1 else 0) := by
      rw [sub32_of_le (by omega) hmax]
      omega
    rw [hval]
    simp only [getIntrinsicUub, getD_cons_zero]
    by_cases hnil : lanes = []
    · rw [if_pos (hempty hnil), hnil]
      exact le_max_right _ _
    · apply le_ite_max
      apply reduce_le hw.le ht.lt
      · exact fun hmap => hnil (map_eq_nil_iff.mp hmap)
      · intro a ha
        obtain ⟨j, _, rfl⟩ := mem_map.mp ha
        have hlt := E.val_lt j t
        rw [hsize] at hlt
        exact ⟨ht.le_source hmem hsize hw hok j, hlt⟩
      · rw [length_map]
        exact hlanes
  · intro hw hleaves
    exact hbound hw.le hw le_rfl (ht.fits_source hmem hsize hw hleaves)

end Results

end RadvXclipse.Nir
