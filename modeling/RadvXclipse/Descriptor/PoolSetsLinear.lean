import RadvXclipse.Descriptor.PoolSetsHeap

/-!
# Pools without a heap

Without the bit for freeing single sets the sets of a pool follow each other, in the BO and in the
host memory of the pool. What fits is a matter of three sums.
-/

namespace RadvXclipse.Descriptor

open Lib Util List

/-- There is room for all sets of a call: entries, host memory, and bytes of the BO. -/
def Pool.fits (abi : PoolAbi) (pool : Pool) (m : HostMemory) (rs : List SetRequest) : Bool :=
  pool.entryCount + rs.length ≤ pool.maxEntryCount ∧
    (rs.map fun r => r.layout.memSize abi).sum ≤ m.stop - m.ptr ∧
    pool.currentOffset + (rs.map fun r => r.layout.setSize r.variableCount).sum ≤ pool.size

namespace PoolState

/-- A pool without a heap. -/
structure LinearKept (s : PoolState) (m : HostMemory) : Prop where
  hostMemory : s.pool.hostMemory = some m
  entryCount : s.pool.entryCount = s.sets.length
  le_max : s.sets.length ≤ s.pool.maxEntryCount
  max_lt : s.pool.maxEntryCount < 2 ^ 32
  asc : s.sets.Pairwise fun a b => a.set.offset + a.set.size ≤ b.set.offset
  below : ∀ e ∈ s.sets, e.set.offset + e.set.size ≤ s.pool.currentOffset
  dvd_offset : ∀ e ∈ s.sets, 32 ∣ e.set.offset
  dvd_current : 32 ∣ s.pool.currentOffset
  current_le : s.pool.currentOffset ≤ s.pool.size
  /-- so that the sum in `radv_alloc_descriptor_pool_entry` does not wrap -/
  current_bound : s.pool.currentOffset ≤ s.sets.length * (2 ^ 32 - 32)

namespace LinearKept

variable {s : PoolState} {m : HostMemory}

lemma fits_nil (hs : LinearKept s m) (abi : PoolAbi) : s.pool.fits abi m [] = true := by
  have hcount := hs.entryCount
  have hle := hs.le_max
  have hcur := hs.current_le
  simp only [Pool.fits, length_nil, map_nil, sum_nil, decide_eq_true_iff]
  omega

/-- `radv_descriptor_set_create` fails iff there is no room. -/
theorem create (hs : LinearKept s m) (abi : PoolAbi) (r : SetRequest) :
    (s.pool.fits abi m [r] = false ∧ ∃ e, descriptorSetCreate abi r.zalloc s.pool r.layout r.variableCount = .error e) ∨
    (s.pool.fits abi m [r] = true ∧ ∃ set pool,
      descriptorSetCreate abi r.zalloc s.pool r.layout r.variableCount = .ok (set, pool) ∧
      LinearKept (s.withSet pool set) ⟨m.ptr + r.layout.memSize abi, m.stop⟩ ∧
      ∀ rs, pool.fits abi ⟨m.ptr + r.layout.memSize abi, m.stop⟩ rs = s.pool.fits abi m (r :: rs)) := by
  obtain ⟨hdvd, hlt⟩ := setSize_spec r.layout r.variableCount
  have hcount := hs.entryCount
  have hle := hs.le_max
  have hmax := hs.max_lt
  have hbound := hs.current_bound
  have hfits : s.pool.fits abi m [r] = true ↔ s.pool.entryCount + 1 ≤ s.pool.maxEntryCount ∧
      r.layout.memSize abi ≤ m.stop - m.ptr ∧
      s.pool.currentOffset + r.layout.setSize r.variableCount ≤ s.pool.size := by
    simp only [Pool.fits, length_singleton, map_singleton, sum_singleton, decide_eq_true_iff]
  unfold descriptorSetCreate
  by_cases hfull : s.pool.entryCount = s.pool.maxEntryCount
  · left
    rw [if_pos hfull, ← Bool.not_eq_true, hfits]
    exact ⟨by omega, _, rfl⟩
  rw [if_neg hfull]
  simp only [hs.hostMemory]
  by_cases hmem : m.stop - m.ptr < r.layout.memSize abi
  · left
    rw [if_pos hmem, ← Bool.not_eq_true, hfits]
    exact ⟨by omega, _, rfl⟩
  rw [if_neg hmem]
  unfold allocDescriptorPoolEntry
  have hadd : add64 s.pool.currentOffset (r.layout.setSize r.variableCount) =
      s.pool.currentOffset + r.layout.setSize r.variableCount := add64_of_lt (by omega)
  simp only [hadd]
  by_cases hspace : s.pool.currentOffset + r.layout.setSize r.variableCount > s.pool.size
  · left
    rw [if_pos hspace, ← Bool.not_eq_true, hfits]
    exact ⟨by omega, _, rfl⟩
  rw [if_neg hspace]
  right
  have hentry : add32 s.pool.entryCount 1 = s.sets.length + 1 := by
    rw [hcount, add32_of_lt (by omega)]
  refine ⟨hfits.mpr (by omega), _, _, rfl, ⟨rfl, ?_, ?_, hmax, ?_, ?_, ?_, ?_, ?_, ?_⟩, ?_⟩
  · rw [withSet, hentry, length_append, length_singleton]
  · rw [withSet, length_append, length_singleton]
    dsimp only
    omega
  · refine pairwise_append.mpr ⟨hs.asc, pairwise_singleton _ _, fun a ha b hb => ?_⟩
    rw [mem_singleton.mp hb]
    exact hs.below a ha
  · refine forall_mem_append.mpr ⟨fun e he => ?_, forall_mem_singleton.mpr (le_refl _)⟩
    exact (hs.below e he).trans (Nat.le_add_right ..)
  · exact forall_mem_append.mpr ⟨hs.dvd_offset, forall_mem_singleton.mpr hs.dvd_current⟩
  · exact Nat.dvd_add hs.dvd_current hdvd
  · dsimp only [withSet]
    omega
  · rw [withSet, length_append, length_singleton]
    dsimp only
    omega
  · intro rs
    simp only [Pool.fits, hentry, length_cons, map_cons, sum_cons, decide_eq_decide]
    omega

/-- The loop creates all sets iff there is room for all, and none iff there is none for the
first. -/
theorem createLoop (hs : LinearKept s m) (abi : PoolAbi) (rs : List SetRequest) :
    (∃ m', LinearKept (s.createLoop abi rs).1 m') ∧ (s.createLoop abi rs).1.live = s.live ∧
      (s.createLoop abi rs).1.sets = s.sets ++ (s.createLoop abi rs).2.1 ∧
      ((s.createLoop abi rs).2.2 = none ↔ s.pool.fits abi m rs = true) ∧
      (rs ≠ [] → ((s.createLoop abi rs).2.1 = [] ↔ s.pool.fits abi m (rs.take 1) = false)) := by
  induction rs generalizing s m with
  | nil => exact ⟨⟨m, hs⟩, rfl, (append_nil _).symm, iff_of_true rfl (hs.fits_nil abi), fun h => absurd rfl h⟩
  | cons r rs ih =>
    unfold PoolState.createLoop
    rcases hs.create abi r with ⟨hfits, e, hcreate⟩ | ⟨hfits, set, pool, hcreate, hs', hrest⟩
    · -- without room for the first there is none for all
      have hall : s.pool.fits abi m (r :: rs) = false := by
        rw [← Bool.not_eq_true] at hfits ⊢
        intro hall
        apply hfits
        simp only [Pool.fits, length_cons, length_nil, map_cons, map_nil, sum_cons,
          sum_nil, decide_eq_true_iff] at hall ⊢
        omega
      rw [hcreate]
      exact ⟨⟨m, hs⟩, rfl, (append_nil _).symm, by simp [hall], fun _ => by simp [hfits]⟩
    · obtain ⟨⟨m', hkept⟩, hlive, hsets, hnone, -⟩ := ih hs'
      rw [hcreate]
      refine ⟨⟨m', hkept⟩, hlive, ?_, ?_, fun _ => by simp [hfits]⟩
      · exact hsets.trans (append_assoc ..)
      · rw [← hrest]
        exact hnone

end LinearKept

end PoolState

end RadvXclipse.Descriptor
