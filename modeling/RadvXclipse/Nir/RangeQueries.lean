import RadvXclipse.Nir.RangeAnalysis

/-!
# Runs of an analysis

`perform_analysis` works off a stack of queries and shares results through a table. What it computes
is said here without the stacks: for a property of scalars and results that each result has if the
results it is made of have it, every query ends, and its result and all results in the table have
the property.
-/

namespace RadvXclipse.Nir

open Util List Function Analysis

/-- A key stands for one scalar, and no query needs its own result. -/
structure Analysis.Ok (A : Analysis) : Prop where
  key_inj : ∀ s t, A.key s ≠ uint32Max → A.key t = A.key s → t = s
  acyclic : ∃ rank : Scalar → ℕ, ∀ s, ∀ t ∈ A.sources s, rank t < rank s

/-! ## Steps -/

section Steps

variable (A : Analysis)

/-- Some number of rounds. -/
def Reaches (st st' : AnalysisState) : Prop := ∃ n, A.step^[n] st = st'

variable {A}

lemma Reaches.refl (st : AnalysisState) : Reaches A st st := ⟨0, rfl⟩

theorem Reaches.step (st : AnalysisState) : Reaches A st (A.step st) := ⟨1, rfl⟩

lemma Reaches.trans {a b c : AnalysisState} (hab : Reaches A a b) (hbc : Reaches A b c) : Reaches A a c := by
  obtain ⟨n, rfl⟩ := hab
  obtain ⟨m, rfl⟩ := hbc
  exact ⟨m + n, iterate_add_apply _ m n a⟩

variable {s : Scalar} {rest : List Query} {results : List ℕ} {ht : ℕ → Option ℕ} {i : ℕ}

/-- The table has the result. -/
theorem step_lookup {v : ℕ} (h : A.lookup ⟨⟨s, 0, i⟩ :: rest, results, ht⟩ ⟨s, 0, i⟩ = some v) :
    A.step ⟨⟨s, 0, i⟩ :: rest, results, ht⟩ = ⟨rest, results.set i v, ht⟩ := by
  simp only [step, h]

/-- A query pushes queries for its sources. -/
theorem step_push (h : A.lookup ⟨⟨s, 0, i⟩ :: rest, results, ht⟩ ⟨s, 0, i⟩ = none)
    (hsources : A.sources s ≠ []) :
    A.step ⟨⟨s, 0, i⟩ :: rest, results, ht⟩ =
      (A.sources s).foldl pushScalarQuery ⟨⟨s, (A.sources s).length, i⟩ :: rest,
        results.set i (A.initial s), ht⟩ := by
  simp only [step, h]
  rw [if_pos ⟨trivial, hsources⟩, Nat.sub_zero, take_length]

/-- A query with the results of its sources. -/
theorem step_finish {us : List ℕ}
    (hnone : A.lookup ⟨⟨s, us.length, i⟩ :: rest, results ++ us, ht⟩ ⟨s, us.length, i⟩ = none)
    (h : us.length = (A.sources s).length) :
    A.step ⟨⟨s, us.length, i⟩ :: rest, results ++ us, ht⟩ =
      ⟨rest, results.set i (A.result s us), A.store ht s (A.result s us)⟩ := by
  have hlen : (results ++ us).length - us.length = results.length := by
    rw [length_append, Nat.add_sub_cancel]
  have hcond : ¬ (us.length = 0 ∧ A.sources s ≠ []) := by
    rintro ⟨hzero, hne⟩
    exact hne (length_eq_zero_iff.mp (by omega))
  simp only [step, hnone]
  rw [if_neg hcond, hlen, drop_left, take_left]

end Steps

/-! ## Queries -/

section Queries

variable (A : Analysis) (P : Scalar → ℕ → Prop)

/-- All results in the table have the property. -/
def Analysis.Table (ht : ℕ → Option ℕ) : Prop :=
  ∀ s u, A.key s ≠ uint32Max → ht (A.key s) = some u → P s u

/-- A result has the property if the results it is made of have it. -/
def Analysis.Transfer : Prop := ∀ s us, Forall₂ P (A.sources s) us → P s (A.result s us)

/-- A query of the scalar ends, whatever is below it on the stacks, and leaves a result with the
property. -/
def Ends (s : Scalar) : Prop :=
  ∀ rest results i ht, i < results.length → A.Table P ht →
    ∃ u ht', Reaches A ⟨⟨s, 0, i⟩ :: rest, results, ht⟩ ⟨rest, results.set i u, ht'⟩ ∧ P s u ∧ A.Table P ht'

variable {A P}

variable {ht : ℕ → Option ℕ} {s : Scalar} {fuel : ℕ}

theorem Analysis.Table.empty : A.Table P fun _ => none := nofun

theorem Analysis.Table.store (hA : A.Ok) (hht : A.Table P ht) {u : ℕ} (hu : P s u) :
    A.Table P (A.store ht s u) := by
  unfold Analysis.store
  split
  · rename_i hkey
    intro t v htkey htv
    rw [update_apply, ite_eq_iff] at htv
    rcases htv with ⟨heq, ⟨⟩⟩ | ⟨-, htv⟩
    · rw [hA.key_inj s t hkey heq]
      exact hu
    · exact hht t v htkey htv
  · exact hht

/-- The queries that have been pushed end one after the other, the last one first. -/
theorem ends_foldl {sources : List Scalar} (h : ∀ t ∈ sources, Ends A P t) (st : AnalysisState)
    (hst : A.Table P st.rangeHt) :
    ∃ us ht', Reaches A (sources.foldl pushScalarQuery st) ⟨st.queryStack, st.resultStack ++ us, ht'⟩ ∧
      Forall₂ P sources us ∧ A.Table P ht' := by
  induction sources generalizing st with
  | nil => exact ⟨[], st.rangeHt, by rw [append_nil]; exact .refl st, .nil, hst⟩
  | cons t sources ih =>
    obtain ⟨us, ht', hreach, hus, hht'⟩ :=
      ih (fun t' ht' => h t' (mem_cons_of_mem t ht')) (pushScalarQuery st t) hst
    -- what is left is the query of `t`, whose result is before those of the others
    rcases h t mem_cons_self st.queryStack (st.resultStack ++ [0] ++ us) st.resultStack.length ht'
      (by rw [length_append, length_append, length_singleton]; omega) hht' with ⟨u, ht'', hreach', hu, hht''⟩
    refine ⟨u :: us, ht'', ?_, .cons hu hus, hht''⟩
    have hset : (st.resultStack ++ [0] ++ us).set st.resultStack.length u = st.resultStack ++ u :: us := by
      rw [append_assoc, set_append_right _ _ le_rfl, Nat.sub_self]
      rfl
    rw [hset] at hreach'
    exact hreach.trans hreach'

lemma ends_of_sources (hA : A.Ok) (hP : A.Transfer P) (h : ∀ t ∈ A.sources s, Ends A P t) : Ends A P s := by
  intro rest results i ht hi hht
  cases hlookup : A.lookup ⟨⟨s, 0, i⟩ :: rest, results, ht⟩ ⟨s, 0, i⟩ with
  | some v =>
    have hv : P s v := by
      rw [Analysis.lookup, Option.ite_none_right_eq_some] at hlookup
      exact hht s v hlookup.1.2 hlookup.2
    refine ⟨v, ht, ?_, hv, hht⟩
    rw [← step_lookup hlookup]
    exact .step _
  | none =>
    by_cases hsources : A.sources s = []
    · -- the result depends on no other
      have hu : P s (A.result s []) := hP s [] (by rw [hsources]; exact .nil)
      refine ⟨_, _, ?_, hu, hht.store hA hu⟩
      have hfinish := @step_finish A s rest results ht i [] (by rw [append_nil]; exact hlookup)
        (by rw [hsources]; rfl)
      rw [append_nil] at hfinish
      rw [← hfinish]
      exact .step _
    · rcases ends_foldl h ⟨⟨s, (A.sources s).length, i⟩ :: rest, results.set i (A.initial s), ht⟩ hht
        with ⟨us, ht', hreach, hus, hht'⟩
      have hlen : us.length = (A.sources s).length := hus.length_eq.symm
      have hpos : us.length ≠ 0 := by
        rw [hlen]
        exact fun hzero => hsources (length_eq_zero_iff.mp hzero)
      have hu : P s (A.result s us) := hP s us hus
      refine ⟨_, _, ?_, hu, hht'.store hA hu⟩
      rw [← step_push hlookup hsources] at hreach
      have hfinish := @step_finish A s rest (results.set i (A.initial s)) ht' i us
        (if_neg fun hq => hpos hq.1) hlen
      rw [set_set] at hfinish
      apply (Reaches.step _).trans
      apply hreach.trans
      rw [← hlen, ← hfinish]
      exact .step _

/-- Every query ends, by induction on the height of the expression. -/
theorem ends (hA : A.Ok) (hP : A.Transfer P) (s : Scalar) : Ends A P s := by
  obtain ⟨rank, hrank⟩ := hA.acyclic
  induction hn : rank s using Nat.strong_induction_on generalizing s with
  | _ n ih =>
    apply ends_of_sources hA hP
    intro t ht
    have hlt := hrank s t ht
    exact ih (rank t) (by omega) t rfl

/-- `perform_analysis` returns. -/
theorem Analysis.Table.returns (hht : A.Table P ht) (hA : A.Ok) (hP : A.Transfer P) (s : Scalar) :
    ∃ fuel u ht', A.perform fuel ht s = some (u, ht') ∧ P s u ∧ A.Table P ht' := by
  obtain ⟨u, ht', ⟨fuel, hreach⟩, hu, hht'⟩ := ends hA hP s [] [0] 0 ht (by decide) hht
  refine ⟨fuel, u, ht', ?_, hu, hht'⟩
  unfold perform pushScalarQuery
  dsimp only [length_nil, nil_append]
  rw [hreach]
  rfl

/-- What it returns does not change with more rounds, since those after the last query do
nothing. -/
theorem Analysis.perform_mono {r : ℕ × (ℕ → Option ℕ)} (h : A.perform fuel ht s = some r) (n : ℕ) :
    A.perform (n + fuel) ht s = some r := by
  unfold perform at h ⊢
  rw [iterate_add_apply]
  generalize A.step^[fuel] _ = st at h ⊢
  rw [Option.ite_none_right_eq_some] at h
  have hfix : A.step st = st := by
    cases st
    cases List.isEmpty_iff.mp h.1
    rfl
  rw [iterate_fixed hfix, if_pos h.1]
  exact h.2

lemma Analysis.Table.of_perform {u : ℕ} {ht' : ℕ → Option ℕ} (hht : A.Table P ht) (hA : A.Ok)
    (hP : A.Transfer P) (h : A.perform fuel ht s = some (u, ht')) : P s u ∧ A.Table P ht' := by
  obtain ⟨fuel', u', ht'', hret, hu, hht''⟩ := hht.returns hA hP s
  have hle := perform_mono h fuel'
  rw [add_comm, perform_mono hret] at hle
  cases hle
  exact ⟨hu, hht''⟩

end Queries

/-! ## Upper bounds -/

section UpperBounds

variable {sh : Shader} {s t : Scalar} {ht : ℕ → Option ℕ} {P : Scalar → ℕ → Prop} {fuel : ℕ}

lemma getUubScalarKey_of_ne (h : getUubScalarKey sh s ≠ uint32Max) :
    getUubScalarKey sh s = (s.index + 1) * 16 + s.comp := by
  unfold getUubScalarKey at h ⊢
  split at h
  · exact absurd rfl h
  · split at h
    · exact absurd rfl h
    · rename_i hsup
      rw [if_neg hsup]
  · rfl

lemma scalar_key_inj (h : ((t.index : ℕ) + 1) * 16 + t.comp = (s.index + 1) * 16 + s.comp) : t = s := by
  have hindex : t.index = s.index := Fin.ext (by omega)
  have hcomp : t.comp = s.comp := Fin.ext (by omega)
  cases t
  cases s
  exact congrArg₂ Scalar.mk hindex hcomp

lemma mem_srcs_of_mem_querySources (h : t ∈ querySources sh s) : t ∈ (sh.instr s).srcs := by
  unfold querySources at h
  cases hinstr : sh.instr s with
  | const v =>
    rw [hinstr] at h
    exact h
  | intrinsic k srcs =>
    rw [hinstr] at h
    cases k with
    | leaf _ => exact absurd h not_mem_nil
    | mbcnt => exact mem_of_mem_drop (mem_of_mem_take h)
    | scan _ _ => exact mem_of_mem_take h
    | lane => exact mem_of_mem_take h
    | twoLanes => exact mem_of_mem_take h
  | alu op srcs =>
    rw [hinstr] at h
    dsimp only at h ⊢
    split at h
    · exact absurd h not_mem_nil
    · exact h
  | other =>
    rw [hinstr] at h
    exact h

lemma uub_ok (sh : Shader) : (uub sh).Ok where
  key_inj s t hs h := by
    change getUubScalarKey sh t = getUubScalarKey sh s at h
    have ht : getUubScalarKey sh t ≠ uint32Max := h ▸ hs
    rw [getUubScalarKey_of_ne hs, getUubScalarKey_of_ne ht] at h
    exact scalar_key_inj h
  acyclic := by
    obtain ⟨rank, hrank⟩ := sh.acyclic
    exact ⟨rank, fun s t ht => hrank s t (mem_srcs_of_mem_querySources ht)⟩

/-- The tables that calls with one table after the other leave. -/
inductive Queried (sh : Shader) : (ℕ → Option ℕ) → Prop
  | empty : Queried sh fun _ => none
  | query {ht ht' : ℕ → Option ℕ} {fuel u : ℕ} {s : Scalar} (h : Queried sh ht)
      (hquery : unsignedUpperBound sh fuel ht s = some (u, ht')) : Queried sh ht'

theorem Queried.table (hP : (uub sh).Transfer P) (h : Queried sh ht) : (uub sh).Table P ht := by
  induction h with
  | empty => exact .empty
  | query _ hquery ih => exact (ih.of_perform (uub_ok sh) hP hquery).2

/-- Every call with a table that calls have left returns, with a result that has the property. -/
theorem Queried.returns (hP : (uub sh).Transfer P) (h : Queried sh ht) (s : Scalar) :
    ∃ fuel u ht', unsignedUpperBound sh fuel ht s = some (u, ht') ∧ P s u ∧ Queried sh ht' := by
  obtain ⟨fuel, u, ht', hret, hu, _⟩ := (h.table hP).returns (uub_ok sh) hP s
  exact ⟨fuel, u, ht', hret, hu, h.query hret⟩

end UpperBounds

end RadvXclipse.Nir
