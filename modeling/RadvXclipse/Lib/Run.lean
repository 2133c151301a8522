import Mathlib.Data.List.Basic

/-!
# Runs of a state machine

A machine is a step relation `step s a s'` on states and labels. `Run` is its finite runs,
extended at the end, so that an induction on a run is an induction on its history; `Trace` is an
infinite run. Runs that keep to a condition are the runs of the restricted relation `step.only`.
-/

namespace RadvXclipse.Lib

variable {σ α : Type*} {step : σ → α → σ → Prop}

/-- `Run step s l t`: the labels `l`, performed in order, lead from `s` to `t`. -/
inductive Run (step : σ → α → σ → Prop) (s : σ) : List α → σ → Prop
  | nil : Run step s [] s
  | snoc {l : List α} {t : σ} {a : α} {u : σ} :
      Run step s l t → step t a u → Run step s (l ++ [a]) u

/-- The steps of a machine that meet a condition on the state before and the label. -/
def only (Q : σ → α → Prop) (step : σ → α → σ → Prop) (s : σ) (a : α) (s' : σ) : Prop :=
  Q s a ∧ step s a s'

section

variable {s t : σ} {l : List α} {next : σ → α → Option σ} {f : ℕ → σ} {label : ℕ → α}

/-- An invariant of the history and the state that holds initially and is kept by every step holds
after every run. -/
theorem Run.invariant {I : List α → σ → Prop} (h : Run step s l t) (h0 : I [] s)
    (hstep : ∀ l s a s', I l s → step s a s' → I (l ++ [a]) s') : I l t := by
  induction h with
  | nil => exact h0
  | snoc _ ha ih => exact hstep _ _ _ _ ih ha

lemma Run.mono {step' : σ → α → σ → Prop} (h : Run step s l t)
    (hstep : ∀ s a s', step s a s' → step' s a s') : Run step' s l t := by
  induction h with
  | nil => exact .nil
  | snoc _ ha ih => exact ih.snoc (hstep _ _ _ ha)

/-- The state that a list of labels leads to, for a machine that is a partial function. -/
def exec (next : σ → α → Option σ) (s : σ) : List α → Option σ
  | [] => some s
  | a :: l => (next s a).bind fun t => exec next t l

lemma Run.cons {s t u : σ} {a : α} {l : List α} (ha : step s a t) (h : Run step t l u) :
    Run step s (a :: l) u := by
  induction h with
  | nil => exact .snoc (l := []) .nil ha
  | snoc _ hb ih => exact ih.snoc hb

lemma run_of_exec (h : exec next s l = some t) : Run (fun s a s' => next s a = some s') s l t := by
  induction l generalizing s with
  | nil =>
    cases h
    exact .nil
  | cons a l ih =>
    obtain ⟨u, hu, hl⟩ := Option.bind_eq_some_iff.mp h
    exact .cons hu (ih hl)

/-- The same for the runs that keep to a condition. -/
theorem run_only_of_exec {Q : σ → α → Prop} [∀ s a, Decidable (Q s a)]
    (h : exec (fun s a => if Q s a then next s a else none) s l = some t) :
    Run (only Q fun s a s' => next s a = some s') s l t :=
  (run_of_exec h).mono fun _ _ _ ha => Option.ite_none_right_eq_some.mp ha

/-- An infinite run: state `f n` performs `label n`. -/
def Trace (step : σ → α → σ → Prop) (f : ℕ → σ) (label : ℕ → α) : Prop :=
  ∀ n, step (f n) (label n) (f (n + 1))

/-- An infinite run with one step before it. -/
theorem Trace.cons {f : ℕ → σ} {label : ℕ → α} (h : Trace step f label) {s : σ} {a : α}
    (ha : step s a (f 0)) :
    Trace step (fun n => Nat.casesOn n s f) fun n => Nat.casesOn n a label := by
  intro n
  cases n with
  | zero => exact ha
  | succ n => exact h n

/-- A run can be continued by an infinite one. -/
theorem Run.trace (h : Run step s l (f 0)) (hf : Trace step f label) :
    ∃ g label', g 0 = s ∧ Trace step g label' ∧ ∀ n, ∃ k, g k = f n := by
  generalize ht : f 0 = t at h
  induction h generalizing f label with
  | nil => exact ⟨f, label, ht, hf, fun n => ⟨n, rfl⟩⟩
  | snoc _ ha ih =>
    subst ht
    obtain ⟨g, label', h0, hg, hvisit⟩ := ih (hf.cons ha) rfl
    exact ⟨g, label', h0, hg, fun n => hvisit (n + 1)⟩

end

end RadvXclipse.Lib
