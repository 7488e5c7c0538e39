import Mathlib.Logic.Function.Basic

/-!
# Runs of a machine under a condition on its steps

A machine is a partial step function on states, driven by actions. A run under
a condition is a sequence of steps each of which meets the condition in the
state before it. What the steps that meet the condition preserve, the run
preserves (`Run.invariant`).
-/

namespace Runs

variable {σ α : Type*} {step : σ → α → Option σ} {C D : σ → α → Prop}

/-- **A run** whose steps all meet a condition. -/
inductive Run (step : σ → α → Option σ) (C : σ → α → Prop) : σ → σ → Prop
  | refl (s : σ) : Run step C s s
  | tail {s t u : σ} (a : α) (h : Run step C s t) (hC : C t a) (hstep : step t a = some u) :
      Run step C s u

namespace Run

/-- A single step. -/
theorem single {s t : σ} (a : α) (hC : C s a) (hstep : step s a = some t) :
    Run step C s t := tail a (refl s) hC hstep

/-- One run after the other. -/
theorem trans {s t u : σ} (h : Run step C s t) (h' : Run step C t u) : Run step C s u := by
  induction h' with
  | refl => exact h
  | tail a _ hC hstep ih => exact tail a ih hC hstep

/-- A weaker condition allows more runs. -/
theorem mono {s t : σ} (hCD : ∀ s a, C s a → D s a) (h : Run step C s t) :
    Run step D s t := by
  induction h with
  | refl => exact refl _
  | tail a _ hC hstep ih => exact tail a ih (hCD _ _ hC) hstep

/-- **The invariant rule**: what every step under the condition preserves holds
at the end of a run if it holds at its beginning. -/
theorem invariant {I : σ → Prop}
    (hstep : ∀ s a t, I s → C s a → step s a = some t → I t) {s t : σ}
    (h : Run step C s t) (hs : I s) : I t := by
  induction h with
  | refl => exact hs
  | tail a _ hC hst ih => exact hstep _ a _ ih hC hst

/-- The steps of a list of actions are a run when no condition is asked for. -/
theorem of_foldlM {s t : σ} (l : List α) (h : l.foldlM step s = some t) :
    Run step (fun _ _ => True) s t := by
  induction l generalizing s with
  | nil =>
    obtain rfl := Option.some.inj h
    exact refl _
  | cons a l ih =>
    rw [List.foldlM_cons] at h
    obtain ⟨u, hstep, h⟩ := Option.bind_eq_some_iff.mp h
    exact (single a trivial hstep).trans (ih h)

end Run

/-- The steps of a list of actions, each of which must meet the condition. -/
def checked (step : σ → α → Option σ) (C : σ → α → Prop) [∀ s a, Decidable (C s a)] (s : σ)
    (l : List α) : Option σ :=
  l.foldlM (fun s a => if C s a then step s a else none) s

/-- The checked steps of a list of actions are a run. -/
theorem Run.of_checked [∀ s a, Decidable (C s a)] {s t : σ} (l : List α)
    (h : checked step C s l = some t) : Run step C s t := by
  induction l generalizing s with
  | nil =>
    obtain rfl := Option.some.inj h
    exact Run.refl _
  | cons a l ih =>
    unfold checked at h
    rw [List.foldlM_cons] at h
    obtain ⟨u, hstep, h⟩ := Option.bind_eq_some_iff.mp h
    obtain ⟨hC, hstep⟩ := Option.ite_none_right_eq_some.mp hstep
    exact (Run.single a hC hstep).trans (ih h)

/-- Where the checked steps of a list of actions lead, or the first state when
one of them fails. -/
def after (step : σ → α → Option σ) (C : σ → α → Prop) [∀ s a, Decidable (C s a)] (s : σ)
    (l : List α) : σ :=
  (checked step C s l).getD s

theorem Run.after [∀ s a, Decidable (C s a)] {s : σ} {l : List α}
    (h : (checked step C s l).isSome) : Run step C s (after step C s l) := by
  obtain ⟨t, ht⟩ := Option.isSome_iff_exists.mp h
  refine Run.of_checked l ?_
  unfold Runs.after
  rw [ht]
  rfl

/-- **A run with the list of its actions.** -/
inductive Trace (step : σ → α → Option σ) (C : σ → α → Prop) : σ → List α → σ → Prop
  | nil (s : σ) : Trace step C s [] s
  | cons {s t u : σ} (a : α) (l : List α) (hC : C s a) (hstep : step s a = some t)
      (h : Trace step C t l u) : Trace step C s (a :: l) u

namespace Trace

/-- A trace is a run. -/
theorem run {s t : σ} {l : List α} (h : Trace step C s l t) : Run step C s t := by
  induction h with
  | nil => exact Run.refl _
  | cons a l hC hstep _ ih => exact (Run.single a hC hstep).trans ih

/-- The checked steps of a list of actions are a trace. -/
theorem of_checked [∀ s a, Decidable (C s a)] {s t : σ} {l : List α}
    (h : checked step C s l = some t) : Trace step C s l t := by
  induction l generalizing s with
  | nil =>
    obtain rfl := Option.some.inj h
    exact nil _
  | cons a l ih =>
    unfold checked at h
    rw [List.foldlM_cons] at h
    obtain ⟨u, hstep, h⟩ := Option.bind_eq_some_iff.mp h
    obtain ⟨hC, hstep⟩ := Option.ite_none_right_eq_some.mp hstep
    exact cons a l hC hstep (ih h)

theorem after [∀ s a, Decidable (C s a)] {s : σ} {l : List α}
    (h : (checked step C s l).isSome) : Trace step C s l (after step C s l) := by
  obtain ⟨t, ht⟩ := Option.isSome_iff_exists.mp h
  refine of_checked ?_
  unfold Runs.after
  rw [ht]
  rfl

end Trace

end Runs
