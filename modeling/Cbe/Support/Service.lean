import Mathlib.Data.List.Basic
import Mathlib.Data.Option.Basic

/-!
# A service that answers one job at a time

A service has a state, takes jobs and answers each with a result and a new state, or does not
admit it. `Service.Served` says what the history of such a service looks like: the jobs that
were accepted, the answers that were given, and the job that waits. It is kept by accepting a
job when none waits (`Served.accept`) and by answering the one that waits (`Served.answer`).

A component that keeps such a history, whatever it does in between, answers every job once,
in the order of acceptance, as if each were served in one step.
-/

/-- **A service**: its answer to a job in a state. -/
structure Service (σ ι ρ : Type*) where
  /-- The answer to a job, with the next state. -/
  answer : σ → ι → Option (ρ × σ)

namespace Service

variable {σ ι ρ : Type*} {S : Service σ ι ρ}

/-- The answers to jobs that are served one after the other. -/
def answerAll (S : Service σ ι ρ) : σ → List ι → Option (List ρ × σ)
  | s, [] => some ([], s)
  | s, job :: jobs =>
    (S.answer s job).bind fun a => (S.answerAll a.2 jobs).map fun b => (a.1 :: b.1, b.2)

/-- One more job is served after the others. -/
theorem answerAll_concat {s t u : σ} {jobs : List ι} {results : List ρ} {job : ι} {r : ρ}
    (h : S.answerAll s jobs = some (results, t)) (hr : S.answer t job = some (r, u)) :
    S.answerAll s (jobs ++ [job]) = some (results ++ [r], u) := by
  induction jobs generalizing s results with
  | nil =>
    obtain ⟨rfl, rfl⟩ := Prod.mk.inj (Option.some.inj h)
    show (S.answer s job).bind _ = _
    rw [hr]
    rfl
  | cons j jobs ih =>
    obtain ⟨a, ha, h⟩ := Option.bind_eq_some_iff.mp h
    obtain ⟨⟨rest, u⟩, hb, h⟩ := Option.map_eq_some_iff.mp h
    obtain ⟨rfl, rfl⟩ := Prod.mk.inj h
    show (S.answer s j).bind _ = _
    rw [ha]
    show (S.answerAll a.2 (jobs ++ [job])).map _ = _
    rw [ih hb]
    rfl

/-- As many answers as jobs. -/
theorem length_answerAll {s t : σ} {jobs : List ι} {results : List ρ}
    (h : S.answerAll s jobs = some (results, t)) : results.length = jobs.length := by
  induction jobs generalizing s results with
  | nil =>
    obtain ⟨rfl, -⟩ := Prod.mk.inj (Option.some.inj h)
    rfl
  | cons j jobs ih =>
    obtain ⟨a, -, h⟩ := Option.bind_eq_some_iff.mp h
    obtain ⟨⟨rest, u⟩, hb, h⟩ := Option.map_eq_some_iff.mp h
    obtain ⟨rfl, rfl⟩ := Prod.mk.inj h
    exact congrArg (· + 1) (ih hb)

/-- **The history of a service** up to a state: the jobs that it accepted are those that it
answered, in this order, and the one that waits, and the answers are those of serving them one
after the other. -/
def Served (S : Service σ ι ρ) (s : σ) (accepted : List ι) (answered : List ρ) (t : σ)
    (waiting : Option ι) : Prop :=
  ∃ jobs, accepted = jobs ++ waiting.toList ∧ S.answerAll s jobs = some (answered, t)

namespace Served

variable {s t u : σ} {accepted : List ι} {answered : List ρ} {job : ι} {r : ρ}

/-- Nothing was accepted. -/
theorem nil (s : σ) : S.Served s [] [] s none := ⟨[], rfl, rfl⟩

/-- **A job is accepted** when none waits. -/
theorem accept (h : S.Served s accepted answered t none) (job : ι) :
    S.Served s (accepted ++ [job]) answered t (some job) := by
  obtain ⟨jobs, rfl, hjobs⟩ := h
  rw [Option.toList_none, List.append_nil]
  exact ⟨jobs, rfl, hjobs⟩

/-- **The job that waits is answered.** -/
theorem answer (h : S.Served s accepted answered t (some job))
    (hr : S.answer t job = some (r, u)) : S.Served s accepted (answered ++ [r]) u none := by
  obtain ⟨jobs, rfl, hjobs⟩ := h
  refine ⟨jobs ++ [job], ?_, answerAll_concat hjobs hr⟩
  rw [Option.toList_some, Option.toList_none, List.append_nil]

/-- The number of answers. -/
theorem length_eq {waiting : Option ι} (h : S.Served s accepted answered t waiting) :
    accepted.length = answered.length + waiting.toList.length := by
  obtain ⟨jobs, rfl, hjobs⟩ := h
  rw [List.length_append, length_answerAll hjobs]

end Served

end Service
