/-!
# Steps that may fail

A computation in `Except` that is made of steps comes to a result if and only if
every step does, and it fails with the error of the first step that does not.
These are the rules by which a long computation is taken apart into its steps:
one for each way of putting two of them together (`bind`, `map`), and for each
outcome.
-/

section ExceptRules

variable {ε α β : Type} {x : Except ε α}

/-- What a step and its continuation result in. -/
theorem bind_eq_ok {f : α → Except ε β} {b : β} (h : x.bind f = .ok b) :
    ∃ a, x = .ok a ∧ f a = .ok b := by
  cases x with
  | error e => exact absurd h (by simp [Except.bind])
  | ok a => exact ⟨a, rfl, h⟩

theorem map_eq_ok {f : α → β} {b : β} (h : x.map f = .ok b) : ∃ a, x = .ok a ∧ f a = b := by
  cases x with
  | error e => exact absurd h (by simp [Except.map])
  | ok a => exact ⟨a, rfl, Except.ok.inj h⟩

/-- Where a failure comes from: the step, or its continuation. -/
theorem bind_eq_error {f : α → Except ε β} {e : ε} (h : x.bind f = .error e) :
    x = .error e ∨ ∃ a, x = .ok a ∧ f a = .error e := by
  cases x with
  | error e' => exact Or.inl (by simpa [Except.bind] using h)
  | ok a => exact Or.inr ⟨a, rfl, h⟩

theorem map_eq_error {f : α → β} {e : ε} (h : x.map f = .error e) : x = .error e := by
  cases x with
  | error e' => simpa [Except.map] using h
  | ok a => exact absurd h (by simp [Except.map])

end ExceptRules
