import Mathlib.Data.Nat.Notation
import Mathlib.Data.Option.Basic

/-!
# Runs of a machine that may raise

A machine is a partial step function; a step that has no result is a raise. The
rules here take a machine through a computation that is described as a whole:
`Ends f P s o Q` says that from `s` the machine, on states of the kind `P` only,
either comes to a state related to the outcome by `Q`, or raises if the outcome
is that there is none. Outcomes compose like the computations they describe
(`Ends.bind`, `Ends.foldlM`), and a machine inside another one takes its runs
along (`Ends.map`).

Where the states passed are those before an end, the machine reaches an end
exactly when there is an outcome (`Ends.reaches_iff`).
-/

namespace PartialRun

variable {σ τ α β : Type*} {f : σ → Option σ} {P : σ → Prop}

/-- A number of steps. -/
def iterate (f : σ → Option σ) : ℕ → σ → Option σ
  | 0, s => some s
  | n + 1, s => (f s).bind (iterate f n)

/-- **From one state to another**, by steps from states of a kind. -/
inductive Leads (f : σ → Option σ) (P : σ → Prop) : σ → σ → Prop
  | refl (s : σ) : Leads f P s s
  | head {s t u : σ} (hs : P s) (hstep : f s = some t) (h : Leads f P t u) : Leads f P s u

namespace Leads

/-- One run after the other. -/
theorem trans {s t u : σ} (h : Leads f P s t) (h' : Leads f P t u) : Leads f P s u := by
  induction h with
  | refl => exact h'
  | head hs hstep _ ih => exact head hs hstep (ih h')

/-- A single step. -/
theorem single {s t : σ} (hs : P s) (hstep : f s = some t) : Leads f P s t :=
  head hs hstep (refl t)

/-- The kind of the states may be said less precisely. -/
theorem mono {P' : σ → Prop} {s t : σ} (h : Leads f P s t) (hP : ∀ s, P s → P' s) :
    Leads f P' s t := by
  induction h with
  | refl s => exact refl s
  | head hs hstep _ ih => exact head (hP _ hs) hstep ih

/-- What the machine reaches, it reaches after a number of steps. -/
theorem exists_iterate {s t : σ} (h : Leads f P s t) : ∃ n, iterate f n s = some t := by
  induction h with
  | refl s => exact ⟨0, rfl⟩
  | head _ hstep _ ih =>
    obtain ⟨n, hn⟩ := ih
    refine ⟨n + 1, ?_⟩
    show (f _).bind _ = _
    rw [hstep]
    exact hn

/-- The machine is deterministic: what a run reaches is on the way or behind it. -/
theorem iterate_cases {s t u : σ} (h : Leads f P s t) {n : ℕ} (hn : iterate f n s = some u) :
    P u ∨ ∃ k, iterate f k t = some u := by
  induction h generalizing n with
  | refl s => exact Or.inr ⟨n, hn⟩
  | head hs hstep _ ih =>
    cases n with
    | zero =>
      obtain rfl := Option.some.inj hn
      exact Or.inl hs
    | succ n =>
      change (f _).bind _ = _ at hn
      rw [hstep] at hn
      exact ih hn

/-- A machine inside another one takes its runs along. -/
theorem map {g : τ → Option τ} {P' : τ → Prop} (e : σ → τ)
    (he : ∀ s, P s → P' (e s) ∧ g (e s) = (f s).map e) {s t : σ} (h : Leads f P s t) :
    Leads g P' (e s) (e t) := by
  induction h with
  | refl s => exact refl _
  | head hs hstep _ ih =>
    refine head (he _ hs).1 ?_ ih
    rw [(he _ hs).2, hstep]
    rfl

end Leads

/-- **The end of a computation**: a state that `Q` relates to the outcome, or a
raise if there is none. -/
inductive Ends (f : σ → Option σ) (P : σ → Prop) (s : σ) : Option α → (α → σ → Prop) → Prop
  | returns {a : α} {Q : α → σ → Prop} {t : σ} (h : Leads f P s t) (hQ : Q a t) :
      Ends f P s (some a) Q
  | raises {Q : α → σ → Prop} {t : σ} (h : Leads f P s t) (ht : P t) (hraise : f t = none) :
      Ends f P s none Q

namespace Ends

variable {s t : σ} {o : Option α} {Q R : α → σ → Prop}

/-- Nothing is left to do. -/
theorem ret {a : α} (h : Q a s) : Ends f P s (some a) Q := returns (.refl s) h

/-- The next step raises. -/
theorem raise (hs : P s) (hraise : f s = none) : Ends f P s (none : Option α) Q :=
  raises (.refl s) hs hraise

/-- The machine runs on to another state first. -/
theorem of_leads (h : Leads f P s t) (h' : Ends f P t o Q) : Ends f P s o Q := by
  cases h' with
  | returns h₁ hQ => exact returns (h.trans h₁) hQ
  | raises h₁ ht hraise => exact raises (h.trans h₁) ht hraise

/-- A step first. -/
theorem step (hs : P s) (hstep : f s = some t) (h : Ends f P t o Q) : Ends f P s o Q :=
  of_leads (.single hs hstep) h

/-- What is known of the end may be less. -/
theorem imp (himp : ∀ a t, Q a t → R a t) (h : Ends f P s o Q) : Ends f P s o R := by
  cases h with
  | returns h hQ => exact returns h (himp _ _ hQ)
  | raises h ht hraise => exact raises h ht hraise

/-- A computation with an outcome gets to it. -/
theorem exists_leads {a : α} (h : Ends f P s (some a) Q) : ∃ t, Leads f P s t ∧ Q a t := by
  cases h with
  | returns h hQ => exact ⟨_, h, hQ⟩

/-- The machine runs on after the outcome. -/
theorem andThen (h : Ends f P s o Q) (hR : ∀ a t, Q a t → ∃ u, Leads f P t u ∧ R a u) :
    Ends f P s o R := by
  cases h with
  | returns h hQ =>
    obtain ⟨u, hu, hR⟩ := hR _ _ hQ
    exact returns (h.trans hu) hR
  | raises h ht hraise => exact raises h ht hraise

/-- **Two states with the same next step** get to the same end, when that is not
the second one already. -/
theorem of_step_eq (hs : P s) (hst : f s = f t) (hQ : ∀ a, ¬ Q a t) (h : Ends f P t o Q) :
    Ends f P s o Q := by
  cases h with
  | returns h hQ' =>
    cases h with
    | refl => exact absurd hQ' (hQ _)
    | head _ hstep h => exact returns (.head hs (hst.trans hstep) h) hQ'
  | raises h ht hraise =>
    cases h with
    | refl => exact raise hs (hst.trans hraise)
    | head _ hstep h => exact raises (.head hs (hst.trans hstep) h) ht hraise

/-- An outcome that is computed from another one. -/
theorem of_map {g : α → β} {R : β → σ → Prop} (h : Ends f P s (o.map g) R) :
    Ends f P s o fun a => R (g a) := by
  cases o with
  | none =>
    cases h with
    | raises h ht hraise => exact raises h ht hraise
  | some a =>
    cases h with
    | returns h hQ => exact returns h hQ

/-- **One computation after the other.** -/
theorem bind {g : α → Option β} {R : β → σ → Prop} (h : Ends f P s o Q)
    (hg : ∀ a t, Q a t → Ends f P t (g a) R) : Ends f P s (o.bind g) R := by
  cases h with
  | returns h hQ => exact of_leads h (hg _ _ hQ)
  | raises h ht hraise => exact raises h ht hraise

/-- **A loop**: what relates the value to the state before an element is
processed relates them afterwards. -/
theorem foldlM {β : Type*} {g : α → β → Option α} {Q : List β → α → σ → Prop}
    (hg : ∀ b l a t, Q (b :: l) a t → Ends f P t (g a b) (Q l)) (l : List β) {a : α}
    (h : Q l a s) : Ends f P s (l.foldlM g a) (Q []) := by
  induction l generalizing a s with
  | nil => exact ret h
  | cons b l ih =>
    rw [List.foldlM_cons]
    exact bind (hg b l a s h) fun a t ht => ih ht

/-- **A machine inside another one** takes its computations along. -/
theorem map {g : τ → Option τ} {P' : τ → Prop} (e : σ → τ)
    (he : ∀ s, P s → P' (e s) ∧ g (e s) = (f s).map e) (h : Ends f P s o Q) :
    Ends g P' (e s) o fun a u => ∃ t, u = e t ∧ Q a t := by
  cases h with
  | returns h hQ => exact returns (h.map e he) ⟨_, rfl, hQ⟩
  | raises h ht hraise =>
    refine raises (h.map e he) (he _ ht).1 ?_
    rw [(he _ ht).2, hraise]
    rfl

end Ends

/-- Before an end there is none: the states on the way to a raise are all a run
passes. -/
theorem not_of_raises {Fin : σ → Prop} {s t u : σ} (h : Leads f (fun s => ¬ Fin s) s t)
    (ht : ¬ Fin t) (hraise : f t = none) {n : ℕ} (hn : iterate f n s = some u) : ¬ Fin u := by
  induction h generalizing n with
  | refl s =>
    cases n with
    | zero =>
      obtain rfl := Option.some.inj hn
      exact ht
    | succ n =>
      change (f s).bind _ = _ at hn
      rw [hraise] at hn
      exact absurd hn (by simp)
  | head hs hstep _ ih =>
    cases n with
    | zero =>
      obtain rfl := Option.some.inj hn
      exact hs
    | succ n =>
      change (f _).bind _ = _ at hn
      rw [hstep] at hn
      exact ih ht hraise hn

/-- **An end is reached exactly when there is an outcome.** -/
theorem Ends.reaches_iff {Fin : σ → Prop} {s : σ} {o : Option α} {Q : α → σ → Prop}
    (h : Ends f (fun s => ¬ Fin s) s o Q) (hQ : ∀ a t, Q a t → Fin t) :
    (∃ n t, iterate f n s = some t ∧ Fin t) ↔ o.isSome := by
  cases h with
  | returns h hQ' =>
    obtain ⟨n, hn⟩ := h.exists_iterate
    exact ⟨fun _ => rfl, fun _ => ⟨n, _, hn, hQ _ _ hQ'⟩⟩
  | raises h ht hraise =>
    refine ⟨?_, fun hsome => absurd hsome (by simp)⟩
    rintro ⟨n, u, hn, hu⟩
    exact absurd hu (not_of_raises h ht hraise hn)

end PartialRun
