import Cbe.Support.VersionedStore

/-!
# Stores that survive a crash

A store with versions that is secured from time to time. A crash takes it back to the state
that was secured last, so of the accesses before it those survive that were secured by then
(`Survivors`). A run leaves the content that the surviving accesses leave (`Run.current`).
-/

/-- What happens to a store that can crash. -/
inductive DurableEvent (κ α : Type*) where
  | access (log : List (StoreHistory.Access κ α))
  | secure
  | crash

/-- **A store that can crash**: the state at hand, and the one that was secured last. -/
structure DurableStore (κ α γ : Type*) where
  /-- The state at hand. -/
  now : VersionedStore κ α γ
  /-- The state that was secured last. -/
  safe : VersionedStore κ α γ

/-- The accesses that count for the state at hand, and those that a crash leaves. -/
structure Survivors (κ α : Type*) where
  /-- Those that count for the state at hand. -/
  now : List (StoreHistory.Access κ α)
  /-- Those that a crash leaves. -/
  safe : List (StoreHistory.Access κ α)

namespace Survivors

variable {κ α : Type*}

/-- What one event does. -/
def after (s : Survivors κ α) : DurableEvent κ α → Survivors κ α
  | .access log => { s with now := s.now ++ log }
  | .secure => ⟨s.now, s.now⟩
  | .crash => ⟨s.safe, s.safe⟩

/-- **The accesses that survive** some events. -/
def of (events : List (DurableEvent κ α)) : Survivors κ α := events.foldl after ⟨[], []⟩

end Survivors

namespace DurableStore

open StoreHistory

variable {κ α γ : Type*} [DecidableEq κ] [Preorder γ]

/-- **A step** of a store that can crash. -/
inductive Step : DurableStore κ α γ → DurableEvent κ α → DurableStore κ α γ → Prop
  | access {now now' safe : VersionedStore κ α γ} {log : List (Access κ α)}
      (h : VersionedStore.Step now log now') : Step ⟨now, safe⟩ (.access log) ⟨now', safe⟩
  | secure {now now' safe : VersionedStore κ α γ} (h : VersionedStore.Step now [] now') :
      Step ⟨now, safe⟩ .secure ⟨now', now'⟩
  | crash (now safe : VersionedStore κ α γ) : Step ⟨now, safe⟩ .crash ⟨safe, safe⟩

/-- **A run** with the list of its events. -/
inductive Run : DurableStore κ α γ → List (DurableEvent κ α) → DurableStore κ α γ → Prop
  | nil (s : DurableStore κ α γ) : Run s [] s
  | cons {s t u : DurableStore κ α γ} {e : DurableEvent κ α} {es : List (DurableEvent κ α)}
      (hstep : Step s e t) (h : Run t es u) : Run s (e :: es) u

variable {s t : DurableStore κ α γ} {e : DurableEvent κ α} {es : List (DurableEvent κ α)}

/-- Both states are what some accesses leave of a content. -/
structure Holds (content : κ → α) (s : DurableStore κ α γ) (surv : Survivors κ α) : Prop where
  /-- The state at hand is what its accesses leave. -/
  now : s.now.current = contentAfter content surv.now
  /-- So is the state that was secured last. -/
  safe : s.safe.current = contentAfter content surv.safe

omit [Preorder γ] in
/-- A store at rest holds its own content. -/
theorem Holds.refl (v : VersionedStore κ α γ) : Holds v.current ⟨v, v⟩ ⟨[], []⟩ := ⟨rfl, rfl⟩

/-- **The step lemma.** -/
theorem Holds.step {content : κ → α} {surv : Survivors κ α} (h : Holds content s surv)
    (hstep : Step s e t) : Holds content t (surv.after e) := by
  cases hstep with
  | access hacc =>
    refine ⟨?_, h.safe⟩
    rw [hacc.current, h.now]
    exact (VersionedStore.contentAfter_append content _ _).symm
  | secure hacc =>
    have hnow := hacc.current.trans h.now
    exact ⟨hnow, hnow⟩
  | crash => exact ⟨h.safe, h.safe⟩

/-- **After a run** the store holds what the surviving accesses leave. -/
theorem Holds.run {content : κ → α} {surv : Survivors κ α} (h : Holds content s surv)
    (hrun : Run s es t) : Holds content t (es.foldl Survivors.after surv) := by
  induction hrun generalizing surv with
  | nil => exact h
  | cons hstep _ ih => exact ih (h.step hstep)

/-- **The content after a run** from a store at rest. -/
theorem Run.current {v : VersionedStore κ α γ} (h : Run ⟨v, v⟩ es t) :
    t.now.current = contentAfter v.current (Survivors.of es).now := ((Holds.refl v).run h).now

end DurableStore
