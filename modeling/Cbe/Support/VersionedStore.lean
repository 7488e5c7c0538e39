import Cbe.Support.StoreHistory
import Mathlib.Order.Basic

/-!
# Stores with versions

A store that keeps earlier contents of itself. It has a current content, which its writes
change, a stamp, which only grows, and versions, each under the stamp that the store had
when the version was put aside. A step may put the current content aside under the stamp
at hand, raise the stamp and lose versions; it never changes one. A write takes place under
the stamp that the clock of the store shows.

A run with a log of writes leaves the content that the log leaves (`Run.current`), and
each version at its end was there at its beginning or is the content at a place in the log
(`Run.past`). So a version is the same whenever it is there (`Run.past_eq`). The current
content is under the stamp at hand, and it is settled when the clock has passed the stamp:
the next write goes under another stamp, so what was there is the same whenever that stamp
still is (`Run.has_eq`).
-/

/-- **A store with versions**, under stamps. -/
@[ext]
structure VersionedStore (κ α γ : Type*) where
  /-- The content at hand. -/
  current : κ → α
  /-- The stamp of the content at hand. -/
  stamp : γ
  /-- The stamp that a write gets. -/
  clock : γ
  /-- The contents of the versions that are kept. -/
  past : γ → Option (κ → α)

namespace VersionedStore

open StoreHistory

variable {κ α γ : Type*} [DecidableEq κ] [Preorder γ]

/-- **A step** with the accesses of it. -/
structure Step (s : VersionedStore κ α γ) (log : List (Access κ α)) (t : VersionedStore κ α γ) :
    Prop where
  /-- The content is what the accesses leave. -/
  current : t.current = contentAfter s.current log
  /-- Stamps grow. -/
  stamp_le : s.stamp ≤ t.stamp
  /-- The clock goes on. -/
  clock_le : s.clock ≤ t.clock
  /-- A write takes place under the stamp that the clock shows. -/
  written : log = [] ∨ t.stamp = s.clock
  /-- A version was kept before, or it is the content that was left behind. -/
  past : ∀ g c, t.past g = some c →
    s.past g = some c ∨ (g = s.stamp ∧ g < t.stamp ∧ c = s.current)

/-- **A run** with the log of its accesses. -/
inductive Run : VersionedStore κ α γ → List (Access κ α) → VersionedStore κ α γ → Prop
  | nil (s : VersionedStore κ α γ) : Run s [] s
  | cons {s t u : VersionedStore κ α γ} {log log' : List (Access κ α)} (hstep : Step s log t)
      (h : Run t log' u) : Run s (log ++ log') u

/-- **The content under a stamp**: a version, or the current content. -/
def Has (s : VersionedStore κ α γ) (g : γ) (c : κ → α) : Prop :=
  s.past g = some c ∨ g = s.stamp ∧ c = s.current

/-- The versions are older than the stamp. -/
def Dated (s : VersionedStore κ α γ) : Prop := ∀ g c, s.past g = some c → g < s.stamp

variable {s t : VersionedStore κ α γ} {log : List (Access κ α)} {g : γ} {c c' : κ → α}

omit [Preorder γ] in
/-- The accesses of two logs, one after the other. -/
theorem contentAfter_append (content : κ → α) (log log' : List (Access κ α)) :
    contentAfter content (log ++ log') = contentAfter (contentAfter content log) log' :=
  List.foldl_append

/-- **The content after a run** is that after its log. -/
theorem Run.current (h : Run s log t) : t.current = contentAfter s.current log := by
  induction h with
  | nil => rfl
  | cons hstep _ ih => rw [ih, hstep.current, contentAfter_append]

/-- The stamp only grows. -/
theorem Run.stamp_le (h : Run s log t) : s.stamp ≤ t.stamp := by
  induction h with
  | nil => exact le_rfl
  | cons hstep _ ih => exact hstep.stamp_le.trans ih

/-- **Where a version comes from**: it was there when the run began, or it is the content
that a first part of the log left. -/
theorem Run.past (h : Run s log t) (hg : t.past g = some c) :
    s.past g = some c
      ∨ (s.stamp ≤ g ∧ ∃ pre, pre <+: log ∧ c = contentAfter s.current pre) := by
  induction h with
  | nil => exact Or.inl hg
  | @cons s t u log log' hstep _ ih =>
    rcases ih hg with ht | ⟨hle, pre, hpre, hc⟩
    · rcases hstep.past g c ht with hs | ⟨rfl, -, rfl⟩
      · exact Or.inl hs
      · exact Or.inr ⟨le_rfl, [], List.nil_prefix, rfl⟩
    · refine Or.inr ⟨hstep.stamp_le.trans hle, log ++ pre, ?_, ?_⟩
      · exact (List.prefix_append_right_inj log).mpr hpre
      · rw [hc, hstep.current, contentAfter_append]

/-- **A version does not change**: when it is there before a run and after it, it is the
same. -/
theorem Run.past_eq (h : Run s log t) (hs : s.Dated) (hg : s.past g = some c)
    (hg' : t.past g = some c') : c' = c := by
  rcases h.past hg' with hold | ⟨hle, -⟩
  · exact Option.some.inj (hold.symm.trans hg)
  · exact absurd (hs g c hg) (not_lt_of_ge hle)

/-- **Where a content comes from**: it was a version when the run began, or it is what a
first part of the log left. -/
theorem Run.has (h : Run s log t) (hg : t.Has g c) :
    s.past g = some c
      ∨ (s.stamp ≤ g ∧ ∃ pre, pre <+: log ∧ c = contentAfter s.current pre) := by
  rcases hg with hpast | ⟨rfl, rfl⟩
  · exact h.past hpast
  · exact Or.inr ⟨h.stamp_le, log, List.prefix_rfl, h.current⟩

section Settled

variable {γ : Type*} [PartialOrder γ] {s t : VersionedStore κ α γ} {g : γ} {c₀ : κ → α}

/-- **A stamp that the clock has passed keeps its content**, under whatever it is found: no
write takes place under it any more. -/
theorem Run.settled (h : Run s log t) (hclock : g < s.clock) (hle : g ≤ s.stamp)
    (hs : ∀ c, s.Has g c → c = c₀) : ∀ c, t.Has g c → c = c₀ := by
  induction h with
  | nil => exact hs
  | @cons s t u log log' hstep _ ih =>
    refine ih (hclock.trans_le hstep.clock_le) (hle.trans hstep.stamp_le) fun c hc => ?_
    rcases hc with hpast | ⟨hg, rfl⟩
    · rcases hstep.past g c hpast with hold | ⟨hg, -, rfl⟩
      · exact hs c (Or.inl hold)
      · exact hs _ (Or.inr ⟨hg, rfl⟩)
    · -- the stamp is still the same, so nothing was written
      have hstamp : g = s.stamp := le_antisymm hle (hg ▸ hstep.stamp_le)
      rcases hstep.written with hnil | hwritten
      · rw [hstep.current, hnil]
        exact hs _ (Or.inr ⟨hstamp, rfl⟩)
      · exact absurd (hg.trans hwritten) hclock.ne

/-- **What is under a stamp does not change**: when it is there before a run and after it,
it is the same, be it a version or the current content, unless it is the current content
and the clock shows its stamp. -/
theorem Run.has_eq (h : Run s log t) (hs : s.Dated) {c c' : κ → α} (hg : s.Has g c)
    (hsettled : g = s.stamp → g < s.clock) (hg' : t.Has g c') : c' = c := by
  rcases hg with hpast | ⟨hstamp, rfl⟩
  · have hlt := hs g c hpast
    rcases hg' with hpast' | ⟨hstamp', -⟩
    · exact h.past_eq hs hpast hpast'
    · exact absurd hlt (not_lt_of_ge (hstamp' ▸ h.stamp_le))
  · refine h.settled (hsettled hstamp) hstamp.le (fun c hc => ?_) c' hg'
    rcases hc with hpast | ⟨-, rfl⟩
    · exact absurd hstamp (hs g c hpast).ne
    · rfl

end Settled

end VersionedStore
