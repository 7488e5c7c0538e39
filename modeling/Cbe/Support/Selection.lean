import Mathlib.Data.List.FinRange
import Mathlib.Order.Basic

/-!
# Selecting the first maximum of a scan

A recurring loop runs over the slots of a table, keeps the best candidate
seen so far and replaces it only by a strictly better one. What it ends with
is the first candidate whose key no other candidate exceeds.

`firstMax p key l` is that loop over the list `l`, for the candidates that
satisfy `p`. The lemmas say what it returns without mentioning the scan:
a candidate with the greatest key (`firstMax_spec`), nothing exactly when
there is no candidate (`firstMax_eq_none_iff`), and the strict maximum when
there is one (`firstMax_eq_some_of_lt`). The order is any linear order, so a
scan for the least key is the same loop over the dual order.
-/

namespace Selection

variable {α β : Type} [LinearOrder β]

/-- One round of the scan: the candidate at hand replaces the best one so
far when there is none yet or when its key is strictly greater. -/
def pick (p : α → Prop) [DecidablePred p] (key : α → β) (best : Option α)
    (a : α) : Option α :=
  if p a ∧ best.all (fun b => decide (key b < key a)) = true then some a else best

/-- **The first maximum of a scan** over `l` among the elements that
satisfy `p`. -/
def firstMax (p : α → Prop) [DecidablePred p] (key : α → β) (l : List α) :
    Option α :=
  l.foldl (pick p key) none

variable {p : α → Prop} [DecidablePred p] {key : α → β}

/-- What a scan owes for the elements `seen` it went over: a best element
is one of them and dominates all candidates among them, and there is none
only if there was no candidate. -/
structure IsBest (p : α → Prop) (key : α → β) (seen : List α)
    (best : Option α) : Prop where
  /-- The best element is a candidate that was seen. -/
  mem : ∀ b ∈ best, b ∈ seen ∧ p b
  /-- No candidate that was seen is better. -/
  le : ∀ a ∈ seen, p a → ∃ b ∈ best, key a ≤ key b

/-- **One round keeps the debt paid.** -/
theorem IsBest.pick {seen : List α} {best : Option α}
    (h : IsBest p key seen best) (a : α) :
    IsBest p key (seen ++ [a]) (pick p key best a) := by
  unfold Selection.pick
  split_ifs with hp
  · obtain ⟨hpa, hlt⟩ := hp
    refine ⟨fun b hb => ?_, fun x hx hpx => ⟨a, rfl, ?_⟩⟩
    · obtain rfl : a = b := Option.some.inj hb
      exact ⟨by simp, hpa⟩
    · rcases List.mem_append.mp hx with hx | hx
      · obtain ⟨b, hb, hle⟩ := h.le x hx hpx
        obtain rfl : best = some b := hb
        have hba : key b < key a := by simpa using hlt
        exact hle.trans hba.le
      · obtain rfl : x = a := by simpa using hx
        exact le_rfl
  · refine ⟨fun b hb => ⟨by simp [(h.mem b hb).1], (h.mem b hb).2⟩, ?_⟩
    intro x hx hpx
    rcases List.mem_append.mp hx with hx | hx
    · exact h.le x hx hpx
    · obtain rfl : x = a := by simpa using hx
      cases best with
      | none => exact absurd ⟨hpx, rfl⟩ hp
      | some b =>
        refine ⟨b, rfl, not_lt.mp fun hlt => hp ⟨hpx, ?_⟩⟩
        simpa using hlt

/-- The scan, started on a paid debt, ends on a paid debt. -/
theorem IsBest.foldl {l seen : List α} {best : Option α}
    (h : IsBest p key seen best) :
    IsBest p key (seen ++ l) (l.foldl (Selection.pick p key) best) := by
  induction l generalizing seen best with
  | nil => simpa using h
  | cons a l ih =>
    have := ih (h.pick a)
    simpa using this

/-- The whole scan. -/
theorem isBest_firstMax (l : List α) : IsBest p key l (firstMax p key l) := by
  have h : IsBest p key [] (none : Option α) := ⟨by simp, by simp⟩
  simpa [firstMax] using h.foldl (l := l)

/-- **The selected element is a candidate of greatest key.** -/
theorem firstMax_spec {l : List α} {m : α} (h : firstMax p key l = some m) :
    m ∈ l ∧ p m ∧ ∀ a ∈ l, p a → key a ≤ key m := by
  have hb : IsBest p key l (firstMax p key l) := isBest_firstMax l
  rw [h] at hb
  refine ⟨(hb.mem m rfl).1, (hb.mem m rfl).2, fun a ha hpa => ?_⟩
  obtain ⟨b, hbm, hle⟩ := hb.le a ha hpa
  obtain rfl : m = b := Option.some.inj hbm
  exact hle

/-- Nothing is selected exactly when there is no candidate. -/
theorem firstMax_eq_none_iff {l : List α} :
    firstMax p key l = none ↔ ∀ a ∈ l, ¬ p a := by
  have hb : IsBest p key l (firstMax p key l) := isBest_firstMax l
  constructor
  · intro h a ha hpa
    obtain ⟨b, hbm, -⟩ := hb.le a ha hpa
    rw [h] at hbm
    exact absurd hbm (by simp)
  · intro h
    cases hm : firstMax p key l with
    | none => rfl
    | some m => exact absurd (firstMax_spec hm).2.1 (h m (firstMax_spec hm).1)

/-- A candidate guarantees a selection. -/
theorem exists_firstMax {l : List α} {a : α} (ha : a ∈ l) (hp : p a) :
    ∃ m, firstMax p key l = some m := by
  cases hm : firstMax p key l with
  | none => exact absurd hp (firstMax_eq_none_iff.mp hm a ha)
  | some m => exact ⟨m, rfl⟩

/-- **A strict maximum is what the scan selects.** -/
theorem firstMax_eq_some_of_lt {l : List α} {m : α} (hm : m ∈ l) (hp : p m)
    (h : ∀ a ∈ l, p a → a ≠ m → key a < key m) :
    firstMax p key l = some m := by
  obtain ⟨m', hm'⟩ : ∃ m', firstMax p key l = some m' := exists_firstMax hm hp
  obtain ⟨hmem, hpm', hle⟩ := firstMax_spec hm'
  by_cases he : m' = m
  · rw [hm', he]
  · exact absurd (h m' hmem hpm' he) (not_lt.mpr (hle m hm hp))

end Selection
