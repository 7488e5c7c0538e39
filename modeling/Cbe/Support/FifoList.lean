import Mathlib.Data.List.Nodup

/-!
# A bounded first-in first-out list

What the operations of a queue do to the list of its elements, the head first:
the specification that an implementation of a queue refines. An element that is
looked for is met at its first place, and an operation that needs the element
behind it fails on the last place (`successor_eq_none_iff`).

The calls are a type of their own, so that a sequence of them is a list and a
run over it is a fold. An implementation refines the list when it gives the same
results and fails at the same call, which is shown call by call.
-/

namespace FifoList

variable {α : Type*}

/-- **The calls** of a queue. -/
inductive Call (α : Type*) where
  | enqueue (a : α)
  | dequeue (a : α)
  | nextItem (a : α)
  | itemIsTail (a : α)
  | moveOneItemTowardsTail (a : α)
  | head
  | empty
  | full
  deriving DecidableEq

/-- What a call returns. -/
inductive Result (α : Type*) where
  | done
  | item (a : α)
  | flag (b : Bool)
  deriving DecidableEq

variable [DecidableEq α]

/-- The element behind the first place of an element. -/
def successor (x : α) : List α → Option α
  | a :: b :: l => if a = x then some b else successor x (b :: l)
  | _ => none

/-- The list with the first place of an element exchanged with the one behind it. -/
def exchange (x : α) : List α → Option (List α)
  | a :: b :: l => if a = x then some (b :: a :: l) else (exchange x (b :: l)).map (a :: ·)
  | _ => none

/-- Whether an element is the last one of a list that is not empty. -/
def isLast (x : α) (l : List α) : Option Bool := l.getLast?.map fun b => decide (b = x)

/-- **A call** on a list of at most `n` elements. -/
def call (n : ℕ) (l : List α) : Call α → Option (Result α × List α)
  | .enqueue x => if l.length < n then some (.done, l ++ [x]) else none
  | .dequeue x => if l.head? = some x then some (.done, l.tail) else none
  | .nextItem x => (successor x l).map fun b => (.item b, l)
  | .itemIsTail x => (isLast x l).map fun b => (.flag b, l)
  | .moveOneItemTowardsTail x => (exchange x l).map fun l' => (.done, l')
  | .head => l.head?.map fun b => (.item b, l)
  | .empty => some (.flag (decide (l = [])), l)
  | .full => some (.flag (decide (l.length = n)), l)

/-- Calls one after the other, with all their results, up to one that fails. -/
def run (n : ℕ) (l : List α) : List (Call α) → Option (List (Result α) × List α)
  | [] => some ([], l)
  | c :: calls =>
    (call n l c).bind fun p => (run n p.2 calls).map fun q => (p.1 :: q.1, q.2)

/-! ## The first place of an element

An element is looked for from the head on. So a list is split at its first
place, and the element behind this place, if there is one, is what the two
operations need. -/

/-- An element that is not only the last one has a first place and an element behind
it. -/
theorem exists_split {x : α} {l : List α} (h : x ∈ l.dropLast) :
    ∃ l₁ b l₂, l = l₁ ++ x :: b :: l₂ ∧ x ∉ l₁ := by
  induction l with
  | nil => exact absurd h (by simp)
  | cons a l ih =>
    cases l with
    | nil => exact absurd h (by simp)
    | cons b l =>
      by_cases hax : a = x
      · exact ⟨[], b, l, by rw [hax]; rfl, List.not_mem_nil⟩
      · rw [List.dropLast_cons_of_ne_nil (List.cons_ne_nil b l)] at h
        rcases List.mem_cons.mp h with rfl | hmem
        · exact absurd rfl hax
        · obtain ⟨l₁, c, l₂, hl, hnot⟩ := ih hmem
          refine ⟨a :: l₁, c, l₂, by rw [hl]; rfl, ?_⟩
          rw [List.mem_cons, not_or]
          exact ⟨Ne.symm hax, hnot⟩

/-- The element behind the first place. -/
@[simp] theorem successor_split {x b : α} {l₁ l₂ : List α} (h : x ∉ l₁) :
    successor x (l₁ ++ x :: b :: l₂) = some b := by
  induction l₁ with
  | nil => exact if_pos rfl
  | cons a l₁ ih =>
    rw [List.mem_cons, not_or] at h
    have hne : a ≠ x := Ne.symm h.1
    cases l₁ with
    | nil =>
      show (if a = x then _ else _) = _
      rw [if_neg hne]
      exact if_pos rfl
    | cons c l₁ =>
      show (if a = x then _ else _) = _
      rw [if_neg hne]
      exact ih h.2

/-- It changes places with the one looked for. -/
@[simp] theorem exchange_split {x b : α} {l₁ l₂ : List α} (h : x ∉ l₁) :
    exchange x (l₁ ++ x :: b :: l₂) = some (l₁ ++ b :: x :: l₂) := by
  induction l₁ with
  | nil => exact if_pos rfl
  | cons a l₁ ih =>
    rw [List.mem_cons, not_or] at h
    have hne : a ≠ x := Ne.symm h.1
    cases l₁ with
    | nil =>
      show (if a = x then _ else Option.map _ (exchange x (x :: b :: l₂))) = _
      rw [if_neg hne, show exchange x (x :: b :: l₂) = some (b :: x :: l₂) from if_pos rfl]
      rfl
    | cons c l₁ =>
      show (if a = x then _ else Option.map _ (exchange x (c :: l₁ ++ x :: b :: l₂))) = _
      rw [if_neg hne, ih h.2]
      rfl

/-- **An element has no successor** exactly when it is in the list at most at the last
place. -/
theorem successor_eq_none_iff {x : α} {l : List α} :
    successor x l = none ↔ x ∉ l.dropLast := by
  constructor
  · intro h hmem
    obtain ⟨l₁, b, l₂, rfl, hnot⟩ := exists_split hmem
    rw [successor_split hnot] at h
    exact absurd h (by simp)
  · intro h
    induction l with
    | nil => rfl
    | cons a l ih =>
      cases l with
      | nil => rfl
      | cons b l =>
        rw [List.dropLast_cons_of_ne_nil (List.cons_ne_nil b l), List.mem_cons, not_or] at h
        show (if a = x then _ else _) = _
        rw [if_neg (Ne.symm h.1)]
        exact ih h.2

/-- There is no such place. -/
theorem exchange_eq_none {x : α} {l : List α} (h : x ∉ l.dropLast) : exchange x l = none := by
  induction l with
  | nil => rfl
  | cons a l ih =>
    cases l with
    | nil => rfl
    | cons b l =>
      rw [List.dropLast_cons_of_ne_nil (List.cons_ne_nil b l), List.mem_cons, not_or] at h
      show (if a = x then _ else Option.map _ (exchange x (b :: l))) = _
      rw [if_neg (Ne.symm h.1), ih h.2]
      rfl

/-- **In a list without repetitions only the last element has no successor.** -/
theorem successor_eq_none_iff_isLast {x : α} {l : List α} (hnd : l.Nodup) (hx : x ∈ l) :
    successor x l = none ↔ isLast x l = some true := by
  obtain ⟨l', b, rfl⟩ := (List.eq_nil_or_concat' l).resolve_left (List.ne_nil_of_mem hx)
  rw [successor_eq_none_iff, List.dropLast_concat]
  unfold isLast
  rw [List.getLast?_concat, Option.map_some, Option.some_inj, decide_eq_true_iff]
  rw [List.nodup_append_comm, List.singleton_append, List.nodup_cons] at hnd
  constructor
  · intro hnot
    rcases List.mem_append.mp hx with hmem | hmem
    · exact absurd hmem hnot
    · exact (List.mem_singleton.mp hmem).symm
  · rintro rfl
    exact hnd.1

end FifoList
