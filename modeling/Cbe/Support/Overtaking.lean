import Mathlib.Data.List.Pairwise
import Mathlib.Data.List.Nodup
import Mathlib.Data.List.Perm.Basic

/-!
# A run of elements that overtakes another one

In a list one element is overtaken by the run of elements directly behind it:
`pre ++ a :: (passed ++ rest)` becomes `pre ++ (passed ++ a :: rest)`. The list
is permuted; only pairs of the overtaken element and one that overtakes it
change their order; and only the overtaken element moves back, by as many
places as elements have overtaken it (`moveBack`).

`Precedes a b l` says that `a` is met in `l` before any `b` is; in a list with
repetitions this is about the first occurrences.
-/

namespace Overtaking

variable {α : Type*} {a : α} {pre passed rest : List α}

/-- The list is permuted. -/
theorem perm_overtake :
    (pre ++ (passed ++ a :: rest)).Perm (pre ++ a :: (passed ++ rest)) :=
  List.Perm.append_left pre List.perm_middle

/-- **The order of the other pairs is kept.** -/
theorem pairwise_overtake {r : α → α → Prop}
    (h : (pre ++ a :: (passed ++ rest)).Pairwise r) (hnew : ∀ b ∈ passed, r b a) :
    (pre ++ (passed ++ a :: rest)).Pairwise r := by
  rw [List.pairwise_append, List.pairwise_cons, List.pairwise_append] at h
  obtain ⟨hpre, ⟨ha, hpassed, hrest, hpr⟩, hcross⟩ := h
  rw [List.pairwise_append, List.pairwise_append, List.pairwise_cons]
  refine ⟨hpre, ⟨hpassed, ⟨fun x hx => ha x (List.mem_append_right _ hx), hrest⟩, ?_⟩, ?_⟩
  · intro x hx y hy
    rcases List.mem_cons.mp hy with rfl | hy
    · exact hnew x hx
    · exact hpr x hx y hy
  · intro x hx y hy
    refine hcross x hx y ?_
    rcases List.mem_append.mp hy with hy | hy
    · exact List.mem_cons_of_mem _ (List.mem_append_left _ hy)
    · rcases List.mem_cons.mp hy with rfl | hy
      · exact List.mem_cons_self
      · exact List.mem_cons_of_mem _ (List.mem_append_right _ hy)

variable [DecidableEq α]

/-- How many places an element of a list has moved back in another one. -/
def moveBack (l l' : List α) (t : α) : ℕ :=
  if t ∈ l then l'.idxOf t - l.idxOf t else 0

/-- Nothing has moved. -/
@[simp] theorem moveBack_self (l : List α) (t : α) : moveBack l l t = 0 := by
  unfold moveBack
  split_ifs
  · exact Nat.sub_self _
  · rfl

/-- What is appended moves nothing back. -/
theorem moveBack_append (l l' : List α) (t : α) : moveBack l (l ++ l') t = 0 := by
  unfold moveBack
  split_ifs with h
  · rw [List.idxOf_append_of_mem h, Nat.sub_self]
  · rfl

/-- **The overtaken element moves back by the number of those that overtake
it.** -/
theorem moveBack_overtaken (hpre : a ∉ pre) (hpassed : a ∉ passed) :
    moveBack (pre ++ a :: (passed ++ rest)) (pre ++ (passed ++ a :: rest)) a
      = passed.length := by
  unfold moveBack
  rw [if_pos (by simp), List.idxOf_append_of_notMem hpre, List.idxOf_append_of_notMem hpre,
    List.idxOf_append_of_notMem hpassed, List.idxOf_cons_self, List.idxOf_cons_self]
  omega

/-- No other element moves back. -/
theorem moveBack_other {t : α} (hne : t ≠ a) :
    moveBack (pre ++ a :: (passed ++ rest)) (pre ++ (passed ++ a :: rest)) t = 0 := by
  unfold moveBack
  split_ifs with hmem
  · refine Nat.sub_eq_zero_of_le ?_
    by_cases hpre : t ∈ pre
    · simp only [List.idxOf_append_of_mem hpre, Nat.le_refl]
    · rw [List.idxOf_append_of_notMem hpre, List.idxOf_append_of_notMem hpre,
        List.idxOf_cons_ne _ hne.symm]
      refine Nat.add_le_add_left ?_ _
      by_cases hpassed : t ∈ passed
      · rw [List.idxOf_append_of_mem hpassed, List.idxOf_append_of_mem hpassed]
        exact Nat.le_succ _
      · rw [List.idxOf_append_of_notMem hpassed, List.idxOf_append_of_notMem hpassed,
          List.idxOf_cons_ne _ hne.symm]
        omega
  · rfl

/-! ## Elements met before others

Order in a list, by the first place of an element. -/

/-- **No `b` is met before an `a`.** -/
def Precedes (a b : α) : List α → Prop
  | [] => True
  | c :: l => c = a ∨ c ≠ b ∧ Precedes a b l

omit [DecidableEq α]

variable {b c : α} {l : List α}

/-- An element that is not there is preceded by any other. -/
theorem precedes_of_notMem (h : b ∉ l) : Precedes a b l := by
  induction l with
  | nil => trivial
  | cons c l ih =>
    obtain ⟨hne, hmem⟩ := not_or.mp (fun h' => h (List.mem_cons.mpr h'))
    exact Or.inr ⟨Ne.symm hne, ih hmem⟩

/-- The head is not preceded by anything else. -/
theorem not_precedes_head (hne : a ≠ b) : ¬ Precedes a b (b :: l) := by
  rintro (h | ⟨h, -⟩)
  · exact hne h.symm
  · exact h rfl

/-- Off the head of the list. -/
theorem Precedes.tail (h : Precedes a b (c :: l)) (hne : c ≠ a) : Precedes a b l :=
  (h.resolve_left hne).2

/-- With one element more at the end. -/
theorem Precedes.append (h : Precedes a b l) (hc : c ≠ b ∨ a ∈ l) : Precedes a b (l ++ [c]) := by
  induction l with
  | nil => exact Or.inr ⟨hc.resolve_right List.not_mem_nil, trivial⟩
  | cons x l ih =>
    rcases h with h | ⟨hx, h⟩
    · exact Or.inl h
    · by_cases hxa : x = a
      · exact Or.inl hxa
      · refine Or.inr ⟨hx, ih h (hc.imp_right fun hmem => ?_)⟩
        exact (List.mem_cons.mp hmem).resolve_left (Ne.symm hxa)

/-- An element that is neither of the two may go anywhere. -/
theorem Precedes.insert {r : List α} (h : Precedes a b (l ++ r)) (hc : c ≠ b) :
    Precedes a b (l ++ c :: r) := by
  induction l with
  | nil => exact Or.inr ⟨hc, h⟩
  | cons x l ih => exact h.imp_right fun h => ⟨h.1, ih h.2⟩

/-- **The order of two elements stays when the head is overtaken**, unless the
second one overtakes the first one. -/
theorem Precedes.overtake (h : Precedes a b (c :: (passed ++ rest))) (hne : b ≠ c)
    (hpassed : b ∈ passed → a ≠ c) : Precedes a b (passed ++ c :: rest) := by
  by_cases hca : c = a
  · subst hca
    have hb : b ∉ passed := fun hmem => hpassed hmem rfl
    clear h hpassed
    induction passed with
    | nil => exact Or.inl rfl
    | cons x l ih =>
      obtain ⟨hx, hl⟩ := not_or.mp (fun h' => hb (List.mem_cons.mpr h'))
      exact Or.inr ⟨Ne.symm hx, ih hl⟩
  · exact (h.tail hca).insert hne.symm

end Overtaking
