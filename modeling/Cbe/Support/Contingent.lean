import Mathlib.Data.List.Basic
import Mathlib.Order.Nat

/-!
# Contingents of addresses

A contingent is a stretch of consecutive addresses of which the first ones are
spent (`Contingent.Spent`). What several clients spend one after the other are
consecutive ranges (`Consecutive`), so no two of them overlap
(`Consecutive.pairwise`).
-/

/-- **A contingent**: its first address and how many there are. -/
structure Contingent where
  /-- The first address. -/
  first : ℕ
  /-- How many there are. -/
  rest : ℕ

namespace Contingent

/-- **Some addresses were spent**: the end is the same. -/
structure Spent (c c' : Contingent) : Prop where
  /-- The last address is the same. -/
  end_eq : c'.first + c'.rest = c.first + c.rest
  /-- No address was added. -/
  rest_le : c'.rest ≤ c.rest

theorem Spent.refl (c : Contingent) : Spent c c := ⟨rfl, le_refl _⟩

/-- What is spent stays spent. -/
theorem Spent.trans {c₁ c₂ c₃ : Contingent} (h : Spent c₁ c₂) (h' : Spent c₂ c₃) :
    Spent c₁ c₃ :=
  ⟨h'.end_eq.trans h.end_eq, le_trans h'.rest_le h.rest_le⟩

/-- The first address is spent. -/
theorem Spent.next {c : Contingent} (h : 0 < c.rest) :
    Spent c { first := c.first + 1, rest := c.rest - 1 } where
  end_eq := by
    show c.first + 1 + (c.rest - 1) = c.first + c.rest
    rw [Nat.add_assoc, Nat.add_sub_cancel' h]
  rest_le := Nat.sub_le _ _

end Contingent

/-- **Ranges one after the other**, none of them empty, that fill the addresses
between two. -/
inductive Consecutive (lo : ℕ) : ℕ → List (ℕ × ℕ) → Prop
  | nil : Consecutive lo lo []
  | snoc {mid width : ℕ} {ranges : List (ℕ × ℕ)} (h : Consecutive lo mid ranges)
      (hwidth : 0 < width) : Consecutive lo (mid + width) (ranges ++ [(mid, width)])

namespace Consecutive

variable {lo hi : ℕ} {ranges : List (ℕ × ℕ)}

/-- They lie between the two addresses. -/
theorem mem (h : Consecutive lo hi ranges) {r : ℕ × ℕ} (hr : r ∈ ranges) :
    lo ≤ r.1 ∧ r.1 + r.2 ≤ hi ∧ 0 < r.2 := by
  have hle : ∀ {mid : ℕ} {l : List (ℕ × ℕ)}, Consecutive lo mid l → lo ≤ mid := by
    intro mid l h
    induction h with
    | nil => exact le_refl lo
    | snoc _ _ ih => exact le_trans ih (Nat.le_add_right _ _)
  induction h with
  | nil => exact absurd hr List.not_mem_nil
  | @snoc mid width l h hwidth ih =>
    cases List.mem_append.mp hr with
    | inl hmem =>
      obtain ⟨hlo, hhi, hpos⟩ := ih hmem
      exact ⟨hlo, le_trans hhi (Nat.le_add_right _ _), hpos⟩
    | inr hmem =>
      rw [List.mem_singleton.mp hmem]
      exact ⟨hle h, le_refl _, hwidth⟩

/-- **No two of them overlap.** -/
theorem pairwise (h : Consecutive lo hi ranges) :
    ranges.Pairwise fun r s => r.1 + r.2 ≤ s.1 := by
  induction h with
  | nil => exact List.Pairwise.nil
  | snoc h _ ih =>
    refine List.pairwise_append.mpr ⟨ih, List.pairwise_singleton _ _, fun r hr s hs => ?_⟩
    rw [List.mem_singleton.mp hs]
    exact (h.mem hr).2.1

end Consecutive
