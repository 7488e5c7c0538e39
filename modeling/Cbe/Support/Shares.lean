import Mathlib.Algebra.BigOperators.Group.Finset.Basic
import Mathlib.Algebra.Order.BigOperators.Group.Finset
import Mathlib.Algebra.Order.Group.Multiset
import Mathlib.Data.Fintype.BigOperators

/-!
# Shares of a sum

What a structure holds is the sum of what its parts hold, a share for each
part. When one share changes, the sum changes with it and with nothing else
(`sum_exchange`). A sum of multisets without duplicates has shares without
duplicates (`nodup_share`) that have nothing in common (`ne_of_shares`).
-/

section Shares

variable {ι M : Type} [Fintype ι]

/-- **One share changes**, the others stay. -/
theorem sum_exchange [DecidableEq ι] [AddCommMonoid M] {f g : ι → M} (i : ι)
    (h : ∀ j, j ≠ i → g j = f j) : ∑ j, g j + f i = ∑ j, f j + g i := by
  have hrest : ∑ j ∈ Finset.univ.erase i, g j = ∑ j ∈ Finset.univ.erase i, f j :=
    Finset.sum_congr rfl fun j hj => h j (Finset.ne_of_mem_erase hj)
  rw [← Finset.add_sum_erase _ g (Finset.mem_univ i),
    ← Finset.add_sum_erase _ f (Finset.mem_univ i), hrest, add_right_comm, add_comm (g i),
    add_right_comm]

variable {α : Type} {f : ι → Multiset α}

/-- What a share holds, the whole holds. -/
theorem mem_sum_of_share {i : ι} {a : α} (ha : a ∈ f i) : a ∈ ∑ j, f j :=
  Multiset.mem_of_le (Finset.single_le_sum (fun _ _ => zero_le) (Finset.mem_univ i)) ha

/-- A share of a sum without duplicates has none. -/
theorem nodup_share (h : (∑ j, f j).Nodup) (i : ι) : (f i).Nodup :=
  Multiset.nodup_of_le (Finset.single_le_sum (fun _ _ => zero_le) (Finset.mem_univ i)) h

/-- **Two shares of a sum without duplicates have nothing in common.** -/
theorem ne_of_shares [DecidableEq ι] (h : (∑ j, f j).Nodup) {i j : ι} (hij : i ≠ j) {a b : α}
    (ha : a ∈ f i) (hb : b ∈ f j) : a ≠ b := by
  rw [← Finset.add_sum_erase _ f (Finset.mem_univ i), Multiset.nodup_add] at h
  have hb' : b ∈ ∑ k ∈ Finset.univ.erase i, f k :=
    Multiset.mem_sum.mpr ⟨j, Finset.mem_erase.mpr ⟨hij.symm, Finset.mem_univ j⟩, hb⟩
  exact fun hab => Multiset.disjoint_left.mp h.2.2 ha (hab ▸ hb')

end Shares
