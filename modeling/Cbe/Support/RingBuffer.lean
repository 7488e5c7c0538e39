import Mathlib.Data.List.Basic
import Mathlib.Data.Fin.Basic
import Mathlib.Data.Nat.ModEq
import Mathlib.Logic.Function.Basic

/-!
# A ring of slots read as a list

A table of `n` slots is used as a ring: the slot after the last one is the
first. Starting at a slot, the slots in use are the next `count` ones, and
what they hold is a list (`window`). Writing behind the last slot in use
appends to the list, moving the start takes off its first element, and
exchanging two neighbouring slots exchanges two neighbours of the list.
-/

namespace RingBuffer

variable {n : ℕ} {α : Type*}

/-- The slot after a slot, the first one after the last. -/
def next (i : Fin n) : Fin n :=
  if h : i.val + 1 < n then ⟨i.val + 1, h⟩ else ⟨0, i.pos⟩

/-- The slot before a slot, the last one before the first. -/
def prev (i : Fin n) : Fin n :=
  if 0 < i.val then ⟨i.val - 1, by omega⟩ else ⟨n - 1, by have := i.pos; omega⟩

/-- The slot `k` slots after a slot. -/
def slotAt (head : Fin n) (k : ℕ) : Fin n := ⟨(head.val + k) % n, Nat.mod_lt _ head.pos⟩

/-- The first slot is the head. -/
@[simp] theorem slotAt_zero (head : Fin n) : slotAt head 0 = head := by
  apply Fin.ext
  show (head.val + 0) % n = head.val
  rw [Nat.add_zero, Nat.mod_eq_of_lt head.isLt]

/-- One slot further. -/
theorem next_slotAt (head : Fin n) (k : ℕ) : next (slotAt head k) = slotAt head (k + 1) := by
  have hpos := head.pos
  have hval : (head.val + (k + 1)) % n = ((head.val + k) % n + 1) % n := by
    rw [Nat.mod_add_mod, Nat.add_assoc]
  unfold next
  split_ifs with h
  · apply Fin.ext
    show (head.val + k) % n + 1 = (head.val + (k + 1)) % n
    rw [hval]
    exact (Nat.mod_eq_of_lt h).symm
  · apply Fin.ext
    show 0 = (head.val + (k + 1)) % n
    have hlt := Nat.mod_lt (head.val + k) hpos
    have hlast : (head.val + k) % n + 1 = n := by
      have : ¬ (head.val + k) % n + 1 < n := h
      omega
    rw [hval, hlast, Nat.mod_self]

/-- Starting one slot later. -/
theorem slotAt_next (head : Fin n) (k : ℕ) : slotAt (next head) k = slotAt head (k + 1) := by
  have h : next head = slotAt head 1 := by
    have := next_slotAt head 0
    rwa [slotAt_zero] at this
  rw [h]
  apply Fin.ext
  show ((head.val + 1) % n + k) % n = (head.val + (k + 1)) % n
  rw [Nat.mod_add_mod]
  congr 1
  omega

/-- **Less than a whole round apart, the slots are different.** -/
theorem slotAt_inj {head : Fin n} {j k : ℕ} (hj : j < n) (hk : k < n)
    (h : slotAt head j = slotAt head k) : j = k := by
  have hmod : (head.val + j) ≡ (head.val + k) [MOD n] := congrArg Fin.val h
  have hjk : j ≡ k [MOD n] := Nat.ModEq.add_left_cancel' _ hmod
  exact Nat.ModEq.eq_of_lt_of_lt hjk hj hk

/-- A whole round leads back to the start. -/
@[simp] theorem slotAt_self (head : Fin n) : slotAt head n = head := by
  apply Fin.ext
  show (head.val + n) % n = head.val
  rw [Nat.add_mod_right, Nat.mod_eq_of_lt head.isLt]

/-- The slot before a slot comes back to it. -/
theorem prev_next (i : Fin n) : prev (next i) = i := by
  have hlt := i.isLt
  unfold next
  split_ifs with h
  · unfold prev
    rw [if_pos (Nat.succ_pos i.val)]
    rfl
  · unfold prev
    rw [if_neg (lt_irrefl 0)]
    apply Fin.ext
    show n - 1 = i.val
    omega

/-- The slot before one further on. -/
theorem prev_slotAt (head : Fin n) (k : ℕ) : prev (slotAt head (k + 1)) = slotAt head k := by
  rw [← next_slotAt, prev_next]

/-- **What the slots in use hold**, from the start on. -/
def window (slots : Fin n → α) (head : Fin n) (count : ℕ) : List α :=
  (List.range count).map fun k => slots (slotAt head k)

/-- As many elements as slots in use. -/
@[simp] theorem length_window (slots : Fin n → α) (head : Fin n) (count : ℕ) :
    (window slots head count).length = count := by
  unfold window
  rw [List.length_map, List.length_range]

/-- The elements are what the slots hold. -/
theorem getElem?_window (slots : Fin n → α) (head : Fin n) {count k : ℕ} (hk : k < count) :
    (window slots head count)[k]? = some (slots (slotAt head k)) := by
  unfold window
  rw [List.getElem?_map, List.getElem?_range hk]
  rfl

@[simp] theorem window_zero (slots : Fin n → α) (head : Fin n) : window slots head 0 = [] := rfl

/-- The window from its first slot. -/
theorem window_succ (slots : Fin n → α) (head : Fin n) (count : ℕ) :
    window slots head (count + 1) = slots head :: window slots (next head) count := by
  unfold window
  rw [List.range_succ_eq_map, List.map_cons, List.map_map, slotAt_zero]
  congr 1
  apply List.map_congr_left
  intro k _
  show slots (slotAt head (k + 1)) = slots (slotAt (next head) k)
  rw [slotAt_next]

/-- The window up to its last slot. -/
theorem window_succ_last (slots : Fin n → α) (head : Fin n) (count : ℕ) :
    window slots head (count + 1) = window slots head count ++ [slots (slotAt head count)] := by
  unfold window
  rw [List.range_succ, List.map_append]
  rfl

/-- A window looks at its slots only. -/
theorem window_congr {slots slots' : Fin n → α} {head : Fin n} {count : ℕ}
    (h : ∀ k < count, slots' (slotAt head k) = slots (slotAt head k)) :
    window slots' head count = window slots head count :=
  List.map_congr_left fun k hk => h k (List.mem_range.mp hk)

/-- **Writing behind the last slot in use appends.** -/
theorem window_append (slots : Fin n → α) (head : Fin n) {count : ℕ} (hcount : count < n)
    (a : α) :
    window (Function.update slots (slotAt head count) a) head (count + 1)
      = window slots head count ++ [a] := by
  rw [window_succ_last, Function.update_self]
  congr 1
  refine window_congr fun k hk => Function.update_of_ne (fun heq => ?_) _ _
  have := slotAt_inj (hk.trans hcount) hcount heq
  omega

/-- **Exchanging two neighbouring slots exchanges two neighbours of the
list.** -/
theorem window_exchange {slots : Fin n → α} {head : Fin n} {count : ℕ} (hcount : count ≤ n)
    {l l' : List α} {a b : α} (hw : window slots head count = l ++ a :: b :: l') :
    window
        (Function.update (Function.update slots (slotAt head (l.length + 1)) a)
          (slotAt head l.length) b) head count
      = l ++ b :: a :: l' := by
  have hlen : count = l.length + (l'.length + 2) := by
    have := congrArg List.length hw
    simpa using this
  apply List.ext_getElem?
  intro k
  by_cases hk : k < count
  · have hold : (l ++ a :: b :: l')[k]? = some (slots (slotAt head k)) := by
      rw [← hw, getElem?_window slots head hk]
    rw [getElem?_window _ head hk]
    rcases lt_trichotomy k l.length with hlt | rfl | hgt
    · rw [Function.update_of_ne (fun h => by have := slotAt_inj (by omega) (by omega) h; omega),
        Function.update_of_ne (fun h => by have := slotAt_inj (by omega) (by omega) h; omega),
        ← hold, List.getElem?_append_left hlt, List.getElem?_append_left hlt]
    · rw [Function.update_self, List.getElem?_append_right le_rfl, Nat.sub_self]
      rfl
    · rw [Function.update_of_ne (fun h => by have := slotAt_inj (by omega) (by omega) h; omega)]
      rcases Nat.lt_or_ge (l.length + 1) k with hgt' | hle
      · rw [Function.update_of_ne
          (fun h => by have := slotAt_inj (by omega) (by omega) h; omega), ← hold,
          List.getElem?_append_right hgt.le, List.getElem?_append_right hgt.le]
        obtain ⟨j, hj⟩ : ∃ j, k - l.length = j + 2 := ⟨k - l.length - 2, by omega⟩
        rw [hj]
        rfl
      · obtain rfl : k = l.length + 1 := by omega
        rw [Function.update_self, List.getElem?_append_right (by omega),
          show l.length + 1 - l.length = 1 by omega]
        rfl
  · rw [List.getElem?_eq_none (by rw [length_window]; omega),
      List.getElem?_eq_none (by simp; omega)]

end RingBuffer
