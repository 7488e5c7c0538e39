import Mathlib.Data.Fintype.Pi
import Cbe.Support.RingBuffer

/-!
# The index queue

The queue of indices that the request pool keeps its order in: a ring of as
many slots as there are indices, with the slot of the head, the slot behind
the tail and the number of slots in use. That the tail is where the head and
the number in use put it is a field of the record.

What the queue is for is the list of its indices from head to tail
(`items`); every operation is described by what it does to that list.
-/

namespace Cbe

/-- `Queue_Type`. -/
structure IndexQueue (n : ℕ) where
  /-- The slot of the first item. -/
  head : Fin n
  /-- The slot behind the last item. -/
  tail : Fin n
  /-- How many items there are. -/
  nrOfUsedSlots : ℕ
  /-- The ring of the slots. -/
  slots : Fin n → Fin n
  /-- There are no more items than slots. -/
  used_le : nrOfUsedSlots ≤ n
  /-- The tail follows from the head and the number of the items. -/
  tail_eq : tail = RingBuffer.slotAt head nrOfUsedSlots
  deriving DecidableEq

namespace IndexQueue

open RingBuffer

variable {n : ℕ}

/-- `Empty_Queue`, on at least one slot. -/
def emptyQueue (n : ℕ) [NeZero n] : IndexQueue n where
  head := 0
  tail := 0
  nrOfUsedSlots := 0
  slots _ := 0
  used_le := Nat.zero_le _
  tail_eq := (slotAt_zero 0).symm

/-- **The indices in the queue**, from head to tail. -/
def items (q : IndexQueue n) : List (Fin n) := window q.slots q.head q.nrOfUsedSlots

/-- `Empty`. -/
def Empty (q : IndexQueue n) : Prop := q.nrOfUsedSlots = 0

/-- `Full`. -/
def Full (q : IndexQueue n) : Prop := q.nrOfUsedSlots = n

instance (q : IndexQueue n) : Decidable q.Empty :=
  inferInstanceAs (Decidable (q.nrOfUsedSlots = 0))

instance (q : IndexQueue n) : Decidable q.Full :=
  inferInstanceAs (Decidable (q.nrOfUsedSlots = n))

/-- `Head`. It raises on an empty queue. -/
def headItem (q : IndexQueue n) : Option (Fin n) :=
  if q.Empty then none else some (q.slots q.head)

/-- `Enqueue`. It raises on a full queue. -/
def enqueue (q : IndexQueue n) (idx : Fin n) : Option (IndexQueue n) :=
  if h : q.Full then none
  else some
    { head := q.head
      tail := next q.tail
      nrOfUsedSlots := q.nrOfUsedSlots + 1
      slots := Function.update q.slots q.tail idx
      used_le := lt_of_le_of_ne q.used_le h
      tail_eq := by rw [q.tail_eq, next_slotAt] }

/-- `Dequeue`. It raises unless the index is at the head. -/
def dequeue (q : IndexQueue n) (idx : Fin n) : Option (IndexQueue n) :=
  if h : q.Empty ∨ q.slots q.head ≠ idx then none
  else some
    { head := next q.head
      tail := q.tail
      nrOfUsedSlots := q.nrOfUsedSlots - 1
      slots := q.slots
      used_le := (Nat.sub_le _ _).trans q.used_le
      tail_eq := by
        have hne : q.nrOfUsedSlots ≠ 0 := fun h0 => h (Or.inl h0)
        rw [slotAt_next, q.tail_eq, Nat.sub_add_cancel (Nat.one_le_iff_ne_zero.mpr hne)] }

/-- The loop of `Next_Item` and `Move_One_Item_Towards_Tail`: from slot to
slot, up to the one that holds the index. It raises when the slot after it is
the tail. There are no more than `n` slots to look at. -/
def seek (q : IndexQueue n) (idx : Fin n) : ℕ → Fin n → Option (Fin n)
  | 0, _ => none
  | fuel + 1, slot =>
    if next slot = q.tail then none
    else if q.slots slot = idx then some slot
    else q.seek idx fuel (next slot)

/-- `Next_Item`. -/
def nextItem (q : IndexQueue n) (idx : Fin n) : Option (Fin n) :=
  if q.Empty then none else (q.seek idx n q.head).map fun slot => q.slots (next slot)

/-- `Move_One_Item_Towards_Tail`. -/
def moveOneItemTowardsTail (q : IndexQueue n) (idx : Fin n) : Option (IndexQueue n) :=
  if q.Empty then none
  else (q.seek idx n q.head).map fun slot =>
    { q with
      slots := Function.update (Function.update q.slots (next slot) (q.slots slot)) slot
        (q.slots (next slot)) }

/-- `Item_Is_Tail`. It raises on an empty queue. -/
def itemIsTail (q : IndexQueue n) (idx : Fin n) : Option Bool :=
  if q.Empty then none else some (decide (q.slots (prev q.tail) = idx))

/-! ## What the operations do to the list -/

@[simp] theorem items_emptyQueue (n : ℕ) [NeZero n] : (emptyQueue n).items = [] := rfl

@[simp] theorem length_items (q : IndexQueue n) : q.items.length = q.nrOfUsedSlots :=
  length_window _ _ _

theorem empty_iff (q : IndexQueue n) : q.Empty ↔ q.items = [] := by
  rw [← List.length_eq_zero_iff, length_items]
  rfl

theorem full_iff (q : IndexQueue n) : q.Full ↔ q.items.length = n := by
  rw [length_items]
  rfl

/-- The head is the first index of the list. -/
theorem headItem_eq (q : IndexQueue n) : q.headItem = q.items.head? := by
  unfold headItem
  by_cases h : q.Empty
  · rw [if_pos h, (empty_iff q).mp h]
    rfl
  · obtain ⟨k, hk⟩ := Nat.exists_eq_succ_of_ne_zero h
    unfold items
    rw [if_neg h, hk, window_succ]
    rfl

/-- A queue that is not full takes an index at its end. -/
theorem enqueue_spec {q : IndexQueue n} (h : q.items.length < n) (idx : Fin n) :
    ∃ q', q.enqueue idx = some q' ∧ q'.items = q.items ++ [idx] := by
  have hlt : q.nrOfUsedSlots < n := by rwa [length_items] at h
  refine ⟨_, dif_neg (ne_of_lt hlt), ?_⟩
  show window (Function.update q.slots q.tail idx) q.head (q.nrOfUsedSlots + 1) = _
  rw [q.tail_eq]
  exact window_append q.slots q.head hlt idx

/-- Whenever an index is taken it is taken at the end. -/
theorem items_of_enqueue {q q' : IndexQueue n} {idx : Fin n} (h : q.enqueue idx = some q') :
    q'.items = q.items ++ [idx] := by
  by_cases hfull : q.Full
  · unfold enqueue at h
    rw [dif_pos hfull] at h
    exact absurd h (by simp)
  · have hlt : q.items.length < n := by
      rw [length_items]
      exact lt_of_le_of_ne q.used_le hfull
    obtain ⟨q'', hq'', hitems⟩ := enqueue_spec hlt idx
    obtain rfl := Option.some.inj (hq''.symm.trans h)
    exact hitems

/-- The index at the head can be taken off. -/
theorem dequeue_spec {q : IndexQueue n} {idx : Fin n} {l : List (Fin n)}
    (h : q.items = idx :: l) : ∃ q', q.dequeue idx = some q' ∧ q'.items = l := by
  obtain ⟨k, hk⟩ : ∃ k, q.nrOfUsedSlots = k + 1 := by
    refine Nat.exists_eq_succ_of_ne_zero fun h0 => ?_
    have := (empty_iff q).mp h0
    rw [h] at this
    exact absurd this (by simp)
  have hcons : q.items = q.slots q.head :: window q.slots (next q.head) k := by
    unfold items
    rw [hk, window_succ]
  rw [h] at hcons
  obtain ⟨hhead, hl⟩ := List.cons.inj hcons
  have hnot : ¬ (q.Empty ∨ q.slots q.head ≠ idx) := by
    rintro (h0 | hne)
    · exact absurd (hk.symm.trans h0) (Nat.succ_ne_zero k)
    · exact hne hhead.symm
  refine ⟨_, dif_neg hnot, ?_⟩
  show window q.slots (next q.head) (q.nrOfUsedSlots - 1) = l
  rw [hk, hl]
  rfl

/-- Whatever is taken off was at the head. -/
theorem items_of_dequeue {q q' : IndexQueue n} {idx : Fin n} (h : q.dequeue idx = some q') :
    q.items = idx :: q'.items := by
  by_cases hnot : q.Empty ∨ q.slots q.head ≠ idx
  · unfold dequeue at h
    rw [dif_pos hnot] at h
    exact absurd h (by simp)
  · obtain ⟨hne, hhead⟩ := not_or.mp hnot
    have hcons : q.items.head? = some idx := by
      rw [← headItem_eq]
      unfold headItem
      rw [if_neg hne, not_not.mp hhead]
    obtain ⟨l, hl⟩ := List.head?_eq_some_iff.mp hcons
    obtain ⟨q'', hq'', hitems⟩ := dequeue_spec hl
    obtain rfl := Option.some.inj (hq''.symm.trans h)
    rw [hitems, hl]

/-- The slot behind the last one in use is the tail, also in a full queue. -/
theorem next_slotAt_eq_tail {q : IndexQueue n} {k : ℕ} (hk : k + 1 = q.nrOfUsedSlots) :
    next (slotAt q.head k) = q.tail := by
  rw [next_slotAt, hk, q.tail_eq]

/-- The slots in use up to the last one are not the tail. In a full queue the head is,
but no slot in use is behind it. -/
theorem next_slotAt_ne_tail {q : IndexQueue n} {k : ℕ} (hk : k + 1 < q.nrOfUsedSlots) :
    next (slotAt q.head k) ≠ q.tail := by
  have hle := q.used_le
  intro heq
  rw [next_slotAt, q.tail_eq] at heq
  rcases Nat.lt_or_ge q.nrOfUsedSlots n with hlt | hge
  · have := slotAt_inj (by omega) hlt heq
    omega
  · rw [show q.nrOfUsedSlots = n by omega, slotAt_self, ← slotAt_zero q.head,
      slotAt_zero] at heq
    have := slotAt_inj (by omega) (by omega) (heq.trans (slotAt_zero q.head).symm)
    omega

/-- **The loop finds the first slot that holds the index**, if it is not the
last one in use. -/
theorem seek_spec {q : IndexQueue n} {l l' : List (Fin n)} {idx b : Fin n}
    (h : q.items = l ++ idx :: b :: l') (hl : idx ∉ l) :
    q.seek idx n q.head = some (slotAt q.head l.length) := by
  have hlen : q.nrOfUsedSlots = l.length + (l'.length + 2) := by
    have := congrArg List.length h
    simpa using this
  have hle := q.used_le
  have hitem : ∀ k ≤ l.length, some (q.slots (slotAt q.head k)) = (l ++ idx :: b :: l')[k]? := by
    intro k hk
    rw [← h]
    exact (getElem?_window q.slots q.head (by omega)).symm
  -- the tail is further than the slot looked at
  have htail : ∀ k ≤ l.length, next (slotAt q.head k) ≠ q.tail :=
    fun k hk => next_slotAt_ne_tail (by omega)
  have hfrom : ∀ m k, k + m = l.length → ∀ fuel, m < fuel →
      q.seek idx fuel (slotAt q.head k) = some (slotAt q.head l.length) := by
    intro m
    induction m with
    | zero =>
      intro k hk fuel hfuel
      obtain ⟨fuel, rfl⟩ := Nat.exists_eq_succ_of_ne_zero (by omega : fuel ≠ 0)
      obtain rfl : k = l.length := by omega
      have hidx : q.slots (slotAt q.head l.length) = idx := by
        have := hitem l.length le_rfl
        rw [List.getElem?_append_right le_rfl, Nat.sub_self] at this
        exact Option.some.inj this
      show (if _ then _ else _) = _
      rw [if_neg (htail _ le_rfl), if_pos hidx]
    | succ m ih =>
      intro k hk fuel hfuel
      obtain ⟨fuel, rfl⟩ := Nat.exists_eq_succ_of_ne_zero (by omega : fuel ≠ 0)
      have hne : q.slots (slotAt q.head k) ≠ idx := by
        intro heq
        have := hitem k (by omega)
        rw [List.getElem?_append_left (by omega), heq] at this
        exact hl (List.mem_of_getElem? this.symm)
      show (if _ then _ else _) = _
      rw [if_neg (htail _ (by omega)), if_neg hne, next_slotAt]
      exact ih (k + 1) (by omega) fuel (by omega)
  have := hfrom l.length 0 (by omega) n (by omega)
  rwa [slotAt_zero] at this

/-- `Next_Item` returns the index behind the given one. -/
theorem nextItem_spec {q : IndexQueue n} {l l' : List (Fin n)} {idx b : Fin n}
    (h : q.items = l ++ idx :: b :: l') (hl : idx ∉ l) : q.nextItem idx = some b := by
  have hne : ¬ q.Empty := by
    rw [empty_iff, h]
    simp
  have hlen : l.length + 1 < q.nrOfUsedSlots := by
    rw [← length_items, h]
    simp
  unfold nextItem
  rw [if_neg hne, seek_spec h hl, Option.map_some, next_slotAt]
  have := getElem?_window q.slots q.head hlen
  rw [show window q.slots q.head q.nrOfUsedSlots = l ++ idx :: b :: l' from h,
    List.getElem?_append_right (by omega), show l.length + 1 - l.length = 1 by omega] at this
  exact this.symm

/-- **`Move_One_Item_Towards_Tail` exchanges the index with the one behind
it.** -/
theorem moveOneItemTowardsTail_spec {q : IndexQueue n} {l l' : List (Fin n)} {idx b : Fin n}
    (h : q.items = l ++ idx :: b :: l') (hl : idx ∉ l) :
    ∃ q', q.moveOneItemTowardsTail idx = some q' ∧ q'.items = l ++ b :: idx :: l' := by
  have hne : ¬ q.Empty := by
    rw [empty_iff, h]
    simp
  have hlen : q.nrOfUsedSlots = l.length + (l'.length + 2) := by
    have := congrArg List.length h
    simpa using this
  have hat : ∀ k < q.nrOfUsedSlots,
      (l ++ idx :: b :: l')[k]? = some (q.slots (slotAt q.head k)) := by
    intro k hk
    rw [← h]
    exact getElem?_window q.slots q.head hk
  have hidx : q.slots (slotAt q.head l.length) = idx := by
    have := hat l.length (by omega)
    rw [List.getElem?_append_right le_rfl, Nat.sub_self] at this
    exact (Option.some.inj this).symm
  have hb : q.slots (slotAt q.head (l.length + 1)) = b := by
    have := hat (l.length + 1) (by omega)
    rw [List.getElem?_append_right (by omega), show l.length + 1 - l.length = 1 by omega] at this
    exact (Option.some.inj this).symm
  unfold moveOneItemTowardsTail
  rw [if_neg hne, seek_spec h hl, Option.map_some]
  refine ⟨_, rfl, ?_⟩
  show window _ q.head q.nrOfUsedSlots = _
  rw [next_slotAt, hidx, hb]
  exact window_exchange q.used_le h

/-- `Item_Is_Tail` compares with the last index. -/
theorem itemIsTail_spec {q : IndexQueue n} {l : List (Fin n)} {b : Fin n}
    (h : q.items = l ++ [b]) (idx : Fin n) : q.itemIsTail idx = some (decide (b = idx)) := by
  have hne : ¬ q.Empty := by
    rw [empty_iff, h]
    simp
  have hlen : q.nrOfUsedSlots = l.length + 1 := by
    have := congrArg List.length h
    simpa using this
  have hb : q.slots (slotAt q.head l.length) = b := by
    have := getElem?_window q.slots q.head (show l.length < q.nrOfUsedSlots by omega)
    rw [show window q.slots q.head q.nrOfUsedSlots = l ++ [b] from h,
      List.getElem?_append_right le_rfl, Nat.sub_self] at this
    exact (Option.some.inj this).symm
  unfold itemIsTail
  rw [if_neg hne, q.tail_eq, hlen, prev_slotAt, hb]

end IndexQueue

end Cbe
