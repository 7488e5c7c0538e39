import Cbe.IndexQueue
import Cbe.Support.FifoList

/-!
# The index queue is a bounded list

Every operation of the ring does to the list of its indices what the operation
of a bounded first-in first-out list does, with the same result, and raises when
that one fails (`call_refines`); so does every sequence of calls
(`refinesList`). The loop of `Next_Item` and `Move_One_Item_Towards_Tail` has no
bound in the source: `Loop` is its meaning, and it ends on every queue that is
not empty (`loop_iff`).

The loop compares the index with the slots from the head on, and raises once it
has come to the last slot in use. An empty queue has no such slot, so the source
looks for this before it enters the loop. A run with fuel is what the model
computes with; that it agrees with the loop, with the capacity as its fuel, is
part of the statement.
-/

namespace Cbe

namespace IndexQueue

open RingBuffer

variable {n : ℕ}

/-! ## The loop

The meaning of the loop is a relation, and the search with fuel computes it. -/

/-- **The loop over the slots**, without a bound: it raises at the last slot in use,
returns the slot that holds the index, or goes on. -/
inductive Loop (q : IndexQueue n) (idx : Fin n) : Fin n → Option (Fin n) → Prop
  | tail {slot : Fin n} (htail : next slot = q.tail) : Loop q idx slot none
  | found {slot : Fin n} (htail : next slot ≠ q.tail) (hidx : q.slots slot = idx) :
      Loop q idx slot (some slot)
  | goOn {slot : Fin n} {res : Option (Fin n)} (htail : next slot ≠ q.tail)
      (hidx : q.slots slot ≠ idx) (h : Loop q idx (next slot) res) : Loop q idx slot res

/-- The loop ends in one way only. -/
theorem Loop.unique {q : IndexQueue n} {idx slot : Fin n} {res res' : Option (Fin n)}
    (h : q.Loop idx slot res) (h' : q.Loop idx slot res') : res = res' := by
  induction h with
  | tail htail =>
    cases h' with
    | tail => rfl
    | found hne => exact absurd htail hne
    | goOn hne => exact absurd htail hne
  | found htail hidx =>
    cases h' with
    | tail h => exact absurd h htail
    | found => rfl
    | goOn _ hne => exact absurd hidx hne
  | goOn htail hidx _ ih =>
    cases h' with
    | tail h => exact absurd h htail
    | found _ h => exact absurd h hidx
    | goOn _ _ h => exact ih h

/-- From a slot in use, as many turns as there are slots in use from there on are
enough. -/
theorem loop_seek (q : IndexQueue n) (idx : Fin n) {m k : ℕ} (hk : k + m + 1 = q.nrOfUsedSlots)
    {fuel : ℕ} (hfuel : m < fuel) :
    q.Loop idx (slotAt q.head k) (q.seek idx fuel (slotAt q.head k)) := by
  induction m generalizing k fuel with
  | zero =>
    obtain ⟨fuel, rfl⟩ := Nat.exists_eq_succ_of_ne_zero (Nat.ne_of_gt hfuel)
    have htail := next_slotAt_eq_tail (q := q) (k := k) hk
    show q.Loop idx _ (if _ then _ else _)
    rw [if_pos htail]
    exact .tail htail
  | succ m ih =>
    obtain ⟨fuel, rfl⟩ := Nat.exists_eq_succ_of_ne_zero (Nat.ne_of_gt (Nat.zero_lt_of_lt hfuel))
    have htail := next_slotAt_ne_tail (q := q) (k := k) (by omega)
    show q.Loop idx _ (if _ then _ else _)
    rw [if_neg htail]
    split_ifs with hidx
    · exact .found htail hidx
    · rw [next_slotAt]
      refine .goOn htail hidx ?_
      rw [next_slotAt]
      exact ih (by omega) (by omega)

/-- **The loop ends** on a queue that is not empty, and `seek` is what it ends with. -/
theorem loop_iff {q : IndexQueue n} (hne : ¬ q.Empty) (idx : Fin n) (res : Option (Fin n)) :
    q.Loop idx q.head res ↔ res = q.seek idx n q.head := by
  obtain ⟨m, hm⟩ := Nat.exists_eq_succ_of_ne_zero hne
  have hle := q.used_le
  have hloop := loop_seek q idx (m := m) (k := 0) (by omega) (show m < n by omega)
  rw [slotAt_zero] at hloop
  constructor
  · intro h
    exact h.unique hloop
  · rintro rfl
    exact hloop

/-- The loop does not find an index that is in the queue at most at the last place. -/
theorem seek_eq_none {q : IndexQueue n} {idx : Fin n} (h : idx ∉ q.items.dropLast) (fuel : ℕ)
    {m k : ℕ} (hk : k + m + 1 = q.nrOfUsedSlots) : q.seek idx fuel (slotAt q.head k) = none := by
  induction m generalizing k fuel with
  | zero =>
    cases fuel with
    | zero => rfl
    | succ fuel =>
      show (if _ then _ else _) = _
      rw [if_pos (next_slotAt_eq_tail hk)]
  | succ m ih =>
    cases fuel with
    | zero => rfl
    | succ fuel =>
      have hidx : q.slots (slotAt q.head k) ≠ idx := by
        rintro rfl
        refine h (List.mem_of_getElem? (i := k) ?_)
        rw [List.getElem?_dropLast, if_pos (by rw [length_items]; omega)]
        exact getElem?_window q.slots q.head (by omega)
      show (if _ then _ else _) = _
      rw [if_neg (next_slotAt_ne_tail (by omega)), if_neg hidx, next_slotAt]
      exact ih fuel (by omega)

/-- An index that is not in the queue, or is the last one, is not found. -/
theorem seek_head_eq_none {q : IndexQueue n} (hne : ¬ q.Empty) {idx : Fin n}
    (h : idx ∉ q.items.dropLast) (fuel : ℕ) : q.seek idx fuel q.head = none := by
  obtain ⟨m, hm⟩ := Nat.exists_eq_succ_of_ne_zero hne
  have hnone := seek_eq_none h fuel (show 0 + m + 1 = q.nrOfUsedSlots by omega)
  rwa [slotAt_zero] at hnone

/-! ## Every operation

Each operation beside the one of the list. -/

/-- `Next_Item` is the successor in the list. -/
theorem nextItem_eq (q : IndexQueue n) (idx : Fin n) :
    q.nextItem idx = FifoList.successor idx q.items := by
  by_cases hmem : idx ∈ q.items.dropLast
  · obtain ⟨l, b, l', hitems, hnot⟩ := FifoList.exists_split hmem
    rw [nextItem_spec hitems hnot, hitems, FifoList.successor_split hnot]
  · rw [FifoList.successor_eq_none_iff.mpr hmem]
    unfold nextItem
    split_ifs with hempty
    · rfl
    · rw [seek_head_eq_none hempty hmem]
      rfl

/-- `Move_One_Item_Towards_Tail` is the exchange in the list. -/
theorem map_items_moveOneItemTowardsTail (q : IndexQueue n) (idx : Fin n) :
    (q.moveOneItemTowardsTail idx).map items = FifoList.exchange idx q.items := by
  by_cases hmem : idx ∈ q.items.dropLast
  · obtain ⟨l, b, l', hitems, hnot⟩ := FifoList.exists_split hmem
    obtain ⟨q', hmove, hitems'⟩ := moveOneItemTowardsTail_spec hitems hnot
    rw [hmove, Option.map_some, hitems', hitems, FifoList.exchange_split hnot]
  · rw [FifoList.exchange_eq_none hmem]
    unfold moveOneItemTowardsTail
    split_ifs with hempty
    · rfl
    · rw [seek_head_eq_none hempty hmem]
      rfl

/-- `Item_Is_Tail` asks for the last element of the list. -/
theorem itemIsTail_eq (q : IndexQueue n) (idx : Fin n) :
    q.itemIsTail idx = FifoList.isLast idx q.items := by
  unfold FifoList.isLast
  rcases List.eq_nil_or_concat' q.items with hitems | ⟨l, b, hitems⟩
  · unfold itemIsTail
    rw [if_pos ((empty_iff q).mpr hitems), hitems]
    rfl
  · rw [itemIsTail_spec hitems, hitems, List.getLast?_concat]
    rfl

/-- `Enqueue` appends. -/
theorem map_items_enqueue (q : IndexQueue n) (idx : Fin n) :
    (q.enqueue idx).map items = if q.items.length < n then some (q.items ++ [idx]) else none := by
  split_ifs with hlt
  · obtain ⟨q', hrun, hitems⟩ := enqueue_spec hlt idx
    rw [hrun, Option.map_some, hitems]
  · have hfull : q.Full := by
      have hle := q.used_le
      rw [length_items] at hlt
      exact le_antisymm hle (Nat.le_of_not_lt hlt)
    unfold enqueue
    rw [dif_pos hfull]
    rfl

/-- `Dequeue` takes the head off. -/
theorem map_items_dequeue (q : IndexQueue n) (idx : Fin n) :
    (q.dequeue idx).map items = if q.items.head? = some idx then some q.items.tail else none := by
  split_ifs with hhead
  · obtain ⟨l, hitems⟩ := List.head?_eq_some_iff.mp hhead
    obtain ⟨q', hrun, hitems'⟩ := dequeue_spec hitems
    rw [hrun, Option.map_some, hitems', hitems]
    rfl
  · cases hrun : q.dequeue idx with
    | none => rfl
    | some q' =>
      rw [items_of_dequeue hrun] at hhead
      exact absurd rfl hhead

/-! ## Every sequence of calls

By induction on the calls; the two go on in states that stand for each other, or
both raise. -/

/-- **A call** of the queue. -/
def call (q : IndexQueue n) :
    FifoList.Call (Fin n) → Option (FifoList.Result (Fin n) × IndexQueue n)
  | .enqueue idx => (q.enqueue idx).map fun q' => (.done, q')
  | .dequeue idx => (q.dequeue idx).map fun q' => (.done, q')
  | .nextItem idx => (q.nextItem idx).map fun b => (.item b, q)
  | .itemIsTail idx => (q.itemIsTail idx).map fun b => (.flag b, q)
  | .moveOneItemTowardsTail idx => (q.moveOneItemTowardsTail idx).map fun q' => (.done, q')
  | .head => q.headItem.map fun b => (.item b, q)
  | .empty => some (.flag (decide q.Empty), q)
  | .full => some (.flag (decide q.Full), q)

/-- Calls one after the other, with all their results, up to one that raises. -/
def run (q : IndexQueue n) :
    List (FifoList.Call (Fin n)) → Option (List (FifoList.Result (Fin n)) × IndexQueue n)
  | [] => some ([], q)
  | c :: calls => (q.call c).bind fun p => (p.2.run calls).map fun r => (p.1 :: r.1, r.2)

/-- **A call does to the list of the indices what it does to a bounded list**, with the
same result. -/
theorem call_refines (q : IndexQueue n) (c : FifoList.Call (Fin n)) :
    (q.call c).map (fun p => (p.1, p.2.items)) = FifoList.call n q.items c := by
  have hmap : ∀ o : Option (IndexQueue n),
      (o.map fun q' => (FifoList.Result.done, q')).map (fun p => (p.1, p.2.items))
        = (o.map items).map fun l => ((FifoList.Result.done : FifoList.Result (Fin n)), l) := by
    intro o
    cases o <;> rfl
  cases c with
  | enqueue idx =>
    show Option.map _ (Option.map _ (q.enqueue idx)) = _
    rw [hmap, map_items_enqueue]
    show _ = if q.items.length < n then some (FifoList.Result.done, q.items ++ [idx]) else none
    split_ifs <;> rfl
  | dequeue idx =>
    show Option.map _ (Option.map _ (q.dequeue idx)) = _
    rw [hmap, map_items_dequeue]
    show _ = if q.items.head? = some idx then some (FifoList.Result.done, q.items.tail) else none
    split_ifs <;> rfl
  | nextItem idx =>
    show Option.map _ (Option.map _ (q.nextItem idx)) = _
    rw [nextItem_eq, Option.map_map]
    rfl
  | itemIsTail idx =>
    show Option.map _ (Option.map _ (q.itemIsTail idx)) = _
    rw [itemIsTail_eq, Option.map_map]
    rfl
  | moveOneItemTowardsTail idx =>
    show Option.map _ (Option.map _ (q.moveOneItemTowardsTail idx)) = _
    rw [hmap, map_items_moveOneItemTowardsTail]
    rfl
  | head =>
    show Option.map _ (Option.map _ q.headItem) = _
    rw [headItem_eq, Option.map_map]
    rfl
  | empty =>
    show some (FifoList.Result.flag _, q.items) = some (.flag _, q.items)
    rw [decide_eq_decide.mpr (empty_iff q)]
  | full =>
    show some (FifoList.Result.flag _, q.items) = some (.flag _, q.items)
    rw [decide_eq_decide.mpr (full_iff q)]

/-- A sequence of calls on any queue. -/
theorem run_refines (q : IndexQueue n) (calls : List (FifoList.Call (Fin n))) :
    (q.run calls).map (fun p => (p.1, p.2.items)) = FifoList.run n q.items calls := by
  induction calls generalizing q with
  | nil => rfl
  | cons c calls ih =>
    unfold run FifoList.run
    rw [← call_refines]
    cases hcall : q.call c with
    | none => rfl
    | some p =>
      rw [Option.bind_some, Option.map_some, Option.bind_some]
      dsimp only
      rw [← ih p.2]
      cases p.2.run calls <;> rfl

/-- **How the searches end.** The loop ends on a queue that is not empty. In a queue that
holds each index once, `Next_Item` raises exactly on the item that `Item_Is_Tail`
reports. -/
structure SearchesEnd (q : IndexQueue n) : Prop where
  /-- The loop ends on a queue that is not empty, with this result. -/
  loop : q.items ≠ [] → ∀ idx res, q.Loop idx q.head res ↔ res = q.seek idx n q.head
  /-- The tail is the item that has no next one. -/
  last : q.items.Nodup → ∀ idx ∈ q.items,
    (q.nextItem idx = none ↔ q.itemIsTail idx = some true)

/-- The searches of every queue end. -/
theorem searchesEnd (q : IndexQueue n) : q.SearchesEnd where
  loop hne idx res := loop_iff (fun h => hne ((empty_iff q).mp h)) idx res
  last hnd idx hidx := by
    rw [nextItem_eq, itemIsTail_eq]
    exact FifoList.successor_eq_none_iff_isLast hnd hidx

/-- **The index queue refines a bounded list**: for every capacity, every sequence of
calls from the empty queue returns what it returns on a list, raises at the call where
the list operation fails, and leaves the indices of the list; and the searches end. -/
theorem refinesList (n : ℕ) [NeZero n] (calls : List (FifoList.Call (Fin n))) :
    ((emptyQueue n).run calls).map (fun p => (p.1, p.2.items)) = FifoList.run n [] calls
      ∧ ∀ results q, (emptyQueue n).run calls = some (results, q) → q.SearchesEnd :=
  ⟨run_refines (emptyQueue n) calls, fun _ q _ => q.searchesEnd⟩

/-- The queue of two slots, filled, with its items exchanged, and filled again around
the end of the ring. -/
def sampleCalls : List (FifoList.Call (Fin 2)) :=
  [.enqueue 0, .enqueue 1, .full, .moveOneItemTowardsTail 0, .dequeue 1, .enqueue 1, .nextItem 0,
    .itemIsTail 1]

/-- A queue of two places that runs full. -/
theorem refinesList_sample :
    ((emptyQueue 2).run sampleCalls).map (fun p => (p.1, p.2.items))
        = some ([.done, .done, .flag true, .done, .done, .done, .item 1, .flag true], [0, 1])
      ∧ ((emptyQueue 2).run sampleCalls).map (fun p => (p.1, p.2.items))
        = FifoList.run 2 [] sampleCalls :=
  ⟨by decide, (refinesList 2 sampleCalls).1⟩

end IndexQueue

end Cbe
