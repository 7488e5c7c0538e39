import Cbe.Support.BottomUp
import Cbe.Support.RadixTree

/-!
# Radix trees that are laid out bottom up

A tree that is written bottom up takes its addresses in turn: those of the children, one
child after the other, and then the one of the node itself. The leaves are placed from the
left, and nothing is laid out any more when there is none left to place.

`Laid` says this of a tree in a store. In such a tree all addresses come from the range
that was taken (`Laid.addr_mem`), an address belongs to one place (`Laid.entry_inj`), and
the keys with a leaf are the first ones (`Laid.reached_iff`). What is known of each entry
when it is laid out is a parameter (`Laid.holds`).

The trees that `BottomUp.Maker` makes are laid out, in every store that agrees with the one
they were made in (`laid_make`).
-/

namespace RadixTree

variable {ε : Type} {child : ℕ → ℕ → ε} {addr : ε → ℕ} {d : ℕ} {C : ℕ → ε → Prop} {root : ε}
  {top v w l k : ℕ}

/-! ## The way down from the root

A key reaches a level when all nodes on its way down are there. -/

/-- **The way to a place** exists: the entries down to it are in use. -/
def Reached (child : ℕ → ℕ → ε) (addr : ε → ℕ) (d : ℕ) (root : ε) (top v l : ℕ) : Prop :=
  ∀ j, l ≤ j → j ≤ top → addr (entryAt child addr d root top v j) ≠ 0

/-- Below the root the way goes on in one of its children. -/
theorem entryAt_succ (hl : l ≤ top) :
    entryAt child addr d root (top + 1) v l
      = entryAt child addr d (child (addr root) (v / d ^ top % d)) top v l := by
  induction hl using Nat.decreasingInduction with
  | self => rw [entryAt_of_lt (Nat.lt_succ_self top), entryAt_top, entryAt_top]
  | of_succ l hlt ih => rw [entryAt_of_lt (Nat.lt_succ_of_lt hlt), entryAt_of_lt hlt, ih]

/-- What is reached has a root. -/
theorem Reached.root_ne_zero (h : Reached child addr d root top v l) (hl : l ≤ top) :
    addr root ≠ 0 := by
  have htop := h top hl le_rfl
  rwa [entryAt_top] at htop

/-- One level more on top. -/
theorem reached_succ (hl : l ≤ top) :
    Reached child addr d root (top + 1) v l ↔ addr root ≠ 0
      ∧ Reached child addr d (child (addr root) (v / d ^ top % d)) top v l := by
  constructor
  · intro h
    refine ⟨h.root_ne_zero (Nat.le_succ_of_le hl), fun j hlj hj => ?_⟩
    rw [← entryAt_succ hj]
    exact h j hlj (Nat.le_succ_of_le hj)
  · rintro ⟨hroot, h⟩ j hlj hj
    rcases Nat.le_succ_iff.mp hj with hj | rfl
    · rw [entryAt_succ hj]
      exact h j hlj hj
    · rwa [entryAt_top]

/-- The way of a key is that of its remainder. -/
theorem reached_mod : Reached child addr d root top (v % d ^ top) l
    ↔ Reached child addr d root top v l := by
  have heq : ∀ j, j ≤ top → entryAt child addr d root top (v % d ^ top) j
      = entryAt child addr d root top v j := fun j hj =>
    entryAt_digit_congr hj fun _ _ hlt => digit_mod hlt
  refine forall_congr' fun j => forall_congr' fun _ => forall_congr' fun hj => ?_
  rw [heq j hj]

/-! ## Layouts

A layout takes a range of addresses and a number of leaves from what there is,
so two of them one after the other take a range and a number, too. By induction
on the level. -/

/-- What is still there when a tree is laid out: the leaves to place and the next address. -/
structure Supply where
  /-- How many leaves are still to be placed. -/
  left : ℕ
  /-- The next address. -/
  next : ℕ

/-- **A tree laid out**: what was there before and what is there after it. `C` is what is
known of the entries of a level. -/
inductive Laid (child : ℕ → ℕ → ε) (addr : ε → ℕ) (d : ℕ) (C : ℕ → ε → Prop) :
    ℕ → ε → Supply → Supply → Prop
  | absent {top a : ℕ} {root : ε} (haddr : addr root = 0) :
      Laid child addr d C top root ⟨0, a⟩ ⟨0, a⟩
  | leaf {n a : ℕ} {root : ε} (haddr : addr root = a) (ha : a ≠ 0) (hC : C 0 root) :
      Laid child addr d C 0 root ⟨n + 1, a⟩ ⟨n, a + 1⟩
  | node {top : ℕ} {root : ε} {s : ℕ → Supply} (haddr : addr root = (s d).next)
      (ha : (s d).next ≠ 0) (hleft : (s 0).left ≠ 0) (hC : C (top + 1) root)
      (hchild : ∀ i < d, Laid child addr d C top (child (addr root) i) (s i) (s (i + 1))) :
      Laid child addr d C (top + 1) root (s 0) ⟨(s d).left, (s d).next + 1⟩

namespace Laid

variable {s s' : Supply}

/-- From one child to a later one. -/
theorem next_chain {s : ℕ → Supply} (h : ∀ i < d, (s i).next ≤ (s (i + 1)).next) {i j : ℕ}
    (hij : i ≤ j) (hj : j ≤ d) : (s i).next ≤ (s j).next := by
  induction j, hij using Nat.le_induction with
  | base => exact le_rfl
  | succ j _ ih => exact (ih (Nat.le_of_succ_le hj)).trans (h j hj)

/-- The leaves that the children before one have left. -/
theorem left_chain {s : ℕ → Supply} {n : ℕ} (h : ∀ i < d, (s (i + 1)).left = (s i).left - n)
    {i : ℕ} (hi : i ≤ d) : (s i).left = (s 0).left - i * n := by
  induction i with
  | zero => rw [Nat.zero_mul, Nat.sub_zero]
  | succ i ih => rw [h i hi, ih (Nat.le_of_succ_le hi), Nat.sub_sub, Nat.succ_mul]

/-- Addresses are taken in turn. -/
theorem next_le (h : Laid child addr d C top root s s') : s.next ≤ s'.next := by
  induction h with
  | absent => exact le_rfl
  | leaf => exact Nat.le_succ _
  | node _ _ _ _ _ ih => exact (next_chain ih (Nat.zero_le d) le_rfl).trans (Nat.le_succ _)

/-- **A tree takes as many leaves as it has room for**, if there are that many. -/
theorem left_eq (h : Laid child addr d C top root s s') : s'.left = s.left - d ^ top := by
  induction h with
  | absent => exact (Nat.zero_sub _).symm
  | leaf => rfl
  | node _ _ _ _ _ ih =>
    rw [pow_succ, Nat.mul_comm]
    exact left_chain ih le_rfl

section

variable (hd : 0 < d)

include hd

/-- **What is known of the entries** holds for each one that is reached. -/
theorem holds (h : Laid child addr d C top root s s') (hl : l ≤ top)
    (hr : Reached child addr d root top v l) : C l (entryAt child addr d root top v l) := by
  induction h with
  | absent haddr => exact absurd haddr (hr.root_ne_zero hl)
  | leaf _ _ hC =>
    obtain rfl := Nat.le_zero.mp hl
    rwa [entryAt_top]
  | node _ _ _ hC _ ih =>
    rcases Nat.le_succ_iff.mp hl with hl | rfl
    · rw [entryAt_succ hl]
      exact ih _ (Nat.mod_lt _ hd) hl ((reached_succ hl).mp hr).2
    · rwa [entryAt_top]

/-- **The addresses** are the ones that were taken. -/
theorem addr_mem (h : Laid child addr d C top root s s') (hl : l ≤ top)
    (hr : Reached child addr d root top v l) :
    s.next ≤ addr (entryAt child addr d root top v l)
      ∧ addr (entryAt child addr d root top v l) < s'.next := by
  induction h with
  | absent haddr => exact absurd haddr (hr.root_ne_zero hl)
  | leaf haddr =>
    obtain rfl := Nat.le_zero.mp hl
    rw [entryAt_top, haddr]
    exact ⟨le_rfl, Nat.lt_succ_self _⟩
  | @node top _ s haddr _ _ _ hchild ih =>
    have hnext := fun i hi => (hchild i hi).next_le
    rcases Nat.le_succ_iff.mp hl with hl | rfl
    · -- in the range of a child
      have hi : v / d ^ top % d < d := Nat.mod_lt _ hd
      rw [entryAt_succ hl]
      obtain ⟨hlo, hhi⟩ := ih _ hi hl ((reached_succ hl).mp hr).2
      exact ⟨(next_chain hnext (Nat.zero_le _) hi.le).trans hlo,
        Nat.lt_succ_of_lt (hhi.trans_le (next_chain hnext hi le_rfl))⟩
    · rw [entryAt_top, haddr]
      exact ⟨next_chain hnext (Nat.zero_le d) le_rfl, Nat.lt_succ_self _⟩

/-- **An address belongs to one place**: two ways to it have the same digits. -/
theorem entry_inj (h : Laid child addr d C top root s s') (hl : l ≤ top) (hk : k ≤ top)
    (hv : Reached child addr d root top v l) (hw : Reached child addr d root top w k)
    (heq : addr (entryAt child addr d root top v l) = addr (entryAt child addr d root top w k)) :
    l = k ∧ ∀ j, l ≤ j → j < top → v / d ^ j % d = w / d ^ j % d := by
  induction h with
  | absent haddr => exact absurd haddr (hv.root_ne_zero hl)
  | leaf =>
    obtain rfl := Nat.le_zero.mp hl
    obtain rfl := Nat.le_zero.mp hk
    exact ⟨rfl, fun j _ hj => absurd hj (Nat.not_lt_zero j)⟩
  | @node top root s haddr _ _ _ hchild ih =>
    have hnext := fun i hi => (hchild i hi).next_le
    -- a child has no address of the node itself, and none of the children after it
    have hbelow : ∀ {v l}, l ≤ top → Reached child addr d root (top + 1) v l →
        (s (v / d ^ top % d)).next ≤ addr (entryAt child addr d root (top + 1) v l)
          ∧ addr (entryAt child addr d root (top + 1) v l) < (s (v / d ^ top % d + 1)).next := by
      intro v l hl hr
      rw [entryAt_succ hl]
      exact (hchild _ (Nat.mod_lt _ hd)).addr_mem hd hl ((reached_succ hl).mp hr).2
    have hroot : ∀ {v l}, l ≤ top → Reached child addr d root (top + 1) v l →
        addr (entryAt child addr d root (top + 1) v l) < addr root := by
      intro v l hl hr
      rw [haddr]
      exact (hbelow hl hr).2.trans_le (next_chain hnext (Nat.mod_lt _ hd) le_rfl)
    rcases Nat.le_succ_iff.mp hl with hl | rfl <;> rcases Nat.le_succ_iff.mp hk with hk | rfl
    · have hdigit : v / d ^ top % d = w / d ^ top % d := by
        obtain ⟨hvlo, hvhi⟩ := hbelow hl hv
        obtain ⟨hwlo, hwhi⟩ := hbelow hk hw
        by_contra hne
        rcases Nat.lt_or_gt_of_ne hne with hlt | hlt
        · have := next_chain hnext hlt (Nat.mod_lt (w / d ^ top) hd).le
          exact absurd heq (hvhi.trans_le (this.trans hwlo)).ne
        · have := next_chain hnext hlt (Nat.mod_lt (v / d ^ top) hd).le
          exact absurd heq (hwhi.trans_le (this.trans hvlo)).ne'
      rw [entryAt_succ hl, entryAt_succ hk, ← hdigit] at heq
      have hw' := ((reached_succ hk).mp hw).2
      rw [← hdigit] at hw'
      obtain ⟨rfl, hsame⟩ :=
        ih _ (Nat.mod_lt _ hd) hl hk ((reached_succ hl).mp hv).2 hw' heq
      refine ⟨rfl, fun j hlj hj => ?_⟩
      rcases Nat.lt_succ_iff_lt_or_eq.mp hj with hlt | rfl
      · exact hsame j hlj hlt
      · exact hdigit
    · have hlt := hroot hl hv
      rw [heq, entryAt_top] at hlt
      exact absurd hlt (lt_irrefl _)
    · have hlt := hroot hk hw
      rw [← heq, entryAt_top] at hlt
      exact absurd hlt (lt_irrefl _)
    · exact ⟨rfl, fun j hlj hj => absurd hlj (Nat.not_le_of_lt hj)⟩

/-- **The keys with a leaf** are the first ones. -/
theorem reached_iff (h : Laid child addr d C top root s s') (hv : v < d ^ top) :
    Reached child addr d root top v 0 ↔ v < s.left := by
  induction h generalizing v with
  | absent haddr =>
    exact iff_of_false (fun hr => hr.root_ne_zero (Nat.zero_le _) haddr) (Nat.not_lt_zero v)
  | leaf haddr ha =>
    rw [pow_zero] at hv
    obtain rfl := Nat.lt_one_iff.mp hv
    refine iff_of_true (fun j _ hj => ?_) (Nat.succ_pos _)
    obtain rfl := Nat.le_zero.mp hj
    rwa [entryAt_top, haddr]
  | @node top root s haddr ha _ _ hchild ih =>
    have hi : v / d ^ top < d := Nat.div_lt_of_lt_mul (by rwa [pow_succ] at hv)
    have hpos : 0 < d ^ top := Nat.pow_pos hd
    -- the part of the key below the child
    rw [reached_succ (Nat.zero_le top), Nat.mod_eq_of_lt hi, ← reached_mod,
      ih _ hi (Nat.mod_lt v hpos), left_chain (fun i hi => (hchild i hi).left_eq) hi.le, haddr,
      and_iff_right ha]
    rw [Nat.lt_sub_iff_add_lt, Nat.mul_comm, Nat.mod_add_div]

end

end Laid

end RadixTree

namespace BottomUp

open LevelScan RadixTree

variable {N L B α σ : Type*} {n m : ℕ}

/-- What is passed on between the children. -/
theorem Threaded.exists_chain {R : α → σ → σ → Prop} {xs : List α} {s s' : σ}
    (h : Threaded R xs s s') : ∃ c : ℕ → σ, c 0 = s ∧ c xs.length = s'
      ∧ ∀ i (hi : i < xs.length), R (xs.get ⟨i, hi⟩) (c i) (c (i + 1)) := by
  induction h with
  | nil s => exact ⟨fun _ => s, rfl, rfl, fun i hi => absurd hi (Nat.not_lt_zero i)⟩
  | @cons x xs s s₁ s₂ hx hxs ih =>
    obtain ⟨c, hfirst, hlast, hc⟩ := ih
    refine ⟨fun i => i.casesOn s c, rfl, hlast, fun i hi => ?_⟩
    cases i with
    | zero =>
      show R x s (c 0)
      rwa [hfirst]
    | succ i => exact hc i (Nat.lt_of_succ_lt_succ hi)

/-- The children that are used are the first ones. -/
theorem childIdxs_eq (hm : m < n) :
    childIdxs n m = (List.finRange (m + 1)).map (Fin.castLE hm) := by
  have hval : ∀ k, (List.finRange k).map Fin.val = List.range k := fun k =>
    List.ext_getElem (by simp) fun i h h' => by simp
  refine List.map_injective_iff.mpr Fin.val_injective ?_
  show ((List.finRange n).filter fun i => decide (i.val ≤ m)).map Fin.val = _
  have hfilter : ((List.finRange n).filter fun i => decide (i.val ≤ m)).map Fin.val
      = ((List.finRange n).map Fin.val).filter fun i => decide (i ≤ m) := by
    rw [List.filter_map]
    rfl
  rw [hfilter, List.map_map, show Fin.val ∘ Fin.castLE hm = Fin.val from rfl, hval, hval,
    show n = m + 1 + (n - (m + 1)) from (Nat.add_sub_cancel' hm).symm, List.range_add,
    List.filter_append]
  have hfirst : (List.range (m + 1)).filter (fun i => decide (i ≤ m)) = List.range (m + 1) :=
    List.filter_eq_self.mpr fun i hi => decide_eq_true (Nat.lt_succ_iff.mp (List.mem_range.mp hi))
  have hrest : ((List.range (n - (m + 1))).map fun i => m + 1 + i).filter
      (fun i => decide (i ≤ m)) = [] := by
    refine List.filter_eq_nil_iff.mpr fun i hi => ?_
    obtain ⟨j, -, rfl⟩ := List.mem_map.mp hi
    rw [decide_eq_true_eq]
    omega
  rw [hfirst, hrest, List.append_nil]

/-- What a stock supplies. -/
def Stock.supply (s : Stock B) : Supply := ⟨s.left, s.next⟩

/-- **What was built between two stocks is in a store**, at addresses below a bound. -/
structure Stock.Within (disk : ℕ → B) (bound : ℕ) (s s' : Stock B) : Prop where
  /-- No block is at the address zero. -/
  pos : 0 < s.next
  /-- The addresses end before the bound. -/
  le : s'.next ≤ bound
  /-- The store has the blocks in between. -/
  agrees : ∀ a, s.next ≤ a → a < s'.next → disk a = s'.disk a

/-- From one child to a later one. -/
theorem Stock.grows_chain {c : ℕ → Stock B} {k : ℕ} (h : ∀ i < k, (c i).Grows (c (i + 1)))
    {i j : ℕ} (hij : i ≤ j) (hj : j ≤ k) : (c i).Grows (c j) := by
  induction j, hij using Nat.le_induction with
  | base => exact .refl _
  | succ j _ ih => exact (ih (Nat.le_of_succ_le hj)).trans (h j hj)

/-- A part of what was built is in the store, too. -/
theorem Stock.Within.part {disk : ℕ → B} {bound : ℕ} {s s' t t' : Stock B}
    (h : s.Within disk bound s') (hs : s.Grows t) (hs' : t'.Grows s') :
    t.Within disk bound t' where
  pos := h.pos.trans_le hs.next
  le := hs'.next.trans h.le
  agrees a ha ha' :=
    (h.agrees a (hs.next.trans ha) (ha'.trans_le hs'.next)).trans (hs'.disk a (Or.inl ha'))

/-- What the children of a node take. -/
structure Children (disk : ℕ → B) (bound : ℕ) (m : ℕ) (f : Stock B → α × Stock B) (none' : α)
    (nodes : Fin n → α) (c : ℕ → Stock B) : Prop where
  /-- The children in use are made one after the other. -/
  made : ∀ i : Fin n, i.val ≤ m → f (c i) = (nodes i, c (i + 1))
  /-- What is made for each of them is in the store. -/
  within : ∀ i, i ≤ m → (c i).Within disk bound (c (i + 1))
  /-- Each of them takes from the stock. -/
  grows : ∀ i, i ≤ m → (c i).Grows (c (i + 1))
  /-- The others are missing. -/
  beyond : ∀ i : Fin n, m < i.val → nodes i = none'

/-- **A node that is made**: its children are made one after the other, then the node takes
the next address. -/
theorem Maker.makeNode_spec (mk : Maker N L B n) {f : Stock B → α × Stock B}
    {block : (Fin n → α) → B} {none' : α} {below : Stock B → B × Stock B}
    (hbelow : ∀ s, below s = (block (each (fun _ _ => f) (childIdxs n m) (fun _ => none') s).1,
      (each (fun _ _ => f) (childIdxs n m) (fun _ => none') s).2))
    (hgrows : ∀ s : Stock B, s.Grows (f s).2) (hm : m < n) {s : Stock B} (hleft : s.left ≠ 0)
    {disk : ℕ → B} {bound : ℕ} (hwithin : s.Within disk bound (mk.makeNode below s).2) :
    ∃ (nodes : Fin n → α) (c : ℕ → Stock B), c 0 = s
      ∧ Children disk bound m f none' nodes c
      ∧ 0 < (c (m + 1)).next ∧ (c (m + 1)).next < bound
      ∧ disk (c (m + 1)).next = block nodes
      ∧ (mk.makeNode below s).1 = mk.nodeAt (c (m + 1)).next (disk (c (m + 1)).next)
      ∧ (mk.makeNode below s).2.supply = ⟨(c (m + 1)).left, (c (m + 1)).next + 1⟩ := by
  have hnodup : (childIdxs n m).Nodup := (pairwise_childIdxs n m).imp fun h => ne_of_lt h
  have hthread := each_threaded (f := fun _ _ => f) (R := fun x s s' => f s = (x, s'))
    (fun _ _ _ => rfl) hnodup (fun _ => none') s
  generalize heach : each (fun _ _ => f) (childIdxs n m) (fun _ => none') s = r at hthread
  obtain ⟨nodes, t⟩ := r
  rw [childIdxs_eq hm, List.map_map] at hthread
  obtain ⟨c, rfl, hlast, hc⟩ := hthread.exists_chain
  rw [List.length_map, List.length_finRange] at hlast
  have hmade : ∀ i : Fin n, i.val ≤ m → f (c i) = (nodes i, c (i + 1)) := fun i hi => by
    have hi' := hc i (by rw [List.length_map, List.length_finRange]; exact Nat.lt_succ_of_le hi)
    rw [List.get_eq_getElem, List.getElem_map, List.getElem_finRange] at hi'
    exact hi'
  have hbeyond : ∀ i : Fin n, m < i.val → nodes i = none' := fun i hi => by
    have hsame := each_of_not_mem (f := fun _ _ => f)
      (fun hmem => absurd (mem_childIdxs.mp hmem) (Nat.not_le.mpr hi)) (fun _ => none') (c 0)
    rwa [heach] at hsame
  have hnode : mk.makeNode below (c 0) = mk.putNode (block nodes) (c (m + 1)) := by
    rw [makeNode, if_neg hleft, hbelow, heach, hlast]
  rw [hnode] at hwithin ⊢
  have hstep : ∀ i < m + 1, (c i).Grows (c (i + 1)) := fun i hi => by
    have hi' := hgrows (c i)
    rwa [hmade ⟨i, by omega⟩ (Nat.lt_succ_iff.mp hi)] at hi'
  -- what the children took is a part of what was taken
  have hfrom : ∀ i ≤ m + 1, (c 0).Grows (c i) := fun i hi =>
    Stock.grows_chain hstep (Nat.zero_le i) hi
  have hput : (c (m + 1)).Grows (mk.putNode (block nodes) (c (m + 1))).2 :=
    mk.grows_putNode _ _
  have hat : disk (c (m + 1)).next = block nodes := by
    rw [hwithin.agrees _ (hfrom _ le_rfl).next (Nat.lt_succ_self _)]
    exact Function.update_self _ _ _
  refine ⟨nodes, c, rfl, ⟨hmade, fun i hi => ?_, fun i hi => hstep i (Nat.lt_succ_of_le hi),
    hbeyond⟩, hwithin.pos.trans_le (hfrom _ le_rfl).next, hwithin.le, hat, ?_, rfl⟩
  · exact hwithin.part (hfrom i (Nat.le_succ_of_le hi))
      ((Stock.grows_chain hstep (Nat.succ_le_succ hi) le_rfl).trans hput)
  · rw [hat]
    rfl

/-- Each child places a number of leaves, if there are that many. -/
theorem Stock.left_each {b : ℕ} {f : Stock B → α × Stock B}
    (hf : ∀ s : Stock B, (f s).2.left = s.left - b) (is : List (Fin n)) (x : Fin n → α)
    (s : Stock B) : (each (fun _ _ => f) is x s).2.left = s.left - is.length * b := by
  induction is generalizing x s with
  | nil => rw [List.length_nil, Nat.zero_mul, Nat.sub_zero, each]
  | cons i is ih => rw [each, ih, hf, List.length_cons, Nat.succ_mul, Nat.sub_sub, Nat.add_comm]

/-- How many leaves are left after a node. -/
theorem Maker.left_makeNode (mk : Maker N L B n) {below : Stock B → B × Stock B} {b : ℕ}
    (hbelow : ∀ s : Stock B, (below s).2.left = s.left - b) (s : Stock B) :
    (mk.makeNode below s).2.left = s.left - b := by
  unfold Maker.makeNode
  by_cases hleft : s.left = 0
  · rw [if_pos hleft, hleft, Nat.zero_sub]
  · rw [if_neg hleft]
    exact hbelow s

/-- **A tree places as many leaves as it has room for**, if there are that many. -/
theorem Maker.left_make (mk : Maker N L B n) (hm : m < n) (d : ℕ) (s : Stock B) :
    (mk.make m d s).2.left = s.left - (m + 1) ^ (d + 1) := by
  have hlen : (childIdxs n m).length = m + 1 := by
    rw [childIdxs_eq hm, List.length_map, List.length_finRange]
  refine mk.left_makeNode (fun s => ?_) s
  induction d generalizing s with
  | zero =>
    have hleaf : ∀ s : Stock B, (mk.makeLeaf s).2.left = s.left - 1 := fun s => by
      unfold Maker.makeLeaf
      by_cases hleft : s.left = 0
      · rw [if_pos hleft, hleft]
      · rw [if_neg hleft]
    rw [makeBelow, Stock.left_each hleaf, hlen, Nat.mul_one, pow_one]
  | succ d ih =>
    rw [makeBelow, Stock.left_each (mk.left_makeNode ih), hlen, pow_succ _ (d + 1), Nat.mul_comm]

section

variable {ε : Type} {B : Type*} [NeZero n] {mk : Maker ε ε B n} {addr : ε → ℕ}
  {decode : B → Fin n → ε} {inRange : ε → Prop} {bound : ℕ} {C : ℕ → ε → Prop} {disk : ℕ → B}

/-- **What a store knows of the entries**: their addresses, and what is in a block of entries
that are in the range. -/
structure Maker.Decodes (mk : Maker ε ε B n) (addr : ε → ℕ) (decode : B → Fin n → ε)
    (inRange : ε → Prop) (bound : ℕ) : Prop where
  /-- A missing leaf has the address zero. -/
  addr_noLeaf : addr mk.noLeaf = 0
  /-- So has a missing node. -/
  addr_noNode : addr mk.noNode = 0
  /-- A leaf has its address. -/
  addr_leafAt : ∀ a, addr (mk.leafAt a) = a
  /-- So has a node. -/
  addr_nodeAt : ∀ a b, addr (mk.nodeAt a b) = a
  /-- A missing leaf is in the range. -/
  noLeaf : inRange mk.noLeaf
  /-- So is a missing node. -/
  noNode : inRange mk.noNode
  /-- A leaf is in the range if its address is below the bound. -/
  leafAt : ∀ a, a < bound → inRange (mk.leafAt a)
  /-- So is a node. -/
  nodeAt : ∀ a b, a < bound → inRange (mk.nodeAt a b)
  /-- A block of leaves in the range is read back. -/
  lowest : ∀ nodes, (∀ i, inRange (nodes i)) → decode (mk.lowestBlock nodes) = nodes
  /-- So is a block of nodes. -/
  upper : ∀ nodes, (∀ i, inRange (nodes i)) → decode (mk.upperBlock nodes) = nodes

/-- The children in a block. -/
def childIn (decode : B → Fin n → ε) (disk : ℕ → B) (a i : ℕ) : ε :=
  decode (disk a) (Fin.ofNat n i)

/-- **What was made is laid out**, in a store that has it. -/
def LaidOut (decode : B → Fin n → ε) (addr : ε → ℕ) (inRange : ε → Prop) (bound m : ℕ)
    (C : ℕ → ε → Prop) (disk : ℕ → B) (top : ℕ) (x : ε) (s s' : Stock B) : Prop :=
  s.Within disk bound s' →
    inRange x ∧ Laid (childIn decode disk) addr (m + 1) C top x s.supply s'.supply

variable (hc : mk.Decodes addr decode inRange bound) (hm : m < n)
  (hnode : ∀ l a, C (l + 1) (mk.nodeAt a (disk a)))

include hc hm hnode in
/-- **A node** is laid out behind its children. -/
theorem Maker.laidOut_makeNode {top : ℕ} {f : Stock B → ε × Stock B} {block : (Fin n → ε) → B}
    {none' : ε} {below : Stock B → B × Stock B}
    (hbelow : ∀ s, below s = (block (each (fun _ _ => f) (childIdxs n m) (fun _ => none') s).1,
      (each (fun _ _ => f) (childIdxs n m) (fun _ => none') s).2))
    (hblock : ∀ nodes, (∀ i, inRange (nodes i)) → decode (block nodes) = nodes)
    (hnone : inRange none') (hgrows : ∀ s : Stock B, s.Grows (f s).2)
    (hf : ∀ s, LaidOut decode addr inRange bound m C disk top (f s).1 s (f s).2) (s : Stock B) :
    LaidOut decode addr inRange bound m C disk (top + 1) (mk.makeNode below s).1 s
      (mk.makeNode below s).2 := by
  intro hwithin
  by_cases hleft : s.left = 0
  · rw [Maker.makeNode, if_pos hleft]
    refine ⟨hc.noNode, ?_⟩
    rw [Stock.supply, hleft]
    exact .absent hc.addr_noNode
  obtain ⟨nodes, c, rfl, hchildren, hpos, hlt, hat, hroot, hsupply⟩ :=
    mk.makeNode_spec hbelow hgrows hm hleft hwithin
  have hlaid : ∀ i : Fin n, i.val ≤ m → inRange (nodes i)
      ∧ Laid (childIn decode disk) addr (m + 1) C top (nodes i) (c i).supply
        (c (i + 1)).supply := fun i hi => by
    have hi' := hf (c i)
    rw [hchildren.made i hi] at hi'
    exact hi' (hchildren.within i hi)
  have hinRange : ∀ i, inRange (nodes i) := fun i => by
    rcases Nat.lt_or_ge m i.val with hi | hi
    · rw [hchildren.beyond i hi]
      exact hnone
    · exact (hlaid i hi).1
  rw [hroot, hsupply]
  refine ⟨hc.nodeAt _ _ hlt, Laid.node (s := fun i => (c i).supply) (hc.addr_nodeAt _ _)
    hpos.ne' hleft (hnode top _) fun i hi => ?_⟩
  have hi' : Fin.ofNat n i = ⟨i, by omega⟩ := Fin.ext (Nat.mod_eq_of_lt (by omega))
  rw [childIn, hc.addr_nodeAt, hat, hblock nodes hinRange, hi']
  exact (hlaid ⟨i, by omega⟩ (Nat.lt_succ_iff.mp hi)).2

include hc in
/-- **A leaf** takes the next address. -/
theorem Maker.laidOut_makeLeaf (hleaf : ∀ a, C 0 (mk.leafAt a)) (s : Stock B) :
    LaidOut decode addr inRange bound m C disk 0 (mk.makeLeaf s).1 s (mk.makeLeaf s).2 := by
  intro hwithin
  by_cases hleft : s.left = 0
  · rw [Maker.makeLeaf, if_pos hleft]
    refine ⟨hc.noLeaf, ?_⟩
    rw [Stock.supply, hleft]
    exact .absent hc.addr_noLeaf
  · rw [Maker.makeLeaf, if_neg hleft] at hwithin ⊢
    refine ⟨hc.leafAt _ hwithin.le, ?_⟩
    obtain ⟨k, hk⟩ := Nat.exists_eq_succ_of_ne_zero hleft
    rw [Stock.supply, hk]
    exact .leaf (hc.addr_leafAt _) hwithin.pos.ne' (hleaf _)

include hc hm hnode in
/-- **A tree that is made is laid out.** -/
theorem Maker.laidOut_make (hleaf : ∀ a, C 0 (mk.leafAt a)) (d : ℕ) (s : Stock B) :
    LaidOut decode addr inRange bound m C disk (d + 1) (mk.make m d s).1 s (mk.make m d s).2 := by
  induction d generalizing s with
  | zero =>
    exact Maker.laidOut_makeNode hc hm hnode (fun _ => rfl) hc.lowest hc.noLeaf
      mk.grows_makeLeaf (Maker.laidOut_makeLeaf hc hleaf) s
  | succ d ih =>
    exact Maker.laidOut_makeNode hc hm hnode (fun _ => rfl) hc.upper hc.noNode
      (mk.grows_make m d) ih s

end

end BottomUp
