import Cbe.Support.LevelScan

/-!
# Trees that are built bottom up

A tree of fixed depth and width is built by a restartable scan over its levels:
a node is opened by resetting the level below it, and once that level is done,
the node gets an address of its own and its block is written. One counter of the
leaves that are still to be placed decides whether an entry is used at all.

`Maker.make` builds such a tree in one go, out of a `Stock` of leaves and
addresses. `Maker.finish` is what is left of it to do from any state of the
scan; the steps of the scan leave it as it is (`finish_leaf`, `finish_inner`,
`finish_root` and their variants for a node that is opened), so a scan that has
come to its end has built the tree.

The scan may be interrupted between any two steps, by whatever has to be awaited
there. This is why the statement is about what is left to do and not about what
was done: it is an invariant that every step keeps, at the end it says what was
built, and at the beginning it is the whole tree.

What is left to do up to a level depends on the levels up to there only, and
what is left above it goes on from the block that comes out of them
(`finish_congr`). A step changes one place, and may reset the level below it, so
it is enough to compare what is left up to that place.
-/

namespace BottomUp

open LevelScan

variable {N L B α σ : Type*} {n : ℕ}

/-- The state of a child. -/
inductive ChildState where
  | initBlock
  | initNode
  | writeBlock
  | done
  deriving DecidableEq

/-- A child that is not done. -/
def ChildState.isOpen (st : ChildState) : Bool := decide (st ≠ .done)

theorem ChildState.isOpen_eq_false {st : ChildState} : st.isOpen = false ↔ st = .done := by
  rw [isOpen, decide_eq_false_iff_not, not_not]

/-! ## Visiting the children of a node

One child after the other, with a state that goes through. -/

/-- Every child of a list in turn, with something that is passed on. -/
def each (f : Fin n → α → σ → α × σ) : List (Fin n) → (Fin n → α) → σ → (Fin n → α) × σ
  | [], c, s => (c, s)
  | i :: is, c, s => each f is (Function.update c i (f i (c i) s).1) (f i (c i) s).2

section

variable {f g : Fin n → α → σ → α × σ}

/-- The children of two lists, one list after the other. -/
theorem each_append (is js : List (Fin n)) (c : Fin n → α) (s : σ) :
    each f (is ++ js) c s = each f js (each f is c s).1 (each f is c s).2 := by
  induction is generalizing c s with
  | nil => rfl
  | cons i is ih => exact ih _ _

/-- Children that are left alone. -/
theorem each_eq_self {is : List (Fin n)} (h : ∀ i ∈ is, ∀ x s, f i x s = (x, s))
    (c : Fin n → α) (s : σ) : each f is c s = (c, s) := by
  induction is with
  | nil => rfl
  | cons i is ih =>
    rw [each, h i List.mem_cons_self, Function.update_eq_self]
    exact ih fun j hj => h j (List.mem_cons_of_mem i hj)

/-- Only what is done to these children matters. -/
theorem each_congr {is : List (Fin n)} (h : ∀ i ∈ is, f i = g i) (c : Fin n → α) (s : σ) :
    each f is c s = each g is c s := by
  induction is generalizing c s with
  | nil => rfl
  | cons i is ih =>
    rw [each, each, h i List.mem_cons_self]
    exact ih (fun j hj => h j (List.mem_cons_of_mem i hj)) _ _

/-- The children that are used, around one of them. -/
theorem childIdxs_split {m : ℕ} {i : Fin n} (hi : i.val ≤ m) :
    ∃ before after, childIdxs n m = before ++ i :: after ∧ (∀ j ∈ before, j < i)
      ∧ ∀ j ∈ after, i < j := by
  obtain ⟨before, after, heq⟩ := List.append_of_mem (mem_childIdxs.mpr hi)
  have hsorted := pairwise_childIdxs n m
  rw [heq, List.pairwise_append] at hsorted
  exact ⟨before, after, heq, fun j hj => hsorted.2.2 j hj i List.mem_cons_self,
    (List.pairwise_cons.mp hsorted.2.1).1⟩

/-- **One child makes the difference**: what comes before it is left alone, and what
comes after it is treated alike. -/
theorem each_childIdxs {m : ℕ} {i : Fin n} (hi : i.val ≤ m) {c : Fin n → α} {x : α} {s s' : σ}
    (hbefore : ∀ j < i, (∀ x s, f j x s = (x, s)) ∧ ∀ x s, g j x s = (x, s))
    (hat : f i (c i) s = g i x s') (hafter : ∀ j, i < j → j.val ≤ m → f j = g j) :
    each f (childIdxs n m) c s = each g (childIdxs n m) (Function.update c i x) s' := by
  obtain ⟨before, after, heq, hlt, hgt⟩ := childIdxs_split hi
  have hmem : ∀ j ∈ after, j.val ≤ m := fun j hj => by
    rw [← mem_childIdxs (n := n), heq]
    exact List.mem_append_right _ (List.mem_cons_of_mem i hj)
  rw [heq, each_append, each_append, each_eq_self fun j hj => (hbefore j (hlt j hj)).1,
    each_eq_self fun j hj => (hbefore j (hlt j hj)).2]
  dsimp only [each]
  rw [Function.update_self, Function.update_idem, hat,
    each_congr fun j hj => hafter j (hgt j hj) (hmem j hj)]

/-- Some children in their order, each in relation to what was passed on to it and what it
passed on. -/
inductive Threaded (R : α → σ → σ → Prop) : List α → σ → σ → Prop
  | nil (s : σ) : Threaded R [] s s
  | cons {x : α} {xs : List α} {s s' s'' : σ} (hx : R x s s') (hxs : Threaded R xs s' s'') :
      Threaded R (x :: xs) s s''

/-- Children that are not visited stay. -/
theorem each_of_not_mem {is : List (Fin n)} {j : Fin n} (hj : j ∉ is) (c : Fin n → α) (s : σ) :
    (each f is c s).1 j = c j := by
  induction is generalizing c s with
  | nil => rfl
  | cons i is ih =>
    rw [List.mem_cons, not_or] at hj
    exact (ih hj.2 _ _).trans (Function.update_of_ne hj.1 _ _)

/-- **The children that are visited**, in their order. -/
theorem each_threaded {R : α → σ → σ → Prop} (hf : ∀ i x s, R (f i x s).1 s (f i x s).2)
    {is : List (Fin n)} (hnodup : is.Nodup) (c : Fin n → α) (s : σ) :
    Threaded R (is.map (each f is c s).1) s (each f is c s).2 := by
  induction is generalizing c s with
  | nil => exact .nil s
  | cons i is ih =>
    rw [List.nodup_cons] at hnodup
    have hfirst : (each f (i :: is) c s).1 i = (f i (c i) s).1 :=
      (each_of_not_mem hnodup.1 _ _).trans (Function.update_self _ _ _)
    rw [List.map_cons, hfirst]
    exact .cons (hf i (c i) s) (ih hnodup.2 _ _)

/-- What each child does to what is passed on. -/
theorem each_rel {R : σ → σ → Prop} (hrefl : ∀ s, R s s)
    (htrans : ∀ s s' s'', R s s' → R s' s'' → R s s'') {f : Fin n → α → σ → α × σ}
    (hf : ∀ i x s, R s (f i x s).2) (is : List (Fin n)) (c : Fin n → α) (s : σ) :
    R s (each f is c s).2 := by
  induction is generalizing c s with
  | nil => exact hrefl s
  | cons i is ih => exact htrans _ _ _ (hf i (c i) s) (ih _ _)

end

/-! ## Building a tree

The stock is used up from the front: leaves are placed, addresses are taken,
blocks are written. -/

/-- **How the entries and the blocks of a tree are made.** -/
structure Maker (N L B : Type*) (n : ℕ) where
  /-- The entry of a leaf that is missing. -/
  noLeaf : L
  /-- The entry of a leaf at an address. -/
  leafAt : ℕ → L
  /-- The entry of a node that is missing. -/
  noNode : N
  /-- The entry of a node at an address, for its block. -/
  nodeAt : ℕ → B → N
  /-- The address of an entry. -/
  address : N → ℕ
  /-- A block of leaves. -/
  lowestBlock : (Fin n → L) → B
  /-- A block of nodes. -/
  upperBlock : (Fin n → N) → B

/-- The leaves that are still to be placed, the next address and the blocks that were
written. -/
structure Stock (B : Type*) where
  /-- How many leaves are still to be placed. -/
  left : ℕ
  /-- The next address. -/
  next : ℕ
  /-- The blocks that were written. -/
  disk : ℕ → B

namespace Stock

/-- A block is put to the disk. -/
def write (s : Stock B) (a : ℕ) (b : B) : Stock B :=
  { s with disk := Function.update s.disk a b }

/-- **Addresses are taken in turn, leaves are used up**, and what is on the disk
elsewhere stays. -/
structure Grows (s s' : Stock B) : Prop where
  /-- Leaves are used up. -/
  left : s'.left ≤ s.left
  /-- Addresses are taken. -/
  next : s.next ≤ s'.next
  /-- The other blocks stay. -/
  disk : ∀ a, a < s.next ∨ s'.next ≤ a → s'.disk a = s.disk a

/-- Nothing was taken. -/
theorem Grows.refl (s : Stock B) : s.Grows s := ⟨le_refl _, le_refl _, fun _ _ => rfl⟩

/-- What was taken twice. -/
theorem Grows.trans {s s' s'' : Stock B} (h : s.Grows s') (h' : s'.Grows s'') : s.Grows s'' where
  left := le_trans h'.left h.left
  next := le_trans h.next h'.next
  disk a ha := by
    have hnext := h.next
    have hnext' := h'.next
    rw [h'.disk a (by omega), h.disk a (by omega)]

variable {f : Fin n → α → Stock B → α × Stock B}

/-- Children that grow the stock grow it together. -/
theorem grows_each (hf : ∀ i x (s : Stock B), s.Grows (f i x s).2)
    (is : List (Fin n)) (c : Fin n → α) (s : Stock B) : s.Grows (each f is c s).2 :=
  each_rel Grows.refl (fun _ _ _ => Grows.trans) hf is c s

/-- Each child takes a number of addresses at most. -/
theorem each_next_le {b : ℕ} (hf : ∀ i x (s : Stock B), (f i x s).2.next ≤ s.next + b)
    (is : List (Fin n)) (c : Fin n → α) (s : Stock B) :
    (each f is c s).2.next ≤ s.next + is.length * b := by
  induction is generalizing c s with
  | nil => exact Nat.le_add_right _ _
  | cons i is ih =>
    have hrest := ih (Function.update c i (f i (c i) s).1) (f i (c i) s).2
    have hone := hf i (c i) s
    rw [List.length_cons, Nat.succ_mul]
    exact le_trans hrest (by omega)

end Stock

namespace Maker

variable (mk : Maker N L B n) (m : ℕ)

/-- A leaf takes the next address as long as there are leaves to place. -/
def makeLeaf (s : Stock B) : L × Stock B :=
  if s.left = 0 then (mk.noLeaf, s)
  else (mk.leafAt s.next, { s with left := s.left - 1, next := s.next + 1 })

/-- A node takes the next address, and its block is written there. -/
def putNode (b : B) (s : Stock B) : N × Stock B :=
  (mk.nodeAt s.next b,
    { s with next := s.next + 1, disk := Function.update s.disk s.next b })

/-- A node is built if there are leaves to place: its children first. -/
def makeNode (below : Stock B → B × Stock B) (s : Stock B) : N × Stock B :=
  if s.left = 0 then (mk.noNode, s) else mk.putNode (below s).1 (below s).2

/-- The block of a node, with everything below it. The lowest nodes have level 0. -/
def makeBelow : ℕ → Stock B → B × Stock B
  | 0, s =>
    let r := each (fun _ _ => mk.makeLeaf) (childIdxs n m) (fun _ => mk.noLeaf) s
    (mk.lowestBlock r.1, r.2)
  | d + 1, s =>
    let r := each (fun _ _ => mk.makeNode (makeBelow d)) (childIdxs n m) (fun _ => mk.noNode) s
    (mk.upperBlock r.1, r.2)

/-- **The tree below a node of a level**, with the entry of the node. -/
def make (d : ℕ) : Stock B → N × Stock B := mk.makeNode (mk.makeBelow m d)

/-! ## What is left to do

By recursion on the level: first what is open below, then the nodes of the level
itself. -/

/-- What is left to do for a leaf. -/
def finishLeaf (st : ChildState) (x : L) (s : Stock B) : L × Stock B :=
  if st = .done then (x, s) else mk.makeLeaf s

/-- What is left to do for a node, with the block of its children. -/
def finishNode (below : Stock B → B × Stock B) (b : B) (st : ChildState) (x : N) (s : Stock B) :
    N × Stock B :=
  match st with
  | .initBlock => mk.makeNode below s
  | .initNode => mk.putNode b s
  | .writeBlock => (x, { s with disk := Function.update s.disk (mk.address x) b })
  | .done => (x, s)

variable (lv : Levels N L ChildState n)

/-- What is left to do on the levels up to `d + 1`, with the block of that level. -/
def finishBelow : ℕ → Stock B → B × Stock B
  | 0, s =>
    let r := each (fun i => mk.finishLeaf (lv.lowest.childrenState i)) (childIdxs n m)
      lv.lowest.children s
    (mk.lowestBlock r.1, r.2)
  | d + 1, s =>
    let q := finishBelow d s
    let r := each (fun i => mk.finishNode (mk.makeBelow m d) q.1
      ((lv.upper (d + 2)).childrenState i)) (childIdxs n m) (lv.upper (d + 2)).children q.2
    (mk.upperBlock r.1, r.2)

/-- **What is left to do** of a tree whose topmost level is `d + 1`. -/
def finish (d : ℕ) (s : Stock B) : N × Stock B :=
  let q := mk.finishBelow m lv d s
  mk.finishNode (mk.makeBelow m d) q.1 lv.rootState lv.root q.2

/-- The block of what is on the level `d + 1`. -/
def blockOn (lv : Levels N L ChildState n) : ℕ → B
  | 0 => mk.lowestBlock lv.lowest.children
  | d + 1 => mk.upperBlock (lv.upper (d + 2)).children

/-! ### What it depends on

On the places that are not done, and nothing else. -/

variable {mk m lv} {lv' : Levels N L ChildState n} {d : ℕ} {s s' : Stock B}

/-- Levels that are done are left alone. -/
theorem finishBelow_of_closed (h : lv.Closed ChildState.isOpen m (d + 1)) (s : Stock B) :
    mk.finishBelow m lv d s = (mk.blockOn lv d, s) := by
  induction d with
  | zero =>
    have hself := each_eq_self (f := fun i => mk.finishLeaf (lv.lowest.childrenState i))
      (fun i (hi : i ∈ childIdxs n m) x s => if_pos (ChildState.isOpen_eq_false.mp
        (h.lowest (le_refl 1) i (mem_childIdxs.mp hi)))) lv.lowest.children s
    rw [finishBelow, hself]
    rfl
  | succ d ih =>
    have hself := each_eq_self (f := fun i => mk.finishNode (mk.makeBelow m d) (mk.blockOn lv d)
        ((lv.upper (d + 2)).childrenState i))
      (fun i (hi : i ∈ childIdxs n m) x s => by
        rw [ChildState.isOpen_eq_false.mp
          (h.upper (d + 2) (Nat.le_add_left 2 d) (le_refl _) i (mem_childIdxs.mp hi))]
        rfl) (lv.upper (d + 2)).children s
    rw [finishBelow, ih (h.mono (Nat.le_succ _))]
    dsimp only
    rw [hself]
    rfl

/-- Only the levels up to there matter. -/
theorem finishBelow_congr (hlow : lv'.lowest = lv.lowest)
    (hup : ∀ k, 2 ≤ k → k ≤ d + 1 → lv'.upper k = lv.upper k) :
    mk.finishBelow m lv' d = mk.finishBelow m lv d := by
  induction d with
  | zero =>
    funext s
    rw [finishBelow, finishBelow, hlow]
  | succ d ih =>
    funext s
    rw [finishBelow, finishBelow, ih fun k hk hkd => hup k hk (Nat.le_succ_of_le hkd),
      hup (d + 2) (Nat.le_add_left 2 d) (le_refl _)]

/-- **What is above goes on from the block below.** -/
theorem finish_congr {k : ℕ} (hk : k ≤ d) (habove : lv.SameAbove (k + 1) lv')
    (h : mk.finishBelow m lv k s = mk.finishBelow m lv' k s') :
    mk.finish m lv d s = mk.finish m lv' d s' := by
  have hbelow : mk.finishBelow m lv d s = mk.finishBelow m lv' d s' := by
    induction d, hk using Nat.le_induction with
    | base => exact h
    | succ d hd ih =>
      rw [finishBelow, finishBelow, ih,
        habove.upper (d + 2) (Nat.le_add_left 2 d) (Nat.lt_succ_of_le (Nat.succ_le_succ hd))]
  rw [finish, finish, hbelow, habove.root, habove.rootState]

/-! ### The steps of the scan

A place that is done has done its part. -/

/-- **A leaf** is changed. -/
theorem finish_leaf {i : Fin n} {maxLvl : ℕ}
    (hfirst : lv.FirstAt ChildState.isOpen maxLvl m (.leaf i)) (x : L) (st : ChildState)
    (s' : Stock B)
    (hat : mk.finishLeaf (lv.lowest.childrenState i) (lv.lowest.children i) s
      = mk.finishLeaf st x s') :
    mk.finish m lv d s = mk.finish m ((lv.setLeaf i x).setState (.leaf i) st) d s' := by
  refine finish_congr (Nat.zero_le d) ⟨rfl, rfl, fun _ _ _ => rfl⟩ ?_
  have hdone : ∀ j < i, lv.lowest.childrenState j = .done := fun j hj =>
    ChildState.isOpen_eq_false.mp (hfirst.2.2 j hj)
  have heach := each_childIdxs (f := fun j => mk.finishLeaf (lv.lowest.childrenState j))
    (g := fun j => mk.finishLeaf (Function.update lv.lowest.childrenState i st j))
    hfirst.1 (c := lv.lowest.children) (x := x) (s := s)
    (fun j hj => by
      rw [Function.update_of_ne hj.ne, hdone j hj]
      exact ⟨fun _ _ => if_pos rfl, fun _ _ => if_pos rfl⟩)
    (by rw [hat, Function.update_self])
    fun j hj _ => by rw [Function.update_of_ne hj.ne']
  rw [finishBelow, heach]
  rfl

/-- What is below the level of a place. -/
theorem finishBelow_setInner {lvl : ℕ} (hlvl : d + 1 < lvl) {i : Fin n} {x : N} {st : ChildState} :
    mk.finishBelow m ((lv.setNode (.inner lvl i) x).setState (.inner lvl i) st) d
      = mk.finishBelow m lv d :=
  finishBelow_congr rfl fun k _ hkd => by
    have hne : k ≠ lvl := Nat.ne_of_lt (lt_of_le_of_lt hkd hlvl)
    rw [Levels.setState_inner_upper_of_ne _ hne]
    exact Levels.putUpper_upper_of_ne lv hne _

/-- An inner node is changed, and with it what is below. -/
theorem finish_inner_of_below {i : Fin n} {k : ℕ} (hk : k < d) (hi : i.val ≤ m)
    (hbefore : ∀ j < i, (lv.upper (k + 2)).childrenState j = .done)
    {x : N} {st : ChildState} {b b' : B} {t t' : Stock B}
    (hb : mk.finishBelow m lv k s = (b, t)) (hb' : mk.finishBelow m lv' k s' = (b', t'))
    (hlvl : lv'.upper (k + 2) = {
      children := Function.update (lv.upper (k + 2)).children i x
      childrenState := Function.update (lv.upper (k + 2)).childrenState i st })
    (habove : lv.SameAbove (k + 2) lv')
    (hat : mk.finishNode (mk.makeBelow m k) b ((lv.upper (k + 2)).childrenState i)
        ((lv.upper (k + 2)).children i) t
      = mk.finishNode (mk.makeBelow m k) b' st x t')
    (hafter : b = b' ∨ ∀ j, i < j → j.val ≤ m →
      (lv.upper (k + 2)).childrenState j = .initBlock) :
    mk.finish m lv d s = mk.finish m lv' d s' := by
  refine finish_congr hk habove ?_
  have heach := each_childIdxs
    (f := fun j => mk.finishNode (mk.makeBelow m k) b ((lv.upper (k + 2)).childrenState j))
    (g := fun j => mk.finishNode (mk.makeBelow m k) b'
      (Function.update (lv.upper (k + 2)).childrenState i st j))
    hi (c := (lv.upper (k + 2)).children) (x := x) (s := t)
    (fun j hj => by
      rw [Function.update_of_ne hj.ne, hbefore j hj]
      exact ⟨fun _ _ => rfl, fun _ _ => rfl⟩)
    (by rw [hat, Function.update_self])
    fun j hj hjm => by
      rw [Function.update_of_ne hj.ne']
      rcases hafter with rfl | hfresh
      · rfl
      · rw [hfresh j hj hjm]
        rfl
  rw [finishBelow, finishBelow, hb, hb', hlvl]
  dsimp only
  rw [heach]

/-- The level of an inner node after it was changed. -/
theorem upper_setInner {lvl : ℕ} {i : Fin n} {x : N} {st : ChildState} :
    ((lv.setNode (.inner lvl i) x).setState (.inner lvl i) st).upper lvl = {
      children := Function.update (lv.upper lvl).children i x
      childrenState := Function.update (lv.upper lvl).childrenState i st } := by
  have hput : (lv.setNode (.inner lvl i) x).upper lvl = {
      children := Function.update (lv.upper lvl).children i x
      childrenState := (lv.upper lvl).childrenState } := Function.update_self _ _ _
  rw [Levels.upper_setState, hput]

/-- **An inner node** is changed. -/
theorem finish_inner {i : Fin n} {k maxLvl : ℕ} (hk : k < d)
    (hfirst : lv.FirstAt ChildState.isOpen maxLvl m (.inner (k + 2) i)) {x : N} {st : ChildState}
    (hat : mk.finishNode (mk.makeBelow m k) (mk.blockOn lv k)
        ((lv.upper (k + 2)).childrenState i) ((lv.upper (k + 2)).children i) s
      = mk.finishNode (mk.makeBelow m k) (mk.blockOn lv k) st x s') :
    mk.finish m lv d s
      = mk.finish m ((lv.setNode (.inner (k + 2) i) x).setState (.inner (k + 2) i) st) d s' := by
  obtain ⟨-, -, hclosed, hi, -, hbefore⟩ := hfirst
  refine finish_inner_of_below hk hi (fun j hj => ChildState.isOpen_eq_false.mp (hbefore j hj))
    (finishBelow_of_closed hclosed s) ?_ upper_setInner ?_ hat (Or.inl rfl)
  · rw [finishBelow_setInner (Nat.lt_succ_self (k + 1)), finishBelow_of_closed hclosed]
  · exact (Levels.SameAbove.putUpper lv (k + 2) _).trans (Levels.SameAbove.setState_inner _ _ _ _)

/-- **The root** is changed. -/
theorem finish_root {maxLvl : ℕ} (hd : d + 1 ≤ maxLvl)
    (hfirst : lv.FirstAt ChildState.isOpen maxLvl m .root) {x : N} {st : ChildState}
    (hat : mk.finishNode (mk.makeBelow m d) (mk.blockOn lv d) lv.rootState lv.root s
      = mk.finishNode (mk.makeBelow m d) (mk.blockOn lv d) st x s') :
    mk.finish m lv d s = mk.finish m ((lv.setNode .root x).setState .root st) d s' := by
  have hclosed := hfirst.2.1.mono hd
  have hsame : mk.finishBelow m ((lv.setNode .root x).setState .root st) d
      = mk.finishBelow m lv d := finishBelow_congr rfl fun _ _ _ => rfl
  rw [finish, finish, hsame, finishBelow_of_closed hclosed, finishBelow_of_closed hclosed]
  exact hat

/-! ### A node is opened

The level below is reset, and what is left there is a whole subtree. -/

/-- The level below a node is reset. -/
def reset (mk : Maker N L B n) (lv : Levels N L ChildState n) : ℕ → Levels N L ChildState n
  | 0 => (lv.putLowest fun _ => mk.noLeaf).resetStates 1 .initBlock
  | d + 1 => (lv.putUpper (d + 2) fun _ => mk.noNode).resetStates (d + 2) .initBlock

theorem reset_upper_of_ne {k : ℕ} (h : k ≠ d + 1) : (mk.reset lv d).upper k = lv.upper k := by
  cases d with
  | zero => rfl
  | succ d =>
    exact (Levels.resetStates_upper_of_ne _ h _).trans (Levels.putUpper_upper_of_ne lv h _)

theorem reset_upper (mk : Maker N L B n) (lv : Levels N L ChildState n) (d : ℕ) :
    (mk.reset lv (d + 1)).upper (d + 2)
      = { children := fun _ => mk.noNode, childrenState := fun _ => .initBlock } :=
  Levels.resetStates_putUpper lv (Nat.lt_add_left d (Nat.lt_succ_self 1)) _ _

theorem reset_lowest (mk : Maker N L B n) (lv : Levels N L ChildState n) (d : ℕ) :
    (mk.reset lv (d + 1)).lowest = lv.lowest :=
  Levels.resetStates_lowest_of_lt _ (Nat.lt_add_left d (Nat.lt_succ_self 1)) _

theorem sameAbove_reset (mk : Maker N L B n) (lv : Levels N L ChildState n) (d : ℕ) :
    lv.SameAbove (d + 1) (mk.reset lv d) := by
  cases d with
  | zero => exact ⟨rfl, rfl, fun _ _ _ => rfl⟩
  | succ d =>
    exact (Levels.SameAbove.putUpper lv (d + 2) _).trans (Levels.SameAbove.resetStates _ _ _)

/-- **A level that was reset** is built anew. -/
theorem finishBelow_reset (h : lv.Closed ChildState.isOpen m d) (s : Stock B) :
    mk.finishBelow m (mk.reset lv d) d s = mk.makeBelow m d s := by
  cases d with
  | zero => rfl
  | succ d =>
    have hbelow : mk.finishBelow m (mk.reset lv (d + 1)) d = mk.finishBelow m lv d :=
      finishBelow_congr (reset_lowest mk lv d) fun k _ hkd => reset_upper_of_ne (by omega)
    rw [finishBelow, hbelow, finishBelow_of_closed h, reset_upper]
    rfl

/-- **An inner node is opened.** -/
theorem finish_openInner {i : Fin n} {k maxLvl : ℕ} (hk : k < d)
    (hfirst : lv.FirstAt ChildState.isOpen maxLvl m (.inner (k + 2) i))
    (hst : (lv.upper (k + 2)).childrenState i = .initBlock) (hleft : s.left ≠ 0)
    (hfresh : ∀ j, i < j → j.val ≤ m → (lv.upper (k + 2)).childrenState j = .initBlock) :
    mk.finish m lv d s
      = mk.finish m ((mk.reset lv k).setState (.inner (k + 2) i) .initNode) d s := by
  obtain ⟨-, -, hclosed, hi, -, hbefore⟩ := hfirst
  have hne : ∀ j, 2 ≤ j → j ≤ k + 1 → j ≠ k + 2 := fun j _ hj => Nat.ne_of_lt (Nat.lt_succ_of_le hj)
  have hsame : mk.finishBelow m ((mk.reset lv k).setState (.inner (k + 2) i) .initNode) k s
      = mk.makeBelow m k s := by
    have hcongr : mk.finishBelow m ((mk.reset lv k).setState (.inner (k + 2) i) .initNode) k
        = mk.finishBelow m (mk.reset lv k) k := finishBelow_congr rfl fun j hj hjk =>
      Levels.setState_inner_upper_of_ne _ (hne j hj hjk) i _
    rw [hcongr, finishBelow_reset (hclosed.mono (Nat.le_succ k))]
  have hlvl : ((mk.reset lv k).setState (.inner (k + 2) i) .initNode).upper (k + 2) = {
      children := Function.update (lv.upper (k + 2)).children i ((lv.upper (k + 2)).children i)
      childrenState := Function.update (lv.upper (k + 2)).childrenState i .initNode } := by
    rw [Levels.upper_setState, reset_upper_of_ne (Nat.succ_ne_self (k + 1)),
      Function.update_eq_self]
  refine finish_inner_of_below hk hi (fun j hj => ChildState.isOpen_eq_false.mp (hbefore j hj))
    (finishBelow_of_closed hclosed s) hsame hlvl ?_ ?_ (Or.inr hfresh)
  · exact ((sameAbove_reset mk lv k).mono (Nat.le_succ _)).trans
      (Levels.SameAbove.setState_inner _ _ _ _)
  · rw [hst]
    exact if_neg hleft

/-- **The root is opened.** -/
theorem finish_openRoot {maxLvl : ℕ} (hd : d + 1 ≤ maxLvl)
    (hfirst : lv.FirstAt ChildState.isOpen maxLvl m .root) (hst : lv.rootState = .initBlock)
    (hleft : s.left ≠ 0) :
    mk.finish m lv d s = mk.finish m ((mk.reset lv d).setState .root .initNode) d s := by
  have hclosed := hfirst.2.1.mono hd
  have hsame : mk.finishBelow m ((mk.reset lv d).setState .root .initNode) d s
      = mk.makeBelow m d s := by
    have hcongr : mk.finishBelow m ((mk.reset lv d).setState .root .initNode) d
        = mk.finishBelow m (mk.reset lv d) d := finishBelow_congr rfl fun _ _ _ => rfl
    rw [hcongr, finishBelow_reset (hclosed.mono (Nat.le_succ d))]
  rw [finish, finish, hsame, finishBelow_of_closed hclosed, hst]
  exact if_neg hleft

/-- A scan that begins builds the whole tree. -/
theorem finish_of_closed (h : lv.Closed ChildState.isOpen m (d + 1))
    (hst : lv.rootState = .initBlock) (s : Stock B) : mk.finish m lv d s = mk.make m d s := by
  rw [finish, finishBelow_of_closed h, hst]
  rfl

/-- **A scan that has come to its end** has nothing left to do. -/
theorem finish_of_done (h : lv.Closed ChildState.isOpen m (d + 1)) (hst : lv.rootState = .done)
    (s : Stock B) : mk.finish m lv d s = (lv.root, s) := by
  rw [finish, finishBelow_of_closed h, hst]
  rfl

/-! ### What is open

Children are visited in their order, so those behind the first open one are as
they were when the level was reset. -/

/-- **After the first open child** on a level above the lowest one nothing has begun. -/
def Fresh (m : ℕ) (lv : Levels N L ChildState n) : Prop :=
  ∀ k, 2 ≤ k → ∀ i j : Fin n, i < j → j.val ≤ m →
    ((lv.upper k).childrenState i).isOpen = true → (lv.upper k).childrenState j = .initBlock

/-- Only the states of the inner levels matter. -/
theorem Fresh.congr (h : Fresh m lv)
    (hup : ∀ k, 2 ≤ k → (lv'.upper k).childrenState = (lv.upper k).childrenState) :
    Fresh m lv' := fun k hk i j hij hj hopen => by
  rw [hup k hk] at hopen ⊢
  exact h k hk i j hij hj hopen

/-- The state of the first open child changes. -/
theorem Fresh.setInner {k : ℕ} {i : Fin n} (h : Fresh m lv)
    (hi : ((lv.upper k).childrenState i).isOpen = true)
    (hbefore : ∀ j < i, ((lv.upper k).childrenState j).isOpen = false) (st : ChildState) :
    Fresh m (lv.setState (.inner k i) st) := fun l hl a b hab hb hopen => by
  by_cases hlk : l = k
  · subst hlk
    rw [Levels.upper_setState] at hopen ⊢
    dsimp only at hopen ⊢
    by_cases ha : a = i
    · subst ha
      rw [Function.update_of_ne hab.ne']
      exact h l hl a b hab hb hi
    · rw [Function.update_of_ne ha] at hopen
      have hbi : b ≠ i := fun hbi => by
        rw [hbefore a (hbi ▸ hab)] at hopen
        exact absurd hopen Bool.false_ne_true
      rw [Function.update_of_ne hbi]
      exact h l hl a b hab hb hopen
  · rw [Levels.setState_inner_upper_of_ne _ hlk] at hopen ⊢
    exact h l hl a b hab hb hopen

theorem Fresh.reset (h : Fresh m lv) (k : ℕ) : Fresh m (mk.reset lv k) :=
  fun l hl a b hab hb hopen => by
    by_cases hlk : l = k + 1
    · subst hlk
      obtain ⟨k, rfl⟩ := Nat.exists_eq_succ_of_ne_zero (show k ≠ 0 by omega)
      rw [reset_upper]
    · rw [reset_upper_of_ne hlk] at hopen ⊢
      exact h l hl a b hab hb hopen

/-! ### Any place above the leaves

The steps for the root and for a node of any level, in one. -/

/-- The level below a place, where the lowest one has the number 0. -/
def levelBelow (d : ℕ) : Pos n → ℕ
  | .leaf _ => 0
  | .inner lvl _ => lvl - 2
  | .root => d

/-- The entry at a place above the leaves. -/
def nodeOf (lv : Levels N L ChildState n) : Pos n → N
  | .inner lvl i => (lv.upper lvl).children i
  | _ => lv.root

theorem setNode_self (lv : Levels N L ChildState n) (p : Pos n) :
    lv.setNode p (nodeOf lv p) = lv := by
  cases p with
  | leaf i => rfl
  | root => rfl
  | inner lvl i =>
    show lv.putUpper lvl (Function.update (lv.upper lvl).children i _) = lv
    rw [nodeOf, Function.update_eq_self, Levels.putUpper, Function.update_eq_self]

theorem setLeaf_self (lv : Levels N L ChildState n) (i : Fin n) :
    lv.setLeaf i (lv.lowest.children i) = lv := by
  rw [Levels.setLeaf, Function.update_eq_self]
  rfl

/-- An inner node is on a level above the lowest one. -/
theorem exists_level {lvl maxLvl : ℕ} {i : Fin n}
    (hfirst : lv.FirstAt ChildState.isOpen maxLvl m (.inner lvl i)) :
    ∃ k, lvl = k + 2 ∧ k + 1 < maxLvl :=
  ⟨lvl - 2, by have := hfirst.1; omega, by have := hfirst.1; have := hfirst.2.1; omega⟩

/-- **A node** is changed. -/
theorem finish_node {p : Pos n} (hp : ∀ i, p ≠ .leaf i)
    (hfirst : lv.FirstAt ChildState.isOpen (d + 1) m p) {x : N} {st : ChildState}
    (hat : mk.finishNode (mk.makeBelow m (levelBelow d p)) (mk.blockOn lv (levelBelow d p))
        (lv.stateAt p) (nodeOf lv p) s
      = mk.finishNode (mk.makeBelow m (levelBelow d p)) (mk.blockOn lv (levelBelow d p)) st x s') :
    mk.finish m lv d s = mk.finish m ((lv.setNode p x).setState p st) d s' := by
  cases p with
  | leaf i => exact absurd rfl (hp i)
  | inner lvl i =>
    obtain ⟨k, rfl, hk⟩ := exists_level hfirst
    exact finish_inner (Nat.lt_of_succ_lt_succ hk) hfirst hat
  | root => exact finish_root (le_refl _) hfirst hat

/-- **A node is opened.** -/
theorem finish_open {p : Pos n} (hp : ∀ i, p ≠ .leaf i)
    (hfirst : lv.FirstAt ChildState.isOpen (d + 1) m p) (hst : lv.stateAt p = .initBlock)
    (hleft : s.left ≠ 0) (hfresh : Fresh m lv) :
    mk.finish m lv d s
      = mk.finish m ((mk.reset lv (levelBelow d p)).setState p .initNode) d s := by
  cases p with
  | leaf i => exact absurd rfl (hp i)
  | inner lvl i =>
    obtain ⟨k, rfl, hk⟩ := exists_level hfirst
    refine finish_openInner (Nat.lt_of_succ_lt_succ hk) hfirst hst hleft fun j hij hj => ?_
    exact hfresh (k + 2) (Nat.le_add_left 2 k) i j hij hj hfirst.2.2.2.2.1
  | root => exact finish_openRoot (le_refl _) hfirst hst hleft

/-- **A block that is to be written** is written. -/
theorem finish_write {p : Pos n} (hp : ∀ i, p ≠ .leaf i)
    (hfirst : lv.FirstAt ChildState.isOpen (d + 1) m p) (hst : lv.stateAt p = .writeBlock) :
    mk.finish m lv d (s.write (mk.address (nodeOf lv p)) (mk.blockOn lv (levelBelow d p)))
      = mk.finish m lv d s := by
  have hdone : ∀ t : Stock B, mk.finish m lv d t
      = mk.finish m ((lv.setNode p (nodeOf lv p)).setState p .done) d
        (t.write (mk.address (nodeOf lv p)) (mk.blockOn lv (levelBelow d p))) := fun t =>
    finish_node hp hfirst (by rw [hst]; rfl)
  rw [hdone, hdone s, Stock.write, Stock.write, Function.update_idem]

/-- The state of a place that was found first changes. -/
theorem Fresh.setState {p : Pos n} {maxLvl : ℕ} (h : Fresh m lv)
    (hfirst : lv.FirstAt ChildState.isOpen maxLvl m p) (st : ChildState) :
    Fresh m (lv.setState p st) := by
  cases p with
  | leaf i => exact h.congr fun _ _ => rfl
  | inner lvl i => exact h.setInner hfirst.2.2.2.2.1 hfirst.2.2.2.2.2 st
  | root => exact h.congr fun _ _ => rfl

/-- A node is opened. -/
theorem Fresh.setState_reset {p : Pos n} (h : Fresh m lv) (hp : ∀ i, p ≠ .leaf i)
    (hfirst : lv.FirstAt ChildState.isOpen (d + 1) m p) (st : ChildState) :
    Fresh m ((mk.reset lv (levelBelow d p)).setState p st) := by
  cases p with
  | leaf i => exact absurd rfl (hp i)
  | inner lvl i =>
    obtain ⟨k, rfl, -⟩ := exists_level hfirst
    have hsame : (mk.reset lv k).upper (k + 2) = lv.upper (k + 2) :=
      reset_upper_of_ne (Nat.succ_ne_self (k + 1))
    refine (h.reset k).setInner ?_ ?_ st
    · rw [hsame]
      exact hfirst.2.2.2.2.1
    · rw [hsame]
      exact hfirst.2.2.2.2.2
  | root => exact (h.reset d).congr fun _ _ => rfl

theorem Fresh.setNode (h : Fresh m lv) (p : Pos n) (x : N) : Fresh m (lv.setNode p x) := by
  refine h.congr fun k _ => ?_
  cases p with
  | inner lvl i => exact Levels.putUpper_childrenState lv lvl k _
  | leaf i => rfl
  | root => rfl

/-! ## What is used

How many addresses a tree can take. -/

theorem grows_makeLeaf (mk : Maker N L B n) (s : Stock B) : s.Grows (mk.makeLeaf s).2 := by
  unfold makeLeaf
  split_ifs
  · exact Stock.Grows.refl s
  · exact ⟨Nat.sub_le _ _, Nat.le_succ _, fun _ _ => rfl⟩

theorem grows_putNode (mk : Maker N L B n) (b : B) (s : Stock B) : s.Grows (mk.putNode b s).2 where
  left := le_refl _
  next := Nat.le_succ _
  disk _ ha := Function.update_of_ne (ha.elim Nat.ne_of_lt Nat.ne_of_gt) _ _

theorem grows_makeNode {below : Stock B → B × Stock B}
    (hbelow : ∀ s : Stock B, s.Grows (below s).2)
    (s : Stock B) : s.Grows (mk.makeNode below s).2 := by
  unfold makeNode
  split_ifs
  · exact Stock.Grows.refl s
  · exact (hbelow s).trans (grows_putNode mk _ _)

theorem grows_makeBelow (mk : Maker N L B n) (m d : ℕ) (s : Stock B) :
    s.Grows (mk.makeBelow m d s).2 := by
  induction d generalizing s with
  | zero => exact Stock.grows_each (fun _ _ => grows_makeLeaf mk) _ _ s
  | succ d ih => exact Stock.grows_each (fun _ _ => grows_makeNode ih) _ _ s

/-- **A tree is built** at the next addresses. -/
theorem grows_make (mk : Maker N L B n) (m d : ℕ) (s : Stock B) : s.Grows (mk.make m d s).2 :=
  grows_makeNode (grows_makeBelow mk m d) s

/-- What is left to do takes the next addresses, too. -/
theorem next_le_finish (mk : Maker N L B n) (m d : ℕ) (lv : Levels N L ChildState n)
    (s : Stock B) : s.next ≤ (mk.finish m lv d s).2.next := by
  have hnode : ∀ (d : ℕ) (b : B) (st : ChildState) (x : N) (s : Stock B),
      s.next ≤ (mk.finishNode (mk.makeBelow m d) b st x s).2.next := fun d b st x s => by
    cases st with
    | initBlock => exact (grows_makeNode (grows_makeBelow mk m d) s).next
    | initNode => exact (grows_putNode mk b s).next
    | writeBlock => exact le_refl _
    | done => exact le_refl _
  have hbelow : s.next ≤ (mk.finishBelow m lv d s).2.next := by
    induction d with
    | zero =>
      refine each_rel (R := fun s s' => s.next ≤ s'.next) (fun _ => le_refl _)
        (fun _ _ _ => le_trans) (fun i x s => ?_) _ _ s
      unfold finishLeaf
      split_ifs
      · exact le_refl _
      · exact (grows_makeLeaf mk s).next
    | succ d ih =>
      exact le_trans ih (each_rel (R := fun s s' => s.next ≤ s'.next) (fun _ => le_refl _)
        (fun _ _ _ => le_trans) (fun i x s => hnode d _ _ _ s) _ _ _)
  exact le_trans hbelow (hnode d _ _ _ _)

/-- The number of addresses below a node of a level. -/
def capacityBelow (n : ℕ) : ℕ → ℕ
  | 0 => n
  | d + 1 => n * (capacityBelow n d + 1)

/-- A higher tree can take more. -/
theorem capacityBelow_mono (hn : 1 ≤ n) : Monotone (capacityBelow n) :=
  monotone_nat_of_le_succ fun d =>
    le_trans (Nat.le_succ _) (Nat.le_mul_of_pos_left (capacityBelow n d + 1) hn)

theorem makeNode_next_le {below : Stock B → B × Stock B} {c : ℕ}
    (hbelow : ∀ s, (below s).2.next ≤ s.next + c) (s : Stock B) :
    (mk.makeNode below s).2.next ≤ s.next + (c + 1) := by
  unfold makeNode
  split_ifs
  · exact Nat.le_add_right _ _
  · exact Nat.succ_le_succ (hbelow s)

theorem length_childIdxs_le (n m : ℕ) : (childIdxs n m).length ≤ n :=
  le_trans (List.length_filter_le _ _) (le_of_eq List.length_finRange)

/-- **The addresses that are taken** are no more than the places of the tree. -/
theorem makeBelow_next_le (mk : Maker N L B n) (m d : ℕ) (s : Stock B) :
    (mk.makeBelow m d s).2.next ≤ s.next + capacityBelow n d := by
  induction d generalizing s with
  | zero =>
    refine le_trans (Stock.each_next_le (fun _ _ s => ?_) _ _ s)
      (Nat.add_le_add_left (le_trans (Nat.mul_one _).le (length_childIdxs_le n m)) _)
    unfold makeLeaf
    split_ifs
    · exact Nat.le_succ _
    · exact le_refl _
  | succ d ih =>
    exact le_trans (Stock.each_next_le (fun _ _ => makeNode_next_le ih) _ _ s)
      (Nat.add_le_add_left (Nat.mul_le_mul_right _ (length_childIdxs_le n m)) _)

/-- **A tree takes no more addresses than it has places.** -/
theorem make_next_le (mk : Maker N L B n) (m d : ℕ) (s : Stock B) :
    (mk.make m d s).2.next ≤ s.next + (capacityBelow n d + 1) :=
  makeNode_next_le (makeBelow_next_le mk m d) s

end Maker

end BottomUp
