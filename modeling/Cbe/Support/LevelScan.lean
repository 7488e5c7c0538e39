import Mathlib.Data.Fin.Tuple.Basic
import Mathlib.Data.Fin.Basic
import Mathlib.Data.List.FinRange

/-!
# Restartable scans over the levels of a tree

A tree of fixed depth and width is visited bottom up by a procedure that does a
little work at a time. It keeps one array of children for each level, with a
state for each child, and every call goes to the first child that is not done:
the lowest level first, then the others upwards, then the root. A child that is
opened resets the level below it, so the calls that follow work there until that
level is done.

`firstOpen` is the search for the child to go to; `FirstAt` says where it finds
one. `Closed` and `SameAbove` are what a visit of a child keeps of the levels
below and above it.

Three types of places are told apart: a leaf, an inner node at a level from two
on, and the root. The leaves have a type of their own, and so have the nodes,
since the procedure keeps them in different arrays. A state of a child is any
type; the search needs no more than which states are open.
-/

namespace LevelScan

variable {N L S α : Type*} {n : ℕ}

/-- The children on a level. -/
structure Level (α S : Type*) (n : ℕ) where
  /-- The entries. -/
  children : Fin n → α
  /-- How far each of them has come. -/
  childrenState : Fin n → S

/-- **The levels of a tree.** The lowest level has the number 1, the ones in
`upper` have the numbers from 2. -/
structure Levels (N L S : Type*) (n : ℕ) where
  /-- The root entry. -/
  root : N
  /-- How far it has come. -/
  rootState : S
  /-- The levels from the second one. -/
  upper : ℕ → Level N S n
  /-- The first level. -/
  lowest : Level L S n

/-- A place in the tree. -/
inductive Pos (n : ℕ) where
  | leaf (i : Fin n)
  | inner (lvl : ℕ) (i : Fin n)
  | root
  deriving DecidableEq

/-- The children that are used, in their order. -/
def childIdxs (n m : ℕ) : List (Fin n) := (List.finRange n).filter fun i => i.val ≤ m

/-- The children up to an index. -/
theorem mem_childIdxs {m : ℕ} {i : Fin n} : i ∈ childIdxs n m ↔ i.val ≤ m := by
  simp [childIdxs]

/-- They come in order. -/
theorem pairwise_childIdxs (n m : ℕ) : (childIdxs n m).Pairwise (· < ·) :=
  (List.pairwise_lt_finRange n).filter _

/-! ## The search

In a level the first open child is taken, and levels are gone through upwards.
-/

/-- The first child on a level that is open. -/
def openChild (isOpen : S → Bool) (m : ℕ) (level : Level α S n) : Option (Fin n) :=
  Fin.find? fun i => decide (i.val ≤ m) && isOpen (level.childrenState i)

/-- An open child with none before it is found. -/
theorem openChild_eq_some {isOpen : S → Bool} {m : ℕ} {level : Level α S n} {i : Fin n}
    (hi : i.val ≤ m) (hopen : isOpen (level.childrenState i) = true)
    (hbefore : ∀ j < i, isOpen (level.childrenState j) = false) :
    openChild isOpen m level = some i := by
  refine Fin.find?_eq_some_iff.mpr ⟨?_, fun j hj => ?_⟩
  · rw [hopen, decide_eq_true hi]
    rfl
  · rw [hbefore j hj, Bool.and_false]

/-- A level without an open child is passed. -/
theorem openChild_eq_none {isOpen : S → Bool} {m : ℕ} {level : Level α S n}
    (h : ∀ i : Fin n, i.val ≤ m → isOpen (level.childrenState i) = false) :
    openChild isOpen m level = none := by
  refine Fin.find?_eq_none_iff.mpr fun i => ?_
  by_cases hi : i.val ≤ m
  · rw [h i hi, Bool.and_false]
  · rw [decide_eq_false hi, Bool.false_and]

namespace Levels

/-- The first open child on the levels above the lowest one. -/
def openUpper (isOpen : S → Bool) (maxLvl m : ℕ) (s : Levels N L S n) : Option (Pos n) :=
  (List.range' 2 (maxLvl - 1)).findSome? fun lvl =>
    (openChild isOpen m (s.upper lvl)).map (Pos.inner lvl)

/-- **The place the next call goes to.** -/
def firstOpen (isOpen : S → Bool) (maxLvl m : ℕ) (s : Levels N L S n) : Option (Pos n) :=
  match openChild isOpen m s.lowest with
  | some i => some (.leaf i)
  | none =>
    match s.openUpper isOpen maxLvl m with
    | some p => some p
    | none => if isOpen s.rootState = true then some .root else none

/-- The state at a place. -/
def stateAt (s : Levels N L S n) : Pos n → S
  | .leaf i => s.lowest.childrenState i
  | .inner lvl i => (s.upper lvl).childrenState i
  | .root => s.rootState

/-- Set the state at a place. -/
def setState (s : Levels N L S n) (p : Pos n) (st : S) : Levels N L S n :=
  match p with
  | .leaf i =>
    { s with
      lowest := { s.lowest with childrenState := Function.update s.lowest.childrenState i st } }
  | .inner lvl i =>
    { s with
      upper := Function.update s.upper lvl
        { s.upper lvl with
          childrenState := Function.update (s.upper lvl).childrenState i st } }
  | .root => { s with rootState := st }

/-- Set the states of all children on a level. -/
def resetStates (s : Levels N L S n) (lvl : ℕ) (st : S) : Levels N L S n :=
  if lvl ≤ 1 then { s with lowest := { s.lowest with childrenState := fun _ => st } }
  else
    { s with
      upper := Function.update s.upper lvl { s.upper lvl with childrenState := fun _ => st } }

/-- Set the children on the lowest level. -/
def putLowest (s : Levels N L S n) (children : Fin n → L) : Levels N L S n :=
  { s with lowest := { s.lowest with children := children } }

/-- Set the children on another level. -/
def putUpper (s : Levels N L S n) (lvl : ℕ) (children : Fin n → N) : Levels N L S n :=
  { s with upper := Function.update s.upper lvl { s.upper lvl with children := children } }

/-- Set one child on the lowest level. -/
def setLeaf (s : Levels N L S n) (i : Fin n) (x : L) : Levels N L S n :=
  s.putLowest (Function.update s.lowest.children i x)

/-- Set the entry at a place above the lowest level. -/
def setNode (s : Levels N L S n) (p : Pos n) (x : N) : Levels N L S n :=
  match p with
  | .leaf _ => s
  | .inner lvl i => s.putUpper lvl (Function.update (s.upper lvl).children i x)
  | .root => { s with root := x }

/-- No child up to a level is open. -/
structure Closed (isOpen : S → Bool) (m lvl : ℕ) (s : Levels N L S n) : Prop where
  /-- No leaf is open. -/
  lowest : 1 ≤ lvl → ∀ i : Fin n, i.val ≤ m → isOpen (s.lowest.childrenState i) = false
  /-- No node up to the level is. -/
  upper : ∀ k, 2 ≤ k → k ≤ lvl → ∀ i : Fin n, i.val ≤ m →
    isOpen ((s.upper k).childrenState i) = false

/-- Everything above a level is the same. -/
structure SameAbove (lvl : ℕ) (s s' : Levels N L S n) : Prop where
  /-- The root is the same. -/
  root : s'.root = s.root
  /-- So is its state. -/
  rootState : s'.rootState = s.rootState
  /-- So are the levels above. -/
  upper : ∀ k, 2 ≤ k → lvl < k → s'.upper k = s.upper k

/-- **A place is the first one that is open**, and what comes before it is
not. -/
def FirstAt (isOpen : S → Bool) (maxLvl m : ℕ) (s : Levels N L S n) : Pos n → Prop
  | .leaf i => i.val ≤ m ∧ isOpen (s.lowest.childrenState i) = true
      ∧ ∀ j < i, isOpen (s.lowest.childrenState j) = false
  | .inner lvl i => 2 ≤ lvl ∧ lvl ≤ maxLvl ∧ s.Closed isOpen m (lvl - 1) ∧ i.val ≤ m
      ∧ isOpen ((s.upper lvl).childrenState i) = true
      ∧ ∀ j < i, isOpen ((s.upper lvl).childrenState j) = false
  | .root => 1 ≤ maxLvl ∧ s.Closed isOpen m maxLvl ∧ isOpen s.rootState = true

variable {isOpen : S → Bool} {maxLvl m : ℕ} {s s' : Levels N L S n}

/-- Fewer levels are closed, too. -/
theorem Closed.mono {lvl k : ℕ} (h : s.Closed isOpen m lvl) (hk : k ≤ lvl) :
    s.Closed isOpen m k where
  lowest h1 := h.lowest (le_trans h1 hk)
  upper j hj hjk := h.upper j hj (le_trans hjk hk)

/-- One more level is done. -/
theorem Closed.succ {lvl : ℕ} (hlvl : 1 ≤ lvl) (h : s.Closed isOpen m lvl)
    (hnext : ∀ i : Fin n, i.val ≤ m → isOpen ((s.upper (lvl + 1)).childrenState i) = false) :
    s.Closed isOpen m (lvl + 1) where
  lowest _ := h.lowest hlvl
  upper k hk hkl i hi := by
    rcases Nat.lt_or_ge lvl k with hlt | hge
    · obtain rfl : k = lvl + 1 := Nat.le_antisymm hkl hlt
      exact hnext i hi
    · exact h.upper k hk hge i hi

/-- Nothing has changed. -/
theorem SameAbove.refl (lvl : ℕ) (s : Levels N L S n) : SameAbove lvl s s :=
  ⟨rfl, rfl, fun _ _ _ => rfl⟩

/-- Two changes below a level. -/
theorem SameAbove.trans {lvl : ℕ} {s'' : Levels N L S n} (h : SameAbove lvl s s')
    (h' : SameAbove lvl s' s'') : SameAbove lvl s s'' where
  root := h'.root.trans h.root
  rootState := h'.rootState.trans h.rootState
  upper k hk hlvl := (h'.upper k hk hlvl).trans (h.upper k hk hlvl)

/-- Above a higher level less can change. -/
theorem SameAbove.mono {lvl k : ℕ} (h : SameAbove lvl s s') (hk : lvl ≤ k) :
    SameAbove k s s' where
  root := h.root
  rootState := h.rootState
  upper j hj hkj := h.upper j hj (lt_of_le_of_lt hk hkj)

/-! ## What the updates leave alone

An update concerns one level, and there the children or their states. -/

@[simp] theorem setState_root (s : Levels N L S n) (p : Pos n) (st : S) :
    (s.setState p st).root = s.root := by cases p <;> rfl

@[simp] theorem resetStates_root (s : Levels N L S n) (lvl : ℕ) (st : S) :
    (s.resetStates lvl st).root = s.root := by unfold resetStates; split_ifs <;> rfl

@[simp] theorem resetStates_rootState (s : Levels N L S n) (lvl : ℕ) (st : S) :
    (s.resetStates lvl st).rootState = s.rootState := by
  unfold resetStates; split_ifs <;> rfl

theorem resetStates_lowest_of_lt (s : Levels N L S n) {lvl : ℕ} (h : 1 < lvl) (st : S) :
    (s.resetStates lvl st).lowest = s.lowest := by
  rw [resetStates, if_neg (Nat.not_le.mpr h)]

theorem resetStates_upper_of_ne (s : Levels N L S n) {lvl k : ℕ} (h : k ≠ lvl) (st : S) :
    (s.resetStates lvl st).upper k = s.upper k := by
  unfold resetStates
  split_ifs
  · rfl
  · exact Function.update_of_ne h _ _

theorem putUpper_upper_of_ne (s : Levels N L S n) {lvl k : ℕ} (h : k ≠ lvl)
    (children : Fin n → N) : (s.putUpper lvl children).upper k = s.upper k :=
  Function.update_of_ne h _ _

@[simp] theorem putUpper_childrenState (s : Levels N L S n) (lvl k : ℕ)
    (children : Fin n → N) :
    ((s.putUpper lvl children).upper k).childrenState = (s.upper k).childrenState := by
  by_cases h : k = lvl
  · subst h
    show (Function.update s.upper k _ k).childrenState = _
    rw [Function.update_self]
  · rw [putUpper_upper_of_ne s h]

/-- An inner child on a level above keeps the others. -/
theorem setState_inner_upper_of_ne (s : Levels N L S n) {lvl k : ℕ} (h : k ≠ lvl) (i : Fin n)
    (st : S) : (s.setState (.inner lvl i) st).upper k = s.upper k :=
  Function.update_of_ne h _ _

/-- A level with its children put and its states reset. -/
theorem resetStates_putUpper (s : Levels N L S n) {lvl : ℕ} (h : 1 < lvl)
    (children : Fin n → N) (st : S) :
    ((s.putUpper lvl children).resetStates lvl st).upper lvl
      = { children := children, childrenState := fun _ => st } := by
  rw [resetStates, if_neg (Nat.not_le.mpr h)]
  show Function.update _ lvl _ lvl = _
  rw [Function.update_self]
  show Level.mk ((Function.update s.upper lvl _) lvl).children _ = _
  rw [Function.update_self]

/-- The state at a place after it was set. -/
@[simp] theorem stateAt_setState (s : Levels N L S n) (p : Pos n) (st : S) :
    (s.setState p st).stateAt p = st := by
  cases p with
  | leaf i =>
    show Function.update s.lowest.childrenState i st i = st
    rw [Function.update_self]
  | inner lvl i =>
    show ((Function.update s.upper lvl _) lvl).childrenState i = st
    rw [Function.update_self]
    show Function.update (s.upper lvl).childrenState i st i = st
    rw [Function.update_self]
  | root => rfl

/-- Of two states set at a leaf the last one stays. -/
theorem setState_leaf_leaf (s : Levels N L S n) (i : Fin n) (st st' : S) :
    (s.setState (.leaf i) st).setState (.leaf i) st' = s.setState (.leaf i) st' := by
  show Levels.mk _ _ _ (Level.mk _ (Function.update (Function.update _ i st) i st')) = _
  rw [Function.update_idem]
  rfl

/-- Being done depends on the states only. -/
theorem Closed.congr {lvl : ℕ} (h : s.Closed isOpen m lvl)
    (hlow : 1 ≤ lvl → s'.lowest.childrenState = s.lowest.childrenState)
    (hup : ∀ k, 2 ≤ k → k ≤ lvl → (s'.upper k).childrenState = (s.upper k).childrenState) :
    s'.Closed isOpen m lvl where
  lowest h1 i hi := by rw [hlow h1]; exact h.lowest h1 i hi
  upper k hk hkl i hi := by rw [hup k hk hkl]; exact h.upper k hk hkl i hi

/-- A child above keeps the levels below done. -/
theorem Closed.setState_inner {lvl k : ℕ} (h : s.Closed isOpen m k) (hk : k < lvl) (i : Fin n)
    (st : S) : (s.setState (.inner lvl i) st).Closed isOpen m k :=
  h.congr (fun _ => rfl) fun j _ hj => by
    rw [setState_inner_upper_of_ne s (lt_of_le_of_lt hj hk).ne]

/-- So does being the first open place. -/
theorem FirstAt.congr {p : Pos n} (h : s.FirstAt isOpen maxLvl m p)
    (hlow : s'.lowest.childrenState = s.lowest.childrenState)
    (hup : ∀ k, (s'.upper k).childrenState = (s.upper k).childrenState)
    (hroot : s'.rootState = s.rootState) : s'.FirstAt isOpen maxLvl m p := by
  cases p with
  | leaf i => rw [FirstAt, hlow]; exact h
  | inner lvl i =>
    obtain ⟨h2, hmax, hclosed, hrest⟩ := h
    refine ⟨h2, hmax, hclosed.congr (fun _ => hlow) fun k _ _ => hup k, ?_⟩
    rw [hup]
    exact hrest
  | root =>
    obtain ⟨h1, hclosed, hopen⟩ := h
    refine ⟨h1, hclosed.congr (fun _ => hlow) fun k _ _ => hup k, ?_⟩
    rw [hroot]
    exact hopen

/-- An entry is not looked at. -/
theorem FirstAt.setNode {p : Pos n} (h : s.FirstAt isOpen maxLvl m p) (q : Pos n) (x : N) :
    (s.setNode q x).FirstAt isOpen maxLvl m p := by
  refine h.congr ?_ (fun k => ?_) ?_
  · cases q <;> rfl
  · cases q with
    | leaf i => rfl
    | inner lvl i => exact putUpper_childrenState s lvl k _
    | root => rfl
  · cases q <;> rfl

/-- The same state is set at a place in both. -/
theorem SameAbove.setState {lvl : ℕ} (h : SameAbove lvl s s') (p : Pos n) (st : S) :
    SameAbove lvl (s.setState p st) (s'.setState p st) where
  root := by rw [setState_root, setState_root]; exact h.root
  rootState := by
    cases p with
    | leaf i => exact h.rootState
    | inner k i => exact h.rootState
    | root => rfl
  upper k hk hlvl := by
    cases p with
    | leaf i => exact h.upper k hk hlvl
    | inner j i =>
      by_cases hkj : k = j
      · subst hkj
        show Function.update s'.upper k _ k = Function.update s.upper k _ k
        rw [Function.update_self, Function.update_self, h.upper k hk hlvl]
      · rw [setState_inner_upper_of_ne s hkj, setState_inner_upper_of_ne s' hkj]
        exact h.upper k hk hlvl
    | root => exact h.upper k hk hlvl

/-- A child keeps what is above its own level. -/
theorem SameAbove.setState_inner (s : Levels N L S n) (lvl : ℕ) (i : Fin n) (st : S) :
    SameAbove lvl s (s.setState (.inner lvl i) st) :=
  ⟨rfl, rfl, fun _ _ hlvl => setState_inner_upper_of_ne s hlvl.ne' i st⟩

theorem SameAbove.setState_leaf (s : Levels N L S n) (lvl : ℕ) (i : Fin n) (st : S) :
    SameAbove lvl s (s.setState (.leaf i) st) :=
  ⟨rfl, rfl, fun _ _ _ => rfl⟩

/-- The level of a child after its state was set. -/
theorem upper_setState (s : Levels N L S n) (lvl : ℕ) (i : Fin n) (st : S) :
    (s.setState (.inner lvl i) st).upper lvl
      = { s.upper lvl with childrenState := Function.update (s.upper lvl).childrenState i st } :=
  Function.update_self _ _ _

theorem SameAbove.resetStates (s : Levels N L S n) (lvl : ℕ) (st : S) :
    SameAbove lvl s (s.resetStates lvl st) where
  root := resetStates_root s lvl st
  rootState := resetStates_rootState s lvl st
  upper _ _ hlvl := resetStates_upper_of_ne s hlvl.ne' st

theorem SameAbove.putLowest (s : Levels N L S n) (lvl : ℕ) (children : Fin n → L) :
    SameAbove lvl s (s.putLowest children) :=
  ⟨rfl, rfl, fun _ _ _ => rfl⟩

theorem SameAbove.putUpper (s : Levels N L S n) (lvl : ℕ) (children : Fin n → N) :
    SameAbove lvl s (s.putUpper lvl children) :=
  ⟨rfl, rfl, fun _ _ hlvl => putUpper_upper_of_ne s hlvl.ne' children⟩

/-- The root is found when no child is open. -/
theorem firstOpen_eq_root
    (hlow : ∀ i : Fin n, i.val ≤ m → isOpen (s.lowest.childrenState i) = false)
    (hup : ∀ k, 2 ≤ k → k ≤ maxLvl → ∀ i : Fin n, i.val ≤ m →
      isOpen ((s.upper k).childrenState i) = false) (hroot : isOpen s.rootState = true) :
    s.firstOpen isOpen maxLvl m = some .root := by
  have hupper : s.openUpper isOpen maxLvl m = none := by
    refine List.findSome?_eq_none_iff.mpr fun k hk => ?_
    rw [List.mem_range'_1] at hk
    rw [openChild_eq_none (hup k hk.1 (by omega)), Option.map_none]
  rw [firstOpen, openChild_eq_none hlow, hupper]
  exact if_pos hroot

/-- **The search finds the first place that is open.** -/
theorem firstOpen_eq_some {p : Pos n} (h : s.FirstAt isOpen maxLvl m p) :
    s.firstOpen isOpen maxLvl m = some p := by
  cases p with
  | leaf i =>
    rw [firstOpen, openChild_eq_some h.1 h.2.1 h.2.2]
  | inner lvl i =>
    obtain ⟨h2, hmax, hclosed, hi, hopen, hbefore⟩ := h
    have hupper : s.openUpper isOpen maxLvl m = some (.inner lvl i) := by
      obtain ⟨d, rfl⟩ : ∃ d, lvl = 2 + d := ⟨lvl - 2, by omega⟩
      have hsplit : List.range' 2 (maxLvl - 1)
          = List.range' 2 d ++ (2 + d) :: List.range' (2 + d + 1) (maxLvl - 1 - d - 1) := by
        have hlen : maxLvl - 1 = d + (maxLvl - 1 - d - 1 + 1) := by omega
        conv_lhs => rw [hlen, ← List.range'_append_1, List.range'_succ]
      rw [openUpper, hsplit, List.findSome?_append, List.findSome?_cons,
        openChild_eq_some hi hopen hbefore]
      refine Option.or_eq_right_of_none ?_
      refine List.findSome?_eq_none_iff.mpr fun k hk => ?_
      rw [List.mem_range'_1] at hk
      rw [openChild_eq_none (hclosed.upper k hk.1 (by omega)), Option.map_none]
    rw [firstOpen, openChild_eq_none (hclosed.lowest (by omega)), hupper]
  | root =>
    obtain ⟨h1, hclosed, hopen⟩ := h
    exact firstOpen_eq_root (hclosed.lowest h1) hclosed.upper hopen

/-- What is found is open, and no child before it is. -/
theorem openChild_spec {level : Level α S n} {i : Fin n}
    (h : openChild isOpen m level = some i) :
    i.val ≤ m ∧ isOpen (level.childrenState i) = true
      ∧ ∀ j < i, isOpen (level.childrenState j) = false := by
  obtain ⟨hi, hbefore⟩ := Fin.find?_eq_some_iff.mp h
  rw [Bool.and_eq_true, decide_eq_true_iff] at hi
  refine ⟨hi.1, hi.2, fun j hj => ?_⟩
  have hle : j.val ≤ m := le_trans (le_of_lt hj) hi.1
  have hnot := hbefore j hj
  rw [decide_eq_true hle, Bool.true_and] at hnot
  exact hnot

/-- In a level that is passed no child is open. -/
theorem openChild_none {level : Level α S n} (h : openChild isOpen m level = none) (i : Fin n)
    (hi : i.val ≤ m) : isOpen (level.childrenState i) = false := by
  have hnot := Fin.find?_eq_none_iff.mp h i
  rw [decide_eq_true hi, Bool.true_and] at hnot
  exact hnot

/-- **What the search finds is the first open place.** -/
theorem firstAt_of_firstOpen (hmax : 1 ≤ maxLvl) {p : Pos n}
    (h : s.firstOpen isOpen maxLvl m = some p) : s.FirstAt isOpen maxLvl m p := by
  unfold firstOpen at h
  cases hlow : openChild isOpen m s.lowest with
  | some i =>
    rw [hlow] at h
    obtain rfl := Option.some.inj h
    exact openChild_spec hlow
  | none =>
    have hlowest : ∀ i : Fin n, i.val ≤ m → isOpen (s.lowest.childrenState i) = false :=
      openChild_none hlow
    rw [hlow] at h
    cases hup : s.openUpper isOpen maxLvl m with
    | some q =>
      rw [hup] at h
      obtain rfl := Option.some.inj h
      obtain ⟨before, lvl, after, heq, hlvl, hbefore⟩ := List.findSome?_eq_some_iff.mp hup
      obtain ⟨i, hi, rfl⟩ := Option.map_eq_some_iff.mp hlvl
      have hmem : lvl ∈ List.range' 2 (maxLvl - 1) := by
        rw [heq]
        exact List.mem_append_right _ List.mem_cons_self
      have hle : 2 ≤ lvl ∧ lvl < 2 + (maxLvl - 1) := List.mem_range'_1.mp hmem
      refine ⟨hle.1, by omega, ⟨fun _ => hlowest, fun k hk hkl => ?_⟩, openChild_spec hi⟩
      have hsorted : (List.range' 2 (maxLvl - 1)).Pairwise (· < ·) := List.pairwise_lt_range'
      rw [heq, List.pairwise_append] at hsorted
      have hkmem : k ∈ before := by
        have hkmem : k ∈ List.range' 2 (maxLvl - 1) := List.mem_range'_1.mpr (by omega)
        rw [heq] at hkmem
        rcases List.mem_append.mp hkmem with hb | ha
        · exact hb
        · rcases List.mem_cons.mp ha with rfl | ha
          · omega
          · have hlt := (List.pairwise_cons.mp hsorted.2.1).1 k ha
            omega
      exact openChild_none (Option.map_eq_none_iff.mp (hbefore k hkmem))
    | none =>
      rw [hup] at h
      obtain ⟨hroot, h⟩ := Option.ite_none_right_eq_some.mp h
      obtain rfl := Option.some.inj h
      refine ⟨hmax, ⟨fun _ => hlowest, fun k hk hkl => ?_⟩, hroot⟩
      have hkmem : k ∈ List.range' 2 (maxLvl - 1) := List.mem_range'_1.mpr (by omega)
      exact openChild_none
        (Option.map_eq_none_iff.mp (List.findSome?_eq_none_iff.mp hup k hkmem))

/-- **Nothing is found when everything is done.** -/
theorem firstOpen_eq_none (hmax : 1 ≤ maxLvl) :
    s.firstOpen isOpen maxLvl m = none ↔ s.Closed isOpen m maxLvl ∧ isOpen s.rootState = false := by
  constructor
  · intro h
    unfold firstOpen at h
    cases hlow : openChild isOpen m s.lowest with
    | some i =>
      rw [hlow] at h
      exact absurd h (by simp)
    | none =>
      rw [hlow] at h
      cases hup : s.openUpper isOpen maxLvl m with
      | some q =>
        rw [hup] at h
        exact absurd h (by simp)
      | none =>
        rw [hup] at h
        refine ⟨⟨fun _ => openChild_none hlow, fun k hk hkl => ?_⟩, ?_⟩
        · have hkmem : k ∈ List.range' 2 (maxLvl - 1) := List.mem_range'_1.mpr (by omega)
          exact openChild_none
            (Option.map_eq_none_iff.mp (List.findSome?_eq_none_iff.mp hup k hkmem))
        · by_contra hroot
          rw [Bool.not_eq_false] at hroot
          simp [hroot] at h
  · rintro ⟨hclosed, hroot⟩
    have hupper : s.openUpper isOpen maxLvl m = none := by
      refine List.findSome?_eq_none_iff.mpr fun k hk => ?_
      rw [List.mem_range'_1] at hk
      rw [openChild_eq_none (hclosed.upper k hk.1 (by omega)), Option.map_none]
    rw [firstOpen, openChild_eq_none (hclosed.lowest hmax), hupper]
    exact if_neg (by rw [hroot]; exact Bool.false_ne_true)

end Levels

end LevelScan
