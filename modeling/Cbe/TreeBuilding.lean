import Cbe.TreeInitializers

/-!
# Initializers that build their trees

What an initializer of a tree has left to do, from any of its states, gives the
same tree as building the whole tree in one go: the tree of `Maker.make`, out of
the next addresses of the block allocator. Every call of `Execute` and every
answer of the other modules leaves this as it is (`Building`), so once the root
is done, the tree is built.

Between its calls an initializer waits for an address or for a write. `Asked`
says of the generated primitive what it was generated for: it always belongs to
the place that the next call goes to.

The tree is built from below. A call looks for the first child that is not done,
from the lowest level up, begins it, or gives it its address, or writes its
block and puts the address and the hash into its entry. As a node is only
written when all of its children are done, the hash in an entry is that of the
final block.

The argument is by a function that says what is left, rather than by a list of
what was done: `Maker.finish` takes the levels as they are and completes them. A
step of the initializer is a step of that function, which is why `Building`
needs one equation and no history. It is stated for both initializers at once,
over the kind of the tree.
-/

namespace Cbe

open LevelScan BottomUp ByteWalk

variable {α Leaf : Type}

/-- The data of a block of nodes. -/
def NodeKind.dataOf (kind : NodeKind α) (nodes : Fin nodesPerBlock → α) : BlockData :=
  ((kind.blockData nodes).map Buffer.data).getD fun _ => 0

/-- A block of nodes that could be encoded has that data. -/
theorem NodeKind.dataOf_eq {kind : NodeKind α} {nodes : Fin nodesPerBlock → α} {data : BlockData}
    (h : (kind.blockData nodes).map Buffer.data = some data) : kind.dataOf nodes = data := by
  rw [dataOf, h]
  rfl

/-- **What the entries and the blocks of a tree are made of.** -/
def TreeInitKind.maker (k : TreeInitKind Leaf) (sha : BlockData → Hash) :
    Maker Type1Node Leaf BlockData nodesPerBlock where
  noLeaf := k.kind.invalid
  leafAt := k.leafAt
  noNode := type1NodeInvalid
  nodeAt pba data := ⟨pba, 0, sha data⟩
  address node := node.pba
  lowestBlock := k.kind.dataOf
  upperBlock := NodeKind.type1.dataOf

namespace TreeInit

variable (k : TreeInitKind Leaf) (sha : BlockData → Hash) (obj : TreeInit Leaf)

/-- An address was delivered and not yet consumed. -/
def Held : Prop :=
  obj.genPrim.valid = true ∧ obj.genPrim.tag = k.tagBlkAlloc ∧ obj.genPrim.success = true

instance : Decidable (obj.Held k) := inferInstanceAs (Decidable (_ ∧ _ ∧ _))

/-- The next address, where `total` is the one that the allocator hands out next. -/
def nextAddress (total : ℕ) : ℕ := if obj.Held k then obj.genPrim.blockNumber else total

/-- **What the generated primitive was generated for.** A write that was handed over
counts as done. -/
inductive Asked (disk : Disk) (p : Pos nodesPerBlock) : Prop
  | address (htag : obj.genPrim.tag = k.tagBlkAlloc) (hst : obj.lvls.stateAt p = .initNode)
      (hleaf : ∀ i, p = .leaf i → obj.nrOfLeafs ≠ 0)
  | write (htag : obj.genPrim.tag = k.tagBlkIo) (hst : obj.lvls.stateAt p = .writeBlock)
      (hp : ∀ i, p ≠ .leaf i) (hnr : obj.genPrim.blockNumber = (Maker.nodeOf obj.lvls p).pba)
      (hlvl : obj.lvlToWrite = obj.lvlAt p - 1)
      (hnew : obj.genPrimDropped = false →
        obj.genPrim.operation = .write ∧ obj.genPrim.success = false)
      (hdata : obj.genPrimDropped = true → disk obj.genPrim.blockNumber
        = (k.maker sha).blockOn obj.lvls (Maker.levelBelow (obj.maxLvlIdx - 1) p))

/-- The levels of the tree are such that its root has a level, too. -/
def LevelsOk : Prop := k.kind.minMaxLevel ≤ obj.maxLvlIdx ∧ obj.maxLvlIdx < treeMaxMaxLevel

/-- **An initializer that builds its tree**: what is left to do gives `r`, the
root entry and the stock of addresses and blocks afterwards. -/
structure Building (total : ℕ) (disk : Disk) (r : Type1Node × Stock BlockData) : Prop where
  /-- What is still to be built is as at its start. -/
  fresh : Maker.Fresh obj.maxChildIdx obj.lvls
  /-- What is left to do gives this root and this stock. -/
  left : (k.maker sha).finish obj.maxChildIdx obj.lvls (obj.maxLvlIdx - 1)
    ⟨obj.nrOfLeafs, obj.nextAddress k total, disk⟩ = r
  /-- The tree has as many levels as it needs, or its root is still to be begun.
  -/
  begun : obj.LevelsOk k ∨ obj.firstOpen = some .root ∧ obj.lvls.rootState = .initBlock
  /-- Nothing is open once the root is done. -/
  rest : obj.lvls.rootState = .done → obj.firstOpen = none
  /-- A generated primitive is the one for the first open child. -/
  asked : obj.genPrim.valid = true → ∃ p, obj.firstOpen = some p ∧ obj.Asked k sha disk p
  /-- An address that it holds is the one that was allocated last. -/
  held : obj.Held k → obj.genPrim.blockNumber + 1 = total

variable {k sha obj} {obj' : TreeInit Leaf} {total : ℕ} {disk : Disk}
  {r : Type1Node × Stock BlockData}

/-- Without a primitive the next address is the allocator's. -/
theorem nextAddress_of_invalid (h : obj.genPrim.valid = false) : obj.nextAddress k total = total :=
  if_neg fun hheld => absurd (h.symm.trans hheld.1) Bool.false_ne_true

/-- The child at a place is the node there. -/
theorem childAt_eq_nodeOf (obj : TreeInit Leaf) (p : Pos nodesPerBlock) :
    obj.childAt p = Maker.nodeOf obj.lvls p := by cases p <;> rfl

/-- The block below a place is the one of a level. -/
theorem blockOn_of_lvlData (sha : BlockData → Hash) {lvl : ℕ} {data : BlockData}
    (h : obj.lvlData k (lvl + 1) = some data) :
    (k.maker sha).blockOn obj.lvls lvl = data := by
  cases lvl with
  | zero => exact NodeKind.dataOf_eq h
  | succ lvl =>
    rw [lvlData, if_neg (by omega)] at h
    exact NodeKind.dataOf_eq h

/-- The reset of a level, as the maker of trees does it. -/
theorem resetLvl_lvls (lvl : ℕ) :
    (obj.resetLvl k (lvl + 1)).lvls = (k.maker sha).reset obj.lvls lvl := by
  cases lvl with
  | zero => rfl
  | succ lvl =>
    rw [resetLvl, if_neg (by omega)]
    rfl

/-- The level that is reset and written for a place. -/
theorem lvlAt_sub {p : Pos nodesPerBlock} (hmax : 1 ≤ obj.maxLvlIdx) (hp : ∀ i, p ≠ .leaf i)
    (hfirst : obj.lvls.FirstAt ChildState.isOpen obj.maxLvlIdx obj.maxChildIdx p) :
    obj.lvlAt p - 1 = Maker.levelBelow (obj.maxLvlIdx - 1) p + 1 := by
  cases p with
  | leaf i => exact absurd rfl (hp i)
  | inner lvl i =>
    have hlvl := hfirst.1
    show lvl - 1 = lvl - 2 + 1
    omega
  | root =>
    show obj.maxLvlIdx + 1 - 1 = obj.maxLvlIdx - 1 + 1
    omega

/-- Nothing was generated for a child that is not begun. -/
theorem Building.genPrim_invalid (h : obj.Building k sha total disk r) {p : Pos nodesPerBlock}
    (hfirst : obj.firstOpen = some p) (hst : obj.lvls.stateAt p = .initBlock) :
    obj.genPrim.valid = false := by
  by_contra hvalid
  rw [Bool.not_eq_false] at hvalid
  obtain ⟨q, hq, hasked⟩ := h.asked hvalid
  obtain rfl := Option.some.inj (hfirst.symm.trans hq)
  cases hasked with
  | address htag hst' hleaf => exact absurd (hst.symm.trans hst') (by decide)
  | write htag hst' => exact absurd (hst.symm.trans hst') (by decide)

/-- The primitive that was submitted does not matter. -/
theorem Building.withSubmPrim (h : obj.Building k sha total disk r) (prim : IoPrimitive) :
    TreeInit.Building k sha { obj with submPrim := prim } total disk r :=
  ⟨h.fresh, h.left, h.begun, h.rest, fun hvalid => by
    obtain ⟨p, hfirst, hasked⟩ := h.asked hvalid
    refine ⟨p, hfirst, ?_⟩
    cases hasked with
    | address htag hst hleaf => exact .address htag hst hleaf
    | write htag hst hp hnr hlvl hnew hdata => exact .write htag hst hp hnr hlvl hnew hdata, h.held⟩

/-- The root is not done while there is something to do. -/
theorem Building.rootState_ne_done (h : obj.Building k sha total disk r) {p : Pos nodesPerBlock}
    (hfirst : obj.firstOpen = some p) : obj.lvls.rootState ≠ .done := fun hdone =>
  absurd (hfirst.symm.trans (h.rest hdone)) (by simp)

/-- An address that was delivered is the next one. -/
theorem nextAddress_of_held (hheld : obj.Held k) :
    obj.nextAddress k total = obj.genPrim.blockNumber :=
  if_pos hheld

/-- **A primitive is generated** for the place that is found. -/
theorem Building.generate (h : obj.Building k sha total disk r) {prim : IoPrimitive} (lvl : ℕ)
    (hgen : obj.genPrim.valid = false) (hsucc : prim.success = false) {p : Pos nodesPerBlock}
    (hfirst : obj.firstOpen = some p)
    (hasked : TreeInit.Asked k sha { obj.generate prim with lvlToWrite := lvl } disk p) :
    TreeInit.Building k sha { obj.generate prim with lvlToWrite := lvl } total disk r where
  fresh := h.fresh
  left := by
    have hleft := h.left
    rw [nextAddress_of_invalid hgen] at hleft
    have hnot : ¬ TreeInit.Held k { obj.generate prim with lvlToWrite := lvl } := fun hheld =>
      absurd (hsucc.symm.trans hheld.2.2) Bool.false_ne_true
    rw [nextAddress, if_neg hnot]
    exact hleft
  begun := h.begun
  rest := h.rest
  asked _ := ⟨p, hfirst, hasked⟩
  held hheld := absurd (hsucc.symm.trans hheld.2.2) Bool.false_ne_true

/-- An address is asked for. -/
theorem Building.generateAddress (h : obj.Building k sha total disk r)
    (hgen : obj.genPrim.valid = false) {p : Pos nodesPerBlock} (hfirst : obj.firstOpen = some p)
    (hst : obj.lvls.stateAt p = .initNode) (hleaf : ∀ i, p = .leaf i → obj.nrOfLeafs ≠ 0) :
    (obj.generate (.request .read k.tagBlkAlloc 0)).Building k sha total disk r :=
  h.generate obj.lvlToWrite hgen rfl hfirst (.address rfl hst hleaf)

/-! ## The calls of `Execute`

A call goes to the first place that is open. What it does depends on whether the
place is a leaf or a node, on its state, and on whether the primitive it waits
for has succeeded. -/

section

variable (hk : 1 ≤ k.kind.minMaxLevel)

include hk

/-- A step after which nothing is generated. -/
theorem Building.step (hlevels : obj'.LevelsOk k) (hgen : obj'.genPrim.valid = false)
    (hfresh : Maker.Fresh obj'.maxChildIdx obj'.lvls)
    (hleft : (k.maker sha).finish obj'.maxChildIdx obj'.lvls (obj'.maxLvlIdx - 1)
      ⟨obj'.nrOfLeafs, total, disk⟩ = r)
    (hrest : obj'.lvls.rootState = .done →
      obj'.lvls.Closed ChildState.isOpen obj'.maxChildIdx obj'.maxLvlIdx) :
    obj'.Building k sha total disk r where
  fresh := hfresh
  left := by rw [nextAddress_of_invalid hgen]; exact hleft
  begun := Or.inl hlevels
  rest hdone := (Levels.firstOpen_eq_none (le_trans hk hlevels.1)).mpr
    ⟨hrest hdone, ChildState.isOpen_eq_false.mpr hdone⟩
  asked hvalid := absurd (hgen.symm.trans hvalid) Bool.false_ne_true
  held hheld := absurd (hgen.symm.trans hheld.1) Bool.false_ne_true

/-- **A leaf**: it gets an address of its own, or, beyond the number of leaves,
none. Leaves are not written by the initializer. -/
theorem Building.executeLeafChild (h : obj.Building k sha total disk r) (hlevels : obj.LevelsOk k)
    {i : Fin nodesPerBlock} (hfirst : obj.firstOpen = some (.leaf i))
    (hrun : obj.executeLeafChild k i = some obj') : obj'.Building k sha total disk r := by
  have hat := Levels.firstAt_of_firstOpen (le_trans hk hlevels.1) hfirst
  have hroot := h.rootState_ne_done hfirst
  have hleft := h.left
  unfold TreeInit.executeLeafChild at hrun
  cases hst : obj.lvls.lowest.childrenState i with
  | initBlock =>
    rw [hst] at hrun
    obtain rfl := Option.some.inj hrun
    have hgen := h.genPrim_invalid hfirst hst
    refine Building.step hk hlevels hgen (h.fresh.setState hat _) ?_ fun hdone => absurd hdone hroot
    rw [nextAddress_of_invalid hgen, Maker.finish_leaf hat
      (obj.lvls.lowest.children i) .initNode _ (by rw [hst]; rfl),
      Maker.setLeaf_self] at hleft
    exact hleft
  | initNode =>
    rw [hst] at hrun
    dsimp only at hrun
    by_cases hzero : obj.nrOfLeafs = 0
    · rw [if_pos hzero] at hrun
      obtain rfl := Option.some.inj hrun
      have hgen : obj.genPrim.valid = false := by
        by_contra hvalid
        rw [Bool.not_eq_false] at hvalid
        obtain ⟨q, hq, hasked⟩ := h.asked hvalid
        obtain rfl := Option.some.inj (hfirst.symm.trans hq)
        cases hasked with
        | address htag hst' hleaf => exact hleaf i rfl hzero
        | write htag hst' hp => exact hp i rfl
      refine Building.step hk hlevels hgen (h.fresh.congr fun _ _ => rfl) ?_
        fun hdone => absurd hdone hroot
      rw [nextAddress_of_invalid hgen, Maker.finish_leaf hat k.kind.invalid .done
        ⟨obj.nrOfLeafs, total, disk⟩ (by rw [hst]; exact if_pos hzero)] at hleft
      exact hleft
    · rw [if_neg hzero] at hrun
      by_cases hvalid : obj.genPrim.valid = false
      · rw [if_pos hvalid] at hrun
        obtain rfl := Option.some.inj hrun
        exact h.generateAddress hvalid hfirst hst fun _ _ => hzero
      · rw [if_neg hvalid] at hrun
        obtain ⟨htag, hrun⟩ := Option.ite_none_left_eq_some.mp hrun
        by_cases hsucc : obj.genPrim.success = false
        · rw [if_pos hsucc] at hrun
          obtain rfl := Option.some.inj hrun
          exact h
        · rw [if_neg hsucc] at hrun
          obtain rfl := Option.some.inj hrun
          have hheld : obj.Held k :=
            ⟨Bool.not_eq_false _ ▸ hvalid, not_not.mp htag, Bool.not_eq_false _ ▸ hsucc⟩
          have hnext := h.held hheld
          refine Building.step hk hlevels rfl (h.fresh.congr fun _ _ => rfl) ?_
            fun hdone => absurd hdone hroot
          rw [nextAddress_of_held hheld, Maker.finish_leaf hat
            (k.leafAt obj.genPrim.blockNumber) .done ⟨obj.nrOfLeafs - 1, total, disk⟩
            (by rw [hst, ← hnext]; exact if_neg hzero)] at hleft
          exact hleft
  | writeBlock =>
    rw [hst] at hrun
    obtain rfl := Option.some.inj hrun
    exact h
  | done =>
    rw [hst] at hrun
    obtain rfl := Option.some.inj hrun
    exact h

omit hk in
/-- The root is done once everything below it is. -/
theorem closed_of_setState {p : Pos nodesPerBlock} {maxLvl m : ℕ}
    {lvls : Levels Type1Node Leaf ChildState nodesPerBlock}
    (hat : lvls.FirstAt ChildState.isOpen maxLvl m p) (hroot : lvls.rootState ≠ .done)
    {x : Type1Node} {st : ChildState}
    (hdone : ((lvls.setNode p x).setState p st).rootState = .done) :
    ((lvls.setNode p x).setState p st).Closed ChildState.isOpen m maxLvl := by
  cases p with
  | leaf i => exact absurd hdone hroot
  | inner lvl i => exact absurd hdone hroot
  | root => exact hat.2.1.congr (fun _ => rfl) fun _ _ _ => rfl

/-- **A node changes**, and nothing is generated any more. -/
theorem Building.stepNode (h : obj.Building k sha total disk r) (hlevels : obj.LevelsOk k)
    {p : Pos nodesPerBlock} (hp : ∀ i, p ≠ .leaf i) (hfirst : obj.firstOpen = some p)
    (x : Type1Node) (st : ChildState) {prim : IoPrimitive} (hprim : prim.valid = false) {b : Bool}
    (hat : (k.maker sha).finishNode
        ((k.maker sha).makeBelow obj.maxChildIdx (Maker.levelBelow (obj.maxLvlIdx - 1) p))
        ((k.maker sha).blockOn obj.lvls (Maker.levelBelow (obj.maxLvlIdx - 1) p))
        (obj.lvls.stateAt p) (Maker.nodeOf obj.lvls p)
        ⟨obj.nrOfLeafs, obj.nextAddress k total, disk⟩
      = (k.maker sha).finishNode
        ((k.maker sha).makeBelow obj.maxChildIdx (Maker.levelBelow (obj.maxLvlIdx - 1) p))
        ((k.maker sha).blockOn obj.lvls (Maker.levelBelow (obj.maxLvlIdx - 1) p))
        st x ⟨obj.nrOfLeafs, total, disk⟩) :
    TreeInit.Building k sha { obj with
      lvls := (obj.lvls.setNode p x).setState p st, genPrim := prim, genPrimDropped := b }
      total disk r := by
  have hmax := le_trans hk hlevels.1
  have hfirstAt := Levels.firstAt_of_firstOpen hmax hfirst
  refine Building.step hk hlevels hprim
    ((h.fresh.setNode p x).setState (hfirstAt.setNode p x) st) ?_
    (closed_of_setState hfirstAt (h.rootState_ne_done hfirst))
  have hd : obj.maxLvlIdx - 1 + 1 = obj.maxLvlIdx := Nat.sub_add_cancel hmax
  rw [← h.left]
  exact (Maker.finish_node hp (by rw [hd]; exact hfirstAt) hat).symm

/-- **A node**: its children are reset when it is begun; when they are done it
gets an address, its block is written there, and the entry takes over address
and hash. -/
theorem Building.executeInnerChild (htags : k.tagBlkAlloc ≠ k.tagBlkIo)
    (h : obj.Building k sha total disk r) (hlevels : obj.LevelsOk k) {p : Pos nodesPerBlock}
    (hp : ∀ i, p ≠ .leaf i) (hfirst : obj.firstOpen = some p)
    (hrun : obj.executeInnerChild k sha p = some obj') : obj'.Building k sha total disk r := by
  have hmax := le_trans hk hlevels.1
  have hat := Levels.firstAt_of_firstOpen hmax hfirst
  have hsub := lvlAt_sub hmax hp hat
  have hroot := h.rootState_ne_done hfirst
  have hd : obj.maxLvlIdx - 1 + 1 = obj.maxLvlIdx := Nat.sub_add_cancel hmax
  unfold TreeInit.executeInnerChild at hrun
  cases hst : obj.lvls.stateAt p with
  | initBlock =>
    rw [hst] at hrun
    dsimp only at hrun
    have hgen := h.genPrim_invalid hfirst hst
    by_cases hzero : obj.nrOfLeafs = 0
    · rw [if_pos hzero] at hrun
      obtain rfl := Option.some.inj hrun
      refine h.stepNode hk hlevels hp hfirst _ _ (b := obj.genPrimDropped) hgen ?_
      rw [nextAddress_of_invalid hgen, hst]
      exact if_pos hzero
    · rw [if_neg hzero] at hrun
      obtain rfl := Option.some.inj hrun
      have hlvls : ((obj.resetLvl k (obj.lvlAt p - 1)).setState p .initNode).lvls
          = ((k.maker sha).reset obj.lvls (Maker.levelBelow (obj.maxLvlIdx - 1) p)).setState p
            .initNode := by
        rw [hsub]
        show (obj.resetLvl k _).lvls.setState p .initNode = _
        rw [resetLvl_lvls]
      refine Building.step hk hlevels hgen ?_ ?_ fun hdone => absurd hdone ?_
      · rw [hlvls]
        exact Maker.Fresh.setState_reset h.fresh hp (by rw [hd]; exact hat) _
      · have hleft := h.left
        rw [nextAddress_of_invalid hgen] at hleft
        rw [hlvls, ← hleft]
        exact (Maker.finish_open hp (by rw [hd]; exact hat) hst hzero h.fresh).symm
      · rw [hlvls]
        cases p with
        | leaf i => exact absurd rfl (hp i)
        | inner lvl i =>
          exact fun hdone => hroot ((Maker.sameAbove_reset _ _ _).rootState.symm.trans hdone)
        | root => exact fun hdone => by cases hdone
  | initNode =>
    rw [hst] at hrun
    dsimp only at hrun
    by_cases hvalid : obj.genPrim.valid = false
    · rw [if_pos hvalid] at hrun
      obtain rfl := Option.some.inj hrun
      exact h.generateAddress hvalid hfirst hst fun i hi => absurd hi (hp i)
    · rw [if_neg hvalid] at hrun
      obtain ⟨htag, hrun⟩ := Option.ite_none_left_eq_some.mp hrun
      by_cases hsucc : obj.genPrim.success = false
      · rw [if_pos hsucc] at hrun
        obtain rfl := Option.some.inj hrun
        exact h
      · rw [if_neg hsucc] at hrun
        obtain ⟨data, hdata, rfl⟩ := Option.map_eq_some_iff.mp hrun
        rw [hsub] at hdata
        have hheld : obj.Held k :=
          ⟨Bool.not_eq_false _ ▸ hvalid, not_not.mp htag, Bool.not_eq_false _ ▸ hsucc⟩
        refine h.stepNode hk hlevels hp hfirst _ _ (b := false) rfl ?_
        rw [nextAddress_of_held hheld, hst, ← h.held hheld, blockOn_of_lvlData sha hdata]
        rfl
  | writeBlock =>
    rw [hst] at hrun
    dsimp only at hrun
    rw [childAt_eq_nodeOf] at hrun
    by_cases hvalid : obj.genPrim.valid = false
    · rw [if_pos hvalid] at hrun
      obtain rfl := Option.some.inj hrun
      exact h.generate _ hvalid rfl hfirst (.write rfl hst hp rfl rfl (fun _ => ⟨rfl, rfl⟩)
        fun hdropped => absurd hdropped Bool.false_ne_true)
    · rw [if_neg hvalid] at hrun
      obtain ⟨htag, hrun⟩ := Option.ite_none_left_eq_some.mp hrun
      by_cases hsucc : obj.genPrim.success = false
      · rw [if_pos hsucc] at hrun
        obtain rfl := Option.some.inj hrun
        exact h
      · rw [if_neg hsucc] at hrun
        obtain rfl := Option.some.inj hrun
        have hwritten : disk obj.genPrim.blockNumber = (k.maker sha).blockOn obj.lvls
            (Maker.levelBelow (obj.maxLvlIdx - 1) p) ∧ obj.genPrim.blockNumber
              = (Maker.nodeOf obj.lvls p).pba := by
          obtain ⟨q, hq, hasked⟩ := h.asked (Bool.not_eq_false _ ▸ hvalid)
          obtain rfl := Option.some.inj (hfirst.symm.trans hq)
          cases hasked with
          | address htag' hst' => exact absurd (hst.symm.trans hst') (by decide)
          | write htag' hst' hp' hnr hlvl hnew hdata =>
            refine ⟨hdata ?_, hnr⟩
            by_contra hdropped
            exact hsucc (hnew (Bool.not_eq_true _ ▸ hdropped)).2
        have hnot : ¬ obj.Held k := fun hheld =>
          htags (hheld.2.1.symm.trans (not_not.mp (not_or.mp htag).1))
        have hstep := h.stepNode hk hlevels hp hfirst (Maker.nodeOf obj.lvls p) .done
          (show IoPrimitive.invalidObject.valid = false from rfl) (b := false) (by
            rw [nextAddress, if_neg hnot, hst]
            show (_, Stock.mk _ _ (Function.update disk _ _)) = _
            rw [← hwritten.1, show (k.maker sha).address (Maker.nodeOf obj.lvls p)
              = obj.genPrim.blockNumber from hwritten.2.symm, Function.update_eq_self]
            rfl)
        rw [Maker.setNode_self] at hstep
        exact hstep
  | done =>
    rw [hst] at hrun
    obtain rfl := Option.some.inj hrun
    exact h

/-- **A call of `Execute`** leaves the tree that is going to be built as it is.
-/
theorem Building.execute (htags : k.tagBlkAlloc ≠ k.tagBlkIo) (h : obj.Building k sha total disk r)
    (hrun : obj.execute k sha = some obj') : obj'.Building k sha total disk r := by
  unfold TreeInit.execute at hrun
  by_cases hsubm : obj.submPrim.valid = false
  · rw [if_pos hsubm] at hrun
    obtain rfl := Option.some.inj hrun
    exact h
  rw [if_neg hsubm] at hrun
  have hlevels : ∀ p, obj.firstOpen = some p → p ≠ .root → obj.LevelsOk k := fun p hp hne =>
    h.begun.resolve_right fun hroot => hne (Option.some.inj (hp.symm.trans hroot.1))
  by_cases hmin : k.kind.minMaxLevel ≤ obj.maxLvlIdx
  · rw [if_pos hmin] at hrun
    cases hfirst : obj.firstOpen with
    | none =>
      rw [hfirst] at hrun
      obtain rfl := Option.some.inj hrun
      split_ifs
      · exact h.withSubmPrim _
      · exact h
    | some p =>
      rw [hfirst] at hrun
      cases p with
      | leaf i => exact h.executeLeafChild hk (hlevels _ hfirst (by simp)) hfirst hrun
      | inner lvl i =>
        exact h.executeInnerChild hk htags (hlevels _ hfirst (by simp)) (by simp) hfirst hrun
      | root =>
        obtain ⟨hmax, hrun⟩ := Option.ite_none_right_eq_some.mp hrun
        exact h.executeInnerChild hk htags ⟨hmin, hmax⟩ (by simp) hfirst hrun
  · rw [if_neg hmin] at hrun
    obtain ⟨-, hrun⟩ := Option.ite_none_left_eq_some.mp hrun
    cases hfirst : obj.firstOpen with
    | none =>
      rw [hfirst] at hrun
      exact absurd hrun (by simp)
    | some p =>
      rw [hfirst] at hrun
      cases p with
      | leaf i => exact absurd (hlevels _ hfirst (by simp)).1 hmin
      | inner lvl i => exact absurd hrun (by simp)
      | root => exact absurd hrun (by simp)

end

/-! ## The answers of the other modules

The block allocator delivers an address, block I/O reports a write. Neither
changes the levels; they only make the next call go on. -/

/-- The initializer waits for an address. -/
def Waiting (k : TreeInitKind Leaf) (obj : TreeInit Leaf) : Prop :=
  obj.genPrim.valid = true ∧ obj.genPrim.tag = k.tagBlkAlloc ∧ obj.genPrim.success = false
    ∧ obj.genPrimDropped = true

section

variable (htags : k.tagBlkAlloc ≠ k.tagBlkIo)

include htags

/-- **An address is delivered**, and held until the next call consumes it. -/
theorem Building.delivered (h : obj.Building k sha total disk r) (hwait : obj.Waiting k)
    {prim : IoPrimitive} (hvalid : prim.valid = true) (htag : prim.tag = k.tagBlkAlloc)
    (hsucc : prim.success = true) (hnr : prim.blockNumber = total) :
    (obj.markGeneratedPrimitiveComplete k prim).Building k sha (total + 1) disk r := by
  obtain ⟨hgen, hgentag, hgensucc, hdropped⟩ := hwait
  have hmark : obj.markGeneratedPrimitiveComplete k prim = { obj with genPrim := prim } :=
    if_pos ⟨hgen, hdropped, Or.inl ⟨hgentag, htag⟩⟩
  have hleft := h.left
  have hnot : ¬ obj.Held k := fun hheld => absurd (hgensucc.symm.trans hheld.2.2) Bool.false_ne_true
  have hheld : TreeInit.Held k { obj with genPrim := prim } := ⟨hvalid, htag, hsucc⟩
  rw [hmark]
  refine ⟨h.fresh, ?_, h.begun, h.rest, fun _ => ?_, fun _ => congrArg (· + 1) hnr⟩
  · rw [nextAddress_of_held hheld]
    rw [nextAddress, if_neg hnot] at hleft
    rw [hnr]
    exact hleft
  · obtain ⟨p, hfirst, hasked⟩ := h.asked hgen
    refine ⟨p, hfirst, ?_⟩
    cases hasked with
    | address _ hst hleaf => exact .address htag hst hleaf
    | write htag' => exact absurd (hgentag.symm.trans htag') htags

/-- **A block was written**: the disk has it since the request was handed over.
-/
theorem Building.written (h : obj.Building k sha total disk r) {prim : IoPrimitive}
    (htag : prim.tag = k.tagBlkIo) :
    (obj.markGeneratedPrimitiveComplete k prim).Building k sha total disk r := by
  unfold TreeInit.markGeneratedPrimitiveComplete
  split_ifs with hmark
  · obtain ⟨hgen, hdropped, ⟨-, htag'⟩ | ⟨hgentag, -, hnr⟩⟩ := hmark
    · exact absurd (htag'.symm.trans htag) htags
    · have hleft := h.left
      have hnot : ¬ obj.Held k := fun hheld => htags (hheld.2.1.symm.trans hgentag)
      have hnot' : ¬ TreeInit.Held k { obj with genPrim := prim } := fun hheld =>
        htags (hheld.2.1.symm.trans htag)
      refine ⟨h.fresh, ?_, h.begun, h.rest, fun _ => ?_, fun hheld => absurd hheld hnot'⟩
      · rw [nextAddress, if_neg hnot']
        rw [nextAddress, if_neg hnot] at hleft
        exact hleft
      · obtain ⟨p, hfirst, hasked⟩ := h.asked hgen
        refine ⟨p, hfirst, ?_⟩
        cases hasked with
        | address htag' => exact absurd (htag'.symm.trans hgentag) htags
        | write _ hst hp hnr' hlvl hnew hdata =>
          refine .write htag hst hp (hnr.symm.trans hnr') hlvl (fun hnot => ?_) fun _ => ?_
          · exact absurd (hnot.symm.trans hdropped) Bool.false_ne_true
          · show disk prim.blockNumber = _
            rw [← hnr]
            exact hdata hdropped
  · exact h

end

/-! ## Requests are handed over

The library takes a generated primitive to the module that it is for, once. -/

/-- The generated primitive is handed over to the block allocator. -/
theorem Building.dropAddress (h : obj.Building k sha total disk r)
    (htags : k.tagBlkAlloc ≠ k.tagBlkIo) (htag : obj.genPrim.tag = k.tagBlkAlloc) :
    TreeInit.Building k sha { obj with genPrimDropped := true } total disk r :=
  ⟨h.fresh, h.left, h.begun, h.rest, fun hvalid => by
    obtain ⟨p, hfirst, hasked⟩ := h.asked hvalid
    refine ⟨p, hfirst, ?_⟩
    cases hasked with
    | address htag hst hleaf => exact .address htag hst hleaf
    | write htag' => exact absurd (htag.symm.trans htag') htags, h.held⟩

/-- **A block is handed over** to be written. From here on it counts as written,
so the disk of the statement is the one after the write. -/
theorem Building.dropWrite (hk : 1 ≤ k.kind.minMaxLevel) (htags : k.tagBlkAlloc ≠ k.tagBlkIo)
    (h : obj.Building k sha total disk r) (hgen : obj.genPrim.valid = true)
    (htag : obj.genPrim.tag = k.tagBlkIo) {data : BlockData}
    (hdata : obj.lvlData k obj.lvlToWrite = some data) :
    TreeInit.Building k sha { obj with genPrimDropped := true } total
      (Function.update disk obj.genPrim.blockNumber data) r := by
  obtain ⟨p, hfirst, hasked⟩ := h.asked hgen
  cases hasked with
  | address htag' => exact absurd (htag'.symm.trans htag) htags
  | write _ hst hp hnr hlvl hnew _ =>
    have hlevels : obj.LevelsOk k := h.begun.resolve_right fun hroot => by
      obtain rfl := Option.some.inj (hfirst.symm.trans hroot.1)
      exact absurd (hst.symm.trans hroot.2) (by decide)
    have hmax := le_trans hk hlevels.1
    have hd : obj.maxLvlIdx - 1 + 1 = obj.maxLvlIdx := Nat.sub_add_cancel hmax
    have hat := Levels.firstAt_of_firstOpen hmax hfirst
    rw [hlvl, lvlAt_sub hmax hp hat] at hdata
    have hblock := blockOn_of_lvlData sha hdata
    refine ⟨h.fresh, ?_, h.begun, h.rest, fun _ => ⟨p, hfirst, ?_⟩, h.held⟩
    · have hleft := h.left
      rw [← Maker.finish_write hp (by rw [hd]; exact hat) hst, hblock] at hleft
      rw [hnr]
      exact hleft
    · refine .write htag hst hp hnr hlvl (fun hnot => absurd hnot.symm Bool.false_ne_true)
        fun _ => ?_
      exact (Function.update_self _ _ _).trans hblock.symm

/-! ## The beginning and the end

At the start everything is left to do, at the end nothing is, and the two ends
of the equation are the tree that was asked for and the one that was built. -/

/-- **A tree that is asked for.** -/
theorem Building.start (sha : BlockData → Hash) (total : ℕ) (disk : Disk) {prim : IoPrimitive}
    {maxLvlIdx maxChildIdx nrOfLeafs : ℕ}
    (hrun : (initializeObject k).submitPrimitive prim maxLvlIdx maxChildIdx nrOfLeafs = some obj) :
    obj.Building k sha total disk
      ((k.maker sha).make maxChildIdx (maxLvlIdx - 1) ⟨nrOfLeafs, total, disk⟩) := by
  obtain rfl := Option.some.inj hrun
  exact {
    fresh := fun _ _ _ _ _ _ hopen => absurd hopen Bool.false_ne_true
    left := Maker.finish_of_closed ⟨fun _ _ _ => rfl, fun _ _ _ _ _ => rfl⟩ rfl _
    begun := Or.inr ⟨Levels.firstOpen_eq_root (fun _ _ => rfl) (fun _ _ _ _ _ => rfl) rfl, rfl⟩
    rest := fun hdone => absurd (show ChildState.initBlock = .done from hdone) (by decide)
    asked := fun hvalid => absurd hvalid Bool.false_ne_true
    held := fun hheld => absurd hheld.1 Bool.false_ne_true }

/-- **A tree that is done** has been built. -/
theorem Building.finished (hk : 1 ≤ k.kind.minMaxLevel) (h : obj.Building k sha total disk r)
    (hdone : obj.lvls.rootState = .done) :
    obj.LevelsOk k ∧ obj.genPrim.valid = false
      ∧ r = (obj.lvls.root, ⟨obj.nrOfLeafs, total, disk⟩) := by
  have hlevels : obj.LevelsOk k := h.begun.resolve_right fun hroot =>
    absurd (hdone.symm.trans hroot.2) (by decide)
  have hgen : obj.genPrim.valid = false := by
    by_contra hvalid
    obtain ⟨p, hfirst, -⟩ := h.asked (Bool.not_eq_false _ ▸ hvalid)
    exact h.rootState_ne_done hfirst hdone
  have hmax := le_trans hk hlevels.1
  have hd : obj.maxLvlIdx - 1 + 1 = obj.maxLvlIdx := Nat.sub_add_cancel hmax
  have hclosed := ((Levels.firstOpen_eq_none hmax).mp (h.rest hdone)).1
  refine ⟨hlevels, hgen, ?_⟩
  rw [← h.left, nextAddress_of_invalid hgen]
  exact Maker.finish_of_done (by rw [hd]; exact hclosed) hdone _

/-- An initializer that waits for an address has begun. -/
theorem Building.levelsOk_of_waiting (h : obj.Building k sha total disk r)
    (htags : k.tagBlkAlloc ≠ k.tagBlkIo) (hwait : obj.Waiting k) : obj.LevelsOk k :=
  h.begun.resolve_right fun hroot => by
    obtain ⟨p, hfirst, hasked⟩ := h.asked hwait.1
    obtain rfl := Option.some.inj (hfirst.symm.trans hroot.1)
    cases hasked with
    | address _ hst _ => exact absurd (hst.symm.trans hroot.2) (by decide)
    | write htag => exact htags (hwait.2.1.symm.trans htag)

/-- The next address is one of the tree. -/
theorem Building.total_le (h : obj.Building k sha total disk r) (hwait : obj.Waiting k) :
    total ≤ r.2.next := by
  have hnot : ¬ obj.Held k := fun hheld =>
    absurd (hwait.2.2.1.symm.trans hheld.2.2) Bool.false_ne_true
  have hleft := h.left
  rw [nextAddress, if_neg hnot] at hleft
  rw [← hleft]
  exact Maker.next_le_finish (k.maker sha) obj.maxChildIdx (obj.maxLvlIdx - 1) obj.lvls
    ⟨obj.nrOfLeafs, total, disk⟩

end TreeInit

end Cbe
