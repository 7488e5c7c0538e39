import Cbe.CheckTrees

/-!
# What a check of a tree comes to

A check of a tree runs inside the library, one call of `Execute` in a round.
`Hosted` says how a round of the host moves the check along while the root is
not done. Whatever the host is, the scan comes to what `checkNode` computes
(`node_ends`, `child_ends`): by induction on the level, with the loop over the
children of a node in `loop_ends`.

The source keeps an array of levels, each with a state for every child, and
looks in each call for the first child that is not done, from the lowest level
up. What it does with that child depends on the state: read the block, put the
node block on the level below, compare the hash, be done. Several calls belong
to one child, and between them the device may let the check wait for its block.

The virtual block device and the free tree are checked by two modules of the
source that differ in the names and in what they do with a leaf: a data block is
read and hashed, an entry of the free tree is only counted. `TreeChecker` has
the common part, and the two leaves are `vbd_leaf_ends` and `ft_leaf_ends`.
-/

namespace Cbe

open LevelScan PartialRun

variable {Leaf : Type} {σ : Type}

/-- What is on its way is for one check. -/
def BlockIo.Serves (io : BlockIo) (c : TreeChecker Leaf) : Prop := ∀ q ∈ io.entry, q.1.tag = c.tag

/-- Without a primitive there is none for another check. -/
theorem BlockIo.serves_of_none {io : BlockIo} (c : TreeChecker Leaf) (h : io.entry = none) :
    io.Serves c := by
  intro q hq
  rw [h] at hq
  exact absurd hq (Option.not_mem_none q)

namespace TreeCheck

/-- No primitive is on its way. -/
structure Idle (obj : TreeCheck Leaf) (io : BlockIo) : Prop where
  /-- The check has generated nothing. -/
  genPrim : obj.genPrim = none
  /-- Block I/O has nothing to do. -/
  entry : io.entry = none

/-- A tree was submitted whose levels the check can handle. -/
structure Active (c : TreeChecker Leaf) (obj : TreeCheck Leaf) : Prop where
  /-- The check has a primitive. -/
  submPrim : obj.submPrim ≠ none
  /-- The tree has the levels that it needs. -/
  minLevel : c.kind.minMaxLevel ≤ obj.maxLvlIdx
  /-- It has no more than the check can hold. -/
  maxLevel : obj.maxLvlIdx + 1 ≤ treeMaxMaxLevel
  /-- The root is not done. -/
  rootState : obj.lvls.rootState ≠ .done

/-- A visit of a child keeps what is above its level, and the tree. A visit of a
node on a higher level may use the levels below as it likes. -/
structure Kept (lvl : ℕ) (obj obj' : TreeCheck Leaf) : Prop where
  /-- The levels above are the same. -/
  lvls : Levels.SameAbove lvl obj.lvls obj'.lvls
  /-- The tree has the level that it had. -/
  maxLvlIdx : obj'.maxLvlIdx = obj.maxLvlIdx
  /-- Its nodes have as many children. -/
  maxChildIdx : obj'.maxChildIdx = obj.maxChildIdx
  /-- The check has the same primitive. -/
  submPrim : obj'.submPrim = obj.submPrim

/-- A place is the first one that is open. -/
abbrev FirstAt (obj : TreeCheck Leaf) (p : Pos nodesPerBlock) : Prop :=
  obj.lvls.FirstAt CheckState.isOpen obj.maxLvlIdx obj.maxChildIdx p

/-- The levels up to one are done. -/
abbrev Closed (lvl : ℕ) (obj : TreeCheck Leaf) : Prop :=
  obj.lvls.Closed CheckState.isOpen obj.maxChildIdx lvl

/-- Nothing was changed. -/
theorem Kept.refl (lvl : ℕ) (obj : TreeCheck Leaf) : Kept lvl obj obj :=
  ⟨.refl lvl obj.lvls, rfl, rfl, rfl⟩

/-- One visit after the other. -/
theorem Kept.trans {lvl : ℕ} {obj obj' obj'' : TreeCheck Leaf} (h : Kept lvl obj obj')
    (h' : Kept lvl obj' obj'') : Kept lvl obj obj'' where
  lvls := h.lvls.trans h'.lvls
  maxLvlIdx := h'.maxLvlIdx.trans h.maxLvlIdx
  maxChildIdx := h'.maxChildIdx.trans h.maxChildIdx
  submPrim := h'.submPrim.trans h.submPrim

/-- A visit on a level is one within the levels above. -/
theorem Kept.mono {lvl k : ℕ} {obj obj' : TreeCheck Leaf} (h : Kept lvl obj obj')
    (hk : lvl ≤ k) : Kept k obj obj' :=
  { h with lvls := h.lvls.mono hk }

/-- The check of a tree remains one of that tree. -/
theorem Active.of_kept {c : TreeChecker Leaf} {lvl : ℕ} {obj obj' : TreeCheck Leaf}
    (h : obj.Active c) (hkept : Kept lvl obj obj') : obj'.Active c where
  submPrim := by rw [hkept.submPrim]; exact h.submPrim
  minLevel := by rw [hkept.maxLvlIdx]; exact h.minLevel
  maxLevel := by rw [hkept.maxLvlIdx]; exact h.maxLevel
  rootState := by rw [hkept.lvls.rootState]; exact h.rootState

end TreeCheck

open TreeCheck

/-- What a round does after the call of `Execute`, the client included. -/
def TreeChecker.afterExecute (c : TreeChecker Leaf) (disk : Disk) (obj : TreeCheck Leaf)
    (io : BlockIo) : Option (TreeCheck Leaf × BlockIo) :=
  (obj.submitGenerated c io).bind fun w =>
    (w.1.executeBlockIo c w.2).map fun w => (w.1, w.2.serve disk)

/-- **A host of a check.** While the root is not done a round of it is a call of
`Execute` and what follows that call. The library is one, with all its other
modules resting. -/
structure Hosted (c : TreeChecker Leaf) (sha : BlockData → Hash) (disk : Disk)
    (f : σ → Option σ) (P : σ → Prop) (e : TreeCheck Leaf → BlockIo → σ) : Prop where
  /-- The call goes to the first child that is open. -/
  running : ∀ obj io, obj.lvls.rootState ≠ .done → P (e obj io)
  /-- Where the call raises the round does. -/
  raise : ∀ obj io p, obj.Active c → obj.FirstAt p → obj.executeAt c sha (some p) = none →
    f (e obj io) = none
  /-- Otherwise the round is the call and what follows it. -/
  step : ∀ obj io p obj', obj.Active c → obj.FirstAt p → io.Serves c →
    obj.executeAt c sha (some p) = some obj' → obj'.lvls.rootState ≠ .done →
    f (e obj io) = (c.afterExecute disk obj' io).map fun w => e w.1 w.2

section

variable {c : TreeChecker Leaf} {sha : BlockData → Hash} {disk : Disk} {f : σ → Option σ}
  {P : σ → Prop} {e : TreeCheck Leaf → BlockIo → σ}

/-- A round in which no primitive is on its way. -/
theorem Hosted.quiet (host : Hosted c sha disk f P e) {obj obj' : TreeCheck Leaf} {io : BlockIo}
    {p : Pos nodesPerBlock} (hact : obj.Active c) (hfirst : obj.FirstAt p)
    (hexec : obj.executeAt c sha (some p) = some obj') (hroot : obj'.lvls.rootState ≠ .done)
    (hidle : obj'.Idle io) : Leads f P (e obj io) (e obj' io) := by
  refine .single (host.running _ _ hact.rootState) ?_
  rw [host.step _ _ _ _ hact hfirst (io.serves_of_none c hidle.entry) hexec hroot]
  have hafter : c.afterExecute disk obj' io = some (obj', io) := by
    simp [TreeChecker.afterExecute, submitGenerated, peekGeneratedPrimitive, executeBlockIo,
      BlockIo.peekCompletedPrimitive, BlockIo.serve, hidle.genPrim, hidle.entry]
  rw [hafter]
  rfl

/-- The check while it waits for a block. -/
def TreeCheck.waiting (c : TreeChecker Leaf) (obj : TreeCheck Leaf) (pba lvl : ℕ) :
    TreeCheck Leaf :=
  { obj with
    genPrimDropped := true
    genPrim := some { tag := c.tag, blockNumber := pba }
    lvlToRead := lvl }

/-- The check that has got the block. -/
def TreeCheck.answered (c : TreeChecker Leaf) (obj : TreeCheck Leaf) (pba lvl : ℕ) :
    TreeCheck Leaf :=
  { obj with
    genPrimDropped := true
    genPrim := some { tag := c.tag, blockNumber := pba, success := true }
    lvlToRead := lvl }

/-- Block I/O with the block. -/
def BlockIo.answered (c : TreeChecker Leaf) (disk : Disk) (pba : ℕ) : BlockIo where
  entry := some ({ tag := c.tag, blockNumber := pba, success := true }, .complete)
  buf := disk pba

/-- Block I/O takes the primitive, and the client serves it. -/
theorem afterExecute_issued {obj : TreeCheck Leaf} {io : BlockIo} (hentry : io.entry = none)
    (pba lvl : ℕ) :
    c.afterExecute disk { obj.waiting c pba lvl with genPrimDropped := false } io
      = some (obj.waiting c pba lvl, BlockIo.answered c disk pba) := by
  simp [TreeChecker.afterExecute, submitGenerated, peekGeneratedPrimitive, executeBlockIo,
    BlockIo.peekCompletedPrimitive, BlockIo.serve, BlockIo.PrimitiveAcceptable,
    BlockIo.submitPrimitive, dropGeneratedPrimitive, CheckPrim.Equal, waiting, BlockIo.answered,
    hentry]

/-- The check gets the block. -/
theorem afterExecute_answered (obj : TreeCheck Leaf) (pba lvl : ℕ) :
    c.afterExecute disk (obj.waiting c pba lvl) (BlockIo.answered c disk pba)
      = ((obj.answered c pba lvl).loadLvl c (disk pba)).map fun obj' =>
        (obj', { entry := none, buf := disk pba }) := by
  have hmark : (obj.waiting c pba lvl).markGeneratedPrimitiveComplete c
      { tag := c.tag, blockNumber := pba, success := true } (disk pba)
      = (obj.answered c pba lvl).loadLvl c (disk pba) := if_pos ⟨rfl, rfl, rfl, rfl⟩
  have hio : (obj.waiting c pba lvl).executeBlockIo c (BlockIo.answered c disk pba)
      = ((obj.answered c pba lvl).loadLvl c (disk pba)).map fun obj' =>
        (obj', { entry := none, buf := disk pba }) := by
    rw [← hmark]
    rfl
  show ((obj.waiting c pba lvl).executeBlockIo c (BlockIo.answered c disk pba)).map _ = _
  rw [hio, Option.map_map]
  rfl

/-- **A block is read**: it is asked for, block I/O takes the primitive and the
client serves it, and a call later the check has the block. In both rounds the
same child is the one at hand. -/
theorem Hosted.read (host : Hosted c sha disk f P e) {obj : TreeCheck Leaf} {io : BlockIo}
    {p : Pos nodesPerBlock} {pba lvl : ℕ} (hact : obj.Active c) (hfirst : obj.FirstAt p)
    (hidle : obj.Idle io)
    (hissue : obj.executeAt c sha (some p)
      = some { obj.waiting c pba lvl with genPrimDropped := false })
    (hwait : (obj.waiting c pba lvl).executeAt c sha (some p) = some (obj.waiting c pba lvl)) :
    Ends f P (e obj io) ((obj.answered c pba lvl).loadLvl c (disk pba)) fun obj' t =>
      ∃ io', io'.entry = none ∧ t = e obj' io' := by
  have hact' : (obj.waiting c pba lvl).Active c := ⟨hact.1, hact.2, hact.3, hact.4⟩
  have hissued : f (e obj io) = some (e (obj.waiting c pba lvl) (BlockIo.answered c disk pba)) := by
    rw [host.step _ _ _ _ hact hfirst (io.serves_of_none c hidle.entry) hissue hact.rootState,
      afterExecute_issued hidle.entry]
    rfl
  refine .step (host.running _ _ hact.rootState) hissued ?_
  have hstep := host.step _ (BlockIo.answered c disk pba) _ _ hact' hfirst
    (fun q hq => (Option.some.inj hq) ▸ rfl) hwait hact'.rootState
  rw [afterExecute_answered] at hstep
  cases hload : (obj.answered c pba lvl).loadLvl c (disk pba) with
  | none =>
    rw [hload] at hstep
    exact .raise (host.running _ _ hact'.rootState) hstep
  | some obj' =>
    rw [hload] at hstep
    exact .step (host.running _ _ hact'.rootState) hstep (.ret ⟨_, rfl, rfl⟩)

/-! ## Loops over the children of a node

The children of a node are checked one after the other. What each of them does
is a parameter of the loop, so that it serves for the leaves as for the inner
nodes. -/

/-- **A loop over the children on a level**: those in `l` are still to be
checked, the others are done, and what is above the level is as at its
beginning. -/
structure LoopAt {α : Type} (view : Levels Type1Node Leaf CheckState nodesPerBlock →
      Level α CheckState nodesPerBlock) (lvl : ℕ) (start : TreeCheck Leaf)
    (nodes : Fin nodesPerBlock → α) (l : List (Fin nodesPerBlock)) (n : ℕ)
    (obj : TreeCheck Leaf) (io : BlockIo) : Prop where
  /-- No primitive is on its way. -/
  idle : obj.Idle io
  /-- What is above the level is as at the beginning. -/
  kept : Kept lvl start obj
  /-- So many leaves are still to be found. -/
  count : obj.nrOfLeafs = n
  /-- The levels below are closed. -/
  closed : obj.Closed (lvl - 1)
  /-- The children are those of the node. -/
  children : (view obj.lvls).children = nodes
  /-- Those in the list are still to be checked. -/
  todo : ∀ j ∈ l, (view obj.lvls).childrenState j = .readBlock
  /-- The others are done. -/
  done : ∀ j : Fin nodesPerBlock, j.val ≤ start.maxChildIdx → j ∉ l →
    (view obj.lvls).childrenState j = .done
  /-- The list has the order of the children. -/
  sorted : l.Pairwise (· < ·)
  /-- It has children that count only. -/
  used : ∀ j ∈ l, j.val ≤ start.maxChildIdx

/-- What comes before the next child is done. -/
theorem LoopAt.before {α : Type} {view : Levels Type1Node Leaf CheckState nodesPerBlock →
      Level α CheckState nodesPerBlock} {lvl n : ℕ} {start obj : TreeCheck Leaf}
    {nodes : Fin nodesPerBlock → α} {i : Fin nodesPerBlock} {l : List (Fin nodesPerBlock)}
    {io : BlockIo} (h : LoopAt view lvl start nodes (i :: l) n obj io) (j : Fin nodesPerBlock)
    (hj : j < i) : ((view obj.lvls).childrenState j).isOpen = false := by
  have hused : j.val ≤ start.maxChildIdx :=
    le_trans (le_of_lt hj) (h.used i List.mem_cons_self)
  have hmem : j ∉ i :: l := fun hmem => by
    rcases List.mem_cons.mp hmem with rfl | hmem
    · exact lt_irrefl _ hj
    · exact lt_asymm hj ((List.pairwise_cons.mp h.sorted).1 j hmem)
  rw [h.done j hused hmem]
  rfl

/-- The next child is done as well. -/
theorem LoopAt.next {α : Type} {view : Levels Type1Node Leaf CheckState nodesPerBlock →
      Level α CheckState nodesPerBlock} {lvl n n' : ℕ} {start obj obj' : TreeCheck Leaf}
    {nodes : Fin nodesPerBlock → α} {i : Fin nodesPerBlock} {l : List (Fin nodesPerBlock)}
    {io io' : BlockIo} (h : LoopAt view lvl start nodes (i :: l) n obj io)
    (hidle : obj'.Idle io') (hkept : Kept lvl obj obj') (hcount : obj'.nrOfLeafs = n')
    (hclosed : obj'.Closed (lvl - 1))
    (hview : view obj'.lvls = { view obj.lvls with
      childrenState := Function.update (view obj.lvls).childrenState i .done }) :
    LoopAt view lvl start nodes l n' obj' io' where
  idle := hidle
  kept := h.kept.trans hkept
  count := hcount
  closed := hclosed
  children := by rw [hview]; exact h.children
  todo j hj := by
    have hne : j ≠ i := ((List.pairwise_cons.mp h.sorted).1 j hj).ne'
    rw [hview]
    show Function.update _ i _ j = _
    rw [Function.update_of_ne hne]
    exact h.todo j (List.mem_cons_of_mem i hj)
  done j hj hmem := by
    rw [hview]
    show Function.update _ i _ j = _
    by_cases hji : j = i
    · rw [hji, Function.update_self]
    · rw [Function.update_of_ne hji]
      refine h.done j hj fun hcons => ?_
      rcases List.mem_cons.mp hcons with rfl | hcons
      · exact hji rfl
      · exact hmem hcons
  sorted := (List.pairwise_cons.mp h.sorted).2
  used j hj := h.used j (List.mem_cons_of_mem i hj)

/-- What a check of one child means in a loop over the children of a node. -/
def ChildEnds (f : σ → Option σ) (P : σ → Prop) (e : TreeCheck Leaf → BlockIo → σ)
    (c : TreeChecker Leaf) {α : Type}
    (view : Levels Type1Node Leaf CheckState nodesPerBlock → Level α CheckState nodesPerBlock)
    (lvl m : ℕ) (check : ℕ → α → Option ℕ) : Prop :=
  ∀ start nodes i l n obj io, start.maxChildIdx = m → start.Active c →
    lvl ≤ start.maxLvlIdx → LoopAt view lvl start nodes (i :: l) n obj io →
    Ends f P (e obj io) (check n (nodes i)) fun n t => ∃ obj' io', t = e obj' io'
      ∧ LoopAt view lvl start nodes l n obj' io'

/-- **The loop over the children of a node**, by induction on those that are
left: it comes to the check of them in turn, and raises where one of them does.
-/
theorem loop_ends {α : Type} {view : Levels Type1Node Leaf CheckState nodesPerBlock →
      Level α CheckState nodesPerBlock} {lvl m n : ℕ} {check : ℕ → α → Option ℕ}
    (hchild : ChildEnds f P e c view lvl m check) {start obj : TreeCheck Leaf}
    {nodes : Fin nodesPerBlock → α} {l : List (Fin nodesPerBlock)} {io : BlockIo}
    (hm : start.maxChildIdx = m) (hact : start.Active c) (hlvl : lvl ≤ start.maxLvlIdx)
    (h : LoopAt view lvl start nodes l n obj io) :
    Ends f P (e obj io) (l.foldlM (fun n i => check n (nodes i)) n) fun n t =>
      ∃ obj' io', t = e obj' io' ∧ LoopAt view lvl start nodes [] n obj' io' := by
  refine Ends.foldlM (Q := fun l n t => ∃ obj' io', t = e obj' io'
    ∧ LoopAt view lvl start nodes l n obj' io') ?_ l ⟨obj, io, rfl, h⟩
  rintro i l n t ⟨obj', io', rfl, h'⟩
  exact hchild start nodes i l n obj' io' hm hact hlvl h'

/-! ## A node

A node is read, its children are checked, and then its hash is compared with the
one in its entry. The hash comes last: a node is only accepted after everything
below it was. -/

/-- An inner child, or the root. -/
def Inner : Pos nodesPerBlock → Prop
  | .leaf _ => False
  | _ => True

/-- A place that is not a leaf is worked on as an inner child. -/
theorem executeAt_inner {obj : TreeCheck Leaf} {p : Pos nodesPerBlock} (hp : Inner p)
    (hact : obj.Active c) : obj.executeAt c sha (some p) = obj.executeInnerChild c sha p := by
  cases p with
  | leaf i => exact hp.elim
  | inner lvl i => rfl
  | root => exact if_pos hact.maxLevel

section Branches

variable (sha) {obj : TreeCheck Leaf} {p : Pos nodesPerBlock}

/-- An entry that is not in use must lie beyond the number of leaves. -/
theorem executeInnerChild_unused (hstate : obj.lvls.stateAt p = .readBlock)
    (hvalid : ¬ (obj.childAt p).Valid) : obj.executeInnerChild c sha p
      = if obj.nrOfLeafs = 0 then some (obj.setState p .done) else none := by
  rw [executeInnerChild, hstate]
  exact if_pos hvalid

/-- The block of a child in use is asked for. -/
theorem executeInnerChild_issue (hstate : obj.lvls.stateAt p = .readBlock)
    (hvalid : (obj.childAt p).Valid) (hprim : obj.genPrim = none) :
    obj.executeInnerChild c sha p = some {
      obj.waiting c (obj.childAt p).pba (obj.lvlAt p - 1) with genPrimDropped := false } := by
  rw [executeInnerChild, hstate]
  simp only [hvalid, not_true_eq_false, if_false, hprim]
  rfl

/-- Until the block is there nothing happens. -/
theorem executeInnerChild_wait (hstate : obj.lvls.stateAt p = .readBlock)
    (hvalid : (obj.childAt p).Valid)
    (hprim : obj.genPrim = some { tag := c.tag, blockNumber := (obj.childAt p).pba }) :
    obj.executeInnerChild c sha p = some obj := by
  rw [executeInnerChild, hstate]
  simp only [hvalid, not_true_eq_false, if_false, hprim, ne_eq, if_true]

/-- With the block there, its entries are put on the level below. -/
theorem executeInnerChild_accept (hstate : obj.lvls.stateAt p = .readBlock)
    (hvalid : (obj.childAt p).Valid) (hprim : obj.genPrim
      = some { tag := c.tag, blockNumber := (obj.childAt p).pba, success := true }) :
    obj.executeInnerChild c sha p = some ({
      obj with
      lvls := obj.lvls.resetStates (obj.lvlAt p - 1) .readBlock
      genPrimDropped := false
      genPrim := none }.setState p .checkHash) := by
  rw [executeInnerChild, hstate]
  simp only [hvalid, not_true_eq_false, if_false, hprim, ne_eq, Bool.true_eq_false]

/-- A node whose children are done is accepted if its hash is right, or if its
generation is zero. -/
theorem executeInnerChild_hash (hstate : obj.lvls.stateAt p = .checkHash) :
    obj.executeInnerChild c sha p
      = if (obj.childAt p).gen = 0
          ∨ obj.lvlHash c.kind sha (obj.lvlAt p - 1) = some (obj.childAt p).hash then
        some (obj.setState p .done)
      else none := by
  rw [executeInnerChild, hstate]

end Branches

/-- The check after the block of a node was taken over. -/
def TreeCheck.opened (c : TreeChecker Leaf) (obj : TreeCheck Leaf) (p : Pos nodesPerBlock)
    (lvls : Levels Type1Node Leaf CheckState nodesPerBlock) : TreeCheck Leaf :=
  { obj.answered c (obj.childAt p).pba (obj.lvlAt p - 1) with
    lvls := (lvls.resetStates (obj.lvlAt p - 1) .readBlock).setState p .checkHash
    genPrimDropped := false
    genPrim := none }

/-- **A node is read.** The node block is put on the level below, whose children
are all to be checked. -/
theorem Hosted.open (host : Hosted c sha disk f P e) {obj : TreeCheck Leaf} {io : BlockIo}
    {p : Pos nodesPerBlock} (hp : Inner p) (hact : obj.Active c) (hfirst : obj.FirstAt p)
    (hstate : obj.lvls.stateAt p = .readBlock) (hidle : obj.Idle io)
    (hvalid : (obj.childAt p).Valid) {β : Type} {nodes : Option β}
    {put : β → Levels Type1Node Leaf CheckState nodesPerBlock}
    (hload : (obj.answered c (obj.childAt p).pba (obj.lvlAt p - 1)).loadLvl c
        (disk (obj.childAt p).pba)
      = nodes.map fun b => { obj.answered c (obj.childAt p).pba (obj.lvlAt p - 1) with
        lvls := put b })
    (hput : ∀ b, ({ obj with lvls := put b }).FirstAt p ∧ (put b).stateAt p = .readBlock
      ∧ ({ obj with lvls := put b }).childAt p = obj.childAt p
      ∧ (put b).rootState = obj.lvls.rootState
      ∧ (obj.opened c p (put b)).lvls.rootState ≠ .done) :
    Ends f P (e obj io) nodes fun b t => ∃ io', io'.entry = none
      ∧ t = e (obj.opened c p (put b)) io' := by
  have hact' : (obj.waiting c (obj.childAt p).pba (obj.lvlAt p - 1)).Active c :=
    ⟨hact.1, hact.2, hact.3, hact.4⟩
  have hchild' : (obj.waiting c (obj.childAt p).pba (obj.lvlAt p - 1)).childAt p
      = obj.childAt p := by cases p <;> rfl
  have hissue := (executeAt_inner hp hact).trans
    (executeInnerChild_issue sha hstate hvalid hidle.genPrim)
  have hwait := (executeAt_inner hp hact').trans
    (executeInnerChild_wait sha hstate (hchild'.symm ▸ hvalid)
      (hchild'.symm ▸ rfl))
  have hread := host.read hact hfirst hidle hissue hwait
  rw [hload] at hread
  refine hread.of_map.andThen ?_
  rintro b t ⟨io', hio', rfl⟩
  obtain ⟨hfirst', hstate', hchild', hroot', hopened⟩ := hput b
  let obj₃ : TreeCheck Leaf := { obj.answered c (obj.childAt p).pba (obj.lvlAt p - 1) with
    lvls := put b }
  have hact₃ : obj₃.Active c := ⟨hact.1, hact.2, hact.3, by
    show (put b).rootState ≠ _
    rw [hroot']
    exact hact.4⟩
  have hchild₃ : obj₃.childAt p = obj.childAt p := by
    rw [← hchild']
    cases p <;> rfl
  have hlvl₃ : obj₃.lvlAt p = obj.lvlAt p := by cases p <;> rfl
  have haccept := (executeAt_inner hp hact₃).trans
    (executeInnerChild_accept sha hstate' (hchild₃.symm ▸ hvalid)
      (hchild₃.symm ▸ rfl))
  rw [hlvl₃] at haccept
  exact ⟨_, host.quiet hact₃ hfirst' haccept hopened ⟨rfl, hio'⟩, io', hio', rfl⟩

/-- Reading a node does not complete the root. -/
theorem rootState_opened {obj : TreeCheck Leaf} (hact : obj.Active c) (p : Pos nodesPerBlock)
    {lvls : Levels Type1Node Leaf CheckState nodesPerBlock}
    (h : lvls.rootState = obj.lvls.rootState) : (obj.opened c p lvls).lvls.rootState ≠ .done := by
  cases p with
  | leaf i =>
    show (lvls.resetStates _ _).rootState ≠ _
    rw [Levels.resetStates_rootState, h]
    exact hact.rootState
  | inner lvl i =>
    show (lvls.resetStates _ _).rootState ≠ _
    rw [Levels.resetStates_rootState, h]
    exact hact.rootState
  | root => exact nofun

/-- What a visit of the children of a node leaves: the node is to be hashed. -/
structure ChildrenChecked (c : TreeChecker Leaf) (sha : BlockData → Hash) (p : Pos nodesPerBlock)
    (lvl : ℕ) (obj : TreeCheck Leaf) (r : ℕ × Option Hash) (obj' : TreeCheck Leaf)
    (io' : BlockIo) : Prop where
  /-- No primitive is on its way. -/
  idle : obj'.Idle io'
  /-- The leaves below the node were counted. -/
  count : obj'.nrOfLeafs = r.1
  /-- What is above the level is as it was, but for the state of the node. -/
  kept : Kept lvl (obj.setState p .checkHash) obj'
  /-- The level is closed. -/
  closed : obj'.Closed lvl
  /-- The hash of the children is the one of the visit. -/
  hash : obj'.lvlHash c.kind sha lvl = r.2

/-- What a visit of the children of a node comes to, for all nodes of a level. -/
def NodeEnds (c : TreeChecker Leaf) (sha : BlockData → Hash) (f : σ → Option σ) (P : σ → Prop)
    (e : TreeCheck Leaf → BlockIo → σ) (lvl m : ℕ)
    (check : ℕ → Type1Node → Option (ℕ × Option Hash)) : Prop :=
  ∀ p obj io, Inner p → obj.Active c → obj.maxChildIdx = m → obj.lvlAt p = lvl + 1 →
    obj.FirstAt p → obj.lvls.stateAt p = .readBlock → obj.Idle io → (obj.childAt p).Valid →
    Ends f P (e obj io) (check obj.nrOfLeafs (obj.childAt p)) fun r t => ∃ obj' io',
      t = e obj' io' ∧ ChildrenChecked c sha p lvl obj r obj' io'

/-- A node that was found has its level within the tree, and the levels below
its own are done. -/
theorem TreeCheck.FirstAt.level {obj : TreeCheck Leaf} {p : Pos nodesPerBlock} (hp : Inner p)
    (h : obj.FirstAt p) {lvl : ℕ} (hlvl : obj.lvlAt p = lvl + 1) :
    lvl ≤ obj.maxLvlIdx ∧ obj.Closed lvl := by
  cases p with
  | leaf i => exact hp.elim
  | inner k i =>
    obtain ⟨-, hmax, hclosed, -⟩ := h
    obtain rfl : k = lvl + 1 := hlvl
    exact ⟨by omega, hclosed⟩
  | root =>
    obtain ⟨-, hclosed, -⟩ := h
    obtain rfl : obj.maxLvlIdx = lvl := Nat.succ.inj hlvl
    exact ⟨le_refl _, hclosed⟩

/-- A node that is to be hashed is not yet the end of the check. -/
theorem TreeCheck.Active.setState {obj : TreeCheck Leaf} (hact : obj.Active c)
    (p : Pos nodesPerBlock) :
    (obj.setState p .checkHash).Active c where
  submPrim := hact.submPrim
  minLevel := hact.minLevel
  maxLevel := hact.maxLevel
  rootState := by
    cases p with
    | leaf i => exact hact.rootState
    | inner lvl i => exact hact.rootState
    | root => exact nofun

/-- **The loop over the children begins** with all of them to be checked. -/
theorem loopAt_opened {α : Type} (view : Levels Type1Node Leaf CheckState nodesPerBlock →
      Level α CheckState nodesPerBlock) {lvl : ℕ} {obj : TreeCheck Leaf} {p : Pos nodesPerBlock}
    {put : Levels Type1Node Leaf CheckState nodesPerBlock} (nodes : Fin nodesPerBlock → α)
    {io : BlockIo} (hlvl : obj.lvlAt p = lvl + 1) (hput : Levels.SameAbove lvl obj.lvls put)
    (hview : view ((put.resetStates lvl .readBlock).setState p .checkHash)
      = { children := nodes, childrenState := fun _ => .readBlock })
    (hclosed : (obj.opened c p put).Closed (lvl - 1)) (hio : io.entry = none) :
    LoopAt view lvl (obj.setState p .checkHash) nodes (childIdxs nodesPerBlock obj.maxChildIdx)
      obj.nrOfLeafs (obj.opened c p put) io := by
  have hsub : obj.lvlAt p - 1 = lvl := by rw [hlvl, Nat.add_sub_cancel]
  have hlvls : (obj.opened c p put).lvls
      = (put.resetStates lvl .readBlock).setState p .checkHash := by rw [← hsub]; rfl
  have hview' : view (obj.opened c p put).lvls
      = { children := nodes, childrenState := fun _ => .readBlock } := by rw [hlvls, hview]
  refine ⟨⟨rfl, hio⟩, ⟨?_, rfl, rfl, rfl⟩, rfl, hclosed, by rw [hview'], fun j _ => by rw [hview'],
    fun j hj hmem => absurd (mem_childIdxs.mpr hj) hmem, pairwise_childIdxs _ _,
    fun j hj => mem_childIdxs.mp hj⟩
  rw [hlvls]
  exact (hput.trans (.resetStates put lvl _)).setState p _

/-- **The lowest nodes**, whose children are leaves. What a leaf comes to is the
assumption. -/
theorem lowest_ends (host : Hosted c sha disk f P e) {m : ℕ} {leaf : ℕ → Leaf → Option ℕ}
    (hleaf : ChildEnds f P e c (fun s => s.lowest) 1 m leaf) :
    NodeEnds c sha f P e 1 m (checkLevel c.kind sha disk m leaf 0) := by
  intro p obj io hp hact hm hlvl hfirst hstate hidle hvalid
  obtain ⟨hle, -⟩ := FirstAt.level hp hfirst hlvl
  have hload : (obj.answered c (obj.childAt p).pba (obj.lvlAt p - 1)).loadLvl c
      (disk (obj.childAt p).pba) = (c.kind.fromBlockData (disk (obj.childAt p).pba)).map
        fun nodes => { obj.answered c (obj.childAt p).pba (obj.lvlAt p - 1) with
          lvls := obj.lvls.putLowest nodes } := by
    rw [hlvl]
    rfl
  have hopen := host.open hp hact hfirst hstate hidle hvalid hload fun nodes =>
    ⟨hfirst.congr rfl (fun _ => rfl) rfl, by rw [← hstate]; cases p <;> trivial,
      by cases p <;> rfl, rfl, rootState_opened hact p rfl⟩
  rw [checkLevel, checkChildren]
  refine hopen.bind ?_
  rintro nodes t ⟨io', hio', rfl⟩
  have hstart := loopAt_opened (c := c) (fun s => s.lowest) nodes hlvl
    (.putLowest obj.lvls 1 nodes) (by cases p <;> first | exact hp.elim | rfl)
    ⟨fun h => absurd h (by simp), fun k hk hk' => by omega⟩ hio'
  rw [hm] at hstart
  refine (loop_ends hleaf (show (obj.setState p .checkHash).maxChildIdx = m from hm)
    (hact.setState p) hle hstart).bind ?_
  rintro n t ⟨obj', io'', rfl, hloop⟩
  refine .ret ⟨obj', io'', rfl, hloop.idle, hloop.count, hloop.kept, ⟨fun _ i hi => ?_,
    fun k hk hk' => by omega⟩, ?_⟩
  · rw [hloop.done i (by rw [← hloop.kept.maxChildIdx]; exact hi) List.not_mem_nil]
    rfl
  · show c.kind.hashOf sha obj'.lvls.lowest.children = _
    rw [hloop.children]

/-- **The nodes of a level above**, whose children are nodes. What these come to
is the assumption. -/
theorem upper_ends (host : Hosted c sha disk f P e) {m lvl : ℕ} {leaf : ℕ → Leaf → Option ℕ}
    (hchild : ChildEnds f P e c (fun s => s.upper (lvl + 2)) (lvl + 2) m
      (checkInner (checkLevel c.kind sha disk m leaf lvl))) :
    NodeEnds c sha f P e (lvl + 2) m (checkLevel c.kind sha disk m leaf (lvl + 1)) := by
  intro p obj io hp hact hm hlvl hfirst hstate hidle hvalid
  obtain ⟨hle, hclosed⟩ := FirstAt.level hp hfirst hlvl
  have hload : (obj.answered c (obj.childAt p).pba (obj.lvlAt p - 1)).loadLvl c
      (disk (obj.childAt p).pba) = (NodeKind.type1.fromBlockData (disk (obj.childAt p).pba)).map
        fun nodes => { obj.answered c (obj.childAt p).pba (obj.lvlAt p - 1) with
          lvls := obj.lvls.putUpper (lvl + 2) nodes } := by
    rw [hlvl]
    rfl
  have hopen := host.open hp hact hfirst hstate hidle hvalid hload fun nodes =>
    ⟨hfirst.congr rfl (fun k => Levels.putUpper_childrenState _ _ k _) rfl, by
      rw [← hstate]
      cases p with
      | leaf i => rfl
      | inner k i => exact congrFun (Levels.putUpper_childrenState _ _ k _) i
      | root => rfl, by
      cases p with
      | leaf i => rfl
      | inner k i =>
        have hne : k ≠ lvl + 2 := by
          obtain rfl : k = lvl + 3 := hlvl
          omega
        show ((obj.lvls.putUpper (lvl + 2) nodes).upper k).children i = _
        rw [Levels.putUpper_upper_of_ne _ hne]
        rfl
      | root => rfl, rfl, rootState_opened hact p rfl⟩
  rw [checkLevel, checkChildren]
  refine hopen.bind ?_
  rintro nodes t ⟨io', hio', rfl⟩
  have hlvls : (obj.opened c p (obj.lvls.putUpper (lvl + 2) nodes)).lvls
      = ((obj.lvls.putUpper (lvl + 2) nodes).resetStates (lvl + 2) .readBlock).setState p
        .checkHash := by
    show ((obj.lvls.putUpper _ nodes).resetStates (obj.lvlAt p - 1) _).setState p _ = _
    rw [hlvl, Nat.add_sub_cancel]
  have hup : ∀ k ≤ lvl + 2,
      (obj.opened c p (obj.lvls.putUpper (lvl + 2) nodes)).lvls.upper k
        = ((obj.lvls.putUpper (lvl + 2) nodes).resetStates (lvl + 2) .readBlock).upper k := by
    intro k hk
    rw [hlvls]
    cases p with
    | leaf i => rfl
    | inner j i =>
      obtain rfl : j = lvl + 3 := hlvl
      exact Levels.setState_inner_upper_of_ne _ (by omega) i _
    | root => rfl
  have hlow : (obj.opened c p (obj.lvls.putUpper (lvl + 2) nodes)).lvls.lowest
      = obj.lvls.lowest := by
    rw [hlvls]
    cases p with
    | leaf i => exact hp.elim
    | inner j i => exact Levels.resetStates_lowest_of_lt _ (by omega) _
    | root => exact Levels.resetStates_lowest_of_lt _ (by omega) _
  have hclosed' : (obj.opened c p (obj.lvls.putUpper (lvl + 2) nodes)).Closed (lvl + 2 - 1) := by
    refine (hclosed.mono (Nat.sub_le _ 1)).congr (fun _ => by rw [hlow]) fun k hk hkl => ?_
    rw [hup k (by omega), Levels.resetStates_upper_of_ne _ (by omega),
      Levels.putUpper_childrenState]
  have hstart := loopAt_opened (c := c) (fun s => s.upper (lvl + 2)) nodes hlvl
    (.putUpper obj.lvls (lvl + 2) nodes)
    (by
      rw [← hlvls]
      show (obj.opened c p _).lvls.upper (lvl + 2) = _
      rw [hup _ (le_refl _)]
      exact Levels.resetStates_putUpper _ (by omega) nodes _) hclosed' hio'
  rw [hm] at hstart
  refine (loop_ends hchild (show (obj.setState p .checkHash).maxChildIdx = m from hm)
    (hact.setState p) hle hstart).bind ?_
  rintro n t ⟨obj', io'', rfl, hloop⟩
  have hdone : ∀ i : Fin nodesPerBlock, i.val ≤ obj'.maxChildIdx →
      ((obj'.lvls.upper (lvl + 2)).childrenState i).isOpen = false := fun i hi => by
    rw [hloop.done i (by rw [← hloop.kept.maxChildIdx]; exact hi) List.not_mem_nil]
    rfl
  refine .ret ⟨obj', io'', rfl, hloop.idle, hloop.count, hloop.kept,
    hloop.closed.succ (Nat.succ_pos lvl) hdone, ?_⟩
  show NodeKind.type1.hashOf sha (obj'.lvls.upper (lvl + 2)).children = _
  rw [hloop.children]

/-- **A node that is a child**, in the loop over the children of its parent. -/
theorem child_ends (host : Hosted c sha disk f P e) {m lvl : ℕ} {leaf : ℕ → Leaf → Option ℕ}
    (hnode : NodeEnds c sha f P e (lvl + 1) m (checkLevel c.kind sha disk m leaf lvl)) :
    ChildEnds f P e c (fun s => s.upper (lvl + 2)) (lvl + 2) m
      (checkNode c.kind sha disk m leaf lvl) := by
  intro start nodes i l n obj io hm hact hle h
  have hact' : obj.Active c := hact.of_kept h.kept
  have hmax : lvl + 2 ≤ obj.maxLvlIdx := by rw [h.kept.maxLvlIdx]; exact hle
  have hi : i.val ≤ obj.maxChildIdx := by
    rw [h.kept.maxChildIdx]
    exact h.used i List.mem_cons_self
  have hstate : obj.lvls.stateAt (.inner (lvl + 2) i) = .readBlock := h.todo i List.mem_cons_self
  have hopen : CheckState.isOpen (obj.lvls.stateAt (.inner (lvl + 2) i)) = true := by
    rw [hstate]
    rfl
  have hfirst : obj.FirstAt (.inner (lvl + 2) i) :=
    ⟨by omega, hmax, h.closed, hi, hopen, h.before⟩
  have hchild : obj.childAt (.inner (lvl + 2) i) = nodes i := by
    rw [← h.children]
    rfl
  rw [checkNode, checkInner]
  by_cases hvalid : (nodes i).Valid
  · rw [if_neg (not_not.mpr hvalid)]
    have hends := hnode (.inner (lvl + 2) i) obj io trivial hact'
      (h.kept.maxChildIdx.trans hm) rfl hfirst hstate h.idle (hchild.symm ▸ hvalid)
    rw [hchild, h.count] at hends
    refine hends.bind ?_
    rintro r t ⟨obj', io', rfl, hc⟩
    have hupper : obj'.lvls.upper (lvl + 2) = { obj.lvls.upper (lvl + 2) with
        childrenState := Function.update (obj.lvls.upper (lvl + 2)).childrenState i .checkHash } :=
      (hc.kept.lvls.upper _ (by omega) (by omega)).trans (Levels.upper_setState _ _ _ _)
    have hstate' : obj'.lvls.stateAt (.inner (lvl + 2) i) = .checkHash := by
      show (obj'.lvls.upper (lvl + 2)).childrenState i = _
      rw [hupper]
      exact Function.update_self i _ _
    have hopen' : CheckState.isOpen (obj'.lvls.stateAt (.inner (lvl + 2) i)) = true := by
      rw [hstate']
      rfl
    have hact'' : obj'.Active c := (hact'.setState _).of_kept hc.kept
    have hfirst' : obj'.FirstAt (.inner (lvl + 2) i) := by
      refine ⟨by omega, ?_, hc.closed, ?_, hopen', fun j hj => ?_⟩
      · rw [hc.kept.maxLvlIdx]; exact hmax
      · rw [hc.kept.maxChildIdx]; exact hi
      · rw [hupper]
        show CheckState.isOpen
          (Function.update (obj.lvls.upper (lvl + 2)).childrenState i .checkHash j) = false
        rw [Function.update_of_ne hj.ne]
        exact h.before j hj
    have hchild' : obj'.childAt (.inner (lvl + 2) i) = nodes i := by
      show (obj'.lvls.upper (lvl + 2)).children i = _
      rw [hupper, ← h.children]
    have hexec : obj'.executeAt c sha (some (.inner (lvl + 2) i)) = _ :=
      executeInnerChild_hash sha hstate'
    rw [hchild', show obj'.lvlAt (.inner (lvl + 2) i) - 1 = lvl + 1 from rfl, hc.hash] at hexec
    by_cases hhash : (nodes i).gen = 0 ∨ r.2 = some (nodes i).hash
    · rw [if_pos hhash] at hexec ⊢
      refine .of_leads (host.quiet hact'' hfirst' hexec hact''.rootState
        ⟨hc.idle.genPrim, hc.idle.entry⟩) (.ret ⟨_, io', rfl, ?_⟩)
      refine h.next ⟨hc.idle.genPrim, hc.idle.entry⟩ ⟨?_, hc.kept.maxLvlIdx, hc.kept.maxChildIdx,
        hc.kept.submPrim⟩ hc.count ?_ ?_
      · exact (Levels.SameAbove.setState_inner obj.lvls _ i _).trans
          ((hc.kept.lvls.mono (by omega)).trans (.setState_inner _ _ i _))
      · exact hc.closed.setState_inner (by omega) i _
      · show (obj'.lvls.setState (.inner (lvl + 2) i) .done).upper (lvl + 2) = _
        rw [Levels.upper_setState, hupper]
        show Level.mk _ (Function.update (Function.update _ i _) i _) = _
        rw [Function.update_idem]
    · rw [if_neg hhash] at hexec ⊢
      exact .raise (host.running _ _ hact''.rootState) (host.raise _ _ _ hact'' hfirst' hexec)
  · rw [if_pos hvalid]
    have hexec : obj.executeAt c sha (some (.inner (lvl + 2) i)) = _ :=
      executeInnerChild_unused sha hstate (hchild.symm ▸ hvalid)
    rw [h.count] at hexec
    by_cases hn : n = 0
    · rw [if_pos hn] at hexec ⊢
      refine .of_leads (host.quiet hact' hfirst hexec hact'.rootState
        ⟨h.idle.genPrim, h.idle.entry⟩) (.ret ⟨_, io, rfl, ?_⟩)
      refine h.next ⟨h.idle.genPrim, h.idle.entry⟩ ⟨.setState_inner _ _ i _, rfl, rfl, rfl⟩
        (h.count.trans hn) ?_ (Levels.upper_setState _ _ _ _)
      exact h.closed.setState_inner (by omega) i _
    · rw [if_neg hn] at hexec ⊢
      exact .raise (host.running _ _ hact'.rootState) (host.raise _ _ _ hact' hfirst hexec)

/-- **The visit of the children of a node**, for every level, by induction on
it. -/
theorem node_ends (host : Hosted c sha disk f P e) {m : ℕ} {leaf : ℕ → Leaf → Option ℕ}
    (hleaf : ChildEnds f P e c (fun s => s.lowest) 1 m leaf) (lvl : ℕ) :
    NodeEnds c sha f P e (lvl + 1) m (checkLevel c.kind sha disk m leaf lvl) := by
  induction lvl with
  | zero => exact lowest_ends host hleaf
  | succ lvl ih => exact upper_ends host (child_ends host ih)

end

/-! ## The root

The root is a child without a parent: its entry is the one that was submitted.
When it is done, the next call completes the primitive. -/

section

variable {c : TreeChecker Leaf} {sha : BlockData → Hash} {disk : Disk} {f : σ → Option σ}
  {P : σ → Prop} {e : TreeCheck Leaf → BlockIo → σ}

/-- The check is one call of `Execute` away from its end, which will complete
the primitive `prim` for the tree with the root `root`. -/
structure Finishing (c : TreeChecker Leaf) (sha : BlockData → Hash) (root : Type1Node)
    (prim : Option CheckPrim) (obj : TreeCheck Leaf) (io : BlockIo) (obj' : TreeCheck Leaf) :
    Prop where
  /-- The check has work to do. -/
  active : obj.Active c
  /-- The root is all that is open. -/
  firstAt : obj.FirstAt .root
  /-- No primitive is on its way. -/
  idle : obj.Idle io
  /-- The next call ends the check. -/
  execute : obj.executeAt c sha (some .root) = some obj'
  /-- It leaves no primitive behind. -/
  idle' : obj'.Idle io
  /-- The root is done then. -/
  rootState : obj'.lvls.rootState = .done
  /-- The root is still the same entry. -/
  root : obj'.lvls.root = root
  /-- The primitive has its answer. -/
  submPrim : obj'.submPrim = prim

/-- **The check of a tree** comes to its last call or raises. -/
theorem root_ends (host : Hosted c sha disk f P e) {leaf : ℕ → Leaf → Option ℕ}
    {obj : TreeCheck Leaf} {io : BlockIo} {lvl : ℕ}
    (hleaf : ChildEnds f P e c (fun s => s.lowest) 1 obj.maxChildIdx leaf)
    (hact : obj.Active c) (hmax : obj.maxLvlIdx = lvl + 1) (hfirst : obj.FirstAt .root)
    (hstate : obj.lvls.rootState = .readBlock) (hidle : obj.Idle io) :
    Ends f P (e obj io)
      (checkNode c.kind sha disk obj.maxChildIdx leaf lvl obj.nrOfLeafs obj.lvls.root) fun _ t =>
      ∃ obj' io' obj'', t = e obj' io'
        ∧ Finishing c sha obj.lvls.root obj.submPrim obj' io' obj'' := by
  have hlvl : obj.lvlAt .root = lvl + 1 + 1 := congrArg (· + 1) hmax
  rw [checkNode, checkInner]
  by_cases hvalid : obj.lvls.root.Valid
  · rw [if_neg (not_not.mpr hvalid)]
    refine (node_ends host hleaf lvl .root obj io trivial hact rfl hlvl hfirst hstate hidle
      hvalid).bind ?_
    rintro r t ⟨obj', io', rfl, hc⟩
    have hact' : obj'.Active c := (hact.setState .root).of_kept hc.kept
    have hstate' : obj'.lvls.stateAt .root = .checkHash := hc.kept.lvls.rootState
    have hroot : obj'.lvls.root = obj.lvls.root := hc.kept.lvls.root
    have hmax' : obj'.maxLvlIdx = lvl + 1 := hc.kept.maxLvlIdx.trans hmax
    have hfirst' : obj'.FirstAt .root :=
      ⟨by omega, by rw [hmax']; exact hc.closed, by rw [hc.kept.lvls.rootState]; rfl⟩
    have hexec := (executeAt_inner (p := .root) trivial hact').trans
      (executeInnerChild_hash sha hstate')
    rw [show obj'.lvlAt .root - 1 = lvl + 1 from hmax', hc.hash,
      show obj'.childAt .root = obj.lvls.root from hroot] at hexec
    by_cases hhash : obj.lvls.root.gen = 0 ∨ r.2 = some obj.lvls.root.hash
    · rw [if_pos hhash] at hexec ⊢
      exact .ret ⟨obj', io', _, rfl, hact', hfirst', hc.idle, hexec, ⟨hc.idle.genPrim,
        hc.idle.entry⟩, rfl, hroot, hc.kept.submPrim⟩
    · rw [if_neg hhash] at hexec ⊢
      exact .raise (host.running _ _ hact'.rootState) (host.raise _ _ _ hact' hfirst' hexec)
  · rw [if_pos hvalid]
    have hexec := (executeAt_inner (p := .root) trivial hact).trans
      (executeInnerChild_unused sha (p := .root) hstate hvalid)
    by_cases hn : obj.nrOfLeafs = 0
    · rw [if_pos hn] at hexec ⊢
      exact .ret ⟨obj, io, _, rfl, hact, hfirst, hidle, hexec, ⟨hidle.genPrim, hidle.entry⟩, rfl,
        rfl, rfl⟩
    · rw [if_neg hn] at hexec ⊢
      exact .raise (host.running _ _ hact.rootState) (host.raise _ _ _ hact hfirst hexec)

end

/-! ## A leaf

The two modules differ here. In both, the leaves beyond the number that is
recorded for the tree have to be unused. -/

section

variable {sha : BlockData → Hash} {disk : Disk} {f : σ → Option σ} {P : σ → Prop}

/-- The next leaf is the first place that is open. -/
theorem LoopAt.firstAt_leaf {lvl n : ℕ} {start obj : TreeCheck Leaf}
    {nodes : Fin nodesPerBlock → Leaf} {i : Fin nodesPerBlock} {l : List (Fin nodesPerBlock)}
    {io : BlockIo} (h : LoopAt (fun s => s.lowest) lvl start nodes (i :: l) n obj io) :
    obj.FirstAt (.leaf i) := by
  refine ⟨?_, ?_, h.before⟩
  · rw [h.kept.maxChildIdx]
    exact h.used i List.mem_cons_self
  · rw [show obj.lvls.lowest.childrenState i = _ from h.todo i List.mem_cons_self]
    rfl

/-- A leaf that is done. -/
theorem LoopAt.next_leaf {n n' : ℕ} {start obj obj' : TreeCheck Leaf}
    {nodes : Fin nodesPerBlock → Leaf} {i : Fin nodesPerBlock} {l : List (Fin nodesPerBlock)}
    {io io' : BlockIo} (h : LoopAt (fun s => s.lowest) 1 start nodes (i :: l) n obj io)
    (hidle : obj'.Idle io') (hlvls : obj'.lvls = obj.lvls.setState (.leaf i) .done)
    (hmax : obj'.maxLvlIdx = obj.maxLvlIdx) (hm : obj'.maxChildIdx = obj.maxChildIdx)
    (hsubm : obj'.submPrim = obj.submPrim) (hcount : obj'.nrOfLeafs = n') :
    LoopAt (fun s => s.lowest) 1 start nodes l n' obj' io' := by
  refine h.next hidle ⟨?_, hmax, hm, hsubm⟩ hcount
    ⟨fun h1 => absurd h1 (by simp), fun k hk hk' => by omega⟩ ?_
  · rw [hlvls]
    exact .setState_leaf obj.lvls 1 i _
  · rw [hlvls]
    rfl

/-- A leaf beyond the number that is recorded. -/
theorem unused_leaf_ends [DecidableEq Leaf] {c : TreeChecker Leaf}
    {e : TreeCheck Leaf → BlockIo → σ} (host : Hosted c sha disk f P e)
    {start obj : TreeCheck Leaf} {nodes : Fin nodesPerBlock → Leaf} {i : Fin nodesPerBlock}
    {l : List (Fin nodesPerBlock)} {io : BlockIo}
    (hact : obj.Active c) (h : LoopAt (fun s => s.lowest) 1 start nodes (i :: l) 0 obj io)
    (hexec : obj.executeAt c sha (some (.leaf i)) = if nodes i ≠ c.kind.invalid then none
      else some (obj.setState (.leaf i) .done)) :
    Ends f P (e obj io) (if nodes i = c.kind.invalid then some 0 else none) fun n t =>
      ∃ obj' io', t = e obj' io' ∧ LoopAt (fun s => s.lowest) 1 start nodes l n obj' io' := by
  by_cases hinv : nodes i = c.kind.invalid
  · rw [if_neg (not_not.mpr hinv)] at hexec
    rw [if_pos hinv]
    exact .of_leads (host.quiet hact h.firstAt_leaf hexec hact.rootState
      ⟨h.idle.genPrim, h.idle.entry⟩) (.ret ⟨_, io, rfl, h.next_leaf
        ⟨h.idle.genPrim, h.idle.entry⟩ rfl rfl rfl rfl h.count⟩)
  · rw [if_pos hinv] at hexec
    rw [if_neg hinv]
    exact .raise (host.running _ _ hact.rootState) (host.raise _ _ _ hact h.firstAt_leaf hexec)

/-- **A leaf of the free tree**: it is only counted. -/
theorem ft_leaf_ends {e : TreeCheck Type2Node → BlockIo → σ}
    (host : Hosted FtCheck.checker sha disk f P e) (m : ℕ) :
    ChildEnds f P e FtCheck.checker (fun s => s.lowest) 1 m
      (checkLeaf NodeKind.type2 fun _ => True) := by
  intro start nodes i l n obj io hm hact hle h
  have hact' : obj.Active FtCheck.checker := hact.of_kept h.kept
  have hstate : obj.lvls.lowest.childrenState i = .readBlock := h.todo i List.mem_cons_self
  have hchild : obj.lvls.lowest.children i = nodes i := congrFun h.children i
  have hexec : obj.executeAt FtCheck.checker sha (some (.leaf i))
      = FtCheck.executeLeafChild sha obj i := rfl
  rw [FtCheck.executeLeafChild, hstate, hchild, h.count] at hexec
  rw [checkLeaf]
  by_cases hn : n = 0
  · subst hn
    exact unused_leaf_ends host hact' h hexec
  · simp only [hn, if_false] at hexec
    rw [if_neg hn, if_pos trivial]
    exact .of_leads (host.quiet hact' h.firstAt_leaf hexec hact'.rootState
      ⟨h.idle.genPrim, h.idle.entry⟩) (.ret ⟨_, io, rfl, h.next_leaf
        ⟨h.idle.genPrim, h.idle.entry⟩ rfl rfl rfl rfl rfl⟩)

section Branches

variable {obj : TreeCheck Type1Node} {i : Fin nodesPerBlock}

/-- Until the data block is there nothing happens. -/
theorem VbdCheck.executeLeafChild_wait (hstate : obj.lvls.lowest.childrenState i = .readBlock)
    (hcount : obj.nrOfLeafs ≠ 0) (hprim : obj.genPrim
      = some { tag := .vbdCheckBlkIo, blockNumber := (obj.lvls.lowest.children i).pba }) :
    VbdCheck.executeLeafChild sha obj i = some obj := by
  rw [VbdCheck.executeLeafChild, hstate]
  simp only [hcount, if_false, hprim, ne_eq, not_true_eq_false, or_self, if_true]

/-- With the data block there, it is to be hashed. -/
theorem VbdCheck.executeLeafChild_accept (hstate : obj.lvls.lowest.childrenState i = .readBlock)
    (hcount : obj.nrOfLeafs ≠ 0) (hprim : obj.genPrim = some {
      tag := .vbdCheckBlkIo, blockNumber := (obj.lvls.lowest.children i).pba, success := true }) :
    VbdCheck.executeLeafChild sha obj i
      = some ({ obj with genPrimDropped := false, genPrim := none }.setState (.leaf i)
        .checkHash) := by
  rw [VbdCheck.executeLeafChild, hstate]
  simp only [hcount, if_false, hprim, ne_eq, not_true_eq_false, or_self, Bool.true_eq_false]

/-- A data block is accepted if its hash is right, or if its generation is zero.
-/
theorem VbdCheck.executeLeafChild_hash (hstate : obj.lvls.lowest.childrenState i = .checkHash) :
    VbdCheck.executeLeafChild sha obj i
      = if (obj.lvls.lowest.children i).gen ≠ 0 →
          sha obj.leafLvl = (obj.lvls.lowest.children i).hash then
        some ({ obj with nrOfLeafs := obj.nrOfLeafs - 1 }.setState (.leaf i) .done)
      else none := by
  rw [VbdCheck.executeLeafChild, hstate]
  by_cases hgen : (obj.lvls.lowest.children i).gen = 0
  · simp only [hgen, if_true, ne_eq, not_true_eq_false, false_implies]
  · simp only [hgen, if_false, ne_eq, not_false_eq_true, true_implies]

end Branches

/-- **A leaf of the virtual block device**: its data block is read and hashed,
unless its generation is zero. -/
theorem vbd_leaf_ends {e : TreeCheck Type1Node → BlockIo → σ}
    (host : Hosted VbdCheck.checker sha disk f P e) (m : ℕ) :
    ChildEnds f P e VbdCheck.checker (fun s => s.lowest) 1 m
      (checkLeaf NodeKind.type1 (VbdDataOk sha disk)) := by
  intro start nodes i l n obj io hm hact hle h
  have hact' : obj.Active VbdCheck.checker := hact.of_kept h.kept
  have hstate : obj.lvls.lowest.childrenState i = .readBlock := h.todo i List.mem_cons_self
  have hchild : obj.lvls.lowest.children i = nodes i := congrFun h.children i
  rw [checkLeaf]
  by_cases hn : n = 0
  · subst hn
    have hexec : obj.executeAt VbdCheck.checker sha (some (.leaf i))
        = VbdCheck.executeLeafChild sha obj i := rfl
    rw [VbdCheck.executeLeafChild, hstate, hchild, h.count] at hexec
    exact unused_leaf_ends host hact' h hexec
  · rw [if_neg hn]
    have hcount : obj.nrOfLeafs ≠ 0 := by rw [h.count]; exact hn
    have hissue : obj.executeAt VbdCheck.checker sha (some (.leaf i)) = some {
        obj.waiting VbdCheck.checker (nodes i).pba 0 with genPrimDropped := false } := by
      show VbdCheck.executeLeafChild sha obj i = _
      rw [VbdCheck.executeLeafChild, hstate, hchild]
      simp only [hcount, if_false, h.idle.genPrim]
      rfl
    have hwait : (obj.waiting VbdCheck.checker (nodes i).pba 0).executeAt VbdCheck.checker sha
        (some (.leaf i)) = some (obj.waiting VbdCheck.checker (nodes i).pba 0) := by
      exact VbdCheck.executeLeafChild_wait hstate hcount (by
        rw [show (obj.waiting _ _ _).lvls.lowest.children i = _ from hchild]
        rfl)
    have hread := host.read hact' h.firstAt_leaf h.idle hissue hwait
    obtain ⟨t, hleads, io', hio', rfl⟩ := hread.exists_leads
    refine .of_leads hleads ?_
    -- the block is there: it is taken over, and hashed in the round that follows
    let obj₂ : TreeCheck Type1Node :=
      { obj.answered VbdCheck.checker (nodes i).pba 0 with leafLvl := disk (nodes i).pba }
    let obj₃ : TreeCheck Type1Node :=
      { obj₂ with genPrimDropped := false, genPrim := none }.setState (.leaf i) .checkHash
    have hact₂ : obj₂.Active VbdCheck.checker := ⟨hact'.1, hact'.2, hact'.3, hact'.4⟩
    have hact₃ : obj₃.Active VbdCheck.checker := ⟨hact'.1, hact'.2, hact'.3, hact'.4⟩
    have haccept : obj₂.executeAt VbdCheck.checker sha (some (.leaf i)) = some obj₃ :=
      VbdCheck.executeLeafChild_accept hstate hcount (by
        rw [show obj₂.lvls.lowest.children i = _ from hchild]
        rfl)
    refine .of_leads (host.quiet hact₂ h.firstAt_leaf haccept hact₃.rootState ⟨rfl, hio'⟩) ?_
    have hstate₃ : obj₃.lvls.lowest.childrenState i = .checkHash := Function.update_self i _ _
    have hfirst₃ : obj₃.FirstAt (.leaf i) := by
      obtain ⟨hi, -, hbefore⟩ := h.firstAt_leaf
      refine ⟨hi, by rw [hstate₃]; rfl, fun j hj => ?_⟩
      show CheckState.isOpen (Function.update obj.lvls.lowest.childrenState i .checkHash j) = false
      rw [Function.update_of_ne hj.ne]
      exact hbefore j hj
    have hhash : obj₃.executeAt VbdCheck.checker sha (some (.leaf i)) = _ :=
      VbdCheck.executeLeafChild_hash hstate₃
    rw [show obj₃.lvls.lowest.children i = _ from hchild] at hhash
    by_cases hdata : VbdDataOk sha disk (nodes i)
    · rw [if_pos hdata]
      refine .of_leads (host.quiet hact₃ hfirst₃ (hhash.trans (if_pos hdata)) hact'.rootState
        ⟨rfl, hio'⟩)
        (.ret ⟨_, io', rfl, h.next_leaf ⟨rfl, hio'⟩ (Levels.setState_leaf_leaf _ i _ _) rfl rfl rfl
          ?_⟩)
      show obj.nrOfLeafs - 1 = n - 1
      rw [h.count]
    · rw [if_neg hdata]
      exact .raise (host.running _ _ hact₃.rootState)
        (host.raise _ _ _ hact₃ hfirst₃ (hhash.trans (if_neg hdata)))

end

end Cbe
