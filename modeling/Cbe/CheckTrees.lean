import Cbe.TreeImage
import Cbe.Support.PartialRun

/-!
# The checks of the trees

`VBD_Check` and `Free_Tree_Check` each check one tree that they are given the
root of. They visit it with a restartable scan: a call of `Execute` goes to the
first child that is not done, which is then read, has its own children checked
and is hashed at last. The number of leaves is counted down as the leaves are
met, and decides whether an entry has to be in use.

Both are this module's `TreeCheck`; they differ in the type of the lowest nodes
and in what they do with a leaf, whose data only the check of the virtual block
device reads (`TreeChecker`).
-/

namespace Cbe

open LevelScan PartialRun

/-- The tags of the primitives of the check library. -/
inductive CheckTag where
  | libSbCheck
  | sbCheckBlkIo
  | sbCheckVbdCheck
  | sbCheckFtCheck
  | sbCheckMtCheck
  | vbdCheckBlkIo
  | ftCheckBlkIo
  deriving DecidableEq

/-- A valid primitive of the check library. All of them read. -/
structure CheckPrim where
  /-- The module that it comes from. -/
  tag : CheckTag
  /-- The block that is read. -/
  blockNumber : ℕ
  /-- Whether the read has succeeded. -/
  success : Bool := false
  deriving DecidableEq

/-- `Primitive.Equal`. -/
def CheckPrim.Equal (p q : CheckPrim) : Prop := p.blockNumber = q.blockNumber ∧ p.tag = q.tag

instance (p q : CheckPrim) : Decidable (p.Equal q) := inferInstanceAs (Decidable (_ ∧ _))

/-- `Child_State_Type`. -/
inductive CheckState where
  | readBlock
  | checkHash
  | done
  deriving DecidableEq

/-- A child that is not done. -/
def CheckState.isOpen (st : CheckState) : Bool := decide (st ≠ .done)

/-- `Object_Type` of the two checks. The root and the levels with the states of
their children are in `lvls`; `leafLvl` is in the check of the virtual block
device only. -/
structure TreeCheck (Leaf : Type) where
  /-- The root, and the levels with the states of their children. -/
  lvls : Levels Type1Node Leaf CheckState nodesPerBlock
  /-- The data of the leaf that was read last. -/
  leafLvl : BlockData
  /-- The level of the root. -/
  maxLvlIdx : ℕ
  /-- The largest index of a child. -/
  maxChildIdx : ℕ
  /-- How many leaves are still to be found. -/
  nrOfLeafs : ℕ
  /-- Whether the generated primitive was taken. -/
  genPrimDropped : Bool
  /-- The primitive for block I/O. -/
  genPrim : Option CheckPrim
  /-- The primitive that asks for the check. -/
  submPrim : Option CheckPrim
  /-- The level that the block goes to. -/
  lvlToRead : ℕ

variable {Leaf : Type}

/-- **What the two checks differ in.** -/
structure TreeChecker (Leaf : Type) where
  /-- The type of the lowest nodes. -/
  kind : NodeKind Leaf
  /-- The tag of the primitives for the block device. -/
  tag : CheckTag
  /-- Whether the data of leaves is read. -/
  readsLeafs : Bool
  /-- `Execute_Leaf_Child`. -/
  executeLeafChild : (BlockData → Hash) → TreeCheck Leaf → Fin nodesPerBlock →
    Option (TreeCheck Leaf)

namespace TreeCheck

/-- `Initialize_Object`. -/
def initializeObject (kind : NodeKind Leaf) : TreeCheck Leaf where
  lvls := {
    root := type1NodeInvalid
    rootState := .done
    upper := fun _ => { children := fun _ => type1NodeInvalid, childrenState := fun _ => .done }
    lowest := { children := fun _ => kind.invalid, childrenState := fun _ => .done } }
  leafLvl := fun _ => 0
  maxLvlIdx := 0
  maxChildIdx := 0
  nrOfLeafs := 0
  genPrimDropped := false
  genPrim := none
  submPrim := none
  lvlToRead := 0

/-- `Primitive_Acceptable`. -/
def PrimitiveAcceptable (obj : TreeCheck Leaf) : Prop := obj.submPrim = none

instance (obj : TreeCheck Leaf) : Decidable obj.PrimitiveAcceptable :=
  inferInstanceAs (Decidable (_ = _))

/-- `Submit_Primitive`. -/
def submitPrimitive (obj : TreeCheck Leaf) (prim : CheckPrim) (ref : TreeRef) :
    Option (TreeCheck Leaf) :=
  if obj.submPrim.isSome then none
  else
    some {
      obj with
      submPrim := some prim
      maxLvlIdx := ref.maxLvlIdx
      maxChildIdx := ref.maxChildIdx
      nrOfLeafs := ref.nrOfLeafs
      lvls := { obj.lvls with root := ref.root, rootState := .readBlock } }

/-- `Peek_Completed_Primitive`. -/
def peekCompletedPrimitive (obj : TreeCheck Leaf) : Option CheckPrim :=
  if obj.lvls.rootState = .done then obj.submPrim else none

/-- `Peek_Generated_Primitive`. -/
def peekGeneratedPrimitive (obj : TreeCheck Leaf) : Option CheckPrim :=
  if obj.genPrimDropped = true then none else obj.genPrim

/-- `Drop_Generated_Primitive`. -/
def dropGeneratedPrimitive (obj : TreeCheck Leaf) (prim : CheckPrim) : Option (TreeCheck Leaf) :=
  match obj.genPrim with
  | none => none
  | some genPrim =>
    if ¬ prim.Equal genPrim ∨ obj.genPrimDropped = true then none
    else some { obj with genPrimDropped := true }

/-- Set the state of a child. -/
def setState (obj : TreeCheck Leaf) (p : Pos nodesPerBlock) (st : CheckState) : TreeCheck Leaf :=
  { obj with lvls := obj.lvls.setState p st }

/-- The level a child is on; the root is above the topmost level. -/
def lvlAt (obj : TreeCheck Leaf) : Pos nodesPerBlock → ℕ
  | .leaf _ => 1
  | .inner lvl _ => lvl
  | .root => obj.maxLvlIdx + 1

/-- The entry of an inner child. -/
def childAt (obj : TreeCheck Leaf) : Pos nodesPerBlock → Type1Node
  | .inner lvl i => (obj.lvls.upper lvl).children i
  | _ => obj.lvls.root

/-- The hash of what is on a level. -/
def lvlHash (kind : NodeKind Leaf) (sha : BlockData → Hash) (obj : TreeCheck Leaf) (lvl : ℕ) :
    Option Hash :=
  if lvl ≤ 1 then kind.hashOf sha obj.lvls.lowest.children
  else NodeKind.type1.hashOf sha (obj.lvls.upper lvl).children

/-- `Execute_Inner_T1_Child` of the two checks and `Execute_Inner_T2_Child` of
the check of the free tree. -/
def executeInnerChild (c : TreeChecker Leaf) (sha : BlockData → Hash) (obj : TreeCheck Leaf)
    (p : Pos nodesPerBlock) : Option (TreeCheck Leaf) :=
  let child := obj.childAt p
  let lvlIdx := obj.lvlAt p
  match obj.lvls.stateAt p with
  | .readBlock =>
    if ¬ child.Valid then
      if obj.nrOfLeafs = 0 then some (obj.setState p .done) else none
    else
      match obj.genPrim with
      | none =>
        some {
          obj with
          genPrimDropped := false
          genPrim := some { tag := c.tag, blockNumber := child.pba }
          lvlToRead := lvlIdx - 1 }
      | some prim =>
        if prim.tag ≠ c.tag then none
        else if prim.blockNumber ≠ child.pba then none
        else if prim.success = false then some obj
        else
          some ({
            obj with
            lvls := obj.lvls.resetStates (lvlIdx - 1) .readBlock
            genPrimDropped := false
            genPrim := none }.setState p .checkHash)
  | .checkHash =>
    -- a node of generation zero is not compared
    if child.gen = 0 ∨ obj.lvlHash c.kind sha (lvlIdx - 1) = some child.hash then
      some (obj.setState p .done)
    else none
  | .done => some obj

/-- What `Execute` does with the child it has found. The root has a level of its
own, which has to be one of the type. -/
def executeAt (c : TreeChecker Leaf) (sha : BlockData → Hash) (obj : TreeCheck Leaf) :
    Option (Pos nodesPerBlock) → Option (TreeCheck Leaf)
  | none => some obj
  | some (.leaf i) => c.executeLeafChild sha obj i
  | some (.inner lvl i) => obj.executeInnerChild c sha (.inner lvl i)
  | some .root =>
    if obj.maxLvlIdx + 1 ≤ treeMaxMaxLevel then obj.executeInnerChild c sha .root else none

/-- The child that `Execute` goes to. -/
def firstOpen (obj : TreeCheck Leaf) : Option (Pos nodesPerBlock) :=
  obj.lvls.firstOpen CheckState.isOpen obj.maxLvlIdx obj.maxChildIdx

/-- The data that was read, on the level it was read for. -/
def loadLvl (c : TreeChecker Leaf) (obj : TreeCheck Leaf) (data : BlockData) :
    Option (TreeCheck Leaf) :=
  if obj.lvlToRead = 0 then
    if c.readsLeafs = true then some { obj with leafLvl := data } else none
  else if obj.lvlToRead = 1 then
    (c.kind.fromBlockData data).map fun nodes => { obj with lvls := obj.lvls.putLowest nodes }
  else
    (NodeKind.type1.fromBlockData data).map fun nodes =>
      { obj with lvls := obj.lvls.putUpper obj.lvlToRead nodes }

/-- `Mark_Generated_Primitive_Complete`. -/
def markGeneratedPrimitiveComplete (c : TreeChecker Leaf) (obj : TreeCheck Leaf)
    (prim : CheckPrim) (data : BlockData) : Option (TreeCheck Leaf) :=
  match obj.genPrim with
  | none => some obj
  | some genPrim =>
    if obj.genPrimDropped = true ∧ genPrim.tag = c.tag ∧ prim.tag = c.tag
        ∧ genPrim.blockNumber = prim.blockNumber then
      { obj with genPrim := some prim }.loadLvl c data
    else some obj

end TreeCheck

/-! ## The check of the virtual block device -/

namespace VbdCheck

/-- `Execute_Leaf_Child`. -/
def executeLeafChild (sha : BlockData → Hash) (obj : TreeCheck Type1Node)
    (i : Fin nodesPerBlock) : Option (TreeCheck Type1Node) :=
  let child := obj.lvls.lowest.children i
  match obj.lvls.lowest.childrenState i with
  | .readBlock =>
    if obj.nrOfLeafs = 0 then
      if child ≠ type1NodeInvalid then none else some (obj.setState (.leaf i) .done)
    else
      match obj.genPrim with
      | none =>
        some {
          obj with
          genPrimDropped := false
          genPrim := some { tag := .vbdCheckBlkIo, blockNumber := child.pba }
          lvlToRead := 0 }
      | some prim =>
        if prim.tag ≠ .vbdCheckBlkIo ∨ prim.blockNumber ≠ child.pba then none
        else if prim.success = false then some obj
        else
          some ({ obj with genPrimDropped := false, genPrim := none }.setState (.leaf i)
            .checkHash)
  | .checkHash =>
    if child.gen = 0 then
      some ({ obj with nrOfLeafs := obj.nrOfLeafs - 1 }.setState (.leaf i) .done)
    else if sha obj.leafLvl = child.hash then
      some ({ obj with nrOfLeafs := obj.nrOfLeafs - 1 }.setState (.leaf i) .done)
    else none
  | .done => some obj

/-- `VBD_Check`. -/
def checker : TreeChecker Type1Node where
  kind := NodeKind.type1
  tag := .vbdCheckBlkIo
  readsLeafs := true
  executeLeafChild := executeLeafChild

/-- `Execute`. The lowest of its levels is 1. -/
def execute (sha : BlockData → Hash) (obj : TreeCheck Type1Node) : Option (TreeCheck Type1Node) :=
  if obj.submPrim = none then some obj
  else if obj.maxLvlIdx < 1 then none
  else obj.executeAt checker sha obj.firstOpen

end VbdCheck

/-! ## The check of the free tree -/

namespace FtCheck

/-- `Execute_Leaf_Child`. -/
def executeLeafChild (_sha : BlockData → Hash) (obj : TreeCheck Type2Node)
    (i : Fin nodesPerBlock) : Option (TreeCheck Type2Node) :=
  let child := obj.lvls.lowest.children i
  match obj.lvls.lowest.childrenState i with
  | .readBlock =>
    if obj.nrOfLeafs = 0 then
      if child ≠ type2NodeInvalid then none else some (obj.setState (.leaf i) .done)
    else some ({ obj with nrOfLeafs := obj.nrOfLeafs - 1 }.setState (.leaf i) .done)
  | _ => some obj

/-- `Free_Tree_Check`. -/
def checker : TreeChecker Type2Node where
  kind := NodeKind.type2
  tag := .ftCheckBlkIo
  readsLeafs := false
  executeLeafChild := executeLeafChild

/-- `Execute`. The lowest of the levels of the first type is 2; that is asked
for after the loop over the leaves. -/
def execute (sha : BlockData → Hash) (obj : TreeCheck Type2Node) : Option (TreeCheck Type2Node) :=
  if obj.submPrim = none then some obj
  else
    match obj.firstOpen with
    | some (.leaf i) => obj.executeAt checker sha (some (.leaf i))
    | p => if obj.maxLvlIdx < 2 then none else obj.executeAt checker sha p

end FtCheck

/-! ## Block I/O -/

/-- The state of an entry of the block I/O module. -/
inductive EntryState where
  | pending
  | inProgress
  | complete
  deriving DecidableEq

/-- `Block_IO.Object_Type`, which has a single entry, with the buffer for its
data. -/
structure BlockIo where
  /-- Its entry, with the state of it. -/
  entry : Option (CheckPrim × EntryState)
  /-- The data of its block. -/
  buf : BlockData

namespace BlockIo

/-- `Primitive_Acceptable`. -/
def PrimitiveAcceptable (io : BlockIo) : Prop := io.entry = none

instance (io : BlockIo) : Decidable io.PrimitiveAcceptable := inferInstanceAs (Decidable (_ = _))

/-- `Submit_Primitive`. -/
def submitPrimitive (io : BlockIo) (prim : CheckPrim) : Option BlockIo :=
  if io.entry = none then some { io with entry := some (prim, .pending) } else none

/-- `Peek_Completed_Primitive`. -/
def peekCompletedPrimitive (io : BlockIo) : Option CheckPrim :=
  match io.entry with
  | some (prim, .complete) => some prim
  | _ => none

/-- `Drop_Completed_Primitive`. -/
def dropCompletedPrimitive (io : BlockIo) : BlockIo := { io with entry := none }

/-- `Has_IO_Request` and the client: a request that is pending is taken, the
block is put into the buffer and the request completes with success. -/
def serve (disk : Disk) (io : BlockIo) : BlockIo :=
  match io.entry with
  | some (prim, .pending) =>
    { entry := some ({ prim with success := true }, .complete), buf := disk prim.blockNumber }
  | _ => io

end BlockIo

namespace TreeCheck

/-- The loop over the generated primitives in `Execute_VBD_Check` and
`Execute_Free_Tree_Check`. -/
def submitGenerated (c : TreeChecker Leaf) (obj : TreeCheck Leaf) (io : BlockIo) :
    Option (TreeCheck Leaf × BlockIo) :=
  match obj.peekGeneratedPrimitive with
  | none => some (obj, io)
  | some prim =>
    if prim.tag ≠ c.tag then none
    else if ¬ io.PrimitiveAcceptable then some (obj, io)
    else do
      let io ← io.submitPrimitive prim
      let obj ← obj.dropGeneratedPrimitive prim
      some (obj, io)

/-- The completed primitives of block I/O that are handed to a check of a tree
by `Execute_Block_IO`. -/
def executeBlockIo (c : TreeChecker Leaf) (obj : TreeCheck Leaf) (io : BlockIo) :
    Option (TreeCheck Leaf × BlockIo) :=
  match io.peekCompletedPrimitive with
  | none => some (obj, io)
  | some prim =>
    if prim.success = false then none
    else
      (obj.markGeneratedPrimitiveComplete c prim io.buf).map fun obj =>
        (obj, io.dropCompletedPrimitive)

end TreeCheck

/-! ## What the checks compute -/

/-- What is left to count after the children of a node were checked, and the
hash of the node. -/
def checkChildren {α : Type} (kind : NodeKind α) (sha : BlockData → Hash) (disk : Disk) (m : ℕ)
    (checkChild : ℕ → α → Option ℕ) (n : ℕ) (node : Type1Node) : Option (ℕ × Option Hash) :=
  (kind.fromBlockData (disk node.pba)).bind fun nodes =>
    ((childIdxs nodesPerBlock m).foldlM (fun n i => checkChild n (nodes i)) n).bind fun n =>
      some (n, kind.hashOf sha nodes)

/-- What is left to count after a node was checked: nothing for a node that is
not in use. -/
def checkInner (children : ℕ → Type1Node → Option (ℕ × Option Hash)) (n : ℕ)
    (node : Type1Node) : Option ℕ :=
  if ¬ node.Valid then if n = 0 then some 0 else none
  else
    (children n node).bind fun r =>
      if node.gen = 0 ∨ r.2 = some node.hash then some r.1 else none

/-- What is left to count after a leaf was checked. -/
def checkLeaf [DecidableEq Leaf] (kind : NodeKind Leaf) (dataOk : Leaf → Prop)
    [DecidablePred dataOk] (n : ℕ) (leaf : Leaf) : Option ℕ :=
  if n = 0 then if leaf = kind.invalid then some 0 else none
  else if dataOk leaf then some (n - 1) else none

/-- `checkChildren` on every level, the lowest nodes having level 0. -/
def checkLevel (kind : NodeKind Leaf) (sha : BlockData → Hash) (disk : Disk) (m : ℕ)
    (leaf : ℕ → Leaf → Option ℕ) : ℕ → ℕ → Type1Node → Option (ℕ × Option Hash)
  | 0 => checkChildren kind sha disk m leaf
  | lvl + 1 =>
    checkChildren NodeKind.type1 sha disk m (checkInner (checkLevel kind sha disk m leaf lvl))

/-- **The check of a node**, with the leaves below it that are still to be
counted. -/
def checkNode (kind : NodeKind Leaf) (sha : BlockData → Hash) (disk : Disk) (m : ℕ)
    (leaf : ℕ → Leaf → Option ℕ) (lvl : ℕ) : ℕ → Type1Node → Option ℕ :=
  checkInner (checkLevel kind sha disk m leaf lvl)

end Cbe
