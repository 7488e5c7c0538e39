import Cbe.BlockIo
import Cbe.TreeImage
import Cbe.Support.BottomUp

/-!
# The initializers of the trees

`VBD_Initializer` and `Free_Tree_Initializer` each build one tree on the block device,
bottom up, by a restartable scan: a call of `Execute` goes to the first child that is
not done. A leaf gets an address as long as there are leaves left to place; an inner
node is opened, gets an address once the level below it is done, and its block is
written there. The addresses come from the block allocator, which hands out one after
the other.

Both are this module's `TreeInit`; they differ in the type of the lowest nodes and in
the tags of their primitives (`TreeInitKind`). The flags that say whether a module made
progress are left out.
-/

namespace Cbe

open LevelScan BottomUp

/-- A request of a module, as `Primitive.Valid_Object_No_Pool_Idx` makes it. -/
def IoPrimitive.request (op : PrimitiveOperation) (tag : IoTag) (blockNumber : ℕ) :
    IoPrimitive where
  valid := true
  operation := op
  success := false
  tag := tag
  poolIdxSlot := none
  blockNumber := blockNumber
  index := 0

/-! ## The block allocator -/

/-- `Block_Allocator.Object_Type`. -/
structure BlockAllocator where
  /-- The first block of its range. -/
  firstBlk : ℕ
  /-- How many blocks it has handed out. -/
  nrOfBlks : ℕ
  /-- The primitive that it serves. -/
  prim : IoPrimitive

namespace BlockAllocator

/-- `Initialize_Object`. -/
def initializeObject (firstBlk : ℕ) : BlockAllocator :=
  { firstBlk := firstBlk, nrOfBlks := 0, prim := IoPrimitive.invalidObject }

variable (obj : BlockAllocator)

/-- `Primitive_Acceptable`. -/
def PrimitiveAcceptable : Prop := obj.prim.valid = false

instance : Decidable obj.PrimitiveAcceptable := inferInstanceAs (Decidable (_ = _))

/-- `Submit_Primitive`. -/
def submitPrimitive (prim : IoPrimitive) : Option BlockAllocator :=
  if obj.prim.valid = true ∨ prim.success = true then none else some { obj with prim := prim }

/-- `Execute`: the next block, unless their number has reached the last one of its
type. -/
def execute : Option BlockAllocator :=
  if obj.nrOfBlks = 2 ^ 64 - 1 ∨ obj.prim.valid = false ∨ obj.prim.success = true then some obj
  else
    (obj.prim.copyValidObjectNewSuccBlkNr true ((obj.firstBlk + obj.nrOfBlks) % 2 ^ 64)).map
      fun prim => { obj with prim := prim, nrOfBlks := obj.nrOfBlks + 1 }

/-- `Peek_Completed_Primitive`. -/
def peekCompletedPrimitive : IoPrimitive :=
  if obj.prim.valid = false ∨ obj.prim.success = false then IoPrimitive.invalidObject
  else obj.prim

/-- `Drop_Completed_Primitive`. -/
def dropCompletedPrimitive (prim : IoPrimitive) : Option BlockAllocator :=
  if obj.prim.valid = false ∨ obj.prim.success = false ∨ ¬ obj.prim.Equal prim then none
  else some { obj with prim := IoPrimitive.invalidObject }

end BlockAllocator

/-! ## The initializers -/

/-- `Object_Type` of the two initializers. The root and the levels with the states of
their children are in `lvls`. -/
structure TreeInit (Leaf : Type) where
  /-- The root, and the levels with the states of their children. -/
  lvls : Levels Type1Node Leaf ChildState nodesPerBlock
  /-- The level of the root. -/
  maxLvlIdx : ℕ
  /-- The largest index of a child. -/
  maxChildIdx : ℕ
  /-- How many leaves are still to be placed. -/
  nrOfLeafs : ℕ
  /-- Whether the generated primitive was taken. -/
  genPrimDropped : Bool
  /-- The primitive for another module. -/
  genPrim : IoPrimitive
  /-- The primitive that asks for the tree. -/
  submPrim : IoPrimitive
  /-- The level whose block is written. -/
  lvlToWrite : ℕ

variable {Leaf : Type}

/-- **What the two initializers differ in.** -/
structure TreeInitKind (Leaf : Type) where
  /-- The type of the lowest nodes. -/
  kind : NodeKind Leaf
  /-- The entry of a leaf that was just placed. -/
  leafAt : ℕ → Leaf
  /-- The tag of the primitives for the allocator. -/
  tagBlkAlloc : IoTag
  /-- The tag of those for block I/O. -/
  tagBlkIo : IoTag

namespace TreeInit

/-- `Initialize_Object`. -/
def initializeObject (k : TreeInitKind Leaf) : TreeInit Leaf where
  lvls := {
    root := type1NodeInvalid
    rootState := .done
    upper := fun _ => { children := fun _ => type1NodeInvalid, childrenState := fun _ => .done }
    lowest := { children := fun _ => k.kind.invalid, childrenState := fun _ => .done } }
  maxLvlIdx := 0
  maxChildIdx := 0
  nrOfLeafs := 0
  genPrimDropped := false
  genPrim := IoPrimitive.invalidObject
  submPrim := IoPrimitive.invalidObject
  lvlToWrite := 0

variable (k : TreeInitKind Leaf) (sha : BlockData → Hash) (obj : TreeInit Leaf)

/-- `Primitive_Acceptable`. -/
def PrimitiveAcceptable : Prop := obj.submPrim.valid = false

instance : Decidable obj.PrimitiveAcceptable := inferInstanceAs (Decidable (_ = _))

/-- `Submit_Primitive`. -/
def submitPrimitive (prim : IoPrimitive) (maxLvlIdx maxChildIdx nrOfLeafs : ℕ) :
    Option (TreeInit Leaf) :=
  if obj.submPrim.valid = true then none
  else
    some { obj with
      submPrim := prim
      maxLvlIdx := maxLvlIdx
      maxChildIdx := maxChildIdx
      nrOfLeafs := nrOfLeafs
      lvls := { obj.lvls with rootState := .initBlock } }

/-- `Peek_Completed_Primitive`. -/
def peekCompletedPrimitive : IoPrimitive :=
  if obj.submPrim.valid = false ∨ obj.lvls.rootState ≠ .done then IoPrimitive.invalidObject
  else obj.submPrim

/-- `Peek_Completed_Root`. -/
def peekCompletedRoot (prim : IoPrimitive) : Option Type1Node :=
  if obj.submPrim.valid = false ∨ ¬ obj.submPrim.Equal prim ∨ obj.lvls.rootState ≠ .done then none
  else some obj.lvls.root

/-- `Drop_Completed_Primitive`. -/
def dropCompletedPrimitive (prim : IoPrimitive) : Option (TreeInit Leaf) :=
  if obj.submPrim.valid = false ∨ ¬ obj.submPrim.Equal prim ∨ obj.lvls.rootState ≠ .done then none
  else some (initializeObject k)

/-- The level a child is on; the root is above the topmost level. -/
def lvlAt : Pos nodesPerBlock → ℕ
  | .leaf _ => 1
  | .inner lvl _ => lvl
  | .root => obj.maxLvlIdx + 1

/-- The entry of an inner child. -/
def childAt : Pos nodesPerBlock → Type1Node
  | .inner lvl i => (obj.lvls.upper lvl).children i
  | _ => obj.lvls.root

/-- The block of the nodes on a level. -/
def lvlData (lvl : ℕ) : Option BlockData :=
  if lvl ≤ 1 then (k.kind.blockData obj.lvls.lowest.children).map (·.data)
  else (NodeKind.type1.blockData (obj.lvls.upper lvl).children).map (·.data)

/-- All children on a level are reset. -/
def resetLvl (lvl : ℕ) : TreeInit Leaf :=
  { obj with
    lvls :=
      (if lvl ≤ 1 then obj.lvls.putLowest fun _ => k.kind.invalid
      else obj.lvls.putUpper lvl fun _ => type1NodeInvalid).resetStates lvl .initBlock }

/-- Set the state of a child. -/
def setState (p : Pos nodesPerBlock) (st : ChildState) : TreeInit Leaf :=
  { obj with lvls := obj.lvls.setState p st }

/-- Set a leaf. -/
def setLeaf (i : Fin nodesPerBlock) (leaf : Leaf) : TreeInit Leaf :=
  { obj with lvls := obj.lvls.setLeaf i leaf }

/-- Set the entry of an inner child. -/
def setNode (p : Pos nodesPerBlock) (node : Type1Node) : TreeInit Leaf :=
  { obj with lvls := obj.lvls.setNode p node }

/-- The generated primitive was consumed. -/
def consume : TreeInit Leaf :=
  { obj with genPrimDropped := false, genPrim := IoPrimitive.invalidObject }

/-- A primitive is generated. -/
def generate (prim : IoPrimitive) : TreeInit Leaf :=
  { obj with genPrimDropped := false, genPrim := prim }

/-- `Execute_Leaf_Child`. -/
def executeLeafChild (i : Fin nodesPerBlock) : Option (TreeInit Leaf) :=
  match obj.lvls.lowest.childrenState i with
  | .initBlock => some (obj.setState (.leaf i) .initNode)
  | .initNode =>
    if obj.nrOfLeafs = 0 then some ((obj.setLeaf i k.kind.invalid).setState (.leaf i) .done)
    else if obj.genPrim.valid = false then some (obj.generate (.request .read k.tagBlkAlloc 0))
    else if obj.genPrim.tag ≠ k.tagBlkAlloc then none
    else if obj.genPrim.success = false then some obj
    else
      some ({ obj.consume with nrOfLeafs := obj.nrOfLeafs - 1 }.setLeaf i
        (k.leafAt obj.genPrim.blockNumber) |>.setState (.leaf i) .done)
  | _ => some obj

/-- `Execute_Inner_T1_Child` of the two initializers and `Execute_Inner_T2_Child` of the
one of the free tree. -/
def executeInnerChild (p : Pos nodesPerBlock) : Option (TreeInit Leaf) :=
  match obj.lvls.stateAt p with
  | .initBlock =>
    if obj.nrOfLeafs = 0 then some ((obj.setNode p type1NodeInvalid).setState p .done)
    else some ((obj.resetLvl k (obj.lvlAt p - 1)).setState p .initNode)
  | .initNode =>
    if obj.genPrim.valid = false then some (obj.generate (.request .read k.tagBlkAlloc 0))
    else if obj.genPrim.tag ≠ k.tagBlkAlloc then none
    else if obj.genPrim.success = false then some obj
    else
      (obj.lvlData k (obj.lvlAt p - 1)).map fun data =>
        (obj.consume.setNode p ⟨obj.genPrim.blockNumber, 0, sha data⟩).setState p .writeBlock
  | .writeBlock =>
    if obj.genPrim.valid = false then
      some { obj.generate (.request .write k.tagBlkIo (obj.childAt p).pba) with
        lvlToWrite := obj.lvlAt p - 1 }
    else if obj.genPrim.tag ≠ k.tagBlkIo ∨ obj.genPrim.blockNumber ≠ (obj.childAt p).pba then none
    else if obj.genPrim.success = false then some obj
    else some (obj.consume.setState p .done)
  | .done => some obj

/-- What `Execute` does with the child it has found. The root has a level of its own,
which has to be one of the type. -/
def executeAt : Option (Pos nodesPerBlock) → Option (TreeInit Leaf)
  | none =>
    some (if obj.nrOfLeafs = 0 then { obj with submPrim := { obj.submPrim with success := true } }
      else obj)
  | some (.leaf i) => obj.executeLeafChild k i
  | some (.inner lvl i) => obj.executeInnerChild k sha (.inner lvl i)
  | some .root =>
    if obj.maxLvlIdx + 1 ≤ treeMaxMaxLevel then obj.executeInnerChild k sha .root else none

/-- The child that `Execute` goes to. -/
def firstOpen : Option (Pos nodesPerBlock) :=
  obj.lvls.firstOpen ChildState.isOpen obj.maxLvlIdx obj.maxChildIdx

/-- `Execute`. The bound of the loop over the levels above that of the leaves has to be
one of its type; the free tree's leaves have a loop of their own before it. -/
def execute : Option (TreeInit Leaf) :=
  if obj.submPrim.valid = false then some obj
  else if k.kind.minMaxLevel ≤ obj.maxLvlIdx then obj.executeAt k sha obj.firstOpen
  else if k.kind.minMaxLevel = 1 then none
  else
    match obj.firstOpen with
    | some (.leaf i) => obj.executeLeafChild k i
    | _ => none

/-- `Peek_Generated_Primitive`. -/
def peekGeneratedPrimitive : IoPrimitive :=
  if obj.genPrimDropped = true then IoPrimitive.invalidObject else obj.genPrim

/-- `Peek_Generated_Data`. -/
def peekGeneratedData (prim : IoPrimitive) : Option BlockData :=
  if prim.tag ≠ k.tagBlkIo ∨ ¬ prim.Equal obj.genPrim ∨ obj.genPrimDropped = true then none
  else obj.lvlData k obj.lvlToWrite

/-- `Drop_Generated_Primitive`. -/
def dropGeneratedPrimitive (prim : IoPrimitive) : Option (TreeInit Leaf) :=
  if ¬ prim.Equal obj.genPrim ∨ obj.genPrimDropped = true then none
  else some { obj with genPrimDropped := true }

/-- `Mark_Generated_Primitive_Complete`. -/
def markGeneratedPrimitiveComplete (prim : IoPrimitive) : TreeInit Leaf :=
  if obj.genPrim.valid = true ∧ obj.genPrimDropped = true ∧
      (obj.genPrim.tag = k.tagBlkAlloc ∧ prim.tag = k.tagBlkAlloc ∨
        obj.genPrim.tag = k.tagBlkIo ∧ prim.tag = k.tagBlkIo ∧
          obj.genPrim.blockNumber = prim.blockNumber) then
    { obj with genPrim := prim }
  else obj

end TreeInit

/-- `VBD_Initializer`. -/
def vbdInitializer : TreeInitKind Type1Node where
  kind := NodeKind.type1
  leafAt pba := { pba := pba, gen := 0, hash := 0 }
  tagBlkAlloc := .vbdInitBlkAlloc
  tagBlkIo := .vbdInitBlkIo

/-- `Free_Tree_Initializer`. -/
def freeTreeInitializer : TreeInitKind Type2Node where
  kind := NodeKind.type2
  leafAt pba :=
    { pba := pba, lastVba := 0, allocGen := 0, freeGen := 0, lastKeyId := 0, reserved := false }
  tagBlkAlloc := .ftInitBlkAlloc
  tagBlkIo := .ftInitBlkIo

end Cbe
