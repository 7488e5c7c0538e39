import Cbe.FreeTreeConservation
import Cbe.Support.PartialRun

/-!
# The free tree, step by step

The module holds the branch it is working on in a stack of nodes for each level,
the node on top being the one at hand, and one stack for the usable entries of
the level-1 node at hand. A call of `Execute` looks at the lowest level with a
node left and takes that node one state further. In between, the cache serves
the block of a node and the meta tree hands out a block for a node that may not
be changed in place (`World.step`).

The two traversals work on the same stacks but differ in everything else: the
scan only counts entries and stops at the end of a node, the update exchanges
them and stops when as many were exchanged as requested.
-/

namespace Cbe

/-- A platform that decodes the level-1 nodes of the free tree, too. -/
structure FtPlatform extends Platform where
  /-- The entries of a level-1 node, from its block. -/
  type2NodeBlockFromBlockData : Block → Type2NodeBlock
  /-- They are read back as they were encoded. -/
  type2_roundtrip : ∀ n, type2NodeBlockFromBlockData (blockDataFromType2NodeBlock n) = n

namespace NewFreeTree

variable {P : FtPlatform}

/-- `Info_State_Type`. -/
inductive InfoState where
  | invalid
  | available
  | read
  | write
  | complete
  deriving DecidableEq

/-- `Type_1_Info_Type`: a node on one of the stacks. -/
structure Type1Info where
  /-- How far the node has come. -/
  state : InfoState
  /-- Its entry. -/
  node : Type1Node
  /-- Its place in the node above. -/
  index : Fin nodesPerBlock
  /-- Whether it may be changed in place. -/
  volatile : Bool

/-- `Type_2_Info_Type`: a usable entry of the level-1 node at hand. -/
structure Type2Info where
  /-- The entry. -/
  node : Type2Node
  /-- Its place in the level-1 node. -/
  index : Fin nodesPerBlock

/-- `State_Type`. -/
inductive State where
  | invalid
  | scan
  | scanComplete
  | update
  | updateComplete
  | complete
  | notEnoughFreeBlocks
  | treeHashMismatch
  deriving DecidableEq

/-- The state of a generated request. While one is pending or in progress, the
module does nothing, so these two are one here. -/
inductive RequestState where
  | invalid
  | pending
  | complete
  deriving DecidableEq

/-- The two operations that the module generates for the cache. -/
inductive CacheOperation where
  | read
  | write
  deriving DecidableEq

/-- `Cache_Request_Type`. -/
structure CacheRequest where
  /-- How far the request has come. -/
  state : RequestState
  /-- A read or a write. -/
  op : CacheOperation
  /-- The level of the node. -/
  lvl : ℕ
  /-- The block. -/
  pba : ℕ

/-- `Meta_Tree_Request_Type`. -/
structure MetaTreeRequest where
  /-- How far the request has come. -/
  state : RequestState
  /-- The block that is given up, and then the one that is handed out. -/
  pba : ℕ

/-- **`Object_Type`** of the free tree. The request at hand comes with the
snapshots and the last secured generation that `Execute` is given, and its
number of blocks is `Needed_Blocks`. -/
structure Object (P : FtPlatform) where
  /-- How far the request has come. -/
  state : State
  /-- The root of the tree. -/
  rootNode : Type1Node
  /-- The level of the root. -/
  maxLevel : ℕ
  /-- The request at hand. -/
  req : AllocRequest
  /-- How many usable entries the scan has found. -/
  foundBlocks : ℕ
  /-- How many entries the update has exchanged. -/
  exchangedBlocks : ℕ
  /-- The request to the meta tree. -/
  metaTreeRequest : MetaTreeRequest
  /-- The request to the cache. -/
  cacheRequest : CacheRequest
  /-- The block that goes to the cache or comes from it. -/
  cacheBlockData : P.Block
  /-- The nodes of each level that are left to do. -/
  levelNStacks : ℕ → List Type1Info
  /-- The entries of the node that was read last on each level. -/
  levelNNodes : ℕ → Type1NodeBlock
  /-- The usable entries of the level-1 node that are left to do. -/
  level0Stack : List Type2Info
  /-- The entries of the level-1 node that was read last. -/
  level0Node : Type2NodeBlock
  /-- The blocks that were found so far. -/
  newPbas : NewPbas
  /-- Whether the request has succeeded. -/
  success : Bool

/-- A node as it is pushed on a stack. -/
def newInfo (gen : ℕ) (node : Type1Node) (index : Fin nodesPerBlock) : Type1Info where
  state := .invalid
  node := node
  index := index
  volatile := decide (nodeVolatile node gen)

namespace Object

/-- The stacks with the root node on the highest one. -/
def rootStacks (root : Type1Node) (maxLevel gen : ℕ) : ℕ → List Type1Info :=
  Function.update (fun _ => []) maxLevel [newInfo gen root 0]

/-- **`Submit_Request`.** The stacks raise for a tree without a level. -/
def submitRequest (obj : Object P) (root : Type1Node) (maxLevel : ℕ) (req : AllocRequest)
    (newPbas : NewPbas) : Option (Object P) :=
  if obj.state ≠ .invalid ∨ maxLevel = 0 then none
  else
    some { obj with
      state := .scan
      rootNode := root
      maxLevel := maxLevel
      req := req
      foundBlocks := 0
      exchangedBlocks := 0
      levelNStacks := rootStacks root maxLevel req.currentGen
      levelNNodes := fun _ _ => type1NodeInvalid
      level0Stack := []
      level0Node := fun _ => type2NodeInvalid
      newPbas := newPbas }

/-- The level that a call works on: the lowest one with a node left. -/
def topLevel (obj : Object P) : Option ℕ :=
  (List.range' 1 treeMaxMaxLevel).find? fun lvl => !(obj.levelNStacks lvl).isEmpty

/-- Replace the stack of a level. -/
def setStack (obj : Object P) (lvl : ℕ) (stack : List Type1Info) : Object P :=
  { obj with levelNStacks := Function.update obj.levelNStacks lvl stack }

/-- `New_Cache_Request`. -/
def requestCache (obj : Object P) (op : CacheOperation) (lvl pba : ℕ) : Object P :=
  { obj with cacheRequest := { state := .pending, op := op, lvl := lvl, pba := pba } }

/-- `Cache_Request.State := Invalid`. -/
def dropCache (obj : Object P) : Object P :=
  { obj with cacheRequest := { obj.cacheRequest with state := .invalid } }

/-! ## Populating the stacks

When a node is opened, its children are pushed on the stack of the level below.
-/

/-- The infos of the children of an inner node. -/
def lowerNInfos (gen : ℕ) (nodes : Type1NodeBlock) : List Type1Info :=
  (populateLowerNStack nodes).map fun i => newInfo gen (nodes i) i

/-- The infos of the usable entries of a level-1 node. -/
def level0Infos (req : AllocRequest) (entries : Type2NodeBlock) : List Type2Info :=
  (populateLevel0Stack req entries).map fun i => { node := entries i, index := i }

/-- `Populate_Lower_N_Stack` and `Populate_Level_0_Stack`, for the node of a
level. -/
def populate (obj : Object P) (lvl : ℕ) : Object P :=
  if 2 ≤ lvl then
    obj.setStack (lvl - 1)
      (lowerNInfos obj.req.currentGen (P.type1NodeBlockFromBlockData obj.cacheBlockData))
  else
    let entries := P.type2NodeBlockFromBlockData obj.cacheBlockData
    { obj with
      level0Stack := level0Infos obj.req entries
      level0Node := entries }

section

variable (obj : Object P) (lvl : ℕ)

@[simp] theorem populate_state : (obj.populate lvl).state = obj.state := by
  unfold populate
  split_ifs <;> rfl

@[simp] theorem populate_rootNode : (obj.populate lvl).rootNode = obj.rootNode := by
  unfold populate
  split_ifs <;> rfl

@[simp] theorem populate_maxLevel : (obj.populate lvl).maxLevel = obj.maxLevel := by
  unfold populate
  split_ifs <;> rfl

@[simp] theorem populate_req : (obj.populate lvl).req = obj.req := by
  unfold populate
  split_ifs <;> rfl

@[simp] theorem populate_foundBlocks : (obj.populate lvl).foundBlocks = obj.foundBlocks := by
  unfold populate
  split_ifs <;> rfl

@[simp] theorem populate_exchangedBlocks :
    (obj.populate lvl).exchangedBlocks = obj.exchangedBlocks := by
  unfold populate
  split_ifs <;> rfl

@[simp] theorem populate_metaTreeRequest :
    (obj.populate lvl).metaTreeRequest = obj.metaTreeRequest := by
  unfold populate
  split_ifs <;> rfl

@[simp] theorem populate_cacheRequest : (obj.populate lvl).cacheRequest = obj.cacheRequest := by
  unfold populate
  split_ifs <;> rfl

@[simp] theorem populate_cacheBlockData :
    (obj.populate lvl).cacheBlockData = obj.cacheBlockData := by
  unfold populate
  split_ifs <;> rfl

@[simp] theorem populate_newPbas : (obj.populate lvl).newPbas = obj.newPbas := by
  unfold populate
  split_ifs <;> rfl

end

/-- The children of an inner node as the update keeps them. -/
def keepNodes (obj : Object P) (lvl : ℕ) : Object P :=
  if 2 ≤ lvl then
    { obj with
      levelNNodes := Function.update obj.levelNNodes (lvl - 1)
        (P.type1NodeBlockFromBlockData obj.cacheBlockData) }
  else obj

/-- Is there nothing below the node of a level? -/
def lowerEmpty (obj : Object P) (lvl : ℕ) : Bool :=
  if 2 ≤ lvl then (obj.levelNStacks (lvl - 1)).isEmpty else obj.level0Stack.isEmpty

/-! ## The scan

What one call does with the node at hand, by the state of the node. -/

/-- `Check_Type_2_Stack`: count the usable entries of the level-1 node at hand,
which is then done. -/
def checkType2Stack (obj : Object P) : Object P :=
  { obj with
    foundBlocks := obj.foundBlocks + obj.level0Stack.length
    level0Stack := []
    levelNStacks :=
      match obj.levelNStacks 1 with
      | [] => obj.levelNStacks
      | info :: rest =>
        if info.state = .read then
          Function.update obj.levelNStacks 1 ({ info with state := .complete } :: rest)
        else obj.levelNStacks }

/-- The scan on the node at hand. When it is done with one after enough entries
were found, the stacks are prepared for the update. -/
def scanNode (obj : Object P) (lvl : ℕ) (info : Type1Info) (rest : List Type1Info) :
    Option (Object P) :=
  match info.state with
  | .invalid =>
    if obj.cacheRequest.state ≠ .invalid then none
    else some (obj.requestCache .read lvl info.node.pba)
  | .available =>
    some ((obj.dropCache.populate lvl).setStack lvl ({ info with state := .read } :: rest))
  | .read => some (obj.setStack lvl ({ info with state := .complete } :: rest))
  | .write => none
  | .complete =>
    if obj.req.requestedBlocks ≤ obj.foundBlocks then
      some { obj with
        state := .scanComplete
        levelNStacks := rootStacks obj.rootNode obj.maxLevel obj.req.currentGen
        levelNNodes := fun _ _ => type1NodeInvalid }
    else if lvl = obj.maxLevel then
      some { obj.setStack lvl rest with state := .notEnoughFreeBlocks }
    else some (obj.setStack lvl rest)

/-- **`Execute_Scan`.** -/
def executeScan (obj : Object P) : Option (Object P) :=
  let obj := obj.checkType2Stack
  match obj.topLevel with
  | none => some obj
  | some lvl =>
    match obj.levelNStacks lvl with
    | [] => some obj
    | info :: rest => obj.scanNode lvl info rest

/-! ## The update

The same stacks, with exchanges and requests to the meta tree in between. -/

/-- The loop of `Exchange_Type_2_Leafs` over the levels. It raises when an entry
is not the one that was pushed. -/
def exchangeLeafs (obj : Object P) : List ℕ → Option (Object P)
  | [] => some obj
  | lvl :: lvls =>
    if obj.newPbas lvl = 0 then
      match obj.level0Stack with
      | [] => some obj
      | info :: stack =>
        if (obj.level0Node info.index).pba ≠ info.node.pba then none
        else
          (exchangeType2Leaf obj.req lvl (obj.level0Node info.index)).bind fun node =>
            exchangeLeafs { obj with
              newPbas := Function.update obj.newPbas lvl (obj.level0Node info.index).pba
              level0Node := Function.update obj.level0Node info.index node
              exchangedBlocks := obj.exchangedBlocks + 1
              level0Stack := stack } lvls
    else exchangeLeafs obj lvls

/-- `Exchange_Type_2_Leafs`. -/
def exchangeType2Leafs (obj : Object P) : Option (Object P) :=
  obj.exchangeLeafs (List.range (obj.req.maxLevel + 1))

/-- `Exchange_Finished`. -/
def exchangeFinished (obj : Object P) : Prop := obj.exchangedBlocks = obj.req.requestedBlocks

instance (obj : Object P) : Decidable obj.exchangeFinished := inferInstanceAs (Decidable (_ = _))

/-- The block of the node of a level as it is now. -/
def blockOfLevel (obj : Object P) (lvl : ℕ) : P.Block :=
  if 2 ≤ lvl then P.blockDataFromType1NodeBlock (obj.levelNNodes (lvl - 1))
  else P.blockDataFromType2NodeBlock obj.level0Node

/-- Write the node at hand to its address, and its new entry to the node above
or to the root. The root of a tree of one level is not updated. -/
def writeNode (obj : Object P) (lvl : ℕ) (info : Type1Info) : Object P :=
  let blk := obj.blockOfLevel lvl
  let node := { pba := info.node.pba, gen := obj.req.currentGen, hash := P.hash blk }
  let obj :=
    if 2 ≤ lvl ∧ obj.maxLevel ≤ lvl then { obj with rootNode := node }
    else
      { obj with
        levelNNodes := Function.update obj.levelNNodes lvl
          (Function.update (obj.levelNNodes lvl) info.index node) }
  { obj with cacheBlockData := blk }.requestCache .write lvl info.node.pba

/-- The update on the node at hand. A node that may not be changed in place
gets a block of the meta tree first. -/
def updateNode (obj : Object P) (lvl : ℕ) (info : Type1Info) (rest : List Type1Info) :
    Option (Object P) :=
  match info.state with
  | .invalid =>
    if obj.cacheRequest.state ≠ .invalid then none
    else some (obj.requestCache .read lvl info.node.pba)
  | .available =>
    let obj := (obj.dropCache.populate lvl).keepNodes lvl
    let state := if obj.lowerEmpty lvl then InfoState.complete else InfoState.write
    some (obj.setStack lvl ({ info with state := state } :: rest))
  | .read => none
  | .write =>
    if info.volatile = true then some (obj.writeNode lvl info)
    else
      match obj.metaTreeRequest.state with
      | .invalid =>
        some { obj with metaTreeRequest := { state := .pending, pba := info.node.pba } }
      | .complete =>
        let info := { info with
          volatile := true
          node := { info.node with pba := obj.metaTreeRequest.pba } }
        let obj := { obj.setStack lvl (info :: rest) with
          metaTreeRequest := { obj.metaTreeRequest with state := .invalid } }
        some (obj.writeNode lvl info)
      | .pending => none
  | .complete =>
    let obj := obj.dropCache.setStack lvl (if obj.exchangeFinished then [] else rest)
    if obj.exchangeFinished ∧ lvl = obj.maxLevel then some { obj with state := .updateComplete }
    else some obj

/-- **`Execute_Update`.** -/
def executeUpdate (obj : Object P) : Option (Object P) :=
  obj.exchangeType2Leafs.bind fun obj =>
    match obj.topLevel with
    | none => some obj
    | some lvl =>
      match obj.levelNStacks lvl with
      | [] => some obj
      | info :: rest => obj.updateNode lvl info rest

/-- **`Execute`**, where no request is pending. -/
def execute (obj : Object P) : Option (Object P) :=
  match obj.state with
  | .invalid => some obj
  | .scan => obj.executeScan
  | .scanComplete => some { obj with state := .update }
  | .update => obj.executeUpdate
  | .updateComplete => some { obj with success := true, state := .complete }
  | .complete => some obj
  | .notEnoughFreeBlocks => some { obj with success := false, state := .complete }
  | .treeHashMismatch => none

end Object

/-! ## The module and what serves it

The cache answers with the block of the address, the meta tree with the next
block that it has. -/

/-- **The module with the blocks of the device** as the cache has them, and the
blocks that the meta tree will hand out one after the other. The world keeps
records of the blocks read and written. -/
structure World (P : FtPlatform) where
  /-- The module. -/
  obj : Object P
  /-- The blocks as the cache has them. -/
  blocks : ℕ → P.Block
  /-- The blocks that the meta tree will hand out. -/
  metaPbas : List ℕ
  /-- The blocks that were read, in order. -/
  reads : List ℕ
  /-- What was written, in order. -/
  writes : List (ℕ × P.Block)

namespace World

/-- The module took a step. -/
def setObj (w : World P) (obj : Object P) : World P := { w with obj := obj }

@[simp] theorem setObj_obj (w : World P) (obj : Object P) : (w.setObj obj).obj = obj := rfl

@[simp] theorem setObj_blocks (w : World P) (obj : Object P) :
    (w.setObj obj).blocks = w.blocks := rfl

@[simp] theorem setObj_metaPbas (w : World P) (obj : Object P) :
    (w.setObj obj).metaPbas = w.metaPbas := rfl

@[simp] theorem setObj_reads (w : World P) (obj : Object P) :
    (w.setObj obj).reads = w.reads := rfl

@[simp] theorem setObj_writes (w : World P) (obj : Object P) :
    (w.setObj obj).writes = w.writes := rfl

/-- `Mark_Generated_Meta_Tree_Primitive_Complete`. It raises when the meta tree
has no block to hand out. -/
def serveMetaTree (w : World P) : Option (World P) :=
  match w.metaPbas with
  | [] => none
  | pba :: metaPbas =>
    some { w with
      metaPbas := metaPbas
      obj := { w.obj with metaTreeRequest := { state := .complete, pba := pba } } }

/-- `Mark_Generated_Cache_Primitive_Complete`, for the node on top of the stack
of the request. -/
def serveCache (w : World P) : Option (World P) :=
  let request := w.obj.cacheRequest
  let obj := { w.obj with cacheRequest := { request with state := .complete } }
  match w.obj.levelNStacks request.lvl with
  | [] => none
  | info :: rest =>
    match request.op with
    | .read =>
      let data := w.blocks request.pba
      some { w with
        reads := w.reads ++ [request.pba]
        obj :=
          if P.hash data = info.node.hash then
            { obj.setStack request.lvl ({ info with state := .available } :: rest) with
              cacheBlockData := data }
          else { obj with state := .treeHashMismatch } }
    | .write =>
      some { w with
        blocks := Function.update w.blocks request.pba w.obj.cacheBlockData
        writes := w.writes ++ [(request.pba, w.obj.cacheBlockData)]
        obj := obj.setStack request.lvl ({ info with state := .complete } :: rest) }

/-- **One step**: a pending request is served, otherwise the module works. -/
def step (w : World P) : Option (World P) :=
  if w.obj.metaTreeRequest.state = .pending then w.serveMetaTree
  else if w.obj.cacheRequest.state = .pending then w.serveCache
  else w.obj.execute.map w.setObj

end World

end NewFreeTree

end Cbe
