import Cbe.FreeTreeConservation
import Cbe.Support.Shares

/-!
# The meta tree

The allocator of the free tree. It is of the same shape as the free tree, but
serves one block at a time and finds the blocks for its own nodes by itself:
in one pass from the first child of a node to the last it looks for entries
that were not exchanged in the current generation. The first one below a
level-1 node goes to that node, the next ones to the inner nodes above it, and
only then one goes to the request; it takes over the block that the client
gives up. Every node in which something changed is written on the way up.

Which nodes have to be written to another block is decided by `Node_Volatile`
when a node is entered, from the generation of the node above it. As in the
free tree, a node that is `Volatile` is written in place. The predicate itself
says the opposite of that of the free tree (`Cbe.nodeVolatile`).

The blocks of the tree are kept as a value (`FtNode`), like those of the free
tree. The outcomes of the cache primitives are an input: the `n`-th primitive of
a request is successful if `ok n` is true.
-/

namespace Cbe

variable {P : Platform}

namespace Mt

/-! ## Requests -/

/-- **A request to the meta tree.** -/
structure Request where
  /-- The generation that is written. -/
  currentGen : ℕ
  /-- The block that comes back. -/
  oldPba : ℕ
  /-- `Tree_Geom.Edges`. -/
  edges : ℕ

/-- `Node_Volatile`. -/
def nodeVolatile (node : Type1Node) (gen : ℕ) : Prop := node.gen = 0 ∨ node.gen ≠ gen

instance (node : Type1Node) (gen : ℕ) : Decidable (nodeVolatile node gen) :=
  inferInstanceAs (Decidable (_ ∨ _))

/-- `Check_Level_0_Usable`. -/
def checkLevel0Usable (gen : ℕ) (node : Type2Node) : Prop := node.allocGen ≠ gen

instance (gen : ℕ) (node : Type2Node) : Decidable (checkLevel0Usable gen node) :=
  inferInstanceAs (Decidable (_ ≠ _))

/-- What the search exchanges: an entry that is there and usable. -/
def Request.Usable (req : Request) (node : Type2Node) : Prop :=
  node ≠ type2NodeInvalid ∧ checkLevel0Usable req.currentGen node

instance (req : Request) (node : Type2Node) : Decidable (req.Usable node) :=
  inferInstanceAs (Decidable (_ ∧ _))

/-- A node that is being handled. -/
structure NodeInfo where
  /-- Its entry. -/
  node : Type1Node
  /-- Whether it may be changed in place. -/
  volatile : Bool
  deriving DecidableEq

/-- The inner node still has to be written to another block. -/
def NodeInfo.Open (info : NodeInfo) : Prop :=
  info.node ≠ type1NodeInvalid ∧ info.volatile = false

instance (info : NodeInfo) : Decidable info.Open := inferInstanceAs (Decidable (_ ∧ _))

/-- **What the search carries along**: the inner nodes on the way down, the
lowest one first, and what is for the client. `Finished` and the success of the
submitted primitive are set together. -/
structure State (P : Platform) where
  /-- The root. -/
  rootNode : Type1Node
  /-- The inner nodes on the way, the lowest one first. -/
  levelNNodes : List NodeInfo
  /-- Whether the client has its block. -/
  finished : Bool
  /-- The block for the client. -/
  newPba : ℕ
  /-- How many cache primitives there were. -/
  prims : ℕ
  /-- What was written. -/
  writes : List (ℕ × P.Block)

/-! ## The entries of a level-1 node -/

/-- The entry after an exchange. -/
def Request.exchanged (req : Request) (node : Type2Node) (pba : ℕ) : Type2Node :=
  { node with
    pba := pba
    allocGen := req.currentGen
    freeGen := req.currentGen
    reserved := false }

/-- **`Exchange_NV_Inner_Nodes`**: the lowest inner node that still needs a
block takes the one offered and hands out its own. -/
def exchangeNvInnerNodes (req : Request) (pba : ℕ) : List NodeInfo → Option (List NodeInfo × ℕ)
  | [] => none
  | info :: infos =>
    if info.Open then
      some ({ node := { info.node with pba := pba, gen := req.currentGen }, volatile := true }
        :: infos, info.node.pba)
    else (exchangeNvInnerNodes req pba infos).map fun (infos, old) => (info :: infos, old)

/-- A level-1 node while its entries are being handled. -/
structure Level1State (P : Platform) where
  /-- Its entries. -/
  entries : Type2NodeBlock
  /-- The node itself. -/
  level1Node : NodeInfo
  /-- Whether an entry was exchanged. -/
  handled : Bool
  /-- What is carried along. -/
  state : State P

/-- **`Handle_Level_0_Nodes`**, for one entry: `Exchange_NV_Level_1_Node`, then
`Exchange_NV_Inner_Nodes`, then `Exchange_Request_PBA`. -/
def handleLevel0Node (req : Request) (acc : Level1State P) (i : Fin nodesPerBlock) :
    Level1State P :=
  let node := acc.entries i
  if acc.state.finished = true then acc
  else if req.Usable node then
    if acc.level1Node.volatile = false then
      { entries := Function.update acc.entries i (req.exchanged node acc.level1Node.node.pba)
        level1Node :=
          { node := { acc.level1Node.node with pba := node.pba }
            volatile := true }
        handled := true
        state := acc.state }
    else
      match exchangeNvInnerNodes req node.pba acc.state.levelNNodes with
      | some (infos, old) =>
        { entries := Function.update acc.entries i (req.exchanged node old)
          level1Node := acc.level1Node
          handled := true
          state := { acc.state with levelNNodes := infos } }
      | none =>
        { entries := Function.update acc.entries i (req.exchanged node req.oldPba)
          level1Node := acc.level1Node
          handled := true
          state := { acc.state with finished := true, newPba := node.pba } }
  else acc

/-- The positions in a node block, as far as the degree goes. -/
def Request.edgeIndices (req : Request) : List (Fin nodesPerBlock) :=
  (List.finRange nodesPerBlock).take req.edges

/-- **`Handle_Level_0_Nodes`.** -/
def handleLevel0Nodes (req : Request) (entries : Type2NodeBlock) (info : NodeInfo)
    (st : State P) : Level1State P :=
  req.edgeIndices.foldl (handleLevel0Node req)
    { entries := entries, level1Node := info, handled := false, state := st }

/-! ## The tree -/

/-- Why the search stops early: a hash that is not right, which raises, or a
cache primitive that failed, which completes the request. -/
inductive Stop (P : Platform) where
  | treeHashMismatch
  | cacheFailed (st : State P)

/-- A read primitive, with the check of the hash. -/
def readNode (ok : ℕ → Bool) (tree : FtNode) (node : Type1Node) (st : State P) :
    Except (Stop P) (State P) :=
  if ok st.prims = true then
    if checkNodeHash P tree node then .ok { st with prims := st.prims + 1 }
    else .error .treeHashMismatch
  else .error (.cacheFailed st)

/-- A write primitive. -/
def writeBlock (ok : ℕ → Bool) (pba : ℕ) (blk : P.Block) (st : State P) :
    Except (Stop P) (State P) :=
  if ok st.prims = true then
    .ok { st with prims := st.prims + 1, writes := st.writes ++ [(pba, blk)] }
  else .error (.cacheFailed st)

/-- `Update_Parent`. -/
def updateParent (P : Platform) (req : Request) (tree : FtNode) (pba : ℕ) : Type1Node where
  pba := pba
  gen := req.currentGen
  hash := P.hash (tree.blockData P)

/-- A node that was handled: its tree, its entry in the block above, and whether
it was written. -/
structure Handled (P : Platform) where
  /-- The tree. -/
  tree : FtNode
  /-- Its entry. -/
  node : Type1Node
  /-- Whether it was written. -/
  written : Bool
  /-- What is carried along. -/
  state : State P

/-- The write-out of a node, after the update of its entry. What is above the
root is the root of the tree. -/
def writeNode (ok : ℕ → Bool) (req : Request) (tree : FtNode) (pba : ℕ) (st : State P) :
    Except (Stop P) (Handled P) :=
  let node := updateParent P req tree pba
  let st := if st.levelNNodes = [] then { st with rootNode := node } else st
  (writeBlock ok pba (tree.blockData P) st).map fun st =>
    { tree := tree, node := node, written := true, state := st }

/-- An inner node while its children are being handled. It is the first of the
inner nodes on the way down. -/
structure LevelNState (P : Platform) where
  /-- Its entries. -/
  nodes : Type1NodeBlock
  /-- The trees below them. -/
  children : Fin nodesPerBlock → FtNode
  /-- Whether one of them has changed. -/
  dirty : Bool
  /-- What is carried along. -/
  state : State P

/-- The inner node that is being handled. -/
def State.own (st : State P) : NodeInfo :=
  st.levelNNodes.headD { node := type1NodeInvalid, volatile := false }

/-- The children of an inner node, up to the first entry that is not there. -/
def Request.children (req : Request) (nodes : Type1NodeBlock) : List (Fin nodesPerBlock) :=
  req.edgeIndices.takeWhile fun i => nodes i ≠ type1NodeInvalid

/-- **`Handle_Level_N_Nodes`**, for one child: it is skipped when the request has
been served, otherwise `handle` handles it. -/
def handleChild (req : Request)
    (handle : Fin nodesPerBlock → NodeInfo → State P → Except (Stop P) (Handled P))
    (acc : LevelNState P) (i : Fin nodesPerBlock) : Except (Stop P) (LevelNState P) :=
  if acc.state.finished = true then .ok acc
  else
    (handle i
      { node := acc.nodes i
        volatile := decide (nodeVolatile acc.state.own.node req.currentGen) } acc.state).map
      fun child =>
        { nodes := Function.update acc.nodes i child.node
          children := Function.update acc.children i child.tree
          dirty := acc.dirty || child.written
          state := child.state }

/-- **`Execute_Update`** below a node. -/
def executeUpdate (ok : ℕ → Bool) (req : Request) :
    FtNode → NodeInfo → State P → Except (Stop P) (Handled P)
  | .leafs entries, info, st =>
    (readNode ok (.leafs entries) info.node st).bind fun st =>
      let acc := handleLevel0Nodes req entries info st
      if acc.handled = true then
        writeNode ok req (.leafs acc.entries) acc.level1Node.node.pba acc.state
      else
        .ok { tree := .leafs entries, node := info.node, written := false, state := acc.state }
  | .inner nodes children, info, st =>
    (readNode ok (.inner nodes children) info.node st).bind fun st =>
      ((req.children nodes).foldlM
        (handleChild req fun i info st => executeUpdate ok req (children i) info st)
        { nodes := nodes
          children := children
          dirty := false
          state := { st with levelNNodes := info :: st.levelNNodes } }).bind fun acc =>
        let st := { acc.state with levelNNodes := acc.state.levelNNodes.tail }
        if acc.dirty = true then
          writeNode ok req (.inner acc.nodes acc.children) acc.state.own.node.pba st
        else
          .ok {
            tree := .inner acc.nodes acc.children
            node := info.node
            written := false
            state := st }

/-- The root when the request is submitted. -/
def Request.rootInfo (req : Request) (root : Type1Node) : NodeInfo where
  node := root
  volatile := decide (nodeVolatile root req.currentGen)

/-- The state when the request is submitted. The address for the client is the
one that the request before left. -/
def State.submitted (root : Type1Node) (newPba : ℕ) : State P where
  rootNode := root
  levelNNodes := []
  finished := false
  newPba := newPba
  prims := 0
  writes := []

/-- How a request completes. -/
inductive Outcome (P : Platform) where
  | cacheFailed (st : State P)
  | complete (res : Handled P)

namespace Outcome

/-- The success of the completed primitive. -/
def success : Outcome P → Bool
  | .cacheFailed _ => false
  | .complete res => res.state.finished

/-- `Peek_Completed_New_PBA`. -/
def newPba : Outcome P → ℕ
  | .cacheFailed _ => pbaInvalid
  | .complete res => res.state.newPba

/-- `Peek_Completed_Root_Node`. -/
def rootNode : Outcome P → Type1Node
  | .cacheFailed st => st.rootNode
  | .complete res => res.state.rootNode

/-- A hash that is not right raises. -/
def ofResult : Except (Stop P) (Handled P) → Option (Outcome P)
  | .error .treeHashMismatch => none
  | .error (.cacheFailed st) => some (.cacheFailed st)
  | .ok res => some (.complete res)

end Outcome

/-- **A request to the meta tree**, from `Submit_Primitive` to `Complete`. It
raises (`none`) for a node with a wrong hash and for a tree of a single level. -/
def execute (ok : ℕ → Bool) (req : Request) (newPba : ℕ) (root : Type1Node) :
    FtNode → Option (Outcome P)
  | .leafs _ => none
  | .inner nodes children =>
    Outcome.ofResult (executeUpdate ok req (.inner nodes children) (req.rootInfo root)
      (State.submitted root newPba))

end Mt

end Cbe
