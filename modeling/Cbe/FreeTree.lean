import Cbe.Snapshots
import Cbe.TreeHelper
import Cbe.Support.Exchange
import Mathlib.Data.List.FinRange
import Mathlib.Logic.Function.Basic

/-!
# The free tree

The allocator of the virtual block device. Its leaf entries are the physical
blocks that are free or reserved; an allocation exchanges usable entries: the
block of an entry goes to the tree that asked for it, and the entry takes over
the block that this tree gives up, with the generations, the virtual block
address and the key that decide later when it may be used again.

A request first scans the tree until enough usable entries are found and then
updates it: depth first from the last child of a node, in a level-1 node from
the last entry, until as many entries were exchanged as were requested. Every
visited node that has children or usable entries is written, in place if it is
volatile and otherwise to a block that the meta tree hands out.

The blocks of the free tree come from the pool of the meta tree. They are kept
here as a value (`FtNode`); the blocks the meta tree hands out one after the
other are an input (`metaPbas`), and running out of them raises, as a failed
request to the meta tree does. What the virtual block device sees of all this
is `allocate_spec`: the entries of the tree are a stock from which one usable
entry is exchanged for each level that needs a block.
-/

namespace Cbe

variable {P : Platform}

/-- The three kinds of allocation, by the tag of the request. `poolVbd` is a
write of the client, `forNonRkg` an extension; both exchange in the same way. -/
inductive AllocTag where
  | poolVbd
  | forNonRkg
  | forRkgCurrGenBlks
  | forRkgOldGenBlks
  deriving DecidableEq

/-- **A request to the free tree**, with the snapshots and the last secured
generation that its checks consult. -/
structure AllocRequest where
  /-- The generation that is written. -/
  currentGen : ℕ
  /-- The generation that an entry records for the block that comes back. -/
  freeGen : ℕ
  /-- How many blocks are asked for. -/
  requestedBlocks : ℕ
  /-- The block of each level that comes back. -/
  oldBlocks : Type1NodeWalk
  /-- The level of the root of the tree that asks. -/
  maxLevel : ℕ
  /-- What the blocks are for. -/
  tag : AllocTag
  /-- The virtual block address. -/
  vba : ℕ
  /-- The degree of the tree that asks. -/
  vbdDegree : ℕ
  /-- The last virtual block address. -/
  vbdHighestVba : ℕ
  /-- Whether a rekeying is in progress. -/
  rekeying : Bool
  /-- The key that it replaces. -/
  previousKeyId : ℕ
  /-- The key for what is written. -/
  currentKeyId : ℕ
  /-- The address that the rekeying does next. -/
  rekeyingVba : ℕ
  /-- The snapshots that may need a block. -/
  activeSnaps : Snapshots
  /-- The generation that was secured last. -/
  lastSecuredGen : ℕ

/-! ## The leaf entries

An entry is a block with its history: when it was allocated and freed, for which
address and under which key. -/

/-- The valid snapshot is one that the block of a reserved entry belongs to:
the entry was allocated before or with it and freed after it. -/
def Type2Node.UsedBy (node : Type2Node) (snap : Snapshot) : Prop :=
  snap.valid = true ∧ snap.gen < node.freeGen ∧ node.allocGen < nextGeneration snap.gen

instance (node : Type2Node) (snap : Snapshot) : Decidable (node.UsedBy snap) :=
  inferInstanceAs (Decidable (_ ∧ _ ∧ _))

/-- **`Check_Type_2_Leaf_Usable`.** -/
def checkType2LeafUsable (req : AllocRequest) (node : Type2Node) : Prop :=
  node.pba ≠ 0 ∧ node.pba ≠ pbaInvalid ∧ node.freeGen ≤ req.lastSecuredGen
    ∧ (node.reserved = false
      ∨ (req.rekeying = true ∧ node.lastKeyId = req.previousKeyId
          ∧ node.lastVba < req.rekeyingVba)
      ∨ ∀ i, ¬ node.UsedBy (req.activeSnaps i))

instance (req : AllocRequest) (node : Type2Node) : Decidable (checkType2LeafUsable req node) :=
  inferInstanceAs (Decidable (_ ∧ _ ∧ _ ∧ (_ ∨ _ ∨ _)))

/-- `VBD_Node_Lowest_VBA`: the mask clears the digits below the level. -/
def vbdNodeLowestVba (degree lvl vba : ℕ) : ℕ :=
  vba / 2 ^ (Nat.log2 degree * lvl) * 2 ^ (Nat.log2 degree * lvl)

/-- The power of two that the masks use is one of the radix. -/
theorem two_pow_log2_mul (degree lvl : ℕ) :
    2 ^ (Nat.log2 degree * lvl) = treeRadix degree ^ lvl := by
  unfold treeRadix
  rw [Nat.pow_mul]

/-- The lowest address of a node is below it. -/
theorem sameNode_vbdNodeLowestVba (degree lvl vba : ℕ) :
    sameNode degree lvl (vbdNodeLowestVba degree lvl vba) vba := by
  unfold sameNode vbdNodeLowestVba
  rw [two_pow_log2_mul]
  exact Nat.mul_div_cancel _ (Nat.pow_pos (treeRadix_pos degree))

/-- `VBD_Node_Nr_Of_VBAs`. -/
def vbdNodeNrOfVbas (degree lvl : ℕ) : ℕ := 2 ^ (lvl * Nat.log2 degree)

/-- `VBD_Node_Highest_VBA`. -/
def vbdNodeHighestVba (degree lvl vba : ℕ) : ℕ :=
  vbdNodeLowestVba degree lvl vba + vbdNodeNrOfVbas degree lvl - 1

/-- The entry after the exchange for a level, by the kind of the allocation.
It raises for a block of an old generation whose addresses the rekeying has
passed already. -/
def exchangeType2Leaf (req : AllocRequest) (lvl : ℕ) (node : Type2Node) : Option Type2Node :=
  match req.tag with
  | .poolVbd | .forNonRkg =>
    some {
      pba := (req.oldBlocks lvl).pba
      allocGen := (req.oldBlocks lvl).gen
      freeGen := req.freeGen
      lastVba := vbdNodeLowestVba req.vbdDegree lvl req.vba
      lastKeyId :=
        if req.rekeying = true then
          if req.vba < req.rekeyingVba then req.currentKeyId else req.previousKeyId
        else req.currentKeyId
      reserved := true }
  | .forRkgCurrGenBlks =>
    some {
      pba := (req.oldBlocks lvl).pba
      allocGen := (req.oldBlocks lvl).gen
      freeGen := req.freeGen
      lastVba := vbdNodeLowestVba req.vbdDegree lvl req.vba
      lastKeyId := req.previousKeyId
      reserved := false }
  | .forRkgOldGenBlks =>
    let node := { node with
      allocGen := (req.oldBlocks lvl).gen
      freeGen := req.freeGen
      reserved := true }
    if req.rekeyingVba < vbdNodeHighestVba req.vbdDegree lvl req.vba
        ∧ req.rekeyingVba < req.vbdHighestVba then
      some { node with lastVba := req.rekeyingVba + 1, lastKeyId := req.previousKeyId }
    else if req.rekeyingVba = vbdNodeHighestVba req.vbdDegree lvl req.vba
        ∨ req.rekeyingVba = req.vbdHighestVba then
      some { node with
        lastVba := vbdNodeLowestVba req.vbdDegree lvl req.vba
        lastKeyId := req.currentKeyId }
    else none

/-! ## The tree

The hash of a node is checked when the node is read. -/

/-- **The free tree** below a node: a level-1 node with its entries, or an
inner node with the trees of its children. -/
inductive FtNode where
  | leafs (entries : Type2NodeBlock)
  | inner (nodes : Type1NodeBlock) (children : Fin nodesPerBlock → FtNode)

/-- The block of a node. -/
def FtNode.blockData (P : Platform) : FtNode → P.Block
  | .leafs entries => P.blockDataFromType2NodeBlock entries
  | .inner nodes _ => P.blockDataFromType1NodeBlock nodes

/-- `Populate_Lower_N_Stack`: the children of an inner node, the last one on
top. -/
def populateLowerNStack (nodes : Type1NodeBlock) : List (Fin nodesPerBlock) :=
  ((List.finRange nodesPerBlock).filter fun i => (nodes i).pba ≠ 0).reverse

/-- `Populate_Level_0_Stack`: the usable entries of a level-1 node, the last
one on top. -/
def populateLevel0Stack (req : AllocRequest) (entries : Type2NodeBlock) :
    List (Fin nodesPerBlock) :=
  ((List.finRange nodesPerBlock).filter fun i =>
    decide (checkType2LeafUsable req (entries i))).reverse

/-- `Node_Volatile`. -/
def nodeVolatile (node : Type1Node) (gen : ℕ) : Prop := node.gen = 0 ∨ node.gen = gen

instance (node : Type1Node) (gen : ℕ) : Decidable (nodeVolatile node gen) :=
  inferInstanceAs (Decidable (_ ∨ _))

/-- `Check_Node_Hash`, for the block of a node under its entry. -/
def checkNodeHash (P : Platform) (tree : FtNode) (node : Type1Node) : Prop :=
  P.hash (tree.blockData P) = node.hash

instance (tree : FtNode) (node : Type1Node) : Decidable (checkNodeHash P tree node) :=
  inferInstanceAs (Decidable (_ = _))

/-- The entries of the tree in the order in which it is visited. -/
def FtNode.entries : FtNode → List Type2Node
  | .leafs entries => ((List.finRange nodesPerBlock).map entries).reverse
  | .inner nodes children =>
    (populateLowerNStack nodes).flatMap fun i => (children i).entries

/-- **`Execute_Scan`** below a node: how many usable entries are found,
stopping at the end of the node in which there are enough. -/
def FtNode.executeScan (P : Platform) (req : AllocRequest) :
    FtNode → Type1Node → ℕ → Option ℕ
  | .leafs entries, node, found =>
    if checkNodeHash P (.leafs entries) node then
      some (found + (populateLevel0Stack req entries).length)
    else none
  | .inner nodes children, node, found =>
    if checkNodeHash P (.inner nodes children) node then
      (populateLowerNStack nodes).foldlM (fun found i =>
        if req.requestedBlocks ≤ found then some found
        else (children i).executeScan P req (nodes i) found) found
    else none

/-- What the update carries along. -/
structure UpdateState (P : Platform) where
  /-- The blocks that were found so far. -/
  newPbas : NewPbas
  /-- How many there are. -/
  exchanged : ℕ
  /-- The blocks that the meta tree still has. -/
  metaPbas : List ℕ
  /-- What was written so far. -/
  writes : List (ℕ × P.Block)

/-- An inner node while its children are being updated. -/
structure InnerNodeState (P : Platform) where
  /-- The entries of the node. -/
  nodes : Type1NodeBlock
  /-- The subtrees below them. -/
  children : Fin nodesPerBlock → FtNode
  /-- What is carried along. -/
  state : UpdateState P

/-- **`Exchange_Type_2_Leafs`**, over the levels that may need a block and the
stack of usable entries. -/
def exchangeType2Leafs (req : AllocRequest) :
    List ℕ → List (Fin nodesPerBlock) → Type2NodeBlock → UpdateState P →
      Option (Type2NodeBlock × UpdateState P)
  | [], _, entries, st => some (entries, st)
  | lvl :: lvls, stack, entries, st =>
    if st.newPbas lvl = 0 then
      match stack with
      | [] => some (entries, st)
      | i :: stack =>
        (exchangeType2Leaf req lvl (entries i)).bind fun node =>
          exchangeType2Leafs req lvls stack (Function.update entries i node)
            { st with
              newPbas := Function.update st.newPbas lvl (entries i).pba
              exchanged := st.exchanged + 1 }
    else exchangeType2Leafs req lvls stack entries st

/-- The write-out of a node: in place when it is volatile, else to a block of
the meta tree. The result is the node's new entry. -/
def writeNode (req : AllocRequest) (tree : FtNode) (node : Type1Node)
    (st : UpdateState P) : Option (Type1Node × UpdateState P) :=
  let blk := tree.blockData P
  if nodeVolatile node req.currentGen then
    some ({ pba := node.pba, gen := req.currentGen, hash := P.hash blk },
      { st with writes := st.writes ++ [(node.pba, blk)] })
  else
    match st.metaPbas with
    | [] => none
    | pba :: metaPbas =>
      some ({ pba := pba, gen := req.currentGen, hash := P.hash blk },
        { st with metaPbas := metaPbas, writes := st.writes ++ [(pba, blk)] })

/-- One child of an inner node: it is skipped when enough entries were
exchanged, otherwise `upd` updates it. -/
def updateChild (req : AllocRequest)
    (upd : Fin nodesPerBlock → UpdateState P → Option (FtNode × Type1Node × UpdateState P))
    (acc : InnerNodeState P) (i : Fin nodesPerBlock) : Option (InnerNodeState P) :=
  if acc.state.exchanged = req.requestedBlocks then some acc
  else
    (upd i acc.state).map fun (tree, node, st) =>
      { nodes := Function.update acc.nodes i node
        children := Function.update acc.children i tree
        state := st }

/-- **`Execute_Update`** below a node. The children left when enough entries
were exchanged are skipped, and a node without children or usable entries is
not written. -/
def FtNode.executeUpdate (req : AllocRequest) :
    FtNode → Type1Node → UpdateState P → Option (FtNode × Type1Node × UpdateState P)
  | .leafs entries, node, st =>
    if checkNodeHash P (.leafs entries) node then
      match populateLevel0Stack req entries with
      | [] => some (.leafs entries, node, st)
      | i :: stack =>
        (exchangeType2Leafs req (List.range (req.maxLevel + 1)) (i :: stack) entries st).bind
          fun (entries, st) => (writeNode req (.leafs entries) node st).map
            fun (node, st) => (.leafs entries, node, st)
    else none
  | .inner nodes children, node, st =>
    if checkNodeHash P (.inner nodes children) node then
      match populateLowerNStack nodes with
      | [] => some (.inner nodes children, node, st)
      | i :: stack =>
        ((i :: stack).foldlM
          (updateChild req fun i st => (children i).executeUpdate req (nodes i) st)
          { nodes := nodes, children := children, state := st }).bind
          fun acc => (writeNode req (.inner acc.nodes acc.children) node acc.state).map
            fun (node, st) => (.inner acc.nodes acc.children, node, st)
    else none

/-- What a successful request hands back. -/
structure Allocation (P : Platform) where
  /-- The blocks that were found. -/
  newPbas : NewPbas
  /-- The new root. -/
  root : Type1Node
  /-- The free tree after the exchange. -/
  tree : FtNode
  /-- The blocks that the meta tree still has. -/
  metaPbas : List ℕ
  /-- What was written. -/
  writes : List (ℕ × P.Block)

/-- **A request to the free tree**: scan, then update. A scan that does not
find enough usable entries fails the request, which lets every caller raise. -/
def allocate (P : Platform) (req : AllocRequest) (newPbas : NewPbas) (root : Type1Node)
    (tree : FtNode) (metaPbas : List ℕ) : Option (Allocation P) :=
  (tree.executeScan P req root 0).bind fun found =>
    if found < req.requestedBlocks then none
    else
      (tree.executeUpdate req root
          { newPbas := newPbas, exchanged := 0, metaPbas := metaPbas, writes := [] }).bind
        fun (tree, root, st) =>
          if st.exchanged = req.requestedBlocks then
            some {
              newPbas := st.newPbas
              root := root
              tree := tree
              metaPbas := st.metaPbas
              writes := st.writes }
          else none

/-! ## What an allocation does to the stock of entries

The stock is the list of all leaf entries, and an allocation exchanges some of
them one after the other. All that the virtual block device relies on is said of
the stock. -/

/-- The levels that still need a block. -/
def UpdateState.pending (req : AllocRequest) (st : UpdateState P) : List ℕ :=
  (List.range (req.maxLevel + 1)).filter fun lvl => st.newPbas lvl = 0

/-- An exchange on behalf of a level: a usable entry hands its block out and
takes over what the level gives up. -/
def ExchangedAt (req : AllocRequest) (newPbas : NewPbas) (lvl : ℕ) (node node' : Type2Node) :
    Prop :=
  checkType2LeafUsable req node ∧ exchangeType2Leaf req lvl node = some node'
    ∧ newPbas lvl = node.pba

/-- **A part of the update on a part of the stock**: the first of the pending
levels got their blocks by exchanges, the others are as before. -/
def Updated (req : AllocRequest) (st st' : UpdateState P) (es es' : List Type2Node) : Prop :=
  ∃ lvls, st.pending req = lvls ++ st'.pending req
    ∧ st'.exchanged = st.exchanged + lvls.length
    ∧ Exchanges (ExchangedAt req st'.newPbas) lvls es es'
    ∧ (∀ lvl, lvl ∉ lvls → st'.newPbas lvl = st.newPbas lvl)
    ∧ ∀ pba ∈ st'.metaPbas, pba ∈ st.metaPbas

/-- Nothing was exchanged. -/
theorem Updated.refl (req : AllocRequest) (st : UpdateState P) (es : List Type2Node) :
    Updated req st st es es :=
  ⟨[], rfl, rfl, Exchanges.refl es, fun _ _ => rfl, fun _ h => h⟩

/-- Pending levels are listed once. -/
theorem UpdateState.pending_nodup (req : AllocRequest) (st : UpdateState P) :
    (st.pending req).Nodup := List.nodup_range.filter _

/-- **The parts of an update on the parts of a stock compose.** -/
theorem Updated.append {req : AllocRequest} {st st₁ st₂ : UpdateState P}
    {es es' fs fs' : List Type2Node} (h : Updated req st st₁ es es')
    (h' : Updated req st₁ st₂ fs fs') : Updated req st st₂ (es ++ fs) (es' ++ fs') := by
  obtain ⟨lvls, hp, hn, hx, hnew, hmeta⟩ := h
  obtain ⟨lvls', hp', hn', hx', hnew', hmeta'⟩ := h'
  -- a level that got its block in the first part is not pending in the second
  have hdisj : ∀ lvl ∈ lvls, lvl ∉ lvls' := by
    intro lvl hl hl'
    have hnd := st.pending_nodup req
    rw [hp, hp'] at hnd
    exact (List.nodup_append.mp hnd).2.2 lvl hl lvl (List.mem_append_left _ hl') rfl
  refine ⟨lvls ++ lvls', by rw [hp, hp', List.append_assoc], ?_, ?_, ?_,
    fun pba hpba => hmeta pba (hmeta' pba hpba)⟩
  · rw [hn', hn, List.length_append, Nat.add_assoc]
  · refine Exchanges.append (hx.mono ?_) hx'
    rintro lvl a b hl - ⟨hu, he, hpba⟩
    exact ⟨hu, he, by rw [hnew' lvl (hdisj lvl hl), hpba]⟩
  · intro lvl hl
    rw [List.mem_append, not_or] at hl
    rw [hnew' lvl hl.2, hnew lvl hl.1]

/-- The stock may be reordered. -/
theorem Updated.perm {req : AllocRequest} {st st' : UpdateState P}
    {es es' fs fs' : List Type2Node} (h : Updated req st st' es es')
    (he : fs.Perm es) (he' : fs'.Perm es') : Updated req st st' fs fs' := by
  obtain ⟨lvls, hp, hn, hx, hnew, hmeta⟩ := h
  exact ⟨lvls, hp, hn, hx.perm he he', hnew, hmeta⟩

/-- Writing a node out changes nothing about the levels. -/
theorem Updated.writeNode {req : AllocRequest} {st st₁ st₂ : UpdateState P}
    {es es' : List Type2Node} {tree : FtNode} {node node' : Type1Node}
    (h : Updated req st st₁ es es') (hw : Cbe.writeNode req tree node st₁ = some (node', st₂)) :
    Updated req st st₂ es es' := by
  have hst : st₂.newPbas = st₁.newPbas ∧ st₂.exchanged = st₁.exchanged
      ∧ ∀ pba ∈ st₂.metaPbas, pba ∈ st₁.metaPbas := by
    unfold Cbe.writeNode at hw
    dsimp only at hw
    split_ifs at hw
    · obtain ⟨-, rfl⟩ := Prod.mk.inj (Option.some.inj hw)
      exact ⟨rfl, rfl, fun _ h => h⟩
    · split at hw
      · exact absurd hw (by simp)
      · next hm =>
        obtain ⟨-, rfl⟩ := Prod.mk.inj (Option.some.inj hw)
        refine ⟨rfl, rfl, fun pba hpba => ?_⟩
        rw [hm]
        exact List.mem_cons_of_mem _ hpba
  obtain ⟨hnew₂, hex₂, hmeta₂⟩ := hst
  obtain ⟨lvls, hp, hn, hx, hnew, hmeta⟩ := h
  have hpend : st₂.pending req = st₁.pending req := by
    unfold UpdateState.pending
    rw [hnew₂]
  refine ⟨lvls, by rw [hp, hpend], by rw [hex₂, hn], ?_, ?_, fun pba h => hmeta pba (hmeta₂ pba h)⟩
  · rw [hnew₂]
    exact hx
  · rw [hnew₂]
    exact hnew

/-- A written node has an address if it had one before and the meta tree hands
out real addresses. -/
theorem writeNode_pba_ne_zero {req : AllocRequest} {st st' : UpdateState P}
    {tree : FtNode} {node node' : Type1Node}
    (hw : writeNode req tree node st = some (node', st')) (hnode : node.pba ≠ 0)
    (hmeta : ∀ pba ∈ st.metaPbas, pba ≠ 0) : node'.pba ≠ 0 := by
  unfold writeNode at hw
  dsimp only at hw
  split_ifs at hw
  · obtain ⟨rfl, -⟩ := Prod.mk.inj (Option.some.inj hw)
    exact hnode
  · split at hw
    · exact absurd hw (by simp)
    · next hm =>
      obtain ⟨rfl, -⟩ := Prod.mk.inj (Option.some.inj hw)
      exact hmeta _ (by rw [hm]; exact List.mem_cons_self)

/-- Over a list of levels, `Exchange_Type_2_Leafs` serves the first ones that
need a block from the stack of usable entries. -/
theorem exchangeType2Leafs_spec {req : AllocRequest} {lvls : List ℕ}
    {stack : List (Fin nodesPerBlock)} {entries entries' : Type2NodeBlock}
    {st st' : UpdateState P}
    (h : exchangeType2Leafs req lvls stack entries st = some (entries', st'))
    (hlvls : lvls.Nodup) (hstack : stack.Nodup)
    (husable : ∀ i ∈ stack, checkType2LeafUsable req (entries i)) :
    ∃ served, lvls.filter (fun lvl => st.newPbas lvl = 0)
          = served ++ lvls.filter (fun lvl => st'.newPbas lvl = 0)
      ∧ st'.exchanged = st.exchanged + served.length
      ∧ Exchanges (ExchangedAt req st'.newPbas) served (stack.map entries)
          (stack.map entries')
      ∧ (∀ lvl, lvl ∉ served → st'.newPbas lvl = st.newPbas lvl)
      ∧ (∀ i, i ∉ stack → entries' i = entries i)
      ∧ st'.metaPbas = st.metaPbas := by
  induction lvls generalizing stack entries st with
  | nil =>
    obtain ⟨rfl, rfl⟩ := Prod.mk.inj (Option.some.inj h)
    exact ⟨[], by simp, rfl, Exchanges.refl _, fun _ _ => rfl, fun _ _ => rfl, rfl⟩
  | cons lvl lvls ih =>
    obtain ⟨hlvl, hlvls⟩ := List.nodup_cons.mp hlvls
    unfold exchangeType2Leafs at h
    split_ifs at h with hzero
    · split at h
      · -- no usable entry is left
        obtain ⟨rfl, rfl⟩ := Prod.mk.inj (Option.some.inj h)
        exact ⟨[], by simp, rfl, Exchanges.refl _, fun _ _ => rfl, fun _ _ => rfl, rfl⟩
      · next i stack =>
        obtain ⟨node, hnode, h⟩ := Option.bind_eq_some_iff.mp h
        obtain ⟨hi, hstack⟩ := List.nodup_cons.mp hstack
        have hne : ∀ j ∈ stack, j ≠ i := fun j hj hji => hi (hji ▸ hj)
        obtain ⟨served, hfilter, hex, hx, hnew, hother, hmeta⟩ := ih h hlvls hstack
          (fun j hj => by
            rw [Function.update_of_ne (hne j hj)]
            exact husable j (List.mem_cons_of_mem _ hj))
        dsimp only at hfilter hex hnew
        have hpba : (entries i).pba ≠ 0 := (husable i List.mem_cons_self).1
        -- the levels behind this one are not affected by its new block
        have hrest : lvls.filter (fun l => Function.update st.newPbas lvl (entries i).pba l = 0)
            = lvls.filter (fun l => st.newPbas l = 0) := by
          refine List.filter_congr fun l hl => ?_
          rw [Function.update_of_ne fun hll => hlvl (by rw [← hll]; exact hl)]
        have hserved : lvl ∉ served := by
          intro hmem
          have hin : lvl ∈ served ++ lvls.filter (fun l => st'.newPbas l = 0) :=
            List.mem_append_left _ hmem
          rw [← hfilter] at hin
          exact hlvl (List.mem_filter.mp hin).1
        have hlvl' : st'.newPbas lvl = (entries i).pba := by
          rw [hnew lvl hserved, Function.update_self]
        refine ⟨lvl :: served, ?_, ?_, ?_, ?_, ?_, hmeta⟩
        · rw [List.filter_cons_of_pos (by simpa using hzero), List.filter_cons_of_neg
            (by simpa [hlvl'] using hpba), List.cons_append, ← hfilter, hrest]
        · rw [hex, List.length_cons]
          omega
        · have hhead : Exchanges (ExchangedAt req st'.newPbas) [lvl] [entries i] [node] :=
            Exchanges.single ⟨husable i List.mem_cons_self, hnode, hlvl'⟩ []
          have htail : stack.map (Function.update entries i node) = stack.map entries :=
            List.map_congr_left fun j hj => Function.update_of_ne (hne j hj) _ _
          have hentry : entries' i = node := by
            rw [hother i hi, Function.update_self]
          rw [htail] at hx
          rw [List.map_cons, List.map_cons, hentry]
          exact hhead.append hx
        · intro l hl
          rw [List.mem_cons, not_or] at hl
          rw [hnew l hl.2, Function.update_of_ne hl.1]
        · intro j hj
          rw [List.mem_cons, not_or] at hj
          rw [hother j hj.2, Function.update_of_ne hj.1]
    · -- this level needs no block
      obtain ⟨served, hfilter, hex, hx, hnew, hother, hmeta⟩ := ih h hlvls hstack husable
      have hserved : lvl ∉ served := by
        intro hmem
        have hin : lvl ∈ served ++ lvls.filter (fun l => st'.newPbas l = 0) :=
          List.mem_append_left _ hmem
        rw [← hfilter] at hin
        exact hlvl (List.mem_filter.mp hin).1
      refine ⟨served, ?_, hex, hx, hnew, hother, hmeta⟩
      rw [List.filter_cons_of_neg (by simpa using hzero), List.filter_cons_of_neg
        (by rw [hnew lvl hserved]; simpa using hzero), hfilter]

/-- The entries of a level-1 node, those on the stack first. -/
theorem FtNode.entries_leafs_perm (req : AllocRequest) (entries entries' : Type2NodeBlock) :
    (FtNode.leafs entries').entries.Perm
      ((populateLevel0Stack req entries).map entries'
        ++ ((List.finRange nodesPerBlock).filter fun i =>
            !decide (checkType2LeafUsable req (entries i))).map entries') := by
  unfold FtNode.entries populateLevel0Stack
  refine (List.reverse_perm _).trans ?_
  rw [← List.map_append]
  refine List.Perm.map _ ?_
  refine (List.filter_append_perm (fun i => decide (checkType2LeafUsable req (entries i)))
    (List.finRange nodesPerBlock)).symm.trans ?_
  exact List.Perm.append_right _ (List.reverse_perm _).symm

/-- One child of an inner node, when `upd` is an update on the entries of the
children. -/
theorem updateChild_spec {req : AllocRequest}
    {upd : Fin nodesPerBlock → UpdateState P → Option (FtNode × Type1Node × UpdateState P)}
    {acc acc' : InnerNodeState P} {i : Fin nodesPerBlock}
    (h : updateChild req upd acc i = some acc')
    (hupd : ∀ tree node st', upd i acc.state = some (tree, node, st') →
      Updated req acc.state st' (acc.children i).entries tree.entries
        ∧ ((acc.nodes i).pba ≠ 0 → node.pba ≠ 0)) :
    Updated req acc.state acc'.state (acc.children i).entries (acc'.children i).entries
      ∧ ((acc.nodes i).pba ≠ 0 → (acc'.nodes i).pba ≠ 0)
      ∧ ∀ j, j ≠ i → acc'.nodes j = acc.nodes j ∧ acc'.children j = acc.children j := by
  unfold updateChild at h
  split_ifs at h
  · obtain rfl := Option.some.inj h
    exact ⟨Updated.refl req _ _, id, fun _ _ => ⟨rfl, rfl⟩⟩
  · obtain ⟨⟨tree, node, st⟩, hrun, rfl⟩ := Option.map_eq_some_iff.mp h
    obtain ⟨hu, hp⟩ := hupd tree node st hrun
    refine ⟨?_, ?_, fun j hj => ⟨Function.update_of_ne hj _ _, Function.update_of_ne hj _ _⟩⟩
    · dsimp only
      rw [Function.update_self]
      exact hu
    · dsimp only
      rw [Function.update_self]
      exact hp

/-- **The children of an inner node, one after the other.** -/
theorem updateChildren_spec {req : AllocRequest}
    {upd : Fin nodesPerBlock → UpdateState P → Option (FtNode × Type1Node × UpdateState P)}
    {nodes : Type1NodeBlock} {children : Fin nodesPerBlock → FtNode}
    (hupd : ∀ i st tree node st', (∀ pba ∈ st.metaPbas, pba ≠ 0) →
      upd i st = some (tree, node, st') →
      Updated req st st' (children i).entries tree.entries
        ∧ ((nodes i).pba ≠ 0 → node.pba ≠ 0))
    {stack : List (Fin nodesPerBlock)} {acc acc' : InnerNodeState P} (hstack : stack.Nodup)
    (hacc : ∀ i ∈ stack, acc.nodes i = nodes i ∧ acc.children i = children i)
    (hmeta : ∀ pba ∈ acc.state.metaPbas, pba ≠ 0)
    (h : stack.foldlM (updateChild req upd) acc = some acc') :
    Updated req acc.state acc'.state (stack.flatMap fun i => (children i).entries)
        (stack.flatMap fun i => (acc'.children i).entries)
      ∧ (∀ i ∈ stack, (nodes i).pba ≠ 0 → (acc'.nodes i).pba ≠ 0)
      ∧ ∀ i, i ∉ stack → acc'.nodes i = acc.nodes i ∧ acc'.children i = acc.children i := by
  induction stack generalizing acc with
  | nil =>
    obtain rfl := Option.some.inj h
    exact ⟨Updated.refl req _ _, by simp, fun _ _ => ⟨rfl, rfl⟩⟩
  | cons i stack ih =>
    obtain ⟨hi, hstack⟩ := List.nodup_cons.mp hstack
    have hne : ∀ j ∈ stack, j ≠ i := fun j hj hji => hi (hji ▸ hj)
    obtain ⟨hnode, hchild⟩ := hacc i List.mem_cons_self
    rw [List.foldlM_cons] at h
    obtain ⟨acc₁, hstep, h⟩ := Option.bind_eq_some_iff.mp h
    obtain ⟨hu, hp, hoff⟩ := updateChild_spec hstep fun tree node st' hrun => by
      rw [hnode, hchild]
      exact hupd i acc.state tree node st' hmeta hrun
    have hmeta₁ : ∀ pba ∈ acc₁.state.metaPbas, pba ≠ 0 := by
      obtain ⟨-, -, -, -, -, hsub⟩ := hu
      exact fun pba hpba => hmeta pba (hsub pba hpba)
    obtain ⟨hu', hp', hoff'⟩ := ih hstack
      (fun j hj => by
        rw [(hoff j (hne j hj)).1, (hoff j (hne j hj)).2]
        exact hacc j (List.mem_cons_of_mem _ hj)) hmeta₁ h
    rw [hnode] at hp
    rw [hchild] at hu
    refine ⟨?_, fun j hj hpj => ?_, fun j hj => ?_⟩
    · rw [List.flatMap_cons, List.flatMap_cons, (hoff' i hi).2]
      exact hu.append hu'
    · rcases List.mem_cons.mp hj with rfl | hj
      · rw [(hoff' j hi).1]
        exact hp hpj
      · exact hp' j hj hpj
    · rw [List.mem_cons, not_or] at hj
      rw [(hoff' j hj.2).1, (hoff' j hj.2).2]
      exact hoff j hj.1

/-- **What the update does below a node**: it serves pending levels from the
entries of the node, and the node keeps having an address. -/
theorem FtNode.executeUpdate_spec {req : AllocRequest} {tree tree' : FtNode}
    {node node' : Type1Node} {st st' : UpdateState P}
    (h : tree.executeUpdate req node st = some (tree', node', st'))
    (hmeta : ∀ pba ∈ st.metaPbas, pba ≠ 0) :
    Updated req st st' tree.entries tree'.entries ∧ (node.pba ≠ 0 → node'.pba ≠ 0) := by
  induction tree generalizing tree' node node' st st' with
  | leafs entries =>
    unfold FtNode.executeUpdate at h
    split_ifs at h
    split at h
    · simp only [Option.some.injEq, Prod.mk.injEq] at h
      obtain ⟨rfl, rfl, rfl⟩ := h
      exact ⟨Updated.refl req st _, id⟩
    · next i stack hpop =>
      obtain ⟨⟨entries', st₁⟩, hexch, h⟩ := Option.bind_eq_some_iff.mp h
      obtain ⟨⟨node₁, st₂⟩, hw, h⟩ := Option.map_eq_some_iff.mp h
      simp only [Prod.mk.injEq] at h
      obtain ⟨rfl, rfl, rfl⟩ := h
      have hmem : ∀ j ∈ i :: stack, checkType2LeafUsable req (entries j) := by
        intro j hj
        rw [← hpop] at hj
        simpa [populateLevel0Stack] using hj
      have hnodup : (i :: stack).Nodup := by
        rw [← hpop]
        exact List.nodup_reverse.mpr ((List.nodup_finRange _).filter _)
      obtain ⟨served, hfilter, hex, hx, hnew, hother, hm⟩ :=
        exchangeType2Leafs_spec hexch List.nodup_range hnodup hmem
      have hstock : Updated req st st₁ ((i :: stack).map entries) ((i :: stack).map entries') :=
        ⟨served, hfilter, hex, hx, hnew, fun pba hpba => by rw [← hm]; exact hpba⟩
      refine ⟨Updated.writeNode ?_ hw, fun hpba =>
        writeNode_pba_ne_zero hw hpba (fun pba hpba => hmeta pba (by rw [← hm]; exact hpba))⟩
      -- the entries that are not on the stack stay as they are
      have hfixed : ((List.finRange nodesPerBlock).filter fun i =>
            !decide (checkType2LeafUsable req (entries i))).map entries'
          = ((List.finRange nodesPerBlock).filter fun i =>
            !decide (checkType2LeafUsable req (entries i))).map entries := by
        refine List.map_congr_left fun j hj => hother j fun hjs => ?_
        exact absurd (hmem j hjs) (by simpa using (List.mem_filter.mp hj).2)
      have hperm := FtNode.entries_leafs_perm req entries entries
      have hperm' := FtNode.entries_leafs_perm req entries entries'
      rw [hpop] at hperm hperm'
      rw [hfixed] at hperm'
      exact (hstock.append (Updated.refl req st₁ _)).perm hperm hperm'
  | inner nodes children ih =>
    unfold FtNode.executeUpdate at h
    split_ifs at h
    split at h
    · simp only [Option.some.injEq, Prod.mk.injEq] at h
      obtain ⟨rfl, rfl, rfl⟩ := h
      exact ⟨Updated.refl req st _, id⟩
    · next i stack hpop =>
      obtain ⟨acc, hfold, h⟩ := Option.bind_eq_some_iff.mp h
      obtain ⟨⟨node₁, st₂⟩, hw, h⟩ := Option.map_eq_some_iff.mp h
      simp only [Prod.mk.injEq] at h
      obtain ⟨rfl, rfl, rfl⟩ := h
      have hnodup : (i :: stack).Nodup := by
        rw [← hpop]
        exact List.nodup_reverse.mpr ((List.nodup_finRange _).filter _)
      have hmem : ∀ j, j ∈ i :: stack ↔ (nodes j).pba ≠ 0 := by
        intro j
        rw [← hpop]
        simp [populateLowerNStack]
      obtain ⟨hu, hp, hoff⟩ := updateChildren_spec
        (fun j st tree node st' hm hrun => ih j hrun hm) hnodup (fun _ _ => ⟨rfl, rfl⟩)
        hmeta hfold
      -- the node has the same children after the update
      have hpop' : populateLowerNStack acc.nodes = i :: stack := by
        rw [← hpop]
        unfold populateLowerNStack
        refine congrArg List.reverse (List.filter_congr fun j _ => ?_)
        by_cases hj : (nodes j).pba ≠ 0
        · simp only [hj, ne_eq, not_false_eq_true, hp j ((hmem j).mpr hj) hj]
        · rw [(hoff j fun hjm => hj ((hmem j).mp hjm)).1]
      refine ⟨Updated.writeNode ?_ hw, fun hpba => writeNode_pba_ne_zero hw hpba ?_⟩
      · unfold FtNode.entries
        rw [hpop, hpop']
        exact hu
      · obtain ⟨-, -, -, -, -, hsub⟩ := hu
        exact fun pba hpba => hmeta pba (hsub pba hpba)

/-- The levels that ask for a block. -/
def pendingLevels (req : AllocRequest) (newPbas : NewPbas) : List ℕ :=
  (List.range (req.maxLevel + 1)).filter fun lvl => newPbas lvl = 0

/-- The levels that still need a block. -/
theorem mem_pendingLevels {req : AllocRequest} {newPbas : NewPbas} {lvl : ℕ} :
    lvl ∈ pendingLevels req newPbas ↔ lvl ≤ req.maxLevel ∧ newPbas lvl = 0 := by
  unfold pendingLevels
  rw [List.mem_filter, List.mem_range, Nat.lt_succ_iff, decide_eq_true_eq]

/-- **What a successful request does**: when it asks for as many blocks as
there are levels without one, each of these levels gets the block of a usable
entry by an exchange, the other levels keep theirs. -/
theorem allocate_spec {req : AllocRequest} {newPbas : NewPbas} {root : Type1Node}
    {tree : FtNode} {metaPbas : List ℕ} {res : Allocation P}
    (h : allocate P req newPbas root tree metaPbas = some res)
    (hmeta : ∀ pba ∈ metaPbas, pba ≠ 0)
    (hcount : req.requestedBlocks = (pendingLevels req newPbas).length) :
    Exchanges (ExchangedAt req res.newPbas) (pendingLevels req newPbas) tree.entries
        res.tree.entries
      ∧ ∀ lvl, lvl ∉ pendingLevels req newPbas → res.newPbas lvl = newPbas lvl := by
  unfold allocate at h
  obtain ⟨found, -, h⟩ := Option.bind_eq_some_iff.mp h
  split_ifs at h
  obtain ⟨⟨tree', root', st⟩, hupd, h⟩ := Option.bind_eq_some_iff.mp h
  dsimp only at h
  split_ifs at h with hex
  obtain rfl := Option.some.inj h
  obtain ⟨⟨lvls, hp, hn, hx, hnew, -⟩, -⟩ := FtNode.executeUpdate_spec hupd hmeta
  have hpend : pendingLevels req newPbas = lvls ++ st.pending req := hp
  -- all of the pending levels were served, by their number
  have hall : pendingLevels req newPbas = lvls := by
    have hlen : lvls.length = (pendingLevels req newPbas).length := by
      rw [← hcount, ← hex, hn]
      exact (Nat.zero_add _).symm
    have hnil : st.pending req = [] := by
      rw [← List.length_eq_zero_iff]
      rw [hpend, List.length_append] at hlen
      omega
    rw [hpend, hnil, List.append_nil]
  rw [hall]
  exact ⟨hx, hnew⟩

/-! ## The stock by addresses

The same, for the addresses of the entries. -/

/-- The addresses of the entries that hold a block. -/
def stockPbas (entries : List Type2Node) : List ℕ :=
  (entries.filter fun e => decide (e.pba ≠ 0)).map Type2Node.pba

/-- In the stock, an address belongs to one entry. -/
theorem eq_of_stockPbas {entries : List Type2Node} (h : (stockPbas entries).Nodup)
    {a b : Type2Node} (ha : a ∈ entries) (hb : b ∈ entries) (hzero : a.pba ≠ 0)
    (heq : a.pba = b.pba) : a = b := by
  refine List.inj_on_of_nodup_map h ?_ ?_ heq
  · exact List.mem_filter.mpr ⟨ha, decide_eq_true hzero⟩
  · exact List.mem_filter.mpr ⟨hb, decide_eq_true (by rw [← heq]; exact hzero)⟩

/-- What every exchange records: the generation of the old block and the
generation in which it was freed. -/
theorem exchangeType2Leaf_gens {req : AllocRequest} {lvl : ℕ} {node node' : Type2Node}
    (h : exchangeType2Leaf req lvl node = some node') :
    node'.allocGen = (req.oldBlocks lvl).gen ∧ node'.freeGen = req.freeGen := by
  unfold exchangeType2Leaf at h
  split at h
  · obtain rfl := Option.some.inj h
    exact ⟨rfl, rfl⟩
  · obtain rfl := Option.some.inj h
    exact ⟨rfl, rfl⟩
  · obtain rfl := Option.some.inj h
    exact ⟨rfl, rfl⟩
  · dsimp only at h
    split_ifs at h <;> obtain rfl := Option.some.inj h <;> exact ⟨rfl, rfl⟩

/-- The address that the entry of an exchange has afterwards: the one of the
block given up, but for a block of an old generation that of the block handed
out. -/
def returnedPba (req : AllocRequest) (newPbas : NewPbas) (lvl : ℕ) : ℕ :=
  if req.tag = .forRkgOldGenBlks then newPbas lvl else (req.oldBlocks lvl).pba

/-- The entry has the address of the block that was given up. -/
theorem exchangeType2Leaf_pba {req : AllocRequest} {lvl : ℕ} {newPbas : NewPbas}
    {node node' : Type2Node} (h : exchangeType2Leaf req lvl node = some node')
    (hnew : newPbas lvl = node.pba) : node'.pba = returnedPba req newPbas lvl := by
  unfold exchangeType2Leaf at h
  unfold returnedPba
  split at h
  all_goals next htag =>
    rw [htag]
    first
      | (obtain rfl := Option.some.inj h; rfl)
      | (dsimp only at h; split_ifs at h <;> obtain rfl := Option.some.inj h <;> simp [hnew])

/-- **A hand-out of blocks** for some levels of a request, by the addresses of
the stock. -/
structure Handout (req : AllocRequest) (lvls : List ℕ) (newPbas : NewPbas)
    (entries entries' : List Type2Node) : Prop where
  /-- Each level gets the block of a usable entry, which is exchanged. -/
  taken : ∀ lvl ∈ lvls, ∃ e ∈ entries, ∃ e' ∈ entries', checkType2LeafUsable req e
    ∧ e.pba = newPbas lvl ∧ exchangeType2Leaf req lvl e = some e'
  /-- Two levels get different blocks. -/
  injOn : ∀ lvl ∈ lvls, ∀ lvl' ∈ lvls, newPbas lvl = newPbas lvl' → lvl = lvl'
  /-- What is in the stock afterwards stayed in it or is the result of an exchange. -/
  mem : ∀ e' ∈ entries', (e' ∈ entries ∧ (e'.pba ≠ 0 → ∀ lvl ∈ lvls, e'.pba ≠ newPbas lvl))
    ∨ ∃ lvl ∈ lvls, ∃ e ∈ entries, checkType2LeafUsable req e ∧ e.pba = newPbas lvl
      ∧ exchangeType2Leaf req lvl e = some e'
  /-- What is not handed out stays. -/
  kept : ∀ e ∈ entries, (e.pba ≠ 0 → ∀ lvl ∈ lvls, e.pba ≠ newPbas lvl) → e ∈ entries'
  /-- The addresses stay distinct if those that come back are new. -/
  nodup : (lvls.map (returnedPba req newPbas)).Nodup →
    (∀ lvl ∈ lvls, returnedPba req newPbas lvl ≠ 0) →
    (∀ lvl ∈ lvls, ∀ e ∈ entries, e.pba ≠ 0 → (∀ k ∈ lvls, e.pba ≠ newPbas k) →
      e.pba ≠ returnedPba req newPbas lvl) → (stockPbas entries').Nodup

/-- **A successful request is a hand-out** for the levels without a block. -/
theorem allocate_handout {req : AllocRequest} {newPbas : NewPbas} {root : Type1Node}
    {tree : FtNode} {metaPbas : List ℕ} {res : Allocation P}
    (h : allocate P req newPbas root tree metaPbas = some res)
    (hmeta : ∀ pba ∈ metaPbas, pba ≠ 0)
    (hcount : req.requestedBlocks = (pendingLevels req newPbas).length)
    (hstock : (stockPbas tree.entries).Nodup) :
    Handout req (pendingLevels req newPbas) res.newPbas tree.entries res.tree.entries
      ∧ ∀ lvl, lvl ∉ pendingLevels req newPbas → res.newPbas lvl = newPbas lvl := by
  obtain ⟨hx, hother⟩ := allocate_spec h hmeta hcount
  refine ⟨?_, hother⟩
  have hkey : ∀ lvl (a b : Type2Node), ExchangedAt req res.newPbas lvl a b →
      a.pba ≠ 0 ∧ a.pba = res.newPbas lvl :=
    fun lvl a b hab => ⟨hab.1.1, hab.2.2.symm⟩
  refine ⟨fun lvl hl => ?_, fun lvl hl lvl' hl' heq => hx.key_injOn hstock hkey hl hl' heq,
    fun e' he' => ?_, fun e he hne => hx.mem_of_keys hstock hkey he hne,
    fun hnd hzero hdisj => ?_⟩
  · obtain ⟨a, ha, b, hb, hu, he, hpba⟩ := hx.exists_of_mem hl
    exact ⟨a, ha, b, hb, hu, hpba.symm, he⟩
  · rcases hx.mem_of_mem_keys hstock hkey he' with hl | ⟨lvl, hl, a, ha, hu, he, hpba⟩
    · exact Or.inl hl
    · exact Or.inr ⟨lvl, hl, a, ha, hu, hpba.symm, he⟩
  · -- restrict the exchanges to the levels at hand to know what comes back
    have hx' : Exchanges (fun lvl a b => lvl ∈ pendingLevels req newPbas
        ∧ ExchangedAt req res.newPbas lvl a b) (pendingLevels req newPbas) tree.entries
        res.tree.entries := hx.mono fun lvl a b hl _ hab => ⟨hl, hab⟩
    refine hx'.nodup_of_keys (returnedPba req res.newPbas) hstock
      (fun lvl a b hab => hkey lvl a b hab.2) (fun lvl a b hab => ?_) hnd hdisj
    have hpba := exchangeType2Leaf_pba hab.2.2.1 hab.2.2.2
    exact ⟨by rw [hpba]; exact hzero lvl hab.1, hpba⟩

/-! ## Several requests

A step of the rekeying asks the free tree several times. Its requests agree on
which entries are usable, and no entry that one of them puts back is usable for
the next. So together they draw from the stock that the step began with. -/

/-- A block that was handed out for a level, with the entry that took its
place. -/
structure Draw where
  /-- The block. -/
  pba : ℕ
  /-- The level. -/
  lvl : ℕ
  /-- The entry that has taken its place. -/
  entry : Type2Node

/-- **What several requests have drawn** from a stock. -/
structure Drawn (usable : Type2Node → Prop) (es es' : List Type2Node) (out : List Draw) :
    Prop where
  /-- Each block was that of a usable entry. -/
  taken : ∀ x ∈ out, ∃ e ∈ es, usable e ∧ e.pba = x.pba
  /-- What has taken its place is in the stock, and is not usable. -/
  put : ∀ x ∈ out, x.entry ∈ es' ∧ ¬ usable x.entry
  /-- No block was drawn twice. -/
  nodup : (out.map Draw.pba).Nodup
  /-- What is in the stock was there, or has been put back. -/
  mem : ∀ e ∈ es', (e ∈ es ∧ (e.pba ≠ 0 → ∀ x ∈ out, e.pba ≠ x.pba)) ∨ ∃ x ∈ out, x.entry = e
  /-- What was not drawn stayed. -/
  kept : ∀ e ∈ es, (e.pba ≠ 0 → ∀ x ∈ out, e.pba ≠ x.pba) → e ∈ es'
  /-- No two entries of the stock have one block. -/
  stock : (stockPbas es').Nodup

namespace Drawn

variable {usable : Type2Node → Prop} {es es' es'' : List Type2Node} {out : List Draw}

/-- Nothing was drawn. -/
theorem nil (h : (stockPbas es).Nodup) : Drawn usable es es [] where
  taken := by simp
  put := by simp
  nodup := List.nodup_nil
  mem e he := Or.inl ⟨he, by simp⟩
  kept e he _ := he
  stock := h

/-- A block was drawn once. -/
theorem eq_of_pba (h : Drawn usable es es' out) {x y : Draw} (hx : x ∈ out) (hy : y ∈ out)
    (heq : x.pba = y.pba) : x = y := List.inj_on_of_nodup_map h.nodup hx hy heq

/-- **The next request draws from the same stock.** -/
theorem handout {req : AllocRequest} {lvls : List ℕ} {newPbas : NewPbas}
    (h : Drawn usable es es' out) (hh : Handout req lvls newPbas es' es'')
    (husable : ∀ e, checkType2LeafUsable req e → usable e) (hpos : ∀ e, usable e → e.pba ≠ 0)
    (hput : ∀ l ∈ lvls, ∀ e e', exchangeType2Leaf req l e = some e' → ¬ usable e')
    (hlvls : lvls.Nodup) (hstock : (stockPbas es'').Nodup) :
    ∃ new, Drawn usable es es'' (out ++ new)
      ∧ (∀ l ∈ lvls, ∃ x ∈ new, x.pba = newPbas l ∧ x.lvl = l
        ∧ ∃ e, e.pba = newPbas l ∧ exchangeType2Leaf req l e = some x.entry)
      ∧ ∀ x ∈ new, x.lvl ∈ lvls ∧ x.pba = newPbas x.lvl
        ∧ ∃ e, e.pba = newPbas x.lvl ∧ exchangeType2Leaf req x.lvl e = some x.entry := by
  have : Nonempty Type2Node := ⟨type2NodeInvalid⟩
  choose! a ha b hb hu hpba hex using hh.taken
  -- a usable entry of the stock at hand was in the stock at the beginning
  have hold : ∀ e ∈ es', usable e → e ∈ es ∧ ∀ x ∈ out, e.pba ≠ x.pba := by
    intro e he hue
    rcases h.mem e he with ⟨hes, hne⟩ | ⟨x, hx, rfl⟩
    · exact ⟨hes, hne (hpos e hue)⟩
    · exact absurd hue (h.put x hx).2
  have hnew : ∀ x, x ∈ lvls.map (fun l => (⟨newPbas l, l, b l⟩ : Draw)) →
      x.lvl ∈ lvls ∧ x.pba = newPbas x.lvl ∧ x.entry = b x.lvl := by
    intro x hx
    obtain ⟨l, hl, rfl⟩ := List.mem_map.mp hx
    exact ⟨hl, rfl, rfl⟩
  refine ⟨lvls.map fun l => ⟨newPbas l, l, b l⟩, ?_, fun l hl => ?_, fun x hx => ?_⟩
  · refine ⟨fun x hx => ?_, fun x hx => ?_, ?_, fun e he => ?_, fun e he hne => ?_, hstock⟩
    · rcases List.mem_append.mp hx with hx | hx
      · exact h.taken x hx
      · obtain ⟨hl, hp, -⟩ := hnew x hx
        have hue := husable _ (hu x.lvl hl)
        exact ⟨a x.lvl, (hold _ (ha x.lvl hl) hue).1, hue, by rw [hpba x.lvl hl, hp]⟩
    · rcases List.mem_append.mp hx with hx | hx
      · obtain ⟨hmem, hnu⟩ := h.put x hx
        refine ⟨hh.kept _ hmem fun h0 l hl heq => hnu ?_, hnu⟩
        have hsame := eq_of_stockPbas h.stock hmem (ha l hl) h0 (heq.trans (hpba l hl).symm)
        rw [hsame]
        exact husable _ (hu l hl)
      · obtain ⟨hl, -, he⟩ := hnew x hx
        rw [he]
        exact ⟨hb x.lvl hl, hput x.lvl hl _ _ (hex x.lvl hl)⟩
    · rw [List.map_append, List.map_map]
      refine List.nodup_append.mpr ⟨h.nodup, ?_, ?_⟩
      · exact (List.nodup_map_iff_inj_on hlvls).mpr fun l hl k hk heq => hh.injOn l hl k hk heq
      · rintro p hp q hq rfl
        obtain ⟨x, hx, rfl⟩ := List.mem_map.mp hp
        obtain ⟨l, hl, heq⟩ := List.mem_map.mp hq
        refine (hold _ (ha l hl) (husable _ (hu l hl))).2 x hx ?_
        rw [hpba l hl]
        exact heq
    · rcases hh.mem e he with ⟨he', hne⟩ | ⟨l, hl, e₁, he₁, hu₁, hp₁, hex₁⟩
      · rcases h.mem e he' with ⟨hes, hne'⟩ | ⟨x, hx, rfl⟩
        · refine Or.inl ⟨hes, fun h0 x hx => ?_⟩
          rcases List.mem_append.mp hx with hx | hx
          · exact hne' h0 x hx
          · obtain ⟨hl, hp, -⟩ := hnew x hx
            rw [hp]
            exact hne h0 x.lvl hl
        · exact Or.inr ⟨x, List.mem_append_left _ hx, rfl⟩
      · -- the entry that a level got is the only one with its address
        have hsame := eq_of_stockPbas h.stock he₁ (ha l hl) hu₁.1 (hp₁.trans (hpba l hl).symm)
        refine Or.inr ⟨_, List.mem_append_right _ (List.mem_map_of_mem hl), ?_⟩
        have hex' := hex l hl
        rw [← hsame, hex₁] at hex'
        exact (Option.some.inj hex').symm
    · refine hh.kept e (h.kept e he fun h0 x hx => hne h0 x (List.mem_append_left _ hx))
        fun h0 l hl => ?_
      exact hne h0 _ (List.mem_append_right _ (List.mem_map_of_mem hl))
  · exact ⟨_, List.mem_map_of_mem hl, rfl, rfl, a l, hpba l hl, hex l hl⟩
  · obtain ⟨hl, hp, he⟩ := hnew x hx
    exact ⟨hl, hp, a x.lvl, hpba x.lvl hl, by rw [he]; exact hex x.lvl hl⟩

end Drawn

end Cbe
