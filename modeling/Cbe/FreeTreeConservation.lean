import Cbe.Device

/-!
# The free tree conserves its blocks

Whatever a request to the free tree comes to, blocks are neither lost nor
handed out twice. A request that does not find enough usable entries changes
nothing (`FtNode.executeScan_spec`). One that succeeds exchanges as many entries as it
asked for: the blocks of the entries go to the first levels without a block,
and the entries take over the blocks that these levels give up. Only when the
blocks of an old generation are rekeyed does an entry keep its block, and stays
reserved for it; when those of the current generation are rekeyed, the entry
takes over the old block without a reservation, because nobody needs it any
more (`Swapped`).

The two traversals work on nodes that are read, checked, changed and written
out one after the other. What comes of that is `Rewritten`: every node on a
touched branch is written out, and the entry of its parent, or the root handed
back, has the address and the hash of the block as it was written.
-/

namespace Cbe

variable {P : Platform}

/-! ## Requests and their outcomes

A request ends in one of two states, and what it leaves behind is part of both.
-/

/-- The states in which a request may end, `Not_Enough_Free_Blocks` or the
successful end of the update, each with what the request leaves: the new blocks,
the tree with its root, the blocks of the meta tree that are left, and what was
written. -/
inductive FtOutcome (P : Platform) where
  | notEnoughFreeBlocks (res : Allocation P)
  | complete (res : Allocation P)

/-- **A request to the free tree** from `Submit_Request` to `Complete`. It is
`none` where the module raises or never gets to an end. The scan reads the tree
and counts; only the update changes what the module holds. -/
def executeFreeTree (P : Platform) (req : AllocRequest) (newPbas : NewPbas) (root : Type1Node)
    (tree : FtNode) (metaPbas : List ℕ) : Option (FtOutcome P) :=
  (tree.executeScan P req root 0).bind fun found =>
    if found < req.requestedBlocks then
      some (.notEnoughFreeBlocks {
        newPbas := newPbas
        root := root
        tree := tree
        metaPbas := metaPbas
        writes := [] })
    else
      (tree.executeUpdate req root
          { newPbas := newPbas, exchanged := 0, metaPbas := metaPbas, writes := [] }).bind
        fun (tree, root, st) =>
          if st.exchanged = req.requestedBlocks then
            some (.complete {
              newPbas := st.newPbas
              root := root
              tree := tree
              metaPbas := st.metaPbas
              writes := st.writes })
          else none

/-- Every caller raises when a request fails. -/
def FtOutcome.success : FtOutcome P → Option (Allocation P)
  | .notEnoughFreeBlocks _ => none
  | .complete res => some res

/-- What the callers make of a request. -/
theorem allocate_eq (req : AllocRequest) (newPbas : NewPbas) (root : Type1Node) (tree : FtNode)
    (metaPbas : List ℕ) :
    allocate P req newPbas root tree metaPbas
      = (executeFreeTree P req newPbas root tree metaPbas).bind FtOutcome.success := by
  unfold allocate executeFreeTree
  cases hscan : tree.executeScan P req root 0 with
  | none => rfl
  | some found =>
    rw [Option.bind_some, Option.bind_some]
    split_ifs
    · rfl
    · cases hupd : tree.executeUpdate req root
          { newPbas := newPbas, exchanged := 0, metaPbas := metaPbas, writes := [] } with
      | none => rfl
      | some out =>
        rw [Option.bind_some, Option.bind_some]
        dsimp only
        split_ifs <;> rfl

/-- The levels that a request is for: the first ones without a block. -/
def requestedLevels (req : AllocRequest) (newPbas : NewPbas) : List ℕ :=
  (pendingLevels req newPbas).take req.requestedBlocks

/-! ## The scan

The scan writes nothing; it counts usable entries until there are enough, or the
tree ends. -/

/-- How many usable entries there are below a node. -/
def FtNode.nrOfUsable (req : AllocRequest) (tree : FtNode) : ℕ :=
  tree.entries.countP fun e => decide (checkType2LeafUsable req e)

/-- What a part of the scan finds: nothing twice, and everything as long as
there is not enough. -/
structure Scanned (req : AllocRequest) (found found' : ℕ) (entries : List Type2Node) : Prop where
  /-- No entry was counted twice. -/
  le : found' ≤ found + entries.countP fun e => decide (checkType2LeafUsable req e)
  /-- None was left out as long as there is not enough. -/
  all : found' < req.requestedBlocks →
    found' = found + entries.countP fun e => decide (checkType2LeafUsable req e)

/-- The scan goes on behind a part of the entries. -/
theorem Scanned.append {req : AllocRequest} {found found₁ found₂ : ℕ} {es fs : List Type2Node}
    (h : Scanned req found found₁ es) (h' : Scanned req found₁ found₂ fs)
    (hle : found₁ ≤ found₂) : Scanned req found found₂ (es ++ fs) where
  le := by
    rw [List.countP_append, ← Nat.add_assoc]
    exact h'.le.trans (Nat.add_le_add_right h.le _)
  all hlt := by
    rw [List.countP_append, ← Nat.add_assoc, ← h.all (hle.trans_lt hlt)]
    exact h'.all hlt

/-- Where enough was found, the rest is skipped. -/
theorem Scanned.skip {req : AllocRequest} {found : ℕ} (h : req.requestedBlocks ≤ found)
    (es : List Type2Node) : Scanned req found found es where
  le := Nat.le_add_right _ _
  all hlt := absurd hlt (not_lt.mpr h)

/-- **What the scan finds below a node.** -/
theorem FtNode.executeScan_spec {req : AllocRequest} {tree : FtNode} {node : Type1Node}
    {found found' : ℕ} (h : tree.executeScan P req node found = some found') :
    found ≤ found' ∧ Scanned req found found' tree.entries := by
  induction tree generalizing node found found' with
  | leafs entries =>
    unfold FtNode.executeScan at h
    split_ifs at h
    obtain rfl := Option.some.inj h
    have hcount : (populateLevel0Stack req entries).length
        = (FtNode.leafs entries).entries.countP fun e => decide (checkType2LeafUsable req e) := by
      unfold populateLevel0Stack FtNode.entries
      rw [List.length_reverse, List.countP_reverse, List.countP_map, List.countP_eq_length_filter]
      rfl
    rw [hcount]
    exact ⟨Nat.le_add_right _ _, le_rfl, fun _ => rfl⟩
  | inner nodes children ih =>
    unfold FtNode.executeScan at h
    split_ifs at h
    unfold FtNode.entries
    generalize populateLowerNStack nodes = stack at h ⊢
    induction stack generalizing found with
    | nil =>
      obtain rfl := Option.some.inj h
      exact ⟨le_rfl, le_rfl, fun _ => rfl⟩
    | cons i stack ihs =>
      rw [List.foldlM_cons] at h
      obtain ⟨found₁, hstep, h⟩ := Option.bind_eq_some_iff.mp h
      obtain ⟨hle, hrest⟩ := ihs h
      rw [List.flatMap_cons]
      split_ifs at hstep with henough
      · obtain rfl := Option.some.inj hstep
        exact ⟨hle, (Scanned.skip henough _).append hrest hle⟩
      · obtain ⟨hle₁, hchild⟩ := ih i hstep
        exact ⟨hle₁.trans hle, hchild.append hrest hle⟩

/-! ## The nodes written out

An update writes a node after its children, so the hash of a child is in the
block of its parent. -/

/-- **A node as it was written out**: its entry has the generation of the
request, the hash of the block and the address that the block was written to. -/
structure WrittenOut (P : Platform) (gen : ℕ) (writes : List (ℕ × P.Block)) (tree : FtNode)
    (node : Type1Node) : Prop where
  /-- The entry has the generation of the request. -/
  gen_eq : node.gen = gen
  /-- It has the hash of the node. -/
  hash : checkNodeHash P tree node
  /-- The node was written to its address. -/
  written : (node.pba, tree.blockData P) ∈ writes

/-- **What an update makes of a tree and its entry.** A node is left alone, or
it was read with the hash of its entry and written out. Of an inner node that
was written out, the children were left alone or written out in turn. -/
inductive Rewritten (P : Platform) (gen : ℕ) (writes : List (ℕ × P.Block)) :
    FtNode → Type1Node → FtNode → Type1Node → Prop
  | untouched (tree : FtNode) (node : Type1Node) : Rewritten P gen writes tree node tree node
  | leafs {entries entries' : Type2NodeBlock} {node node' : Type1Node}
      (hread : checkNodeHash P (.leafs entries) node)
      (hout : WrittenOut P gen writes (.leafs entries') node') :
      Rewritten P gen writes (.leafs entries) node (.leafs entries') node'
  | inner {nodes nodes' : Type1NodeBlock} {children children' : Fin nodesPerBlock → FtNode}
      {node node' : Type1Node} (hread : checkNodeHash P (.inner nodes children) node)
      (hout : WrittenOut P gen writes (.inner nodes' children') node')
      (habsent : ∀ i, (nodes i).pba = 0 → nodes' i = nodes i)
      (hchild : ∀ i, Rewritten P gen writes (children i) (nodes i) (children' i) (nodes' i)) :
      Rewritten P gen writes (.inner nodes children) node (.inner nodes' children') node'

section Written

variable {gen : ℕ} {writes writes' : List (ℕ × P.Block)} {tree tree' : FtNode}
  {node node' : Type1Node}

/-- More writes leave it written. -/
theorem WrittenOut.mono (h : WrittenOut P gen writes tree node)
    (hsub : ∀ w ∈ writes, w ∈ writes') : WrittenOut P gen writes' tree node :=
  { h with written := hsub _ h.written }

/-- The same for a branch. -/
theorem Rewritten.mono (h : Rewritten P gen writes tree node tree' node')
    (hsub : ∀ w ∈ writes, w ∈ writes') : Rewritten P gen writes' tree node tree' node' := by
  induction h with
  | untouched tree node => exact .untouched tree node
  | leafs hread hout => exact .leafs hread (hout.mono hsub)
  | inner hread hout habsent _ ih => exact .inner hread (hout.mono hsub) habsent ih

/-- All nodes of the tree have the hashes that their parents have for them. -/
def FtNode.Hashed (P : Platform) : FtNode → Type1Node → Prop
  | .leafs entries, node => checkNodeHash P (.leafs entries) node
  | .inner nodes children, node => checkNodeHash P (.inner nodes children) node
      ∧ ∀ i, (nodes i).pba ≠ 0 → (children i).Hashed P (nodes i)

/-- **A hash tree stays one.** -/
theorem Rewritten.hashed (h : Rewritten P gen writes tree node tree' node')
    (htree : tree.Hashed P node) : tree'.Hashed P node' := by
  induction h with
  | untouched => exact htree
  | leafs _ hout => exact hout.hash
  | @inner nodes nodes' _ _ _ _ _ hout habsent _ ih =>
    refine ⟨hout.hash, fun i hi => ih i (htree.2 i fun h0 => hi ?_)⟩
    rw [habsent i h0]
    exact h0

end Written

/-- The write-out of a node. -/
theorem writeNode_writtenOut {req : AllocRequest} {tree : FtNode} {node node' : Type1Node}
    {st st' : UpdateState P} (h : writeNode req tree node st = some (node', st')) :
    WrittenOut P req.currentGen st'.writes tree node' ∧ ∀ w ∈ st.writes, w ∈ st'.writes := by
  unfold writeNode at h
  dsimp only at h
  split_ifs at h
  · obtain ⟨rfl, rfl⟩ := Prod.mk.inj (Option.some.inj h)
    exact ⟨⟨rfl, rfl, List.mem_append_right _ List.mem_cons_self⟩,
      fun w hw => List.mem_append_left _ hw⟩
  · split at h
    · exact absurd h (by simp)
    · obtain ⟨rfl, rfl⟩ := Prod.mk.inj (Option.some.inj h)
      exact ⟨⟨rfl, rfl, List.mem_append_right _ List.mem_cons_self⟩,
        fun w hw => List.mem_append_left _ hw⟩

/-- The exchange writes nothing. -/
theorem exchangeType2Leafs_writes {req : AllocRequest} {lvls : List ℕ}
    {stack : List (Fin nodesPerBlock)} {entries entries' : Type2NodeBlock}
    {st st' : UpdateState P}
    (h : exchangeType2Leafs req lvls stack entries st = some (entries', st')) :
    st'.writes = st.writes := by
  induction lvls generalizing stack entries st with
  | nil =>
    obtain ⟨-, rfl⟩ := Prod.mk.inj (Option.some.inj h)
    rfl
  | cons lvl lvls ih =>
    unfold exchangeType2Leafs at h
    split_ifs at h
    · split at h
      · obtain ⟨-, rfl⟩ := Prod.mk.inj (Option.some.inj h)
        rfl
      · obtain ⟨node, -, h⟩ := Option.bind_eq_some_iff.mp h
        have hrest := ih h
        exact hrest
    · exact ih h

/-- What the update does to the children of an inner node, one after the other:
each of them is left alone or rewritten. -/
theorem updateChildren_rewritten {req : AllocRequest} {gen : ℕ}
    {upd : Fin nodesPerBlock → UpdateState P → Option (FtNode × Type1Node × UpdateState P)}
    {nodes : Type1NodeBlock} {children : Fin nodesPerBlock → FtNode}
    {stack : List (Fin nodesPerBlock)} {acc acc' : InnerNodeState P}
    (h : stack.foldlM (updateChild req upd) acc = some acc')
    (hupd : ∀ i st tree node st', upd i st = some (tree, node, st') →
      Rewritten P gen st'.writes (children i) (nodes i) tree node
        ∧ ∀ w ∈ st.writes, w ∈ st'.writes)
    (hstack : ∀ i ∈ stack, (nodes i).pba ≠ 0)
    (habsent : ∀ i, (nodes i).pba = 0 → acc.nodes i = nodes i)
    (hacc : ∀ i, Rewritten P gen acc.state.writes (children i) (nodes i) (acc.children i)
      (acc.nodes i)) :
    (∀ w ∈ acc.state.writes, w ∈ acc'.state.writes)
      ∧ (∀ i, (nodes i).pba = 0 → acc'.nodes i = nodes i)
      ∧ ∀ i, Rewritten P gen acc'.state.writes (children i) (nodes i) (acc'.children i)
        (acc'.nodes i) := by
  induction stack generalizing acc with
  | nil =>
    obtain rfl := Option.some.inj h
    exact ⟨fun w hw => hw, habsent, hacc⟩
  | cons i stack ih =>
    rw [List.foldlM_cons] at h
    obtain ⟨acc₁, hstep, h⟩ := Option.bind_eq_some_iff.mp h
    have hrest : ∀ j ∈ stack, (nodes j).pba ≠ 0 := fun j hj => hstack j (List.mem_cons_of_mem _ hj)
    unfold updateChild at hstep
    split_ifs at hstep
    · obtain rfl := Option.some.inj hstep
      exact ih h hrest habsent hacc
    · obtain ⟨⟨tree, node, st⟩, hrun, rfl⟩ := Option.map_eq_some_iff.mp hstep
      obtain ⟨hnew, hsub⟩ := hupd i acc.state tree node st hrun
      have habsent₁ : ∀ j, (nodes j).pba = 0 → Function.update acc.nodes i node j = nodes j := by
        intro j hj
        have hji : j ≠ i := fun hji => hstack i List.mem_cons_self (hji ▸ hj)
        rw [Function.update_of_ne hji]
        exact habsent j hj
      have hacc₁ : ∀ j, Rewritten P gen st.writes (children j) (nodes j)
          (Function.update acc.children i tree j) (Function.update acc.nodes i node j) := by
        intro j
        by_cases hji : j = i
        · subst hji
          rw [Function.update_self, Function.update_self]
          exact hnew
        · rw [Function.update_of_ne hji, Function.update_of_ne hji]
          exact (hacc j).mono hsub
      obtain ⟨hsub', habsent', hacc'⟩ := ih h hrest habsent₁ hacc₁
      exact ⟨fun w hw => hsub' w (hsub w hw), habsent', hacc'⟩

/-- **What the update makes of the nodes**: it rewrites the tree below a node,
and where it exchanged an entry, the node itself was written out. -/
theorem FtNode.executeUpdate_rewritten {req : AllocRequest} {tree tree' : FtNode}
    {node node' : Type1Node} {st st' : UpdateState P}
    (h : tree.executeUpdate req node st = some (tree', node', st')) :
    (Rewritten P req.currentGen st'.writes tree node tree' node'
        ∧ ∀ w ∈ st.writes, w ∈ st'.writes)
      ∧ (st'.exchanged ≠ st.exchanged → WrittenOut P req.currentGen st'.writes tree' node') := by
  induction tree generalizing tree' node node' st st' with
  | leafs entries =>
    unfold FtNode.executeUpdate at h
    split_ifs at h with hread
    split at h
    · simp only [Option.some.injEq, Prod.mk.injEq] at h
      obtain ⟨rfl, rfl, rfl⟩ := h
      exact ⟨⟨.untouched _ _, fun w hw => hw⟩, fun hne => absurd rfl hne⟩
    · obtain ⟨⟨entries', st₁⟩, hexch, h⟩ := Option.bind_eq_some_iff.mp h
      obtain ⟨⟨node₁, st₂⟩, hw, h⟩ := Option.map_eq_some_iff.mp h
      simp only [Prod.mk.injEq] at h
      obtain ⟨rfl, rfl, rfl⟩ := h
      obtain ⟨hout, hsub⟩ := writeNode_writtenOut hw
      rw [exchangeType2Leafs_writes hexch] at hsub
      exact ⟨⟨.leafs hread hout, hsub⟩, fun _ => hout⟩
  | inner nodes children ih =>
    unfold FtNode.executeUpdate at h
    split_ifs at h with hread
    split at h
    · simp only [Option.some.injEq, Prod.mk.injEq] at h
      obtain ⟨rfl, rfl, rfl⟩ := h
      exact ⟨⟨.untouched _ _, fun w hw => hw⟩, fun hne => absurd rfl hne⟩
    · next i stack hpop =>
      obtain ⟨acc, hfold, h⟩ := Option.bind_eq_some_iff.mp h
      obtain ⟨⟨node₁, st₂⟩, hw, h⟩ := Option.map_eq_some_iff.mp h
      simp only [Prod.mk.injEq] at h
      obtain ⟨rfl, rfl, rfl⟩ := h
      obtain ⟨hout, hsub⟩ := writeNode_writtenOut hw
      have hstack : ∀ j ∈ i :: stack, (nodes j).pba ≠ 0 := by
        intro j hj
        rw [← hpop] at hj
        simpa [populateLowerNStack] using hj
      obtain ⟨hsub', habsent, hchild⟩ := updateChildren_rewritten hfold
        (fun j _ _ _ _ hrun => (ih j hrun).1) hstack (fun _ _ => rfl)
        (fun j => .untouched (children j) (nodes j))
      exact ⟨⟨.inner hread hout habsent fun j => (hchild j).mono hsub,
        fun w hw => hsub w (hsub' w hw)⟩, fun _ => hout⟩

/-! ## The exchange

Entry by entry, in the order in which the update comes across them. -/

/-- **An exchange of an entry on behalf of a level**: the entry was usable, its
block goes to the level, and it takes over the block that the level gives up.
For a block of an old generation it keeps its own. It is reserved unless the
block given up belongs to the generation being written. -/
structure Swapped (req : AllocRequest) (newPbas : NewPbas) (lvl : ℕ) (node node' : Type2Node) :
    Prop where
  /-- The entry was usable. -/
  usable : checkType2LeafUsable req node
  /-- Its block goes to the level. -/
  taken : newPbas lvl = node.pba
  /-- It takes over the block that the level gives up, or keeps its own. -/
  pba : node'.pba = if req.tag = .forRkgOldGenBlks then node.pba else (req.oldBlocks lvl).pba
  /-- It is reserved, unless nobody needs the block any more. -/
  reserved : node'.reserved = decide (req.tag ≠ .forRkgCurrGenBlks)
  /-- It records when the block was allocated, -/
  allocGen : node'.allocGen = (req.oldBlocks lvl).gen
  /-- It records when the block was given up. -/
  freeGen : node'.freeGen = req.freeGen

/-- Which entries are reserved after an exchange. -/
theorem exchangeType2Leaf_reserved {req : AllocRequest} {lvl : ℕ} {node node' : Type2Node}
    (h : exchangeType2Leaf req lvl node = some node') :
    node'.reserved = decide (req.tag ≠ .forRkgCurrGenBlks) := by
  unfold exchangeType2Leaf at h
  split at h
  all_goals next htag =>
    rw [htag]
    first
      | (obtain rfl := Option.some.inj h; rfl)
      | (dsimp only at h; split_ifs at h <;> obtain rfl := Option.some.inj h <;> rfl)

/-- An exchange swaps the blocks. -/
theorem ExchangedAt.swapped {req : AllocRequest} {newPbas : NewPbas} {lvl : ℕ}
    {node node' : Type2Node} (h : ExchangedAt req newPbas lvl node node') :
    Swapped req newPbas lvl node node' := by
  obtain ⟨husable, hexch, htaken⟩ := h
  obtain ⟨halloc, hfree⟩ := exchangeType2Leaf_gens hexch
  refine ⟨husable, htaken, ?_, exchangeType2Leaf_reserved hexch, halloc, hfree⟩
  rw [exchangeType2Leaf_pba hexch htaken, returnedPba, htaken]

/-- **What a successful request leaves.** -/
structure Conserved (req : AllocRequest) (newPbas : NewPbas) (root : Type1Node) (tree : FtNode)
    (res : Allocation P) : Prop where
  /-- As many entries are exchanged as were requested, and the others stay. -/
  exchanged : Exchanges (Swapped req res.newPbas) (requestedLevels req newPbas) tree.entries
    res.tree.entries
  /-- So many levels get a block as were requested. -/
  count : (requestedLevels req newPbas).length = req.requestedBlocks
  /-- Only the requested levels get a block. -/
  filled : ∀ lvl, lvl ∉ requestedLevels req newPbas → res.newPbas lvl = newPbas lvl
  /-- The blocks of the entries and the ones handed out are those of the entries
  before and the ones given up. -/
  pbas : (res.tree.entries.map Type2Node.pba
      ++ (requestedLevels req newPbas).map res.newPbas).Perm
    (tree.entries.map Type2Node.pba
      ++ (requestedLevels req newPbas).map (returnedPba req res.newPbas))
  /-- Two levels get different blocks when the entries have different blocks. -/
  distinct : (stockPbas tree.entries).Nodup → ∀ lvl ∈ requestedLevels req newPbas,
    ∀ lvl' ∈ requestedLevels req newPbas, res.newPbas lvl = res.newPbas lvl' → lvl = lvl'
  /-- A block handed out is none that the usable entries do not have. -/
  fresh : ∀ pba, (∀ e ∈ tree.entries, checkType2LeafUsable req e → e.pba ≠ pba) →
    ∀ lvl ∈ requestedLevels req newPbas, res.newPbas lvl ≠ pba
  /-- Every node on a touched branch was written out under its parent. -/
  rewritten : Rewritten P req.currentGen res.writes tree root res.tree res.root
  /-- The root was written, too. -/
  root : WrittenOut P req.currentGen res.writes res.tree res.root

/-- **What a failed request leaves**: there are fewer usable entries than blocks
were requested, and nothing has changed. -/
structure Untouched (req : AllocRequest) (newPbas : NewPbas) (root : Type1Node) (tree : FtNode)
    (metaPbas : List ℕ) (res : Allocation P) : Prop where
  /-- There are fewer usable entries than blocks were requested. -/
  scarce : tree.nrOfUsable req < req.requestedBlocks
  /-- No level got a block. -/
  newPbas : res.newPbas = newPbas
  /-- The root is the same. -/
  root : res.root = root
  /-- So is the tree. -/
  tree : res.tree = tree
  /-- The meta tree has handed out nothing. -/
  metaPbas : res.metaPbas = metaPbas
  /-- Nothing was written. -/
  writes : res.writes = []

/-- What a request promises of its outcome. -/
def FtOutcome.Conserves (req : AllocRequest) (newPbas : NewPbas) (root : Type1Node)
    (tree : FtNode) (metaPbas : List ℕ) : FtOutcome P → Prop
  | .notEnoughFreeBlocks res => Untouched req newPbas root tree metaPbas res
  | .complete res => Conserved req newPbas root tree res

/-- The levels that the update served are the requested ones. -/
theorem requestedLevels_eq {req : AllocRequest} {newPbas : NewPbas} {lvls rest : List ℕ}
    (h : pendingLevels req newPbas = lvls ++ rest) (hlen : lvls.length = req.requestedBlocks) :
    requestedLevels req newPbas = lvls := by
  rw [requestedLevels, h, ← hlen]
  exact List.take_left

/-- **The free tree conserves its blocks**, for every tree with at least two
levels, every request for a block at least and every outcome. -/
theorem conserves_of_request {req : AllocRequest} {newPbas : NewPbas} {root : Type1Node}
    {nodes : Type1NodeBlock} {children : Fin nodesPerBlock → FtNode} {mt : MetaTree}
    {out : FtOutcome P} (hpos : 0 < req.requestedBlocks)
    (h : executeFreeTree P req newPbas root (.inner nodes children) mt.pbas = some out) :
    out.Conserves req newPbas root (.inner nodes children) mt.pbas := by
  unfold executeFreeTree at h
  obtain ⟨found, hscan, h⟩ := Option.bind_eq_some_iff.mp h
  obtain ⟨-, hfound⟩ := FtNode.executeScan_spec hscan
  split_ifs at h with hlt
  · obtain rfl := Option.some.inj h
    have hall := hfound.all hlt
    rw [Nat.zero_add] at hall
    exact ⟨lt_of_eq_of_lt hall.symm hlt, rfl, rfl, rfl, rfl, rfl⟩
  · obtain ⟨⟨tree', root', st⟩, hupd, h⟩ := Option.bind_eq_some_iff.mp h
    dsimp only at h
    split_ifs at h with hex
    obtain rfl := Option.some.inj h
    obtain ⟨⟨lvls, hp, hn, hx, hnew, -⟩, -⟩ := FtNode.executeUpdate_spec hupd mt.pba_ne_zero
    obtain ⟨⟨hrew, -⟩, hroot⟩ := FtNode.executeUpdate_rewritten hupd
    have hlen : lvls.length = req.requestedBlocks := by
      rw [← hex, hn]
      exact (Nat.zero_add _).symm
    have hlvls : requestedLevels req newPbas = lvls := requestedLevels_eq hp hlen
    have hkey : ∀ lvl (a b : Type2Node), ExchangedAt req st.newPbas lvl a b →
        a.pba ≠ 0 ∧ a.pba = st.newPbas lvl :=
      fun lvl a b hab => ⟨hab.1.1, hab.2.2.symm⟩
    show Conserved req newPbas root _ _
    rw [← hlvls] at hx hnew hlen
    refine ⟨hx.mono fun _ _ _ _ _ hab => hab.swapped, hlen, hnew, ?_, fun hnd lvl hl lvl' hl' heq =>
      hx.key_injOn hnd hkey hl hl' heq, fun pba hfree lvl hl heq => ?_, hrew, hroot ?_⟩
    · refine hx.map_perm Type2Node.pba _ _ fun lvl a b hab => ?_
      exact ⟨hab.2.2.symm, exchangeType2Leaf_pba hab.2.1 hab.2.2⟩
    · obtain ⟨a, ha, b, -, hab⟩ := hx.exists_of_mem hl
      exact hfree a ha hab.1 (hab.2.2.symm.trans heq)
    · rw [hex]
      exact Nat.ne_of_gt hpos

/-- A request to the sample free tree, for one block in place of another. -/
def sampleAllocRequest (tag : AllocTag) (oldPba : ℕ) : AllocRequest where
  currentGen := 1
  freeGen := 1
  requestedBlocks := 1
  oldBlocks _ := { pba := oldPba, gen := 0, hash := 0 }
  maxLevel := 0
  tag := tag
  vba := 0
  vbdDegree := 2
  vbdHighestVba := 1
  rekeying := true
  previousKeyId := 1
  currentKeyId := 2
  rekeyingVba := 0
  activeSnaps _ := snapshotInvalid
  lastSecuredGen := 0

theorem sampleMetaPbas_ne_zero : ∀ pba ∈ [5, 6], pba ≠ 0 := by decide

/-- The meta tree of the sample image. -/
def sampleMetaPbas : MetaTree where
  pbas := [5, 6]
  root := { pba := 30, gen := 0, hash := 0 }
  pba_ne_zero := sampleMetaPbas_ne_zero

/-- What the sample free tree does for a request. -/
def sampleAllocation (tag : AllocTag) (oldPba : ℕ) : Option (FtOutcome Platform.sample) :=
  executeFreeTree Platform.sample (sampleAllocRequest tag oldPba) (fun _ => 0) ⟨12, 0, 0⟩
    sampleFree sampleMetaPbas.pbas

/-- A block of the current generation is rekeyed. -/
theorem conserves_of_request_sample :
    ∃ res, sampleAllocation .forRkgCurrGenBlks 40 = some (.complete res)
      ∧ Conserved (sampleAllocRequest .forRkgCurrGenBlks 40) (fun _ => 0) ⟨12, 0, 0⟩
        sampleFree res := by
  obtain ⟨res, h⟩ : ∃ res, sampleAllocation .forRkgCurrGenBlks 40 = some (.complete res) :=
    ⟨_, rfl⟩
  have hc : FtOutcome.Conserves _ _ _ sampleFree sampleMetaPbas.pbas (.complete res) :=
    conserves_of_request (by decide) h
  exact ⟨res, h, hc⟩

/-- **Not every exchange of the rekeying leaves a reserved entry**, and a
request that brings along the address of a usable entry may get it back. -/
theorem not_reserved_sample :
    (∃ res, sampleAllocation .forRkgCurrGenBlks 40 = some (.complete res)
        ∧ res.newPbas 0 = 29 ∧ (∃ e ∈ res.tree.entries, e.pba = 40)
        ∧ ∀ e ∈ res.tree.entries, e.reserved = false)
      ∧ ∃ res, sampleAllocation .poolVbd 29 = some (.complete res) ∧ res.newPbas 0 = 29 := by
  refine ⟨⟨_, rfl, by decide, by decide, by decide⟩, ⟨_, rfl, by decide⟩⟩

end Cbe
