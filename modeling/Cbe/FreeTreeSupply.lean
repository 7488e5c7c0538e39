import Cbe.FreeTreeConservation

/-!
# What the free tree needs to serve a request

The two traversals of the free tree visit the same nodes in the same order, as
long as not enough usable entries were met. So when the scan has found enough,
the update has an outcome: it reads the nodes that the scan has read, whose
hashes were right, and needs at most a block of the meta tree for each of them
(`FtNode.executeUpdate_enough`). A request whose exchanges do not raise is then
served whenever the tree is a hash tree, has as many usable entries as blocks
are requested, and the meta tree has a block for every node of it
(`allocate_isSome`).

What the two traversals have in common is `FtNode.visit`: the number of usable
entries met and the list of the nodes read. The scan counts what it counts, and
the update, which changes the entries as it goes, stops at the same node. The
comparison needs no stored blocks and no stacks; it is between two recursive
functions over the tree.

The update could still raise where the scan did not: when an entry cannot be
exchanged, or when a node has to be written to a new block and there is none.
The first depends on the kind of the request only (`AllocRequest.Admissible`).
For the second it is enough to have a block for each node that is read, since a
node is written once at most.
-/

namespace Cbe

variable {P : Platform}

/-! ## The nodes that are visited

The traversal goes through the children in use from the first to the last, and
leaves a node as soon as enough entries were met. A node is read before what is
below it. -/

/-- How many usable entries the traversal has met below a node, stopping at the
end of a node in which there are enough, and which nodes it reads on the way. -/
def FtNode.visit (req : AllocRequest) : FtNode → Type1Node → ℕ × List ℕ → ℕ × List ℕ
  | .leafs entries, node, acc =>
    (acc.1 + (populateLevel0Stack req entries).length, acc.2 ++ [node.pba])
  | .inner nodes children, node, acc =>
    (populateLowerNStack nodes).foldl
      (fun acc i => if req.requestedBlocks ≤ acc.1 then acc
        else (children i).visit req (nodes i) acc)
      (acc.1, acc.2 ++ [node.pba])

/-- What the traversal makes of the children left. -/
def visitChildren (req : AllocRequest) (nodes : Type1NodeBlock)
    (children : Fin nodesPerBlock → FtNode) (left : List (Fin nodesPerBlock))
    (acc : ℕ × List ℕ) : ℕ × List ℕ :=
  left.foldl (fun acc i => if req.requestedBlocks ≤ acc.1 then acc
    else (children i).visit req (nodes i) acc) acc

/-- With enough entries met the children that are left are not visited. -/
theorem visitChildren_cons_of_le {req : AllocRequest} {nodes : Type1NodeBlock}
    {children : Fin nodesPerBlock → FtNode} {i : Fin nodesPerBlock}
    {left : List (Fin nodesPerBlock)} {acc : ℕ × List ℕ} (h : req.requestedBlocks ≤ acc.1) :
    visitChildren req nodes children (i :: left) acc
      = visitChildren req nodes children left acc := by
  unfold visitChildren
  rw [List.foldl_cons, if_pos h]

/-- Otherwise the next child is. -/
theorem visitChildren_cons_of_lt {req : AllocRequest} {nodes : Type1NodeBlock}
    {children : Fin nodesPerBlock → FtNode} {i : Fin nodesPerBlock}
    {left : List (Fin nodesPerBlock)} {acc : ℕ × List ℕ} (h : acc.1 < req.requestedBlocks) :
    visitChildren req nodes children (i :: left) acc
      = visitChildren req nodes children left ((children i).visit req (nodes i) acc) := by
  unfold visitChildren
  rw [List.foldl_cons, if_neg (Nat.not_le.mpr h)]

/-- An inner node is read, and then its children are visited. -/
theorem FtNode.visit_inner {req : AllocRequest} {nodes : Type1NodeBlock}
    {children : Fin nodesPerBlock → FtNode} {node : Type1Node} {acc : ℕ × List ℕ} :
    (FtNode.inner nodes children).visit req node acc
      = visitChildren req nodes children (populateLowerNStack nodes)
        (acc.1, acc.2 ++ [node.pba]) := by
  rw [FtNode.visit]
  rfl

/-- Only children in use are visited. -/
theorem pba_ne_zero_of_mem_populateLowerNStack {nodes : Type1NodeBlock} {i : Fin nodesPerBlock}
    (h : i ∈ populateLowerNStack nodes) : (nodes i).pba ≠ 0 := by
  simpa [populateLowerNStack] using h

/-- The addresses of the nodes, in the order in which they are visited. -/
def FtNode.nodePbas : FtNode → Type1Node → List ℕ
  | .leafs _, node => [node.pba]
  | .inner nodes children, node =>
    node.pba :: (populateLowerNStack nodes).flatMap fun i => (children i).nodePbas (nodes i)

/-- The traversal reads each node below a node once at most. -/
theorem FtNode.visit_length_le (req : AllocRequest) (tree : FtNode) :
    ∀ (node : Type1Node) (acc : ℕ × List ℕ),
      (tree.visit req node acc).2.length ≤ acc.2.length + (tree.nodePbas node).length := by
  induction tree with
  | leafs entries =>
    intro node acc
    rw [FtNode.visit, FtNode.nodePbas, List.length_append]
  | inner nodes children ih =>
    intro node acc
    have hleft : ∀ (left : List (Fin nodesPerBlock)) (acc : ℕ × List ℕ),
        (visitChildren req nodes children left acc).2.length
          ≤ acc.2.length + (left.flatMap fun i => (children i).nodePbas (nodes i)).length := by
      intro left
      induction left with
      | nil => exact fun acc => le_refl _
      | cons i left ihl =>
        intro acc
        rw [List.flatMap_cons, List.length_append]
        by_cases henough : req.requestedBlocks ≤ acc.1
        · rw [visitChildren_cons_of_le henough]
          exact (ihl acc).trans (by omega)
        · rw [visitChildren_cons_of_lt (Nat.lt_of_not_le henough)]
          have hchild := ih i (nodes i) acc
          exact (ihl _).trans (by omega)
    rw [FtNode.visit_inner, FtNode.nodePbas, List.length_cons]
    refine (hleft _ _).trans ?_
    rw [List.length_append, List.length_singleton]
    omega

/-! ## The outcome of the update

An outcome of the update is shown along the visit: given that what was read
below a node had the right hash and that there are enough blocks of the meta
tree, the update of the node has an outcome and has used no more blocks than
nodes were read. `FtNode.Enough` is the assumption, `FtNode.Used` the
conclusion. -/

/-- A kind of request that the exchange does not raise for: the rekeying asks for
blocks of an old generation at the address that it has come to. -/
def AllocRequest.Admissible (req : AllocRequest) : Prop :=
  req.tag = .forRkgOldGenBlks → req.rekeyingVba = req.vba ∧ req.vba ≤ req.vbdHighestVba

/-- The exchange of an entry has an outcome for every kind of request but one,
and for that one by the assumption about the address. -/
theorem AllocRequest.Admissible.exchangeType2Leaf_isSome {req : AllocRequest}
    (h : req.Admissible) (lvl : ℕ) (node : Type2Node) :
    (exchangeType2Leaf req lvl node).isSome := by
  unfold exchangeType2Leaf
  cases htag : req.tag with
  | poolVbd => rfl
  | forNonRkg => rfl
  | forRkgCurrGenBlks => rfl
  | forRkgOldGenBlks =>
    obtain ⟨hvba, hhigh⟩ := h htag
    have hnode : req.vba ≤ vbdNodeHighestVba req.vbdDegree lvl req.vba := by
      unfold vbdNodeHighestVba vbdNodeLowestVba vbdNodeNrOfVbas
      rw [Nat.mul_comm lvl]
      have hpos : 0 < 2 ^ (Nat.log2 req.vbdDegree * lvl) := Nat.two_pow_pos _
      have hlt := Nat.lt_div_mul_add hpos (a := req.vba)
      omega
    dsimp only
    split_ifs with h1 h2
    · rfl
    · rfl
    · rw [hvba] at h1 h2
      omega

/-- The exchanges of a level-1 node have an outcome, one after the other. -/
theorem exchangeType2Leafs_isSome {req : AllocRequest} (h : req.Admissible)
    (lvls : List ℕ) (stack : List (Fin nodesPerBlock)) (entries : Type2NodeBlock)
    (st : UpdateState P) : (exchangeType2Leafs req lvls stack entries st).isSome := by
  induction lvls generalizing stack entries st with
  | nil => rfl
  | cons lvl lvls ih =>
    unfold exchangeType2Leafs
    split_ifs
    · cases stack with
      | nil => rfl
      | cons i stack =>
        obtain ⟨node, hnode⟩ := Option.isSome_iff_exists.mp
          (h.exchangeType2Leaf_isSome lvl (entries i))
        dsimp only
        rw [hnode]
        exact ih _ _ _
    · exact ih _ _ _

/-- The exchange stops when the usable entries or the levels without a block are
used up. -/
theorem exchangeType2Leafs_exchanged {req : AllocRequest} {lvls : List ℕ}
    {stack : List (Fin nodesPerBlock)} {entries entries' : Type2NodeBlock} {st st' : UpdateState P}
    (h : exchangeType2Leafs req lvls stack entries st = some (entries', st')) (hlvls : lvls.Nodup) :
    st'.exchanged
      = st.exchanged + min stack.length (lvls.filter fun lvl => st.newPbas lvl = 0).length := by
  induction lvls generalizing stack entries st with
  | nil =>
    obtain ⟨rfl, rfl⟩ := Prod.mk.inj (Option.some.inj h)
    simp
  | cons lvl lvls ih =>
    obtain ⟨hlvl, hlvls⟩ := List.nodup_cons.mp hlvls
    unfold exchangeType2Leafs at h
    by_cases hzero : st.newPbas lvl = 0
    · rw [if_pos hzero] at h
      rw [List.filter_cons_of_pos (by simpa using hzero), List.length_cons]
      cases stack with
      | nil =>
        obtain ⟨rfl, rfl⟩ := Prod.mk.inj (Option.some.inj h)
        simp
      | cons i stack =>
        obtain ⟨node, -, h⟩ := Option.bind_eq_some_iff.mp h
        rw [ih h hlvls, List.length_cons, Nat.succ_min_succ]
        have hrest : lvls.filter (fun l => Function.update st.newPbas lvl (entries i).pba l = 0)
            = lvls.filter fun l => st.newPbas l = 0 :=
          List.filter_congr fun l hl => by
            rw [Function.update_of_ne fun heq => hlvl (by rwa [← heq])]
        dsimp only
        rw [hrest]
        omega
    · rw [if_neg hzero] at h
      rw [List.filter_cons_of_neg (by simpa using hzero)]
      exact ih h hlvls

/-- The request asks for as many blocks as there are levels without one. -/
def UpdateState.Counted (req : AllocRequest) (st : UpdateState P) : Prop :=
  st.exchanged + (st.pending req).length = req.requestedBlocks

/-- A node is written when the meta tree has a block left. -/
theorem writeNode_some (req : AllocRequest) (tree : FtNode) (node : Type1Node)
    (st : UpdateState P) (h : 1 ≤ st.metaPbas.length) :
    ∃ node' st', writeNode req tree node st = some (node', st')
      ∧ st'.newPbas = st.newPbas ∧ st'.exchanged = st.exchanged
      ∧ st.metaPbas.length ≤ st'.metaPbas.length + 1 := by
  unfold writeNode
  dsimp only
  split_ifs
  · exact ⟨_, _, rfl, rfl, rfl, Nat.le_succ _⟩
  · cases hm : st.metaPbas with
    | nil =>
      rw [hm] at h
      exact absurd h (by decide)
    | cons pba metaPbas => exact ⟨_, _, rfl, rfl, rfl, le_refl _⟩

/-- Visiting children only adds to what was read. -/
theorem le_visitChildren_length {req : AllocRequest} (nodes : Type1NodeBlock)
    {children : Fin nodesPerBlock → FtNode}
    (h : ∀ i node (acc : ℕ × List ℕ), acc.2.length + 1 ≤ ((children i).visit req node acc).2.length)
    (left : List (Fin nodesPerBlock)) :
    ∀ acc : ℕ × List ℕ, acc.2.length ≤ (visitChildren req nodes children left acc).2.length := by
  induction left with
  | nil => exact fun acc => le_refl _
  | cons i left ih =>
    intro acc
    by_cases henough : req.requestedBlocks ≤ acc.1
    · rw [visitChildren_cons_of_le henough]
      exact ih acc
    · rw [visitChildren_cons_of_lt (Nat.lt_of_not_le henough)]
      exact Nat.le_trans (Nat.le_of_succ_le (h i (nodes i) acc)) (ih _)

/-- The traversal reads the node at least. -/
theorem FtNode.succ_le_visit_length (req : AllocRequest) (tree : FtNode) :
    ∀ (node : Type1Node) (acc : ℕ × List ℕ),
      acc.2.length + 1 ≤ (tree.visit req node acc).2.length := by
  induction tree with
  | leafs entries =>
    intro node acc
    rw [FtNode.visit, List.length_append, List.length_singleton]
  | inner nodes children ih =>
    intro node acc
    rw [FtNode.visit_inner]
    refine Nat.le_trans ?_ (le_visitChildren_length _ (fun i => ih i) _ _)
    rw [List.length_append, List.length_singleton]

/-- The traversal counts what the scan counts, by induction on the tree. -/
theorem FtNode.visit_of_executeScan {req : AllocRequest} {tree : FtNode} :
    ∀ {node : Type1Node} {found found' : ℕ} (reads : List ℕ),
      tree.executeScan P req node found = some found' →
      (tree.visit req node (found, reads)).1 = found' := by
  induction tree with
  | leafs entries =>
    intro node found found' reads h
    rw [FtNode.executeScan, Option.ite_none_right_eq_some] at h
    exact Option.some.inj h.2
  | inner nodes children ih =>
    intro node found found' reads h
    rw [FtNode.executeScan, Option.ite_none_right_eq_some] at h
    rw [FtNode.visit_inner]
    generalize populateLowerNStack nodes = stack at h ⊢
    generalize (found, reads).2 ++ [node.pba] = reads
    obtain ⟨-, h⟩ := h
    induction stack generalizing found reads with
    | nil => exact Option.some.inj h
    | cons i stack ihs =>
      rw [List.foldlM_cons] at h
      by_cases henough : req.requestedBlocks ≤ found
      · rw [if_pos henough] at h
        rw [visitChildren_cons_of_le henough]
        exact ihs reads h
      · rw [if_neg henough] at h
        rw [visitChildren_cons_of_lt (Nat.lt_of_not_le henough)]
        obtain ⟨found₁, hfound₁, h⟩ := Option.bind_eq_some_iff.mp h
        have hvisit := ih i reads hfound₁
        rw [show (children i).visit req (nodes i) (found, reads)
          = (found₁, ((children i).visit req (nodes i) (found, reads)).2) from Prod.ext hvisit rfl]
        exact ihs _ h

/-- **What the update needs of the scan**: the hashes below a node were right,
and the meta tree has a block for every node that was read. -/
structure FtNode.Enough (P : Platform) (req : AllocRequest) (tree : FtNode) (node : Type1Node)
    (st : UpdateState P) (found : ℕ) (reads : List ℕ) : Prop where
  /-- The hashes below the node were right. -/
  scan : tree.executeScan P req node st.exchanged = some found
  /-- The addresses so far were counted. -/
  counted : st.Counted req
  /-- Some blocks are still asked for. -/
  unfinished : st.exchanged < req.requestedBlocks
  /-- The meta tree has a block for every node. -/
  supply : (tree.visit req node (st.exchanged, reads)).2.length
    ≤ reads.length + st.metaPbas.length

/-- **What it has afterwards**: the count of the traversal is the count of the
update, and for each block of the meta tree that was used a node was read. -/
structure FtNode.Used (req : AllocRequest) (tree : FtNode) (node : Type1Node)
    (st st' : UpdateState P) (found : ℕ) (reads : List ℕ) : Prop where
  /-- The counts of the two traversals agree. -/
  exchanged : st'.exchanged = min found req.requestedBlocks
  /-- The addresses were counted. -/
  counted : st'.Counted req
  /-- For each block that was used a node was read. -/
  supply : st.metaPbas.length + reads.length
    ≤ st'.metaPbas.length + (tree.visit req node (st.exchanged, reads)).2.length

/-- **The update of a level-1 node** has an outcome: the exchanges do, and there
is a block for the node. -/
theorem executeUpdate_leafs {req : AllocRequest} (hreq : req.Admissible) {entries : Type2NodeBlock}
    {node : Type1Node} {st : UpdateState P} {found : ℕ} {reads : List ℕ}
    (h : (FtNode.leafs entries).Enough P req node st found reads) :
    ∃ tree' node' st', (FtNode.leafs entries).executeUpdate req node st = some (tree', node', st')
      ∧ (FtNode.leafs entries).Used req node st st' found reads := by
  have hscan := h.scan
  rw [FtNode.executeScan, Option.ite_none_right_eq_some] at hscan
  obtain ⟨hhash, hfound⟩ := hscan
  have hfound := Option.some.inj hfound
  have hcounted := h.counted
  have hunfinished := h.unfinished
  have hsupply := h.supply
  unfold UpdateState.Counted at hcounted
  rw [FtNode.visit, List.length_append, List.length_singleton] at hsupply
  dsimp only at hsupply
  rw [FtNode.executeUpdate, if_pos hhash]
  cases hs : populateLevel0Stack req entries with
  | nil =>
    rw [hs, List.length_nil, Nat.add_zero] at hfound
    refine ⟨_, _, _, rfl, ⟨?_, h.counted, ?_⟩⟩
    · rw [← hfound]
      exact (Nat.min_eq_left hunfinished.le).symm
    · rw [FtNode.visit, List.length_append]
      exact Nat.add_le_add_left (Nat.le_add_right _ _) _
  | cons i stack =>
    dsimp only
    obtain ⟨⟨entries', st₁⟩, hexch⟩ := Option.isSome_iff_exists.mp
      (exchangeType2Leafs_isSome hreq (List.range (req.maxLevel + 1)) (i :: stack) entries st)
    have hex := exchangeType2Leafs_exchanged hexch List.nodup_range
    have husable : ∀ j ∈ i :: stack, checkType2LeafUsable req (entries j) := by
      intro j hj
      rw [← hs] at hj
      simpa [populateLevel0Stack] using hj
    have hnodup : (i :: stack).Nodup := by
      rw [← hs]
      exact List.nodup_reverse.mpr ((List.nodup_finRange _).filter _)
    obtain ⟨served, hfilter, hserved, -, -, -, hmeta⟩ :=
      exchangeType2Leafs_spec hexch List.nodup_range hnodup husable
    have hpending : st.pending req = served ++ st₁.pending req := hfilter
    have hlength := congrArg List.length hpending
    rw [List.length_append] at hlength
    obtain ⟨node', st', hwrite, hnew', hex', hmeta'⟩ := writeNode_some req (.leafs entries')
      node st₁ (by rw [hmeta]; omega)
    have hpending' : st'.pending req = st₁.pending req := by
      unfold UpdateState.pending
      rw [hnew']
    rw [hexch, Option.bind_some]
    dsimp only
    rw [hwrite]
    refine ⟨_, _, _, rfl, ⟨?_, ?_, ?_⟩⟩
    · rw [hex', hex, ← hfound, hs]
      show st.exchanged + min _ (st.pending req).length = _
      omega
    · unfold UpdateState.Counted
      rw [hpending', hex']
      omega
    · rw [FtNode.visit, List.length_append, List.length_singleton]
      rw [hmeta] at hmeta'
      dsimp only
      omega

/-- **The children of an inner node** together, when the update of each has an
outcome. -/
theorem updateChildren_some {req : AllocRequest} {nodes : Type1NodeBlock}
    {children : Fin nodesPerBlock → FtNode}
    (ih : ∀ i (node : Type1Node) (st : UpdateState P) (found : ℕ) (reads : List ℕ),
      (children i).Enough P req node st found reads →
      ∃ tree' node' st', (children i).executeUpdate req node st = some (tree', node', st')
        ∧ (children i).Used req node st st' found reads)
    (left : List (Fin nodesPerBlock)) : ∀ (acc : InnerNodeState P) {found found' : ℕ}
      (reads : List ℕ),
      left.foldlM (fun found i => if req.requestedBlocks ≤ found then some found
        else (children i).executeScan P req (nodes i) found) found = some found' →
      acc.state.exchanged = min found req.requestedBlocks → acc.state.Counted req →
      (visitChildren req nodes children left (found, reads)).2.length
        ≤ reads.length + acc.state.metaPbas.length →
      ∃ acc', left.foldlM
          (updateChild req fun i st => (children i).executeUpdate req (nodes i) st) acc = some acc'
        ∧ acc'.state.exchanged = min found' req.requestedBlocks ∧ acc'.state.Counted req
        ∧ acc.state.metaPbas.length + reads.length ≤ acc'.state.metaPbas.length
          + (visitChildren req nodes children left (found, reads)).2.length := by
  induction left with
  | nil =>
    intro acc found found' reads hscan hex hcounted hsupply
    obtain rfl := Option.some.inj hscan
    exact ⟨acc, rfl, hex, hcounted, le_refl _⟩
  | cons i left ihl =>
    intro acc found found' reads hscan hex hcounted hsupply
    rw [List.foldlM_cons] at hscan
    rw [List.foldlM_cons]
    by_cases henough : req.requestedBlocks ≤ found
    · have hskip : updateChild req (fun i st => (children i).executeUpdate req (nodes i) st) acc i
          = some acc := by
        unfold updateChild
        rw [if_pos (hex.trans (Nat.min_eq_right henough))]
      rw [if_pos henough] at hscan
      rw [visitChildren_cons_of_le henough] at hsupply ⊢
      rw [hskip]
      exact ihl acc reads hscan hex hcounted hsupply
    · have hlt := Nat.lt_of_not_le henough
      have hfound : acc.state.exchanged = found := hex.trans (Nat.min_eq_left hlt.le)
      rw [if_neg henough] at hscan
      obtain ⟨found₁, hfound₁, hscan⟩ := Option.bind_eq_some_iff.mp hscan
      rw [visitChildren_cons_of_lt (by exact hlt)] at hsupply ⊢
      have hfst := FtNode.visit_of_executeScan reads hfound₁
      set visited := (children i).visit req (nodes i) (found, reads) with hvisited
      have hgrow := le_visitChildren_length nodes
        (fun i => FtNode.succ_le_visit_length req (children i)) left visited
      obtain ⟨tree', node', st', hupd, hused⟩ := ih i (nodes i) acc.state found₁ reads
        ⟨by rw [hfound]; exact hfound₁, hcounted, by rw [hfound]; exact hlt, by
          rw [hfound, ← hvisited]
          exact Nat.le_trans hgrow hsupply⟩
      have hspent := hused.supply
      rw [hfound, ← hvisited] at hspent
      have hchild : updateChild req (fun i st => (children i).executeUpdate req (nodes i) st) acc i
          = some { nodes := Function.update acc.nodes i node',
                   children := Function.update acc.children i tree',
                   state := st' } := by
        unfold updateChild
        rw [if_neg (by rw [hfound]; exact hlt.ne)]
        exact congrArg (Option.map _) hupd
      rw [hchild]
      have hnext := ihl { nodes := Function.update acc.nodes i node',
                          children := Function.update acc.children i tree',
                          state := st' } visited.2 hscan hused.exchanged hused.counted
      rw [show (found₁, visited.2) = visited from Prod.ext hfst.symm rfl] at hnext
      obtain ⟨acc', hrun, hex', hcounted', hsupply'⟩ := hnext (by dsimp only; omega)
      refine ⟨acc', hrun, hex', hcounted', ?_⟩
      dsimp only at hsupply'
      omega

/-- **The update of a tree** has an outcome when the scan of it has found
enough. By induction on the tree, with the lemma about the children for an inner
node. -/
theorem FtNode.executeUpdate_enough {req : AllocRequest} (hreq : req.Admissible) (tree : FtNode) :
    ∀ (node : Type1Node) (st : UpdateState P) (found : ℕ) (reads : List ℕ),
      tree.Enough P req node st found reads →
      ∃ tree' node' st', tree.executeUpdate req node st = some (tree', node', st')
        ∧ tree.Used req node st st' found reads := by
  induction tree with
  | leafs entries =>
    intro node st found reads h
    exact executeUpdate_leafs hreq h
  | inner nodes children ih =>
    intro node st found reads h
    have hscan := h.scan
    rw [FtNode.executeScan, Option.ite_none_right_eq_some] at hscan
    obtain ⟨hhash, hscan⟩ := hscan
    have hsupply := h.supply
    rw [FtNode.visit_inner] at hsupply
    have hmin : st.exchanged = min st.exchanged req.requestedBlocks :=
      (Nat.min_eq_left h.unfinished.le).symm
    have hgrow := le_visitChildren_length nodes
      (fun i => FtNode.succ_le_visit_length req (children i)) (populateLowerNStack nodes)
      (st.exchanged, reads ++ [node.pba])
    rw [FtNode.executeUpdate, if_pos hhash]
    cases hs : populateLowerNStack nodes with
    | nil =>
      rw [hs] at hscan
      obtain rfl := Option.some.inj hscan
      refine ⟨_, _, _, rfl, ⟨hmin, h.counted, ?_⟩⟩
      rw [FtNode.visit_inner, hs]
      show _ ≤ _ + (reads ++ [node.pba]).length
      rw [List.length_append]
      omega
    | cons i stack =>
      rw [hs] at hscan hsupply hgrow
      obtain ⟨acc, hrun, hex, hcounted, hspent⟩ := updateChildren_some (fun i => ih i) (i :: stack)
        { nodes := nodes, children := children, state := st } (reads ++ [node.pba]) hscan
        hmin h.counted (by
          rw [List.length_append]
          exact Nat.le_trans hsupply (by dsimp only; omega))
      dsimp only at hspent hgrow hsupply
      rw [List.length_append, List.length_singleton] at hspent hgrow
      obtain ⟨node', st', hwrite, hnew', hex', hmeta'⟩ := writeNode_some req
        (.inner acc.nodes acc.children) node acc.state (by omega)
      dsimp only
      rw [hrun, Option.bind_some, hwrite]
      refine ⟨_, _, _, rfl, ⟨hex'.trans hex, ?_, ?_⟩⟩
      · unfold UpdateState.Counted UpdateState.pending
        rw [hnew', hex']
        exact hcounted
      · rw [FtNode.visit_inner, hs]
        dsimp only
        omega

/-- The nodes that are read do not depend on those that were read before. -/
theorem FtNode.visit_append (req : AllocRequest) (tree : FtNode) :
    ∀ (node : Type1Node) (found : ℕ) (reads : List ℕ), tree.visit req node (found, reads)
      = ((tree.visit req node (found, [])).1, reads ++ (tree.visit req node (found, [])).2) := by
  induction tree with
  | leafs entries =>
    intro node found reads
    rfl
  | inner nodes children ih =>
    intro node found reads
    rw [FtNode.visit_inner, FtNode.visit_inner]
    have happend : ∀ (left : List (Fin nodesPerBlock)) (found : ℕ) (reads' : List ℕ),
        visitChildren req nodes children left (found, reads ++ reads')
          = ((visitChildren req nodes children left (found, reads')).1,
            reads ++ (visitChildren req nodes children left (found, reads')).2) := by
      intro left
      induction left with
      | nil => exact fun found reads' => rfl
      | cons i left ihl =>
        intro found reads'
        by_cases henough : req.requestedBlocks ≤ found
        · rw [visitChildren_cons_of_le henough, visitChildren_cons_of_le henough]
          exact ihl found reads'
        · have hlt := Nat.lt_of_not_le henough
          rw [visitChildren_cons_of_lt hlt, visitChildren_cons_of_lt hlt,
            ih i (nodes i) found reads', ih i (nodes i) found (reads ++ reads'), List.append_assoc]
          exact ihl _ _
    exact happend _ found [node.pba]

/-! ## The outcome of a request

The scan has an outcome in a hash tree, and finds as many entries as are usable.
If these are enough, the update has one as well. -/

/-- The scan of a hash tree has a result: it raises at a wrong hash only. -/
theorem FtNode.Hashed.executeScan_isSome {tree : FtNode} {node : Type1Node}
    (h : tree.Hashed P node) (req : AllocRequest) (found : ℕ) :
    (tree.executeScan P req node found).isSome = true := by
  induction tree generalizing node found with
  | leafs entries =>
    have hhash : checkNodeHash P (.leafs entries) node := h
    rw [FtNode.executeScan, if_pos hhash]
    rfl
  | inner nodes children ih =>
    obtain ⟨hhash, hchildren⟩ := h
    rw [FtNode.executeScan, if_pos hhash]
    have hmem : ∀ i ∈ populateLowerNStack nodes, (nodes i).pba ≠ 0 :=
      fun i hi => pba_ne_zero_of_mem_populateLowerNStack hi
    generalize populateLowerNStack nodes = stack at hmem ⊢
    induction stack generalizing found with
    | nil => rfl
    | cons i stack ihs =>
      obtain ⟨found₁, hfound₁⟩ := Option.isSome_iff_exists.mp
        (ih i (hchildren i (hmem i List.mem_cons_self)) found)
      have hrest := fun found => ihs found fun j hj => hmem j (List.mem_cons_of_mem _ hj)
      rw [List.foldlM_cons]
      by_cases henough : req.requestedBlocks ≤ found
      · rw [if_pos henough]
        exact hrest found
      · rw [if_neg henough, hfound₁]
        exact hrest found₁

/-- **What a tree supplies for a number of blocks**: it is a hash tree with as
many usable entries, and the meta tree has a block for each of its nodes. -/
structure FtNode.Supplies (P : Platform) (tree : FtNode) (root : Type1Node) (metaPbas : List ℕ)
    (usable : Type2Node → Bool) (n : ℕ) : Prop where
  /-- It is a hash tree. -/
  hashed : tree.Hashed P root
  /-- It has as many usable entries. -/
  usable : n ≤ tree.entries.countP usable
  /-- The meta tree has a block for every node. -/
  metaPbas : (tree.nodePbas root).length ≤ metaPbas.length

/-- **A request is served when the trees have what it needs**: a request for as
many blocks as there are levels without one, of a kind that the exchange does
not raise for. -/
theorem allocate_isSome {req : AllocRequest} {newPbas : NewPbas} {root : Type1Node}
    {tree : FtNode} {metaPbas : List ℕ} (hreq : req.Admissible) (hpos : 0 < req.requestedBlocks)
    (hcount : req.requestedBlocks = (pendingLevels req newPbas).length)
    (h : tree.Supplies P root metaPbas (fun e => decide (checkType2LeafUsable req e))
      req.requestedBlocks) :
    (allocate P req newPbas root tree metaPbas).isSome = true := by
  obtain ⟨found, hscan⟩ := Option.isSome_iff_exists.mp (h.hashed.executeScan_isSome req 0)
  have hfound : req.requestedBlocks ≤ found := by
    by_contra hlt
    have hall := (FtNode.executeScan_spec hscan).2.all (Nat.lt_of_not_le hlt)
    rw [Nat.zero_add] at hall
    exact hlt (h.usable.trans_eq hall.symm)
  obtain ⟨tree', root', st, hupd, hused⟩ := tree.executeUpdate_enough hreq root
    { newPbas := newPbas, exchanged := 0, metaPbas := metaPbas, writes := [] } found []
    { scan := hscan
      counted := (Nat.zero_add _).trans hcount.symm
      unfinished := hpos
      supply := (tree.visit_length_le req root _).trans (Nat.add_le_add_left h.metaPbas _) }
  have hex : st.exchanged = req.requestedBlocks :=
    hused.exchanged.trans (Nat.min_eq_right hfound)
  unfold allocate
  rw [hscan, Option.bind_some, if_neg (Nat.not_lt.mpr hfound), hupd, Option.bind_some]
  dsimp only
  rw [if_pos hex]
  rfl

end Cbe
