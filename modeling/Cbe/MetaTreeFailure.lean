import Cbe.MetaTreeSupply

/-!
# Failed requests to the meta tree

The root of the meta tree in the superblock, the blocks below it and the
clients of the module, over sequences of requests. A request fails when no
usable entry is found, when the entries that are found all go to nodes of the
meta tree itself, or when a cache primitive fails. The free tree raises then.
The free-tree resizing takes the address without a look at the success: the one
that an earlier request left or, after a failed primitive, the invalid one. And
after a failed primitive the record of the cache request stays in progress, so
that the module does nothing for the next request.

As long as the resizing gets what it asks for, all is well
(`failsCleanly_of_run`): the root always stands for a complete tree with the
right hashes, and the next request is executed. That the resizing gets it is a
matter of the tree before the request and of the cache primitives: the count of
`Request.Serves` must leave an entry over for it, and no primitive may fail.
-/

namespace Cbe

variable {P : Platform}

namespace Mt

/-! ## The tree in the blocks

The meta tree is a value in the model and a set of blocks on the device. That
the two agree is carried through the search: what it has written so far, over
the blocks of before, denotes the part of the tree that it has left behind. -/

/-- The blocks after a list of writes. -/
def store (blocks : ℕ → P.Block) (writes : List (ℕ × P.Block)) : ℕ → P.Block :=
  writes.foldl (fun blocks w => Function.update blocks w.1 w.2) blocks

/-- The last write counts. -/
theorem store_append (blocks : ℕ → P.Block) (writes : List (ℕ × P.Block)) (pba : ℕ)
    (blk : P.Block) :
    store blocks (writes ++ [(pba, blk)]) = Function.update (store blocks writes) pba blk := by
  unfold store
  rw [List.foldl_append]
  rfl

/-- **The blocks hold the tree below an entry**, every node with the hash that
its entry says. -/
def Denotes (blocks : ℕ → P.Block) : FtNode → Type1Node → Prop
  | .leafs entries, node => blocks node.pba = (FtNode.leafs entries).blockData P
      ∧ checkNodeHash P (.leafs entries) node
  | .inner nodes children, node => blocks node.pba = (FtNode.inner nodes children).blockData P
      ∧ checkNodeHash P (.inner nodes children) node
      ∧ ∀ i, nodes i ≠ type1NodeInvalid → Denotes blocks (children i) (nodes i)

/-- Only the blocks of the tree matter. -/
theorem Denotes.congr {blocks blocks' : ℕ → P.Block} {tree : FtNode} {node : Type1Node}
    (h : Denotes blocks tree node)
    (hsame : ∀ x ∈ {node.pba} + pbas tree, blocks' x = blocks x) : Denotes blocks' tree node := by
  have hself : blocks' node.pba = blocks node.pba :=
    hsame _ (Multiset.mem_add.mpr (Or.inl (Multiset.mem_singleton_self _)))
  induction tree generalizing node with
  | leafs entries => exact ⟨hself.trans h.1, h.2⟩
  | inner nodes children ih =>
    refine ⟨hself.trans h.1, h.2.1, fun i hi => ?_⟩
    have hchild : ∀ x ∈ {(nodes i).pba} + pbas (children i), blocks' x = blocks x := by
      intro x hx
      refine hsame x (Multiset.mem_add.mpr (Or.inr (mem_sum_of_share (i := i) ?_)))
      rw [if_pos hi]
      exact hx
    exact ih i (h.2.2 i hi) hchild
      (hchild _ (Multiset.mem_add.mpr (Or.inl (Multiset.mem_singleton_self _))))

/-- A tree in the blocks can be read. -/
theorem Denotes.hash {blocks : ℕ → P.Block} {tree : FtNode} {node : Type1Node}
    (h : Denotes blocks tree node) : checkNodeHash P tree node := by
  cases tree with
  | leafs entries => exact h.2
  | inner nodes children => exact h.2.1

/-- **The search leaves the tree in the blocks** under its new entry, and writes
to no other blocks than those of its nodes. -/
structure Stored (blocks : ℕ → P.Block) (st : State P) (r : Handled P) : Prop where
  /-- The blocks denote the tree under its entry. -/
  denotes : Denotes (store blocks r.state.writes) r.tree r.node
  /-- Other blocks are as before. -/
  frame : ∀ x, x ∉ {r.node.pba} + pbas r.tree →
    store blocks r.state.writes x = store blocks st.writes x

section Stored

variable {ok : ℕ → Bool} {req : Request} {info : NodeInfo} {st : State P} {r : Handled P}
  {blocks : ℕ → P.Block}

/-- A level-1 node that was visited and written is denoted by its block. -/
theorem Stored.leafs {entries : Type2NodeBlock} (hgen : 0 < req.currentGen)
    (hst : st.finished = false)
    (hden : Denotes (store blocks st.writes) (.leafs entries) info.node)
    (h : executeUpdate ok req (.leafs entries) info st = .ok r) : Stored blocks st r := by
  obtain ⟨acc, hp, hwritten, hkept⟩ := executeUpdate_leafs hgen hst h
  have hsame : acc.state.writes = st.writes := hp.frame.1
  cases hhandled : acc.handled with
  | true =>
    have hw := hwritten hhandled
    have hstore : store blocks r.state.writes
        = Function.update (store blocks st.writes) r.node.pba (r.tree.blockData P) := by
      rw [hw.writes, store_append, hsame, hw.node_eq, hw.tree_eq]
      rfl
    refine ⟨?_, fun x hx => ?_⟩
    · rw [hstore, hw.tree_eq]
      refine ⟨Function.update_self _ _ _, ?_⟩
      rw [hw.node_eq]
      rfl
    · rw [hstore]
      refine Function.update_of_ne (fun hx' => hx (Multiset.mem_add.mpr (Or.inl ?_))) _ _
      exact Multiset.mem_singleton.mpr hx'
  | false =>
    obtain rfl := hkept hhandled
    exact ⟨by dsimp only; rw [hsame]; exact hden, fun _ _ => by dsimp only; rw [hsame]⟩

/-- The blocks of a child, before or after it is handled. -/
def childPbas (acc : LevelNState P) (i : Fin nodesPerBlock) : Multiset ℕ :=
  {(acc.nodes i).pba} + pbas (acc.children i)

/-- The addresses of a child are among those of the node. -/
theorem mem_pbas_inner {acc : LevelNState P} {i : Fin nodesPerBlock} {x : ℕ}
    (hi : acc.nodes i ≠ type1NodeInvalid) (hx : x ∈ childPbas acc i) :
    x ∈ pbas (.inner acc.nodes acc.children) := by
  refine mem_sum_of_share (i := i) ?_
  rw [if_pos hi]
  exact hx

/-- Two children have no address in common. -/
theorem ne_of_childPbas {acc : LevelNState P} {i j : Fin nodesPerBlock} {x y : ℕ}
    (hnd : (pbas (.inner acc.nodes acc.children)).Nodup) (hij : i ≠ j)
    (hi : acc.nodes i ≠ type1NodeInvalid) (hj : acc.nodes j ≠ type1NodeInvalid)
    (hx : x ∈ childPbas acc i) (hy : y ∈ childPbas acc j) : x ≠ y := by
  refine ne_of_shares hnd hij ?_ ?_
  · rw [if_pos hi]
    exact hx
  · rw [if_pos hj]
    exact hy

/-- The inner node after a child was handled. -/
def LevelNState.visited (c : LevelNState P) (i : Fin nodesPerBlock) (r : Handled P) :
    LevelNState P where
  nodes := Function.update c.nodes i r.node
  children := Function.update c.children i r.tree
  dirty := c.dirty || r.written
  state := r.state

/-- The addresses below the child that was visited. -/
theorem childPbas_visited (c : LevelNState P) (i : Fin nodesPerBlock) (r : Handled P) :
    childPbas (c.visited i r) i = {r.node.pba} + pbas r.tree := by
  unfold childPbas LevelNState.visited
  dsimp only
  rw [Function.update_self, Function.update_self]

/-- Those below the other children are as they were. -/
theorem childPbas_visited_of_ne (c : LevelNState P) {i j : Fin nodesPerBlock} (r : Handled P)
    (hji : j ≠ i) : childPbas (c.visited i r) j = childPbas c j := by
  unfold childPbas LevelNState.visited
  dsimp only
  rw [Function.update_of_ne hji, Function.update_of_ne hji]

/-- The children of an inner node in the blocks, when the search got as far as
`done`. -/
structure ChildrenStored (req : Request) (blocks : ℕ → P.Block) (a acc : LevelNState P)
    (done : List (Fin nodesPerBlock)) : Prop where
  /-- The search got as far as the children that are done. -/
  progress : LevelNProgress req a acc done
  /-- The entries in use stay so. -/
  valid : ∀ i, a.nodes i ≠ type1NodeInvalid → acc.nodes i ≠ type1NodeInvalid
  /-- The blocks denote each child under its entry. -/
  denotes : ∀ i, a.nodes i ≠ type1NodeInvalid →
    Denotes (store blocks acc.state.writes) (acc.children i) (acc.nodes i)
  /-- Blocks of none of those that are done are as before. -/
  frame : ∀ x, (∀ i ∈ done, x ∉ childPbas acc i) →
    store blocks acc.state.writes x = store blocks a.state.writes x

/-- No block is used twice while the children are handled. -/
theorem LevelNProgress.nodup {a acc : LevelNState P} {done : List (Fin nodesPerBlock)}
    (h : LevelNProgress req a acc done)
    (hnd : (pbas (.inner a.nodes a.children) + a.state.pbas + {req.oldPba}).Nodup) :
    (pbas (.inner acc.nodes acc.children) + acc.state.pbas).Nodup := by
  rw [h.conserved]
  refine Multiset.nodup_of_le ?_ hnd
  unfold Request.givenUp
  split_ifs
  · exact le_refl _
  · exact add_le_add_right zero_le _

/-- A child is handled. -/
theorem ChildrenStored.visit {a c : LevelNState P} {done : List (Fin nodesPerBlock)}
    {i : Fin nodesPerBlock} {volatile : Bool} (hgen : 0 < req.currentGen)
    (hnd : (pbas (.inner a.nodes a.children) + a.state.pbas + {req.oldPba}).Nodup)
    (h : ChildrenStored req blocks a c done) (hi : i ∉ done)
    (hvalid : a.nodes i ≠ type1NodeInvalid) (hc : c.state.finished = false)
    (hwalked : Walked req (a.children i) { node := a.nodes i, volatile := volatile } c.state r)
    (hchild : Denotes (store blocks c.state.writes) (a.children i) (a.nodes i) →
      (pbas (a.children i) + {(a.nodes i).pba} + c.state.pbas + {req.oldPba}).Nodup →
      Stored blocks c.state r) :
    ChildrenStored req blocks a (c.visited i r) (done ++ [i]) := by
  have hprogress : LevelNProgress req a (c.visited i r) (done ++ [i]) :=
    h.progress.visit hgen hi hvalid hc hwalked
  obtain ⟨hnode, htree⟩ := h.progress.other i hi
  have hstored : Stored blocks c.state r := by
    refine hchild ?_ ?_
    · have hden := h.denotes i hvalid
      rw [hnode, htree] at hden
      exact hden
    · -- the blocks of the child are among those below the node
      have hcons := h.progress.conserved
      rw [Request.givenUp, if_neg (by rw [hc]; decide), add_zero] at hcons
      refine Multiset.nodup_of_le ?_ hnd
      rw [← hcons, add_comm (pbas (a.children i)), ← hnode, ← htree]
      refine add_le_add_left (add_le_add_left ?_ _) _
      refine le_trans (le_of_eq ?_) (Finset.single_le_sum (f := fun j =>
        if c.nodes j ≠ type1NodeInvalid then {(c.nodes j).pba} + pbas (c.children j) else 0)
        (fun _ _ => zero_le) (Finset.mem_univ i))
      rw [if_pos (h.valid i hvalid)]
  have hnode' := hwalked.node_ne_invalid hgen hvalid
  have hvalid' : ∀ j, a.nodes j ≠ type1NodeInvalid →
      (c.visited i r).nodes j ≠ type1NodeInvalid := by
    intro j hj
    show Function.update c.nodes i r.node j ≠ type1NodeInvalid
    by_cases hji : j = i
    · subst hji
      rw [Function.update_self]
      exact hnode'
    · rw [Function.update_of_ne hji]
      exact h.valid j hj
  have hnd' := (Multiset.nodup_add.mp (hprogress.nodup hnd)).1
  refine ⟨hprogress, hvalid', fun j hj => ?_, fun x hx => ?_⟩
  · show Denotes (store blocks r.state.writes) (Function.update c.children i r.tree j)
      (Function.update c.nodes i r.node j)
    by_cases hji : j = i
    · subst hji
      rw [Function.update_self, Function.update_self]
      exact hstored.denotes
    · rw [Function.update_of_ne hji, Function.update_of_ne hji]
      refine (h.denotes j hj).congr fun x hx => hstored.frame x fun hx' => ?_
      refine ne_of_childPbas (x := x) (y := x) hnd' hji (hvalid' j hj) (hvalid' i hvalid) ?_ ?_ rfl
      · rw [childPbas_visited_of_ne c r hji]
        exact hx
      · rw [childPbas_visited]
        exact hx'
  · have hxi : x ∉ {r.node.pba} + pbas r.tree := by
      have hxi := hx i (List.mem_append_right _ List.mem_cons_self)
      rwa [childPbas_visited] at hxi
    refine (hstored.frame x hxi).trans (h.frame x fun j hj hxj => ?_)
    have hji : j ≠ i := fun hji : j = i => hi (hji ▸ hj)
    refine hx j (List.mem_append_left _ hj) ?_
    rw [childPbas_visited_of_ne c r hji]
    exact hxj

/-- A tree with changed children in the blocks. -/
theorem ChildrenStored.valid_iff {a acc : LevelNState P}
    (h : ChildrenStored req blocks a acc (req.children a.nodes)) {i : Fin nodesPerBlock}
    (hi : acc.nodes i ≠ type1NodeInvalid) : a.nodes i ≠ type1NodeInvalid := by
  by_cases hmem : i ∈ req.children a.nodes
  · exact ne_invalid_of_children hmem
  · rw [← (h.progress.other i hmem).1]
    exact hi

/-- **A node whose children were visited** is denoted by its block. Where the
search has written one child, it has not touched the blocks of the others. -/
theorem Stored.inner {nodes : Type1NodeBlock} {children : Fin nodesPerBlock → FtNode}
    (hgen : 0 < req.currentGen) (hst : st.finished = false)
    (ih : ∀ i {info : NodeInfo} {st : State P} {r : Handled P}, st.finished = false →
      Denotes (store blocks st.writes) (children i) info.node →
      (pbas (children i) + {info.node.pba} + st.pbas + {req.oldPba}).Nodup →
      executeUpdate ok req (children i) info st = .ok r → Stored blocks st r)
    (hden : Denotes (store blocks st.writes) (.inner nodes children) info.node)
    (hnd : (pbas (.inner nodes children) + {info.node.pba} + st.pbas + {req.oldPba}).Nodup)
    (h : executeUpdate ok req (.inner nodes children) info st = .ok r) : Stored blocks st r := by
  obtain ⟨acc, hfold, hwritten, hkept⟩ := executeUpdate_inner h
  have hstart : State.pbas { st with
        prims := st.prims + 1
        levelNNodes := info :: st.levelNNodes } = {info.node.pba} + st.pbas :=
    State.pbas_of_cons rfl
  rw [add_assoc (pbas (.inner nodes children)), ← hstart] at hnd
  have hc : ChildrenStored req blocks
      { nodes := nodes
        children := children
        dirty := false
        state := { st with
          prims := st.prims + 1
          levelNNodes := info :: st.levelNNodes } } acc (req.children nodes) := by
    refine handleChildren_induct hfold (children_nodup req nodes)
      ⟨LevelNProgress.nil req hst, fun _ h => h, hden.2.2, fun _ _ => rfl⟩
      (fun c done i _ _ hc hfin => ⟨hc.progress.skip hfin, hc.valid, hc.denotes, fun x hx =>
        hc.frame x fun j hj => hx j (List.mem_append_left _ hj)⟩) ?_
    intro c done i r hi hni hc hc' hr
    obtain ⟨hnode, -⟩ := hc.progress.other i hni
    rw [hnode] at hr
    exact hc.visit hgen hnd hni (ne_invalid_of_children hi) hc' (executeUpdate_walked hgen hc' hr)
      fun hden hnd => ih i hc' hden hnd hr
  have hnd' := hc.progress.nodup hnd
  obtain ⟨hlevels, -, -⟩ := Raised.own hc.progress.raised
  -- the block of the node itself is not one of those below it
  have hapart : ∀ pba ∈ acc.state.pbas, ∀ i, acc.nodes i ≠ type1NodeInvalid →
      pba ∉ childPbas acc i := fun pba hpba i hi hx =>
    Multiset.disjoint_left.mp (Multiset.nodup_add.mp hnd').2.2 (mem_pbas_inner hi hx) hpba
  have hframe : ∀ x, x ∉ pbas (.inner acc.nodes acc.children) →
      store blocks acc.state.writes x = store blocks st.writes x := fun x hx =>
    hc.frame x fun i hi hxi => hx (mem_pbas_inner (hc.valid i (ne_invalid_of_children hi)) hxi)
  cases hdirty : acc.dirty with
  | true =>
    have hw := hwritten hdirty
    have hown : acc.state.own.node.pba ∈ acc.state.pbas := by
      rw [State.pbas_of_cons hlevels]
      exact Multiset.mem_add.mpr (Or.inl (Multiset.mem_singleton_self _))
    have hstore : store blocks r.state.writes
        = Function.update (store blocks acc.state.writes) r.node.pba (r.tree.blockData P) := by
      rw [hw.writes, store_append, hw.node_eq, hw.tree_eq]
      rfl
    have hpba : r.node.pba = acc.state.own.node.pba := by
      rw [hw.node_eq]
      rfl
    refine ⟨?_, fun x hx => ?_⟩
    · rw [hstore, hw.tree_eq]
      refine ⟨Function.update_self _ _ _, ?_, fun i hi => ?_⟩
      · rw [hw.node_eq]
        rfl
      · refine (hc.denotes i (hc.valid_iff hi)).congr fun x hx => ?_
        refine Function.update_of_ne (fun hx' => ?_) _ _
        exact hapart _ hown i hi (hpba ▸ hx' ▸ hx)
    · rw [Multiset.mem_add, not_or, Multiset.mem_singleton, hw.tree_eq] at hx
      rw [hstore, Function.update_of_ne hx.1]
      exact hframe x hx.2
  | false =>
    have hidle : ∀ i ∈ req.children nodes, nrOfUsable req (children i) = 0 := by
      intro i hi
      by_contra hne
      have hbusy := hc.progress.busy ⟨i, hi, Nat.pos_of_ne_zero hne⟩
      exact absurd (hdirty.symm.trans hbusy.2) (by decide)
    obtain ⟨hnodes, hchildren, -, hlev, -⟩ := hc.progress.idle hidle
    obtain rfl := hkept hdirty
    have hself : info.node.pba ∈ acc.state.pbas := by
      rw [State.pbas_of_cons hlev]
      exact Multiset.mem_add.mpr (Or.inl (Multiset.mem_singleton_self _))
    refine ⟨⟨?_, ?_, fun i hi => hc.denotes i (hc.valid_iff hi)⟩, fun x hx => ?_⟩
    · dsimp only
      rw [hframe _ fun hx => Multiset.disjoint_left.mp (Multiset.nodup_add.mp hnd').2.2 hx hself,
        hnodes, hchildren]
      exact hden.1
    · dsimp only
      rw [hnodes, hchildren]
      exact hden.2.1
    · exact hframe x fun hx' => hx (Multiset.mem_add.mpr (Or.inr hx'))

/-- **The search on the blocks**, for every tree none of whose blocks is used
twice. -/
theorem executeUpdate_stored {tree : FtNode} (hgen : 0 < req.currentGen)
    (hst : st.finished = false) (hden : Denotes (store blocks st.writes) tree info.node)
    (hnd : (pbas tree + {info.node.pba} + st.pbas + {req.oldPba}).Nodup)
    (h : executeUpdate ok req tree info st = .ok r) : Stored blocks st r := by
  induction tree generalizing info st r with
  | leafs entries => exact Stored.leafs hgen hst hden h
  | inner nodes children ih =>
    exact Stored.inner hgen hst (fun i _ _ _ hst hden hnd hr => ih i hst hden hnd hr) hden hnd h

end Stored

/-! ## No hash is wrong

In a tree that is denoted by the blocks no hash is wrong, so the search stops
only at a cache primitive that fails. -/

section Readable

variable {ok : ℕ → Bool} {req : Request}

/-- The search stopped at a cache primitive that failed. -/
def Stop.AtPrimitive (ok : ℕ → Bool) : Stop P → Prop
  | .treeHashMismatch => False
  | .cacheFailed st => ok st.prims = false

/-- A write stops at its primitive. -/
theorem writeBlock_stop {pba : ℕ} {blk : P.Block} {st : State P} {e : Stop P}
    (h : writeBlock ok pba blk st = .error e) : e.AtPrimitive ok := by
  unfold writeBlock at h
  split_ifs at h with hok
  cases h
  exact Bool.eq_false_iff.mpr hok

/-- So does the write of a node. -/
theorem writeNode_stop {tree : FtNode} {pba : ℕ} {st : State P} {e : Stop P}
    (h : writeNode ok req tree pba st = .error e) : e.AtPrimitive ok :=
  writeBlock_stop (map_eq_error h)

/-- A node with the right hash is read, or its primitive fails. -/
theorem readNode_stop {tree : FtNode} {node : Type1Node} {st : State P} {e : Stop P}
    (hhash : checkNodeHash P tree node) (h : readNode ok tree node st = .error e) :
    e.AtPrimitive ok := by
  unfold readNode at h
  split_ifs at h with hok
  cases h
  exact Bool.eq_false_iff.mpr hok

/-- The children of an inner node are read with the hashes of their entries. -/
theorem handleChildren_stop {nodes : Type1NodeBlock}
    {handle : Fin nodesPerBlock → NodeInfo → State P → Except (Stop P) (Handled P)}
    {e : Stop P} (l : List (Fin nodesPerBlock)) {acc : LevelNState P} (hnd : l.Nodup)
    (hsame : ∀ i ∈ l, acc.nodes i = nodes i)
    (hhandle : ∀ i ∈ l, ∀ info st, info.node = nodes i → handle i info st = .error e →
      e.AtPrimitive ok)
    (h : l.foldlM (handleChild req handle) acc = .error e) : e.AtPrimitive ok := by
  induction l generalizing acc with
  | nil => exact absurd h (by simp [pure, Except.pure])
  | cons i l ih =>
    rw [List.forall_mem_cons] at hsame hhandle
    rw [List.nodup_cons] at hnd
    rw [List.foldlM_cons] at h
    rcases bind_eq_error h with hstep | ⟨c, hstep, hrest⟩
    · unfold handleChild at hstep
      split_ifs at hstep
      exact hhandle.1 _ _ hsame.1 (map_eq_error hstep)
    · refine ih hnd.2 (fun j hj => ?_) hhandle.2 hrest
      unfold handleChild at hstep
      split_ifs at hstep
      · rw [← Except.ok.inj hstep]
        exact hsame.2 j hj
      · obtain ⟨r, -, rfl⟩ := map_eq_ok hstep
        have hji : j ≠ i := fun hji : j = i => hnd.1 (hji ▸ hj)
        exact (Function.update_of_ne hji _ _).trans (hsame.2 j hj)

/-- **In a tree in the blocks no hash is wrong**: only a failed primitive stops
the search. -/
theorem executeUpdate_stop {tree : FtNode} {info : NodeInfo} {st : State P}
    {blocks : ℕ → P.Block} {e : Stop P} (h : Denotes blocks tree info.node)
    (hrun : executeUpdate ok req tree info st = .error e) : e.AtPrimitive ok := by
  induction tree generalizing info st with
  | leafs entries =>
    unfold executeUpdate at hrun
    rcases bind_eq_error hrun with hread | ⟨st₁, -, hrest⟩
    · exact readNode_stop h.hash hread
    · dsimp only at hrest
      split_ifs at hrest
      exact writeNode_stop hrest
  | inner nodes children ih =>
    unfold executeUpdate at hrun
    rcases bind_eq_error hrun with hread | ⟨st₁, -, hrest⟩
    · exact readNode_stop h.hash hread
    · rcases bind_eq_error hrest with hfold | ⟨acc, -, hrest⟩
      · refine handleChildren_stop (req.children nodes) (children_nodup req nodes)
          (fun _ _ => rfl) (fun i hi info st hinfo hr => ?_) hfold
        exact ih i (hinfo ▸ h.2.2 i (ne_invalid_of_children hi)) hr
      · dsimp only at hrest
        split_ifs at hrest
        exact writeNode_stop hrest

/-- What a request to a tree in the blocks comes to. -/
theorem execute_cases {newPba : ℕ} {root : Type1Node} {tree : FtNode} {blocks : ℕ → P.Block}
    (hinner : ∃ nodes children, tree = .inner nodes children) (h : Denotes blocks tree root) :
    (∃ st : State P, execute ok req newPba root tree = some (.cacheFailed st)
        ∧ ok st.prims = false)
      ∨ ∃ res : Handled P, execute ok req newPba root tree = some (.complete res) := by
  obtain ⟨nodes, children, rfl⟩ := hinner
  show (∃ st, Outcome.ofResult _ = _ ∧ _) ∨ ∃ res, Outcome.ofResult _ = _
  generalize hrun : executeUpdate (P := P) ok req (.inner nodes children) _ _ = out
  match out with
  | .error .treeHashMismatch => exact absurd hrun (fun hrun => executeUpdate_stop h hrun)
  | .error (.cacheFailed st) => exact Or.inl ⟨st, rfl, executeUpdate_stop h hrun⟩
  | .ok res => exact Or.inr ⟨res, rfl⟩

end Readable

/-! ## The module and its clients

The requests of the free tree and of the free-tree resizing, in any order, on
one module. -/

/-- The clients of the meta tree. The resizing of the meta tree would be a third
one, but nothing starts it. -/
inductive Caller where
  | freeTree
  | ftResizing
  deriving DecidableEq

/-- A request of a client, with the outcomes of its cache primitives. -/
structure Call where
  /-- Who asks. -/
  caller : Caller
  /-- What is asked for. -/
  req : Request
  /-- Which of the cache primitives succeed. -/
  ok : ℕ → Bool

namespace Outcome

/-- A cache primitive failed, and the record of the cache request is left in
progress. -/
def failed : Outcome P → Bool
  | .cacheFailed _ => true
  | .complete _ => false

/-- What was written. -/
def writes : Outcome P → List (ℕ × P.Block)
  | .cacheFailed st => st.writes
  | .complete res => res.state.writes

/-- The tree below the root that is handed back, if the request got through. -/
def tree (old : FtNode) : Outcome P → FtNode
  | .cacheFailed _ => old
  | .complete res => res.tree

end Outcome

/-- What the clients make of a completed request: the free tree raises when it
failed, the resizing takes the address as it is. -/
def Caller.take (caller : Caller) (out : Outcome P) : Option ℕ :=
  match caller with
  | .freeTree => if out.success = true then some out.newPba else none
  | .ftResizing => some out.newPba

/-- **What became of a request** that a client went on after. -/
structure Report where
  /-- The tree had a usable entry. -/
  usable : Bool
  /-- A cache primitive has failed. -/
  cacheFailed : Bool
  /-- The request was reported as a success. -/
  success : Bool
  /-- The address that the client uses as an allocated block. -/
  taken : Option ℕ

/-- The request failed: it had to, because there was nothing usable or a
primitive failed, or it completed without success for another reason. -/
def Report.Fails (rep : Report) : Prop :=
  rep.usable = false ∨ rep.cacheFailed = true ∨ rep.success = false

/-- **The meta tree between two requests**, with the blocks and the root in the
superblock. `tree` is the tree that the module finds in the blocks. -/
structure World (P : Platform) where
  /-- The blocks of the device. -/
  blocks : ℕ → P.Block
  /-- The tree that they denote. -/
  tree : FtNode
  /-- `Meta_Number`, `Meta_Gen` and `Meta_Hash`. -/
  root : Type1Node
  /-- `Cur_Gen`. -/
  gen : ℕ
  /-- The address that the last request has left. -/
  newPba : ℕ
  /-- The record of the cache request is in progress. -/
  cacheRequest : Bool
  /-- What became of the last request. -/
  last : Option Report

namespace World

/-- How a request completes that is executed by the module. -/
def outcome (w : World P) (c : Call) : Option (Outcome P) :=
  execute c.ok c.req w.newPba w.root w.tree

/-- **A request**, executed until it is completed, taken over by the client and
dropped. It never ends while the record of an earlier cache request is in
progress, and it ends in a raise (`none`) of the module or of the client. -/
def step (w : World P) (c : Call) : Option (World P) :=
  if w.cacheRequest = true then none
  else
    (w.outcome c).bind fun out =>
      (c.caller.take out).map fun pba =>
        { blocks := store w.blocks out.writes
          tree := out.tree w.tree
          root := out.rootNode
          gen := c.req.currentGen
          newPba := out.newPba
          cacheRequest := out.failed
          last := some {
            usable := decide (0 < nrOfUsable c.req w.tree)
            cacheFailed := out.failed
            success := out.success
            taken := some pba } }

/-- What the clients stick to: the generation does not go back, and the block
that is given up is none of the meta tree. -/
def Lawful (w : World P) (c : Call) : Prop :=
  w.gen ≤ c.req.currentGen ∧ c.req.oldPba ∉ {w.root.pba} + pbas w.tree

/-- The resizing of the free tree gets what it asks for: the tree has a usable
entry for it after those that the nodes of the tree take, and no cache primitive
fails. -/
def Provides (w : World P) (c : Call) : Prop :=
  c.caller = .ftResizing → (∀ n, c.ok n = true) ∧ c.req.Serves w.root w.tree

/-- **A meta tree before the first request.** -/
structure Initial (w : World P) : Prop where
  /-- The blocks denote the tree. -/
  denotes : Denotes w.blocks w.tree w.root
  /-- No block is used twice. -/
  distinct : ({w.root.pba} + pbas w.tree).Nodup
  /-- The tree has an inner node on top. -/
  inner : ∃ nodes children, w.tree = .inner nodes children
  /-- The generation is not zero. -/
  gen_pos : 0 < w.gen
  /-- No cache request is in progress. -/
  cacheRequest : w.cacheRequest = false
  /-- There was no request. -/
  last : w.last = none

/-- **Failure is clean.** -/
structure FailsCleanly (w : World P) : Prop where
  /-- A request without a usable entry, or with a failed primitive, is reported
  as failed. -/
  reported : ∀ c, w.Lawful c → ∀ out, w.outcome c = some out →
    (nrOfUsable c.req w.tree = 0 ∨ out.failed = true) → out.success = false
  /-- No client went on with the address of such a request. -/
  unused : ∀ rep, w.last = some rep → rep.Fails → rep.taken = none
  /-- The root in the superblock stands for a complete tree with the right
  hashes. -/
  root : ∃ tree, Denotes w.blocks tree w.root
  /-- The next request is executed and completes. -/
  serves : ∀ c, w.cacheRequest = false ∧ (w.outcome c).isSome

/-- What the steps keep as long as the resizing gets what it asks for. -/
structure Kept (w : World P) : Prop where
  /-- The blocks denote the tree. -/
  denotes : Denotes w.blocks w.tree w.root
  /-- No block is used twice. -/
  distinct : ({w.root.pba} + pbas w.tree).Nodup
  /-- The tree has an inner node on top. -/
  inner : ∃ nodes children, w.tree = .inner nodes children
  /-- The generation is not zero. -/
  gen_pos : 0 < w.gen
  /-- No cache request is in progress. -/
  cacheRequest : w.cacheRequest = false
  /-- The last request has not failed. -/
  last : ∀ rep, w.last = some rep → ¬ rep.Fails

/-- What is asked of a start is what is kept. -/
theorem Initial.kept {w : World P} (h : w.Initial) : w.Kept where
  denotes := h.denotes
  distinct := h.distinct
  inner := h.inner
  gen_pos := h.gen_pos
  cacheRequest := h.cacheRequest
  last rep hrep := absurd (h.last.symm.trans hrep) (by simp)

/-- What a request that gets through leaves is in the blocks, and no block is
used twice. -/
theorem Kept.complete {w : World P} (h : w.Kept) {c : Call} (hlawful : w.Lawful c)
    {res : Handled P} (hout : w.outcome c = some (.complete res)) :
    Walked c.req w.tree (c.req.rootInfo w.root) (State.submitted w.root w.newPba) res
      ∧ Denotes (store w.blocks res.state.writes) res.tree res.node
      ∧ ({res.node.pba} + pbas res.tree).Nodup
      ∧ ∃ nodes children, res.tree = .inner nodes children := by
  obtain ⟨⟨nodes, children, htree⟩, hrun⟩ := execute_complete hout
  have hgen : 0 < c.req.currentGen := h.gen_pos.trans_le hlawful.1
  have hwalked := executeUpdate_walked hgen rfl hrun
  have hnd : (pbas w.tree + {w.root.pba} + 0 + {c.req.oldPba}).Nodup := by
    rw [add_zero, add_comm (pbas w.tree), Multiset.nodup_add]
    exact ⟨h.distinct, Multiset.nodup_singleton _,
      Multiset.disjoint_singleton.mpr hlawful.2⟩
  have hstored : Stored w.blocks (State.submitted w.root w.newPba) res := by
    refine executeUpdate_stored hgen rfl ?_ hnd hrun
    exact h.denotes
  refine ⟨hwalked, hstored.denotes, ?_, ?_⟩
  · refine Multiset.nodup_of_le ?_ hnd
    have hcons := hwalked.conserved
    rw [submitted_pbas] at hcons
    calc {res.node.pba} + pbas res.tree
        ≤ pbas res.tree + {res.node.pba} + res.state.pbas := by
          rw [add_comm ({res.node.pba} : Multiset ℕ)]
          exact Multiset.le_add_right _ _
      _ = pbas w.tree + {w.root.pba} + 0 + c.req.givenUp res.state := hcons
      _ ≤ pbas w.tree + {w.root.pba} + 0 + {c.req.oldPba} := by
          unfold Request.givenUp
          split_ifs
          · exact le_refl _
          · exact add_le_add_right zero_le _
  · rw [htree] at hrun
    obtain ⟨acc, -, hwritten, hkept⟩ := executeUpdate_inner hrun
    cases hd : acc.dirty with
    | true => exact ⟨_, _, (hwritten hd).tree_eq⟩
    | false =>
      rw [hkept hd]
      exact ⟨_, _, rfl⟩

/-- The request completes, whatever the cache primitives do. -/
theorem Kept.outcome_cases {w : World P} (h : w.Kept) (c : Call) :
    (∃ st : State P, w.outcome c = some (.cacheFailed st) ∧ c.ok st.prims = false)
      ∨ ∃ res : Handled P, w.outcome c = some (.complete res) :=
  execute_cases h.inner h.denotes

/-- **A request that has to fail is reported as failed.** -/
theorem Kept.reported {w : World P} (h : w.Kept) {c : Call} (hlawful : w.Lawful c)
    {out : Outcome P} (hout : w.outcome c = some out)
    (hfails : nrOfUsable c.req w.tree = 0 ∨ out.failed = true) : out.success = false := by
  cases out with
  | cacheFailed st => rfl
  | complete res =>
    obtain ⟨hwalked, -⟩ := h.complete hlawful hout
    exact (hwalked.idle (hfails.resolve_right Bool.false_ne_true)).2.2.2.2

/-- **When a request is served** whose primitives are all successful. -/
theorem Kept.success_iff {w : World P} (h : w.Kept) {c : Call} (hlawful : w.Lawful c)
    (hok : ∀ n, c.ok n = true) {out : Outcome P} (hout : w.outcome c = some out) :
    out.success = true ↔ c.req.Serves w.root w.tree := by
  rcases h.outcome_cases c with ⟨st, -, hfail⟩ | ⟨res, hout'⟩
  · exact absurd ((hok _).symm.trans hfail) (by decide)
  · obtain rfl := Option.some.inj (hout.symm.trans hout')
    exact finished_iff_serves (h.gen_pos.trans_le hlawful.1) (execute_complete hout).2

/-- What is kept is what a clean failure needs. -/
theorem Kept.failsCleanly {w : World P} (h : w.Kept) : w.FailsCleanly where
  reported _ hlawful _ hout hfails := h.reported hlawful hout hfails
  unused rep hrep hfails := absurd hfails (h.last rep hrep)
  root := ⟨w.tree, h.denotes⟩
  serves c := by
    refine ⟨h.cacheRequest, ?_⟩
    rcases h.outcome_cases c with ⟨st, hout, -⟩ | ⟨res, hout⟩
    all_goals
      rw [hout]
      rfl

/-- One request. -/
theorem Kept.step {w w' : World P} {c : Call} (h : w.Kept) (hlawful : w.Lawful c)
    (hprovides : w.Provides c) (hstep : w.step c = some w') : w'.Kept := by
  unfold World.step at hstep
  rw [if_neg (by rw [h.cacheRequest]; decide)] at hstep
  obtain ⟨out, hout, hstep⟩ := Option.bind_eq_some_iff.mp hstep
  obtain ⟨pba, htake, rfl⟩ := Option.map_eq_some_iff.mp hstep
  -- a client goes on only when the request was served
  have hsuccess : out.success = true := by
    cases hcaller : c.caller with
    | freeTree =>
      rw [hcaller, Caller.take] at htake
      exact (Option.ite_none_right_eq_some.mp htake).1
    | ftResizing =>
      obtain ⟨hok, hserves⟩ := hprovides hcaller
      exact (h.success_iff hlawful hok hout).mpr hserves
  have hpos : 0 < nrOfUsable c.req w.tree := Nat.pos_of_ne_zero fun h0 =>
    absurd (hsuccess.symm.trans (h.reported hlawful hout (Or.inl h0))) (by decide)
  cases out with
  | cacheFailed st => exact absurd hsuccess (by simp [Outcome.success])
  | complete res =>
    obtain ⟨hwalked, hden, hnd, hinner⟩ := h.complete hlawful hout
    have hroot : res.state.rootNode = res.node := (hwalked.busy hpos).2.2.2 rfl
    refine ⟨?_, ?_, hinner, h.gen_pos.trans_le hlawful.1, rfl, ?_⟩
    · show Denotes (store w.blocks res.state.writes) res.tree res.state.rootNode
      rw [hroot]
      exact hden
    · show ({res.state.rootNode.pba} + pbas res.tree).Nodup
      rw [hroot]
      exact hnd
    · intro rep hrep
      obtain rfl := Option.some.inj hrep
      rintro (hnone | hfail | hunsuccessful)
      · exact of_decide_eq_false hnone hpos
      · exact Bool.false_ne_true hfail
      · exact Bool.false_ne_true (hunsuccessful.symm.trans hsuccess)

/-- **A failed request to the meta tree does no harm** in every run in which the
resizing of the free tree gets what it asks for. -/
theorem failsCleanly_of_run {w w' : World P} (h : w.Initial)
    (hrun : Runs.Run step (fun w c => w.Lawful c ∧ w.Provides c) w w') : w'.FailsCleanly :=
  (hrun.invariant (I := Kept) (fun _ _ _ hk hC hstep => hk.step hC.1 hC.2 hstep)
    h.kept).failsCleanly

/-- A client that goes on after a failed request makes it do harm. -/
theorem not_failsCleanly_of_step {w w' : World P} {c : Call} (hstep : w.step c = some w')
    {out : Outcome P} (hout : w.outcome c = some out) (hfails : out.success = false) :
    ¬ w'.FailsCleanly := by
  unfold World.step at hstep
  obtain ⟨-, hstep⟩ := Option.ite_none_left_eq_some.mp hstep
  rw [hout, Option.bind_some] at hstep
  obtain ⟨pba, -, rfl⟩ := Option.map_eq_some_iff.mp hstep
  intro hclean
  have hunused := hclean.unused _ rfl (Or.inr (Or.inr hfails))
  exact absurd hunused (by simp)

/-- **Where the resizing does not get what it asks for, it does harm**: it always
goes on. -/
theorem Kept.not_failsCleanly {w : World P} (h : w.Kept) {c : Call} (hlawful : w.Lawful c)
    (hcaller : c.caller = .ftResizing) {out : Outcome P} (hout : w.outcome c = some out)
    (hfails : out.failed = true ∨ ¬ c.req.Serves w.root w.tree) :
    ∃ w', w.step c = some w' ∧ ¬ w'.FailsCleanly := by
  have hsuccess : out.success = false := by
    cases out with
    | cacheFailed st => rfl
    | complete res =>
      have hnot := hfails.resolve_left (by simp [Outcome.failed])
      refine Bool.eq_false_iff.mpr fun hfin => hnot ?_
      exact (finished_iff_serves (h.gen_pos.trans_le hlawful.1) (execute_complete hout).2).mp hfin
  obtain ⟨w', hstep⟩ : ∃ w', w.step c = some w' := by
    unfold World.step
    rw [if_neg (by rw [h.cacheRequest]; decide), hout, Option.bind_some, hcaller]
    exact ⟨_, rfl⟩
  exact ⟨w', hstep, not_failsCleanly_of_step hstep hout hsuccess⟩

/-- A meta tree of one level-1 node with sixteen entries, of which `n` are of an
earlier generation and the others of the current one. -/
def sampleEntries (n : ℕ) : Type2NodeBlock := fun i =>
  if i.val < 16 then { type2NodeInvalid with
    pba := 14 + i.val
    allocGen := if i.val < n then 0 else 1 } else type2NodeInvalid

/-- The tree with these entries. -/
def sampleTree (n : ℕ) : FtNode :=
  .inner (fun i => if i = 0 then ⟨13, 0, 0⟩ else type1NodeInvalid) fun _ =>
    .leafs (sampleEntries n)

/-- It is in the blocks 12 and 13. -/
def sample (n : ℕ) : World Platform.sample where
  blocks pba :=
    if pba = 12 then (sampleTree n).blockData Platform.sample
    else (FtNode.leafs (sampleEntries n)).blockData Platform.sample
  tree := sampleTree n
  root := sampleRoot 0
  gen := 1
  newPba := 77
  cacheRequest := false
  last := none

/-- A request of the resizing to it, for a block in place of `oldPba`. -/
def sampleCall (oldPba : ℕ) (ok : ℕ → Bool) : Call where
  caller := .ftResizing
  req := { sampleRequest with oldPba := oldPba }
  ok := ok

/-- The sample tree is denoted by its blocks. -/
theorem sample_denotes (n : ℕ) :
    Denotes (sample n).blocks (sampleTree n) (sampleRoot 0) := by
  refine ⟨rfl, rfl, fun i hi => ?_⟩
  obtain rfl : i = 0 := by
    by_contra hne
    exact hi (if_neg hne)
  exact ⟨rfl, rfl⟩

/-- The numbers of entries left in the samples below. -/
def sampleSizes : List ℕ := [0, 2, 16]

/-- The sample module may start. -/
theorem sample_initial {n : ℕ} (hn : n ∈ sampleSizes) : (sample n).Initial where
  denotes := sample_denotes n
  distinct := by
    show ({12} + pbas (sampleTree n)).Nodup
    revert n
    decide +kernel
  inner := ⟨_, _, rfl⟩
  gen_pos := Nat.one_pos
  cacheRequest := rfl
  last := rfl

/-- The block that is given up is not one of the tree. -/
theorem sample_lawful {n : ℕ} (hn : n ∈ sampleSizes) (ok : ℕ → Bool) :
    (sample n).Lawful (sampleCall 99 ok) := by
  refine ⟨le_refl _, ?_⟩
  show 99 ∉ {12} + pbas (sampleTree n)
  revert n
  decide +kernel

/-- One request of the resizing, to a tree with enough entries. -/
theorem failsCleanly_of_run_sample :
    ∃ w', (sample 16).step (sampleCall 99 fun _ => true) = some w' ∧ w'.FailsCleanly := by
  obtain ⟨w', hstep⟩ : ∃ w', (sample 16).step (sampleCall 99 fun _ => true) = some w' := ⟨_, rfl⟩
  exact ⟨w', hstep, failsCleanly_of_run (sample_initial (by decide)) (Runs.Run.single _
    ⟨sample_lawful (by decide) _, fun _ => ⟨fun _ => rfl, by decide +kernel⟩⟩ hstep)⟩

/-- **Failure is not clean**, in three ways. When all entries were exchanged in
the current generation, the resizing goes on with the address 77 that an earlier
request left. When one entry is left, it goes to a node of the meta tree, and
the resizing goes on with the block 14 that it already got for the request
before. When a primitive failed, no request is ever executed again. -/
theorem not_failsCleanly_sample :
    ((sample 0).Initial ∧ (sample 0).Lawful (sampleCall 99 fun _ => true)
        ∧ ∃ w', (sample 0).step (sampleCall 99 fun _ => true) = some w'
          ∧ (w'.last = some {
              usable := false
              cacheFailed := false
              success := false
              taken := some 77 })
          ∧ ¬ w'.FailsCleanly)
      ∧ ((sample 2).Initial ∧ (sample 2).Lawful (sampleCall 99 fun _ => true)
        ∧ (sample 2).Provides (sampleCall 99 fun _ => true)
        ∧ ∃ w₁, (sample 2).step (sampleCall 99 fun _ => true) = some w₁
          ∧ (w₁.last = some {
              usable := true
              cacheFailed := false
              success := true
              taken := some 14 })
          ∧ w₁.Lawful (sampleCall 98 fun _ => true)
          ∧ ∃ w', w₁.step (sampleCall 98 fun _ => true) = some w'
            ∧ (w'.last = some {
                usable := true
                cacheFailed := false
                success := false
                taken := some 14 })
            ∧ ¬ w'.FailsCleanly)
      ∧ (sample 16).Initial ∧ (sample 16).Lawful (sampleCall 99 fun n => n < 2)
        ∧ ∃ w', (sample 16).step (sampleCall 99 fun n => n < 2) = some w'
          ∧ (∀ c, w'.step c = none) ∧ ¬ w'.FailsCleanly := by
  refine ⟨⟨sample_initial (by decide), sample_lawful (by decide) _, ?_⟩,
    ⟨sample_initial (by decide), sample_lawful (by decide) _,
      fun _ => ⟨fun _ => rfl, by decide +kernel⟩, ?_⟩,
    sample_initial (by decide), sample_lawful (by decide) _, ?_⟩
  · obtain ⟨w', hstep, hlast⟩ : ∃ w', (sample 0).step (sampleCall 99 fun _ => true) = some w'
        ∧ w'.last = some {
            usable := false
            cacheFailed := false
            success := false
            taken := some 77 } := ⟨_, rfl, rfl⟩
    exact ⟨w', hstep, hlast, fun hclean =>
      absurd (hclean.unused _ hlast (Or.inl rfl)) (by simp)⟩
  · obtain ⟨w₁, hstep₁, hlast₁, hlawful₁, w', hstep, hlast⟩ :
        ∃ w₁, (sample 2).step (sampleCall 99 fun _ => true) = some w₁
          ∧ (w₁.last = some {
              usable := true
              cacheFailed := false
              success := true
              taken := some 14 })
          ∧ w₁.Lawful (sampleCall 98 fun _ => true)
          ∧ ∃ w', w₁.step (sampleCall 98 fun _ => true) = some w'
            ∧ w'.last = some {
                usable := true
                cacheFailed := false
                success := false
                taken := some 14 } :=
      ⟨_, rfl, rfl, ⟨le_refl _, by decide +kernel⟩, _, rfl, rfl⟩
    exact ⟨w₁, hstep₁, hlast₁, hlawful₁, w', hstep, hlast, fun hclean =>
      absurd (hclean.unused _ hlast (Or.inr (Or.inr rfl))) (by simp)⟩
  · obtain ⟨w', hstep, hstuck⟩ : ∃ w', (sample 16).step (sampleCall 99 fun n => n < 2) = some w'
        ∧ w'.cacheRequest = true := ⟨_, rfl, rfl⟩
    refine ⟨w', hstep, fun c => if_pos hstuck, fun hclean => ?_⟩
    exact absurd ((hclean.serves (sampleCall 99 fun _ => true)).1.symm.trans hstuck) (by decide)

end World

end Mt

end Cbe
