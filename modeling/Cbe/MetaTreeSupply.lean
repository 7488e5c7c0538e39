import Cbe.MetaTreeExchange

/-!
# Whether a request to the meta tree is served

A usable entry is not yet a block for the client. The search spends the entries
that it comes across on its own nodes first: on the level-1 node in which it
found the entry, then on the inner nodes above it, from the lowest on, each of
them once and only if it is not `Volatile`. Only when none of them waits for a
block any more does an entry go to the client. When the entries run out before
that, the request completes without success, although it found something and
wrote to the tree.

Whether this happens can be told from the tree before the request, by counting.
`remaining` is that count: how many inner nodes are still without a block when
the search leaves a part of the tree, or nothing if the request was served. It
needs the generations of the entries and of the nodes only, no block address and
no hash. `executeUpdate_remaining` says that the search comes to just this, for
every tree, and `serves_of_lt` gives the simple sufficient condition: more
usable entries than nodes.
-/

namespace Cbe

variable {P : Platform}

namespace Mt

/-! ## The count

The nodes that are still without a block are those which the search has opened
on its way down and not yet renewed. -/

/-- The inner node is of the current generation when the search gets to one of
its children: it was before, or it was moved since. It was moved when no more
nodes are without a block than the `opened` ones above it. -/
def NodeInfo.Renewed (req : Request) (info : NodeInfo) (opened due : ℕ) : Prop :=
  info.node.gen = req.currentGen ∨ info.Open ∧ due ≤ opened

instance (req : Request) (info : NodeInfo) (opened due : ℕ) :
    Decidable (info.Renewed req opened due) := inferInstanceAs (Decidable (_ ∨ _))

/-- How many nodes have to get a block before the request does, when the search
enters a level-1 node. -/
def NodeInfo.due (info : NodeInfo) (opened : ℕ) : ℕ :=
  (if info.volatile = false then 1 else 0) + opened

/-- **How many of the inner nodes above a part of the tree have no block yet**
when the search leaves it, if `opened` of them had none when it came. There is
nothing left to count (`none`) when the request was served on the way. -/
def remaining (req : Request) : FtNode → NodeInfo → ℕ → Option ℕ
  | .leafs entries, info, opened =>
    if req.usableEntries entries = 0 then some opened
    else if info.due opened < req.usableEntries entries then none
    else some (info.due opened - req.usableEntries entries)
  | .inner nodes children, info, opened =>
    -- those above are as before until the node itself has its block
    ((req.children nodes).foldl
      (fun left i => left.bind fun due => remaining req (children i)
        { node := nodes i
          volatile := decide (¬ info.Renewed req opened due) } due)
      (some (if info.Open then opened + 1 else opened))).map (min opened)

/-- **The request gets a block**, as far as the tree is concerned. -/
def Request.Serves (req : Request) (root : Type1Node) (tree : FtNode) : Prop :=
  remaining req tree (req.rootInfo root) 0 = none

instance (req : Request) (root : Type1Node) (tree : FtNode) :
    Decidable (req.Serves root tree) := inferInstanceAs (Decidable (_ = _))

/-! ## The search and the count

Along the search, level by level, the state that is computed and the count
agree. -/

/-- The search is where the count says. -/
def State.CountsTo (st : State P) : Option ℕ → Prop
  | none => st.finished = true
  | some due => st.finished = false ∧ opened st.levelNNodes = due

/-- Nothing is left to do when the request was served. -/
theorem State.CountsTo.finished_iff {st : State P} {left : Option ℕ} (h : st.CountsTo left) :
    st.finished = true ↔ left = none := by
  cases left with
  | none => exact iff_of_true h rfl
  | some due => exact iff_of_false (by rw [h.1]; decide) (by simp)

section Search

variable {ok : ℕ → Bool} {req : Request} {info : NodeInfo} {st : State P} {r : Handled P}

/-- In a level-1 node. -/
theorem remaining_leafs {entries : Type2NodeBlock} (hgen : 0 < req.currentGen)
    (hst : st.finished = false)
    (h : executeUpdate ok req (.leafs entries) info st = .ok r) :
    r.state.CountsTo (remaining req (.leafs entries) info (opened st.levelNNodes)) := by
  have hwalked := executeUpdate_walked hgen hst h
  unfold remaining
  split_ifs with h0 hlt
  · obtain ⟨-, -, -, hlevels, hfin⟩ := hwalked.idle h0
    exact ⟨hfin, by rw [hlevels]⟩
  all_goals
    obtain ⟨acc, hp, hwritten, -⟩ := executeUpdate_leafs hgen hst h
    obtain ⟨i, hi, hu⟩ := List.countP_pos_iff.mp (Nat.pos_of_ne_zero h0)
    obtain ⟨hhandled, -, hvolatile⟩ := hp.busy ⟨i, hi, of_decide_eq_true hu⟩
    have hw := hwritten hhandled
    have hdueStart : Level1State.due
        { entries := entries
          level1Node := info
          handled := false
          state := { st with prims := st.prims + 1 } }
        = info.due (opened st.levelNNodes) := rfl
  · -- more entries than nodes without a block
    refine hw.finished.trans (Bool.eq_true_of_not_eq_false fun hfin => ?_)
    have hdue := hp.due hfin
    rw [hdueStart] at hdue
    exact absurd (hdue ▸ Nat.le_add_left _ _) (not_le.mpr hlt)
  · have hfin : acc.state.finished = false := by
      refine Bool.eq_false_iff.mpr fun hfin => hlt ?_
      have hserved := hp.served hfin
      rwa [hdueStart] at hserved
    refine ⟨hw.finished.trans hfin, ?_⟩
    have hdue := hp.due hfin
    rw [hdueStart, Level1State.due, if_neg (by rw [hvolatile]; decide), Nat.zero_add] at hdue
    rw [hw.levelNNodes]
    exact Nat.eq_sub_of_add_eq hdue

/-- The inner node that is handled is `Renewed` if and only if it is of the
current generation now. -/
theorem Raised.own_gen_iff {U : ℕ → Prop} {l : List NodeInfo}
    (h : Raised req U (info :: l) st.levelNNodes) :
    st.own.node.gen = req.currentGen ↔ info.Renewed req (opened l) (opened st.levelNNodes) := by
  unfold State.own NodeInfo.Renewed
  generalize st.levelNNodes = l' at h ⊢
  cases h with
  | keep _ hkeep _ =>
    refine ⟨Or.inl, fun h => h.resolve_right ?_⟩
    rintro ⟨ho, hle⟩
    rw [opened_cons_of_open ho, hkeep ho] at hle
    exact absurd hle (Nat.not_succ_le_self _)
  | move ho _ hrest =>
    refine iff_of_true rfl (Or.inr ⟨ho, ?_⟩)
    rw [opened_cons_of_not_open (by simp [NodeInfo.Open])]
    exact hrest.opened_le

/-- A child is `Volatile` when the node above it is not of the current
generation. -/
theorem nodeVolatile_iff {node : Type1Node} {gen : ℕ} (hgen : 0 < gen) :
    nodeVolatile node gen ↔ ¬ node.gen = gen := by
  refine ⟨fun h => ?_, Or.inr⟩
  rcases h with h0 | hne
  · rw [h0]
    exact hgen.ne
  · exact hne

section Children

variable {nodes : Type1NodeBlock} {children : Fin nodesPerBlock → FtNode}

/-- The count behind the children `done` of an inner node. -/
def remainingChildren (req : Request) (nodes : Type1NodeBlock)
    (children : Fin nodesPerBlock → FtNode) (info : NodeInfo) (opened : ℕ)
    (done : List (Fin nodesPerBlock)) : Option ℕ :=
  done.foldl
    (fun left i => left.bind fun due => remaining req (children i)
      { node := nodes i
        volatile := decide (¬ info.Renewed req opened due) } due)
    (some (if info.Open then opened + 1 else opened))

/-- The children before one, and that one. -/
theorem remainingChildren_append (n : ℕ) (done : List (Fin nodesPerBlock))
    (i : Fin nodesPerBlock) :
    remainingChildren req nodes children info n (done ++ [i])
      = (remainingChildren req nodes children info n done).bind fun due =>
          remaining req (children i)
            { node := nodes i
              volatile := decide (¬ info.Renewed req n due) } due := by
  unfold remainingChildren
  rw [List.foldl_append]
  rfl

/-- The children of an inner node, one after the other. What the count has to
know of the node itself is whether it was moved, and that is a matter of how
many nodes are still without a block (`Raised.own_gen_iff`). -/
theorem remainingChildren_countsTo {acc : LevelNState P} (hgen : 0 < req.currentGen)
    (hst : st.finished = false)
    (ih : ∀ i ∈ req.children nodes, ∀ {info : NodeInfo} {st : State P} {r : Handled P},
      st.finished = false → executeUpdate ok req (children i) info st = .ok r →
      r.state.CountsTo (remaining req (children i) info (opened st.levelNNodes)))
    (hfold : (req.children nodes).foldlM
        (handleChild req fun i info st => executeUpdate ok req (children i) info st)
        { nodes := nodes
          children := children
          dirty := false
          state := { st with
            prims := st.prims + 1
            levelNNodes := info :: st.levelNNodes } } = .ok acc) :
    Raised req (req.UsableBlock (.inner nodes children)) (info :: st.levelNNodes)
        acc.state.levelNNodes
      ∧ acc.state.CountsTo (remainingChildren req nodes children info (opened st.levelNNodes)
          (req.children nodes)) := by
  suffices hall : LevelNProgress req
      { nodes := nodes
        children := children
        dirty := false
        state := { st with
          prims := st.prims + 1
          levelNNodes := info :: st.levelNNodes } } acc (req.children nodes)
      ∧ acc.state.CountsTo (remainingChildren req nodes children info (opened st.levelNNodes)
          (req.children nodes)) from ⟨hall.1.raised, hall.2⟩
  refine handleChildren_induct
    (Q := fun c done =>
      LevelNProgress req
          { nodes := nodes
            children := children
            dirty := false
            state := { st with
              prims := st.prims + 1
              levelNNodes := info :: st.levelNNodes } } c done
        ∧ c.state.CountsTo (remainingChildren req nodes children info (opened st.levelNNodes)
            done))
    hfold (children_nodup req nodes) ⟨LevelNProgress.nil req hst, hst, ?_⟩ ?_ ?_
  · -- the node itself is the first one to wait for a block
    show opened (info :: st.levelNNodes) = if info.Open then _ else _
    split_ifs with ho
    · exact opened_cons_of_open ho _
    · exact opened_cons_of_not_open ho _
  · rintro c done i - - ⟨hc, hcounts⟩ hfin
    refine ⟨hc.skip hfin, ?_⟩
    rw [remainingChildren_append, hcounts.finished_iff.mp hfin]
    exact hfin
  · rintro c done i r hi hni ⟨hc, hcounts⟩ hc' hr
    obtain ⟨hnode, -⟩ := hc.other i hni
    rw [hnode] at hr
    refine ⟨hc.visit hgen hni (ne_invalid_of_children hi) hc' (executeUpdate_walked hgen hc' hr),
      ?_⟩
    rw [remainingChildren_append]
    generalize remainingChildren req nodes children info (opened st.levelNNodes) done = left
      at hcounts ⊢
    cases left with
    | none => exact absurd (hc'.symm.trans hcounts) (by decide)
    | some due =>
      obtain ⟨-, hdue⟩ := hcounts
      have hchild := ih i hi hc' hr
      have hvolatile : nodeVolatile c.state.own.node req.currentGen
          ↔ ¬ info.Renewed req (opened st.levelNNodes) due := by
        rw [nodeVolatile_iff hgen, Raised.own_gen_iff hc.raised, hdue]
      rw [hdue] at hchild
      simp only [hvolatile] at hchild
      exact hchild

end Children

/-- **The search comes to what the count says**, for every tree and all outcomes
of the cache primitives with which it gets through. The induction follows the
tree; a child is counted from what the ones before it left. -/
theorem executeUpdate_remaining {tree : FtNode} (hgen : 0 < req.currentGen)
    (hst : st.finished = false) (h : executeUpdate ok req tree info st = .ok r) :
    r.state.CountsTo (remaining req tree info (opened st.levelNNodes)) := by
  induction tree generalizing info st r with
  | leafs entries => exact remaining_leafs hgen hst h
  | inner nodes children ih =>
    obtain ⟨acc, hfold, hwritten, hkept⟩ := executeUpdate_inner h
    obtain ⟨hraised, hcounts⟩ := remainingChildren_countsTo hgen hst
      (fun i _ _ _ _ hst hr => ih i hst hr) hfold
    -- the node that is left takes itself off the list
    have hleave : r.state.finished = acc.state.finished
        ∧ r.state.levelNNodes = acc.state.levelNNodes.tail := by
      cases hd : acc.dirty with
      | true => exact ⟨(hwritten hd).finished, (hwritten hd).levelNNodes⟩
      | false =>
        rw [hkept hd]
        exact ⟨rfl, rfl⟩
    show r.state.CountsTo ((remainingChildren req nodes children info (opened st.levelNNodes)
      (req.children nodes)).map _)
    generalize remainingChildren req nodes children info (opened st.levelNNodes)
      (req.children nodes) = left at hcounts ⊢
    cases left with
    | none => exact hleave.1.trans hcounts
    | some due =>
      refine ⟨hleave.1.trans hcounts.1, ?_⟩
      rw [hleave.2, hraised.opened_tail, hcounts.2]

/-- **A request that gets through is served if and only if the count says so.** -/
theorem finished_iff_serves {root : Type1Node} {tree : FtNode} {newPba : ℕ}
    (hgen : 0 < req.currentGen)
    (h : executeUpdate ok req tree (req.rootInfo root) (State.submitted root newPba) = .ok r) :
    r.state.finished = true ↔ req.Serves root tree :=
  (executeUpdate_remaining hgen rfl h).finished_iff

end Search

/-! ## Enough entries

An upper bound that needs no search. -/

/-- How many nodes the search may come across, the one on top included. -/
def nrOfNodes (req : Request) : FtNode → ℕ
  | .leafs _ => 1
  | .inner nodes children => ((req.children nodes).map fun i => nrOfNodes req (children i)).sum + 1

/-- **Every entry that is found goes to a node** when the request is not served,
and every node takes one at most. -/
theorem remaining_add_le {req : Request} {tree : FtNode} {info : NodeInfo} {n left : ℕ}
    (h : remaining req tree info n = some left) :
    left + nrOfUsable req tree ≤ n + nrOfNodes req tree := by
  induction tree generalizing info n left with
  | leafs entries =>
    unfold remaining at h
    unfold nrOfUsable nrOfNodes
    split_ifs at h with h0 hlt
    · rw [← Option.some.inj h, h0]
      exact Nat.le_succ _
    · rw [← Option.some.inj h, Nat.sub_add_cancel (not_lt.mp hlt), NodeInfo.due]
      split_ifs
      · exact (Nat.add_comm _ _).le
      · rw [Nat.zero_add]
        exact Nat.le_succ _
  | inner nodes children ih =>
    unfold remaining at h
    obtain ⟨due, hdue, rfl⟩ := Option.map_eq_some_iff.mp h
    have hrun : ∀ (l : List (Fin nodesPerBlock)) (start : Option ℕ) {due : ℕ},
        l.foldl (fun left i => left.bind fun due => remaining req (children i)
          { node := nodes i
            volatile := decide (¬ info.Renewed req n due) } due) start = some due →
        ∃ due₀, start = some due₀ ∧ due + (l.map fun i => nrOfUsable req (children i)).sum
          ≤ due₀ + (l.map fun i => nrOfNodes req (children i)).sum := by
      intro l
      induction l with
      | nil => exact fun start due h => ⟨due, h, le_refl _⟩
      | cons i l ihl =>
        intro start due h
        obtain ⟨due₁, h₁, hle⟩ := ihl _ h
        obtain ⟨due₀, rfl, hstep⟩ := Option.bind_eq_some_iff.mp h₁
        have hchild := ih i hstep
        rw [List.map_cons, List.sum_cons, List.map_cons, List.sum_cons]
        exact ⟨due₀, rfl, by omega⟩
    obtain ⟨due₀, hstart, hle⟩ := hrun _ _ hdue
    have hdue₀ : due₀ ≤ n + 1 := by
      rw [← Option.some.inj hstart]
      split_ifs
      · exact le_refl _
      · exact Nat.le_succ _
    rw [nrOfUsable, nrOfNodes]
    have hmin := min_le_right n due
    omega

/-- **More usable entries than nodes are enough** for every request. -/
theorem serves_of_lt {req : Request} {root : Type1Node} {tree : FtNode}
    (h : nrOfNodes req tree < nrOfUsable req tree) : req.Serves root tree := by
  refine Option.eq_none_iff_forall_ne_some.mpr fun left hleft => ?_
  have hle := remaining_add_le hleft
  omega

end Mt

end Cbe
