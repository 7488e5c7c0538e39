import Cbe.MetaTree
import Cbe.Support.ExceptRules
import Mathlib.Data.List.TakeWhile
import Mathlib.Tactic.Abel

/-!
# The meta tree exchanges its blocks

Whatever a request to the meta tree does to the tree, no block is lost or used
twice: each entry that is exchanged takes over the block of the node, or the
one of the client, that its own block goes to. Every node in which something
changed is written out under its new entry, and no other block is written.

What fails is that the old tree stays readable. A node is `Volatile`, and
written in place, when the node above it is *not* of the current generation.
Hence the first request of a generation overwrites the nodes of the generation
before, and the requests after it move nodes that nobody else needs. The tree
that was there is left alone if and only if every inner node in which the
search finds something is of the current generation already
(`copiesOnWrite_iff_of_request`); how far the search gets then is
`renewal`.
-/

namespace Cbe

variable {P : Platform}

namespace Mt

/-! ## The blocks of the tree

The tree is a value of its own, with the entry of its root beside it. A
statement about its blocks counts them with their multiplicity, so that a block
used twice is seen; a statement about its nodes goes along with the places of
the tree, which a request does not change. -/

/-- **The blocks that a tree uses below its root**: those of its nodes and those
of its leaf entries. -/
def pbas : FtNode → Multiset ℕ
  | .leafs entries => ∑ i, if entries i ≠ type2NodeInvalid then {(entries i).pba} else 0
  | .inner nodes children =>
    ∑ i, if nodes i ≠ type1NodeInvalid then {(nodes i).pba} + pbas (children i) else 0

/-- The tree has a usable entry with the block. -/
def Request.UsableBlock (req : Request) : FtNode → ℕ → Prop
  | .leafs entries, pba => ∃ i, i ∈ req.edgeIndices ∧ req.Usable (entries i) ∧ (entries i).pba = pba
  | .inner nodes children, pba =>
    ∃ i, nodes i ≠ type1NodeInvalid ∧ req.UsableBlock (children i) pba

/-- A node with the tree below it. -/
structure Subtree where
  /-- The tree. -/
  tree : FtNode
  /-- The entry that it hangs at. -/
  entry : Type1Node

/-- **The nodes at the same place** of two trees of the same shape. -/
inductive SamePlace : Subtree → Subtree → Subtree → Subtree → Prop
  | self (s s' : Subtree) : SamePlace s s' s s'
  | child {nodes nodes' : Type1NodeBlock} {children children' : Fin nodesPerBlock → FtNode}
      {node node' : Type1Node} {t t' : Subtree} (i : Fin nodesPerBlock)
      (hi : nodes i ≠ type1NodeInvalid)
      (h : SamePlace ⟨children i, nodes i⟩ ⟨children' i, nodes' i⟩ t t') :
      SamePlace ⟨.inner nodes children, node⟩ ⟨.inner nodes' children', node'⟩ t t'

/-- **The blocks that are written for the change of a tree** are those of nodes
in which something changed, each with the node as it is now. -/
def WrittenFor (P : Platform) (s s' : Subtree) (w : ℕ × P.Block) : Prop :=
  ∃ t t', SamePlace s s' t t' ∧ t'.tree ≠ t.tree ∧ w = (t'.entry.pba, t'.tree.blockData P)

/-- The generations of a tree: no node is newer than the one above it, and
nothing is newer than the generation being written. -/
def Dated (gen : ℕ) : FtNode → Type1Node → Prop
  | .leafs entries, node => node.gen ≤ gen ∧ ∀ i, (entries i).allocGen ≤ gen
  | .inner nodes children, node =>
    node.gen ≤ gen ∧ ∀ i, nodes i ≠ type1NodeInvalid →
      (nodes i).gen ≤ node.gen ∧ Dated gen (children i) (nodes i)

/-- **A meta tree in the generation of a request**: its generations are in
order, and no block of it is used twice. -/
structure Request.Valid (req : Request) (root : Type1Node) (tree : FtNode) : Prop where
  /-- No node is newer than the request, nor than the node above it. -/
  dated : Dated req.currentGen tree root
  /-- No block is used twice. -/
  distinct : ({root.pba} + pbas tree).Nodup

/-- **What a request that was served leaves of the tree.** -/
structure CopiesOnWrite (req : Request) (root : Type1Node) (tree : FtNode) (res : Handled P) :
    Prop where
  /-- A changed node stays in its block only if the block was written in the
  current generation. Otherwise it moves to the block of a usable entry. -/
  copied : ∀ t t', SamePlace ⟨tree, root⟩ ⟨res.tree, res.node⟩ t t' → t'.tree ≠ t.tree →
    (t'.entry.pba = t.entry.pba ∧ t.entry.gen = req.currentGen)
      ∨ req.UsableBlock tree t'.entry.pba
  /-- No block is lost and none is used twice. -/
  conserved : {res.node.pba} + pbas res.tree + {res.state.newPba}
    = {root.pba} + pbas tree + {req.oldPba}
  /-- The client gets the block of a usable entry. -/
  newPba : req.UsableBlock tree res.state.newPba
  /-- A node that is not as before was written as its entry says. -/
  chain : ∀ t t', SamePlace ⟨tree, root⟩ ⟨res.tree, res.node⟩ t t' →
    t' = t ∨ WrittenOut P req.currentGen res.state.writes t'.tree t'.entry
  /-- Nothing else was written. -/
  only : ∀ w ∈ res.state.writes, WrittenFor P ⟨tree, root⟩ ⟨res.tree, res.node⟩ w
  /-- The root was written in any case, and is handed back. -/
  root : WrittenOut P req.currentGen res.state.writes res.tree res.node
    ∧ res.state.rootNode = res.node

/-! ## How far the search gets

What a request overwrites is determined by the tree before it: the search goes
to the first usable entry, which is taken for the level-1 node; the next ones
are for the inner nodes above, from the lowest up; the last one is for the
request. `renewal` counts this on the old tree without changing it. -/

/-- How many usable entries a level-1 node has. -/
def Request.usableEntries (req : Request) (entries : Type2NodeBlock) : ℕ :=
  req.edgeIndices.countP fun i => decide (req.Usable (entries i))

/-- How many usable entries the search may find below a node. -/
def nrOfUsable (req : Request) : FtNode → ℕ
  | .leafs entries => req.usableEntries entries
  | .inner nodes children => ((req.children nodes).map fun i => nrOfUsable req (children i)).sum

/-- What the search comes to below a node, provided that it moves every node
that it changes: it changes an inner node of an earlier generation, or serves
the request, or leaves some of the inner nodes above without a block. -/
inductive Renewal where
  | spoiled
  | served
  | pending (opened : ℕ)
  deriving DecidableEq

/-- The search goes on. -/
def Renewal.next : Renewal → (ℕ → Renewal) → Renewal
  | .pending opened, f => f opened
  | r, _ => r

/-- The search leaves a node. What it found below went to that node first. -/
def Renewal.leave (opened : ℕ) : Renewal → Renewal
  | .pending opened' => .pending (min opened opened')
  | r => r

/-- **How far the search gets below a node**, when `opened` of the inner nodes
above it have no block yet. The first usable entry of a level-1 node is for the
node itself. -/
def renewal (req : Request) : FtNode → Type1Node → ℕ → Renewal
  | .leafs entries, _, opened =>
    if req.usableEntries entries = 0 then .pending opened
    else if opened + 1 < req.usableEntries entries then .served
    else .pending (opened + 1 - req.usableEntries entries)
  | .inner nodes children, node, opened =>
    if nrOfUsable req (.inner nodes children) = 0 then .pending opened
    else if node.gen = req.currentGen then
      ((req.children nodes).foldl
        (fun r i => Renewal.next r (renewal req (children i) (nodes i)))
        (.pending (opened + 1))).leave opened
    else .spoiled

/-! ## The nodes that are moved

On the way down the search carries the inner nodes with it, and an entry that is
exchanged below may give its block to one of them. So a node changes before the
search returns to it. -/

/-- The blocks of the inner nodes on the way down. -/
def levelPbas (infos : List NodeInfo) : Multiset ℕ := (infos.map fun info => info.node.pba : List ℕ)

/-- How many of the inner nodes on the way down have no block yet. -/
def opened (infos : List NodeInfo) : ℕ := infos.countP fun info => decide info.Open

/-- The blocks that the search has in its hands. -/
def State.pbas (st : State P) : Multiset ℕ :=
  levelPbas st.levelNNodes + if st.finished = true then {st.newPba} else 0

/-- The block that the client gave up. -/
def Request.givenUp (req : Request) (st : State P) : Multiset ℕ :=
  if st.finished = true then {req.oldPba} else 0

/-- **What the exchange does to the inner nodes on the way down**: some of those
without a block get one, from the lowest on. -/
inductive Raised (req : Request) (U : ℕ → Prop) : List NodeInfo → List NodeInfo → Prop
  | nil : Raised req U [] []
  | keep {infos infos' : List NodeInfo} (info : NodeInfo) (h : info.Open → infos' = infos)
      (hrest : Raised req U infos infos') : Raised req U (info :: infos) (info :: infos')
  | move {infos infos' : List NodeInfo} {info : NodeInfo} {pba : ℕ} (h : info.Open) (hU : U pba)
      (hrest : Raised req U infos infos') :
      Raised req U (info :: infos)
        ({ node := { info.node with pba := pba, gen := req.currentGen }
           volatile := true } :: infos')

namespace Raised

variable {req : Request} {U V : ℕ → Prop} {l l' l'' : List NodeInfo}

/-- At first no node has moved. -/
theorem refl (l : List NodeInfo) : Raised req U l l := by
  induction l with
  | nil => exact nil
  | cons info l ih => exact keep info (fun _ => rfl) ih

/-- The blocks may come from a larger set. -/
theorem mono (h : Raised req U l l') (hUV : ∀ pba, U pba → V pba) : Raised req V l l' := by
  induction h with
  | nil => exact nil
  | keep info h _ ih => exact keep info h ih
  | move h hU _ ih => exact move h (hUV _ hU) ih

/-- A node that was moved stays where it is. -/
theorem trans (h : Raised req U l l') (h' : Raised req U l' l'') : Raised req U l l'' := by
  induction h generalizing l'' with
  | nil => exact h'
  | @keep infos infos' info hkeep _ ih =>
    cases h' with
    | keep _ hkeep' hrest' =>
      exact keep info (fun ho => (hkeep' ho).trans (hkeep ho)) (ih hrest')
    | move ho hU hrest' => exact move ho hU (ih hrest')
  | @move infos infos' info pba ho hU _ ih =>
    cases h' with
    | keep _ _ hrest' => exact move ho hU (ih hrest')
    | move ho' _ _ => exact absurd ho'.2 (by simp)

/-- What is of the current generation stays of it. -/
theorem gen_eq (h : Raised req U l l') (hl : ∀ info ∈ l, info.node.gen = req.currentGen) :
    ∀ info ∈ l', info.node.gen = req.currentGen := by
  induction h with
  | nil => exact hl
  | keep info _ _ ih =>
    rw [List.forall_mem_cons] at hl ⊢
    exact ⟨hl.1, ih hl.2⟩
  | move _ _ _ ih =>
    rw [List.forall_mem_cons] at hl ⊢
    exact ⟨rfl, ih hl.2⟩

end Raised

/-- A node without a block is counted. -/
theorem opened_cons_of_open {info : NodeInfo} (h : info.Open) (l : List NodeInfo) :
    opened (info :: l) = opened l + 1 :=
  List.countP_cons_of_pos (decide_eq_true h)

/-- A node that has its block is not. -/
theorem opened_cons_of_not_open {info : NodeInfo} (h : ¬ info.Open) (l : List NodeInfo) :
    opened (info :: l) = opened l :=
  List.countP_cons_of_neg (by simpa using h)

/-- The blocks of the nodes are those of the first and of the others. -/
theorem levelPbas_cons (info : NodeInfo) (l : List NodeInfo) :
    levelPbas (info :: l) = {info.node.pba} + levelPbas l := rfl

/-- **`Exchange_NV_Inner_Nodes` moves one node**, and a block changes hands. -/
theorem exchangeNvInnerNodes_spec {req : Request} {U : ℕ → Prop} {pba old : ℕ}
    {l l' : List NodeInfo} (hU : U pba)
    (h : exchangeNvInnerNodes req pba l = some (l', old)) :
    Raised req U l l' ∧ {old} + levelPbas l' = {pba} + levelPbas l
      ∧ opened l' + 1 = opened l := by
  induction l generalizing l' with
  | nil => exact absurd h (by simp [exchangeNvInnerNodes])
  | cons info l ih =>
    unfold exchangeNvInnerNodes at h
    split_ifs at h with ho
    · obtain ⟨rfl, rfl⟩ := Prod.mk.inj (Option.some.inj h)
      refine ⟨.move ho hU (Raised.refl l), ?_, ?_⟩
      · rw [levelPbas_cons, levelPbas_cons, add_left_comm]
      · rw [opened_cons_of_open ho, opened_cons_of_not_open (by simp [NodeInfo.Open])]
    · obtain ⟨⟨l₁, old₁⟩, h₁, h⟩ := Option.map_eq_some_iff.mp h
      obtain ⟨rfl, rfl⟩ := Prod.mk.inj h
      obtain ⟨hr, hp, hn⟩ := ih h₁
      refine ⟨.keep info (fun h => absurd h ho) hr, ?_, ?_⟩
      · rw [levelPbas_cons, levelPbas_cons, add_left_comm, hp, add_left_comm]
      · rw [opened_cons_of_not_open ho, opened_cons_of_not_open ho, hn]

/-- It fails when all of them have their blocks. -/
theorem opened_of_exchangeNvInnerNodes {req : Request} {pba : ℕ} {l : List NodeInfo}
    (h : exchangeNvInnerNodes req pba l = none) : opened l = 0 := by
  induction l with
  | nil => rfl
  | cons info l ih =>
    unfold exchangeNvInnerNodes at h
    split_ifs at h with ho
    rw [opened_cons_of_not_open ho]
    exact ih (Option.map_eq_none_iff.mp h)

/-! ## The entries of a level-1 node

The entries of the range are handled in turn. One that is usable is exchanged:
for the node itself if it may not be changed in place, else for an inner node,
else for the request. The entry gets the block that was there before and the
generation in which it was given up. -/

/-- An entry that was exchanged is there. -/
theorem exchanged_ne_invalid {req : Request} (hgen : 0 < req.currentGen) (node : Type2Node)
    (pba : ℕ) : req.exchanged node pba ≠ type2NodeInvalid :=
  fun h => hgen.ne' (congrArg Type2Node.allocGen h)

/-- It is another one than before. -/
theorem exchanged_ne {req : Request} {node : Type2Node} (h : req.Usable node) (pba : ℕ) :
    req.exchanged node pba ≠ node :=
  fun heq => h.2 (congrArg Type2Node.allocGen heq).symm

/-- The blocks of a level-1 node after the exchange of an entry. -/
theorem pbas_leafs_update (entries : Type2NodeBlock) (i : Fin nodesPerBlock) (node : Type2Node)
    (hi : entries i ≠ type2NodeInvalid) (hnode : node ≠ type2NodeInvalid) :
    pbas (.leafs (Function.update entries i node)) + {(entries i).pba}
      = pbas (.leafs entries) + {node.pba} := by
  unfold pbas
  have h := sum_exchange (M := Multiset ℕ)
    (f := fun j => if entries j ≠ type2NodeInvalid then {(entries j).pba} else 0)
    (g := fun j => if Function.update entries i node j ≠ type2NodeInvalid
      then {(Function.update entries i node j).pba} else 0) i
    (fun j hj => by rw [Function.update_of_ne hj])
  rw [Function.update_self, if_pos hi, if_pos hnode] at h
  exact h

/-- How many nodes have to get a block before the request does. -/
def Level1State.due (acc : Level1State P) : ℕ :=
  (if acc.level1Node.volatile = false then 1 else 0) + opened acc.state.levelNNodes

/-- **How far the exchange in a level-1 node got** with the entries `done`. -/
structure Level1Progress (req : Request) (a b : Level1State P) (done : List (Fin nodesPerBlock)) :
    Prop where
  /-- The entries that were not looked at are as before. -/
  other : ∀ i, i ∉ done → b.entries i = a.entries i
  /-- No block is lost. -/
  conserved : pbas (.leafs b.entries) + {b.level1Node.node.pba} + b.state.pbas
    = pbas (.leafs a.entries) + {a.level1Node.node.pba} + a.state.pbas + req.givenUp b.state
  /-- The node stays in its block, or has that of a usable entry. -/
  level1Node : b.level1Node = a.level1Node
    ∨ a.level1Node.volatile = false ∧ req.UsableBlock (.leafs a.entries) b.level1Node.node.pba
  /-- So does each node above. -/
  raised : Raised req (req.UsableBlock (.leafs a.entries)) a.state.levelNNodes
    b.state.levelNNodes
  /-- The client has the block of a usable entry, if it has one. -/
  newPba : b.state.finished = true → req.UsableBlock (.leafs a.entries) b.state.newPba
  /-- Without a usable entry nothing has changed. -/
  idle : (∀ i ∈ done, ¬ req.Usable (a.entries i)) → b = a
  /-- With one, the node has changed. -/
  busy : (∃ i ∈ done, req.Usable (a.entries i)) →
    b.handled = true ∧ b.entries ≠ a.entries ∧ b.level1Node.volatile = true
  /-- Each usable entry serves a node, as long as the client has no block. -/
  due : b.state.finished = false →
    b.due + done.countP (fun i => decide (req.Usable (a.entries i))) = a.due
  /-- The client has one once there were more of them than nodes. -/
  served : b.state.finished = true →
    a.due < done.countP fun i => decide (req.Usable (a.entries i))
  /-- Nothing was written yet. -/
  frame : b.state.writes = a.state.writes ∧ b.state.rootNode = a.state.rootNode

section Level1

variable {req : Request} {a b : Level1State P} {done : List (Fin nodesPerBlock)}
  {i : Fin nodesPerBlock}

/-- Before the first entry nothing was done. -/
theorem Level1Progress.nil (ha : a.state.finished = false) : Level1Progress req a a [] where
  other _ _ := rfl
  conserved := by
    rw [Request.givenUp, if_neg (by rw [ha]; decide), add_zero]
  level1Node := Or.inl rfl
  raised := Raised.refl _
  newPba h := absurd (ha.symm.trans h) (by decide)
  idle _ := rfl
  busy h := absurd h (by simp)
  due _ := by rw [List.countP_nil, Nat.add_zero]
  served h := absurd (ha.symm.trans h) (by decide)
  frame := ⟨rfl, rfl⟩

/-- An entry is skipped. -/
theorem Level1Progress.skip (h : Level1Progress req a b done)
    (hs : b.state.finished = true ∨ ¬ req.Usable (a.entries i)) :
    Level1Progress req a b (done ++ [i]) where
  other j hj := h.other j fun hd => hj (List.mem_append_left _ hd)
  conserved := h.conserved
  level1Node := h.level1Node
  raised := h.raised
  newPba := h.newPba
  idle hd := h.idle fun j hj => hd j (List.mem_append_left _ hj)
  busy := by
    rintro ⟨j, hj, hu⟩
    rw [List.mem_append, List.mem_singleton] at hj
    cases hj with
    | inl hj => exact h.busy ⟨j, hj, hu⟩
    | inr hj =>
      subst hj
      have hpos := h.served (hs.resolve_right (not_not_intro hu))
      obtain ⟨k, hk, hku⟩ := List.countP_pos_iff.mp (Nat.zero_lt_of_lt hpos)
      exact h.busy ⟨k, hk, of_decide_eq_true hku⟩
  due hf := by
    have hu : ¬ req.Usable (a.entries i) :=
      hs.resolve_left fun hfin => absurd (hf.symm.trans hfin) (by decide)
    rw [List.countP_append, List.countP_singleton, if_neg (by simpa using hu), Nat.add_zero]
    exact h.due hf
  served hf := by
    rw [List.countP_append]
    exact (h.served hf).trans_le (Nat.le_add_right _ _)
  frame := h.frame

/-- An entry is exchanged: its block goes where the next block is due, and the
block from there goes into the entry, so that none is lost. -/
theorem Level1Progress.take (h : Level1Progress req a b done) (hgen : 0 < req.currentGen)
    (hi : i ∉ done) (hu : req.Usable (a.entries i)) (hb : b.state.finished = false) {pba : ℕ}
    {b' : Level1State P}
    (hentries : b'.entries = Function.update b.entries i (req.exchanged (b.entries i) pba))
    (hhandled : b'.handled = true) (hvolatile : b'.level1Node.volatile = true)
    (hpbas : {pba} + {b'.level1Node.node.pba} + b'.state.pbas
      = {(a.entries i).pba} + {b.level1Node.node.pba} + b.state.pbas + req.givenUp b'.state)
    (hlevel1 : b'.level1Node = b.level1Node ∨ b.level1Node.volatile = false
      ∧ req.UsableBlock (.leafs a.entries) b'.level1Node.node.pba)
    (hraised : Raised req (req.UsableBlock (.leafs a.entries)) b.state.levelNNodes
      b'.state.levelNNodes)
    (hnew : b'.state.finished = true → req.UsableBlock (.leafs a.entries) b'.state.newPba)
    (hdue : b'.state.finished = false → b'.due + 1 = b.due)
    (hserved : b'.state.finished = true → b.due = 0)
    (hframe : b'.state.writes = b.state.writes ∧ b'.state.rootNode = b.state.rootNode) :
    Level1Progress req a b' (done ++ [i]) := by
  have hbi : b.entries i = a.entries i := h.other i hi
  have hcount : (done ++ [i]).countP (fun j => decide (req.Usable (a.entries j)))
      = done.countP (fun j => decide (req.Usable (a.entries j))) + 1 := by
    rw [List.countP_append, List.countP_singleton, if_pos (decide_eq_true hu)]
  have hbdue := h.due hb
  refine ⟨fun j hj => ?_, ?_, ?_, h.raised.trans hraised, hnew, fun hidle => ?_, fun _ => ?_,
    fun hf => ?_, fun hf => ?_, hframe.1.trans h.frame.1, hframe.2.trans h.frame.2⟩
  · rw [List.mem_append, List.mem_singleton, not_or] at hj
    rw [hentries, Function.update_of_ne hj.2]
    exact h.other j hj.1
  · have hupd := pbas_leafs_update b.entries i (req.exchanged (b.entries i) pba)
      (by rw [hbi]; exact hu.1)
      (exchanged_ne_invalid hgen _ _)
    have hcons := h.conserved
    rw [Request.givenUp, if_neg (by rw [hb]; decide), add_zero] at hcons
    rw [hbi] at hupd
    rw [hentries, hbi]
    refine add_right_cancel (b := ({(a.entries i).pba} : Multiset ℕ)) ?_
    calc pbas (.leafs (Function.update b.entries i (req.exchanged (a.entries i) pba)))
          + {b'.level1Node.node.pba} + b'.state.pbas + {(a.entries i).pba}
        = (pbas (.leafs (Function.update b.entries i (req.exchanged (a.entries i) pba)))
            + {(a.entries i).pba}) + ({b'.level1Node.node.pba} + b'.state.pbas) := by abel
      _ = pbas (.leafs b.entries) + ({pba} + {b'.level1Node.node.pba} + b'.state.pbas) := by
        rw [hupd]
        show _ + {pba} + _ = _
        abel
      _ = (pbas (.leafs b.entries) + {b.level1Node.node.pba} + b.state.pbas)
            + ({(a.entries i).pba} + req.givenUp b'.state) := by
        rw [hpbas]
        abel
      _ = _ := by
        rw [hcons]
        abel
  · cases hlevel1 with
    | inl heq => exact heq ▸ h.level1Node
    | inr hmove =>
      refine Or.inr ⟨?_, hmove.2⟩
      cases h.level1Node with
      | inl heq => exact heq ▸ hmove.1
      | inr hmoved => exact hmoved.1
  · exact absurd hu (hidle i (List.mem_append_right _ List.mem_cons_self))
  · refine ⟨hhandled, fun heq => exchanged_ne hu pba ?_, hvolatile⟩
    have hpoint := congrFun heq i
    rw [hentries, Function.update_self, hbi] at hpoint
    exact hpoint
  · rw [hcount, ← hbdue, ← hdue hf, Nat.add_right_comm, Nat.add_assoc]
  · rw [hcount, ← hbdue, hserved hf, Nat.zero_add]
    exact Nat.lt_succ_self _

/-- **One entry of a level-1 node.** -/
theorem Level1Progress.handle (h : Level1Progress req a b done) (hgen : 0 < req.currentGen)
    (hi : i ∉ done) (hedge : i ∈ req.edgeIndices) :
    Level1Progress req a (handleLevel0Node req b i) (done ++ [i]) := by
  have hbi : b.entries i = a.entries i := h.other i hi
  unfold handleLevel0Node
  dsimp only
  split_ifs with hfin hu hvol
  · exact h.skip (Or.inl hfin)
  · -- the level-1 node itself
    rw [hbi] at hu ⊢
    have hb : b.state.finished = false := Bool.eq_false_iff.mpr hfin
    refine h.take hgen hi hu hb (by rw [hbi]) rfl rfl ?_ (Or.inr ⟨hvol, i, hedge, hu, rfl⟩)
      (Raised.refl _) (fun hf => absurd hf hfin) (fun _ => ?_) (fun hf => absurd hf hfin) ⟨rfl, rfl⟩
    · rw [Request.givenUp, if_neg hfin, add_zero,
        add_comm ({b.level1Node.node.pba} : Multiset ℕ)]
    · unfold Level1State.due
      rw [if_pos hvol, if_neg (by simp), Nat.zero_add, Nat.add_comm]
  · rw [hbi] at hu ⊢
    have hb : b.state.finished = false := Bool.eq_false_iff.mpr hfin
    have hvol' : b.level1Node.volatile = true := by simpa using hvol
    split
    · -- the lowest of the inner nodes without a block
      next infos old hexch =>
      obtain ⟨hraised, hpbas, hopen⟩ := exchangeNvInnerNodes_spec
        (U := req.UsableBlock (.leafs a.entries)) ⟨i, hedge, hu, rfl⟩ hexch
      refine h.take hgen hi hu hb (by rw [hbi]) rfl hvol' ?_ (Or.inl rfl) hraised
        (fun hf => absurd hf hfin) (fun _ => ?_) (fun hf => absurd hf hfin) ⟨rfl, rfl⟩
      · unfold State.pbas Request.givenUp
        rw [if_neg hfin, add_zero, add_zero, add_right_comm, hpbas, add_right_comm,
          if_neg hfin, add_zero]
      · show (if b.level1Node.volatile = false then 1 else 0) + opened infos + 1 = _
        rw [Nat.add_assoc, hopen]
        rfl
    · -- the request
      next hexch =>
      have hopen := opened_of_exchangeNvInnerNodes hexch
      refine h.take hgen hi hu hb (by rw [hbi]) rfl hvol' ?_ (Or.inl rfl) (Raised.refl _)
        (fun _ => ⟨i, hedge, hu, rfl⟩) (fun hf => absurd hf (by simp)) (fun _ => ?_) ⟨rfl, rfl⟩
      · unfold State.pbas Request.givenUp
        rw [if_neg hfin, if_pos rfl, if_pos rfl, add_zero]
        abel
      · unfold Level1State.due
        rw [if_neg hvol, hopen]
  · rw [hbi] at *
    exact h.skip (Or.inr ‹_›)

/-- **The exchange in a level-1 node**, by induction on the entries. -/
theorem handleLevel0Nodes_progress (hgen : 0 < req.currentGen) (entries : Type2NodeBlock)
    (info : NodeInfo) {st : State P} (hst : st.finished = false) :
    Level1Progress req
      { entries := entries
        level1Node := info
        handled := false
        state := st } (handleLevel0Nodes req entries info st) req.edgeIndices := by
  have hrun : ∀ (l done : List (Fin nodesPerBlock)) (b : Level1State P),
      Level1Progress req ⟨entries, info, false, st⟩ b done → (done ++ l).Nodup →
      (∀ i ∈ l, i ∈ req.edgeIndices) →
      Level1Progress req ⟨entries, info, false, st⟩ (l.foldl (handleLevel0Node req) b)
        (done ++ l) := by
    intro l
    induction l with
    | nil =>
      intro done b h _ _
      rw [List.append_nil]
      exact h
    | cons i l ih =>
      intro done b h hnd hl
      rw [List.append_cons] at hnd ⊢
      have hi : i ∉ done := fun hd =>
        (List.nodup_append.mp (List.nodup_append.mp hnd).1).2.2 i hd i List.mem_cons_self rfl
      exact ih _ _ (h.handle hgen hi (hl i List.mem_cons_self)) hnd
        fun j hj => hl j (List.mem_cons_of_mem _ hj)
  refine hrun req.edgeIndices [] _ (Level1Progress.nil hst) ?_ fun _ h => h
  exact (List.nodup_finRange _).sublist (List.take_sublist _ _)

end Level1

/-! ## The nodes of the tree

A node is read, what is below it is searched, and it is written out if it has
changed. The statement about the blocks is for the node and those above it
together, since a block may go from below to above. -/

/-- A node that was read. -/
theorem readNode_spec {ok : ℕ → Bool} {tree : FtNode} {node : Type1Node} {st st' : State P}
    (h : readNode ok tree node st = .ok st') : st' = { st with prims := st.prims + 1 } := by
  unfold readNode at h
  split_ifs at h
  exact (Except.ok.inj h).symm

/-- What the write-out of a node leaves. -/
structure NodeWritten (P : Platform) (req : Request) (tree : FtNode) (pba : ℕ) (st : State P)
    (r : Handled P) : Prop where
  /-- The tree is the one that was to be written. -/
  tree_eq : r.tree = tree
  /-- The entry is updated. -/
  node_eq : r.node = updateParent P req tree pba
  /-- It was written. -/
  written : r.written = true
  /-- The block is the encoded node. -/
  writes : r.state.writes = st.writes ++ [(pba, tree.blockData P)]
  /-- The nodes above are the same. -/
  levelNNodes : r.state.levelNNodes = st.levelNNodes
  /-- So is whether the client has its block. -/
  finished : r.state.finished = st.finished
  /-- So is this block. -/
  newPba : r.state.newPba = st.newPba
  /-- On top, the entry is the new root. -/
  rootNode : st.levelNNodes = [] → r.state.rootNode = r.node

/-- A node that was written. -/
theorem writeNode_spec {ok : ℕ → Bool} {req : Request} {tree : FtNode} {pba : ℕ} {st : State P}
    {r : Handled P} (h : writeNode ok req tree pba st = .ok r) :
    NodeWritten P req tree pba st r := by
  unfold writeNode at h
  obtain ⟨st', hwrite, rfl⟩ := map_eq_ok h
  unfold writeBlock at hwrite
  by_cases hroot : st.levelNNodes = []
  · rw [if_pos hroot] at hwrite
    split_ifs at hwrite
    obtain rfl := Except.ok.inj hwrite
    exact ⟨rfl, rfl, rfl, rfl, rfl, rfl, rfl, fun _ => rfl⟩
  · rw [if_neg hroot] at hwrite
    split_ifs at hwrite
    obtain rfl := Except.ok.inj hwrite
    exact ⟨rfl, rfl, rfl, rfl, rfl, rfl, rfl, fun h => absurd h hroot⟩

namespace NodeWritten

variable {req : Request} {tree : FtNode} {pba : ℕ} {st : State P} {r : Handled P}

/-- The node was written under its new entry. -/
theorem writtenOut (h : NodeWritten P req tree pba st r) :
    WrittenOut P req.currentGen r.state.writes r.tree r.node where
  gen_eq := by
    rw [h.node_eq]
    rfl
  hash := by
    rw [h.node_eq, h.tree_eq]
    rfl
  written := by
    rw [h.node_eq, h.tree_eq, h.writes]
    exact List.mem_append_right _ List.mem_cons_self

/-- It is the only block that was written. -/
theorem mem_writes (h : NodeWritten P req tree pba st r) {w : ℕ × P.Block}
    (hw : w ∈ r.state.writes) : w ∈ st.writes ∨ w = (r.node.pba, r.tree.blockData P) := by
  rw [h.writes, List.mem_append, List.mem_singleton] at hw
  rw [h.node_eq, h.tree_eq]
  exact hw

/-- Writing a node moves none. -/
theorem pbas_eq (h : NodeWritten P req tree pba st r) : r.state.pbas = st.pbas := by
  unfold State.pbas
  rw [h.levelNNodes, h.finished, h.newPba]

/-- Nor does it serve the request. -/
theorem givenUp_eq (h : NodeWritten P req tree pba st r) :
    req.givenUp r.state = req.givenUp st := by
  unfold Request.givenUp
  rw [h.finished]

end NodeWritten

/-- **What the search does to a tree.** -/
structure Walked (req : Request) (tree : FtNode) (info : NodeInfo) (st : State P)
    (r : Handled P) : Prop where
  /-- No block is lost. -/
  conserved : pbas r.tree + {r.node.pba} + r.state.pbas
    = pbas tree + {info.node.pba} + st.pbas + req.givenUp r.state
  /-- The nodes above stay in their blocks, or have those of usable entries. -/
  raised : Raised req (req.UsableBlock tree) st.levelNNodes r.state.levelNNodes
  /-- The client has the block of a usable entry, if it has one. -/
  newPba : r.state.finished = true → req.UsableBlock tree r.state.newPba
  /-- The node stays in its block, or has that of a usable entry. -/
  place : r.node.pba = info.node.pba
    ∨ info.volatile = false ∧ req.UsableBlock tree r.node.pba
  /-- Where nothing is usable, nothing is changed. -/
  idle : nrOfUsable req tree = 0 → r.tree = tree ∧ r.node = info.node ∧ r.written = false
    ∧ r.state.levelNNodes = st.levelNNodes ∧ r.state.finished = false
  /-- Otherwise something is, and the node is written. -/
  busy : 0 < nrOfUsable req tree → r.tree ≠ tree ∧ r.written = true
    ∧ WrittenOut P req.currentGen r.state.writes r.tree r.node
    ∧ (st.levelNNodes = [] → r.state.rootNode = r.node)
  /-- A node that is not as before was written. -/
  chain : ∀ t t', SamePlace ⟨tree, info.node⟩ ⟨r.tree, r.node⟩ t t' →
    t' = t ∨ WrittenOut P req.currentGen r.state.writes t'.tree t'.entry
  /-- What was written stays so. -/
  writes : ∀ w ∈ st.writes, w ∈ r.state.writes
  /-- What was not written before was written for a change. -/
  only : ∀ w ∈ r.state.writes,
    w ∈ st.writes ∨ WrittenFor P ⟨tree, info.node⟩ ⟨r.tree, r.node⟩ w

/-- Two trees that are the same have the same nodes. -/
theorem SamePlace.eq {s t t' : Subtree} (h : SamePlace s s t t') : t' = t := by
  obtain ⟨tree, node⟩ := s
  induction tree generalizing node with
  | leafs entries =>
    cases h
    rfl
  | inner nodes children ih =>
    cases h with
    | self => rfl
    | child i _ h => exact ih i _ h

/-- What a level-1 node comes to when its entries were handled. -/
theorem executeUpdate_leafs {ok : ℕ → Bool} {req : Request} {entries : Type2NodeBlock}
    {info : NodeInfo} {st : State P} {r : Handled P} (hgen : 0 < req.currentGen)
    (hst : st.finished = false)
    (h : executeUpdate ok req (.leafs entries) info st = .ok r) :
    ∃ acc : Level1State P,
      Level1Progress req
          { entries := entries
            level1Node := info
            handled := false
            state := { st with prims := st.prims + 1 } } acc req.edgeIndices
        ∧ (acc.handled = true →
            NodeWritten P req (.leafs acc.entries) acc.level1Node.node.pba acc.state r)
        ∧ (acc.handled = false → r =
            { tree := .leafs entries
              node := info.node
              written := false
              state := acc.state }) := by
  unfold executeUpdate at h
  obtain ⟨st₁, hread, h⟩ := bind_eq_ok h
  obtain rfl := readNode_spec hread
  refine ⟨_, handleLevel0Nodes_progress hgen entries info hst, fun hhandled => ?_,
    fun hhandled => ?_⟩
  · rw [if_pos hhandled] at h
    exact writeNode_spec h
  · rw [if_neg (by rw [hhandled]; decide)] at h
    exact (Except.ok.inj h).symm

/-- The search in a level-1 node. -/
theorem Walked.leafs {ok : ℕ → Bool} {req : Request} {entries : Type2NodeBlock}
    {info : NodeInfo} {st : State P} {r : Handled P} (hgen : 0 < req.currentGen)
    (hst : st.finished = false)
    (h : executeUpdate ok req (.leafs entries) info st = .ok r) :
    Walked req (.leafs entries) info st r := by
  obtain ⟨acc, hp, hwritten, hkept⟩ := executeUpdate_leafs hgen hst h
  by_cases hn : ∃ i ∈ req.edgeIndices, req.Usable (entries i)
  · obtain ⟨hhandled, hne, -⟩ := hp.busy hn
    have hw := hwritten hhandled
    have hpos : nrOfUsable req (.leafs entries) ≠ 0 := by
      obtain ⟨i, hi, hu⟩ := hn
      exact (List.countP_pos_iff.mpr ⟨i, hi, decide_eq_true hu⟩).ne'
    have hchanged : r.tree ≠ .leafs entries := by
      rw [hw.tree_eq]
      exact fun heq => hne (FtNode.leafs.inj heq)
    refine ⟨?_, ?_, ?_, ?_, fun h0 => absurd h0 hpos,
      fun _ => ⟨hchanged, hw.written, hw.writtenOut, ?_⟩, ?_, ?_, ?_⟩
    · rw [hw.tree_eq, hw.node_eq, hw.pbas_eq, hw.givenUp_eq]
      exact hp.conserved
    · rw [hw.levelNNodes]
      exact hp.raised
    · rw [hw.finished, hw.newPba]
      exact hp.newPba
    · rw [hw.node_eq]
      show acc.level1Node.node.pba = _ ∨ _ ∧ req.UsableBlock _ acc.level1Node.node.pba
      cases hp.level1Node with
      | inl heq => exact Or.inl (by rw [heq])
      | inr hmoved => exact Or.inr hmoved
    · intro hlevels
      refine hw.rootNode ?_
      have hraised := hp.raised
      dsimp only at hraised
      rw [hlevels] at hraised
      generalize acc.state.levelNNodes = l at hraised ⊢
      cases hraised
      rfl
    · intro t t' hplace
      cases hplace
      exact Or.inr hw.writtenOut
    · intro w hmem
      rw [hw.writes, hp.frame.1]
      exact List.mem_append_left _ hmem
    · intro w hmem
      refine (hw.mem_writes hmem).imp (fun hold => ?_) fun hnew => ⟨_, _, .self _ _, hchanged, hnew⟩
      rwa [hp.frame.1] at hold
  · have hidle := hp.idle fun i hi hu => hn ⟨i, hi, hu⟩
    obtain rfl := hidle
    obtain rfl := hkept rfl
    have hzero : nrOfUsable req (.leafs entries) = 0 :=
      List.countP_eq_zero.mpr fun i hi hu => hn ⟨i, hi, of_decide_eq_true hu⟩
    exact ⟨hp.conserved, hp.raised, hp.newPba, Or.inl rfl, fun _ => ⟨rfl, rfl, rfl, rfl, hst⟩,
      fun hpos => absurd hzero hpos.ne', fun t t' hplace => Or.inl hplace.eq, fun w hw => hw,
      fun w hw => Or.inl hw⟩

/-- The blocks below an inner node after a change of a child. -/
theorem pbas_inner_update (nodes : Type1NodeBlock) (children : Fin nodesPerBlock → FtNode)
    (i : Fin nodesPerBlock) (node : Type1Node) (tree : FtNode)
    (hi : nodes i ≠ type1NodeInvalid) (hnode : node ≠ type1NodeInvalid) :
    pbas (.inner (Function.update nodes i node) (Function.update children i tree))
        + ({(nodes i).pba} + pbas (children i))
      = pbas (.inner nodes children) + ({node.pba} + pbas tree) := by
  rw [pbas, pbas]
  have h := sum_exchange (M := Multiset ℕ)
    (f := fun j => if nodes j ≠ type1NodeInvalid then {(nodes j).pba} + pbas (children j) else 0)
    (g := fun j => if Function.update nodes i node j ≠ type1NodeInvalid
      then {(Function.update nodes i node j).pba} + pbas (Function.update children i tree j)
      else 0) i
    (fun j hj => by rw [Function.update_of_ne hj, Function.update_of_ne hj])
  rw [Function.update_self, Function.update_self, if_pos hi, if_pos hnode] at h
  exact h

/-- A node that was handled has an entry if it had one. -/
theorem Walked.node_ne_invalid {req : Request} {tree : FtNode} {info : NodeInfo} {st : State P}
    {r : Handled P} (h : Walked req tree info st r) (hgen : 0 < req.currentGen)
    (hinfo : info.node ≠ type1NodeInvalid) : r.node ≠ type1NodeInvalid := by
  rcases Nat.eq_zero_or_pos (nrOfUsable req tree) with h0 | hpos
  · rw [(h.idle h0).2.1]
    exact hinfo
  · have hout := (h.busy hpos).2.2.1
    exact fun heq => hgen.ne' (hout.gen_eq.symm.trans (congrArg Type1Node.gen heq))

/-- **How far the search in an inner node got** with the children `done`. -/
structure LevelNProgress (req : Request) (a b : LevelNState P) (done : List (Fin nodesPerBlock)) :
    Prop where
  /-- The children that were not looked at are as before. -/
  other : ∀ i, i ∉ done → b.nodes i = a.nodes i ∧ b.children i = a.children i
  /-- No block is lost. -/
  conserved : pbas (.inner b.nodes b.children) + b.state.pbas
    = pbas (.inner a.nodes a.children) + a.state.pbas + req.givenUp b.state
  /-- The nodes above stay in their blocks, or have those of usable entries. -/
  raised : Raised req (req.UsableBlock (.inner a.nodes a.children)) a.state.levelNNodes
    b.state.levelNNodes
  /-- The client has the block of a usable entry, if it has one. -/
  newPba : b.state.finished = true →
    req.UsableBlock (.inner a.nodes a.children) b.state.newPba
  /-- Where nothing is usable, nothing has changed. -/
  idle : (∀ i ∈ done, nrOfUsable req (a.children i) = 0) → b.nodes = a.nodes
    ∧ b.children = a.children ∧ b.dirty = a.dirty ∧ b.state.levelNNodes = a.state.levelNNodes
    ∧ b.state.finished = false
  /-- Otherwise a child has changed, and the node is to be written. -/
  busy : (∃ i ∈ done, 0 < nrOfUsable req (a.children i)) →
    (∃ i ∈ done, b.children i ≠ a.children i) ∧ b.dirty = true
  /-- A node below that is not as before was written. -/
  chain : ∀ i t t', SamePlace ⟨a.children i, a.nodes i⟩ ⟨b.children i, b.nodes i⟩ t t' →
    t' = t ∨ WrittenOut P req.currentGen b.state.writes t'.tree t'.entry
  /-- What was written stays so. -/
  writes : ∀ w ∈ a.state.writes, w ∈ b.state.writes
  /-- What was not written before was written for a change. -/
  only : ∀ w ∈ b.state.writes, w ∈ a.state.writes ∨ ∃ i ∈ done, a.nodes i ≠ type1NodeInvalid
    ∧ WrittenFor P ⟨a.children i, a.nodes i⟩ ⟨b.children i, b.nodes i⟩ w

section LevelN

variable {req : Request} {a b : LevelNState P} {done : List (Fin nodesPerBlock)}
  {i : Fin nodesPerBlock}

/-- Before the first child nothing was done. -/
theorem LevelNProgress.nil (req : Request) (ha : a.state.finished = false) :
    LevelNProgress req a a [] where
  other _ _ := ⟨rfl, rfl⟩
  conserved := by
    rw [Request.givenUp, if_neg (by rw [ha]; decide), add_zero]
  raised := Raised.refl _
  newPba h := absurd (ha.symm.trans h) (by decide)
  idle _ := ⟨rfl, rfl, rfl, rfl, ha⟩
  busy h := absurd h (by simp)
  chain _ _ _ h := Or.inl h.eq
  writes _ h := h
  only _ h := Or.inl h

/-- What served the request was below one of the children before. -/
theorem LevelNProgress.exists_of_finished (h : LevelNProgress req a b done)
    (hfin : b.state.finished = true) : ∃ j ∈ done, 0 < nrOfUsable req (a.children j) := by
  by_contra hnone
  push Not at hnone
  have hidle := h.idle fun j hj => Nat.le_zero.mp (hnone j hj)
  exact absurd (hfin.symm.trans hidle.2.2.2.2) (by decide)

/-- A child is skipped, because the request was served. -/
theorem LevelNProgress.skip (h : LevelNProgress req a b done) (hfin : b.state.finished = true) :
    LevelNProgress req a b (done ++ [i]) := by
  obtain ⟨⟨j, hj, hne⟩, hdirty⟩ := h.busy (h.exists_of_finished hfin)
  exact
    { h with
      other := fun k hk => h.other k fun hd => hk (List.mem_append_left _ hd)
      idle := fun hd => h.idle fun k hk => hd k (List.mem_append_left _ hk)
      busy := fun _ => ⟨⟨j, List.mem_append_left _ hj, hne⟩, hdirty⟩
      only := fun w hw => (h.only w hw).imp_right fun ⟨k, hk, hfor⟩ =>
        ⟨k, List.mem_append_left _ hk, hfor⟩ }

/-- A child is handled. -/
theorem LevelNProgress.visit (h : LevelNProgress req a b done) (hgen : 0 < req.currentGen)
    (hi : i ∉ done) (hvalid : a.nodes i ≠ type1NodeInvalid) (hb : b.state.finished = false)
    {volatile : Bool} {r : Handled P}
    (hr : Walked req (a.children i) { node := a.nodes i, volatile := volatile } b.state r) :
    LevelNProgress req a
      { nodes := Function.update b.nodes i r.node
        children := Function.update b.children i r.tree
        dirty := b.dirty || r.written
        state := r.state } (done ++ [i]) := by
  obtain ⟨hnodes, hchildren⟩ := h.other i hi
  have husable : ∀ pba, req.UsableBlock (a.children i) pba →
      req.UsableBlock (.inner a.nodes a.children) pba := fun pba hu => ⟨i, hvalid, hu⟩
  refine ⟨fun j hj => ?_, ?_, h.raised.trans (hr.raised.mono husable),
    fun hf => husable _ (hr.newPba hf), fun hidle => ?_, ?_, fun j t t' hplace => ?_,
    fun w hw => hr.writes w (h.writes w hw), fun w hw => ?_⟩
  · rw [List.mem_append, List.mem_singleton, not_or] at hj
    dsimp only
    rw [Function.update_of_ne hj.2, Function.update_of_ne hj.2]
    exact h.other j hj.1
  · have hupd := pbas_inner_update b.nodes b.children i r.node r.tree
      (by rw [hnodes]; exact hvalid)
      (hr.node_ne_invalid hgen hvalid)
    have hcons := h.conserved
    rw [Request.givenUp, if_neg (by rw [hb]; decide), add_zero] at hcons
    rw [hnodes, hchildren] at hupd
    refine add_right_cancel (b := ({(a.nodes i).pba} + pbas (a.children i) : Multiset ℕ)) ?_
    calc pbas (.inner (Function.update b.nodes i r.node) (Function.update b.children i r.tree))
          + r.state.pbas + ({(a.nodes i).pba} + pbas (a.children i))
        = (pbas (.inner (Function.update b.nodes i r.node) (Function.update b.children i r.tree))
            + ({(a.nodes i).pba} + pbas (a.children i))) + r.state.pbas := by abel
      _ = pbas (.inner b.nodes b.children)
            + (pbas r.tree + {r.node.pba} + r.state.pbas) := by
        rw [hupd]
        abel
      _ = (pbas (.inner b.nodes b.children) + b.state.pbas)
            + (pbas (a.children i) + {(a.nodes i).pba} + req.givenUp r.state) := by
        rw [hr.conserved]
        abel
      _ = _ := by
        rw [hcons]
        abel
  · have hdone := h.idle fun j hj => hidle j (List.mem_append_left _ hj)
    have hchild := hr.idle (hidle i (List.mem_append_right _ List.mem_cons_self))
    dsimp only
    rw [hchild.1, hchild.2.1, hchild.2.2.1, hdone.1, hdone.2.1, Bool.or_false]
    exact ⟨Function.update_eq_self _ _, Function.update_eq_self _ _, hdone.2.2.1,
      hchild.2.2.2.1.trans hdone.2.2.2.1, hchild.2.2.2.2⟩
  · rintro ⟨j, hj, hpos⟩
    rw [List.mem_append, List.mem_singleton] at hj
    cases hj with
    | inl hj =>
      obtain ⟨⟨k, hk, hne⟩, hdirty⟩ := h.busy ⟨j, hj, hpos⟩
      refine ⟨⟨k, List.mem_append_left _ hk, ?_⟩, by dsimp only; rw [hdirty, Bool.true_or]⟩
      dsimp only
      rw [Function.update_of_ne fun hki : k = i => hi (hki ▸ hk)]
      exact hne
    | inr hj =>
      subst hj
      obtain ⟨hne, hwritten, -⟩ := hr.busy hpos
      refine ⟨⟨j, List.mem_append_right _ List.mem_cons_self, ?_⟩, ?_⟩
      · dsimp only
        rw [Function.update_self]
        exact hne
      · dsimp only
        rw [hwritten, Bool.or_true]
  · dsimp only at hplace
    by_cases hji : j = i
    · subst hji
      rw [Function.update_self, Function.update_self] at hplace
      exact hr.chain t t' hplace
    · rw [Function.update_of_ne hji, Function.update_of_ne hji] at hplace
      exact (h.chain j t t' hplace).imp_right fun hout => hout.mono hr.writes
  · dsimp only
    rcases hr.only w hw with hold | hfor
    · -- the children of before are others than the one that is handled
      refine (h.only w hold).imp_right fun ⟨j, hj, hjvalid, hfor⟩ => ?_
      have hji : j ≠ i := fun hji : j = i => hi (hji ▸ hj)
      refine ⟨j, List.mem_append_left _ hj, hjvalid, ?_⟩
      rw [Function.update_of_ne hji, Function.update_of_ne hji]
      exact hfor
    · refine Or.inr ⟨i, List.mem_append_right _ List.mem_cons_self, hvalid, ?_⟩
      rw [Function.update_self, Function.update_self]
      exact hfor

end LevelN

/-- The children are listed once. -/
theorem children_nodup (req : Request) (nodes : Type1NodeBlock) : (req.children nodes).Nodup :=
  ((List.nodup_finRange _).sublist (List.take_sublist _ _)).sublist (List.takeWhile_sublist _)

/-- The children that are listed are in use. -/
theorem ne_invalid_of_children {req : Request} {nodes : Type1NodeBlock} {i : Fin nodesPerBlock}
    (h : i ∈ req.children nodes) : nodes i ≠ type1NodeInvalid :=
  of_decide_eq_true (List.mem_takeWhile_imp (p := fun i => decide (nodes i ≠ type1NodeInvalid)) h)

/-- **The rule for the children of an inner node**: what holds before the first
of them, and is kept by a child that is skipped and by one that is handled,
holds behind the last one. -/
theorem handleChildren_induct {req : Request} {l : List (Fin nodesPerBlock)}
    {handle : Fin nodesPerBlock → NodeInfo → State P → Except (Stop P) (Handled P)}
    {Q : LevelNState P → List (Fin nodesPerBlock) → Prop} {a b : LevelNState P}
    (h : l.foldlM (handleChild req handle) a = .ok b) (hnd : l.Nodup) (hnil : Q a [])
    (hskip : ∀ c done i, i ∈ l → i ∉ done → Q c done → c.state.finished = true →
      Q c (done ++ [i]))
    (hvisit : ∀ c done i r, i ∈ l → i ∉ done → Q c done → c.state.finished = false →
      handle i
        { node := c.nodes i
          volatile := decide (nodeVolatile c.state.own.node req.currentGen) } c.state = .ok r →
      Q { nodes := Function.update c.nodes i r.node
          children := Function.update c.children i r.tree
          dirty := c.dirty || r.written
          state := r.state } (done ++ [i])) : Q b l := by
  suffices hrun : ∀ (todo done : List (Fin nodesPerBlock)) (c : LevelNState P), Q c done →
      done ++ todo = l → todo.foldlM (handleChild req handle) c = .ok b → Q b l from
    hrun l [] a hnil rfl h
  intro todo
  induction todo with
  | nil =>
    intro done c hc hdone hb
    rw [← hdone, List.append_nil, ← Except.ok.inj hb]
    exact hc
  | cons i todo ih =>
    intro done c hc hdone hb
    have hi : i ∈ l := hdone ▸ List.mem_append_right _ List.mem_cons_self
    have hni : i ∉ done := fun hd =>
      (List.nodup_append.mp (hdone ▸ hnd)).2.2 i hd i List.mem_cons_self rfl
    rw [List.append_cons] at hdone
    rw [List.foldlM_cons] at hb
    obtain ⟨c₁, hstep, hb⟩ := bind_eq_ok hb
    refine ih (done ++ [i]) c₁ ?_ hdone hb
    unfold handleChild at hstep
    split_ifs at hstep with hfin
    · obtain rfl := Except.ok.inj hstep
      exact hskip c done i hi hni hc hfin
    · obtain ⟨r, hr, rfl⟩ := map_eq_ok hstep
      exact hvisit c done i r hi hni hc (Bool.eq_false_iff.mpr hfin) hr

/-- What an inner node comes to when its children were handled. -/
theorem executeUpdate_inner {ok : ℕ → Bool} {req : Request} {nodes : Type1NodeBlock}
    {children : Fin nodesPerBlock → FtNode} {info : NodeInfo} {st : State P} {r : Handled P}
    (h : executeUpdate ok req (.inner nodes children) info st = .ok r) :
    ∃ acc : LevelNState P,
      (req.children nodes).foldlM
          (handleChild req fun i info st => executeUpdate ok req (children i) info st)
          { nodes := nodes
            children := children
            dirty := false
            state := { st with
              prims := st.prims + 1
              levelNNodes := info :: st.levelNNodes } } = .ok acc
        ∧ (acc.dirty = true → NodeWritten P req (.inner acc.nodes acc.children)
            acc.state.own.node.pba
            { acc.state with levelNNodes := acc.state.levelNNodes.tail } r)
        ∧ (acc.dirty = false → r =
            { tree := .inner acc.nodes acc.children
              node := info.node
              written := false
              state := { acc.state with levelNNodes := acc.state.levelNNodes.tail } }) := by
  unfold executeUpdate at h
  obtain ⟨st₁, hread, h⟩ := bind_eq_ok h
  obtain rfl := readNode_spec hread
  obtain ⟨acc, hfold, h⟩ := bind_eq_ok h
  refine ⟨acc, hfold, fun hdirty => ?_, fun hdirty => ?_⟩
  · rw [if_pos hdirty] at h
    exact writeNode_spec h
  · rw [if_neg (by rw [hdirty]; decide)] at h
    exact (Except.ok.inj h).symm

/-- The inner node that is handled, and those above it. -/
theorem Raised.own {req : Request} {U : ℕ → Prop} {info : NodeInfo} {l : List NodeInfo}
    {st : State P} (h : Raised req U (info :: l) st.levelNNodes) :
    st.levelNNodes = st.own :: st.levelNNodes.tail
      ∧ (st.own = info ∨ info.Open ∧ U st.own.node.pba)
      ∧ Raised req U l st.levelNNodes.tail := by
  unfold State.own
  generalize st.levelNNodes = l' at h ⊢
  cases h with
  | keep _ _ hrest => exact ⟨rfl, Or.inl rfl, hrest⟩
  | move ho hU hrest => exact ⟨rfl, Or.inr ⟨ho, hU⟩, hrest⟩

/-- The blocks in hand, the one of the inner node that is handled first. -/
theorem State.pbas_of_cons {st : State P} {info : NodeInfo} {l : List NodeInfo}
    (h : st.levelNNodes = info :: l) :
    st.pbas = {info.node.pba} + State.pbas { st with levelNNodes := l } := by
  unfold State.pbas
  rw [h, levelPbas_cons, add_assoc]

/-- Nothing is usable below an inner node whose children have nothing usable. -/
theorem nrOfUsable_inner_eq_zero {req : Request} {nodes : Type1NodeBlock}
    {children : Fin nodesPerBlock → FtNode} :
    nrOfUsable req (.inner nodes children) = 0
      ↔ ∀ i ∈ req.children nodes, nrOfUsable req (children i) = 0 := by
  rw [nrOfUsable, List.sum_eq_zero_iff, List.forall_mem_map]

/-- Something is usable below an inner node if it is below one of its children.
-/
theorem nrOfUsable_inner_pos {req : Request} {nodes : Type1NodeBlock}
    {children : Fin nodesPerBlock → FtNode} :
    0 < nrOfUsable req (.inner nodes children)
      ↔ ∃ i ∈ req.children nodes, 0 < nrOfUsable req (children i) := by
  rw [Nat.pos_iff_ne_zero, Ne, nrOfUsable_inner_eq_zero]
  push Not
  simp only [Nat.pos_iff_ne_zero]

/-- The search in an inner node. -/
theorem Walked.inner {ok : ℕ → Bool} {req : Request} {nodes : Type1NodeBlock}
    {children : Fin nodesPerBlock → FtNode} {info : NodeInfo} {st : State P} {r : Handled P}
    (hgen : 0 < req.currentGen) (hst : st.finished = false)
    (ih : ∀ i {info : NodeInfo} {st : State P} {r : Handled P}, st.finished = false →
      executeUpdate ok req (children i) info st = .ok r → Walked req (children i) info st r)
    (h : executeUpdate ok req (.inner nodes children) info st = .ok r) :
    Walked req (.inner nodes children) info st r := by
  obtain ⟨acc, hfold, hwritten, hkept⟩ := executeUpdate_inner h
  have hp := handleChildren_induct hfold (children_nodup req nodes)
    (LevelNProgress.nil req hst) (fun c done i _ _ hc hfin => hc.skip hfin)
    fun c done i r hi hni hc hc' hr => by
      obtain ⟨hnode, -⟩ := hc.other i hni
      rw [hnode] at hr
      exact hc.visit hgen hni (ne_invalid_of_children hi) hc' (ih i hc' hr)
  obtain ⟨hlevels, hown, hrest⟩ := Raised.own hp.raised
  have hcons : pbas (.inner acc.nodes acc.children) + {acc.state.own.node.pba}
        + State.pbas { acc.state with levelNNodes := acc.state.levelNNodes.tail }
      = pbas (.inner nodes children) + {info.node.pba} + st.pbas + req.givenUp acc.state := by
    have hstart : State.pbas { st with
          prims := st.prims + 1
          levelNNodes := info :: st.levelNNodes } = {info.node.pba} + st.pbas :=
      State.pbas_of_cons rfl
    have hcons := hp.conserved
    rw [State.pbas_of_cons hlevels, hstart, ← add_assoc, ← add_assoc] at hcons
    exact hcons
  rcases Nat.eq_zero_or_pos (nrOfUsable req (.inner nodes children)) with h0 | hpos
  · -- nothing is usable
    obtain ⟨hnodes, hchildren, hdirty, hlev, hfin⟩ := hp.idle (nrOfUsable_inner_eq_zero.mp h0)
    obtain rfl := hkept hdirty
    have howninfo : acc.state.own = info := by
      unfold State.own
      rw [hlev]
      rfl
    rw [howninfo] at hcons
    refine ⟨hcons, hrest, hp.newPba, Or.inl rfl, fun _ => ⟨by dsimp only; rw [hnodes, hchildren],
      rfl, rfl, by dsimp only; rw [hlev]; rfl, hfin⟩, fun hpos => absurd h0 hpos.ne',
      fun t t' hplace => Or.inl ?_, hp.writes, fun w hw => (hp.only w hw).imp_right ?_⟩
    · dsimp only at hplace
      rw [hnodes, hchildren] at hplace
      exact hplace.eq
    · rintro ⟨i, -, hvalid, t, t', hplace, hfor⟩
      exact ⟨t, t', .child i hvalid hplace, hfor⟩
  · obtain ⟨⟨i, -, hne⟩, hdirty⟩ := hp.busy (nrOfUsable_inner_pos.mp hpos)
    have hw := hwritten hdirty
    have hchanged : r.tree ≠ .inner nodes children := by
      rw [hw.tree_eq]
      exact fun heq => hne (congrFun (FtNode.inner.inj heq).2 i)
    refine ⟨?_, ?_, ?_, ?_, fun h0 => absurd h0 hpos.ne',
      fun _ => ⟨hchanged, hw.written, hw.writtenOut, fun hlev => ?_⟩, ?_, ?_, ?_⟩
    · rw [hw.tree_eq, hw.node_eq, hw.pbas_eq, hw.givenUp_eq]
      exact hcons
    · rw [hw.levelNNodes]
      exact hrest
    · rw [hw.finished, hw.newPba]
      exact hp.newPba
    · rw [hw.node_eq]
      show acc.state.own.node.pba = _ ∨ _ ∧ req.UsableBlock _ acc.state.own.node.pba
      cases hown with
      | inl heq => exact Or.inl (by rw [heq])
      | inr hmoved => exact Or.inr ⟨hmoved.1.2, hmoved.2⟩
    · refine hw.rootNode ?_
      rw [hlev] at hrest
      dsimp only
      generalize acc.state.levelNNodes.tail = l at hrest ⊢
      cases hrest
      rfl
    · intro t t' hplace
      rw [hw.tree_eq] at hplace
      cases hplace with
      | self => exact Or.inr (hw.tree_eq ▸ hw.writtenOut)
      | child j hj hplace =>
        refine (hp.chain j t t' hplace).imp_right fun hout => hout.mono fun w hmem => ?_
        rw [hw.writes]
        exact List.mem_append_left _ hmem
    · intro w hmem
      rw [hw.writes]
      exact List.mem_append_left _ (hp.writes w hmem)
    · intro w hmem
      rcases hw.mem_writes hmem with hold | hnew
      · refine (hp.only w hold).imp_right fun ⟨j, _, hvalid, t, t', hplace, hfor⟩ => ?_
        refine ⟨t, t', ?_, hfor⟩
        rw [hw.tree_eq]
        exact .child j hvalid hplace
      · exact Or.inr ⟨_, _, .self _ _, hchanged, hnew⟩

/-- **What the search does to a tree**, for every tree and all outcomes of the
cache primitives with which it gets through. By induction on the tree. -/
theorem executeUpdate_walked {ok : ℕ → Bool} {req : Request} {tree : FtNode} {info : NodeInfo}
    {st : State P} {r : Handled P} (hgen : 0 < req.currentGen) (hst : st.finished = false)
    (h : executeUpdate ok req tree info st = .ok r) : Walked req tree info st r := by
  induction tree generalizing info st r with
  | leafs entries => exact Walked.leafs hgen hst h
  | inner nodes children ih =>
    exact Walked.inner hgen hst (fun i _ _ _ hst hr => ih i hst hr) h

/-! ## What is overwritten

A node that is written in place and was not new is gone. The first node in which
that happens decides; the nodes that the search has left before were moved. -/

/-- A changed node of an earlier generation stays in its block. -/
def Spoiled (req : Request) (s s' : Subtree) : Prop :=
  ∃ t t', SamePlace s s' t t' ∧ t'.tree ≠ t.tree ∧ t'.entry.pba = t.entry.pba
    ∧ t.entry.gen ≠ req.currentGen

/-- Changed nodes stay in blocks of the current generation or move. -/
def Spared (req : Request) (U : ℕ → Prop) (s s' : Subtree) : Prop :=
  ∀ t t', SamePlace s s' t t' → t'.tree ≠ t.tree →
    (t'.entry.pba = t.entry.pba ∧ t.entry.gen = req.currentGen) ∨ U t'.entry.pba

/-- A tree that was not changed is spared. -/
theorem Spared.refl (req : Request) (U : ℕ → Prop) (s : Subtree) : Spared req U s s :=
  fun _ _ h hne => absurd (congrArg Subtree.tree h.eq) hne

/-- The blocks that the nodes move to may come from a larger set. -/
theorem Spared.mono {req : Request} {U V : ℕ → Prop} {s s' : Subtree} (h : Spared req U s s')
    (hUV : ∀ pba, U pba → V pba) : Spared req V s s' :=
  fun t t' ht hne => (h t t' ht hne).imp_right (hUV _)

section Overwritten

variable {ok : ℕ → Bool} {req : Request} {nodes : Type1NodeBlock}
  {children : Fin nodesPerBlock → FtNode} {info : NodeInfo} {st : State P} {r : Handled P}

/-- **Below an inner node of an earlier generation** the first child in which
something is found is overwritten. -/
theorem spoiled_of_gen_ne (hgen : 0 < req.currentGen) (hst : st.finished = false)
    (h : executeUpdate ok req (.inner nodes children) info st = .ok r)
    (hdated : Dated req.currentGen (.inner nodes children) info.node)
    (hne : info.node.gen ≠ req.currentGen) (hpos : 0 < nrOfUsable req (.inner nodes children)) :
    Spoiled req ⟨.inner nodes children, info.node⟩ ⟨r.tree, r.node⟩ := by
  obtain ⟨acc, hfold, hwritten, -⟩ := executeUpdate_inner h
  -- the child stays as it was left, because the later ones are others
  obtain ⟨hp, hfirst⟩ := handleChildren_induct
    (Q := fun c done =>
      LevelNProgress req
        { nodes := nodes
          children := children
          dirty := false
          state := { st with
            prims := st.prims + 1
            levelNNodes := info :: st.levelNNodes } } c done
        ∧ ((∃ i ∈ done, 0 < nrOfUsable req (children i)) → ∃ i ∈ done,
          nodes i ≠ type1NodeInvalid ∧ c.children i ≠ children i
            ∧ (c.nodes i).pba = (nodes i).pba))
    hfold (children_nodup req nodes) ⟨LevelNProgress.nil req hst, fun h => absurd h (by simp)⟩
    (fun c done i _ _ hc hfin => by
      obtain ⟨j, hj, hrest⟩ := hc.2 (hc.1.exists_of_finished hfin)
      exact ⟨hc.1.skip hfin, fun _ => ⟨j, List.mem_append_left _ hj, hrest⟩⟩)
    fun c done i r hi hni hc hc' hr => by
      obtain ⟨hnode, -⟩ := hc.1.other i hni
      rw [hnode] at hr
      have hvalid := ne_invalid_of_children hi
      have hwalked := executeUpdate_walked hgen hc' hr
      refine ⟨hc.1.visit hgen hni hvalid hc' hwalked, ?_⟩
      rintro ⟨j, hj, hjpos⟩
      dsimp only
      by_cases hbusy : ∃ k ∈ done, 0 < nrOfUsable req (children k)
      · obtain ⟨k, hk, hkvalid, hkne, hkpba⟩ := hc.2 hbusy
        have hki : k ≠ i := fun hki : k = i => hni (hki ▸ hk)
        refine ⟨k, List.mem_append_left _ hk, hkvalid, ?_, ?_⟩
        · rw [Function.update_of_ne hki]
          exact hkne
        · rw [Function.update_of_ne hki]
          exact hkpba
      · push Not at hbusy
        have hidle := hc.1.idle fun k hk => Nat.le_zero.mp (hbusy k hk)
        have hji : j = i := by
          rw [List.mem_append, List.mem_singleton] at hj
          exact hj.resolve_left fun hd => absurd hjpos (not_lt.mpr (hbusy j hd))
        subst hji
        refine ⟨j, hj, hvalid, ?_, ?_⟩
        · rw [Function.update_self]
          exact (hwalked.busy hjpos).1
        · rw [Function.update_self]
          refine hwalked.place.resolve_right fun hmoved => ?_
          have hown : c.state.own = info := by
            unfold State.own
            rw [hidle.2.2.2.1]
            rfl
          rw [hown] at hmoved
          exact of_decide_eq_false hmoved.1 (Or.inr hne)
  obtain ⟨i, -, hvalid, hchanged, hpba⟩ := hfirst (nrOfUsable_inner_pos.mp hpos)
  have hw := hwritten (hp.busy (nrOfUsable_inner_pos.mp hpos)).2
  refine ⟨⟨children i, nodes i⟩, ⟨acc.children i, acc.nodes i⟩, ?_, hchanged, hpba, ?_⟩
  · rw [hw.tree_eq]
    exact .child i hvalid (.self _ _)
  · have hle := (hdated.2 i hvalid).1
    exact fun heq => hne (le_antisymm hdated.1 (heq ▸ hle))

/-- What `renewal` says of a state, in terms of a part of the tree. -/
def Renewal.Holds (spoiled spared : Prop) (st : State P) : Renewal → Prop
  | .spoiled => spoiled
  | .served => st.finished = true ∧ spared
  | .pending m => st.finished = false ∧ opened st.levelNNodes = m ∧ spared

/-- The search in a level-1 node that has to be moved. -/
theorem renewal_leafs {entries : Type2NodeBlock} (hgen : 0 < req.currentGen)
    (hst : st.finished = false) (hopen : info.Open)
    (h : executeUpdate ok req (.leafs entries) info st = .ok r) :
    (renewal req (.leafs entries) info.node (opened st.levelNNodes)).Holds
      (Spoiled req ⟨.leafs entries, info.node⟩ ⟨r.tree, r.node⟩)
      (Spared req (req.UsableBlock (.leafs entries)) ⟨.leafs entries, info.node⟩
        ⟨r.tree, r.node⟩) r.state := by
  have hwalked := executeUpdate_walked hgen hst h
  unfold renewal
  split_ifs with h0 hlt
  · obtain ⟨htree, hnode, -, hlevels, hfin⟩ := hwalked.idle h0
    rw [htree, hnode]
    exact ⟨hfin, by rw [hlevels], Spared.refl _ _ _⟩
  all_goals
    obtain ⟨acc, hp, hwritten, -⟩ := executeUpdate_leafs hgen hst h
    obtain ⟨i, hi, hu⟩ := List.countP_pos_iff.mp (Nat.pos_of_ne_zero h0)
    obtain ⟨hhandled, -, hvolatile⟩ := hp.busy ⟨i, hi, of_decide_eq_true hu⟩
    have hw := hwritten hhandled
    have hmoved : req.UsableBlock (.leafs entries) acc.level1Node.node.pba := by
      cases hp.level1Node with
      | inl heq => exact absurd (hopen.2.symm.trans (heq ▸ hvolatile)) (by decide)
      | inr hmoved => exact hmoved.2
    have hspared : Spared req (req.UsableBlock (.leafs entries)) ⟨.leafs entries, info.node⟩
        ⟨r.tree, r.node⟩ := by
      intro t t' hplace _
      cases hplace
      refine Or.inr ?_
      rw [hw.node_eq]
      exact hmoved
    have hdueStart : Level1State.due
        { entries := entries
          level1Node := info
          handled := false
          state := { st with prims := st.prims + 1 } } = opened st.levelNNodes + 1 := by
      unfold Level1State.due
      rw [if_pos hopen.2, Nat.add_comm]
  · refine ⟨?_, hspared⟩
    rw [hw.finished]
    by_contra hfin
    have hdue := hp.due (Bool.eq_false_iff.mpr hfin)
    rw [hdueStart] at hdue
    exact absurd (hdue ▸ Nat.le_add_left _ _) (not_le.mpr hlt)
  · have hfin : acc.state.finished = false := by
      by_contra hfin
      have hserved := hp.served (Bool.eq_true_of_not_eq_false hfin)
      rw [hdueStart] at hserved
      exact hlt hserved
    refine ⟨hw.finished.trans hfin, ?_, hspared⟩
    have hdue := hp.due hfin
    rw [hdueStart, Level1State.due, if_neg (by rw [hvolatile]; decide), Nat.zero_add] at hdue
    rw [hw.levelNNodes]
    exact Nat.eq_sub_of_add_eq hdue

/-- Moving nodes leaves fewer without a block. -/
theorem Raised.opened_le {U : ℕ → Prop} {l l' : List NodeInfo} (h : Raised req U l l') :
    opened l' ≤ opened l := by
  induction h with
  | nil => exact le_refl _
  | keep info _ _ ih =>
    by_cases ho : info.Open
    · rw [opened_cons_of_open ho, opened_cons_of_open ho]
      exact Nat.succ_le_succ ih
    · rw [opened_cons_of_not_open ho, opened_cons_of_not_open ho]
      exact ih
  | move ho _ _ ih =>
    rw [opened_cons_of_open ho, opened_cons_of_not_open (by simp [NodeInfo.Open])]
    exact ih.trans (Nat.le_succ _)

/-- As long as an inner node has no block, those above it are as before. -/
theorem Raised.opened_tail {U : ℕ → Prop} {info : NodeInfo} {l l' : List NodeInfo}
    (h : Raised req U (info :: l) l') : opened l'.tail = min (opened l) (opened l') := by
  cases h with
  | keep _ hkeep hrest =>
    by_cases ho : info.Open
    · rw [hkeep ho, opened_cons_of_open ho]
      exact (min_eq_left (Nat.le_succ _)).symm
    · rw [opened_cons_of_not_open ho]
      exact (min_eq_right hrest.opened_le).symm
  | move _ _ hrest =>
    rw [opened_cons_of_not_open (by simp [NodeInfo.Open])]
    exact (min_eq_right hrest.opened_le).symm

/-- How far the search got with the children `done` of an inner node. -/
def childrenRenewal (req : Request) (nodes : Type1NodeBlock)
    (children : Fin nodesPerBlock → FtNode) (opened : ℕ) (done : List (Fin nodesPerBlock)) :
    Renewal :=
  done.foldl (fun r i => Renewal.next r (renewal req (children i) (nodes i))) (.pending opened)

/-- The children are counted one after the other. -/
theorem childrenRenewal_append (m : ℕ) (done : List (Fin nodesPerBlock)) (i : Fin nodesPerBlock) :
    childrenRenewal req nodes children m (done ++ [i])
      = (childrenRenewal req nodes children m done).next (renewal req (children i) (nodes i)) := by
  unfold childrenRenewal
  rw [List.foldl_append]
  rfl

/-- Some child was handled in which something is overwritten. -/
def ChildSpoiled (req : Request) (nodes : Type1NodeBlock) (children : Fin nodesPerBlock → FtNode)
    (acc : LevelNState P) (done : List (Fin nodesPerBlock)) : Prop :=
  ∃ i ∈ done, nodes i ≠ type1NodeInvalid
    ∧ Spoiled req ⟨children i, nodes i⟩ ⟨acc.children i, acc.nodes i⟩

/-- In the children that were handled nothing is. -/
def ChildrenSpared (req : Request) (nodes : Type1NodeBlock)
    (children : Fin nodesPerBlock → FtNode) (acc : LevelNState P)
    (done : List (Fin nodesPerBlock)) : Prop :=
  ∀ i ∈ done, Spared req (req.UsableBlock (.inner nodes children)) ⟨children i, nodes i⟩
    ⟨acc.children i, acc.nodes i⟩

/-- The children of an inner node of the current generation. -/
theorem childrenRenewal_holds {acc : LevelNState P} (hgen : 0 < req.currentGen)
    (hst : st.finished = false)
    (hcur : ∀ x ∈ info :: st.levelNNodes, x.node.gen = req.currentGen)
    (ih : ∀ i ∈ req.children nodes, ∀ {info : NodeInfo} {st : State P} {r : Handled P},
      st.finished = false → info.node = nodes i → info.Open →
      (∀ x ∈ st.levelNNodes, x.node.gen = req.currentGen) →
      executeUpdate ok req (children i) info st = .ok r →
      (renewal req (children i) info.node (opened st.levelNNodes)).Holds
        (Spoiled req ⟨children i, info.node⟩ ⟨r.tree, r.node⟩)
        (Spared req (req.UsableBlock (children i)) ⟨children i, info.node⟩ ⟨r.tree, r.node⟩)
        r.state)
    (hfold : (req.children nodes).foldlM
        (handleChild req fun i info st => executeUpdate ok req (children i) info st)
        { nodes := nodes
          children := children
          dirty := false
          state := { st with
            prims := st.prims + 1
            levelNNodes := info :: st.levelNNodes } } = .ok acc) :
    LevelNProgress req
        { nodes := nodes
          children := children
          dirty := false
          state := { st with
            prims := st.prims + 1
            levelNNodes := info :: st.levelNNodes } } acc (req.children nodes)
      ∧ (childrenRenewal req nodes children (opened (info :: st.levelNNodes))
          (req.children nodes)).Holds (ChildSpoiled req nodes children acc (req.children nodes))
        (ChildrenSpared req nodes children acc (req.children nodes)) acc.state := by
  refine handleChildren_induct
    (Q := fun c done =>
      LevelNProgress req
          { nodes := nodes
            children := children
            dirty := false
            state := { st with
              prims := st.prims + 1
              levelNNodes := info :: st.levelNNodes } } c done
        ∧ (childrenRenewal req nodes children (opened (info :: st.levelNNodes)) done).Holds
          (ChildSpoiled req nodes children c done) (ChildrenSpared req nodes children c done)
          c.state)
    hfold (children_nodup req nodes)
    ⟨LevelNProgress.nil req hst, hst, rfl, fun i hi => absurd hi (by simp)⟩ ?_ ?_
  · -- a child that is skipped is as before
    rintro c done i hi hni ⟨hc, hholds⟩ hfin
    refine ⟨hc.skip hfin, ?_⟩
    rw [childrenRenewal_append]
    generalize childrenRenewal req nodes children (opened (info :: st.levelNNodes)) done = rr
      at hholds ⊢
    cases rr with
    | spoiled =>
      obtain ⟨j, hj, hspoiled⟩ := hholds
      exact ⟨j, List.mem_append_left _ hj, hspoiled⟩
    | served =>
      refine ⟨hfin, fun j hj => ?_⟩
      rw [List.mem_append, List.mem_singleton] at hj
      cases hj with
      | inl hj => exact hholds.2 j hj
      | inr hj =>
        subst hj
        obtain ⟨hnode, htree⟩ := hc.other j hni
        rw [hnode, htree]
        exact Spared.refl _ _ _
    | pending m => exact absurd (hholds.1.symm.trans hfin) (by decide)
  · rintro c done i r hi hni ⟨hc, hholds⟩ hc' hr
    obtain ⟨hnode, -⟩ := hc.other i hni
    rw [hnode] at hr
    have hvalid := ne_invalid_of_children hi
    refine ⟨hc.visit hgen hni hvalid hc' (executeUpdate_walked hgen hc' hr), ?_⟩
    -- the child is of the current generation, and so has to be moved
    have hlevels := hc.raised.gen_eq hcur
    have hopen : NodeInfo.Open
        { node := nodes i
          volatile := decide (nodeVolatile c.state.own.node req.currentGen) } := by
      refine ⟨hvalid, decide_eq_false ?_⟩
      have hown : c.state.own.node.gen = req.currentGen := by
        obtain ⟨hcons, -, -⟩ := Raised.own hc.raised
        exact hlevels _ (hcons ▸ List.mem_cons_self)
      rintro (h0 | hne)
      · exact hgen.ne' (hown.symm.trans h0)
      · exact hne hown
    have hother : ∀ j ∈ done, Function.update c.children i r.tree j = c.children j
        ∧ Function.update c.nodes i r.node j = c.nodes j := by
      intro j hj
      have hji : j ≠ i := fun hji : j = i => hni (hji ▸ hj)
      exact ⟨Function.update_of_ne hji _ _, Function.update_of_ne hji _ _⟩
    rw [childrenRenewal_append]
    generalize childrenRenewal req nodes children (opened (info :: st.levelNNodes)) done = rr
      at hholds ⊢
    cases rr with
    | spoiled =>
      obtain ⟨j, hj, hjvalid, hspoiled⟩ := hholds
      refine ⟨j, List.mem_append_left _ hj, hjvalid, ?_⟩
      dsimp only
      rw [(hother j hj).1, (hother j hj).2]
      exact hspoiled
    | served => exact absurd (hc'.symm.trans hholds.1) (by decide)
    | pending m =>
      obtain ⟨-, hm, hspared⟩ := hholds
      have hchild := ih i hi hc' rfl hopen hlevels hr
      rw [hm] at hchild
      have hall : Spared req (req.UsableBlock (children i)) ⟨children i, nodes i⟩
            ⟨r.tree, r.node⟩ →
          ChildrenSpared req nodes children
            { nodes := Function.update c.nodes i r.node
              children := Function.update c.children i r.tree
              dirty := c.dirty || r.written
              state := r.state } (done ++ [i]) := by
        intro hspared' j hj
        dsimp only
        rw [List.mem_append, List.mem_singleton] at hj
        cases hj with
        | inl hj =>
          rw [(hother j hj).1, (hother j hj).2]
          exact hspared j hj
        | inr hj =>
          subst hj
          rw [Function.update_self, Function.update_self]
          exact hspared'.mono fun pba hu => ⟨j, hvalid, hu⟩
      show (renewal req (children i) (nodes i) m).Holds _ _ _
      dsimp only at hchild
      generalize renewal req (children i) (nodes i) m = rr at hchild ⊢
      cases rr with
      | spoiled =>
        refine ⟨i, List.mem_append_right _ List.mem_cons_self, hvalid, ?_⟩
        dsimp only
        rw [Function.update_self, Function.update_self]
        exact hchild
      | served => exact ⟨hchild.1, hall hchild.2⟩
      | pending m' => exact ⟨hchild.1, hchild.2.1, hall hchild.2.2⟩

/-- **What the search overwrites**, below a node that has to be moved or is of
an earlier generation. By induction on the tree; for an inner node the two cases
of its generation are `spoiled_of_gen_ne` and `childrenRenewal_holds`. -/
theorem renewal_holds {tree : FtNode} (hgen : 0 < req.currentGen) (hst : st.finished = false)
    (hdated : Dated req.currentGen tree info.node)
    (hopen : info.Open
      ∨ info.node.gen ≠ req.currentGen ∧ ∃ nodes children, tree = .inner nodes children)
    (hcur : ∀ x ∈ st.levelNNodes, x.node.gen = req.currentGen)
    (h : executeUpdate ok req tree info st = .ok r) :
    (renewal req tree info.node (opened st.levelNNodes)).Holds
      (Spoiled req ⟨tree, info.node⟩ ⟨r.tree, r.node⟩)
      (Spared req (req.UsableBlock tree) ⟨tree, info.node⟩ ⟨r.tree, r.node⟩) r.state := by
  induction tree generalizing info st r with
  | leafs entries =>
    refine renewal_leafs hgen hst (hopen.resolve_right ?_) h
    rintro ⟨-, _, _, heq⟩
    exact FtNode.noConfusion heq
  | inner nodes children ih =>
    have hwalked := executeUpdate_walked hgen hst h
    unfold renewal
    split_ifs with h0 heq
    · obtain ⟨htree, hnode, -, hlevels, hfin⟩ := hwalked.idle h0
      rw [htree, hnode]
      exact ⟨hfin, by rw [hlevels], Spared.refl _ _ _⟩
    · have hpos := Nat.pos_of_ne_zero h0
      replace hopen : info.Open := hopen.resolve_right fun hne => hne.1 heq
      obtain ⟨acc, hfold, hwritten, -⟩ := executeUpdate_inner h
      obtain ⟨hp, hholds⟩ := childrenRenewal_holds hgen hst
        (List.forall_mem_cons.mpr ⟨heq, hcur⟩)
        (fun i hi info st r hst hinfo ho hcur hr => ih i hst
          (hinfo ▸ (hdated.2 i (ne_invalid_of_children hi)).2) (Or.inl ho) hcur hr) hfold
      rw [opened_cons_of_open hopen] at hholds
      have hw := hwritten (hp.busy (nrOfUsable_inner_pos.mp hpos)).2
      obtain ⟨hlevels, hown, hrest⟩ := Raised.own hp.raised
      have hspared : ChildrenSpared req nodes children acc (req.children nodes) →
          Spared req (req.UsableBlock (.inner nodes children)) ⟨.inner nodes children, info.node⟩
            ⟨r.tree, r.node⟩ := by
        intro hall t t' hplace hne
        rw [hw.tree_eq] at hplace
        cases hplace with
        | self =>
          rw [hw.node_eq]
          show (acc.state.own.node.pba = _ ∧ _) ∨ req.UsableBlock _ acc.state.own.node.pba
          cases hown with
          | inl howninfo => exact Or.inl ⟨by rw [howninfo], heq⟩
          | inr hmoved => exact Or.inr hmoved.2
        | child i _ hplace =>
          by_cases hi : i ∈ req.children nodes
          · exact hall i hi t t' hplace hne
          · obtain ⟨hnode, htree⟩ := hp.other i hi
            dsimp only at hnode htree
            rw [hnode, htree] at hplace
            exact absurd (congrArg Subtree.tree hplace.eq) hne
      show ((childrenRenewal req nodes children (opened st.levelNNodes + 1)
        (req.children nodes)).leave _).Holds _ _ _
      generalize childrenRenewal req nodes children (opened st.levelNNodes + 1)
        (req.children nodes) = rr at hholds ⊢
      cases rr with
      | spoiled =>
        obtain ⟨i, -, hvalid, t, t', hplace, hrest⟩ := hholds
        refine ⟨t, t', ?_, hrest⟩
        rw [hw.tree_eq]
        exact .child i hvalid hplace
      | served => exact ⟨hw.finished.trans hholds.1, hspared hholds.2⟩
      | pending m =>
        obtain ⟨hfin, hm, hall⟩ := hholds
        refine ⟨hw.finished.trans hfin, ?_, hspared hall⟩
        rw [hw.levelNNodes]
        show opened acc.state.levelNNodes.tail = _
        rw [← hm]
        exact Raised.opened_tail hp.raised
    · exact spoiled_of_gen_ne hgen hst h hdated heq (Nat.pos_of_ne_zero h0)

end Overwritten

/-! ## Requests -/

/-- The block of a usable entry is one of the blocks of the tree. -/
theorem mem_pbas_of_usable {req : Request} {tree : FtNode} {pba : ℕ}
    (h : req.UsableBlock tree pba) : pba ∈ pbas tree := by
  induction tree with
  | leafs entries =>
    obtain ⟨i, -, hu, rfl⟩ := h
    refine mem_sum_of_share (i := i) ?_
    rw [if_pos hu.1]
    exact Multiset.mem_singleton_self _
  | inner nodes children ih =>
    obtain ⟨i, hvalid, hu⟩ := h
    refine mem_sum_of_share (i := i) ?_
    rw [if_pos hvalid]
    exact Multiset.mem_add.mpr (Or.inr (ih i hu))

/-- So is the block of a node. -/
theorem SamePlace.mem_pbas {tree : FtNode} {node : Type1Node} {s' t t' : Subtree}
    (h : SamePlace ⟨tree, node⟩ s' t t') : t.entry.pba ∈ {node.pba} + pbas tree := by
  induction tree generalizing node s' with
  | leafs entries =>
    cases h
    exact Multiset.mem_add.mpr (Or.inl (Multiset.mem_singleton_self _))
  | inner nodes children ih =>
    cases h with
    | self => exact Multiset.mem_add.mpr (Or.inl (Multiset.mem_singleton_self _))
    | child i hvalid h =>
      refine Multiset.mem_add.mpr (Or.inr (mem_sum_of_share (i := i) ?_))
      rw [if_pos hvalid]
      exact ih i h

/-- **A node has not the block of a usable entry**, when no block is used twice. -/
theorem SamePlace.pba_ne {req : Request} {tree : FtNode} {node : Type1Node} {s' t t' : Subtree}
    {pba : ℕ} (h : SamePlace ⟨tree, node⟩ s' t t') (hnd : ({node.pba} + pbas tree).Nodup)
    (hu : req.UsableBlock tree pba) : t.entry.pba ≠ pba := by
  have hself : node.pba ≠ pba := by
    rintro rfl
    exact Multiset.disjoint_left.mp (Multiset.nodup_add.mp hnd).2.2
      (Multiset.mem_singleton_self _) (mem_pbas_of_usable hu)
  induction tree generalizing node s' with
  | leafs entries =>
    cases h
    exact hself
  | inner nodes children ih =>
    cases h with
    | self => exact hself
    | child i hvalid h =>
      have hsum := (Multiset.nodup_add.mp hnd).2.1
      obtain ⟨j, hjvalid, hju⟩ := hu
      by_cases hij : i = j
      · subst hij
        have hshare := nodup_share hsum i
        rw [if_pos hvalid] at hshare
        refine ih i h hshare hju ?_
        rintro rfl
        exact Multiset.disjoint_left.mp (Multiset.nodup_add.mp hshare).2.2
          (Multiset.mem_singleton_self _) (mem_pbas_of_usable hju)
      · refine ne_of_shares hsum hij ?_ ?_
        · rw [if_pos hvalid]
          exact h.mem_pbas
        · rw [if_pos hjvalid]
          exact Multiset.mem_add.mpr (Or.inr (mem_pbas_of_usable hju))

/-- In generation zero nothing of a tree is usable. -/
theorem not_usable_of_gen_zero {req : Request} {tree : FtNode} {node : Type1Node}
    (h0 : req.currentGen = 0) (h : Dated req.currentGen tree node) (pba : ℕ) :
    ¬ req.UsableBlock tree pba := by
  induction tree generalizing node with
  | leafs entries =>
    rintro ⟨i, -, hu, -⟩
    have hle := h.2 i
    rw [h0] at hle
    exact hu.2 ((Nat.le_zero.mp hle).trans h0.symm)
  | inner nodes children ih =>
    rintro ⟨i, hvalid, hu⟩
    exact ih i (h.2 i hvalid).2 hu

/-- Where nothing is usable, the request is not served. -/
theorem not_finished_of_not_usable {ok : ℕ → Bool} {req : Request} {tree : FtNode}
    {info : NodeInfo} {st : State P} {r : Handled P} (hst : st.finished = false)
    (hnone : ∀ pba, ¬ req.UsableBlock tree pba) (h : executeUpdate ok req tree info st = .ok r) :
    r.state.finished = false := by
  induction tree generalizing info st r with
  | leafs entries =>
    unfold executeUpdate at h
    obtain ⟨st₁, hread, h⟩ := bind_eq_ok h
    obtain rfl := readNode_spec hread
    have hskip : ∀ l : List (Fin nodesPerBlock), (∀ i ∈ l, i ∈ req.edgeIndices) →
        l.foldl (handleLevel0Node req)
            { entries := entries
              level1Node := info
              handled := false
              state := { st with prims := st.prims + 1 } }
          = { entries := entries
              level1Node := info
              handled := false
              state := { st with prims := st.prims + 1 } } := by
      intro l hl
      induction l with
      | nil => rfl
      | cons i l ih =>
        rw [List.forall_mem_cons] at hl
        have hu : ¬ req.Usable (entries i) := fun hu => hnone _ ⟨i, hl.1, hu, rfl⟩
        rw [List.foldl_cons, handleLevel0Node, if_neg (by simp [hst]), if_neg hu]
        exact ih hl.2
    dsimp only at h
    rw [handleLevel0Nodes, hskip _ fun _ hi => hi, if_neg (by simp)] at h
    obtain rfl := Except.ok.inj h
    exact hst
  | inner nodes children ih =>
    obtain ⟨acc, hfold, hwritten, hkept⟩ := executeUpdate_inner h
    have hfin : acc.state.finished = false :=
      handleChildren_induct (Q := fun c _ => c.state.finished = false) hfold
        (children_nodup req nodes) hst (fun _ _ _ _ _ hc _ => hc)
        fun c done i r hi _ hc _ hr =>
          ih i hc (fun pba hu => hnone pba ⟨i, ne_invalid_of_children hi, hu⟩) hr
    cases hd : acc.dirty with
    | true => exact (hwritten hd).finished.trans hfin
    | false =>
      rw [hkept hd]
      exact hfin

theorem Outcome.ofResult_eq_complete {x : Except (Stop P) (Handled P)} {res : Handled P}
    (h : Outcome.ofResult x = some (.complete res)) : x = .ok res := by
  match x with
  | .error .treeHashMismatch => exact absurd h (by simp [Outcome.ofResult])
  | .error (.cacheFailed st) => exact absurd h (by simp [Outcome.ofResult])
  | .ok r => rw [Outcome.complete.inj (Option.some.inj h)]

/-- At the beginning the search has nothing in its hands. -/
theorem submitted_pbas (root : Type1Node) (newPba : ℕ) :
    (State.submitted root newPba : State P).pbas = 0 := by
  unfold State.pbas State.submitted
  rw [if_neg Bool.false_ne_true]
  rfl

/-- The root at the beginning of a request. -/
theorem execute_complete {ok : ℕ → Bool} {req : Request} {newPba : ℕ} {root : Type1Node}
    {tree : FtNode} {res : Handled P}
    (h : execute ok req newPba root tree = some (.complete res)) :
    (∃ nodes children, tree = .inner nodes children)
      ∧ executeUpdate ok req tree (req.rootInfo root) (State.submitted root newPba) = .ok res := by
  cases tree with
  | leafs entries => exact absurd h (by simp [execute])
  | inner nodes children =>
    exact ⟨⟨nodes, children, rfl⟩, Outcome.ofResult_eq_complete h⟩

/-- **When a request leaves the old meta tree readable.** For every meta tree,
every request that is served and every course of the cache primitives, nodes of
earlier generations are not overwritten if and only if the search changes no
inner node of an earlier generation. All the rest holds in any case. -/
theorem copiesOnWrite_iff_of_request {ok : ℕ → Bool} {req : Request} {newPba : ℕ}
    {root : Type1Node} {tree : FtNode} {res : Handled P} (hvalid : req.Valid root tree)
    (h : execute ok req newPba root tree = some (.complete res))
    (hserved : (Outcome.complete res).success = true) :
    CopiesOnWrite req root tree res ↔ renewal req tree root 0 ≠ .spoiled := by
  obtain ⟨hinner, hrun⟩ := execute_complete h
  have hfin : res.state.finished = true := hserved
  have hgen : 0 < req.currentGen := by
    refine Nat.pos_of_ne_zero fun h0 => ?_
    have hnot := not_finished_of_not_usable rfl (not_usable_of_gen_zero h0 hvalid.dated) hrun
    exact absurd (hfin.symm.trans hnot) (by decide)
  have hwalked := executeUpdate_walked hgen rfl hrun
  have hopen : (req.rootInfo root).Open
      ∨ root.gen ≠ req.currentGen ∧ ∃ nodes children, tree = .inner nodes children := by
    by_cases heq : root.gen = req.currentGen
    · refine Or.inl ⟨fun hroot => ?_, decide_eq_false ?_⟩
      · exact hgen.ne' (heq.symm.trans (congrArg Type1Node.gen hroot))
      · rintro (h0 | hne)
        · exact hgen.ne' (heq.symm.trans h0)
        · exact hne heq
    · exact Or.inr ⟨heq, hinner⟩
  have hholds := renewal_holds hgen rfl hvalid.dated hopen
    (by simp [State.submitted]) hrun
  constructor
  · intro hcopies hspoiled
    have hspoil : (renewal req tree root 0).Holds _ _ _ := hholds
    rw [hspoiled] at hspoil
    obtain ⟨t, t', hplace, hne, hpba, hold⟩ := hspoil
    cases hcopies.copied t t' hplace hne with
    | inl hsame => exact hold hsame.2
    | inr hu => exact hplace.pba_ne hvalid.distinct hu hpba.symm
  · intro hnot
    have hspared : Spared req (req.UsableBlock tree) ⟨tree, root⟩ ⟨res.tree, res.node⟩ := by
      have hspare : (renewal req tree root 0).Holds _ _ _ := hholds
      generalize renewal req tree root 0 = rr at hspare hnot
      cases rr with
      | spoiled => exact absurd rfl hnot
      | served => exact hspare.2
      | pending m => exact hspare.2.2
    have hpos : 0 < nrOfUsable req tree := by
      refine Nat.pos_of_ne_zero fun h0 => ?_
      exact absurd (hfin.symm.trans (hwalked.idle h0).2.2.2.2) (by decide)
    obtain ⟨-, -, hout, hroot⟩ := hwalked.busy hpos
    refine ⟨hspared, ?_, hwalked.newPba hfin, hwalked.chain,
      fun w hw => (hwalked.only w hw).resolve_left (by simp [State.submitted]), hout, hroot rfl⟩
    have hlevels : levelPbas res.state.levelNNodes = 0 := by
      have hraised := hwalked.raised
      generalize res.state.levelNNodes = l at hraised ⊢
      cases hraised
      rfl
    have hcons := hwalked.conserved
    rw [submitted_pbas, Request.givenUp, State.pbas, hlevels, if_pos hfin, if_pos hfin] at hcons
    calc {res.node.pba} + pbas res.tree + {res.state.newPba}
        = pbas res.tree + {res.node.pba} + (0 + {res.state.newPba}) := by abel
      _ = pbas tree + {root.pba} + 0 + {req.oldPba} := hcons
      _ = {root.pba} + pbas tree + {req.oldPba} := by abel

/-- A root that is changed in its block is of the current generation. -/
theorem CopiesOnWrite.root_gen {req : Request} {root : Type1Node} {tree : FtNode}
    {res : Handled P} (h : CopiesOnWrite req root tree res) (hvalid : req.Valid root tree)
    (hne : res.tree ≠ tree) (hpba : res.node.pba = root.pba) : root.gen = req.currentGen := by
  cases h.copied _ _ (.self _ _) hne with
  | inl hsame => exact hsame.2
  | inr hu =>
    exact absurd hpba.symm ((SamePlace.self ⟨tree, root⟩ ⟨res.tree, res.node⟩).pba_ne
      hvalid.distinct hu)

/-- A request to the tree of the sample image, in its first generation. -/
def sampleRequest : Request where
  currentGen := 1
  oldPba := 99
  edges := 16

/-- The root of that tree, as of some generation. -/
def sampleRoot (gen : ℕ) : Type1Node := { pba := 12, gen := gen, hash := 0 }

theorem sampleRequest_valid {gen : ℕ} (h : gen ≤ 1) :
    sampleRequest.Valid (sampleRoot gen) sampleFree where
  dated := by
    refine ⟨h, fun i _ => ⟨?_, ?_, ?_⟩⟩
    · have hzero : ∀ i : Fin nodesPerBlock,
          (if i = 0 then ⟨13, 0, 0⟩ else type1NodeInvalid : Type1Node).gen = 0 := by decide
      exact (hzero i).trans_le (Nat.zero_le _)
    · revert i
      decide
    · decide
  distinct := by
    show ({12} + pbas sampleFree).Nodup
    decide +kernel

/-- With a root of the current generation the old tree is left alone. -/
theorem copiesOnWrite_iff_of_request_sample :
    ∃ res, execute (P := Platform.sample) (fun _ => true) sampleRequest 0 (sampleRoot 1) sampleFree
        = some (.complete res)
      ∧ CopiesOnWrite sampleRequest (sampleRoot 1) sampleFree res := by
  obtain ⟨res, hres, hserved⟩ : ∃ res, execute (P := Platform.sample) (fun _ => true)
      sampleRequest 0 (sampleRoot 1) sampleFree = some (.complete res)
      ∧ (Outcome.complete res).success = true := ⟨_, rfl, by decide⟩
  exact ⟨res, hres, (copiesOnWrite_iff_of_request (sampleRequest_valid (by decide)) hres
    hserved).mpr (by decide)⟩

/-- **The first request of a generation overwrites the root** of the generation
before. -/
theorem not_copiesOnWrite_sample :
    sampleRequest.Valid (sampleRoot 0) sampleFree
      ∧ ∃ res, execute (P := Platform.sample) (fun _ => true) sampleRequest 0 (sampleRoot 0)
          sampleFree = some (.complete res)
        ∧ (Outcome.complete res).success = true
        ∧ (12, res.tree.blockData Platform.sample) ∈ res.state.writes
        ∧ ¬ CopiesOnWrite sampleRequest (sampleRoot 0) sampleFree res := by
  have hvalid : sampleRequest.Valid (sampleRoot 0) sampleFree := sampleRequest_valid (by decide)
  obtain ⟨res, hres, hserved, hpba⟩ : ∃ res, execute (P := Platform.sample) (fun _ => true)
      sampleRequest 0 (sampleRoot 0) sampleFree = some (.complete res)
      ∧ (Outcome.complete res).success = true ∧ res.node.pba = 12 := ⟨_, rfl, by decide, rfl⟩
  obtain ⟨-, hrun⟩ := execute_complete hres
  obtain ⟨hne, -, hout, -⟩ := (executeUpdate_walked (by decide) rfl hrun).busy (by decide)
  exact ⟨hvalid, res, hres, hserved, hpba ▸ hout.written, fun hcopies =>
    absurd (hcopies.root_gen hvalid hne hpba) (by decide)⟩

end Mt

end Cbe
