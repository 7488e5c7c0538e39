import Cbe.NewFreeTreeScan

/-!
# The update of the free tree, step by step

The update visits the nodes that the scan has read. On the stacks it does what
`FtNode.executeUpdate` says (`World.update_ends`): the entries of a level-1 node
are exchanged when the node is on top again, and a node is written, and its
entry put into the node above, when nothing is left below it.

The induction is on the tree again. A node changes its own block, the blocks of
the nodes below and those of the meta tree, so what is left on the stacks is
still in the blocks as the scan has found it, when no two nodes share a block.
`Kept` says this of the time while something below a level is at work,
`NodeDone` of the moment when a node of the level is done. The two compose: what
is done on one level is below for the next one.

A node goes through up to three phases: its block is read and what is below it
put on the stacks; what is below is updated; and, if anything changed there, the
node is written, after a block of the meta tree was exchanged for its own where
it may not be changed in place. Each phase is a lemma about a run of the module
(`UpdateStart.readNode`, `exchange_ends` or `UpdateChildren.next`,
`write_ends`), and `update_leafs` and `update_inner` put them together.
-/

namespace Cbe

open PartialRun

/-- Whether a tree is in the blocks depends on those of its nodes only. This is
what lets a sibling be updated without losing sight of the tree. -/
theorem FtNode.StoredAt.congr {P : FtPlatform} {blocks blocks' : ℕ → P.Block} {tree : FtNode} :
    ∀ {lvl : ℕ} {node : Type1Node}, tree.StoredAt P blocks lvl node →
      (∀ pba ∈ tree.nodePbas node, blocks' pba = blocks pba) →
      tree.StoredAt P blocks' lvl node := by
  induction tree with
  | leafs entries =>
    intro lvl node h heq
    match lvl, h with
    | 1, h => exact (heq _ List.mem_cons_self).trans h
  | inner nodes children ih =>
    intro lvl node h heq
    match lvl, h with
    | lvl + 2, h =>
      refine ⟨(heq _ List.mem_cons_self).trans h.1, fun i hi => ih i (h.2 i hi) fun pba hpba => ?_⟩
      refine heq pba (List.mem_cons_of_mem _ (List.mem_flatMap.mpr ⟨i, ?_, hpba⟩))
      simpa [populateLowerNStack] using hi

namespace NewFreeTree

variable {P : FtPlatform}

/-! ## The exchange

The usable entries of a level-1 node are exchanged with the blocks that the
request returns, for the levels that still need a block, from the lowest one up.
The source does so in a loop over the levels that pops the stack of entries. -/

namespace Object

variable {obj : Object P} {lvl : ℕ} {info : Type1Info} {rest : List Type1Info}

/-- There is nothing to exchange. -/
def ExchangeIdle (obj : Object P) : Prop :=
  obj.level0Stack = [] ∨ ∀ lvl ≤ obj.req.maxLevel, obj.newPbas lvl ≠ 0

/-- The request asks for as many blocks as there are levels without one, those
counted that were exchanged already. The update ends at the right moment for
this reason: when no level is left, the count has reached what was asked for. -/
def WellCounted (obj : Object P) : Prop :=
  obj.exchangedBlocks + (pendingLevels obj.req obj.newPbas).length = obj.req.requestedBlocks

/-- The loop changes nothing when it has no entry or no level to work on. -/
theorem exchangeLeafs_eq_self {lvls : List ℕ}
    (h : obj.level0Stack = [] ∨ ∀ lvl ∈ lvls, obj.newPbas lvl ≠ 0) :
    obj.exchangeLeafs lvls = some obj := by
  induction lvls with
  | nil => rfl
  | cons lvl lvls ih =>
    unfold exchangeLeafs
    by_cases hzero : obj.newPbas lvl = 0
    · rw [if_pos hzero]
      rcases h with h | h
      · rw [h]
      · exact absurd hzero (h lvl List.mem_cons_self)
    · rw [if_neg hzero]
      exact ih (h.imp_right fun h l hl => h l (List.mem_cons_of_mem _ hl))

/-- Without anything to exchange the object stays as it is. -/
theorem ExchangeIdle.exchangeType2Leafs_eq (h : obj.ExchangeIdle) :
    obj.exchangeType2Leafs = some obj :=
  exchangeLeafs_eq_self (h.imp_right fun h lvl hl =>
    h lvl (Nat.lt_succ_iff.mp (List.mem_range.mp hl)))

/-- What the exchange leaves of the object. -/
def exchangedTo (obj : Object P) (entries : Type2NodeBlock) (st : UpdateState P.toPlatform)
    (stack : List Type2Info) : Object P :=
  { obj with
    newPbas := st.newPbas
    exchangedBlocks := st.exchanged
    level0Node := entries
    level0Stack := stack }

/-- An exchange that changes nothing leaves the object. -/
theorem exchangedTo_self {stack : List Type2Info} {entries : Type2NodeBlock}
    {st : UpdateState P.toPlatform} (hlevel0 : obj.level0Stack = stack)
    (hentries : obj.level0Node = entries) (hnew : obj.newPbas = st.newPbas)
    (hex : obj.exchangedBlocks = st.exchanged) : obj.exchangedTo entries st stack = obj := by
  unfold exchangedTo
  rw [← hlevel0, ← hentries, ← hnew, ← hex]

/-- **The exchange on the stack** of usable entries: either the stack is empty
afterwards, or every level has a block. By induction on the levels, with the
stack and the state of the update generalized. -/
theorem exchangeLeafs_spec (lvls : List ℕ) {stack : List (Fin nodesPerBlock)} (obj : Object P)
    (st : UpdateState P.toPlatform) {entries : Type2NodeBlock}
    (hlevel0 : obj.level0Stack = stack.map fun i => { node := entries i, index := i })
    (hentries : obj.level0Node = entries) (hnodup : stack.Nodup)
    (hpba : ∀ i ∈ stack, (entries i).pba ≠ 0) (hnew : obj.newPbas = st.newPbas)
    (hex : obj.exchangedBlocks = st.exchanged) :
    (Cbe.exchangeType2Leafs obj.req lvls stack entries st = none → obj.exchangeLeafs lvls = none)
      ∧ ∀ entries' st',
        Cbe.exchangeType2Leafs obj.req lvls stack entries st = some (entries', st') →
        ∃ stack', obj.exchangeLeafs lvls = some (obj.exchangedTo entries' st' stack')
          ∧ st'.metaPbas = st.metaPbas ∧ st'.writes = st.writes
          ∧ st'.exchanged + stack'.length = st.exchanged + stack.length
          ∧ (∀ lvl, st.newPbas lvl ≠ 0 → st'.newPbas lvl = st.newPbas lvl)
          ∧ (stack' = [] ∨ ∀ lvl ∈ lvls, st'.newPbas lvl ≠ 0) := by
  induction lvls generalizing stack entries obj st with
  | nil =>
    refine ⟨fun h => absurd h (by simp [Cbe.exchangeType2Leafs]), fun entries' st' h => ?_⟩
    obtain ⟨rfl, rfl⟩ := Prod.mk.inj (Option.some.inj h)
    exact ⟨_, congrArg some (exchangedTo_self hlevel0 hentries hnew hex).symm, rfl, rfl, by simp,
      fun _ _ => rfl, Or.inr (by simp)⟩
  | cons lvl lvls ih =>
    unfold Cbe.exchangeType2Leafs exchangeLeafs
    rw [hnew]
    by_cases hzero : st.newPbas lvl = 0
    · rw [if_pos hzero, if_pos hzero]
      cases stack with
      | nil =>
        rw [hlevel0]
        refine ⟨fun h => absurd h (by simp), fun entries' st' h => ?_⟩
        obtain ⟨rfl, rfl⟩ := Prod.mk.inj (Option.some.inj h)
        exact ⟨_, congrArg some (exchangedTo_self hlevel0 hentries hnew hex).symm, rfl, rfl, rfl,
          fun _ _ => rfl, Or.inl rfl⟩
      | cons i stack =>
        obtain ⟨hi, hnodup⟩ := List.nodup_cons.mp hnodup
        have hne : ∀ j ∈ stack, j ≠ i := fun j hj hji => hi (hji ▸ hj)
        rw [hlevel0, List.map_cons]
        dsimp only
        rw [hentries, if_neg (not_not.mpr rfl)]
        cases hnode : exchangeType2Leaf obj.req lvl (entries i) with
        | none => exact ⟨fun _ => rfl, fun entries' st' h => absurd h (by simp)⟩
        | some node =>
          rw [Option.bind_some, Option.bind_some]
          -- the entries left on the stack are not the one that was exchanged
          have hrest : stack.map (fun j => (⟨entries j, j⟩ : Type2Info))
              = stack.map fun j => ⟨Function.update entries i node j, j⟩ :=
            List.map_congr_left fun j hj => by rw [Function.update_of_ne (hne j hj)]
          obtain ⟨hnone, hsome⟩ := ih
            { obj with
              newPbas := Function.update st.newPbas lvl (entries i).pba
              level0Node := Function.update entries i node
              exchangedBlocks := obj.exchangedBlocks + 1
              level0Stack := stack.map fun j => ⟨entries j, j⟩ }
            { st with
              newPbas := Function.update st.newPbas lvl (entries i).pba
              exchanged := st.exchanged + 1 }
            hrest rfl hnodup
            (fun j hj => by
              rw [Function.update_of_ne (hne j hj)]
              exact hpba j (List.mem_cons_of_mem _ hj)) rfl (congrArg (· + 1) hex)
          refine ⟨hnone, fun entries' st' h => ?_⟩
          obtain ⟨stack', hrun, hmeta, hwrites, hlen, hkeep, hdone⟩ := hsome entries' st' h
          dsimp only at hkeep
          have hlvl : st'.newPbas lvl = (entries i).pba := by
            rw [hkeep lvl (by rw [Function.update_self]; exact hpba i List.mem_cons_self),
              Function.update_self]
          refine ⟨stack', hrun, hmeta, hwrites, ?_, fun l hl => ?_,
            hdone.imp_right fun hdone l hl => ?_⟩
          · rw [hlen, List.length_cons]
            exact Nat.add_right_comm _ _ _
          · have hll : l ≠ lvl := fun heq => hl (by rw [heq]; exact hzero)
            rw [hkeep l (by rwa [Function.update_of_ne hll]), Function.update_of_ne hll]
          · rcases List.mem_cons.mp hl with rfl | hl
            · rw [hlvl]
              exact hpba i List.mem_cons_self
            · exact hdone l hl
    · rw [if_neg hzero, if_neg hzero]
      obtain ⟨hnone, hsome⟩ := ih obj st hlevel0 hentries hnodup hpba hnew hex
      refine ⟨hnone, fun entries' st' h => ?_⟩
      obtain ⟨stack', hrun, hmeta, hwrites, hlen, hkeep, hdone⟩ := hsome entries' st' h
      refine ⟨stack', hrun, hmeta, hwrites, hlen, hkeep, hdone.imp_right fun hdone l hl => ?_⟩
      rcases List.mem_cons.mp hl with rfl | hl
      · rw [hkeep l hzero]
        exact hzero
      · exact hdone l hl

/-! ## The update of one node

Between two nodes the module is in a state that `Updating` describes; it ends in
`UpdateComplete` once the root was written. What a node may change is stated
twice, before and after it is done, since the entry in the node above is written
with the last of its steps. -/

/-- **The update works on a level**: what the stack there holds, with nothing
left below. -/
structure Updating (obj : Object P) (lvl : ℕ) (stack : List Type1Info) : Prop where
  /-- The meta tree has nothing to do. -/
  metaTree : obj.metaTreeRequest.state = .invalid
  /-- The update is under way. -/
  state : obj.state = .update
  /-- There is nothing to exchange. -/
  idle : obj.ExchangeIdle
  /-- The stack of the level holds what is left there. -/
  stack : obj.levelNStacks lvl = stack
  /-- Nothing is left below. -/
  below : ∀ l, 1 ≤ l → l < lvl → obj.levelNStacks l = []

/-- The update is over. -/
structure UpdateComplete (obj : Object P) : Prop where
  /-- No request of the module is under way. -/
  idle : obj.Idle
  /-- The update is complete. -/
  state : obj.state = .updateComplete

/-- The update works on the node at hand. -/
theorem executeUpdate_eq (hidle : obj.ExchangeIdle) (hstack : obj.levelNStacks lvl = info :: rest)
    (hbelow : ∀ l, 1 ≤ l → l < lvl → obj.levelNStacks l = []) (h1 : 1 ≤ lvl)
    (h6 : lvl ≤ treeMaxMaxLevel) : obj.executeUpdate = obj.updateNode lvl info rest := by
  have htop : obj.topLevel = some lvl :=
    topLevel_eq h1 h6 (by rw [hstack]; exact List.cons_ne_nil _ _) hbelow
  unfold executeUpdate
  rw [hidle.exchangeType2Leafs_eq, Option.bind_some, htop]
  dsimp only
  rw [hstack]

/-- The update exchanges the entries of the level-1 node at hand first. -/
theorem executeUpdate_exchanged {obj₁ : Object P} (hrun : obj.exchangeType2Leafs = some obj₁)
    (hstack : obj₁.levelNStacks 1 = info :: rest) :
    obj.executeUpdate = obj₁.updateNode 1 info rest := by
  have htop : obj₁.topLevel = some 1 :=
    topLevel_eq (le_refl 1) (by decide) (by rw [hstack]; exact List.cons_ne_nil _ _)
      fun l hl hlt => absurd hl (Nat.not_le.mpr hlt)
  unfold executeUpdate
  rw [hrun, Option.bind_some, htop]
  dsimp only
  rw [hstack]

/-- The step of the world that comes from it. -/
theorem Updating.step_setObj {w : World P} (h : obj.Updating lvl (info :: rest))
    (hcache : obj.cacheRequest.state ≠ .pending) (h1 : 1 ≤ lvl) (h6 : lvl ≤ treeMaxMaxLevel) :
    (w.setObj obj).step = (obj.updateNode lvl info rest).map w.setObj := by
  rw [World.step_setObj (by rw [h.metaTree]; decide) hcache]
  unfold execute
  rw [h.state]
  dsimp only
  rw [executeUpdate_eq h.idle h.stack h.below h1 h6]

/-- The step of a world whose module is updating. -/
theorem Updating.step_eq {w : World P} (h : w.obj.Updating lvl (info :: rest))
    (hcache : w.obj.cacheRequest.state ≠ .pending) (h1 : 1 ≤ lvl) (h6 : lvl ≤ treeMaxMaxLevel) :
    w.step = (w.obj.updateNode lvl info rest).map w.setObj := h.step_setObj hcache h1 h6

end Object

namespace World

variable {w t u : World P} {lvl : ℕ} {info : Type1Info} {rest : List Type1Info}
  {pbas : List ℕ} {node' : Type1Node} {index : Fin nodesPerBlock}

/-- In the state of the update the world takes a step of the update. -/
theorem step_update (hmeta : w.obj.metaTreeRequest.state ≠ .pending)
    (hcache : w.obj.cacheRequest.state ≠ .pending) (hstate : w.obj.state = .update) :
    w.step = w.obj.executeUpdate.map w.setObj := by
  rw [step_execute hmeta hcache]
  unfold Object.execute
  rw [hstate]

/-- What the world has of the state that the update carries along. -/
def updateState (w : World P) : UpdateState P.toPlatform where
  newPbas := w.obj.newPbas
  exchanged := w.obj.exchangedBlocks
  metaPbas := w.metaPbas
  writes := w.writes

/-- **Nothing but what is below a level was changed**, in some blocks and those
of the meta tree. -/
structure Kept (w : World P) (lvl : ℕ) (pbas : List ℕ) (t : World P) : Prop where
  /-- The request is the same. -/
  req : t.obj.req = w.obj.req
  /-- So is the level of the root. -/
  maxLevel : t.obj.maxLevel = w.obj.maxLevel
  /-- So is the root. -/
  rootNode : t.obj.rootNode = w.obj.rootNode
  /-- So is what is left above the level. -/
  upper : ∀ l, lvl < l → t.obj.levelNStacks l = w.obj.levelNStacks l
  /-- So are the nodes from the level up. -/
  nodes : ∀ l, lvl ≤ l → t.obj.levelNNodes l = w.obj.levelNNodes l
  /-- Only some blocks and those of the meta tree have changed. -/
  blocks : ∀ pba, pba ∉ pbas → pba ∉ w.metaPbas → t.blocks pba = w.blocks pba
  /-- The meta tree has no block that it had not before. -/
  metaPbas : ∀ pba ∈ t.metaPbas, pba ∈ w.metaPbas

/-- **A node of a level is done**: its entry in the node above, or the root, is
a new one, and nothing else above was changed. -/
structure NodeDone (w : World P) (lvl : ℕ) (index : Fin nodesPerBlock) (pbas : List ℕ)
    (node' : Type1Node) (t : World P) : Prop where
  /-- The request is the same. -/
  req : t.obj.req = w.obj.req
  /-- So is the level of the root. -/
  maxLevel : t.obj.maxLevel = w.obj.maxLevel
  /-- So is what is left above the level. -/
  upper : ∀ l, lvl < l → t.obj.levelNStacks l = w.obj.levelNStacks l
  /-- So are the nodes above it. -/
  nodes : ∀ l, lvl < l → t.obj.levelNNodes l = w.obj.levelNNodes l
  /-- Below the root, the entry of the node is a new one. -/
  entry : lvl < w.obj.maxLevel →
    t.obj.levelNNodes lvl = Function.update (w.obj.levelNNodes lvl) index node'
      ∧ t.obj.rootNode = w.obj.rootNode
  /-- At the root, the root is. -/
  root : lvl = w.obj.maxLevel → t.obj.rootNode = node'
  /-- Only some blocks and those of the meta tree have changed. -/
  blocks : ∀ pba, pba ∉ pbas → pba ∉ w.metaPbas → t.blocks pba = w.blocks pba
  /-- The meta tree has no block that it had not before. -/
  metaPbas : ∀ pba ∈ t.metaPbas, pba ∈ w.metaPbas

/-- At first nothing was changed. -/
theorem Kept.refl (w : World P) (lvl : ℕ) (pbas : List ℕ) : Kept w lvl pbas w :=
  ⟨rfl, rfl, rfl, fun _ _ => rfl, fun _ _ => rfl, fun _ _ _ => rfl, fun _ h => h⟩

/-- What was changed below a level, in two stretches. -/
theorem Kept.trans {pbas' : List ℕ} (h : Kept w lvl pbas t) (h' : Kept t lvl pbas' u)
    (hsub : ∀ pba ∈ pbas', pba ∈ pbas) : Kept w lvl pbas u where
  req := h'.req.trans h.req
  maxLevel := h'.maxLevel.trans h.maxLevel
  rootNode := h'.rootNode.trans h.rootNode
  upper l hl := (h'.upper l hl).trans (h.upper l hl)
  nodes l hl := (h'.nodes l hl).trans (h.nodes l hl)
  blocks pba hpba hmeta := (h'.blocks pba (fun hp => hpba (hsub pba hp))
    fun hm => hmeta (h.metaPbas pba hm)).trans (h.blocks pba hpba hmeta)
  metaPbas pba hm := h.metaPbas pba (h'.metaPbas pba hm)

/-- The end of a node, after what was done below it. -/
theorem Kept.done {pbas' : List ℕ} (h : Kept w lvl pbas t)
    (h' : NodeDone t lvl index pbas' node' u)
    (hsub : ∀ pba ∈ pbas', pba ∈ pbas ∨ pba ∈ w.metaPbas) :
    NodeDone w lvl index pbas node' u where
  req := h'.req.trans h.req
  maxLevel := h'.maxLevel.trans h.maxLevel
  upper l hl := (h'.upper l hl).trans (h.upper l hl)
  nodes l hl := (h'.nodes l hl).trans (h.nodes l hl.le)
  entry hl := by
    obtain ⟨hnodes, hroot⟩ := h'.entry (by rwa [h.maxLevel])
    exact ⟨by rw [hnodes, h.nodes lvl (le_refl lvl)], hroot.trans h.rootNode⟩
  root hl := h'.root (by rwa [h.maxLevel])
  blocks pba hpba hmeta := (h'.blocks pba (fun hp => (hsub pba hp).elim hpba hmeta)
    fun hm => hmeta (h.metaPbas pba hm)).trans (h.blocks pba hpba hmeta)
  metaPbas pba hm := h.metaPbas pba (h'.metaPbas pba hm)

/-- For the level above, a node that is done is below. This is how the lemmas of
one level are used on the next. -/
theorem NodeDone.kept (h : NodeDone w lvl index pbas node' t) (hlvl : lvl < w.obj.maxLevel) :
    Kept w (lvl + 1) pbas t where
  req := h.req
  maxLevel := h.maxLevel
  rootNode := (h.entry hlvl).2
  upper l hl := h.upper l (Nat.lt_of_succ_lt hl)
  nodes l hl := h.nodes l hl
  blocks := h.blocks
  metaPbas := h.metaPbas

/-- A node that was not written keeps its entry. -/
theorem Kept.unwritten {node : Type1Node} (h : Kept w lvl pbas t)
    (hentry : lvl < w.obj.maxLevel → w.obj.levelNNodes lvl index = node)
    (hroot : lvl = w.obj.maxLevel → w.obj.rootNode = node) :
    NodeDone w lvl index pbas node t where
  req := h.req
  maxLevel := h.maxLevel
  upper := h.upper
  nodes l hl := h.nodes l hl.le
  entry hl := by
    rw [← hentry hl, Function.update_eq_self]
    exact ⟨h.nodes lvl (le_refl lvl), h.rootNode⟩
  root hl := h.rootNode.trans (hroot hl)
  blocks := h.blocks
  metaPbas := h.metaPbas

/-- **What becomes of the update at the end of a node.** Below the root it goes
on with the rest of the level, or leaves it at once if enough was exchanged; at
the root it is complete. -/
structure UpdateEnd (w : World P) (lvl : ℕ) (index : Fin nodesPerBlock) (rest : List Type1Info)
    (pbas : List ℕ) (node' : Type1Node) (t : World P) : Prop where
  /-- The node is done. -/
  done : NodeDone w lvl index pbas node' t
  /-- Below the root, the update goes on with the rest of the level, if there is
  need. -/
  next : lvl < w.obj.maxLevel →
    t.obj.Updating lvl (if t.obj.exchangeFinished then [] else rest)
      ∧ t.obj.cacheRequest.state = .invalid
  /-- At the root it is complete. -/
  last : lvl = w.obj.maxLevel → t.obj.exchangeFinished → t.obj.UpdateComplete

/-- **The update leaves a node** that it is done with. -/
theorem NodeDone.leave (h : NodeDone w lvl index pbas node' t)
    (ht : t.obj.Updating lvl (info :: rest)) (hcache : t.obj.cacheRequest.state ≠ .pending)
    (hcomplete : info.state = .complete) (h1 : 1 ≤ lvl) (h6 : lvl ≤ treeMaxMaxLevel) :
    ∃ u, t.step = some u ∧ UpdateEnd w lvl index rest pbas node' u
      ∧ u.updateState = t.updateState ∧ u.reads = t.reads := by
  set stack : List Type1Info := if t.obj.exchangeFinished then [] else rest with hstack
  set obj := t.obj.dropCache.setStack lvl stack with hobj
  have hupper : ∀ l, lvl < l → obj.levelNStacks l = w.obj.levelNStacks l := fun l hl =>
    (Function.update_of_ne hl.ne' _ _).trans (h.upper l hl)
  have hstep : t.step = some (t.setObj
      (if t.obj.exchangeFinished ∧ lvl = t.obj.maxLevel then { obj with state := .updateComplete }
        else obj)) := by
    rw [ht.step_eq hcache h1 h6]
    unfold Object.updateNode
    rw [hcomplete]
    show (if t.obj.exchangeFinished ∧ lvl = t.obj.maxLevel then
      some { obj with state := .updateComplete } else some obj).map t.setObj = _
    by_cases hover : t.obj.exchangeFinished ∧ lvl = t.obj.maxLevel
    · rw [if_pos hover, if_pos hover]
      rfl
    · rw [if_neg hover, if_neg hover]
      rfl
  have hobj_next : obj.Updating lvl stack :=
    ⟨ht.metaTree, ht.state, ht.idle, Function.update_self _ _ _, fun l hl hlt =>
      (Function.update_of_ne hlt.ne _ _).trans (ht.below l hl hlt)⟩
  by_cases hover : t.obj.exchangeFinished ∧ lvl = t.obj.maxLevel
  · rw [if_pos hover] at hstep
    refine ⟨_, hstep, ⟨⟨h.req, h.maxLevel, hupper, h.nodes, h.entry, h.root, h.blocks, h.metaPbas⟩,
      fun hlt => absurd (hover.2.trans h.maxLevel) hlt.ne, fun _ _ => ⟨⟨rfl, ht.metaTree⟩, rfl⟩⟩,
      rfl, rfl⟩
  · rw [if_neg hover] at hstep
    refine ⟨_, hstep, ⟨⟨h.req, h.maxLevel, hupper, h.nodes, h.entry, h.root, h.blocks, h.metaPbas⟩,
      fun _ => ⟨hobj_next, rfl⟩, fun heq hfin => absurd ⟨hfin, heq.trans h.maxLevel.symm⟩ hover⟩,
      rfl, rfl⟩

/-- The end of a node, after what was done below it. -/
theorem Kept.updateEnd {pbas' : List ℕ} (h : Kept w lvl pbas t)
    (h' : UpdateEnd t lvl index rest pbas' node' u)
    (hsub : ∀ pba ∈ pbas', pba ∈ pbas ∨ pba ∈ w.metaPbas) :
    UpdateEnd w lvl index rest pbas node' u where
  done := h.done h'.done hsub
  next hl := h'.next (by rwa [h.maxLevel])
  last hl := h'.last (by rwa [h.maxLevel])

/-- The new entry of a node that is written. -/
def writtenNode (obj : Object P) (lvl : ℕ) (info : Type1Info) : Type1Node where
  pba := info.node.pba
  gen := obj.req.currentGen
  hash := P.hash (obj.blockOfLevel lvl)

/-- The entry of a node that is written goes into the node above, or becomes the
root. -/
theorem writeNode_eq (obj : Object P) (lvl : ℕ) (info : Type1Info) :
    obj.writeNode lvl info
      = { obj with
          rootNode := if 2 ≤ lvl ∧ obj.maxLevel ≤ lvl then writtenNode obj lvl info
            else obj.rootNode
          levelNNodes := if 2 ≤ lvl ∧ obj.maxLevel ≤ lvl then obj.levelNNodes
            else Function.update obj.levelNNodes lvl
              (Function.update (obj.levelNNodes lvl) info.index (writtenNode obj lvl info))
          cacheBlockData := obj.blockOfLevel lvl
          cacheRequest :=
            { state := .pending, op := .write, lvl := lvl, pba := info.node.pba } } := by
  unfold Object.writeNode
  dsimp only
  split_ifs <;> rfl

/-- The world with the block of a node written. -/
def written (w : World P) (obj : Object P) (lvl : ℕ) (info : Type1Info) (rest : List Type1Info) :
    World P :=
  { w with
    blocks := Function.update w.blocks info.node.pba (obj.blockOfLevel lvl)
    writes := w.writes ++ [(info.node.pba, obj.blockOfLevel lvl)]
    obj :=
      { (obj.writeNode lvl info).setStack lvl ({ info with state := .complete } :: rest) with
        cacheRequest := { state := .complete, op := .write, lvl := lvl, pba := info.node.pba } } }

/-- The node is done when it was written. -/
theorem nodeDone_written {obj : Object P} (h2 : 2 ≤ obj.maxLevel)
    (hmax : lvl ≤ obj.maxLevel) :
    NodeDone (w.setObj obj) lvl info.index [info.node.pba] (writtenNode obj lvl info)
      (w.written obj lvl info rest) := by
  have hroot : (2 ≤ lvl ∧ obj.maxLevel ≤ lvl) ↔ lvl = obj.maxLevel :=
    ⟨fun h => Nat.le_antisymm hmax h.2, fun h => ⟨by rw [h]; exact h2, h.ge⟩⟩
  unfold written
  rw [writeNode_eq]
  simp only [hroot]
  refine ⟨rfl, rfl, fun l hl => Function.update_of_ne hl.ne' _ _, fun l hl => ?_,
    fun hl => ⟨?_, ?_⟩, fun hl => ?_, fun pba hpba _ => ?_, fun pba hpba => hpba⟩
  · show (if lvl = obj.maxLevel then obj.levelNNodes else _) l = obj.levelNNodes l
    split_ifs
    · rfl
    · exact Function.update_of_ne hl.ne' _ _
  · show (if lvl = obj.maxLevel then obj.levelNNodes else _) lvl = _
    rw [if_neg (show ¬ lvl = obj.maxLevel from hl.ne), Function.update_self]
    rfl
  · show (if lvl = obj.maxLevel then _ else obj.rootNode) = obj.rootNode
    rw [if_neg (show ¬ lvl = obj.maxLevel from hl.ne)]
  · show (if lvl = obj.maxLevel then _ else obj.rootNode) = _
    rw [if_pos (show lvl = obj.maxLevel from hl)]
  · exact Function.update_of_ne (fun heq => hpba (by rw [heq]; exact List.mem_singleton_self _)) _ _

/-- **The write-out of a node**, up to the next one. -/
theorem write_out {obj : Object P} (h : obj.Updating lvl (info :: rest)) (h1 : 1 ≤ lvl)
    (h6 : lvl ≤ treeMaxMaxLevel) (h2 : 2 ≤ obj.maxLevel) (hmax : lvl ≤ obj.maxLevel) :
    ∃ u, Leads step (Working .update) (w.setObj (obj.writeNode lvl info)) u
      ∧ UpdateEnd (w.setObj obj) lvl info.index rest [info.node.pba] (writtenNode obj lvl info) u
      ∧ u.updateState = { (w.setObj obj).updateState with
          writes := w.writes ++ [(info.node.pba, obj.blockOfLevel lvl)] }
      ∧ u.reads = w.reads := by
  have hstate : (obj.writeNode lvl info).state = .update := by
    rw [writeNode_eq]
    exact h.state
  have hserve : (w.setObj (obj.writeNode lvl info)).step = some (w.written obj lvl info rest) := by
    rw [step_serveCache (by rw [setObj_obj, writeNode_eq, h.metaTree]; decide)
      (by rw [setObj_obj, writeNode_eq])]
    unfold serveCache written
    rw [setObj_obj, writeNode_eq]
    dsimp only
    rw [h.stack]
    rfl
  have hupdating : (w.written obj lvl info rest).obj.Updating lvl
      ({ info with state := .complete } :: rest) := by
    unfold written
    rw [writeNode_eq]
    exact ⟨h.metaTree, h.state, h.idle, Function.update_self _ _ _, fun l hl hlt =>
      (Function.update_of_ne hlt.ne _ _).trans (h.below l hl hlt)⟩
  obtain ⟨u, hu, hend, hst, hreads⟩ := (nodeDone_written h2 hmax).leave hupdating
    (by simp [written]) rfl h1 h6
  refine ⟨u, .head (Or.inl hstate) hserve (.single (Or.inl hupdating.state) hu), hend, ?_, hreads⟩
  rw [hst]
  unfold written
  rw [writeNode_eq]
  rfl

/-- **The write phase of a node.** A node that may not be changed in place gets
a block of the meta tree first; where the meta tree has none, the module raises.
-/
theorem write_ends (obj : Object P) (tree : FtNode) (hw : w.obj.state = .update)
    (hstep : w.step = (obj.updateNode lvl info rest).map w.setObj)
    (h : obj.Updating lvl (info :: rest)) (hcache : obj.cacheRequest.state = .invalid)
    (hwrite : info.state = .write)
    (hvol : info.volatile = decide (nodeVolatile info.node obj.req.currentGen))
    (h1 : 1 ≤ lvl) (h6 : lvl ≤ treeMaxMaxLevel) (h2 : 2 ≤ obj.maxLevel) (hmax : lvl ≤ obj.maxLevel)
    (hblk : obj.blockOfLevel lvl = tree.blockData P.toPlatform) :
    Ends step (Working .update) w (writeNode obj.req tree info.node (w.setObj obj).updateState)
      fun r u => UpdateEnd (w.setObj obj) lvl info.index rest [info.node.pba] r.1 u
        ∧ u.updateState = r.2 ∧ u.obj.newPbas = obj.newPbas
        ∧ u.obj.exchangedBlocks = obj.exchangedBlocks ∧ u.reads = w.reads := by
  unfold Object.updateNode at hstep
  rw [hwrite] at hstep
  dsimp only at hstep
  unfold Cbe.writeNode
  rw [hvol] at hstep
  by_cases hvolatile : nodeVolatile info.node obj.req.currentGen
  · rw [if_pos (by simpa using hvolatile)] at hstep
    rw [if_pos hvolatile]
    refine Ends.step (Or.inl hw) hstep ?_
    obtain ⟨u, hu, hend, hst, hreads⟩ := write_out (w := w) h h1 h6 h2 hmax
    refine Ends.returns hu ⟨?_, ?_, ?_, ?_, hreads⟩
    · rw [← hblk]
      exact hend
    · rw [hst, ← hblk]
      rfl
    · exact congrArg UpdateState.newPbas hst
    · exact congrArg UpdateState.exchanged hst
  · rw [if_neg (by simpa using hvolatile), h.metaTree] at hstep
    rw [if_neg hvolatile]
    dsimp only at hstep
    -- the meta tree is asked for a block
    refine Ends.step (Or.inl hw) hstep ?_
    set asked := { obj with
        metaTreeRequest := { state := RequestState.pending, pba := info.node.pba } }
      with hasked
    have hserve : (w.setObj asked).step = (w.setObj asked).serveMetaTree := by
      unfold step
      rw [if_pos (show (w.setObj asked).obj.metaTreeRequest.state = .pending from rfl)]
    have hstate : (w.setObj asked).obj.state = .update := h.state
    have hmetas : (w.setObj obj).updateState.metaPbas = w.metaPbas := rfl
    rw [hmetas]
    unfold serveMetaTree at hserve
    rw [show (w.setObj asked).metaPbas = w.metaPbas from rfl] at hserve
    cases hmeta : w.metaPbas with
    | nil =>
      rw [hmeta] at hserve
      exact Ends.raise (Or.inl hstate) hserve
    | cons pba metaPbas =>
      rw [hmeta] at hserve
      refine Ends.step (Or.inl hstate) hserve ?_
      set w₁ : World P := { w with
        metaPbas := metaPbas
        obj := { asked with metaTreeRequest := { state := .complete, pba := pba } } } with hw₁
      set info₁ : Type1Info := { info with
        state := .write
        volatile := true
        node := { info.node with pba := pba } } with hinfo₁
      set obj₁ : Object P := { obj.setStack lvl (info₁ :: rest) with
        metaTreeRequest := { state := .invalid, pba := pba } } with hobj₁
      have hserved : w₁.step = some (w₁.setObj (obj₁.writeNode lvl info₁)) := by
        rw [step_execute (show w₁.obj.metaTreeRequest.state ≠ _ by simp [hw₁])
          (show obj.cacheRequest.state ≠ _ by rw [hcache]; decide)]
        unfold Object.execute
        rw [show w₁.obj.state = .update from h.state]
        dsimp only
        rw [Object.executeUpdate_eq (show w₁.obj.ExchangeIdle from h.idle) h.stack h.below h1 h6]
        unfold Object.updateNode
        rw [hwrite, hvol]
        dsimp only
        rw [if_neg (by simpa using hvolatile)]
        rfl
      have hupdating : obj₁.Updating lvl (info₁ :: rest) :=
        ⟨rfl, h.state, h.idle, Function.update_self _ _ _, fun l hl hlt =>
          (Function.update_of_ne hlt.ne _ _).trans (h.below l hl hlt)⟩
      refine Ends.step (Or.inl h.state) hserved ?_
      obtain ⟨u, hu, hend, hst, hreads⟩ := write_out (w := w₁) hupdating h1 h6 h2 hmax
      have hkept : Kept (w.setObj obj) lvl [info.node.pba] (w₁.setObj obj₁) :=
        ⟨rfl, rfl, rfl, fun l hl => Function.update_of_ne hl.ne' _ _, fun _ _ => rfl,
          fun _ _ _ => rfl, fun p hp => by
            show p ∈ w.metaPbas
            rw [hmeta]
            exact List.mem_cons_of_mem _ hp⟩
      have hblk₁ : obj₁.blockOfLevel lvl = tree.blockData P.toPlatform := hblk
      refine Ends.returns hu ⟨?_, ?_, ?_, ?_, hreads⟩
      · rw [← hblk₁]
        refine hkept.updateEnd hend fun p hp => Or.inr ?_
        show p ∈ w.metaPbas
        rw [hmeta, List.mem_singleton.mp hp]
        exact List.mem_cons_self
      · rw [hst, ← hblk₁]
        rfl
      · exact congrArg UpdateState.newPbas hst
      · exact congrArg UpdateState.exchanged hst

/-- **The update works on a node** that no block was asked for yet, with a tree
below it that is in the blocks and shares none with itself or the meta tree. -/
structure UpdateStart (tree : FtNode) (w : World P) (lvl : ℕ) (node : Type1Node)
    (index : Fin nodesPerBlock) (rest : List Type1Info) : Prop where
  /-- The node is on top of the stack of its level. -/
  updating : w.obj.Updating lvl (newInfo w.obj.req.currentGen node index :: rest)
  /-- The cache has nothing to do. -/
  cache : w.obj.cacheRequest.state = .invalid
  /-- As many blocks are missing as levels without one. -/
  counted : w.obj.WellCounted
  /-- Some are missing. -/
  unfinished : w.obj.exchangedBlocks < w.obj.req.requestedBlocks
  /-- The node is not a leaf. -/
  pos : 1 ≤ lvl
  /-- Its level is one that a tree may have. -/
  le : lvl ≤ treeMaxMaxLevel
  /-- The root is at level two at least. -/
  two : 2 ≤ w.obj.maxLevel
  /-- The node is not above it. -/
  max : lvl ≤ w.obj.maxLevel
  /-- Below the root, it is an entry of the node above. -/
  entry : lvl < w.obj.maxLevel → w.obj.levelNNodes lvl index = node
  /-- At the root, it is the root. -/
  root : lvl = w.obj.maxLevel → w.obj.rootNode = node
  /-- The tree below it is in the blocks. -/
  stored : tree.StoredAt P w.blocks lvl node
  /-- No block of it is used twice. -/
  nodup : (tree.nodePbas node).Nodup
  /-- None is one of the meta tree. -/
  fresh : ∀ pba ∈ w.metaPbas, pba ∉ tree.nodePbas node

/-- **The update of a node as a whole**: it has the outcome of the tree, and it
has read the nodes that the scan reads. -/
structure UpdateOf (tree : FtNode) (w : World P) (lvl : ℕ) (node : Type1Node)
    (index : Fin nodesPerBlock) (rest : List Type1Info)
    (r : FtNode × Type1Node × UpdateState P.toPlatform) (u : World P) : Prop where
  /-- The node is done, as its tree is. -/
  end_ : UpdateEnd w lvl index rest (tree.nodePbas node) r.2.1 u
  /-- What is carried along is that of the tree. -/
  updateState : u.updateState = r.2.2
  /-- As many blocks are missing as levels without one. -/
  counted : u.obj.WellCounted
  /-- So many entries were exchanged as the scan finds, up to the number
  requested. -/
  exchanged : u.obj.exchangedBlocks
    = min (tree.visit w.obj.req node (w.obj.exchangedBlocks, w.reads)).1 w.obj.req.requestedBlocks
  /-- So many nodes were read as the scan reads. -/
  reads : u.reads = (tree.visit w.obj.req node (w.obj.exchangedBlocks, w.reads)).2

/-- The object once the children or the entries of the node at hand are at hand,
too. -/
def loadedBelow (w : World P) (lvl : ℕ) (info : Type1Info) (rest : List Type1Info) : Object P :=
  ((w.available lvl info rest).obj.dropCache.populate lvl).keepNodes lvl

/-- What the node at hand waits for then. -/
def loadedState (w : World P) (lvl : ℕ) (info : Type1Info) (rest : List Type1Info) : InfoState :=
  if (w.loadedBelow lvl info rest).lowerEmpty lvl then .complete else .write

/-- The object with the node at hand read, and what is below it on the stacks.
-/
def loaded (w : World P) (lvl : ℕ) (info : Type1Info) (rest : List Type1Info) : Object P :=
  (w.loadedBelow lvl info rest).setStack lvl
    ({ info with state := w.loadedState lvl info rest } :: rest)

section

variable {tree : FtNode} {node : Type1Node}

/-- Once its block was delivered, the node is still the one at hand. -/
theorem UpdateStart.available (h : UpdateStart tree w lvl node index rest) :
    (w.available lvl (newInfo w.obj.req.currentGen node index) rest).obj.Updating lvl
      ({ newInfo w.obj.req.currentGen node index with state := .available } :: rest) where
  metaTree := h.updating.metaTree
  state := h.updating.state
  idle := h.updating.idle
  stack := Function.update_self _ _ _
  below l h1 hl := (Function.update_of_ne hl.ne _ _).trans (h.updating.below l h1 hl)

/-- The update begins with the read of the node, and takes in what is below. -/
theorem UpdateStart.readNode {α : Type*} {o : Option α} {Q : α → World P → Prop}
    (h : UpdateStart tree w lvl node index rest)
    (hblk : w.blocks node.pba = tree.blockData P.toPlatform)
    (hnext : ∀ info, info = newInfo w.obj.req.currentGen node index →
      Ends step (Working .update)
        ((w.available lvl info rest).setObj (w.loaded lvl info rest)) o Q) :
    Ends step (Working .update) w
      (if checkNodeHash P.toPlatform tree node then o else none) Q := by
  refine World.readNode h.updating.state
    (by rw [h.updating.metaTree]; decide) h.updating.stack ?_ hblk fun _ => ?_
  · rw [h.updating.step_eq (by rw [h.cache]; decide) h.pos h.le]
    unfold Object.updateNode
    dsimp only [newInfo]
    rw [if_neg (not_not.mpr h.cache)]
    rfl
  · refine Ends.step (Or.inl h.available.state) ?_ (hnext _ rfl)
    rw [h.available.step_eq (by simp [World.available]) h.pos h.le]
    rfl

/-- The numbers of blocks agree as long as the exchange changes nothing. -/
theorem wellCounted_of_eq {obj obj' : Object P} (h : obj.WellCounted) (hreq : obj'.req = obj.req)
    (hnew : obj'.newPbas = obj.newPbas) (hex : obj'.exchangedBlocks = obj.exchangedBlocks) :
    obj'.WellCounted := by
  unfold Object.WellCounted at h ⊢
  rw [hreq, hnew, hex]
  exact h

/-- The object with the entries of a level-1 node at hand. -/
def leafsLoaded (w : World P) (info : Type1Info) (rest : List Type1Info) (entries : Type2NodeBlock)
    (state : InfoState) : Object P :=
  { (w.available 1 info rest).obj.dropCache with
    level0Stack := Object.level0Infos w.obj.req entries
    level0Node := entries
    levelNStacks := Function.update w.obj.levelNStacks 1 ({ info with state := state } :: rest) }

/-- The level-1 node is still on top. -/
theorem leafsLoaded_stack {entries : Type2NodeBlock} {state : InfoState} :
    (w.leafsLoaded info rest entries state).levelNStacks 1
      = { info with state := state } :: rest := by
  simp [leafsLoaded]

/-- A level-1 node has its usable entries at hand once it was read. -/
theorem loaded_leafs {entries : Type2NodeBlock}
    (hentries : P.type2NodeBlockFromBlockData (w.blocks info.node.pba) = entries) :
    w.loaded 1 info rest = w.leafsLoaded info rest entries
      (if populateLevel0Stack w.obj.req entries = [] then .complete else .write) := by
  have hempty : (w.loadedBelow 1 info rest).lowerEmpty 1 = true
      ↔ populateLevel0Stack w.obj.req entries = [] := by
    simp [loadedBelow, Object.keepNodes, Object.populate, Object.lowerEmpty, Object.dropCache,
      Object.setStack, World.available, Object.level0Infos, hentries]
  unfold loaded loadedState
  simp only [hempty]
  simp [loadedBelow, leafsLoaded, Object.keepNodes, Object.populate, Object.dropCache,
    Object.setStack, World.available, hentries, Function.update_idem]

/-- **The exchange and the write-out** of a level-1 node with usable entries. As
many of them are exchanged as the request still asks for, which may be fewer
than there are. -/
theorem exchange_ends (info : Type1Info) (rest : List Type1Info) {entries : Type2NodeBlock}
    {stack : List (Fin nodesPerBlock)}
    (hstate : t.obj.state = .update) (hmeta : t.obj.metaTreeRequest.state = .invalid)
    (hcache : t.obj.cacheRequest.state = .invalid)
    (hstack : t.obj.levelNStacks 1 = info :: rest) (hwrite : info.state = .write)
    (hvol : info.volatile = decide (nodeVolatile info.node t.obj.req.currentGen))
    (hlevel0 : t.obj.level0Stack = stack.map fun i => { node := entries i, index := i })
    (hentries : t.obj.level0Node = entries) (hnodup : stack.Nodup)
    (husable : ∀ i ∈ stack, checkType2LeafUsable t.obj.req (entries i))
    (hcounted : t.obj.WellCounted) (h2 : 2 ≤ t.obj.maxLevel) :
    Ends step (Working .update) t
      ((Cbe.exchangeType2Leafs t.obj.req (List.range (t.obj.req.maxLevel + 1)) stack entries
        t.updateState).bind fun r => (writeNode t.obj.req (.leafs r.1) info.node r.2).map
          fun s => (FtNode.leafs r.1, s.1, s.2))
      fun r u => UpdateEnd t 1 info.index rest [info.node.pba] r.2.1 u ∧ u.updateState = r.2.2
        ∧ u.obj.WellCounted
        ∧ u.obj.exchangedBlocks
          = min (t.obj.exchangedBlocks + stack.length) t.obj.req.requestedBlocks
        ∧ u.reads = t.reads := by
  obtain ⟨hnone, hsome⟩ := Object.exchangeLeafs_spec
    (List.range (t.obj.req.maxLevel + 1)) t.obj t.updateState hlevel0 hentries hnodup
    (fun j hj => (husable j hj).1) rfl rfl
  have hstep : t.step = t.obj.executeUpdate.map t.setObj :=
    step_update (by rw [hmeta]; decide) (by rw [hcache]; decide) hstate
  cases hexch : Cbe.exchangeType2Leafs t.obj.req (List.range (t.obj.req.maxLevel + 1)) stack
    entries t.updateState with
  | none =>
    refine Ends.raise (Or.inl hstate) ?_
    rw [hstep]
    unfold Object.executeUpdate Object.exchangeType2Leafs
    rw [hnone hexch]
    rfl
  | some r =>
    obtain ⟨entries', st'⟩ := r
    obtain ⟨left, hrun, hmetas, hwrites, hlen, -, hdone⟩ := hsome entries' st' hexch
    obtain ⟨served, hfilter, hserved, -⟩ :=
      exchangeType2Leafs_spec hexch List.nodup_range hnodup husable
    set obj := t.obj.exchangedTo entries' st' left with hobj
    have hupdating : obj.Updating 1 (info :: rest) :=
      ⟨hmeta, hstate, hdone.imp_right fun hdone l hl =>
        hdone l (List.mem_range.mpr (Nat.lt_succ_of_le hl)), hstack,
        fun l hl hlt => absurd hl (Nat.not_le.mpr hlt)⟩
    have hst : (t.setObj obj).updateState = st' := by
      rw [show st' = ⟨st'.newPbas, st'.exchanged, st'.metaPbas, st'.writes⟩ from rfl, hmetas,
        hwrites]
      rfl
    have hends := write_ends obj (.leafs entries') hstate
      (hstep.trans (by rw [Object.executeUpdate_exchanged hrun hstack])) hupdating hcache hwrite
      hvol (le_refl 1) (by decide) h2 (Nat.le_of_succ_le h2) rfl
    rw [hst] at hends
    have hcounted' : st'.exchanged + (pendingLevels t.obj.req st'.newPbas).length
        = t.obj.req.requestedBlocks := by
      have hpending : pendingLevels t.obj.req t.obj.newPbas
          = served ++ pendingLevels t.obj.req st'.newPbas := hfilter
      rw [← hcounted, hserved, hpending, List.length_append, Nat.add_assoc]
      rfl
    have hkept : Kept t 1 [info.node.pba] (t.setObj obj) :=
      ⟨rfl, rfl, rfl, fun _ _ => rfl, fun _ _ => rfl, fun _ _ _ => rfl, fun _ h => h⟩
    rw [Option.bind_some, Option.map_eq_bind]
    refine Ends.bind hends fun r u hu => ?_
    obtain ⟨hend, hust, hunew, huex, hureads⟩ := hu
    have hend' := hkept.updateEnd hend fun p hp => Or.inl hp
    refine Ends.ret ⟨hend', hust, ?_, ?_, hureads⟩
    · unfold Object.WellCounted
      rw [hend'.done.req, hunew, huex]
      exact hcounted'
    · rw [huex]
      show st'.exchanged = _
      have hex : t.updateState.exchanged = t.obj.exchangedBlocks := rfl
      rw [hex] at hlen
      rcases hdone with rfl | hdone
      · -- every usable entry was exchanged
        rw [← hlen, List.length_nil, Nat.add_zero]
        exact (Nat.min_eq_left (by omega)).symm
      · -- every level has a block
        have hnil : pendingLevels t.obj.req st'.newPbas = [] := by
          rw [List.eq_nil_iff_forall_not_mem]
          intro l hl
          obtain ⟨hle, hzero⟩ := mem_pendingLevels.mp hl
          exact hdone l (List.mem_range.mpr (Nat.lt_succ_of_le hle)) hzero
        rw [hnil, List.length_nil, Nat.add_zero] at hcounted'
        exact hcounted'.trans (Nat.min_eq_right (by omega)).symm

/-- A node with nothing to do below it is left as it is. -/
theorem UpdateStart.unwritten {tree : FtNode} (h : UpdateStart tree w lvl node index rest)
    (hkept : Kept w lvl (tree.nodePbas node) t) (ht : t.obj.Updating lvl (info :: rest))
    (hcache : t.obj.cacheRequest.state ≠ .pending) (hcomplete : info.state = .complete)
    (hst : t.updateState = w.updateState)
    (hvisit : tree.visit w.obj.req node (w.obj.exchangedBlocks, w.reads)
      = (w.obj.exchangedBlocks, t.reads)) :
    Ends step (Working .update) t (some (tree, node, w.updateState))
      (UpdateOf tree w lvl node index rest) := by
  obtain ⟨u, hu, hend, hust, hread⟩ :=
    (hkept.unwritten h.entry h.root).leave ht hcache hcomplete h.pos h.le
  have hex : u.obj.exchangedBlocks = w.obj.exchangedBlocks :=
    congrArg UpdateState.exchanged (hust.trans hst)
  have hnew : u.obj.newPbas = w.obj.newPbas := congrArg UpdateState.newPbas (hust.trans hst)
  refine Ends.returns (.single (Or.inl ht.state) hu) ⟨hend, hust.trans hst,
    wellCounted_of_eq h.counted hend.done.req hnew hex, ?_, ?_⟩
  · rw [hvisit, hex]
    exact (Nat.min_eq_left h.unfinished.le).symm
  · rw [hvisit, hread]

/-- **The update of a level-1 node**: with usable entries it is exchanged and
written, without any it is left as it is. This is the base case of the
induction. -/
theorem update_leafs {entries : Type2NodeBlock}
    (h : UpdateStart (.leafs entries) w 1 node index rest) :
    Ends step (Working .update) w
      ((FtNode.leafs entries).executeUpdate w.obj.req node w.updateState)
      (UpdateOf (.leafs entries) w 1 node index rest) := by
  have hblk : w.blocks node.pba = (FtNode.leafs entries).blockData P.toPlatform := h.stored
  rw [FtNode.executeUpdate]
  refine h.readNode hblk fun info hinfo => ?_
  have hentries : P.type2NodeBlockFromBlockData (w.blocks info.node.pba) = entries := by
    rw [hinfo]
    show P.type2NodeBlockFromBlockData (w.blocks node.pba) = entries
    rw [hblk]
    exact P.type2_roundtrip entries
  have hindex : info.index = index := by rw [hinfo]; rfl
  have hnode : info.node = node := by rw [hinfo]; rfl
  have hvol : info.volatile = decide (nodeVolatile node w.obj.req.currentGen) := by rw [hinfo]; rfl
  rw [loaded_leafs hentries]
  set stack := populateLevel0Stack w.obj.req entries with hstack
  have hreads : (w.available 1 info rest).reads = w.reads ++ [node.pba] := by
    rw [available_reads, hnode]
  have hkept : ∀ state, Kept w 1 [node.pba]
      ((w.available 1 info rest).setObj (w.leafsLoaded info rest entries state)) := fun state =>
    ⟨rfl, rfl, rfl, fun l hl => Function.update_of_ne hl.ne' _ _, fun _ _ => rfl,
      fun _ _ _ => rfl, fun _ h => h⟩
  cases hs : stack with
  | nil =>
    rw [if_pos rfl]
    have hnothing : (w.leafsLoaded info rest entries .complete).level0Stack = [] := by
      show Object.level0Infos w.obj.req entries = []
      unfold Object.level0Infos
      rw [← hstack, hs]
      rfl
    have hupdating : (w.leafsLoaded info rest entries .complete).Updating 1
        ({ info with state := .complete } :: rest) :=
      ⟨h.updating.metaTree, h.updating.state, Or.inl hnothing, leafsLoaded_stack,
        fun l hl hlt => absurd hl (Nat.not_le.mpr hlt)⟩
    refine h.unwritten (hkept .complete) hupdating (by simp [leafsLoaded, Object.dropCache])
      rfl rfl ?_
    · rw [FtNode.visit, ← hstack, hs, setObj_reads, hreads]
      rfl
  | cons i stack' =>
    rw [if_neg (List.cons_ne_nil _ _)]
    have hnodup : (i :: stack').Nodup := by
      rw [← hs]
      exact List.nodup_reverse.mpr ((List.nodup_finRange _).filter _)
    have husable : ∀ j ∈ i :: stack', checkType2LeafUsable w.obj.req (entries j) := by
      intro j hj
      rw [← hs, hstack] at hj
      simpa [populateLevel0Stack] using hj
    have hlevel0 : (w.leafsLoaded info rest entries .write).level0Stack
        = (i :: stack').map fun i => { node := entries i, index := i } := by
      rw [← hs]
      rfl
    have hkept := hkept .write
    obtain ⟨t, ht⟩ : ∃ t, t = (w.available 1 info rest).setObj
      (w.leafsLoaded info rest entries .write) := ⟨_, rfl⟩
    rw [← ht] at hkept ⊢
    have hreq : t.obj.req = w.obj.req := hkept.req
    have hst : t.updateState = w.updateState := by rw [ht]; rfl
    have hnew : t.obj.newPbas = w.obj.newPbas := congrArg UpdateState.newPbas hst
    have hex : t.obj.exchangedBlocks = w.obj.exchangedBlocks := congrArg UpdateState.exchanged hst
    have hread : t.reads = w.reads ++ [node.pba] := by
      rw [ht]
      exact hreads
    have hends := exchange_ends (t := t) { info with state := .write } rest
      (by rw [ht]; exact h.updating.state) (by rw [ht]; exact h.updating.metaTree)
      (by rw [ht]; simp [leafsLoaded, Object.dropCache]) (by rw [ht]; exact leafsLoaded_stack) rfl
      (by rw [hreq, hvol, hnode]) (by rw [ht]; exact hlevel0) (by rw [ht]; rfl) hnodup
      (by rw [hreq]; exact husable) (wellCounted_of_eq h.counted hreq hnew hex)
      (by rw [hkept.maxLevel]; exact h.two)
    rw [hreq, hst, hex, hread] at hends
    dsimp only at hends
    rw [hnode, hindex] at hends
    refine hends.imp ?_
    rintro r u ⟨hend, hst, hcounted, hex, hread⟩
    refine ⟨hkept.updateEnd hend fun p hp => Or.inl hp, hst, hcounted, ?_, ?_⟩
    · rw [FtNode.visit, ← hstack, hs]
      exact hex
    · rw [FtNode.visit]
      exact hread

/-- The object with the children of an inner node at hand. -/
def innerLoaded (w : World P) (lvl : ℕ) (info : Type1Info) (rest : List Type1Info)
    (nodes : Type1NodeBlock) (state : InfoState) : Object P :=
  { (w.available (lvl + 1) info rest).obj.dropCache with
    levelNStacks := Function.update
      (Function.update w.obj.levelNStacks lvl (Object.lowerNInfos w.obj.req.currentGen nodes))
      (lvl + 1) ({ info with state := state } :: rest)
    levelNNodes := Function.update w.obj.levelNNodes lvl nodes }

/-- The node is on its level, its children are on the one below, and the other
levels are as before. -/
theorem innerLoaded_levelNStacks {nodes : Type1NodeBlock} {state : InfoState} (l : ℕ) :
    (w.innerLoaded lvl info rest nodes state).levelNStacks l
      = if l = lvl + 1 then { info with state := state } :: rest
        else if l = lvl then Object.lowerNInfos w.obj.req.currentGen nodes
        else w.obj.levelNStacks l := by
  unfold innerLoaded
  simp only [Function.update_apply]

/-- An inner node has its children at hand once it was read. -/
theorem loaded_inner {nodes : Type1NodeBlock} (h1 : 1 ≤ lvl)
    (hblk : w.blocks info.node.pba = P.blockDataFromType1NodeBlock nodes) :
    w.loaded (lvl + 1) info rest = w.innerLoaded lvl info rest nodes
      (if populateLowerNStack nodes = [] then .complete else .write) := by
  have h2 : 2 ≤ lvl + 1 := Nat.succ_le_succ h1
  have hbelow : w.loadedBelow (lvl + 1) info rest
      = { (w.available (lvl + 1) info rest).obj.dropCache.setStack lvl
            (Object.lowerNInfos w.obj.req.currentGen nodes) with
          levelNNodes := Function.update w.obj.levelNNodes lvl nodes } := by
    unfold loadedBelow Object.keepNodes Object.populate
    rw [if_pos h2, if_pos h2, Nat.add_sub_cancel]
    simp only [Object.setStack, Object.dropCache, World.available, hblk, P.type1_roundtrip]
  have hempty : (w.loadedBelow (lvl + 1) info rest).lowerEmpty (lvl + 1) = true
      ↔ populateLowerNStack nodes = [] := by
    rw [hbelow]
    unfold Object.lowerEmpty
    rw [if_pos h2, Nat.add_sub_cancel]
    simp [Object.setStack, Object.lowerNInfos]
  unfold loaded loadedState
  simp only [hempty]
  rw [hbelow]
  simp only [innerLoaded, Object.setStack, Object.dropCache, World.available]
  congr 1
  funext l
  simp only [Function.update_apply]
  split_ifs <;> rfl

/-- **The children of an inner node are being updated**: those left are on the
stack below the node, unless enough entries were exchanged already, and they are
in the blocks as before. -/
structure UpdateChildren (w : World P) (lvl : ℕ) (info : Type1Info) (rest : List Type1Info)
    (pbas : List ℕ) (nodes : Type1NodeBlock) (children : Fin nodesPerBlock → FtNode)
    (left : List (Fin nodesPerBlock)) (acc : InnerNodeState P.toPlatform) (t : World P) : Prop where
  /-- Nothing but what is below the node was changed. -/
  kept : Kept w (lvl + 1) pbas t
  /-- The children that are left are on the stack below it. -/
  updating : t.obj.Updating lvl (if t.obj.exchangeFinished then []
    else left.map fun i => newInfo w.obj.req.currentGen (nodes i) i)
  /-- The cache has nothing to do. -/
  cache : t.obj.cacheRequest.state = .invalid
  /-- The node is to be written. -/
  stack : t.obj.levelNStacks (lvl + 1) = { info with state := .write } :: rest
  /-- It has the new entries of the children that are done. -/
  nodes_eq : t.obj.levelNNodes lvl = acc.nodes
  /-- What is carried along is that of the tree. -/
  state : t.updateState = acc.state
  /-- As many blocks are missing as levels without one. -/
  counted : t.obj.WellCounted
  /-- The entries of those that are left are as before. -/
  entries : ∀ i ∈ left, acc.nodes i = nodes i
  /-- So are the trees below them. -/
  stored : ∀ i ∈ left, (children i).StoredAt P t.blocks lvl (nodes i)

/-- **One child of an inner node**: it is updated by the induction hypothesis,
and its siblings, which share no block with it, are still in the blocks. -/
theorem UpdateChildren.next {nodes : Type1NodeBlock} {children : Fin nodesPerBlock → FtNode}
    {i : Fin nodesPerBlock} {left : List (Fin nodesPerBlock)} {acc : InnerNodeState P.toPlatform}
    {f : ℕ} {total : ℕ × List ℕ}
    (ih : ∀ {w : World P} {lvl : ℕ} {node : Type1Node} {index : Fin nodesPerBlock}
      {rest : List Type1Info}, UpdateStart (children i) w lvl node index rest →
      Ends step (Working .update) w ((children i).executeUpdate w.obj.req node w.updateState)
        (UpdateOf (children i) w lvl node index rest))
    (h : UpdateChildren w lvl info rest pbas nodes children (i :: left) acc t)
    (h1 : 1 ≤ lvl) (h6 : lvl + 1 ≤ treeMaxMaxLevel) (hmax : lvl + 1 ≤ w.obj.maxLevel)
    (hi : i ∉ left) (hpbas : ∀ pba ∈ (children i).nodePbas (nodes i), pba ∈ pbas)
    (hnodup : ((children i).nodePbas (nodes i)).Nodup)
    (hdisj : ∀ j ∈ left, ∀ pba ∈ (children j).nodePbas (nodes j),
      pba ∉ (children i).nodePbas (nodes i))
    (hfresh : ∀ pba ∈ w.metaPbas, pba ∉ pbas)
    (hleft : ∀ j ∈ left, ∀ pba ∈ (children j).nodePbas (nodes j), pba ∈ pbas)
    (hvisit : t.obj.exchangedBlocks = min f w.obj.req.requestedBlocks)
    (htotal : visitChildren w.obj.req nodes children (i :: left) (f, t.reads) = total) :
    Ends step (Working .update) t
      (updateChild w.obj.req (fun i st => (children i).executeUpdate w.obj.req (nodes i) st) acc i)
      fun acc' u => UpdateChildren w lvl info rest pbas nodes children left acc' u
        ∧ ∃ f', u.obj.exchangedBlocks = min f' w.obj.req.requestedBlocks
          ∧ visitChildren w.obj.req nodes children left (f', u.reads) = total := by
  have hreq : t.obj.req = w.obj.req := h.kept.req
  have hex : acc.state.exchanged = t.obj.exchangedBlocks := by
    rw [← h.state]
    rfl
  have hle : t.obj.exchangedBlocks ≤ w.obj.req.requestedBlocks := by
    rw [hvisit]
    exact Nat.min_le_right _ _
  unfold updateChild
  by_cases hfin : acc.state.exchanged = w.obj.req.requestedBlocks
  · have hfinished : t.obj.exchangeFinished := by
      unfold Object.exchangeFinished
      rw [← hex, hfin, hreq]
    have hf : w.obj.req.requestedBlocks ≤ f := by omega
    rw [if_pos hfin]
    rw [visitChildren_cons_of_le hf] at htotal
    refine Ends.ret ⟨⟨h.kept, ?_, h.cache, h.stack, h.nodes_eq, h.state, h.counted,
      fun j hj => h.entries j (List.mem_cons_of_mem _ hj),
      fun j hj => h.stored j (List.mem_cons_of_mem _ hj)⟩, f, hvisit, htotal⟩
    have hupd := h.updating
    rw [if_pos hfinished] at hupd ⊢
    exact hupd
  · have hlt : t.obj.exchangedBlocks < w.obj.req.requestedBlocks :=
      Nat.lt_of_le_of_ne hle (by rwa [← hex])
    have hunfinished : ¬ t.obj.exchangeFinished := by
      unfold Object.exchangeFinished
      rw [hreq]
      exact hlt.ne
    have hf : t.obj.exchangedBlocks = f := by omega
    rw [if_neg hfin, ← h.state, Option.map_eq_bind]
    rw [visitChildren_cons_of_lt (by rw [← hf]; exact hlt)] at htotal
    have hupd := h.updating
    rw [if_neg hunfinished, List.map_cons, ← hreq] at hupd
    have hmaxt : lvl < t.obj.maxLevel := by
      rw [h.kept.maxLevel]
      exact hmax
    have hstart : UpdateStart (children i) t lvl (nodes i) i
        (left.map fun i => newInfo t.obj.req.currentGen (nodes i) i) :=
      { updating := hupd
        cache := h.cache
        counted := h.counted
        unfinished := by rwa [hreq]
        pos := h1
        le := Nat.le_of_succ_le h6
        two := Nat.le_trans (Nat.succ_le_succ h1) hmaxt
        max := hmaxt.le
        entry := fun _ => by rw [h.nodes_eq, h.entries i List.mem_cons_self]
        root := fun heq => absurd heq hmaxt.ne
        stored := h.stored i List.mem_cons_self
        nodup := hnodup
        fresh := fun pba hm hp => hfresh pba (h.kept.metaPbas pba hm) (hpbas pba hp) }
    have hends := ih hstart
    rw [hreq] at hends
    refine Ends.bind hends fun r u hu => Ends.ret ⟨?_, ?_⟩
    · have hdone := hu.end_.done
      obtain ⟨hupd', hcache'⟩ := hu.end_.next hmaxt
      refine ⟨h.kept.trans (hdone.kept hmaxt) hpbas, ?_, hcache', ?_, ?_, hu.updateState,
        hu.counted, fun j hj => ?_, fun j hj => ?_⟩
      · exact hupd'
      · rw [hdone.upper _ (Nat.lt_succ_self lvl)]
        exact h.stack
      · rw [(hdone.entry hmaxt).1, h.nodes_eq]
      · show Function.update acc.nodes i _ j = nodes j
        rw [Function.update_of_ne fun heq => hi (by rwa [← heq])]
        exact h.entries j (List.mem_cons_of_mem _ hj)
      · exact (h.stored j (List.mem_cons_of_mem _ hj)).congr fun pba hpba =>
          hdone.blocks pba (hdisj j hj pba hpba) fun hm =>
            hfresh pba (h.kept.metaPbas pba hm) (hleft j hj pba hpba)
    · have hex' := hu.exchanged
      have hread := hu.reads
      rw [hreq, hf] at hex' hread
      refine ⟨_, hex', ?_⟩
      rw [hread]
      exact htotal

/-- **The update leaves an inner node** whose children are done: it is written
and its entry put into the node above. -/
theorem UpdateChildren.end_ {nodes : Type1NodeBlock} {children : Fin nodesPerBlock → FtNode}
    {acc : InnerNodeState P.toPlatform}
    (h : UpdateChildren w lvl info rest pbas nodes children [] acc t)
    (hvol : info.volatile = decide (nodeVolatile info.node w.obj.req.currentGen))
    (hindex : info.index = index) (hpba : info.node.pba ∈ pbas) (h1 : 1 ≤ lvl)
    (h6 : lvl + 1 ≤ treeMaxMaxLevel) (hmax : lvl + 1 ≤ w.obj.maxLevel) :
    Ends step (Working .update) t
      (writeNode w.obj.req (.inner acc.nodes acc.children) info.node acc.state)
      fun r u => UpdateEnd w (lvl + 1) index rest pbas r.1 u ∧ u.updateState = r.2
        ∧ u.obj.WellCounted ∧ u.obj.exchangedBlocks = t.obj.exchangedBlocks
        ∧ u.reads = t.reads := by
  have hupd := h.updating
  rw [List.map_nil, ite_self] at hupd
  have hupdating : t.obj.Updating (lvl + 1) ({ info with state := .write } :: rest) :=
    ⟨hupd.metaTree, hupd.state, hupd.idle, h.stack, below_succ hupd.below hupd.stack⟩
  have hblk : t.obj.blockOfLevel (lvl + 1)
      = (FtNode.inner acc.nodes acc.children).blockData P.toPlatform := by
    unfold Object.blockOfLevel
    rw [if_pos (Nat.succ_le_succ h1), Nat.add_sub_cancel, h.nodes_eq]
    rfl
  have hpending : t.obj.cacheRequest.state ≠ .pending := by
    rw [h.cache]
    decide
  have hends := write_ends t.obj (.inner acc.nodes acc.children) hupd.state
    (hupdating.step_eq hpending (Nat.succ_pos _) h6) hupdating h.cache rfl
    (by rw [h.kept.req]; exact hvol) (Nat.succ_pos _) h6
    (by rw [h.kept.maxLevel]; exact Nat.le_trans (Nat.succ_le_succ h1) hmax)
    (by rw [h.kept.maxLevel]; exact hmax) hblk
  rw [h.kept.req, show (t.setObj t.obj).updateState = acc.state from h.state] at hends
  refine hends.imp ?_
  rintro r u ⟨hend, hst, hnew, hex, hread⟩
  rw [show ({ info with state := .write } : Type1Info).index = index from hindex] at hend
  refine ⟨h.kept.updateEnd hend fun p hp => Or.inl ?_, hst,
    wellCounted_of_eq h.counted hend.done.req hnew hex, hex, hread⟩
  rw [List.mem_singleton.mp hp]
  exact hpba

/-- **The update of an inner node**, given that of its children: the node is
read, its children are gone through, and it is written if one of them was. -/
theorem update_inner {nodes : Type1NodeBlock} {children : Fin nodesPerBlock → FtNode}
    (ih : ∀ i {w : World P} {lvl : ℕ} {node : Type1Node} {index : Fin nodesPerBlock}
      {rest : List Type1Info}, UpdateStart (children i) w lvl node index rest →
      Ends step (Working .update) w ((children i).executeUpdate w.obj.req node w.updateState)
        (UpdateOf (children i) w lvl node index rest))
    (h : UpdateStart (.inner nodes children) w (lvl + 1) node index rest) (hlvl : 1 ≤ lvl)
    (hblk : w.blocks node.pba = P.blockDataFromType1NodeBlock nodes)
    (hchildren : ∀ i, (nodes i).pba ≠ 0 → (children i).StoredAt P w.blocks lvl (nodes i)) :
    Ends step (Working .update) w
      ((FtNode.inner nodes children).executeUpdate w.obj.req node w.updateState)
      (UpdateOf (.inner nodes children) w (lvl + 1) node index rest) := by
  have h6 : lvl + 1 ≤ treeMaxMaxLevel := h.le
  set pbas := (FtNode.inner nodes children).nodePbas node with hpbas
  rw [FtNode.executeUpdate]
  refine h.readNode hblk fun info hinfo => ?_
  have hindex : info.index = index := by rw [hinfo]; rfl
  have hnode : info.node = node := by rw [hinfo]; rfl
  have hvol : info.volatile = decide (nodeVolatile info.node w.obj.req.currentGen) := by
    rw [hinfo]
    rfl
  rw [loaded_inner hlvl (by rw [hnode]; exact hblk)]
  set stack := populateLowerNStack nodes with hstack
  have hreads : (w.available (lvl + 1) info rest).reads = w.reads ++ [node.pba] := by
    rw [available_reads, hnode]
  have hkept : ∀ state, Kept w (lvl + 1) pbas
      ((w.available (lvl + 1) info rest).setObj (w.innerLoaded lvl info rest nodes state)) :=
    fun state => ⟨rfl, rfl, rfl, fun l hl => by
      rw [setObj_obj, innerLoaded_levelNStacks, if_neg hl.ne', if_neg (by omega)],
      fun l hl => Function.update_of_ne (by omega) _ _, fun _ _ _ => rfl, fun _ h => h⟩
  have hbelow : ∀ state, ∀ l, 1 ≤ l → l < lvl →
      (w.innerLoaded lvl info rest nodes state).levelNStacks l = [] := fun state l hl hlt => by
    rw [innerLoaded_levelNStacks, if_neg (by omega), if_neg hlt.ne]
    exact h.updating.below l hl (Nat.lt_succ_of_lt hlt)
  have hchildstack : ∀ state, (w.innerLoaded lvl info rest nodes state).levelNStacks lvl
      = stack.map fun i => newInfo w.obj.req.currentGen (nodes i) i := fun state => by
    rw [innerLoaded_levelNStacks, if_neg (Nat.succ_ne_self lvl).symm, if_pos rfl]
    rfl
  have hcache : ∀ state, (w.innerLoaded lvl info rest nodes state).cacheRequest.state = .invalid :=
    fun state => by simp [innerLoaded, Object.dropCache]
  cases hs : stack with
  | nil =>
    rw [if_pos rfl]
    have hupdating : (w.innerLoaded lvl info rest nodes .complete).Updating (lvl + 1)
        ({ info with state := .complete } :: rest) := by
      refine ⟨h.updating.metaTree, h.updating.state, h.updating.idle, ?_,
        below_succ (hbelow .complete) ?_⟩
      · rw [innerLoaded_levelNStacks, if_pos rfl]
      · rw [hchildstack, hs]
        rfl
    refine h.unwritten (hkept .complete) hupdating ?_ rfl rfl ?_
    · rw [setObj_obj, hcache]
      decide
    · rw [FtNode.visit, ← hstack, hs, setObj_reads, hreads]
      rfl
  | cons i stack' =>
    rw [if_neg (List.cons_ne_nil _ _)]
    have hmem : ∀ j ∈ i :: stack', (nodes j).pba ≠ 0 := fun j hj => by
      rw [← hs] at hj
      exact pba_ne_zero_of_mem_populateLowerNStack hj
    have hin : ∀ j ∈ i :: stack', ∀ pba ∈ (children j).nodePbas (nodes j), pba ∈ pbas := by
      intro j hj pba hpba
      rw [← hs] at hj
      exact List.mem_cons_of_mem _ (List.mem_flatMap.mpr ⟨j, hj, hpba⟩)
    have hnodup := (List.nodup_cons.mp h.nodup).2
    rw [← hstack, hs, List.nodup_flatMap] at hnodup
    obtain ⟨hnodups, hpairwise⟩ := hnodup
    have hstacknd : (i :: stack').Nodup := by
      rw [← hs]
      exact List.nodup_reverse.mpr ((List.nodup_finRange _).filter _)
    obtain ⟨t, ht⟩ : ∃ t, t = (w.available (lvl + 1) info rest).setObj
      (w.innerLoaded lvl info rest nodes .write) := ⟨_, rfl⟩
    have hkeptt : Kept w (lvl + 1) pbas t := by
      rw [ht]
      exact hkept .write
    have hst : t.updateState = w.updateState := by rw [ht]; rfl
    have hex : t.obj.exchangedBlocks = w.obj.exchangedBlocks := congrArg UpdateState.exchanged hst
    have hunfinished : ¬ t.obj.exchangeFinished := by
      unfold Object.exchangeFinished
      rw [hkeptt.req, hex]
      exact h.unfinished.ne
    have hupdating : t.obj.Updating lvl ((i :: stack').map fun i =>
        newInfo w.obj.req.currentGen (nodes i) i) := by
      rw [ht, setObj_obj, ← hs]
      exact ⟨h.updating.metaTree, h.updating.state, h.updating.idle, hchildstack .write,
        hbelow .write⟩
    have hstart : UpdateChildren w lvl info rest pbas nodes children (i :: stack')
        { nodes := nodes, children := children, state := w.updateState } t := by
      refine ⟨hkeptt, ?_, ?_, ?_, ?_, hst, wellCounted_of_eq h.counted hkeptt.req
        (congrArg UpdateState.newPbas hst) hex, fun _ _ => rfl,
        fun j hj => ?_⟩
      · rw [if_neg hunfinished]
        exact hupdating
      · rw [ht]
        exact hcache .write
      · rw [ht, setObj_obj, innerLoaded_levelNStacks, if_pos rfl]
      · rw [ht]
        exact Function.update_self _ _ _
      · rw [ht]
        exact hchildren j (hmem j hj)
    rw [← ht]
    -- the loop over the children
    have hloop := Ends.foldlM
      (Q := fun left acc t => UpdateChildren w lvl info rest pbas nodes children left acc t
        ∧ (∀ j ∈ left, j ∈ i :: stack') ∧ left.Nodup
        ∧ left.Pairwise (fun a b => List.Disjoint ((children a).nodePbas (nodes a))
          ((children b).nodePbas (nodes b)))
        ∧ ∃ f, t.obj.exchangedBlocks = min f w.obj.req.requestedBlocks
          ∧ visitChildren w.obj.req nodes children left (f, t.reads)
            = visitChildren w.obj.req nodes children (i :: stack')
              (w.obj.exchangedBlocks, w.reads ++ [node.pba]))
      (g := updateChild w.obj.req fun i st => (children i).executeUpdate w.obj.req (nodes i) st)
      (fun j left acc t hQ => by
        obtain ⟨hch, hsub, hnd, hpw, f, hf, htotal⟩ := hQ
        obtain ⟨hj, hnd⟩ := List.nodup_cons.mp hnd
        obtain ⟨hdj, hpw⟩ := List.pairwise_cons.mp hpw
        have hnext := hch.next (ih j) hlvl h6 h.max hj (hin j (hsub j List.mem_cons_self))
          (hnodups j (hsub j List.mem_cons_self)) (fun k hk pba hpba hp => hdj k hk hp hpba) h.fresh
          (fun k hk => hin k (hsub k (List.mem_cons_of_mem _ hk))) hf htotal
        exact hnext.imp fun acc' u hu =>
          ⟨hu.1, fun k hk => hsub k (List.mem_cons_of_mem _ hk), hnd, hpw, hu.2⟩)
      (i :: stack')
      ⟨hstart, fun _ hj => hj, hstacknd, hpairwise, w.obj.exchangedBlocks,
        by rw [hex]; exact (Nat.min_eq_left h.unfinished.le).symm, by rw [ht, setObj_reads, hreads]⟩
    -- the end of the node
    dsimp only
    refine Ends.bind hloop fun acc u hu => ?_
    obtain ⟨hch, -, -, -, f, hf, htotal⟩ := hu
    rw [Option.map_eq_bind]
    have hend := hch.end_ hvol hindex (by rw [hnode]; exact List.mem_cons_self) hlvl h6 h.max
    rw [hnode] at hend
    refine Ends.bind hend fun r v hv => Ends.ret ?_
    obtain ⟨hupd, hst, hcounted, hex, hread⟩ := hv
    have hvisit : (FtNode.inner nodes children).visit w.obj.req node
        (w.obj.exchangedBlocks, w.reads) = (f, u.reads) := by
      rw [FtNode.visit_inner, ← hstack, hs]
      exact htotal.symm
    refine ⟨hupd, hst, hcounted, ?_, ?_⟩
    · rw [hex, hf, hvisit]
    · rw [hread, hvisit]

/-- **The update of a node**, by induction on the tree: it computes what
`FtNode.executeUpdate` does, and raises exactly where that has no result. -/
theorem update_ends (tree : FtNode) : ∀ {w : World P} {lvl : ℕ} {node : Type1Node}
    {index : Fin nodesPerBlock} {rest : List Type1Info},
    UpdateStart tree w lvl node index rest →
    Ends step (Working .update) w (tree.executeUpdate w.obj.req node w.updateState)
      (UpdateOf tree w lvl node index rest) := by
  induction tree with
  | leafs entries =>
    intro w lvl node index rest h
    have hstored := h.stored
    match lvl, hstored with
    | 1, _ => exact update_leafs h
  | inner nodes children ih =>
    intro w lvl node index rest h
    have hstored := h.stored
    match lvl, hstored with
    | lvl + 2, hstored => exact update_inner ih h (Nat.succ_pos lvl) hstored.1 hstored.2

end

end World

end NewFreeTree

end Cbe
