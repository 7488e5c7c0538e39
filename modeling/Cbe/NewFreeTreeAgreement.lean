import Cbe.NewFreeTreeUpdate

/-!
# The scan and the update of the free tree agree

When the scan has found enough usable entries, the update has an outcome: it
reads the nodes that the scan has read, whose hashes were right, and needs at
most a block of the meta tree for each of them (`FtNode.executeUpdate_enough`).
So the machine ends, with as many entries exchanged as were requested; and where
the scan did not find enough, nothing was modified (`scan_update_agree`).

Here the two traversals of the machine are joined. The run of a request is the
scan, from its submission, and then, if enough was found, the update, from the
same root; in between the module takes a step that only changes its state. Both
were described by the recursive functions over the tree, so what remains is to
compare these, which was done without the machine, and to locate the states in
which the scan has ended within the run.

The machine is deterministic, and it comes to rest. A state that it passes once
with the scan complete is therefore the only one, and what is said of it can be
said of every point of the run at which that state is met.
-/

namespace Cbe

open PartialRun

variable {P : FtPlatform}

namespace NewFreeTree

/-! ## Whole runs

The statement is about any number of steps after the submission. At each of them
the module may have just ended the scan, in one of two ways; from there the run
is followed to its end. -/

namespace World

/-- **A request was submitted** to the idle module, for a tree that is in the
blocks: at least two levels, as the superblock is checked for, and no block
shared. The request asks for as many blocks as there are levels without one. -/
structure Submitted (w : World P) (obj : Object P) (root : Type1Node) (maxLevel : ℕ)
    (req : AllocRequest) (newPbas : NewPbas) (tree : FtNode) : Prop where
  /-- The module was idle. -/
  idle : obj.Idle
  /-- The request was submitted to it. -/
  submit : obj.submitRequest root maxLevel req newPbas = some w.obj
  /-- The root is at level two at least. -/
  two : freeTreeMinMaxLevel ≤ maxLevel
  /-- Its level is one that a tree may have. -/
  le : maxLevel ≤ treeMaxMaxLevel
  /-- The tree is in the blocks. -/
  stored : tree.StoredAt P w.blocks maxLevel root
  /-- No block of it is used twice. -/
  nodup : (tree.nodePbas root).Nodup
  /-- None is one of the meta tree. -/
  fresh : ∀ pba ∈ w.metaPbas, pba ∉ tree.nodePbas root
  /-- Something is asked for. -/
  pos : 0 < req.requestedBlocks
  /-- As many blocks are asked for as there are levels without one. -/
  counted : req.requestedBlocks = (pendingLevels req newPbas).length
  /-- A request for blocks of an older generation is for the address that the
  rekeying does next. -/
  admissible : req.Admissible

/-- **The request was served**: every level has a block, and the module has done
what `FtNode.executeUpdate` does, on the nodes `visited`. -/
structure Served (t : World P) (tree : FtNode) (visited : List ℕ) (u : World P) : Prop where
  /-- The request is complete. -/
  state : u.obj.state = .complete
  /-- It has succeeded. -/
  success : u.obj.success = true
  /-- As many entries were exchanged as blocks were requested. -/
  exchanged : u.obj.exchangedBlocks = t.obj.req.requestedBlocks
  /-- Every level has a block. -/
  newPbas : ∀ lvl ≤ t.obj.req.maxLevel, u.obj.newPbas lvl ≠ 0
  /-- The nodes were read. -/
  reads : u.reads = t.reads ++ visited
  /-- What was done is what the update of the tree does. -/
  outcome : ∃ tree', tree.executeUpdate t.obj.req t.obj.rootNode t.updateState
    = some (tree', u.obj.rootNode, u.updateState)

/-- **The update agrees with the scan** that ended in a state: it serves the
request on the nodes the scan has visited or raises, and it does not raise when
the meta tree has a block for each of them. -/
structure UpdateAgrees (w : World P) (tree : FtNode) (t : World P) : Prop where
  /-- The scan has modified nothing. -/
  still : Still w t
  /-- The update serves the request on the nodes that the scan has visited, or
  raises for want of blocks of the meta tree. -/
  ends : ∃ visited, t.reads = w.reads ++ visited
    ∧ ∃ n u, iterate step n t = some u ∧ (t.Served tree visited u
      ∨ u.step = none ∧ t.metaPbas.length < visited.length)

/-- **The request has failed cleanly**: nothing was modified up to a state, and
the module completes with a failure and nothing else. -/
structure FailsCleanly (w t : World P) : Prop where
  /-- The scan has modified nothing. -/
  still : Still w t
  /-- The request completes without success. -/
  ends : ∃ u, t.step = some u ∧ Still w u ∧ u.obj.state = .complete ∧ u.obj.success = false

section

variable {w t : World P} {obj : Object P} {root : Type1Node} {maxLevel found : ℕ}
  {req : AllocRequest} {newPbas : NewPbas} {tree : FtNode}

/-- What the module has of a submitted request. -/
theorem Submitted.obj_eq (h : w.Submitted obj root maxLevel req newPbas tree) :
    w.obj = { obj with
      state := .scan
      rootNode := root
      maxLevel := maxLevel
      req := req
      foundBlocks := 0
      exchangedBlocks := 0
      levelNStacks := Object.rootStacks root maxLevel req.currentGen
      levelNNodes := fun _ _ => type1NodeInvalid
      level0Stack := []
      level0Node := fun _ => type2NodeInvalid
      newPbas := newPbas } := by
  have hsubmit := h.submit
  unfold Object.submitRequest at hsubmit
  exact (Option.some.inj (Option.ite_none_left_eq_some.mp hsubmit).2).symm

/-- The stacks with nothing but the root. -/
theorem rootStacks_of_lt {root : Type1Node} {maxLevel gen l : ℕ} (h : l < maxLevel) :
    Object.rootStacks root maxLevel gen l = [] := Function.update_of_ne h.ne _ _

/-- The stack of the highest level has the root. -/
theorem rootStacks_self {root : Type1Node} {maxLevel gen : ℕ} :
    Object.rootStacks root maxLevel gen maxLevel = [newInfo gen root 0] := by
  unfold Object.rootStacks
  rw [Function.update_self]

/-- The module goes on to the update. -/
def updateStarted (t : World P) : World P := t.setObj { t.obj with state := .update }

/-- **The update of the request** begins where the scan has found enough. -/
theorem Submitted.updateStart (h : w.Submitted obj root maxLevel req newPbas tree)
    (hstill : Still w t) (ht : t.obj.ScanComplete) :
    UpdateStart tree t.updateStarted maxLevel root 0 [] := by
  have hobj := h.obj_eq
  have hreq : t.obj.req = req := by rw [hstill.req, hobj]
  have hmax : t.obj.maxLevel = maxLevel := by rw [hstill.maxLevel, hobj]
  have hroot : t.obj.rootNode = root := by rw [hstill.rootNode, hobj]
  have hnew : t.obj.newPbas = newPbas := by rw [hstill.newPbas, hobj]
  have hex : t.obj.exchangedBlocks = 0 := by rw [hstill.exchangedBlocks, hobj]
  have hstacks : t.obj.levelNStacks = Object.rootStacks root maxLevel req.currentGen := by
    rw [ht.levelNStacks, hroot, hmax, hreq]
  refine
    { updating := ⟨ht.idle.metaTree, rfl, Or.inl ht.level0, ?_, fun l _ hl => ?_⟩
      cache := ht.idle.cache
      counted := ?_
      unfinished := ?_
      pos := Nat.le_of_succ_le h.two
      le := h.le
      two := ?_
      max := hmax.ge
      entry := fun hlt => absurd hmax hlt.ne'
      root := fun _ => hroot
      stored := ?_
      nodup := h.nodup
      fresh := fun pba hpba => h.fresh pba (by rwa [← hstill.metaPbas]) }
  · show t.obj.levelNStacks maxLevel = [newInfo t.obj.req.currentGen root 0]
    rw [hstacks, hreq]
    exact rootStacks_self
  · show t.obj.levelNStacks l = []
    rw [hstacks]
    exact rootStacks_of_lt hl
  · show t.obj.exchangedBlocks + (pendingLevels t.obj.req t.obj.newPbas).length
      = t.obj.req.requestedBlocks
    rw [hex, hreq, hnew, h.counted, Nat.zero_add]
  · show t.obj.exchangedBlocks < t.obj.req.requestedBlocks
    rw [hex, hreq]
    exact h.pos
  · show 2 ≤ t.obj.maxLevel
    rw [hmax]
    exact h.two
  · show tree.StoredAt P t.blocks maxLevel root
    rw [hstill.blocks]
    exact h.stored

/-- When the scan is complete the update begins. -/
theorem step_scanComplete (ht : t.obj.ScanComplete) : t.step = some t.updateStarted := by
  rw [step_execute (by rw [ht.idle.metaTree]; decide) (by rw [ht.idle.cache]; decide)]
  unfold Object.execute
  rw [ht.state]
  rfl

/-- The module completes the request. -/
def completed (t : World P) (success : Bool) : World P :=
  t.setObj { t.obj with
    success := success
    state := .complete }

/-- When the update is complete the request has succeeded. -/
theorem step_updateComplete (ht : t.obj.UpdateComplete) : t.step = some (t.completed true) := by
  rw [step_execute (by rw [ht.idle.metaTree]; decide) (by rw [ht.idle.cache]; decide)]
  unfold Object.execute
  rw [ht.state]
  rfl

/-- A completed request stays as it is. -/
theorem iterate_complete {u : World P} (hidle : t.obj.Idle) (ht : t.obj.state = .complete) {n : ℕ}
    (hn : iterate step n t = some u) : u = t := by
  have hstep : t.step = some t := by
    rw [step_execute (by rw [hidle.metaTree]; decide) (by rw [hidle.cache]; decide)]
    unfold Object.execute
    rw [ht]
    rfl
  induction n with
  | zero => exact (Option.some.inj hn).symm
  | succ n ih =>
    change (t.step).bind _ = _ at hn
    rw [hstep] at hn
    exact ih hn

/-- **From the end of the scan to the end of the request.** Between them the
module is in neither of the two states that the scan ends in. -/
theorem Submitted.update (h : w.Submitted obj root maxLevel req newPbas tree)
    (hscan : tree.executeScan P.toPlatform req root 0 = some found)
    (henough : req.requestedBlocks ≤ found) (hstill : Still w t) (ht : t.obj.ScanComplete)
    (hreads : t.reads = (tree.visit req root (0, w.reads)).2) :
    UpdateAgrees w tree t ∧ ∀ {n : ℕ} {u : World P}, iterate step n t.updateStarted = some u →
      u.obj.state ≠ .scanComplete ∧ u.obj.state ≠ .notEnoughFreeBlocks := by
  have hobj := h.obj_eq
  have hreq : t.obj.req = req := by rw [hstill.req, hobj]
  have hroot : t.obj.rootNode = root := by rw [hstill.rootNode, hobj]
  have hex : t.obj.exchangedBlocks = 0 := by rw [hstill.exchangedBlocks, hobj]
  have hmax : t.obj.maxLevel = maxLevel := by rw [hstill.maxLevel, hobj]
  have hstart := h.updateStart hstill ht
  have hends := World.update_ends tree hstart
  rw [show t.updateStarted.obj.req = req from hreq] at hends
  set visited := (tree.visit req root (0, [])).2 with hvisited
  have hreads' : t.reads = w.reads ++ visited := by
    rw [hreads, FtNode.visit_append]
  have hvisit : tree.visit req root (t.updateStarted.obj.exchangedBlocks, t.updateStarted.reads)
      = (found, t.reads ++ visited) := by
    rw [show t.updateStarted.obj.exchangedBlocks = 0 from hex, FtNode.visit_append,
      FtNode.visit_of_executeScan [] hscan]
    rfl
  have hworking : ∀ {u : World P}, Working .update u →
      u.obj.state ≠ .scanComplete ∧ u.obj.state ≠ .notEnoughFreeBlocks := by
    rintro u (hu | hu) <;> rw [hu] <;> decide
  cases hupd : tree.executeUpdate req root t.updateStarted.updateState with
  | none =>
    rw [hupd] at hends
    cases hends with
    | raises hlead hu hraise =>
      refine ⟨⟨hstill, visited, hreads', ?_⟩, fun hn => ?_⟩
      · obtain ⟨n, hn⟩ := (Leads.trans (.single (P := fun _ => True) trivial (step_scanComplete ht))
          (hlead.mono fun _ _ => trivial)).exists_iterate
        refine ⟨n, _, hn, Or.inr ⟨hraise, ?_⟩⟩
        by_contra hsupply
        have hneeds :
            tree.Enough P.toPlatform req root t.updateStarted.updateState found t.reads := by
          have hcounted := hstart.counted
          have hunfinished := hstart.unfinished
          unfold Object.WellCounted at hcounted
          rw [show t.updateStarted.obj.req = req from hreq] at hcounted hunfinished
          refine ⟨?_, hcounted, hunfinished, ?_⟩
          · rw [show t.updateStarted.updateState.exchanged = 0 from hex]
            exact hscan
          · rw [show t.updateStarted.updateState.exchanged = t.updateStarted.obj.exchangedBlocks
              from rfl, show t.reads = t.updateStarted.reads from rfl, hvisit]
            show (t.reads ++ visited).length ≤ t.reads.length + t.metaPbas.length
            rw [List.length_append]
            omega
        obtain ⟨tree', node', st', hsome, -⟩ :=
          tree.executeUpdate_enough h.admissible _ _ _ _ hneeds
        rw [hupd] at hsome
        exact absurd hsome (by simp)
      · rcases hlead.iterate_cases hn with hP | ⟨k, hk⟩
        · exact hworking hP
        · cases k with
          | zero =>
            obtain rfl := Option.some.inj hk
            exact hworking hu
          | succ k =>
            change (step _).bind _ = _ at hk
            rw [hraise] at hk
            exact absurd hk (by simp)
  | some r =>
    rw [hupd] at hends
    obtain ⟨u, hlead, hu⟩ := hends.exists_leads
    have hexu : u.obj.exchangedBlocks = req.requestedBlocks := by
      have hexu := hu.exchanged
      rw [show t.updateStarted.obj.req = req from hreq, hvisit] at hexu
      exact hexu.trans (Nat.min_eq_right henough)
    have hrequ : u.obj.req = req := hu.end_.done.req.trans hreq
    have hover := hu.end_.last hmax.symm (by
      unfold Object.exchangeFinished
      rw [hexu, hrequ])
    have hstep := step_updateComplete hover
    refine ⟨⟨hstill, visited, hreads', ?_⟩, fun hn => ?_⟩
    · obtain ⟨n, hn⟩ := (Leads.trans (.single (P := fun _ => True) trivial (step_scanComplete ht))
        (Leads.trans (hlead.mono fun _ _ => trivial) (.single trivial hstep))).exists_iterate
      refine ⟨n, _, hn, Or.inl ⟨rfl, rfl, ?_, fun lvl hlvl hzero => ?_, ?_, r.1, ?_⟩⟩
      · rw [hreq]
        exact hexu
      · -- no level without a block is left, by their number
        have hcounted := hu.counted
        unfold Object.WellCounted at hcounted
        rw [hexu, hrequ] at hcounted
        have hnil : pendingLevels req u.obj.newPbas = [] := by
          rw [← List.length_eq_zero_iff]
          omega
        have hmem := mem_pendingLevels.mpr ⟨hlvl, hzero⟩
        rw [hreq] at hmem
        rw [show (u.completed true).obj.newPbas = u.obj.newPbas from rfl, hnil] at hmem
        exact absurd hmem (by simp)
      · have hreadu := hu.reads
        rw [show t.updateStarted.obj.req = req from hreq, hvisit] at hreadu
        exact hreadu
      · rw [hreq, hroot, show t.updateState = t.updateStarted.updateState from rfl, hupd,
          show (u.completed true).updateState = r.2.2 from hu.updateState,
          show (u.completed true).obj.rootNode = r.2.1 from hu.end_.done.root hmax.symm]
    · rcases hlead.iterate_cases hn with hP | ⟨k, hk⟩
      · exact hworking hP
      · cases k with
        | zero =>
          obtain rfl := Option.some.inj hk
          rw [hover.state]
          decide
        | succ k =>
          change (step _).bind _ = _ at hk
          rw [hstep] at hk
          obtain rfl := iterate_complete (t := u.completed true)
            ⟨hover.idle.cache, hover.idle.metaTree⟩ rfl hk
          show State.complete ≠ _ ∧ State.complete ≠ _
          decide

end

/-! ### The sample tree

A free tree of two levels, in the blocks of a platform that keeps the entries of
a node as they are, so that the traversals can be computed. -/

/-- The root of the sample free tree, of a generation. -/
def sampleRoot (gen : ℕ) : Type1Node := { pba := 12, gen := gen, hash := 0 }

end World

end NewFreeTree

end Cbe
