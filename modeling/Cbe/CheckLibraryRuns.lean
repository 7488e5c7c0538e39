import Cbe.CheckLibrary
import Cbe.CheckRuns

/-!
# What a run of the check library comes to

The library is taken through its request round by round: each slot is read, then
each tree is checked, in the rounds of the library that host the check
(`hosted_vbd`, `hosted_ft`). What the run comes to is `checkDevice`
(`completes_iff`).

A round is a call of `Execute`, and the client serving what the library asks of
block I/O. The check of the superblocks leads: it reads the slots one after the
other and remembers one of them, then it goes through the snapshots of that
superblock, and hands the tree of each valid one to the check of the virtual
block device; the free tree and the meta tree go to the check of the free tree.
While one of these is at work the check of the superblocks waits.

A run without a raise ends, since every round brings the check closer to its
end, and a round that raises ends it as well. `Ends` says both at once: the run
comes to a result that is computed, or to a raise where the computation has
none. So the lemmas about the stretches of the run compose like the calls of the
computation do, and the last theorem has the two directions in one.
-/

namespace Cbe

open LevelScan PartialRun

variable {sha : BlockData → Hash} {disk : Disk}

/-! ## Rounds

What a round comes to when only the check of the superblocks has something to
do. -/

namespace CheckLibrary

/-- The library while the check of the superblocks has nothing under way. -/
def resting (sb : SuperblockCheck) (buf : BlockData) : CheckLibrary where
  sbChk := sb
  vbdChk := TreeCheck.initializeObject NodeKind.type1
  ftChk := TreeCheck.initializeObject NodeKind.type2
  blkIo := { entry := none, buf := buf }
  clientReqSuccess := false
  clientReqComplete := false

/-- The check of the virtual block device has nothing to do. -/
theorem executeVbdCheck_idle {lib : CheckLibrary}
    (h : lib.vbdChk = TreeCheck.initializeObject NodeKind.type1) :
    lib.executeVbdCheck sha = some lib := by
  obtain ⟨sb, vbd, ft, io, success, complete⟩ := lib
  obtain rfl : vbd = _ := h
  rfl

/-- The check of the free tree has nothing to do. -/
theorem executeFreeTreeCheck_idle {lib : CheckLibrary}
    (h : lib.ftChk = TreeCheck.initializeObject NodeKind.type2) :
    lib.executeFreeTreeCheck sha = some lib := by
  obtain ⟨sb, vbd, ft, io, success, complete⟩ := lib
  obtain rfl : ft = _ := h
  rfl

/-- The request is not complete while the superblocks are still checked. -/
theorem not_complete_resting (sb : SuperblockCheck) (buf : BlockData) :
    ¬ (resting sb buf).Complete := nofun

/-- The check of the superblocks goes on by itself. -/
theorem executeSuperblockCheck_eq (lib : CheckLibrary) {sb : SuperblockCheck}
    (hexec : lib.sbChk.execute = some sb) (hgen : sb.peekGeneratedPrimitive = none)
    (hcomp : sb.peekCompletedPrimitive = none) :
    lib.executeSuperblockCheck = some { lib with sbChk := sb } := by
  rw [executeSuperblockCheck, hexec, Option.bind_some, submitSbPrim,
    show (SuperblockCheck.peekGeneratedPrimitive _) = none from hgen]
  show some (CheckLibrary.completeSbPrim { lib with sbChk := sb }) = _
  rw [completeSbPrim, show (SuperblockCheck.peekCompletedPrimitive
    (CheckLibrary.sbChk { lib with sbChk := sb })) = none from hcomp]

/-- What follows the check of the superblocks in a round. -/
theorem round_eq {lib lib' : CheckLibrary} (hsb : lib.executeSuperblockCheck = some lib') :
    round sha disk lib = ((lib'.executeVbdCheck sha).bind fun lib =>
      (lib.executeFreeTreeCheck sha).bind fun lib => lib.executeBlockIo).map fun lib =>
        { lib with blkIo := lib.blkIo.serve disk } := by
  rw [round, execute, hsb]
  rfl

/-- A round in which nothing else goes on. -/
theorem round_resting {sb sb' : SuperblockCheck} (buf : BlockData)
    (hexec : sb.execute = some sb') (hgen : sb'.peekGeneratedPrimitive = none)
    (hcomp : sb'.peekCompletedPrimitive = none) :
    round sha disk (resting sb buf) = some (resting sb' buf) := by
  rw [round, execute, executeSuperblockCheck_eq (resting sb buf) hexec hgen hcomp]
  rfl

variable (sha disk) in
/-- The round in which the check of the superblocks gets to its end. -/
theorem round_done {sb sb' : SuperblockCheck} (buf : BlockData)
    (hexec : sb.execute = some sb') (hstate : sb'.sbSlotState = .done)
    (hprim : sb'.submittedPrim = some sbCheckPrim) :
    ∃ t, round sha disk (resting sb buf) = some t ∧ t.Complete := by
  obtain ⟨st, gen, last, slotState, slot, cont, snap, ft, mt, genPrim, subm⟩ := sb'
  obtain rfl : slotState = _ := hstate
  obtain rfl : subm = _ := hprim
  rw [round, execute, executeSuperblockCheck, show (resting sb buf).sbChk = sb from rfl, hexec]
  exact ⟨_, rfl, rfl⟩

end CheckLibrary

open CheckLibrary

/-! ## A slot is read

The block of the slot is asked for, and its content is taken over once it is
there. -/

/-- The check of the superblocks with the content of the slot. -/
def SuperblockCheck.read (obj : SuperblockCheck) (sb : Superblock) : SuperblockCheck :=
  { obj with sbSlotState := .readDone, generatedPrim := some obj.readPrim, sbSlot := sb }

variable (sha disk) in
/-- **A slot is read.** -/
theorem read_ends {obj : SuperblockCheck} (buf : BlockData) (hstate : obj.sbSlotState = .init)
    (hsubm : obj.submittedPrim ≠ none) :
    Ends (round sha disk) (fun lib => ¬ lib.Complete) (resting obj buf)
      (disk.slot obj.sbSlotIdx) fun sb t => t = resting (obj.read sb) (disk obj.sbSlotIdx) := by
  obtain ⟨st, gen, last, slotState, slot, cont, snap, ft, mt, genPrim, subm⟩ := obj
  obtain rfl : slotState = _ := hstate
  obtain ⟨prim, rfl⟩ : ∃ prim, subm = some prim := Option.ne_none_iff_exists'.mp hsubm
  let obj : SuperblockCheck :=
    ⟨st, gen, last, .init, slot, cont, snap, ft, mt, genPrim, some prim⟩
  let lib : CheckLibrary := {
    resting { obj with sbSlotState := .readDropped, generatedPrim := some obj.readPrim } buf with
    blkIo := {
      entry := some ({ obj.readPrim with success := true }, .complete)
      buf := disk slot } }
  have hissue : round sha disk (resting obj buf) = some lib := by
    cases st <;>
    simp [CheckLibrary.round, CheckLibrary.execute, executeSuperblockCheck, resting, obj, lib,
      SuperblockCheck.execute, SuperblockCheck.executeInspect, SuperblockCheck.executeCheck,
      submitSbPrim, SuperblockCheck.peekGeneratedPrimitive, handSbPrim, SuperblockCheck.readPrim,
      BlockIo.PrimitiveAcceptable, BlockIo.submitPrimitive,
      SuperblockCheck.dropGeneratedPrimitive, SuperblockCheck.isGenerated, CheckPrim.Equal,
      completeSbPrim, SuperblockCheck.peekCompletedPrimitive, executeVbdCheck_idle,
      executeFreeTreeCheck_idle, executeBlockIo, BlockIo.peekCompletedPrimitive, BlockIo.serve]
  have hanswer : round sha disk lib
      = (disk.slot slot).map fun sb => resting (obj.read sb) (disk slot) := by
    cases st <;>
    simp [CheckLibrary.round, CheckLibrary.execute, executeSuperblockCheck, resting, obj, lib,
      SuperblockCheck.execute, SuperblockCheck.executeInspect, SuperblockCheck.executeCheck,
      submitSbPrim, SuperblockCheck.peekGeneratedPrimitive, SuperblockCheck.readPrim,
      completeSbPrim, SuperblockCheck.peekCompletedPrimitive, executeVbdCheck_idle,
      executeFreeTreeCheck_idle, executeBlockIo, BlockIo.peekCompletedPrimitive, BlockIo.serve,
      SuperblockCheck.markBlkIoComplete, SuperblockCheck.isGenerated, CheckPrim.Equal,
      Disk.slot, SuperblockCheck.read, Option.map_map, Function.comp_def,
      BlockIo.dropCompletedPrimitive]
  refine .step (not_complete_resting _ _) hissue ?_
  cases hslot : disk.slot slot with
  | none =>
    rw [hslot] at hanswer
    exact .raise Bool.false_ne_true hanswer
  | some sb =>
    rw [hslot] at hanswer
    exact .step Bool.false_ne_true hanswer (.ret rfl)

/-! ## The library hosts the checks of the trees

The runs of a check of a tree were described for an arbitrary host. Here the
library is shown to be one, twice: with the check of the virtual block device,
and with that of the free tree. -/

section

variable {Leaf : Type} {c : TreeChecker Leaf}

/-- Handing a primitive over changes neither the levels nor the tree. -/
theorem TreeCheck.submitGenerated_spec {obj : TreeCheck Leaf} {io : BlockIo}
    {w : TreeCheck Leaf × BlockIo} (h : obj.submitGenerated c io = some w) :
    w.1.lvls = obj.lvls ∧ (io.Serves c → w.2.Serves c) := by
  unfold submitGenerated at h
  cases hprim : obj.peekGeneratedPrimitive with
  | none =>
    rw [hprim] at h
    obtain rfl := Option.some.inj h
    exact ⟨rfl, id⟩
  | some prim =>
    rw [hprim] at h
    obtain ⟨htag, h⟩ := Option.ite_none_left_eq_some.mp h
    by_cases hacc : io.PrimitiveAcceptable
    · rw [if_neg (not_not.mpr hacc)] at h
      obtain ⟨io', hio', h⟩ := Option.bind_eq_some_iff.mp h
      obtain ⟨obj', hobj', h⟩ := Option.bind_eq_some_iff.mp h
      obtain rfl := Option.some.inj h
      constructor
      · unfold dropGeneratedPrimitive at hobj'
        cases hgen : obj.genPrim with
        | none => rw [hgen] at hobj'; exact absurd hobj' (by simp)
        | some genPrim =>
          rw [hgen] at hobj'
          obtain ⟨-, hobj'⟩ := Option.ite_none_left_eq_some.mp hobj'
          rw [← Option.some.inj hobj']
      · intro _ q hq
        obtain ⟨-, hio'⟩ := Option.ite_none_right_eq_some.mp hio'
        rw [← Option.some.inj hio'] at hq
        rw [← Option.some.inj hq]
        exact not_not.mp htag
    · rw [if_pos hacc] at h
      obtain rfl := Option.some.inj h
      exact ⟨rfl, id⟩

/-- A tree is not returned before its root is done. -/
theorem TreeCheck.peekCompletedPrimitive_eq_none {obj : TreeCheck Leaf}
    (h : obj.lvls.rootState ≠ .done) : obj.peekCompletedPrimitive = none := if_neg h

end

/-- The library while the tree of a snapshot is checked. -/
def vbdHost (sb : SuperblockCheck) (obj : TreeCheck Type1Node) (io : BlockIo) : CheckLibrary :=
  { resting sb io.buf with vbdChk := obj, blkIo := io }

/-- The library while the free tree or the meta tree is checked. -/
def ftHost (sb : SuperblockCheck) (obj : TreeCheck Type2Node) (io : BlockIo) : CheckLibrary :=
  { resting sb io.buf with ftChk := obj, blkIo := io }

/-- A call goes to the first child that is open. -/
theorem VbdCheck.execute_eq {obj : TreeCheck Type1Node} {p : Pos nodesPerBlock}
    (hact : obj.Active checker) (hfirst : obj.FirstAt p) :
    execute sha obj = obj.executeAt checker sha (some p) := by
  have hmin : ¬ obj.maxLvlIdx < 1 := Nat.not_lt.mpr hact.minLevel
  rw [execute, if_neg hact.submPrim, if_neg hmin, TreeCheck.firstOpen,
    Levels.firstOpen_eq_some hfirst]

/-- A call goes to the first child that is open. -/
theorem FtCheck.execute_eq {obj : TreeCheck Type2Node} {p : Pos nodesPerBlock}
    (hact : obj.Active checker) (hfirst : obj.FirstAt p) :
    execute sha obj = obj.executeAt checker sha (some p) := by
  have hmin : ¬ obj.maxLvlIdx < 2 := Nat.not_lt.mpr hact.minLevel
  rw [execute, if_neg hact.submPrim, TreeCheck.firstOpen, Levels.firstOpen_eq_some hfirst]
  cases p with
  | leaf i => rfl
  | inner lvl i => exact if_neg hmin
  | root => exact if_neg hmin

/-- A round while a tree is checked leaves the check of the superblocks. -/
theorem SuperblockCheck.execute_dropped (sb : SuperblockCheck) (hstate : sb.state = .checkSb)
    (hslot : sb.sbSlotState = .vbdCheckDropped ∨ sb.sbSlotState = .ftCheckDropped
      ∨ sb.sbSlotState = .mtCheckDropped) :
    sb.execute = some sb ∧ sb.peekGeneratedPrimitive = none
      ∧ sb.peekCompletedPrimitive = none := by
  refine ⟨?_, ?_, ?_⟩
  · rw [execute, hstate]
    rcases hslot with h | h | h <;> simp [executeCheck, h]
  · rcases hslot with h | h | h <;> simp [peekGeneratedPrimitive, h]
  · rcases hslot with h | h | h <;> simp [peekCompletedPrimitive, h]

namespace CheckLibrary

/-- A call for the check of the tree of a snapshot, which goes on. -/
theorem executeVbdCheck_running {lib : CheckLibrary} {obj : TreeCheck Type1Node}
    (hexec : VbdCheck.execute sha lib.vbdChk = some obj) (hroot : obj.lvls.rootState ≠ .done) :
    lib.executeVbdCheck sha = (obj.submitGenerated VbdCheck.checker lib.blkIo).map fun w =>
      { lib with vbdChk := w.1, blkIo := w.2 } := by
  rw [executeVbdCheck, hexec]
  show (obj.submitGenerated VbdCheck.checker lib.blkIo).bind _ = _
  cases hsub : obj.submitGenerated VbdCheck.checker lib.blkIo with
  | none => rfl
  | some w =>
    have hpeek : w.1.peekCompletedPrimitive = none := TreeCheck.peekCompletedPrimitive_eq_none (by
      rw [(TreeCheck.submitGenerated_spec hsub).1]
      exact hroot)
    simp only [Option.bind_some, hpeek, Option.map_some]

/-- A call for the check of the free tree or the meta tree, which goes on. -/
theorem executeFreeTreeCheck_running {lib : CheckLibrary} {obj : TreeCheck Type2Node}
    (hexec : FtCheck.execute sha lib.ftChk = some obj) (hroot : obj.lvls.rootState ≠ .done) :
    lib.executeFreeTreeCheck sha = (obj.submitGenerated FtCheck.checker lib.blkIo).map fun w =>
      { lib with ftChk := w.1, blkIo := w.2 } := by
  rw [executeFreeTreeCheck, hexec]
  show (obj.submitGenerated FtCheck.checker lib.blkIo).bind _ = _
  cases hsub : obj.submitGenerated FtCheck.checker lib.blkIo with
  | none => rfl
  | some w =>
    have hpeek : w.1.peekCompletedPrimitive = none := TreeCheck.peekCompletedPrimitive_eq_none (by
      rw [(TreeCheck.submitGenerated_spec hsub).1]
      exact hroot)
    simp only [Option.bind_some, hpeek, Option.map_some]

/-- A block that was read goes to the check of the virtual block device. -/
theorem executeBlockIo_vbd {lib : CheckLibrary} (hio : lib.blkIo.Serves VbdCheck.checker) :
    lib.executeBlockIo = (lib.vbdChk.executeBlockIo VbdCheck.checker lib.blkIo).map fun w =>
      { lib with vbdChk := w.1, blkIo := w.2 } := by
  obtain ⟨sb, vbd, ft, ⟨entry, buf⟩, success, complete⟩ := lib
  match entry, hio with
  | none, _ => rfl
  | some (_, .pending), _ => rfl
  | some (_, .inProgress), _ => rfl
  | some (⟨tag, n, done⟩, .complete), hio =>
    obtain rfl : tag = .vbdCheckBlkIo := hio _ rfl
    rfl

/-- A block that was read goes to the check of the free tree. -/
theorem executeBlockIo_ft {lib : CheckLibrary} (hio : lib.blkIo.Serves FtCheck.checker) :
    lib.executeBlockIo = (lib.ftChk.executeBlockIo FtCheck.checker lib.blkIo).map fun w =>
      { lib with ftChk := w.1, blkIo := w.2 } := by
  obtain ⟨sb, vbd, ft, ⟨entry, buf⟩, success, complete⟩ := lib
  match entry, hio with
  | none, _ => rfl
  | some (_, .pending), _ => rfl
  | some (_, .inProgress), _ => rfl
  | some (⟨tag, n, done⟩, .complete), hio =>
    obtain rfl : tag = .ftCheckBlkIo := hio _ rfl
    rfl

end CheckLibrary

/-- A call for the check of the tree of a snapshot raises. -/
theorem round_vbd_raise {sb : SuperblockCheck} (hstate : sb.state = .checkSb)
    (hslot : sb.sbSlotState = .vbdCheckDropped) {obj : TreeCheck Type1Node} (io : BlockIo)
    (h : VbdCheck.execute sha obj = none) : round sha disk (vbdHost sb obj io) = none := by
  obtain ⟨hexec, hgen, hcomp⟩ := SuperblockCheck.execute_dropped sb hstate (.inl hslot)
  have hvbd : (vbdHost sb obj io).executeVbdCheck sha = none := by
    rw [executeVbdCheck, show (vbdHost sb obj io).vbdChk = obj from rfl, h]
    rfl
  rw [round_eq (executeSuperblockCheck_eq (vbdHost sb obj io) hexec hgen hcomp)]
  show Option.map _ ((executeVbdCheck sha (vbdHost sb obj io)).bind _) = _
  rw [hvbd]
  rfl

/-- A call for the check of the free tree or the meta tree raises. -/
theorem round_ft_raise {sb : SuperblockCheck} (hstate : sb.state = .checkSb)
    (hslot : sb.sbSlotState = .ftCheckDropped ∨ sb.sbSlotState = .mtCheckDropped)
    {obj : TreeCheck Type2Node} (io : BlockIo) (h : FtCheck.execute sha obj = none) :
    round sha disk (ftHost sb obj io) = none := by
  obtain ⟨hexec, hgen, hcomp⟩ := SuperblockCheck.execute_dropped sb hstate (.inr hslot)
  have hft : (ftHost sb obj io).executeFreeTreeCheck sha = none := by
    rw [executeFreeTreeCheck, show (ftHost sb obj io).ftChk = obj from rfl, h]
    rfl
  rw [round_eq (executeSuperblockCheck_eq (ftHost sb obj io) hexec hgen hcomp),
    executeVbdCheck_idle rfl, Option.bind_some]
  show Option.map _ ((executeFreeTreeCheck sha (ftHost sb obj io)).bind _) = _
  rw [hft]
  rfl

variable (sha disk) in
/-- **The library hosts the check of the tree of a snapshot.** -/
theorem hosted_vbd {sb : SuperblockCheck} (hstate : sb.state = .checkSb)
    (hslot : sb.sbSlotState = .vbdCheckDropped) :
    Hosted VbdCheck.checker sha disk (round sha disk) (fun lib => ¬ lib.Complete)
      (vbdHost sb) := by
  obtain ⟨hexec, hgen, hcomp⟩ := SuperblockCheck.execute_dropped sb hstate (.inl hslot)
  have hsb : ∀ obj io, (vbdHost sb obj io).executeSuperblockCheck = some (vbdHost sb obj io) :=
    fun obj io => executeSuperblockCheck_eq (vbdHost sb obj io) hexec hgen hcomp
  refine ⟨fun _ _ _ => nofun, ?_, ?_⟩
  · exact fun obj io p hact hfirst hnone =>
      round_vbd_raise hstate hslot io ((VbdCheck.execute_eq hact hfirst).trans hnone)
  · intro obj io p obj' hact hfirst hio hsome hroot
    have hvbd : (vbdHost sb obj io).executeVbdCheck sha
        = (obj'.submitGenerated VbdCheck.checker io).map fun w => vbdHost sb w.1 w.2 :=
      executeVbdCheck_running ((VbdCheck.execute_eq hact hfirst).trans hsome) hroot
    rw [round_eq (hsb obj io), hvbd, TreeChecker.afterExecute]
    cases hsub : obj'.submitGenerated VbdCheck.checker io with
    | none => rfl
    | some w =>
      rw [Option.map_some, Option.bind_some, executeFreeTreeCheck_idle rfl, Option.bind_some,
        executeBlockIo_vbd ((TreeCheck.submitGenerated_spec hsub).2 hio), Option.bind_some,
        Option.map_map, Option.map_map]
      rfl

variable (sha disk) in
/-- **The library hosts the checks of the free tree and the meta tree.** -/
theorem hosted_ft {sb : SuperblockCheck} (hstate : sb.state = .checkSb)
    (hslot : sb.sbSlotState = .ftCheckDropped ∨ sb.sbSlotState = .mtCheckDropped) :
    Hosted FtCheck.checker sha disk (round sha disk) (fun lib => ¬ lib.Complete)
      (ftHost sb) := by
  obtain ⟨hexec, hgen, hcomp⟩ := SuperblockCheck.execute_dropped sb hstate (.inr hslot)
  have hsb : ∀ obj io, (ftHost sb obj io).executeSuperblockCheck = some (ftHost sb obj io) :=
    fun obj io => executeSuperblockCheck_eq (ftHost sb obj io) hexec hgen hcomp
  refine ⟨fun _ _ _ => nofun, ?_, ?_⟩
  · exact fun obj io p hact hfirst hnone =>
      round_ft_raise hstate hslot io ((FtCheck.execute_eq hact hfirst).trans hnone)
  · intro obj io p obj' hact hfirst hio hsome hroot
    have hft : (ftHost sb obj io).executeFreeTreeCheck sha
        = (obj'.submitGenerated FtCheck.checker io).map fun w => ftHost sb w.1 w.2 :=
      executeFreeTreeCheck_running ((FtCheck.execute_eq hact hfirst).trans hsome) hroot
    rw [round_eq (hsb obj io), executeVbdCheck_idle rfl, Option.bind_some, hft,
      TreeChecker.afterExecute]
    cases hsub : obj'.submitGenerated FtCheck.checker io with
    | none => rfl
    | some w =>
      rw [Option.map_some, Option.bind_some,
        executeBlockIo_ft ((TreeCheck.submitGenerated_spec hsub).2 hio), Option.bind_some,
        Option.map_map, Option.map_map]
      rfl

/-! ## A tree is checked

From the submission of a tree to the last call of its check. -/

/-- A check of a tree that was just submitted. -/
def TreeCheck.submitted {Leaf : Type} (kind : NodeKind Leaf) (prim : CheckPrim) (ref : TreeRef) :
    TreeCheck Leaf :=
  { initializeObject kind with
    submPrim := some prim
    maxLvlIdx := ref.maxLvlIdx
    maxChildIdx := ref.maxChildIdx
    nrOfLeafs := ref.nrOfLeafs
    lvls := { (initializeObject kind).lvls with root := ref.root, rootState := .readBlock } }

/-- **The check of a tree that was just submitted** gets to its last call or
raises, where the host raises for the levels that the check cannot handle. -/
theorem tree_ends {Leaf σ : Type} [DecidableEq Leaf] {c : TreeChecker Leaf} {f : σ → Option σ}
    {P : σ → Prop} {e : TreeCheck Leaf → BlockIo → σ} {dataOk : Leaf → Prop}
    [DecidablePred dataOk] (host : Hosted c sha disk f P e)
    (hleaf : ∀ m, ChildEnds f P e c (fun s => s.lowest) 1 m (checkLeaf c.kind dataOk))
    (hmin : 1 ≤ c.kind.minMaxLevel) (prim : CheckPrim) (ref : TreeRef) {io : BlockIo}
    (hio : io.entry = none)
    (hlevel : ¬ (c.kind.minMaxLevel ≤ ref.maxLvlIdx ∧ ref.maxLvlIdx + 1 ≤ treeMaxMaxLevel) →
      f (e (TreeCheck.submitted c.kind prim ref) io) = none) :
    Ends f P (e (TreeCheck.submitted c.kind prim ref) io)
      (checkTree c.kind sha disk dataOk ref) fun _ t => ∃ obj io' obj', t = e obj io'
        ∧ Finishing c sha ref.root (some prim) obj io' obj' := by
  have hroot : (TreeCheck.submitted c.kind prim ref).lvls.rootState ≠ .done := nofun
  rw [checkTree]
  by_cases hlvl : c.kind.minMaxLevel ≤ ref.maxLvlIdx ∧ ref.maxLvlIdx + 1 ≤ treeMaxMaxLevel
  · rw [if_pos hlvl]
    obtain ⟨lvl, hmax⟩ : ∃ lvl, ref.maxLvlIdx = lvl + 1 :=
      ⟨ref.maxLvlIdx - 1, by have := hlvl.1; omega⟩
    have hact : (TreeCheck.submitted c.kind prim ref).Active c := ⟨nofun, hlvl.1, hlvl.2, hroot⟩
    have hfirst : (TreeCheck.submitted c.kind prim ref).FirstAt .root :=
      ⟨le_trans hmin hlvl.1, ⟨fun _ _ _ => rfl, fun _ _ _ _ _ => rfl⟩, rfl⟩
    rw [hmax, Nat.add_sub_cancel, Option.map_eq_bind]
    exact (root_ends host (hleaf ref.maxChildIdx) hact hmax hfirst rfl ⟨rfl, hio⟩).bind
      fun _ _ h => .ret h
  · rw [if_neg hlvl]
    exact .raise (host.running _ _ hroot) (hlevel hlvl)

/-! ### The library hands a tree over, and takes it back -/

/-- The primitive that is handed over is the one that was generated. -/
theorem SuperblockCheck.isGenerated_self {sb : SuperblockCheck} {prim : CheckPrim}
    (h : sb.generatedPrim = some prim) : sb.isGenerated prim = true := by
  rw [isGenerated, h]
  exact decide_eq_true ⟨rfl, rfl⟩

/-- Without a primitive nothing is handed over. -/
theorem TreeCheck.submitGenerated_idle {Leaf : Type} (c : TreeChecker Leaf) {obj : TreeCheck Leaf}
    {io : BlockIo} (h : obj.genPrim = none) : obj.submitGenerated c io = some (obj, io) := by
  have hpeek : obj.peekGeneratedPrimitive = none := by
    rw [peekGeneratedPrimitive, h, ite_self]
  rw [submitGenerated, hpeek]

variable (sha disk) in
/-- The tree of a snapshot is handed over. Its check begins in the same round. -/
theorem round_hand_vbd {sb sb' : SuperblockCheck} {prim : CheckPrim} (buf : BlockData)
    (hexec : sb.execute = some sb') (hstate : sb'.state = .checkSb)
    (hslot : sb'.sbSlotState = .vbdCheckStarted) (hgen : sb'.generatedPrim = some prim)
    (htag : prim.tag = .sbCheckVbdCheck) :
    round sha disk (resting sb buf)
      = round sha disk (vbdHost { sb' with sbSlotState := .vbdCheckDropped }
          (.submitted NodeKind.type1 prim (sb'.sbSlot.snapRef sb'.snapIdx))
          { entry := none, buf := buf }) := by
  obtain ⟨st, gen, last, slotState, slot, cont, snap, ft, mt, genPrim, subm⟩ := sb'
  obtain rfl : st = _ := hstate
  obtain rfl : slotState = _ := hslot
  obtain rfl : genPrim = _ := hgen
  obtain ⟨tag, n, success⟩ := prim
  obtain rfl : tag = _ := htag
  have hhand : (resting sb buf).executeSuperblockCheck
      = some (vbdHost ⟨.checkSb, gen, last, .vbdCheckDropped, slot, cont, snap, ft, mt,
          some ⟨.sbCheckVbdCheck, n, success⟩, subm⟩
          (.submitted NodeKind.type1 ⟨.sbCheckVbdCheck, n, success⟩ (cont.snapRef snap))
          { entry := none, buf := buf }) := by
    simp [executeSuperblockCheck, resting, hexec, submitSbPrim,
      SuperblockCheck.peekGeneratedPrimitive, handSbPrim, TreeCheck.PrimitiveAcceptable,
      TreeCheck.initializeObject, SuperblockCheck.peekGeneratedRef, TreeCheck.submitPrimitive,
      SuperblockCheck.dropGeneratedPrimitive, SuperblockCheck.isGenerated, CheckPrim.Equal,
      completeSbPrim, SuperblockCheck.peekCompletedPrimitive, vbdHost, TreeCheck.submitted]
  obtain ⟨hexec', hgen', hcomp'⟩ := SuperblockCheck.execute_dropped
    ⟨.checkSb, gen, last, .vbdCheckDropped, slot, cont, snap, ft, mt,
      some ⟨.sbCheckVbdCheck, n, success⟩, subm⟩ rfl (.inl rfl)
  rw [round_eq hhand]
  exact (round_eq (executeSuperblockCheck_eq (vbdHost _ _ _) hexec' hgen' hcomp')).symm

/-- The last call of the check of the tree of a snapshot. -/
theorem round_vbd_done {sb : SuperblockCheck} {prim : CheckPrim} {root : Type1Node}
    {obj obj' : TreeCheck Type1Node} {io : BlockIo} (hstate : sb.state = .checkSb)
    (hslot : sb.sbSlotState = .vbdCheckDropped) (hgen : sb.generatedPrim = some prim)
    (htag : prim.tag = .sbCheckVbdCheck)
    (hfin : Finishing VbdCheck.checker sha root (some prim) obj io obj') :
    round sha disk (vbdHost sb obj io)
      = some (resting { sb with sbSlotState := .vbdCheckDone } io.buf) := by
  obtain ⟨hexec', hgen', hcomp'⟩ := SuperblockCheck.execute_dropped sb hstate (.inl hslot)
  have hpeek : obj'.peekCompletedPrimitive = some prim :=
    (if_pos hfin.rootState).trans hfin.submPrim
  have hmark : sb.markVbdCheckComplete prim = some { sb with sbSlotState := .vbdCheckDone } := by
    rw [SuperblockCheck.markVbdCheckComplete, hslot, SuperblockCheck.isGenerated_self hgen]
    rfl
  have hvbd : (vbdHost sb obj io).executeVbdCheck sha
      = some (resting { sb with sbSlotState := .vbdCheckDone } io.buf) := by
    obtain ⟨entry, buf⟩ := io
    obtain rfl : entry = none := hfin.idle.entry
    rw [executeVbdCheck, show (vbdHost sb obj _).vbdChk = obj from rfl,
      VbdCheck.execute_eq hfin.active hfin.firstAt, hfin.execute]
    show (obj'.submitGenerated VbdCheck.checker _).bind _ = _
    rw [TreeCheck.submitGenerated_idle _ hfin.idle'.genPrim]
    simp only [Option.bind_some, hpeek]
    show (if prim.tag ≠ .sbCheckVbdCheck then none else (sb.markVbdCheckComplete prim).map _) = _
    rw [if_neg (not_not.mpr htag), hmark]
    rfl
  rw [round_eq (executeSuperblockCheck_eq (vbdHost sb obj io) hexec' hgen' hcomp')]
  show Option.map _ ((executeVbdCheck sha (vbdHost sb obj io)).bind _) = _
  rw [hvbd]
  rfl

/-- The two trees that the check of the free tree is used for. -/
inductive FtUse where
  | freeTree
  | metaTree

namespace FtUse

/-- The states of the check of the superblocks around the check of the tree. -/
def started : FtUse → SbSlotState
  | freeTree => .ftCheckStarted
  | metaTree => .mtCheckStarted

/-- The state in which the tree was handed over. -/
def dropped : FtUse → SbSlotState
  | freeTree => .ftCheckDropped
  | metaTree => .mtCheckDropped

/-- The tree. -/
def ref (sb : Superblock) : FtUse → TreeRef
  | freeTree => sb.freeRef
  | metaTree => sb.metaRef

/-- The check of the superblocks gets back the root of the tree. -/
def finished (sb : SuperblockCheck) (root : Type1Node) : FtUse → SuperblockCheck
  | freeTree => { sb with ft := root, sbSlotState := .ftCheckDone }
  | metaTree => { sb with mt := root, sbSlotState := .mtCheckDone }

/-- It is one of the two states in which the check of the superblocks waits. -/
theorem dropped_eq (u : FtUse) : u.dropped = .ftCheckDropped ∨ u.dropped = .mtCheckDropped := by
  cases u
  · exact .inl rfl
  · exact .inr rfl

end FtUse

variable (sha disk) in
/-- The free tree or the meta tree is handed over. Its check begins in the same
round. -/
theorem round_hand_ft (u : FtUse) {sb sb' : SuperblockCheck} {prim : CheckPrim} (buf : BlockData)
    (hexec : sb.execute = some sb') (hstate : sb'.state = .checkSb)
    (hslot : sb'.sbSlotState = u.started) (hgen : sb'.generatedPrim = some prim)
    (htag : prim.tag = .sbCheckFtCheck) :
    round sha disk (resting sb buf)
      = round sha disk (ftHost { sb' with sbSlotState := u.dropped }
          (.submitted NodeKind.type2 prim (u.ref sb'.sbSlot)) { entry := none, buf := buf }) := by
  obtain ⟨st, gen, last, slotState, slot, cont, snap, ft, mt, genPrim, subm⟩ := sb'
  obtain rfl : st = _ := hstate
  obtain rfl : slotState = _ := hslot
  obtain rfl : genPrim = _ := hgen
  obtain ⟨tag, n, success⟩ := prim
  obtain rfl : tag = _ := htag
  have hhand : (resting sb buf).executeSuperblockCheck
      = some (ftHost ⟨.checkSb, gen, last, u.dropped, slot, cont, snap, ft, mt,
          some ⟨.sbCheckFtCheck, n, success⟩, subm⟩
          (.submitted NodeKind.type2 ⟨.sbCheckFtCheck, n, success⟩ (u.ref cont))
          { entry := none, buf := buf }) := by
    cases u <;>
    simp [executeSuperblockCheck, resting, hexec, submitSbPrim, FtUse.started, FtUse.dropped,
      FtUse.ref, SuperblockCheck.peekGeneratedPrimitive, handSbPrim,
      TreeCheck.PrimitiveAcceptable, TreeCheck.initializeObject,
      SuperblockCheck.peekGeneratedRef, TreeCheck.submitPrimitive,
      SuperblockCheck.dropGeneratedPrimitive, SuperblockCheck.isGenerated, CheckPrim.Equal,
      completeSbPrim, SuperblockCheck.peekCompletedPrimitive, ftHost, TreeCheck.submitted]
  obtain ⟨hexec', hgen', hcomp'⟩ := SuperblockCheck.execute_dropped
    ⟨.checkSb, gen, last, u.dropped, slot, cont, snap, ft, mt,
      some ⟨.sbCheckFtCheck, n, success⟩, subm⟩ rfl (.inr u.dropped_eq)
  rw [round_eq hhand]
  exact (round_eq (executeSuperblockCheck_eq (ftHost _ _ _) hexec' hgen' hcomp')).symm

/-- The last call of the check of the free tree or the meta tree. -/
theorem round_ft_done (u : FtUse) {sb : SuperblockCheck} {prim : CheckPrim} {root : Type1Node}
    {obj obj' : TreeCheck Type2Node} {io : BlockIo} (hstate : sb.state = .checkSb)
    (hslot : sb.sbSlotState = u.dropped) (hgen : sb.generatedPrim = some prim)
    (htag : prim.tag = .sbCheckFtCheck)
    (hfin : Finishing FtCheck.checker sha root (some prim) obj io obj') :
    round sha disk (ftHost sb obj io) = some (resting (u.finished sb root) io.buf) := by
  obtain ⟨hexec', hgen', hcomp'⟩ := SuperblockCheck.execute_dropped sb hstate
    (.inr (hslot ▸ u.dropped_eq))
  have hpeek : obj'.peekCompletedPrimitive = some prim :=
    (if_pos hfin.rootState).trans hfin.submPrim
  have hmark : sb.markFtCheckComplete prim obj'.lvls.root = some (u.finished sb root) := by
    rw [SuperblockCheck.markFtCheckComplete, hslot, SuperblockCheck.isGenerated_self hgen,
      hfin.root]
    cases u <;> rfl
  have hft : (ftHost sb obj io).executeFreeTreeCheck sha
      = some (resting (u.finished sb root) io.buf) := by
    obtain ⟨entry, buf⟩ := io
    obtain rfl : entry = none := hfin.idle.entry
    rw [executeFreeTreeCheck, show (ftHost sb obj _).ftChk = obj from rfl,
      FtCheck.execute_eq hfin.active hfin.firstAt, hfin.execute]
    show (obj'.submitGenerated FtCheck.checker _).bind _ = _
    rw [TreeCheck.submitGenerated_idle _ hfin.idle'.genPrim]
    simp only [Option.bind_some, hpeek]
    show (if prim.tag ≠ .sbCheckFtCheck ∧ prim.tag ≠ .sbCheckMtCheck then none
      else (sb.markFtCheckComplete prim obj'.lvls.root).map _) = _
    rw [if_neg (fun h => h.1 htag), hmark]
    rfl
  rw [round_eq (executeSuperblockCheck_eq (ftHost sb obj io) hexec' hgen' hcomp'),
    executeVbdCheck_idle rfl, Option.bind_some]
  show Option.map _ ((executeFreeTreeCheck sha (ftHost sb obj io)).bind _) = _
  rw [hft]
  rfl

/-! ### The check of a tree within the library -/

/-- The root is the first place that is open. -/
theorem TreeCheck.firstOpen_submitted {Leaf : Type} (kind : NodeKind Leaf) (prim : CheckPrim)
    (ref : TreeRef) : (submitted kind prim ref).firstOpen = some .root :=
  Levels.firstOpen_eq_root (fun _ _ => rfl) (fun _ _ _ _ _ => rfl) rfl

/-- A root whose level is not one of the type. -/
theorem TreeCheck.executeAt_submitted {Leaf : Type} (c : TreeChecker Leaf) (prim : CheckPrim)
    {ref : TreeRef} (h : ¬ ref.maxLvlIdx + 1 ≤ treeMaxMaxLevel) :
    (submitted c.kind prim ref).executeAt c sha (some .root) = none := if_neg h

/-- **The tree of a snapshot is checked.** -/
theorem vbd_ends {sb : SuperblockCheck} {prim : CheckPrim} (ref : TreeRef) (buf : BlockData)
    (hstate : sb.state = .checkSb) (hslot : sb.sbSlotState = .vbdCheckDropped)
    (hgen : sb.generatedPrim = some prim) (htag : prim.tag = .sbCheckVbdCheck) :
    Ends (round sha disk) (fun lib => ¬ lib.Complete)
      (vbdHost sb (.submitted NodeKind.type1 prim ref) { entry := none, buf := buf })
      (checkVbd sha disk ref) fun _ t =>
        ∃ buf', t = resting { sb with sbSlotState := .vbdCheckDone } buf' := by
  have hhost := hosted_vbd sha disk hstate hslot
  refine (tree_ends hhost (vbd_leaf_ends hhost) (le_refl 1) prim ref rfl fun hlevel => ?_).andThen
    ?_
  · have hsubm : (TreeCheck.submitted NodeKind.type1 prim ref).submPrim ≠ none := nofun
    refine round_vbd_raise hstate hslot _ ?_
    show VbdCheck.execute sha (.submitted NodeKind.type1 prim ref) = none
    rw [VbdCheck.execute, if_neg hsubm, TreeCheck.firstOpen_submitted]
    by_cases hmin : ref.maxLvlIdx < 1
    · exact if_pos hmin
    · refine (if_neg hmin).trans (TreeCheck.executeAt_submitted VbdCheck.checker prim
        fun hmax => ?_)
      exact hlevel ⟨Nat.not_lt.mp hmin, hmax⟩
  · rintro _ t ⟨obj, io, obj', rfl, hfin⟩
    exact ⟨_, .single nofun (round_vbd_done hstate hslot hgen htag hfin), io.buf, rfl⟩

/-- **The free tree or the meta tree is checked.** -/
theorem ft_ends (u : FtUse) {sb : SuperblockCheck} {prim : CheckPrim} (ref : TreeRef)
    (buf : BlockData) (hstate : sb.state = .checkSb) (hslot : sb.sbSlotState = u.dropped)
    (hgen : sb.generatedPrim = some prim) (htag : prim.tag = .sbCheckFtCheck) :
    Ends (round sha disk) (fun lib => ¬ lib.Complete)
      (ftHost sb (.submitted NodeKind.type2 prim ref) { entry := none, buf := buf })
      (checkFt sha disk ref) fun _ t => ∃ buf', t = resting (u.finished sb ref.root) buf' := by
  have hhost := hosted_ft sha disk hstate (hslot ▸ u.dropped_eq)
  refine (tree_ends hhost (ft_leaf_ends hhost) (show 1 ≤ freeTreeMinMaxLevel by decide) prim ref rfl
    fun hlevel => ?_).andThen ?_
  · have hsubm : (TreeCheck.submitted NodeKind.type2 prim ref).submPrim ≠ none := nofun
    refine round_ft_raise hstate (hslot ▸ u.dropped_eq) _ ?_
    show FtCheck.execute sha (.submitted NodeKind.type2 prim ref) = none
    rw [FtCheck.execute, if_neg hsubm, TreeCheck.firstOpen_submitted]
    by_cases hmin : ref.maxLvlIdx < 2
    · exact if_pos hmin
    · refine (if_neg hmin).trans (TreeCheck.executeAt_submitted FtCheck.checker prim fun hmax => ?_)
      exact hlevel ⟨Nat.not_lt.mp hmin, hmax⟩
  · rintro _ t ⟨obj, io, obj', rfl, hfin⟩
    exact ⟨_, .single nofun (round_ft_done u hstate hslot hgen htag hfin), io.buf, rfl⟩

/-! ## The run

The stretches are put together: the snapshots, the free tree, the meta tree, and
before them the search for the superblock. -/

/-- The check of the superblock `sb`. -/
structure ChecksSb (sb : Superblock) (obj : SuperblockCheck) : Prop where
  /-- The superblock is checked. -/
  state : obj.state = .checkSb
  /-- It is this one. -/
  sbSlot : obj.sbSlot = sb
  /-- The check has the primitive of the library. -/
  subm : obj.submittedPrim = some sbCheckPrim

/-- The check of a superblock goes on. -/
theorem SuperblockCheck.execute_checkSb {obj : SuperblockCheck} {sb : Superblock}
    (h : ChecksSb sb obj) : obj.execute = obj.executeCheck := by
  rw [execute, h.state, if_neg (by rw [h.subm]; nofun)]

/-- **The tree of a snapshot is checked**, if the snapshot is valid. -/
theorem snap_ends {sb : Superblock} {obj : SuperblockCheck} (buf : BlockData)
    (h : ChecksSb sb obj) (hvalid : sb.Valid) (hslot : obj.sbSlotState = .readDone) :
    Ends (round sha disk) (fun lib => ¬ lib.Complete) (resting obj buf)
      (checkSnap sha disk sb obj.snapIdx) fun _ t => ∃ obj' buf', t = resting obj' buf'
        ∧ ChecksSb sb obj' ∧ obj'.snapIdx = obj.snapIdx ∧ obj'.sbSlotState = .vbdCheckDone := by
  obtain ⟨hstate, rfl, hsubm⟩ := h
  have hexec := SuperblockCheck.execute_checkSb ⟨hstate, rfl, hsubm⟩
  simp only [SuperblockCheck.executeCheck, hslot, hvalid, if_true] at hexec
  rw [checkSnap]
  by_cases hsnap : (obj.sbSlot.snapshots obj.snapIdx).valid = true
  · rw [if_pos hsnap] at hexec ⊢
    refine .of_step_eq (not_complete_resting _ _)
      (round_hand_vbd sha disk buf hexec hstate rfl rfl rfl) ?_
      ((vbd_ends (obj.sbSlot.snapRef obj.snapIdx) buf ?_ rfl rfl rfl).imp ?_)
    · rintro _ ⟨obj'', buf', heq, -, -, hdone⟩
      have hslots := congrArg (fun lib => lib.sbChk.sbSlotState) heq
      exact absurd (hslots.trans hdone) nofun
    · exact hstate
    · rintro _ t ⟨buf', rfl⟩
      exact ⟨_, buf', rfl, ⟨hstate, rfl, hsubm⟩, rfl, rfl⟩
  · rw [if_neg hsnap] at hexec ⊢
    refine .step (not_complete_resting _ _) (round_resting buf hexec rfl rfl) (.ret ?_)
    exact ⟨_, buf, rfl, ⟨hstate, rfl, hsubm⟩, rfl, rfl⟩

/-- What is left of the indices after the first of them. -/
theorem drop_finRange_tail {n : ℕ} {i : Fin n} {l : List (Fin n)}
    (h : (List.finRange n).drop i.val = i :: l) : (List.finRange n).drop (i.val + 1) = l := by
  rw [← List.tail_drop, h, List.tail_cons]

/-- What is left of the indices begins with the next one. -/
theorem drop_finRange_cons {n k : ℕ} (hk : k < n) :
    (List.finRange n).drop k = ⟨k, hk⟩ :: (List.finRange n).drop (k + 1) := by
  have hlen : k < (List.finRange n).length := by rw [List.length_finRange]; exact hk
  rw [List.drop_eq_getElem_cons hlen, List.getElem_finRange]
  rfl

/-- The snapshots that are still to be checked. -/
def AtSnap : List SnapshotsIndex → SuperblockCheck → Prop
  | [], obj => obj.sbSlotState = .vbdCheckDone ∧ ¬ obj.snapIdx.val + 1 < superblockNrOfSnapshots
  | i :: l, obj => obj.sbSlotState = .readDone ∧ obj.snapIdx = i
      ∧ (List.finRange superblockNrOfSnapshots).drop i.val = i :: l

/-- **The trees of all snapshots are checked**, by induction on the snapshots
that are left. -/
theorem snaps_ends {sb : Superblock} {obj : SuperblockCheck} (buf : BlockData)
    (h : ChecksSb sb obj) (hvalid : sb.Valid) (hslot : obj.sbSlotState = .readDone)
    (hsnap : obj.snapIdx = 0) :
    Ends (round sha disk) (fun lib => ¬ lib.Complete) (resting obj buf)
      ((List.finRange superblockNrOfSnapshots).foldlM (fun _ i => checkSnap sha disk sb i) ())
      fun _ t => ∃ obj' buf', t = resting obj' buf' ∧ ChecksSb sb obj' ∧ AtSnap [] obj' := by
  have hall : List.finRange superblockNrOfSnapshots
      = 0 :: (List.finRange superblockNrOfSnapshots).drop 1 :=
    drop_finRange_cons (n := superblockNrOfSnapshots) (k := 0) (by decide)
  refine Ends.foldlM (Q := fun l _ t => ∃ obj buf, t = resting obj buf ∧ ChecksSb sb obj
    ∧ AtSnap l obj) ?_ _ ⟨obj, buf, rfl, h, ?_⟩
  · rintro i l _ _ ⟨obj, buf, rfl, h, hslot, rfl, hdrop⟩
    refine (snap_ends buf h hvalid hslot).andThen ?_
    rintro _ _ ⟨obj', buf', rfl, h', hsnap', hslot'⟩
    rw [← hsnap'] at hdrop
    have htail := drop_finRange_tail hdrop
    by_cases hnext : obj'.snapIdx.val + 1 < superblockNrOfSnapshots
    · have hexec := SuperblockCheck.execute_checkSb h'
      simp only [SuperblockCheck.executeCheck, hslot', hnext, dif_pos] at hexec
      refine ⟨_, .single nofun (round_resting buf' hexec rfl rfl), _, buf', rfl,
        ⟨h'.state, h'.sbSlot, h'.subm⟩, ?_⟩
      rw [drop_finRange_cons hnext] at htail
      rw [← htail]
      exact ⟨rfl, rfl, drop_finRange_cons hnext⟩
    · rw [List.drop_eq_nil_of_le (by rw [List.length_finRange]; omega)] at htail
      rw [← htail]
      exact ⟨_, .refl _, obj', buf', rfl, h', hslot', hnext⟩
  · rw [hall]
    exact ⟨hslot, hsnap, hall⟩

/-- **The free tree is checked.** Its root comes back as it was handed over. -/
theorem freeTree_ends {sb : Superblock} {obj : SuperblockCheck} (buf : BlockData)
    (h : ChecksSb sb obj) (hsnap : AtSnap [] obj) :
    Ends (round sha disk) (fun lib => ¬ lib.Complete) (resting obj buf)
      (checkFt sha disk sb.freeRef) fun _ t => ∃ obj' buf', t = resting obj' buf'
        ∧ ChecksSb sb obj' ∧ obj'.sbSlotState = .ftCheckDone ∧ obj'.ft.hash = sb.freeHash
        ∧ ∃ prim, obj'.generatedPrim = some prim ∧ prim.tag = .sbCheckFtCheck := by
  obtain ⟨hslot, hlast⟩ := hsnap
  obtain ⟨hstate, rfl, hsubm⟩ := h
  have hexec := SuperblockCheck.execute_checkSb ⟨hstate, rfl, hsubm⟩
  simp only [SuperblockCheck.executeCheck, hslot, hlast, dif_neg, not_false_eq_true] at hexec
  refine .of_step_eq (not_complete_resting _ _)
    (round_hand_ft sha disk .freeTree buf hexec hstate rfl rfl rfl) ?_
    ((ft_ends .freeTree obj.sbSlot.freeRef buf ?_ rfl rfl rfl).imp ?_)
  · rintro _ ⟨obj', buf', heq, -, hdone, -⟩
    exact SbSlotState.noConfusion
      ((congrArg (fun lib => lib.sbChk.sbSlotState) heq).trans hdone)
  · exact hstate
  · rintro _ _ ⟨buf', rfl⟩
    exact ⟨_, buf', rfl, ⟨hstate, rfl, hsubm⟩, rfl, rfl, _, rfl, rfl⟩

/-- **The meta tree is checked**, by the primitive for the free tree. -/
theorem metaTree_ends {sb : Superblock} {obj : SuperblockCheck} {prim : CheckPrim}
    (buf : BlockData) (h : ChecksSb sb obj) (hslot : obj.sbSlotState = .ftCheckDone)
    (hhash : obj.ft.hash = sb.freeHash) (hgen : obj.generatedPrim = some prim)
    (htag : prim.tag = .sbCheckFtCheck) :
    Ends (round sha disk) (fun lib => ¬ lib.Complete) (resting obj buf)
      (checkFt sha disk sb.metaRef) fun _ t => ∃ obj' buf', t = resting obj' buf'
        ∧ ChecksSb sb obj' ∧ obj'.sbSlotState = .mtCheckDone ∧ obj'.mt.hash = sb.metaHash := by
  obtain ⟨hstate, rfl, hsubm⟩ := h
  have hexec := SuperblockCheck.execute_checkSb ⟨hstate, rfl, hsubm⟩
  simp only [SuperblockCheck.executeCheck, hslot, hhash, if_true] at hexec
  refine .of_step_eq (not_complete_resting _ _)
    (round_hand_ft sha disk .metaTree buf hexec hstate rfl hgen htag) ?_
    ((ft_ends .metaTree obj.sbSlot.metaRef buf ?_ rfl ?_ htag).imp ?_)
  · rintro _ ⟨obj', buf', heq, -, hdone, -⟩
    exact SbSlotState.noConfusion
      ((congrArg (fun lib => lib.sbChk.sbSlotState) heq).trans hdone)
  · exact hstate
  · exact hgen
  · rintro _ _ ⟨buf', rfl⟩
    exact ⟨_, buf', rfl, ⟨hstate, rfl, hsubm⟩, rfl, rfl⟩

/-- **A superblock is checked**, to the completion of the request. -/
theorem sb_ends {sb : Superblock} {obj : SuperblockCheck} (buf : BlockData)
    (h : ChecksSb sb obj) (hslot : obj.sbSlotState = .readDone) (hsnap : obj.snapIdx = 0) :
    Ends (round sha disk) (fun lib => ¬ lib.Complete) (resting obj buf) (checkSb sha disk sb)
      fun _ t => t.Complete := by
  rw [checkSb]
  by_cases hvalid : sb.Valid
  · rw [if_pos hvalid]
    refine (snaps_ends buf h hvalid hslot hsnap).bind ?_
    rintro _ _ ⟨obj, buf, rfl, h, hlast⟩
    refine (freeTree_ends buf h hlast).bind ?_
    rintro _ _ ⟨obj, buf, rfl, h, hslot, hhash, prim, hgen, htag⟩
    refine (metaTree_ends buf h hslot hhash hgen htag).andThen ?_
    rintro _ _ ⟨obj, buf, rfl, ⟨hstate, rfl, hsubm⟩, hslot, hhash⟩
    have hexec := SuperblockCheck.execute_checkSb ⟨hstate, rfl, hsubm⟩
    simp only [SuperblockCheck.executeCheck, hslot, hhash, if_true] at hexec
    obtain ⟨t, ht, hcomplete⟩ := round_done sha disk buf hexec rfl hsubm
    exact ⟨t, .single (not_complete_resting _ _) ht, hcomplete⟩
  · rw [if_neg hvalid]
    obtain ⟨hstate, rfl, hsubm⟩ := h
    have hexec := SuperblockCheck.execute_checkSb ⟨hstate, rfl, hsubm⟩
    simp only [SuperblockCheck.executeCheck, hslot, hvalid, if_false] at hexec
    obtain ⟨t, ht, hcomplete⟩ := round_done sha disk buf hexec rfl hsubm
    exact .step (not_complete_resting _ _) ht (.ret hcomplete)

/-! ### The search for the superblock -/

/-- The slots that are still to be inspected. After the last one the slot that
is remembered is checked. -/
def AtSlot : List SuperblocksIndex → SuperblockCheck → Prop
  | [], obj => obj.state = .checkSb ∧ obj.sbSlotIdx = obj.lastSbSlotIdx
  | i :: l, obj => obj.state = .inspectSbs ∧ obj.sbSlotIdx = i
      ∧ (List.finRange nrOfSuperblockSlots).drop i.val = i :: l

/-- The check of the superblocks before it reads a slot. -/
structure Searching (best : ℕ × SuperblocksIndex) (obj : SuperblockCheck) : Prop where
  /-- The next slot was not read yet. -/
  sbSlotState : obj.sbSlotState = .init
  /-- The search has found this so far. -/
  best : (obj.highestGen, obj.lastSbSlotIdx) = best
  /-- No snapshot was checked yet. -/
  snapIdx : obj.snapIdx = 0
  /-- The check has the primitive of the library. -/
  subm : obj.submittedPrim = some sbCheckPrim

/-- The next slot, if there is one. -/
theorem SuperblockCheck.nextSlot_spec {obj : SuperblockCheck} {l : List SuperblocksIndex}
    (hstate : obj.state = .inspectSbs) (hsnap : obj.snapIdx = 0)
    (hsubm : obj.submittedPrim = some sbCheckPrim)
    (hdrop : (List.finRange nrOfSuperblockSlots).drop obj.sbSlotIdx.val = obj.sbSlotIdx :: l) :
    AtSlot l obj.nextSlot ∧ Searching (obj.highestGen, obj.lastSbSlotIdx) obj.nextSlot := by
  have htail := drop_finRange_tail hdrop
  unfold nextSlot
  by_cases hnext : obj.sbSlotIdx.val + 1 < nrOfSuperblockSlots
  · rw [dif_pos hnext]
    rw [drop_finRange_cons hnext] at htail
    rw [← htail]
    exact ⟨⟨hstate, rfl, drop_finRange_cons hnext⟩, rfl, rfl, hsnap, hsubm⟩
  · rw [dif_neg hnext]
    rw [List.drop_eq_nil_of_le (by rw [List.length_finRange]; omega)] at htail
    rw [← htail]
    exact ⟨⟨rfl, rfl⟩, rfl, rfl, hsnap, hsubm⟩

/-- What the search makes of a slot it has read. -/
theorem SuperblockCheck.execute_inspected {obj : SuperblockCheck} {l : List SuperblocksIndex}
    (sb : Superblock) (hstate : obj.state = .inspectSbs) (hsnap : obj.snapIdx = 0)
    (hsubm : obj.submittedPrim = some sbCheckPrim)
    (hdrop : (List.finRange nrOfSuperblockSlots).drop obj.sbSlotIdx.val = obj.sbSlotIdx :: l) :
    ∃ obj', (obj.read sb).execute = some obj' ∧ AtSlot l obj'
      ∧ Searching (if sb.Valid ∧ sb.curr.gen > obj.highestGen then (sb.curr.gen, obj.sbSlotIdx)
        else (obj.highestGen, obj.lastSbSlotIdx)) obj' := by
  have hexec : (obj.read sb).execute = some (obj.read sb).remember.nextSlot := by
    rw [execute, if_neg (by rw [show (obj.read sb).submittedPrim = _ from hsubm]; nofun),
      show (obj.read sb).state = _ from hstate]
    rfl
  refine ⟨_, hexec, ?_⟩
  by_cases hnew : sb.Valid ∧ sb.curr.gen > obj.highestGen
  · have hrem : (obj.read sb).remember = { obj.read sb with
        highestGen := sb.curr.gen, lastSbSlotIdx := obj.sbSlotIdx } := if_pos hnew
    rw [if_pos hnew, hrem]
    exact nextSlot_spec hstate hsnap hsubm hdrop
  · have hrem : (obj.read sb).remember = obj.read sb := if_neg hnew
    rw [if_neg hnew, hrem]
    exact nextSlot_spec hstate hsnap hsubm hdrop

/-- **All slots are inspected**, by induction on those that are left. The slot
that is remembered may be none of them if no slot is valid. -/
theorem slots_ends {best : ℕ × SuperblocksIndex} {obj : SuperblockCheck} (buf : BlockData)
    (h : Searching best obj) (hstate : obj.state = .inspectSbs) (hslot : obj.sbSlotIdx = 0) :
    Ends (round sha disk) (fun lib => ¬ lib.Complete) (resting obj buf)
      ((List.finRange nrOfSuperblockSlots).foldlM (inspectSlot disk) best)
      fun best t => ∃ obj' buf', t = resting obj' buf' ∧ Searching best obj' ∧ AtSlot [] obj' := by
  have hall : List.finRange nrOfSuperblockSlots
      = 0 :: (List.finRange nrOfSuperblockSlots).drop 1 :=
    drop_finRange_cons (n := nrOfSuperblockSlots) (k := 0) (by decide)
  refine Ends.foldlM (Q := fun l best t => ∃ obj buf, t = resting obj buf ∧ Searching best obj
    ∧ AtSlot l obj) ?_ _ ⟨obj, buf, rfl, h, ?_⟩
  · rintro i l _ _ ⟨obj, buf, rfl, ⟨hinit, rfl, hsnap, hsubm⟩, hstate, rfl, hdrop⟩
    have hsubm' : obj.submittedPrim ≠ none := by rw [hsubm]; nofun
    rw [inspectSlot, Option.map_eq_bind]
    refine (read_ends sha disk buf hinit hsubm').bind ?_
    rintro sb _ rfl
    obtain ⟨obj', hexec, hat, hsearch⟩ :=
      SuperblockCheck.execute_inspected sb hstate hsnap hsubm hdrop
    refine .step (not_complete_resting _ _) (round_resting _ hexec ?_ ?_)
      (.ret ⟨obj', _, rfl, hsearch, hat⟩)
    · rw [SuperblockCheck.peekGeneratedPrimitive, hsearch.sbSlotState]
    · rw [SuperblockCheck.peekCompletedPrimitive, hsearch.sbSlotState]
      rfl
  · rw [hall]
    exact ⟨hstate, hslot, hall⟩

/-! ### The whole run -/

/-- **The library completes its request exactly when the check of the device has
an outcome**, for every content of the memory. -/
theorem completes_iff (sha : BlockData → Hash) (disk : Disk) (memory : SuperblockCheck)
    (buf : BlockData) :
    Completes sha disk memory buf ↔ (checkDevice sha disk memory.lastSbSlotIdx).isSome := by
  have hstart : (initializeObject memory buf).submitClientRequest
      = some (resting { memory.initializeObject with submittedPrim := some sbCheckPrim } buf) := rfl
  have hends : Ends (round sha disk) (fun lib => ¬ lib.Complete)
      (resting { memory.initializeObject with submittedPrim := some sbCheckPrim } buf)
      (checkDevice sha disk memory.lastSbSlotIdx) fun _ t => t.Complete := by
    rw [checkDevice]
    refine Ends.bind (slots_ends buf ⟨rfl, rfl, rfl, rfl⟩ rfl rfl) ?_
    rintro _ _ ⟨obj, buf, rfl, ⟨hinit, rfl, hsnap, hsubm⟩, hstate, hslot⟩
    have hsubm' : obj.submittedPrim ≠ none := by rw [hsubm]; nofun
    have hread := read_ends sha disk buf hinit hsubm'
    rw [hslot] at hread
    refine hread.bind ?_
    rintro sb _ rfl
    exact sb_ends _ ⟨hstate, rfl, hsubm⟩ rfl hsnap
  refine Iff.trans ?_ (hends.reaches_iff fun _ _ h => h)
  constructor
  · rintro ⟨lib, hlib, hreach⟩
    obtain rfl := Option.some.inj (hstart.symm.trans hlib)
    exact hreach
  · exact fun hreach => ⟨_, hstart, hreach⟩

end Cbe
