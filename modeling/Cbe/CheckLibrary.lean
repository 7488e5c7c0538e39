import Cbe.CheckTrees

/-!
# The check library

`Superblock_Check` reads the eight superblock slots, remembers the one whose
current snapshot has the greatest generation, reads that slot once more and has
the trees of each valid snapshot, the free tree and the meta tree checked, the
last two by the same module. `Check_Library` connects it with the checks of the
trees and with block I/O.

The search compares with a greatest generation of zero at first, so it does not
remember a slot unless there is a generation above zero; the slot number that is
used then is the one that happens to be in memory, as no procedure initializes
it.
-/

namespace Cbe

open LevelScan PartialRun

/-- `State_Type` of the check of the superblocks. -/
inductive SbCheckState where
  | inspectSbs
  | checkSb
  deriving DecidableEq

/-- `SB_Slot_State_Type`. -/
inductive SbSlotState where
  | init
  | readStarted
  | readDropped
  | readDone
  | vbdCheckStarted
  | vbdCheckDropped
  | vbdCheckDone
  | ftCheckStarted
  | ftCheckDropped
  | ftCheckDone
  | mtCheckStarted
  | mtCheckDropped
  | mtCheckDone
  | done
  deriving DecidableEq

/-- `Superblock_Check.Object_Type`. -/
structure SuperblockCheck where
  /-- Whether the slots are inspected or the superblock is checked. -/
  state : SbCheckState
  /-- The greatest generation that was found. -/
  highestGen : ℕ
  /-- The slot that it was found in. -/
  lastSbSlotIdx : SuperblocksIndex
  /-- How far the slot at hand has come. -/
  sbSlotState : SbSlotState
  /-- The slot at hand. -/
  sbSlotIdx : SuperblocksIndex
  /-- The superblock that was read from it. -/
  sbSlot : Superblock
  /-- The snapshot whose tree is checked. -/
  snapIdx : SnapshotsIndex
  /-- The root of the free tree that is checked. -/
  ft : Type1Node
  /-- The root of the meta tree that is checked. -/
  mt : Type1Node
  /-- The primitive for another module. -/
  generatedPrim : Option CheckPrim
  /-- The primitive of the library. -/
  submittedPrim : Option CheckPrim

namespace Superblock

/-- The root and the geometry of the tree of a snapshot. -/
def snapRef (sb : Superblock) (i : SnapshotsIndex) : TreeRef where
  root := { pba := (sb.snapshots i).pba, gen := (sb.snapshots i).gen,
            hash := (sb.snapshots i).hash }
  maxLvlIdx := (sb.snapshots i).maxLevel
  maxChildIdx := sb.degree - 1
  nrOfLeafs := (sb.snapshots i).nrOfLeafs

/-- The root and the geometry of the free tree. -/
def freeRef (sb : Superblock) : TreeRef where
  root := { pba := sb.freeNumber, gen := sb.freeGen, hash := sb.freeHash }
  maxLvlIdx := sb.freeMaxLevel
  maxChildIdx := sb.freeDegree - 1
  nrOfLeafs := sb.freeLeafs

/-- The root and the geometry of the meta tree. -/
def metaRef (sb : Superblock) : TreeRef where
  root := { pba := sb.metaNumber, gen := sb.metaGen, hash := sb.metaHash }
  maxLvlIdx := sb.metaMaxLevel
  maxChildIdx := sb.metaDegree - 1
  nrOfLeafs := sb.metaLeafs

end Superblock

namespace SuperblockCheck

/-- `Initialize_Object`, which leaves the remembered slot and the root of the
meta tree as they are in memory. -/
def initializeObject (obj : SuperblockCheck) : SuperblockCheck where
  state := .inspectSbs
  highestGen := 0
  lastSbSlotIdx := obj.lastSbSlotIdx
  sbSlotState := .init
  sbSlotIdx := 0
  sbSlot := superblockInvalid
  snapIdx := 0
  ft := type1NodeInvalid
  mt := obj.mt
  generatedPrim := none
  submittedPrim := none

/-- `Submit_Primitive`. -/
def submitPrimitive (obj : SuperblockCheck) (prim : CheckPrim) : Option SuperblockCheck :=
  if obj.submittedPrim.isSome then none
  else some { obj with submittedPrim := some prim, sbSlotState := .init }

/-- `Peek_Completed_Primitive`. -/
def peekCompletedPrimitive (obj : SuperblockCheck) : Option CheckPrim :=
  if obj.sbSlotState = .done then obj.submittedPrim else none

/-- The primitive that reads the slot at hand. -/
def readPrim (obj : SuperblockCheck) : CheckPrim :=
  { tag := .sbCheckBlkIo, blockNumber := obj.sbSlotIdx }

/-- The slot at hand is remembered if its generation is greater. -/
def remember (obj : SuperblockCheck) : SuperblockCheck :=
  if obj.sbSlot.Valid ∧ obj.sbSlot.curr.gen > obj.highestGen then
    { obj with highestGen := obj.sbSlot.curr.gen, lastSbSlotIdx := obj.sbSlotIdx }
  else obj

/-- The next slot, or the check of the one that is remembered. -/
def nextSlot (obj : SuperblockCheck) : SuperblockCheck :=
  if h : obj.sbSlotIdx.val + 1 < nrOfSuperblockSlots then
    { obj with sbSlotIdx := ⟨obj.sbSlotIdx.val + 1, h⟩, sbSlotState := .init }
  else
    { obj with state := .checkSb, sbSlotIdx := obj.lastSbSlotIdx, sbSlotState := .init }

/-- `Execute` while the slots are inspected. -/
def executeInspect (obj : SuperblockCheck) : SuperblockCheck :=
  match obj.sbSlotState with
  | .init => { obj with sbSlotState := .readStarted, generatedPrim := some obj.readPrim }
  | .readDone => obj.remember.nextSlot
  | _ => obj

/-- `Execute` while a superblock is checked. The primitive for the meta tree is
the one that was generated for the free tree. -/
def executeCheck (obj : SuperblockCheck) : Option SuperblockCheck :=
  match obj.sbSlotState with
  | .init => some { obj with sbSlotState := .readStarted, generatedPrim := some obj.readPrim }
  | .readDone =>
    if obj.sbSlot.Valid then
      if (obj.sbSlot.snapshots obj.snapIdx).valid = true then
        some {
          obj with
          sbSlotState := .vbdCheckStarted
          generatedPrim := some {
            tag := .sbCheckVbdCheck, blockNumber := (obj.sbSlot.snapshots obj.snapIdx).pba } }
      else some { obj with sbSlotState := .vbdCheckDone }
    else some { obj with sbSlotState := .done }
  | .vbdCheckDone =>
    if h : obj.snapIdx.val + 1 < superblockNrOfSnapshots then
      some { obj with snapIdx := ⟨obj.snapIdx.val + 1, h⟩, sbSlotState := .readDone }
    else
      some {
        obj with
        snapIdx := 0
        generatedPrim := some { tag := .sbCheckFtCheck, blockNumber := obj.sbSlot.freeNumber }
        sbSlotState := .ftCheckStarted }
  | .ftCheckDone =>
    if obj.ft.hash = obj.sbSlot.freeHash then some { obj with sbSlotState := .mtCheckStarted }
    else none
  | .mtCheckDone =>
    if obj.mt.hash = obj.sbSlot.metaHash then some { obj with sbSlotState := .done } else none
  | _ => some obj

/-- `Execute`. -/
def execute (obj : SuperblockCheck) : Option SuperblockCheck :=
  if obj.submittedPrim = none then some obj
  else
    match obj.state with
    | .inspectSbs => some obj.executeInspect
    | .checkSb => obj.executeCheck

/-- `Peek_Generated_Primitive`. -/
def peekGeneratedPrimitive (obj : SuperblockCheck) : Option CheckPrim :=
  match obj.sbSlotState with
  | .readStarted => obj.generatedPrim
  | .vbdCheckStarted => obj.generatedPrim
  | .ftCheckStarted => obj.generatedPrim
  | .mtCheckStarted => obj.generatedPrim
  | _ => none

/-- `Peek_Generated_Root`, `Peek_Generated_Max_Lvl_Idx`,
`Peek_Generated_Max_Child_Idx` and `Peek_Generated_Nr_Of_Leafs`. -/
def peekGeneratedRef (obj : SuperblockCheck) : Option TreeRef :=
  match obj.sbSlotState with
  | .vbdCheckStarted => some (obj.sbSlot.snapRef obj.snapIdx)
  | .ftCheckStarted => some obj.sbSlot.freeRef
  | .mtCheckStarted => some obj.sbSlot.metaRef
  | _ => none

/-- The check that the primitive is the generated one. -/
def isGenerated (obj : SuperblockCheck) (prim : CheckPrim) : Bool :=
  match obj.generatedPrim with
  | none => false
  | some generated => decide (generated.Equal prim)

/-- `Drop_Generated_Primitive`. -/
def dropGeneratedPrimitive (obj : SuperblockCheck) (prim : CheckPrim) : Option SuperblockCheck :=
  if obj.isGenerated prim = false then none
  else
    match obj.sbSlotState with
    | .readStarted => some { obj with sbSlotState := .readDropped }
    | .ftCheckStarted => some { obj with sbSlotState := .ftCheckDropped }
    | .mtCheckStarted => some { obj with sbSlotState := .mtCheckDropped }
    | .vbdCheckStarted => some { obj with sbSlotState := .vbdCheckDropped }
    | _ => none

/-- `Mark_Generated_Blk_IO_Primitive_Complete`. The conversion of the block
raises for a value outside its type. -/
def markBlkIoComplete (obj : SuperblockCheck) (prim : CheckPrim) (data : BlockData) :
    Option SuperblockCheck :=
  match obj.sbSlotState with
  | .readDropped =>
    if obj.isGenerated prim = false then none
    else
      (superblockFromBlockData data).map fun sb =>
        { obj with sbSlotState := .readDone, sbSlot := sb }
  | _ => none

/-- `Mark_Generated_VBD_Check_Primitive_Complete`. -/
def markVbdCheckComplete (obj : SuperblockCheck) (prim : CheckPrim) : Option SuperblockCheck :=
  match obj.sbSlotState with
  | .vbdCheckDropped =>
    if obj.isGenerated prim = false then none else some { obj with sbSlotState := .vbdCheckDone }
  | _ => none

/-- `Mark_Generated_FT_Check_Primitive_Complete`. -/
def markFtCheckComplete (obj : SuperblockCheck) (prim : CheckPrim) (root : Type1Node) :
    Option SuperblockCheck :=
  match obj.sbSlotState with
  | .ftCheckDropped =>
    if obj.isGenerated prim = false then none
    else some { obj with ft := root, sbSlotState := .ftCheckDone }
  | .mtCheckDropped =>
    if obj.isGenerated prim = false then none
    else some { obj with mt := root, sbSlotState := .mtCheckDone }
  | _ => none

end SuperblockCheck

/-- `Check_Library.Object_Type`, with the buffer of block I/O. -/
structure CheckLibrary where
  /-- The check of the superblocks. -/
  sbChk : SuperblockCheck
  /-- The check of a tree of the virtual block device. -/
  vbdChk : TreeCheck Type1Node
  /-- The check of the free tree and of the meta tree. -/
  ftChk : TreeCheck Type2Node
  /-- Block I/O. -/
  blkIo : BlockIo
  /-- Whether the request of the client has succeeded. -/
  clientReqSuccess : Bool
  /-- Whether it is complete. -/
  clientReqComplete : Bool

namespace CheckLibrary

/-- The primitive of the library for the check of the superblocks. -/
def sbCheckPrim : CheckPrim := { tag := .libSbCheck, blockNumber := 0 }

/-- `Initialize_Object`, on the memory of an object for the superblocks and a
buffer. -/
def initializeObject (memory : SuperblockCheck) (buf : BlockData) : CheckLibrary where
  sbChk := memory.initializeObject
  vbdChk := TreeCheck.initializeObject NodeKind.type1
  ftChk := TreeCheck.initializeObject NodeKind.type2
  blkIo := { entry := none, buf := buf }
  clientReqSuccess := false
  clientReqComplete := false

/-- `Submit_Client_Request`. -/
def submitClientRequest (lib : CheckLibrary) : Option CheckLibrary :=
  (lib.sbChk.submitPrimitive sbCheckPrim).map fun sbChk =>
    { lib with sbChk := sbChk, clientReqSuccess := false }

/-- A generated primitive of the check of the superblocks is handed on. A check
of a tree that takes no primitive would be asked again and again. -/
def handSbPrim (lib : CheckLibrary) (prim : CheckPrim) : Option CheckLibrary :=
  match prim.tag with
  | .sbCheckBlkIo =>
    if ¬ lib.blkIo.PrimitiveAcceptable then some lib
    else do
      let blkIo ← lib.blkIo.submitPrimitive prim
      let sbChk ← lib.sbChk.dropGeneratedPrimitive prim
      some { lib with blkIo := blkIo, sbChk := sbChk }
  | .sbCheckVbdCheck =>
    if ¬ lib.vbdChk.PrimitiveAcceptable then none
    else do
      let ref ← lib.sbChk.peekGeneratedRef
      let vbdChk ← lib.vbdChk.submitPrimitive prim ref
      let sbChk ← lib.sbChk.dropGeneratedPrimitive prim
      some { lib with vbdChk := vbdChk, sbChk := sbChk }
  | .sbCheckFtCheck | .sbCheckMtCheck =>
    if ¬ lib.ftChk.PrimitiveAcceptable then none
    else do
      let ref ← lib.sbChk.peekGeneratedRef
      let ftChk ← lib.ftChk.submitPrimitive prim ref
      let sbChk ← lib.sbChk.dropGeneratedPrimitive prim
      some { lib with ftChk := ftChk, sbChk := sbChk }
  | _ => none

/-- The loop over the generated primitives in `Execute_Superblock_Check`. -/
def submitSbPrim (lib : CheckLibrary) : Option CheckLibrary :=
  match lib.sbChk.peekGeneratedPrimitive with
  | none => some lib
  | some prim => lib.handSbPrim prim

/-- The loop over the completed primitives in `Execute_Superblock_Check`. -/
def completeSbPrim (lib : CheckLibrary) : CheckLibrary :=
  match lib.sbChk.peekCompletedPrimitive with
  | none => lib
  | some prim =>
    if sbCheckPrim.Equal prim then
      { lib with
        clientReqSuccess := true
        clientReqComplete := true
        sbChk := lib.sbChk.initializeObject }
    else lib

/-- `Execute_Superblock_Check`. -/
def executeSuperblockCheck (lib : CheckLibrary) : Option CheckLibrary :=
  lib.sbChk.execute.bind fun sbChk => ({ lib with sbChk := sbChk }.submitSbPrim).map completeSbPrim

/-- `Execute_VBD_Check`. -/
def executeVbdCheck (sha : BlockData → Hash) (lib : CheckLibrary) : Option CheckLibrary := do
  let vbdChk ← VbdCheck.execute sha lib.vbdChk
  let (vbdChk, blkIo) ← vbdChk.submitGenerated VbdCheck.checker lib.blkIo
  let lib := { lib with vbdChk := vbdChk, blkIo := blkIo }
  match lib.vbdChk.peekCompletedPrimitive with
  | none => some lib
  | some prim =>
    if prim.tag ≠ .sbCheckVbdCheck then none
    else
      (lib.sbChk.markVbdCheckComplete prim).map fun sbChk =>
        { lib with sbChk := sbChk, vbdChk := TreeCheck.initializeObject NodeKind.type1 }

/-- `Execute_Free_Tree_Check`. -/
def executeFreeTreeCheck (sha : BlockData → Hash) (lib : CheckLibrary) : Option CheckLibrary := do
  let ftChk ← FtCheck.execute sha lib.ftChk
  let (ftChk, blkIo) ← ftChk.submitGenerated FtCheck.checker lib.blkIo
  let lib := { lib with ftChk := ftChk, blkIo := blkIo }
  match lib.ftChk.peekCompletedPrimitive with
  | none => some lib
  | some prim =>
    if prim.tag ≠ .sbCheckFtCheck ∧ prim.tag ≠ .sbCheckMtCheck then none
    else
      (lib.sbChk.markFtCheckComplete prim lib.ftChk.lvls.root).map fun sbChk =>
        { lib with sbChk := sbChk, ftChk := TreeCheck.initializeObject NodeKind.type2 }

/-- `Execute_Block_IO`. -/
def executeBlockIo (lib : CheckLibrary) : Option CheckLibrary :=
  match lib.blkIo.peekCompletedPrimitive with
  | none => some lib
  | some prim =>
    match prim.tag with
    | .sbCheckBlkIo =>
      if prim.success = false then none
      else
        (lib.sbChk.markBlkIoComplete prim lib.blkIo.buf).map fun sbChk =>
          { lib with sbChk := sbChk, blkIo := lib.blkIo.dropCompletedPrimitive }
    | .vbdCheckBlkIo =>
      (lib.vbdChk.executeBlockIo VbdCheck.checker lib.blkIo).map fun w =>
        { lib with vbdChk := w.1, blkIo := w.2 }
    | .ftCheckBlkIo =>
      (lib.ftChk.executeBlockIo FtCheck.checker lib.blkIo).map fun w =>
        { lib with ftChk := w.1, blkIo := w.2 }
    | _ => none

/-- `Execute`. -/
def execute (sha : BlockData → Hash) (lib : CheckLibrary) : Option CheckLibrary := do
  let lib ← lib.executeSuperblockCheck
  let lib ← lib.executeVbdCheck sha
  let lib ← lib.executeFreeTreeCheck sha
  lib.executeBlockIo

/-- **A round of the client**: it calls `Execute` and serves the request to the
block device, if there is one. -/
def round (sha : BlockData → Hash) (disk : Disk) (lib : CheckLibrary) : Option CheckLibrary :=
  (lib.execute sha).map fun lib => { lib with blkIo := lib.blkIo.serve disk }

/-- The request of the client is complete. -/
def Complete (lib : CheckLibrary) : Prop := lib.clientReqComplete = true

/-- **The library completes its request** on a device, for what was in the
memory of its objects. -/
def Completes (sha : BlockData → Hash) (disk : Disk) (memory : SuperblockCheck)
    (buf : BlockData) : Prop :=
  ∃ lib, (initializeObject memory buf).submitClientRequest = some lib
    ∧ ∃ n t, iterate (round sha disk) n lib = some t ∧ t.Complete

end CheckLibrary

/-! ## What the library computes -/

/-- The content of a superblock slot. -/
def Disk.slot (disk : Disk) (i : SuperblocksIndex) : Option Superblock :=
  superblockFromBlockData (disk i)

variable {Leaf : Type}

/-- The check of a tree, which has to have levels the check can handle. -/
def checkTree [DecidableEq Leaf] (kind : NodeKind Leaf) (sha : BlockData → Hash) (disk : Disk)
    (dataOk : Leaf → Prop) [DecidablePred dataOk] (ref : TreeRef) : Option Unit :=
  if kind.minMaxLevel ≤ ref.maxLvlIdx ∧ ref.maxLvlIdx + 1 ≤ treeMaxMaxLevel then
    (checkNode kind sha disk ref.maxChildIdx (checkLeaf kind dataOk) (ref.maxLvlIdx - 1)
      ref.nrOfLeafs ref.root).map fun _ => ()
  else none

/-- The check of the tree of a snapshot. -/
def checkVbd (sha : BlockData → Hash) (disk : Disk) (ref : TreeRef) : Option Unit :=
  checkTree NodeKind.type1 sha disk (VbdDataOk sha disk) ref

/-- The check of the free tree, and of the meta tree. -/
def checkFt (sha : BlockData → Hash) (disk : Disk) (ref : TreeRef) : Option Unit :=
  checkTree NodeKind.type2 sha disk (fun _ => True) ref

/-- The check of the tree of a snapshot, if it is valid. -/
def checkSnap (sha : BlockData → Hash) (disk : Disk) (sb : Superblock) (i : SnapshotsIndex) :
    Option Unit :=
  if (sb.snapshots i).valid = true then checkVbd sha disk (sb.snapRef i) else some ()

/-- The check of a superblock. -/
def checkSb (sha : BlockData → Hash) (disk : Disk) (sb : Superblock) : Option Unit :=
  if sb.Valid then
    ((List.finRange superblockNrOfSnapshots).foldlM (fun _ i => checkSnap sha disk sb i) ()).bind
      fun _ => (checkFt sha disk sb.freeRef).bind fun _ => checkFt sha disk sb.metaRef
  else some ()

/-- What the search for the superblock knows after a slot. -/
def inspectSlot (disk : Disk) (best : ℕ × SuperblocksIndex) (i : SuperblocksIndex) :
    Option (ℕ × SuperblocksIndex) :=
  (disk.slot i).map fun sb =>
    if sb.Valid ∧ sb.curr.gen > best.1 then (sb.curr.gen, i) else best

/-- **The check of a device**, on the number of a slot that was in memory. -/
def checkDevice (sha : BlockData → Hash) (disk : Disk) (slot : SuperblocksIndex) : Option Unit :=
  ((List.finRange nrOfSuperblockSlots).foldlM (inspectSlot disk) (0, slot)).bind fun best =>
    (disk.slot best.2).bind (checkSb sha disk)

end Cbe
