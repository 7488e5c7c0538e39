import Cbe.CheckLibrary
import Cbe.TreeInitializers

/-!
# The init library

`Superblock_Initializer` has the three trees built one after the other, has the trust
anchor create a key and encrypt it, and writes the eight superblock slots: a valid
superblock to the first one, invalid ones to the others. `Init_Library` connects it with
the initializers of the trees, the block allocator, the trust anchor and block I/O.

The states of the superblock initializer come in threes, one for each of its requests:
started, dropped and done (`SbInitState`). A loop of the library that does not end
counts as a raise.
-/

namespace Cbe

open LevelScan BottomUp ByteWalk

/-! ## The trust anchor -/

/-- The operations of the trust anchor that the init library asks for. -/
inductive TaOperation where
  | invalid
  | createKey
  | encryptKey
  deriving DecidableEq

/-- `Job_Type` of the trust anchor. -/
structure TaJob where
  /-- What the job asks the anchor for. -/
  operation : TaOperation
  /-- Whether the job is done. -/
  completed : Bool
  /-- The primitive that it serves. -/
  submittedPrim : IoPrimitive
  /-- The key value in plain text. -/
  keyValuePlaintext : KeyValue
  /-- The key value as the anchor encrypts it. -/
  keyValueCiphertext : KeyValue

/-- The key value with the same byte everywhere. -/
def keyValueOfByte (b : Byte) : KeyValue :=
  BitVec.ofNat 256 (ofLeBytes (List.replicate keyValueSizeBytes b))

/-- `Trust_Anchor.Anchor_Type`. -/
structure TrustAnchor where
  /-- The two jobs it can have. -/
  jobs : Fin 2 → TaJob
  /-- The byte that the next key value is made of. -/
  nextKeyValuePlaintextByte : Byte
  /-- The secret of the anchor. -/
  privateKey : KeyValue

namespace TrustAnchor

/-- `Initialize_Anchor`. -/
def initializeAnchor : TrustAnchor where
  jobs _ := ⟨.invalid, false, IoPrimitive.invalidObject, 0, 0⟩
  nextKeyValuePlaintextByte := 23
  privateKey := keyValueOfByte 42

variable (anchor : TrustAnchor)

/-- A job becomes another one. -/
def setJob (idx : Fin 2) (job : TaJob) : TrustAnchor :=
  { anchor with jobs := Function.update anchor.jobs idx job }

/-- The first job that is not in use. -/
def invalidJob : Option (Fin 2) :=
  (List.finRange 2).find? fun idx => (anchor.jobs idx).operation = .invalid

/-- `Primitive_Acceptable`. -/
def PrimitiveAcceptable : Prop := anchor.invalidJob.isSome = true

instance : Decidable anchor.PrimitiveAcceptable := inferInstanceAs (Decidable (_ = _))

/-- `Submit_Primitive`. -/
def submitPrimitive (prim : IoPrimitive) : Option TrustAnchor :=
  anchor.invalidJob.bind fun idx =>
    if prim.tag ≠ .sbInitTaCreateKey then none
    else
      some (anchor.setJob idx { anchor.jobs idx with
        operation := .createKey, completed := false, submittedPrim := prim })

/-- `Submit_Primitive_Key_Value_Plaintext`. -/
def submitPrimitiveKeyValuePlaintext (prim : IoPrimitive) (key : KeyValue) : Option TrustAnchor :=
  anchor.invalidJob.bind fun idx =>
    if prim.tag ≠ .sbInitTaEncryptKey then none
    else
      some (anchor.setJob idx { anchor.jobs idx with
        operation := .encryptKey, completed := false, submittedPrim := prim,
        keyValuePlaintext := key })

/-- `Execute` for one job. -/
def executeJob (idx : Fin 2) : TrustAnchor :=
  let job := anchor.jobs idx
  if job.completed = true then anchor
  else
    match job.operation with
    | .invalid => anchor
    | .createKey =>
      { anchor.setJob idx { job with
          keyValuePlaintext := keyValueOfByte anchor.nextKeyValuePlaintextByte
          submittedPrim := { job.submittedPrim with success := true }
          completed := true } with
        nextKeyValuePlaintextByte := anchor.nextKeyValuePlaintextByte + 1 }
    | .encryptKey =>
      anchor.setJob idx { job with
        keyValueCiphertext := anchor.privateKey ^^^ job.keyValuePlaintext
        submittedPrim := { job.submittedPrim with success := true }
        completed := true }

/-- `Execute`. -/
def execute : TrustAnchor := (List.finRange 2).foldl executeJob anchor

/-- The first job that is completed. -/
def completedJob : Option (Fin 2) :=
  (List.finRange 2).find? fun idx =>
    (anchor.jobs idx).operation ≠ .invalid ∧ (anchor.jobs idx).completed = true

/-- `Peek_Completed_Primitive`. -/
def peekCompletedPrimitive : IoPrimitive :=
  match anchor.completedJob with
  | none => IoPrimitive.invalidObject
  | some idx => (anchor.jobs idx).submittedPrim

/-- `Peek_Completed_Key_Value_Plaintext`, which raises when it comes to a job of another
kind first. -/
def peekCompletedKeyValuePlaintext (prim : IoPrimitive) : Option KeyValue :=
  ((List.finRange 2).find? fun idx =>
    (anchor.jobs idx).operation ≠ .createKey ∨
      (anchor.jobs idx).completed = true ∧ prim.Equal (anchor.jobs idx).submittedPrim).bind
    fun idx =>
      if (anchor.jobs idx).operation = .createKey then some (anchor.jobs idx).keyValuePlaintext
      else none

/-- `Peek_Completed_Key_Value_Ciphertext`. -/
def peekCompletedKeyValueCiphertext (prim : IoPrimitive) : Option KeyValue :=
  ((List.finRange 2).find? fun idx =>
    (anchor.jobs idx).operation = .encryptKey ∧ (anchor.jobs idx).completed = true ∧
      prim.Equal (anchor.jobs idx).submittedPrim).map
    fun idx => (anchor.jobs idx).keyValueCiphertext

/-- `Drop_Completed_Primitive`. -/
def dropCompletedPrimitive (prim : IoPrimitive) : Option TrustAnchor :=
  ((List.finRange 2).find? fun idx =>
    (anchor.jobs idx).operation ≠ .invalid ∧ (anchor.jobs idx).completed = true ∧
      prim.Equal (anchor.jobs idx).submittedPrim).map
    fun idx => anchor.setJob idx { anchor.jobs idx with operation := .invalid }

end TrustAnchor

/-! ## The superblock initializer -/

/-- The levels, the degree and the number of leaves of a tree that is asked for. -/
structure TreeGeometry where
  /-- The level of the root. -/
  maxLvlIdx : ℕ
  /-- How many children a node has. -/
  degree : ℕ
  /-- How many leaves are asked for. -/
  nrOfLeafs : ℕ
  deriving DecidableEq

/-- What a client asks for; the meta tree gets the geometry of the free tree. -/
structure Geometry where
  /-- The tree of the virtual block device. -/
  vbd : TreeGeometry
  /-- The free tree. -/
  ft : TreeGeometry
  deriving DecidableEq

/-- The requests of the superblock initializer. -/
inductive SbInitRequest where
  | vbd
  | ft
  | mt
  | taCreateKey
  | taEncryptKey
  | write
  | sync
  deriving DecidableEq

/-- **`SB_Slot_State_Type`.** -/
inductive SbInitState where
  | init
  | started (r : SbInitRequest)
  | dropped (r : SbInitRequest)
  | requestDone (r : SbInitRequest)
  | done
  deriving DecidableEq

/-- **`Superblock_Initializer.Object_Type`.** -/
structure SuperblockInit where
  /-- How far the slot has come. -/
  slotState : SbInitState
  /-- The slot at hand. -/
  slotIdx : SuperblocksIndex
  /-- The superblock that goes to it. -/
  slot : SuperblockCiphertext
  /-- The key in plain text. -/
  keyPlain : KeyValue
  /-- The key as the anchor encrypts it. -/
  keyCipher : KeyValue
  /-- The root of the first tree. -/
  vbd : Type1Node
  /-- Its geometry. -/
  vbdGeo : TreeGeometry
  /-- The root of the free tree. -/
  ft : Type1Node
  /-- Its geometry. -/
  ftGeo : TreeGeometry
  /-- The root of the meta tree. -/
  mt : Type1Node
  /-- Its geometry. -/
  mtGeo : TreeGeometry
  /-- The primitive for another module. -/
  generatedPrim : IoPrimitive
  /-- The primitive of the library. -/
  submittedPrim : IoPrimitive

namespace SuperblockInit

/-- `Initialize_Object`. -/
def initializeObject : SuperblockInit where
  slotState := .init
  slotIdx := 0
  slot := superblockInvalid
  keyPlain := 0
  keyCipher := 0
  vbd := type1NodeInvalid
  vbdGeo := ⟨0, 1, 0⟩
  ft := type1NodeInvalid
  ftGeo := ⟨0, 1, 0⟩
  mt := type1NodeInvalid
  mtGeo := ⟨0, 1, 0⟩
  generatedPrim := IoPrimitive.invalidObject
  submittedPrim := IoPrimitive.invalidObject

variable (obj : SuperblockInit)

/-- `Valid_Snap_Slot`. -/
def validSnapSlot : Snapshot where
  hash := obj.vbd.hash
  pba := obj.vbd.pba
  gen := 0
  nrOfLeafs := obj.vbdGeo.nrOfLeafs
  maxLevel := obj.vbdGeo.maxLvlIdx
  valid := true
  id := 0
  keep := false

/-- `Valid_SB_Slot`. -/
def validSbSlot (firstPba nrOfPbas : ℕ) : SuperblockCiphertext where
  snapshots i := if i = 0 then obj.validSnapSlot else snapshotInvalid
  state := .normal
  rekeyingVba := 0
  resizingNrOfPbas := 0
  resizingNrOfLeaves := 0
  currentKey := { value := obj.keyCipher, id := 1 }
  previousKey := keyInvalid
  currSnap := 0
  degree := obj.vbdGeo.degree
  firstPba := firstPba
  nrOfPbas := nrOfPbas
  lastSecuredGeneration := 0
  freeGen := 0
  freeNumber := obj.ft.pba
  freeHash := obj.ft.hash
  freeMaxLevel := obj.ftGeo.maxLvlIdx
  freeDegree := obj.ftGeo.degree
  freeLeafs := obj.ftGeo.nrOfLeafs
  metaGen := 0
  metaNumber := obj.mt.pba
  metaHash := obj.mt.hash
  metaMaxLevel := obj.mtGeo.maxLvlIdx
  metaDegree := obj.mtGeo.degree
  metaLeafs := obj.mtGeo.nrOfLeafs

/-- `Primitive_Acceptable`. -/
def PrimitiveAcceptable : Prop := obj.submittedPrim.valid = false

instance : Decidable obj.PrimitiveAcceptable := inferInstanceAs (Decidable (_ = _))

/-- `Submit_Primitive`. -/
def submitPrimitive (prim : IoPrimitive) (vbdGeo ftGeo mtGeo : TreeGeometry) :
    Option SuperblockInit :=
  if obj.submittedPrim.valid = true then none
  else
    some { obj with
      submittedPrim := prim
      slotState := .init
      vbdGeo := vbdGeo
      ftGeo := ftGeo
      mtGeo := mtGeo }

/-- The superblock initializer is done with the last slot. -/
def Completed : Prop :=
  obj.submittedPrim.valid = true ∧ obj.slotIdx.val + 1 = nrOfSuperblockSlots
    ∧ obj.slotState = .done

instance : Decidable obj.Completed := inferInstanceAs (Decidable (_ ∧ _ ∧ _))

/-- `Peek_Completed_Primitive`. -/
def peekCompletedPrimitive : IoPrimitive :=
  if obj.Completed then obj.submittedPrim else IoPrimitive.invalidObject

/-- `Drop_Completed_Primitive`. -/
def dropCompletedPrimitive (prim : IoPrimitive) : Option SuperblockInit :=
  if obj.Completed ∧ obj.submittedPrim.Equal prim then some initializeObject else none

/-- A request is started. -/
def start (r : SbInitRequest) (prim : IoPrimitive) : SuperblockInit :=
  { obj with slotState := .started r, generatedPrim := prim }

/-- `Execute`. -/
def execute (firstPba nrOfPbas : ℕ) : SuperblockInit :=
  if obj.submittedPrim.valid = false then obj
  else
    match obj.slotState with
    | .init =>
      if obj.slotIdx = 0 then obj.start .vbd (.request .read .sbInitVbdInit 0)
      else
        { obj with slot := superblockInvalid }.start .write
          (.request .write .sbInitBlkIo obj.slotIdx)
    | .requestDone .vbd => obj.start .ft (.request .write .sbInitFtInit obj.slotIdx)
    | .requestDone .ft => obj.start .mt (.request .write .sbInitMtInit obj.slotIdx)
    | .requestDone .mt => obj.start .taCreateKey (.request .read .sbInitTaCreateKey 0)
    | .requestDone .taCreateKey => obj.start .taEncryptKey (.request .read .sbInitTaEncryptKey 0)
    | .requestDone .taEncryptKey =>
      { obj with slot := obj.validSbSlot firstPba nrOfPbas }.start .write
        (.request .write .sbInitBlkIo obj.slotIdx)
    | .requestDone .write => obj.start .sync (.request .sync .sbInitBlkIo obj.slotIdx)
    | .requestDone .sync => { obj with slotState := .done }
    | .done =>
      if h : obj.slotIdx.val + 1 < nrOfSuperblockSlots then
        { obj with slotIdx := ⟨obj.slotIdx.val + 1, h⟩, slotState := .init }
      else obj
    | _ => obj

/-- `Peek_Generated_Primitive`. -/
def peekGeneratedPrimitive : IoPrimitive :=
  match obj.slotState with
  | .started _ => obj.generatedPrim
  | _ => IoPrimitive.invalidObject

/-- `Peek_Generated_Data`. -/
def peekGeneratedData (prim : IoPrimitive) : Option BlockData :=
  if obj.slotState = .started .write ∧ obj.generatedPrim.Equal prim then
    (blockDataFromSuperblockCiphertext obj.slot).map (·.data)
  else none

/-- `Peek_Generated_Max_Lvl_Idx`, `Peek_Generated_Max_Child_Idx` and
`Peek_Generated_Nr_Of_Leafs`: the geometry of the tree that is asked for. -/
def peekGeneratedGeometry (prim : IoPrimitive) : Option TreeGeometry :=
  if obj.generatedPrim.Equal prim then
    match obj.slotState with
    | .started .vbd => some obj.vbdGeo
    | .started .ft => some obj.ftGeo
    | .started .mt => some obj.mtGeo
    | _ => none
  else none

/-- `Peek_Generated_Key_Value_Plaintext`. -/
def peekGeneratedKeyValuePlaintext (prim : IoPrimitive) : Option KeyValue :=
  if obj.slotState = .started .taEncryptKey ∧ obj.generatedPrim.Equal prim then some obj.keyPlain
  else none

/-- `Drop_Generated_Primitive`. -/
def dropGeneratedPrimitive (prim : IoPrimitive) : Option SuperblockInit :=
  match obj.slotState with
  | .started r =>
    if obj.generatedPrim.Equal prim then some { obj with slotState := .dropped r } else none
  | _ => none

/-- A request that was dropped is done. -/
def complete (r : SbInitRequest) (prim : IoPrimitive) : Option SuperblockInit :=
  if obj.slotState = .dropped r ∧ obj.generatedPrim.Equal prim then
    some { obj with slotState := .requestDone r }
  else none

/-- `Mark_Generated_Blk_IO_Primitive_Complete`. -/
def markGeneratedBlkIoPrimitiveComplete (prim : IoPrimitive) : Option SuperblockInit :=
  match obj.slotState with
  | .dropped .sync => obj.complete .sync prim
  | .dropped .write => obj.complete .write prim
  | _ => none

/-- `Mark_Generated_VBD_Init_Primitive_Complete`. -/
def markGeneratedVbdInitPrimitiveComplete (prim : IoPrimitive) (root : Type1Node) :
    Option SuperblockInit :=
  (obj.complete .vbd prim).map fun obj => { obj with vbd := root }

/-- `Mark_Generated_FT_Init_Primitive_Complete`, for the free and the meta tree. -/
def markGeneratedFtInitPrimitiveComplete (prim : IoPrimitive) (root : Type1Node) :
    Option SuperblockInit :=
  match obj.slotState with
  | .dropped .ft => (obj.complete .ft prim).map fun obj => { obj with ft := root }
  | .dropped .mt => (obj.complete .mt prim).map fun obj => { obj with mt := root }
  | _ => none

/-- `Mark_Generated_TA_CK_Primitive_Complete`. -/
def markGeneratedTaCkPrimitiveComplete (prim : IoPrimitive) (key : KeyValue) :
    Option SuperblockInit :=
  (obj.complete .taCreateKey prim).map fun obj => { obj with keyPlain := key }

/-- `Mark_Generated_TA_EK_Primitive_Complete`. -/
def markGeneratedTaEkPrimitiveComplete (prim : IoPrimitive) (key : KeyValue) :
    Option SuperblockInit :=
  (obj.complete .taEncryptKey prim).map fun obj => { obj with keyCipher := key }

end SuperblockInit

/-! ## The library -/

/-- **`Init_Library.Object_Type`.** -/
structure InitLibrary where
  /-- The initializer of the superblocks. -/
  sbInit : SuperblockInit
  /-- The initializer of the virtual block device. -/
  vbdInit : TreeInit Type1Node
  /-- The initializer of the free tree and the meta tree. -/
  ftInit : TreeInit Type2Node
  /-- The block allocator. -/
  blkAlloc : BlockAllocator
  /-- Block I/O. -/
  blkIo : BlockIoObject
  /-- The trust anchor. -/
  ta : TrustAnchor
  /-- Whether the request of the client has succeeded. -/
  clientReqSuccess : Bool
  /-- Whether it is complete. -/
  clientReqComplete : Bool

/-- The primitive of the client's request. -/
def libSbInitPrim : IoPrimitive := .request .read .libSbInit 0

variable {Leaf : Type}

/-- The loop over the generated primitives of an initializer of a tree: it asks the
block allocator for an address, or hands a block over to block I/O. -/
def TreeInit.submitGenerated (k : TreeInitKind Leaf) (obj : TreeInit Leaf)
    (blkAlloc : BlockAllocator) (blkIo : BlockIoObject) (buf : BlockData) :
    Option (TreeInit Leaf × BlockAllocator × BlockIoObject × BlockData) :=
  let prim := obj.peekGeneratedPrimitive
  if prim.valid = false then some (obj, blkAlloc, blkIo, buf)
  else if prim.tag = k.tagBlkAlloc then
    if ¬ blkAlloc.PrimitiveAcceptable then some (obj, blkAlloc, blkIo, buf)
    else do
      let blkAlloc ← blkAlloc.submitPrimitive prim
      let obj ← obj.dropGeneratedPrimitive prim
      some (obj, blkAlloc, blkIo, buf)
  else if prim.tag = k.tagBlkIo then
    if ¬ blkIo.PrimitiveAcceptable then some (obj, blkAlloc, blkIo, buf)
    else do
      let (blkIo, _) ← blkIo.submitPrimitive k.tagBlkIo prim
      let data ← obj.peekGeneratedData k prim
      let obj ← obj.dropGeneratedPrimitive prim
      some (obj, blkAlloc, blkIo, data)
  else none

namespace InitLibrary

/-- `Initialize_Object`. -/
def initializeObject : InitLibrary where
  sbInit := SuperblockInit.initializeObject
  vbdInit := TreeInit.initializeObject vbdInitializer
  ftInit := TreeInit.initializeObject freeTreeInitializer
  blkAlloc := BlockAllocator.initializeObject nrOfSuperblockSlots
  blkIo := BlockIoObject.initializedObject
  ta := TrustAnchor.initializeAnchor
  clientReqSuccess := false
  clientReqComplete := false

variable (sha : BlockData → Hash) (obj : InitLibrary)

/-- `Client_Request_Acceptable`. -/
def ClientRequestAcceptable : Prop := obj.sbInit.PrimitiveAcceptable

instance : Decidable obj.ClientRequestAcceptable := inferInstanceAs (Decidable (_ = _))

/-- `Submit_Client_Request`. -/
def submitClientRequest (geo : Geometry) : Option InitLibrary :=
  (obj.sbInit.submitPrimitive libSbInitPrim geo.vbd geo.ft geo.ft).map fun sbInit =>
    { obj with sbInit := sbInit, clientReqSuccess := false }

/-- `Peek_Completed_Client_Request`, with the success flag of the request. -/
def peekCompletedClientRequest : Option Bool :=
  if obj.clientReqComplete = true then some obj.clientReqSuccess else none

/-- `Drop_Completed_Client_Request`. -/
def dropCompletedClientRequest : Option InitLibrary :=
  if obj.clientReqComplete = true then some { obj with clientReqComplete := false } else none

/-- The loop over the generated primitives of the superblock initializer. -/
def submitSbInit (buf : BlockData) : Option (InitLibrary × BlockData) :=
  let prim := obj.sbInit.peekGeneratedPrimitive
  if prim.valid = false then some (obj, buf)
  else
    match prim.tag with
    | .sbInitBlkIo =>
      if ¬ obj.blkIo.PrimitiveAcceptable then some (obj, buf)
      else do
        let (blkIo, _) ← obj.blkIo.submitPrimitive .sbInitBlkIo prim
        let data ←
          if prim.operation = .sync then some buf else obj.sbInit.peekGeneratedData prim
        let sbInit ← obj.sbInit.dropGeneratedPrimitive prim
        some ({ obj with blkIo := blkIo, sbInit := sbInit }, data)
    | .sbInitVbdInit =>
      if ¬ obj.vbdInit.PrimitiveAcceptable then none
      else do
        let geo ← obj.sbInit.peekGeneratedGeometry prim
        let vbdInit ← obj.vbdInit.submitPrimitive prim geo.maxLvlIdx (geo.degree - 1) geo.nrOfLeafs
        let sbInit ← obj.sbInit.dropGeneratedPrimitive prim
        some ({ obj with vbdInit := vbdInit, sbInit := sbInit }, buf)
    | .sbInitFtInit | .sbInitMtInit =>
      if ¬ obj.ftInit.PrimitiveAcceptable then none
      else do
        let geo ← obj.sbInit.peekGeneratedGeometry prim
        let ftInit ← obj.ftInit.submitPrimitive prim geo.maxLvlIdx (geo.degree - 1) geo.nrOfLeafs
        let sbInit ← obj.sbInit.dropGeneratedPrimitive prim
        some ({ obj with ftInit := ftInit, sbInit := sbInit }, buf)
    | .sbInitTaCreateKey =>
      if ¬ obj.ta.PrimitiveAcceptable then none
      else do
        let ta ← obj.ta.submitPrimitive prim
        let sbInit ← obj.sbInit.dropGeneratedPrimitive prim
        some ({ obj with ta := ta, sbInit := sbInit }, buf)
    | .sbInitTaEncryptKey =>
      if ¬ obj.ta.PrimitiveAcceptable then none
      else do
        let key ← obj.sbInit.peekGeneratedKeyValuePlaintext prim
        let ta ← obj.ta.submitPrimitiveKeyValuePlaintext prim key
        let sbInit ← obj.sbInit.dropGeneratedPrimitive prim
        some ({ obj with ta := ta, sbInit := sbInit }, buf)
    | _ => none

/-- The client's request is completed, always with success. -/
def completeClientRequest : Option InitLibrary :=
  if libSbInitPrim.Equal obj.sbInit.peekCompletedPrimitive then
    (obj.sbInit.dropCompletedPrimitive libSbInitPrim).map fun sbInit =>
      { obj with sbInit := sbInit, clientReqSuccess := true, clientReqComplete := true }
  else some obj

/-- `Execute_Superblock_Initializer`, with the addresses that `Execute` passes. -/
def executeSuperblockInitializer (buf : BlockData) : Option (InitLibrary × BlockData) := do
  let firstPba := (obj.blkAlloc.firstBlk + (2 ^ 64 - nrOfSuperblockSlots)) % 2 ^ 64
  let nrOfPbas := (obj.blkAlloc.nrOfBlks + nrOfSuperblockSlots) % 2 ^ 64
  let (obj, buf) ←
    { obj with sbInit := obj.sbInit.execute firstPba nrOfPbas }.submitSbInit buf
  let obj ← obj.completeClientRequest
  some (obj, buf)

/-- A tree of the virtual block device that is completed. -/
def completeVbdInit : Option InitLibrary :=
  let prim := obj.vbdInit.peekCompletedPrimitive
  if prim.valid = false then some obj
  else if prim.tag = .sbInitVbdInit then do
    let root ← obj.vbdInit.peekCompletedRoot prim
    let sbInit ← obj.sbInit.markGeneratedVbdInitPrimitiveComplete prim root
    let vbdInit ← obj.vbdInit.dropCompletedPrimitive vbdInitializer prim
    some { obj with sbInit := sbInit, vbdInit := vbdInit }
  else none

/-- `Execute_VBD_Initializer`. -/
def executeVbdInitializer (buf : BlockData) : Option (InitLibrary × BlockData) := do
  let vbdInit ← obj.vbdInit.execute vbdInitializer sha
  let (vbdInit, blkAlloc, blkIo, buf) ←
    vbdInit.submitGenerated vbdInitializer obj.blkAlloc obj.blkIo buf
  let obj ←
    { obj with vbdInit := vbdInit, blkAlloc := blkAlloc, blkIo := blkIo }.completeVbdInit
  some (obj, buf)

/-- A free or a meta tree that is completed. -/
def completeFtInit : Option InitLibrary :=
  let prim := obj.ftInit.peekCompletedPrimitive
  if prim.valid = false then some obj
  else if prim.tag = .sbInitFtInit ∨ prim.tag = .sbInitMtInit then do
    let root ← obj.ftInit.peekCompletedRoot prim
    let sbInit ← obj.sbInit.markGeneratedFtInitPrimitiveComplete prim root
    let ftInit ← obj.ftInit.dropCompletedPrimitive freeTreeInitializer prim
    some { obj with sbInit := sbInit, ftInit := ftInit }
  else none

/-- `Execute_Free_Tree_Initializer`. -/
def executeFreeTreeInitializer (buf : BlockData) : Option (InitLibrary × BlockData) := do
  let ftInit ← obj.ftInit.execute freeTreeInitializer sha
  let (ftInit, blkAlloc, blkIo, buf) ←
    ftInit.submitGenerated freeTreeInitializer obj.blkAlloc obj.blkIo buf
  let obj ←
    { obj with ftInit := ftInit, blkAlloc := blkAlloc, blkIo := blkIo }.completeFtInit
  some (obj, buf)

/-- `Execute_Block_Allocator`. -/
def executeBlockAllocator : Option InitLibrary := do
  let blkAlloc ← obj.blkAlloc.execute
  let prim := blkAlloc.peekCompletedPrimitive
  if prim.valid = false then some { obj with blkAlloc := blkAlloc }
  else do
    let dropped ← blkAlloc.dropCompletedPrimitive prim
    if prim.tag = .vbdInitBlkAlloc then
      some { obj with
        blkAlloc := dropped
        vbdInit := obj.vbdInit.markGeneratedPrimitiveComplete vbdInitializer prim }
    else if prim.tag = .ftInitBlkAlloc then
      some { obj with
        blkAlloc := dropped
        ftInit := obj.ftInit.markGeneratedPrimitiveComplete freeTreeInitializer prim }
    else none

/-- `Execute_Block_IO`, for the entry that is complete, if there is one. -/
def executeBlockIo : Option InitLibrary :=
  let prim := obj.blkIo.peekCompletedPrimitive
  if prim.valid = false then some obj
  else if prim.success = false then none
  else
    let blkIo := obj.blkIo.dropCompletedPrimitive prim
    match prim.tag with
    | .sbInitBlkIo =>
      (obj.sbInit.markGeneratedBlkIoPrimitiveComplete prim).map fun sbInit =>
        { obj with sbInit := sbInit, blkIo := blkIo }
    | .vbdInitBlkIo =>
      some { obj with
        vbdInit := obj.vbdInit.markGeneratedPrimitiveComplete vbdInitializer prim
        blkIo := blkIo }
    | .ftInitBlkIo =>
      some { obj with
        ftInit := obj.ftInit.markGeneratedPrimitiveComplete freeTreeInitializer prim
        blkIo := blkIo }
    | _ => none

/-- A completed primitive of the trust anchor is handed over, with its key. -/
def markTaComplete (prim : IoPrimitive) : Option SuperblockInit :=
  match prim.tag with
  | .sbInitTaCreateKey =>
    (obj.ta.peekCompletedKeyValuePlaintext prim).bind fun key =>
      obj.sbInit.markGeneratedTaCkPrimitiveComplete prim key
  | .sbInitTaEncryptKey =>
    (obj.ta.peekCompletedKeyValueCiphertext prim).bind fun key =>
      obj.sbInit.markGeneratedTaEkPrimitiveComplete prim key
  | _ => none

/-- The loop over the completed primitives of the trust anchor, for a number of them. -/
def completeTa : ℕ → InitLibrary → Option InitLibrary
  | 0, obj => some obj
  | n + 1, obj =>
    let prim := obj.ta.peekCompletedPrimitive
    if prim.valid = false then some obj
    else do
      let sbInit ← obj.markTaComplete prim
      let ta ← obj.ta.dropCompletedPrimitive prim
      completeTa n { obj with sbInit := sbInit, ta := ta }

/-- `Execute_TA`. The trust anchor has two jobs. -/
def executeTa : Option InitLibrary := completeTa 2 { obj with ta := obj.ta.execute }

/-- **`Execute`.** -/
def execute (buf : BlockData) : Option (InitLibrary × BlockData) := do
  let (obj, buf) ← obj.executeSuperblockInitializer buf
  let (obj, buf) ← obj.executeVbdInitializer sha buf
  let (obj, buf) ← obj.executeFreeTreeInitializer sha buf
  let obj ← obj.executeBlockAllocator
  let obj ← obj.executeBlockIo
  let obj ← obj.executeTa
  some (obj, buf)

end InitLibrary

/-! ## The client -/

/-- A request of the client, with the number of blocks that were allocated before it. -/
structure InitRequest where
  /-- The geometry that is asked for. -/
  geo : Geometry
  /-- How many blocks were allocated before. -/
  allocated : ℕ
  deriving DecidableEq

/-- **The init library with its client**: the data of block I/O and the block device.
`serving` is a record: the request that was submitted last. -/
structure InitWorld where
  /-- The library. -/
  lib : InitLibrary
  /-- The data of block I/O. -/
  ioBuf : BlockData
  /-- The block device. -/
  disk : Disk
  /-- The request that was submitted last. -/
  serving : Option InitRequest

namespace InitWorld

/-- The library after its start, with anything on the block device. -/
def initial (ioBuf : BlockData) (disk : Disk) : InitWorld where
  lib := InitLibrary.initializeObject
  ioBuf := ioBuf
  disk := disk
  serving := none

/-- **What happens**: the client submits a request, calls `Execute`, takes the block I/O
request and completes it, and drops its completed request. -/
inductive Action where
  | submit (geo : Geometry)
  | execute
  | ioInProgress
  | ioCompleted (success : Bool)
  | dropCompleted

/-- The block device after a request is completed: a write that succeeds puts the data
to its block. -/
def served (w : InitWorld) (success : Bool) : Disk :=
  if success = true ∧ (w.lib.blkIo.entries 0).prim.operation = .write then
    Function.update w.disk (w.lib.blkIo.entries 0).prim.blockNumber w.ioBuf
  else w.disk

/-- **A step.** The client submits a request when the library accepts one and the last
one was dropped. -/
def step (sha : BlockData → Hash) (w : InitWorld) : Action → Option InitWorld
  | .submit geo =>
    if w.lib.ClientRequestAcceptable ∧ w.lib.clientReqComplete = false then
      (w.lib.submitClientRequest geo).map fun lib =>
        { w with lib := lib, serving := some ⟨geo, w.lib.blkAlloc.nrOfBlks⟩ }
    else none
  | .execute => (w.lib.execute sha w.ioBuf).map fun r => { w with lib := r.1, ioBuf := r.2 }
  | .ioInProgress =>
    (w.lib.blkIo.dropGeneratedPrimitive2 0).map fun io =>
      { w with lib := { w.lib with blkIo := io } }
  | .ioCompleted success =>
    (w.lib.blkIo.markGeneratedPrimitiveComplete 0 success).map fun io =>
      { w with lib := { w.lib with blkIo := io }, disk := w.served success }
  | .dropCompleted => w.lib.dropCompletedClientRequest.map fun lib => { w with lib := lib }

end InitWorld

end Cbe
