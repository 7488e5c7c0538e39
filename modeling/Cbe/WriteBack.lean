import Cbe.BlockIo
import Cbe.VirtualBlockDevice
import Cbe.Support.Runs

/-!
# The write-back module

The module keeps one write-back: the data of the leaf goes through the encryption
and to the block device, then the nodes above it are updated in the cache, from
the lowest one up. Here are the procedures of the module (`WriteBack`) and the part
of `Execute_Writeback` that drives them (`WriteBack.World`), with the cache, the
encryption and the block device as they answer at some later time.

The library raises on a primitive that has failed before it hands it back. The
module can take one, and does so in the steps here.
-/

namespace Cbe

variable {P : Platform}

/-- `Entry_State_Type`. -/
inductive WriteBackEntryState where
  | invalid
  | pending
  | inProgress
  | complete
  deriving DecidableEq

/-- `State_Type`. -/
inductive WriteBackState where
  | invalid
  | crypto
  | io
  | cache
  | complete
  deriving DecidableEq

/-- `Entry_Type`: the old and the new address of a level. -/
structure WriteBackEntry where
  /-- The old address. -/
  pba : ℕ
  /-- The new address. -/
  updatePba : ℕ
  /-- How far the level has come. -/
  state : WriteBackEntryState
  /-- The module that the level is for next. -/
  tag : IoTag

/-- **`Write_Back.Object_Type`.** -/
structure WriteBack where
  /-- The levels. -/
  entries : ℕ → WriteBackEntry
  /-- The hash of what was written on each level. -/
  hashes : ℕ → Hash
  /-- The level of the root. -/
  levels : ℕ
  /-- How far the write-back has come. -/
  state : WriteBackState
  /-- The primitive that it is for. -/
  pendingPrimitive : IoPrimitive
  /-- Whether something has failed. -/
  pendingFailure : Bool
  /-- The virtual block address. -/
  vba : ℕ
  /-- The generation that is written. -/
  newGeneration : ℕ

namespace WriteBack

/-- `Initialized_Object`. -/
def initializedObject : WriteBack where
  entries _ := { pba := 0, updatePba := 0, state := .invalid, tag := .invalid }
  hashes _ := 0
  levels := 0
  state := .invalid
  pendingPrimitive := IoPrimitive.invalidObject
  pendingFailure := false
  vba := 2 ^ 30
  newGeneration := 0

variable (obj : WriteBack)

/-- The levels of the inner nodes. -/
def innerLevels : List ℕ := List.range' 1 obj.levels

/-- An entry gets another state. -/
def setEntryState (lvl : ℕ) (state : WriteBackEntryState) : WriteBack :=
  { obj with entries := Function.update obj.entries lvl { obj.entries lvl with state := state } }

/-- `Fail_If_Pending_Primitive_Not_Complete`, as a check. -/
def PendingPrimitiveComplete (prim : IoPrimitive) : Prop :=
  obj.state = .complete ∧ prim.blockNumber = obj.pendingPrimitive.blockNumber

instance (prim : IoPrimitive) : Decidable (obj.PendingPrimitiveComplete prim) :=
  inferInstanceAs (Decidable (_ ∧ _))

/-- `Peek_Generated_Leaf_Primitive`. It raises when the primitive at hand has no
slot of the pool. -/
def peekGeneratedLeafPrimitive : Option IoPrimitive :=
  if (obj.entries 0).state ≠ .pending then some IoPrimitive.invalidObject
  else
    obj.pendingPrimitive.poolIdxSlot.bind fun idx =>
      IoPrimitive.validObject .write false (obj.entries 0).tag idx (obj.entries 0).updatePba 0

/-- `Mark_Entry_As_In_Progress`, for the leaf: `Drop_Generated_Leaf_Primitive`. -/
def dropGeneratedLeafPrimitive (prim : IoPrimitive) : Option WriteBack :=
  if (obj.entries 0).state ≠ .pending ∨ prim.blockNumber ≠ (obj.entries 0).updatePba then none
  else some (obj.setEntryState 0 .inProgress)

/-! ## Submission and completion -/

/-- `Primitive_Acceptable`. -/
def PrimitiveAcceptable : Prop := obj.pendingPrimitive.valid = false

instance : Decidable obj.PrimitiveAcceptable := inferInstanceAs (Decidable (_ = _))

/-- **`Submit_Primitive`.** The failure of an earlier write-back is left as it
is. -/
def submitPrimitive (prim : IoPrimitive) (gen vba : ℕ) (newPbas : NewPbas)
    (oldPbas : Type1NodeWalk) (n : ℕ) : WriteBack :=
  { obj with
    pendingPrimitive := prim
    newGeneration := gen
    vba := vba
    levels := n
    state := .crypto
    entries := fun lvl =>
      if lvl ≤ n then
        { pba := (oldPbas lvl).pba
          updatePba := newPbas lvl
          state := .pending
          tag := if lvl = 0 then .encrypt else .cache }
      else obj.entries lvl }

/-- `Peek_Completed_Primitive`. -/
def peekCompletedPrimitive : IoPrimitive :=
  if obj.pendingPrimitive.valid = false then IoPrimitive.invalidObject
  else if obj.state ≠ .complete then IoPrimitive.invalidObject
  else { obj.pendingPrimitive with success := !obj.pendingFailure }

/-- `Peek_Completed_Root`. -/
def peekCompletedRoot (prim : IoPrimitive) : Option ℕ :=
  if obj.PendingPrimitiveComplete prim then some (obj.entries obj.levels).updatePba else none

/-- `Peek_Completed_Root_Hash`. -/
def peekCompletedRootHash (prim : IoPrimitive) : Option Hash :=
  if obj.PendingPrimitiveComplete prim then some (obj.hashes obj.levels) else none

/-- `Drop_Completed_Primitive`. -/
def dropCompletedPrimitive (prim : IoPrimitive) : Option WriteBack :=
  if obj.PendingPrimitiveComplete prim then
    some { obj with pendingPrimitive := IoPrimitive.invalidObject }
  else none

/-! ## The leaf -/

/-- `Peek_Generated_Crypto_Primitive`. -/
def peekGeneratedCryptoPrimitive : Option IoPrimitive :=
  if obj.state = .crypto then obj.peekGeneratedLeafPrimitive
  else some IoPrimitive.invalidObject

/-- `Drop_Generated_Crypto_Primitive`. -/
def dropGeneratedCryptoPrimitive (prim : IoPrimitive) : Option WriteBack :=
  if obj.state ≠ .crypto then none else obj.dropGeneratedLeafPrimitive prim

/-- The leaf was handed out with the primitive. -/
def LeafInProgress (prim : IoPrimitive) : Prop :=
  (obj.entries 0).state = .inProgress ∧ prim.blockNumber = (obj.entries 0).updatePba

instance (prim : IoPrimitive) : Decidable (obj.LeafInProgress prim) :=
  inferInstanceAs (Decidable (_ ∧ _))

/-- A primitive has failed: the write-back is complete, and the failure is noted. -/
def failed : WriteBack := { obj with pendingFailure := true, state := .complete }

/-- **`Mark_Completed_Crypto_Primitive`.** -/
def markCompletedCryptoPrimitive (P : Platform) (prim : IoPrimitive) (cryptoData : P.Block) :
    Option WriteBack :=
  if obj.state ≠ .crypto then none
  else if ¬ obj.LeafInProgress prim then none
  else
    let obj := { obj with hashes := Function.update obj.hashes 0 (P.hash cryptoData) }
    if prim.success = false then some obj.failed
    else
      some { obj with
        entries := Function.update obj.entries 0
          { obj.entries 0 with state := .pending, tag := .io }
        state := .io }

/-- `Peek_Generated_IO_Primitive`. -/
def peekGeneratedIoPrimitive : Option IoPrimitive :=
  if obj.state ≠ .io then some IoPrimitive.invalidObject else obj.peekGeneratedLeafPrimitive

/-- `Drop_Generated_IO_Primitive`. -/
def dropGeneratedIoPrimitive (prim : IoPrimitive) : Option WriteBack :=
  if obj.state ≠ .io then none else obj.dropGeneratedLeafPrimitive prim

/-- **`Mark_Completed_IO_Primitive`.** -/
def markCompletedIoPrimitive (prim : IoPrimitive) : Option WriteBack :=
  if obj.state ≠ .io then none
  else if ¬ obj.LeafInProgress prim then none
  else if prim.success = false then some obj.failed
  else some { obj.setEntryState 0 .complete with state := .cache }

/-! ## The inner nodes -/

/-- `Peek_Generated_Cache_Primitive`. -/
def peekGeneratedCachePrimitive : Option IoPrimitive :=
  if obj.state ≠ .cache then some IoPrimitive.invalidObject
  else
    match obj.innerLevels.find? fun lvl => (obj.entries lvl).state = .pending with
    | none => some IoPrimitive.invalidObject
    | some lvl =>
      obj.pendingPrimitive.poolIdxSlot.bind fun idx =>
        IoPrimitive.validObject .write false (obj.entries lvl).tag idx (obj.entries lvl).pba 0

/-- The first level whose node has an old address, as the procedures for the cache
find it. -/
def cacheLevel (pba : ℕ) : Option ℕ :=
  obj.innerLevels.find? fun lvl => (obj.entries lvl).pba = pba

/-- `Peek_Generated_Cache_Update_PBA`. -/
def peekGeneratedCacheUpdatePba (prim : IoPrimitive) : Option ℕ :=
  if obj.state ≠ .cache then none
  else (obj.cacheLevel prim.blockNumber).map fun lvl => (obj.entries lvl).updatePba

/-- `Drop_Generated_Cache_Primitive`. -/
def dropGeneratedCachePrimitive (prim : IoPrimitive) : Option WriteBack :=
  if obj.state ≠ .cache then none
  else (obj.cacheLevel prim.blockNumber).map fun lvl => obj.setEntryState lvl .inProgress

/-- The end of `Update`: the write-back is complete when all inner nodes are. -/
def completeIfAllComplete : WriteBack :=
  if ∀ lvl ∈ obj.innerLevels, (obj.entries lvl).state = .complete then
    { obj with state := .complete }
  else obj

/-- **`Update`**: the node of the address takes over the new child, in a copy of
the old block unless it is changed in place. -/
def update (P : Platform) (pba degree : ℕ) (data updateData : P.Block) : WriteBack × P.Block :=
  match obj.innerLevels.find? fun lvl =>
      (obj.entries lvl).tag = .cache ∧ (obj.entries lvl).pba = pba with
  | none => (obj.completeIfAllComplete, updateData)
  | some lvl =>
    let updateData :=
      if (obj.entries lvl).pba ≠ (obj.entries lvl).updatePba then data else updateData
    let updateData := P.blockDataFromType1NodeBlock
      (Function.update (P.type1NodeBlockFromBlockData updateData)
        (childIdxForVba obj.vba lvl degree)
        { pba := (obj.entries (lvl - 1)).updatePba
          gen := obj.newGeneration
          hash := obj.hashes (lvl - 1) })
    let obj := { obj with hashes := Function.update obj.hashes lvl (P.hash updateData) }
    ((obj.setEntryState lvl .complete).completeIfAllComplete, updateData)

/-! ## Driving the module -/

/-- `Cache_Prim_State_Type`. -/
inductive CachePrimState where
  | invalid
  | submitted
  | complete
  deriving DecidableEq

/-- A primitive of the library for the cache: `WB_Cache_Prim_1` to `_3`, with the
state and the data. -/
structure CachePrim (P : Platform) where
  /-- The primitive. -/
  prim : IoPrimitive
  /-- How far it has come. -/
  state : CachePrimState
  /-- The data that was read, or that is to be written. -/
  data : P.Block

/-- A primitive of the library was completed by the cache. -/
def CachePrim.completed (p : CachePrim P) (prim : IoPrimitive) (data : P.Block) : CachePrim P :=
  { prim := prim
    state := .complete
    data := if prim.operation = .read then data else p.data }

/-- **The write-back in the library.** The blocks are those of the device as seen
through the cache. Three fields are what was handed out: the leaf to the encryption
and to the block device, a job to the cache. The last one records whether a primitive
of the leaf has failed since the submission. -/
structure World (P : Platform) where
  /-- The module. -/
  obj : WriteBack
  /-- The block that is written. -/
  wbData : P.Block
  /-- The key for it. -/
  keyId : ℕ
  /-- The degree of the tree. -/
  degree : ℕ
  /-- The node that the library updates. -/
  wbPrim : IoPrimitive
  /-- The block that it is written to. -/
  wbUpdatePba : ℕ
  /-- The read of the old block of the node. -/
  cachePrim1 : CachePrim P
  /-- The read of the new block. -/
  cachePrim2 : CachePrim P
  /-- The write of the new block. -/
  cachePrim3 : CachePrim P
  /-- The blocks, as the cache has them. -/
  blocks : ℕ → P.Block
  /-- What was handed to the encryption. -/
  crypto : Option (IoPrimitive × P.Block)
  /-- What was handed to the block device. -/
  io : Option (IoPrimitive × P.Block)
  /-- What was handed to the cache. -/
  cacheJob : Option (IoPrimitive × P.Block)
  /-- Whether a primitive of the leaf has failed. -/
  leafFailed : Bool

/-- The arguments of a write-back. -/
structure Args (P : Platform) where
  /-- The primitive of the client. -/
  prim : IoPrimitive
  /-- The generation that is written. -/
  gen : ℕ
  /-- The virtual block address. -/
  vba : ℕ
  /-- The new address of each level. -/
  newPbas : NewPbas
  /-- The walk to the leaf. -/
  oldPbas : Type1NodeWalk
  /-- The level of the root. -/
  n : ℕ
  /-- The data. -/
  data : P.Block

namespace World

variable (w : World P)

/-- `Submit_Primitive`, with the data of the leaf. -/
def submit (args : Args P) : World P :=
  { w with
    obj := w.obj.submitPrimitive args.prim args.gen args.vba args.newPbas args.oldPbas args.n
    wbData := args.data
    leafFailed := false }

/-- `Loop_WB_Completed_Prims`: the completed write-back is dropped. -/
def completed : Option (World P) :=
  let prim := w.obj.peekCompletedPrimitive
  if prim.valid = false then some w
  else (w.obj.dropCompletedPrimitive prim).map fun obj => { w with obj := obj }

/-- `Loop_WB_Generated_Crypto_Prims`, once. -/
def generatedCrypto : Option (World P) :=
  w.obj.peekGeneratedCryptoPrimitive.bind fun prim =>
    if prim.valid = false ∨ w.crypto ≠ none then some w
    else (w.obj.dropGeneratedCryptoPrimitive prim).map fun obj =>
      { w with obj := obj, crypto := some (prim, w.wbData) }

/-- The encryption of the leaf has ended: `Execute_Crypto`, which takes over the
cipher. With `success = false` this is what the module makes of a failed
primitive. The library does not let it come to that: `Execute_Crypto` raises on
a primitive that is not successful before it calls the module. -/
def cryptoCompleted (success : Bool) : Option (World P) :=
  match w.crypto with
  | none => some w
  | some (prim, plain) =>
    let cipher := P.encrypt w.keyId plain
    (w.obj.markCompletedCryptoPrimitive P { prim with success := success } cipher).map fun obj =>
      { w with
        obj := obj
        wbData := cipher
        crypto := none
        leafFailed := w.leafFailed || !success }

/-- `Loop_WB_Generated_IO_Prims`, once. -/
def generatedIo : Option (World P) :=
  w.obj.peekGeneratedIoPrimitive.bind fun prim =>
    if prim.valid = false ∨ w.io ≠ none then some w
    else (w.obj.dropGeneratedIoPrimitive prim).map fun obj =>
      { w with obj := obj, io := some (prim, w.wbData) }

/-- The write of the leaf has ended: `Execute_IO`. Here, too, the library raises
before it hands a failed primitive over, so that `success = false` shows the
module by itself. A write that failed leaves the block as it was. -/
def ioCompleted (success : Bool) : Option (World P) :=
  match w.io with
  | none => some w
  | some (prim, blk) =>
    (w.obj.markCompletedIoPrimitive { prim with success := success }).map fun obj =>
      { w with
        obj := obj
        io := none
        blocks := if success = true then Function.update w.blocks prim.blockNumber blk else w.blocks
        leafFailed := w.leafFailed || !success }

/-- A primitive of the write-back for the cache. -/
def cachePrim (op : PrimitiveOperation) (pba : ℕ) : IoPrimitive :=
  { valid := true, operation := op, success := false, tag := .wbCache, poolIdxSlot := none,
    blockNumber := pba, index := 0 }

/-- The third primitive: update the node, and write it. -/
def updateNode : Option (World P) :=
  (w.obj.dropGeneratedCachePrimitive w.wbPrim).map fun obj =>
    let res := obj.update P w.wbPrim.blockNumber w.degree w.cachePrim1.data w.cachePrim2.data
    let prim := cachePrim .write w.wbUpdatePba
    { w with
      obj := res.1
      cachePrim2 := { w.cachePrim2 with data := res.2 }
      cachePrim3 := { w.cachePrim3 with prim := prim, state := .submitted }
      cacheJob := some (prim, res.2) }

/-- The node was written: the primitives are invalid again. -/
def nodeWritten : World P :=
  { w with
    cachePrim1 := { w.cachePrim1 with state := .invalid }
    cachePrim2 := { w.cachePrim2 with state := .invalid }
    cachePrim3 := { w.cachePrim3 with state := .invalid }
    wbPrim := IoPrimitive.invalidObject }

/-- `Declare_PBAs` of the loop: the read of the old block, the read of the new one
and the write of the new one, each when the one before has completed. The result of
the write is not looked at. -/
def cachePrims : Option (World P) :=
  let prim1 := cachePrim .read w.wbPrim.blockNumber
  let prim2 := cachePrim .read w.wbUpdatePba
  let prim3 := cachePrim .write w.wbUpdatePba
  if w.cachePrim1.state = .invalid then
    some { w with
      cachePrim1 := { w.cachePrim1 with prim := prim1, state := .submitted }
      cacheJob := some (prim1, w.cachePrim1.data) }
  else if w.cachePrim1.state ≠ .complete ∨ ¬ w.cachePrim1.prim.Equal prim1 then some w
  else if w.cachePrim1.prim.success = false then none
  else if w.cachePrim2.state = .invalid then
    some { w with
      cachePrim2 := { w.cachePrim2 with prim := prim2, state := .submitted }
      cacheJob := some (prim2, w.cachePrim1.data) }
  else if w.cachePrim2.state ≠ .complete ∨ ¬ w.cachePrim2.prim.Equal prim2 then some w
  else if w.cachePrim2.prim.success = false then none
  else if w.cachePrim3.state = .invalid then w.updateNode
  else if w.cachePrim3.state ≠ .complete ∨ ¬ w.cachePrim3.prim.Equal prim3 then some w
  else some w.nodeWritten

/-- **`Loop_WB_Generated_Cache_Prims`**, once, with a cache that takes a job. -/
def generatedCache : Option (World P) :=
  (if w.wbPrim.valid = true then some w.wbPrim else w.obj.peekGeneratedCachePrimitive).bind
    fun wbPrim =>
      let w := { w with wbPrim := wbPrim }
      if wbPrim.valid = false then some w
      else
        (if w.cachePrim1.state = .invalid then w.obj.peekGeneratedCacheUpdatePba wbPrim
          else some w.wbUpdatePba).bind fun updatePba =>
            { w with wbUpdatePba := updatePba }.cachePrims

/-- The cache has completed its job: `Execute_Cache_Completed_Prims`. The library
raises on a job that has failed and on one that it does not wait for. -/
def cacheCompleted (success : Bool) : Option (World P) :=
  match w.cacheJob with
  | none => some w
  | some (prim, blk) =>
    if success = false then none
    else
      let prim' : IoPrimitive := { prim with success := true }
      let data := w.blocks prim.blockNumber
      let blocks := if prim.operation = .write then Function.update w.blocks prim.blockNumber blk
        else w.blocks
      let w := { w with
        cacheJob := none
        blocks := blocks }
      if w.cachePrim1.state = .submitted ∧ w.cachePrim1.prim.Equal prim' then
        some { w with cachePrim1 := w.cachePrim1.completed prim' data }
      else if w.cachePrim2.state = .submitted ∧ w.cachePrim2.prim.Equal prim' then
        some { w with cachePrim2 := w.cachePrim2.completed prim' data }
      else if w.cachePrim3.state = .submitted ∧ w.cachePrim3.prim.Equal prim' then
        some { w with cachePrim3 := w.cachePrim3.completed prim' data }
      else none

end World

/-- **What happens during a write-back**: a turn of one of the library's loops, or
the completion of something that was handed out. -/
inductive Action where
  | generatedCrypto
  | cryptoCompleted (success : Bool)
  | generatedIo
  | ioCompleted (success : Bool)
  | generatedCache
  | cacheCompleted (success : Bool)
  deriving DecidableEq

/-- **One step.** -/
def World.step (w : World P) : Action → Option (World P)
  | .generatedCrypto => w.generatedCrypto
  | .cryptoCompleted success => w.cryptoCompleted success
  | .generatedIo => w.generatedIo
  | .ioCompleted success => w.ioCompleted success
  | .generatedCache => w.generatedCache
  | .cacheCompleted success => w.cacheCompleted success

end WriteBack

end Cbe
