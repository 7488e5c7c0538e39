import Cbe.BlockIo
import Cbe.ChildIndex

/-!
# The translation of virtual block addresses

How the virtual block device reaches the leaf of a virtual block address while the
blocks come in one after another. The translation asks for the block of the node it
is at, checks the hash of what it gets, and looks up the child (`Translation`). The
virtual block device passes on what is asked for to the cache and selects the key
(`VirtualBlockDevice`). The library reads a leaf as zeros if it was never written;
otherwise it asks the block I/O for its block, and hands it to the decryption after
the hash check (`ReadPath`).

A procedure that raises returns nothing. The flags that say whether a module made
progress only tell the library to call it again, and are left out.
-/

namespace Cbe

variable {P : Platform}

/-- `Tree_Helper.Invalid_Object`. -/
def TreeHelper.invalidObject : TreeHelper.Object :=
  { degree := 1, maxLevel := 0, leafs := 0, degreeLog2 := 0, degreeMask := 0 }

/-! ## The translation -/

/-- **`Translation.Object_Type`.** -/
structure Translation where
  /-- The entries from the root down to the level at hand. -/
  walk : Type1NodeWalk
  /-- `Data.Avail`. -/
  avail : ℕ → Bool
  /-- The primitive at hand. -/
  current : IoPrimitive
  /-- The level at hand. -/
  level : ℕ
  /-- The block that is needed next. -/
  nextPba : ℕ
  /-- The block of the leaf, once it is found. -/
  dataPba : ℕ
  /-- Whether the translation waits. -/
  suspended : Bool
  /-- Whether it is one of the free tree. -/
  freeTree : Bool
  /-- The geometry of the tree. -/
  helper : TreeHelper.Object

namespace Translation

/-- `Initialized_Object`. -/
def initializedObject (freeTr : Bool) : Translation where
  walk _ := type1NodeInvalid
  avail _ := false
  current := IoPrimitive.invalidObject
  level := treeMaxMaxLevel
  nextPba := pbaInvalid
  dataPba := pbaInvalid
  suspended := false
  freeTree := freeTr
  helper := TreeHelper.invalidObject

variable (obj : Translation)

/-- `Acceptable`. -/
def Acceptable : Prop := obj.current.valid = false ∧ obj.suspended = false

instance : Decidable obj.Acceptable := inferInstanceAs (Decidable (_ ∧ _))

/-- `Suspend`. -/
def suspend : Translation := { obj with suspended := true }

/-- `Resume`. -/
def resume : Translation := { obj with suspended := false }

/-- `Submit_Primitive`. -/
def submitPrimitive (root : Type1Node) (helper : TreeHelper.Object) (prim : IoPrimitive) :
    Translation :=
  { obj with
    helper := helper
    avail := fun _ => false
    level := helper.maxLevel
    walk := Function.update (fun _ => type1NodeInvalid) helper.maxLevel root
    current := prim
    dataPba := pbaInvalid
    nextPba := root.pba }

/-- `Get_Node`, for the child of the virtual block address at a level. -/
def getNode (data : P.Block) (lvl : ℕ) : Option Type1Node := do
  let vba ← toRange 0 treeMaxNumberOfLeafs obj.current.blockNumber
  let index ← TreeHelper.index obj.helper vba lvl
  some (P.type1NodeBlockFromBlockData data (Fin.ofNat nodesPerBlock index))

/-- The level that a translation ends at. -/
def dataLevel : ℕ := if obj.freeTree then 1 else 0

/-- **`Execute`**, with the block in `Trans_Data`. Below the level 0 there is no
entry in `Data.Avail`. -/
def execute (data : P.Block) : Option Translation :=
  if obj.current.valid = false ∨ obj.dataPba ≠ pbaInvalid then some obj
  else if obj.level = 0 then none
  else if obj.avail (obj.level - 1) = false then
    if obj.nextPba ≠ pbaInvalid then some obj
    else if obj.level = treeMaxMaxLevel then none
    else
      -- the block at hand is that of the level above
      (obj.getNode data (obj.level + 1)).map fun node =>
        { obj with
          walk := Function.update obj.walk obj.level node
          nextPba := node.pba }
  else if P.hash data ≠ (obj.walk obj.level).hash then none
  else if obj.level - 1 = obj.dataLevel then
    (obj.getNode data (obj.dataLevel + 1)).map fun node =>
      { obj with
        level := obj.level - 1
        walk := Function.update obj.walk (obj.level - 1) node
        dataPba := node.pba }
  else some { obj with level := obj.level - 1 }

/-- `Peek_Completed_Primitive`. -/
def peekCompletedPrimitive : Option IoPrimitive :=
  if obj.dataPba ≠ pbaInvalid then obj.current.copyValidObjectNewSuccBlkNr false obj.dataPba
  else some IoPrimitive.invalidObject

/-- `Peek_Completed_Hash`. -/
def peekCompletedHash : Option Hash :=
  if obj.dataPba ≠ pbaInvalid then some (obj.walk obj.level).hash else none

/-- `Peek_Completed_Generation`. -/
def peekCompletedGeneration : Option ℕ :=
  if obj.dataPba ≠ pbaInvalid then some (obj.walk obj.level).gen else none

/-- `Drop_Completed_Primitive`. -/
def dropCompletedPrimitive : Translation :=
  { obj with current := IoPrimitive.invalidObject, dataPba := pbaInvalid }

/-- The block that `Peek_Generated_Primitive` asks for. -/
def peekGeneratedPba : Option ℕ := if obj.nextPba ≠ pbaInvalid then some obj.nextPba else none

/-- `Discard_Generated_Primitive`. -/
def discardGeneratedPrimitive : Translation := { obj with nextPba := pbaInvalid }

/-- `Mark_Generated_Primitive_Complete`, which leaves the block in `Trans_Data` as
well. -/
def markGeneratedPrimitiveComplete : Option Translation :=
  if obj.level = 0 then none
  else some { obj with avail := Function.update obj.avail (obj.level - 1) true }

end Translation

/-! ## The virtual block device -/

/-- `Cache_Prim_State_Type`. -/
inductive VbdCachePrimState where
  | invalid
  | generated
  | dropped
  | complete
  deriving DecidableEq

/-- **`Virtual_Block_Device.Object_Type`.** -/
structure VirtualBlockDevice (P : Platform) where
  /-- The translation. -/
  trans : Translation
  /-- The primitive for the cache. -/
  cachePrim : IoPrimitive
  /-- How far it has come. -/
  cachePrimState : VbdCachePrimState
  /-- The block that it has brought. -/
  cachePrimData : P.Block
  /-- The key for the data. -/
  keyId : ℕ

/-- The arguments of `Virtual_Block_Device.Submit_Primitive`. -/
structure VbdRequest where
  /-- The root of the tree. -/
  root : Type1Node
  /-- Its level. -/
  maxLevel : ℕ
  /-- The degree of the tree. -/
  degree : ℕ
  /-- The number of its leaves. -/
  leafs : ℕ
  /-- The primitive. -/
  prim : IoPrimitive
  /-- Whether a rekeying is in progress. -/
  rekeying : Bool
  /-- The address that it does next. -/
  rekeyingVba : ℕ
  /-- The key that it replaces. -/
  previousKeyId : ℕ
  /-- The current key. -/
  currentKeyId : ℕ

/-- The virtual block address of a request. -/
def VbdRequest.vba (req : VbdRequest) : ℕ := req.prim.blockNumber

/-- The key that a request is read with. -/
def VbdRequest.keyId (req : VbdRequest) : ℕ :=
  if req.rekeying = true ∧ req.rekeyingVba ≤ req.vba then req.previousKeyId else req.currentKeyId

namespace VirtualBlockDevice

/-- `Initialized_Object`. -/
def initializedObject : VirtualBlockDevice P where
  trans := Translation.initializedObject false
  cachePrim := IoPrimitive.invalidObject
  cachePrimState := .invalid
  cachePrimData := P.zero
  keyId := 0

variable (obj : VirtualBlockDevice P)

/-- `Submit_Primitive`. -/
def submitPrimitive (req : VbdRequest) : Option (VirtualBlockDevice P) :=
  (TreeHelper.initializedObject req.degree req.maxLevel req.leafs).map fun helper =>
    { obj with
      keyId := req.keyId
      trans := obj.trans.submitPrimitive req.root helper req.prim }

/-- The primitive to the cache for a block. -/
def cachePrimFor (pba : ℕ) : IoPrimitive where
  valid := true
  operation := .read
  success := false
  tag := .vbdCache
  poolIdxSlot := none
  blockNumber := pba
  index := 0

/-- **`Execute`**, with the block in `Trans_Data` before and after. -/
def execute (transData : P.Block) : Option (VirtualBlockDevice P × P.Block) := do
  let trans ← obj.trans.execute transData
  match trans.peekGeneratedPba with
  | none => some ({ obj with trans := trans }, transData)
  | some pba =>
    if obj.cachePrimState = .invalid then
      some ({ obj with
        trans := trans
        cachePrimState := .generated
        cachePrim := cachePrimFor pba }, transData)
    else if obj.cachePrimState = .complete ∧ obj.cachePrim.Equal (cachePrimFor pba) then
      if obj.cachePrim.success = false then none
      else
        trans.markGeneratedPrimitiveComplete.map fun trans =>
          ({ obj with
            trans := trans.discardGeneratedPrimitive
            cachePrimState := .invalid }, obj.cachePrimData)
    else some ({ obj with trans := trans }, transData)

/-- `Peek_Generated_Cache_Primitive` and `Drop_Generated_Cache_Primitive`, when the
cache takes the primitive. -/
def dropGeneratedCachePrimitive : VirtualBlockDevice P :=
  if obj.cachePrimState = .generated then { obj with cachePrimState := .dropped } else obj

/-- `Mark_Generated_Cache_Primitive_Complete`. -/
def markGeneratedCachePrimitiveComplete (prim : IoPrimitive) (data : P.Block) :
    Option (VirtualBlockDevice P) :=
  if obj.cachePrimState = .dropped ∧ obj.cachePrim.Equal prim then
    some { obj with cachePrimState := .complete, cachePrimData := data, cachePrim := prim }
  else none

end VirtualBlockDevice

/-! ## The way of a read through the library -/

/-- A leaf that the library has asked for: the request, the entry of the leaf, and
the primitive of the virtual block device with its key. -/
structure LeafRead where
  /-- The request. -/
  req : VbdRequest
  /-- The entry of the leaf. -/
  leaf : Type1Node
  /-- The primitive for its block. -/
  prim : IoPrimitive
  /-- The key for its data. -/
  keyId : ℕ

/-- A block that the library hands to the crypto module. -/
structure Ciphertext (P : Platform) where
  /-- The primitive. -/
  prim : IoPrimitive
  /-- The key. -/
  keyId : ℕ
  /-- The block. -/
  data : P.Block

/-- **The part of the library that serves the reads.** The last five fields are a
record: the request that the virtual block device works on, the blocks that were
delivered to it, the leaves that were read as zeros, with the content of the plain
buffer, those whose blocks were asked for, and the blocks handed to the crypto
module. -/
structure ReadPath (P : Platform) where
  /-- The virtual block device. -/
  vbd : VirtualBlockDevice P
  /-- The block that the translation looks at. -/
  transData : P.Block
  /-- The block I/O. -/
  io : BlockIoObject
  /-- Its buffer. -/
  ioBuf : P.Block
  /-- The request at hand. -/
  req : Option VbdRequest
  /-- The blocks that were delivered to the translation. -/
  delivered : List P.Block
  /-- The leaves that were read as zeros. -/
  zeroed : List (LeafRead × P.Block)
  /-- The leaves whose blocks were asked for. -/
  asked : List LeafRead
  /-- The blocks that went to the decryption. -/
  handed : List (Ciphertext P)

namespace ReadPath

/-- The library after its start. -/
def initial (P : Platform) : ReadPath P where
  vbd := VirtualBlockDevice.initializedObject
  transData := P.zero
  io := BlockIoObject.initializedObject
  ioBuf := P.zero
  req := none
  delivered := []
  zeroed := []
  asked := []
  handed := []

variable (w : ReadPath P)

/-- A primitive goes to the virtual block device if that accepts one. -/
def submit (req : VbdRequest) : Option (ReadPath P) :=
  if w.vbd.trans.Acceptable ∧ req.prim.valid = true then
    (w.vbd.submitPrimitive req).map fun vbd => { w with vbd := vbd, req := some req }
  else none

/-- The completed primitive is dropped. -/
def dropCompleted : ReadPath P :=
  { w with
    vbd := { w.vbd with trans := w.vbd.trans.dropCompletedPrimitive }
    req := none }

/-- The leaf that the virtual block device has come to. -/
def leafRead (prim : IoPrimitive) : Option LeafRead :=
  w.req.map fun req =>
    { req := req
      leaf := w.vbd.trans.walk w.vbd.trans.level
      prim := prim
      keyId := w.vbd.keyId }

/-- The loop of `Execute_VBD` over the completed primitives, of which there is one at
most: a leaf of the initial generation reads as zeros, for any other its block is
asked for. -/
def submitLeaf (cryptoAcceptable : Bool) : Option (ReadPath P) := do
  let prim ← w.vbd.trans.peekCompletedPrimitive
  if prim.valid = false ∨ prim.operation ≠ .read then some w
  else
    let gen ← w.vbd.trans.peekCompletedGeneration
    let leaf ← w.leafRead prim
    if gen = 0 then
      if cryptoAcceptable then
        some { w.dropCompleted with zeroed := w.zeroed ++ [(leaf, P.zero)] }
      else some w
    else if w.io.PrimitiveAcceptable then
      let hash ← w.vbd.trans.peekCompletedHash
      let (io, _) ← w.io.submitPrimitiveDecrypt prim hash w.vbd.keyId
      some { w.dropCompleted with io := io, asked := w.asked ++ [leaf] }
    else some w

/-- **`Execute_VBD`**, with what the cache and the crypto module accept. -/
def executeVbd (cacheAcceptable cryptoAcceptable : Bool) : Option (ReadPath P) := do
  let (vbd, transData) ← w.vbd.execute w.transData
  let vbd := if cacheAcceptable then vbd.dropGeneratedCachePrimitive else vbd
  ({ w with vbd := vbd, transData := transData } : ReadPath P).submitLeaf cryptoAcceptable

/-- The cache has completed the primitive of the virtual block device with some
block. -/
def cacheCompleted (success : Bool) (data : P.Block) : Option (ReadPath P) :=
  (w.vbd.markGeneratedCachePrimitiveComplete { w.vbd.cachePrim with success := success } data).map
    fun vbd => { w with vbd := vbd, delivered := w.delivered ++ [data] }

/-- **`Execute_IO`** for the entry that is complete, if there is one. -/
def executeIo (cryptoAcceptable : Bool) : Option (ReadPath P) :=
  let prim := w.io.peekCompletedPrimitive
  if prim.valid = false then some w
  else if prim.success = false then none
  else if prim.tag = .decrypt then
    if cryptoAcceptable then do
      let hash ← w.io.peekCompletedHash prim
      if P.hash w.ioBuf ≠ hash then none
      else
        let tag ← w.io.peekCompletedTag prim
        let keyId ← w.io.peekCompletedKeyId prim
        let prim' ← prim.copyValidObjectNewTag tag
        some { w with
          io := w.io.dropCompletedPrimitive prim
          handed := w.handed ++ [{ prim := prim', keyId := keyId, data := w.ioBuf }] }
    else some w
  else some { w with io := w.io.dropCompletedPrimitive prim }

/-- **What happens**: a primitive goes to the virtual block device, its translation is
suspended or resumed, `Execute_VBD` and `Execute_IO` are called, the cache delivers a
block, a completed write is taken over; another module submits to the block I/O, and
the client takes the entry there and completes it with some block. -/
inductive Action (P : Platform) where
  | submit (req : VbdRequest)
  | suspend
  | resume
  | executeVbd (cacheAcceptable cryptoAcceptable : Bool)
  | cacheCompleted (success : Bool) (data : P.Block)
  | dropWrite
  | submitIo (tag : IoTag) (prim : IoPrimitive) (data : P.Block)
  | ioInProgress
  | ioCompleted (success : Bool) (data : P.Block)
  | executeIo (cryptoAcceptable : Bool)

/-- **A step.** Only the virtual block device submits with the tag for decryption. -/
def step (w : ReadPath P) : Action P → Option (ReadPath P)
  | .submit req => w.submit req
  | .suspend => some { w with vbd := { w.vbd with trans := w.vbd.trans.suspend } }
  | .resume => some { w with vbd := { w.vbd with trans := w.vbd.trans.resume } }
  | .executeVbd cacheAcceptable cryptoAcceptable => w.executeVbd cacheAcceptable cryptoAcceptable
  | .cacheCompleted success data => w.cacheCompleted success data
  | .dropWrite =>
    w.vbd.trans.peekCompletedPrimitive.bind fun prim =>
      if prim.valid = true ∧ prim.operation = .write then some w.dropCompleted else none
  | .submitIo tag prim data =>
    if tag = .decrypt then none
    else (w.io.submitPrimitive tag prim).map fun r => { w with io := r.1, ioBuf := data }
  | .ioInProgress => (w.io.dropGeneratedPrimitive2 0).map fun io => { w with io := io }
  | .ioCompleted success data =>
    (w.io.markGeneratedPrimitiveComplete 0 success).map fun io =>
      { w with io := io, ioBuf := data }
  | .executeIo cryptoAcceptable => w.executeIo cryptoAcceptable

end ReadPath

end Cbe
