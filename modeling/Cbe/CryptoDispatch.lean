import Cbe.CryptoModule
import Cbe.ExternalCrypto
import Mathlib.Data.Option.Basic

/-!
# The way of the crypto jobs

Between the modules of the library and the crypto device stands the client. It calls the
library, which hands new primitives to the crypto module and takes completed ones back, fetches
the data of its own reads, supplies that of its writes, and then polls the crypto module for
work: keys to add, keys to remove, blocks to encrypt, blocks to decrypt, always in this order.

The library offers a pending primitive by its tag and operation. The filters overlap: the
removal of a key passes for a decryption too, and a completed job of another module would be
taken for a read of the client. Only the order of the calls keeps them apart.

The request pool and the requests that the client has in progress are driven by other parts of
the program. A call of the library gets them as they are at that time, whatever they are; where
the library or the client raises because they are not as it expects, the call returns nothing.

A state has the two lists of what was accepted and what was handed back so far; nothing reads
them.
-/

namespace Cbe

variable {B : Type}

/-! ## The library at the side of the client -/

/-- `Event_Type`, as far as the library waits for it. -/
inductive FrontEndEvent where
  | invalid
  | supplyClientDataAfterVbd
  | supplyClientDataAfterFt
  | obtainClientData
  deriving DecidableEq

/-- `Wait_For_Event_Type`. -/
structure WaitForEvent where
  /-- The request of the client. -/
  req : Request
  /-- The primitive whose data is waited for. -/
  prim : IoPrimitive
  /-- Which call of the client is waited for. -/
  event : FrontEndEvent

/-- `Wait_For_Event_Invalid`. -/
def WaitForEvent.invalid : WaitForEvent :=
  { req := Request.invalidObject, prim := IoPrimitive.invalidObject, event := .invalid }

/-- `Crypto.Item_Index_Type` of a tag: the conversion raises outside the range. -/
def itemIndexOfTag (tag : ℕ) : Option ItemIndex :=
  if h : tag < numCryptoItems then some ⟨tag, h⟩ else none

namespace CryptoObject

/-- The request for a key of the item of an index. -/
def keyRequest (idx : ItemIndex) : Request :=
  { valid := true, operation := .read, success := false, blockNumber := 0, offset := 0,
    count := 1, keyId := 0, tag := idx }

/-- `Crypto_Remove_Key_Required`. -/
def removeKeyRequired (obj : CryptoObject) : Option (Request × ℕ) :=
  let generated := obj.peekGeneratedPrimitive
  if generated.2.valid = false ∨ generated.2.tag ≠ .sbCtrlCryptoRemoveKey then
    some (Request.invalidObject, 0)
  else (obj.peekGeneratedKeyId generated.1).map fun keyId => (keyRequest generated.1, keyId)

/-- `Crypto_Add_Key_Required`. -/
def addKeyRequired (obj : CryptoObject) : Option (Request × Key) :=
  let generated := obj.peekGeneratedPrimitive
  if generated.2.valid = false ∨ generated.2.tag ≠ .sbCtrlCryptoAddKey then
    some (Request.invalidObject, keyInvalid)
  else (obj.peekGeneratedKey generated.1).map fun key => (keyRequest generated.1, key)

/-- What `Crypto_Add_Key_Requested` and `Crypto_Remove_Key_Requested` share: the item that the
tag of the request stands for is no longer offered. -/
def keyRequested (obj : CryptoObject) (req : Request) : Option CryptoObject :=
  (itemIndexOfTag req.tag).bind obj.dropGeneratedPrimitive

/-- `Crypto_Add_Key_Requested`. -/
def addKeyRequested (obj : CryptoObject) (req : Request) : Option CryptoObject :=
  obj.keyRequested req

/-- `Crypto_Remove_Key_Requested`. -/
def removeKeyRequested (obj : CryptoObject) (req : Request) : Option CryptoObject :=
  obj.keyRequested req

/-- What `Crypto_Add_Key_Completed` and `Crypto_Remove_Key_Completed` share. -/
def keyCompleted (obj : CryptoObject) (req : Request) : Option CryptoObject :=
  (itemIndexOfTag req.tag).bind fun idx => obj.markCompletedPrimitive idx req.success

/-- `Crypto_Add_Key_Completed`. -/
def addKeyCompleted (obj : CryptoObject) (req : Request) : Option CryptoObject :=
  obj.keyCompleted req

/-- `Crypto_Remove_Key_Completed`. -/
def removeKeyCompleted (obj : CryptoObject) (req : Request) : Option CryptoObject :=
  obj.keyCompleted req

/-- What `Crypto_Cipher_Data_Required` and `Crypto_Plain_Data_Required` share: the request for
the data of the pending primitive, if it has the operation and is not the addition of a key. -/
def dataRequired (obj : CryptoObject) (op : PrimitiveOperation) (reqOp : RequestOperation) :
    Option (Request × ItemIndex) :=
  let generated := obj.peekGeneratedPrimitive
  if generated.2.valid = false ∨ generated.2.tag = .sbCtrlCryptoAddKey
      ∨ generated.2.operation ≠ op then
    some (Request.invalidObject, generated.1)
  else
    (obj.peekGeneratedKeyId generated.1).map fun keyId =>
      ({ valid := true, operation := reqOp, success := false,
         blockNumber := generated.2.blockNumber, offset := 0, count := 1, keyId := keyId,
         tag := 0 }, generated.1)

/-- `Crypto_Cipher_Data_Required`. -/
def cipherDataRequired (obj : CryptoObject) : Option (Request × ItemIndex) :=
  obj.dataRequired .write .write

/-- `Crypto_Plain_Data_Required`. -/
def plainDataRequired (obj : CryptoObject) : Option (Request × ItemIndex) :=
  obj.dataRequired .read .read

/-- `Crypto_Cipher_Data_Requested`. -/
def cipherDataRequested (obj : CryptoObject) (idx : ItemIndex) : Option CryptoObject :=
  obj.dropGeneratedPrimitive idx

/-- `Crypto_Plain_Data_Requested`. -/
def plainDataRequested (obj : CryptoObject) (idx : ItemIndex) : Option CryptoObject :=
  obj.dropGeneratedPrimitive idx

/-- `Supply_Crypto_Cipher_Data`. -/
def supplyCryptoCipherData (obj : CryptoObject) (idx : ItemIndex) (dataValid : Bool) :
    Option CryptoObject :=
  obj.markCompletedPrimitive idx dataValid

/-- `Supply_Crypto_Plain_Data`. -/
def supplyCryptoPlainData (obj : CryptoObject) (idx : ItemIndex) (dataValid : Bool) :
    Option CryptoObject :=
  obj.markCompletedPrimitive idx dataValid

end CryptoObject

/-! ## What is handed to the crypto module -/

/-- `Primitive.Index_Type`. -/
abbrev PrimitiveIndex := Fin 4294967296

/-- The places of the library that hand a primitive to the crypto module, each with the values
that the primitive gets there. `idx` is the index of the primitive, `pool` its pool index and
`pba` its block number. -/
inductive Submission (B : Type) where
  /-- `Execute_SB_Ctrl`. -/
  | addKey (idx : PrimitiveIndex) (key : Key)
  | removeKey (idx : PrimitiveIndex) (keyId : ℕ)
  /-- `Execute_VBD_Rkg`. -/
  | rekeyDecrypt (idx : PrimitiveIndex) (pba keyId : ℕ) (data : B)
  | rekeyEncrypt (idx : PrimitiveIndex) (pba keyId : ℕ) (data : B)
  /-- `Execute_VBD`: a read of a block that was never written. -/
  | readInitial (pool : PoolIndex) (idx : PrimitiveIndex) (pba keyId : ℕ)
  /-- `Execute_IO`: a read whose block has arrived. -/
  | read (pool : PoolIndex) (idx : PrimitiveIndex) (pba keyId : ℕ) (data : B)
  /-- `Execute_Writeback`. -/
  | writeBack (pool : PoolIndex) (pba keyId : ℕ) (data : B)

/-- The modules that get a completed primitive of the crypto module. -/
inductive CryptoClient where
  | superblockControl
  | vbdRekeying
  | writeBack
  | frontEnd
  deriving DecidableEq

/-- **A completed primitive** that was handed back, with the data of its buffer. -/
structure Delivery (B : Type) where
  /-- Where the primitive came from. -/
  client : CryptoClient
  /-- The primitive as it was handed back. -/
  prim : IoPrimitive
  /-- The data of its buffer, if there is some. -/
  data : Option B
  deriving DecidableEq

/-- The primitive that is handed over. -/
def Submission.prim : Submission B → IoPrimitive
  | .addKey idx _ =>
    { valid := true, operation := .read, success := false, tag := .sbCtrlCryptoAddKey,
      poolIdxSlot := none, blockNumber := 0, index := idx }
  | .removeKey idx _ =>
    { valid := true, operation := .read, success := false, tag := .sbCtrlCryptoRemoveKey,
      poolIdxSlot := none, blockNumber := 0, index := idx }
  | .rekeyDecrypt idx pba _ _ =>
    { valid := true, operation := .read, success := false, tag := .vbdRkgCryptoDecrypt,
      poolIdxSlot := none, blockNumber := pba, index := idx }
  | .rekeyEncrypt idx pba _ _ =>
    { valid := true, operation := .write, success := false, tag := .vbdRkgCryptoEncrypt,
      poolIdxSlot := none, blockNumber := pba, index := idx }
  | .readInitial pool idx pba _ =>
    { valid := true, operation := .read, success := true, tag := .poolVbd,
      poolIdxSlot := some pool, blockNumber := pba, index := idx }
  | .read pool idx pba _ _ =>
    { valid := true, operation := .read, success := true, tag := .poolVbd,
      poolIdxSlot := some pool, blockNumber := pba, index := idx }
  | .writeBack pool pba _ _ =>
    { valid := true, operation := .write, success := false, tag := .encrypt,
      poolIdxSlot := some pool, blockNumber := pba, index := 0 }

/-- **The state**: the crypto module with its buffers, what the library waits for, the device,
and what was accepted and handed back so far. -/
structure CryptoWorld (B : Type) where
  /-- The crypto module. -/
  crypto : CryptoObject
  /-- The plain data of each item. -/
  plainBuf : ItemIndex → B
  /-- The encrypted data of each item. -/
  cipherBuf : ItemIndex → B
  /-- What the library waits for. -/
  wait : WaitForEvent
  /-- `SCD_State` is `Active`: data for a write was supplied and is being worked on. -/
  scdActive : Bool
  /-- The external device. -/
  device : ExternalCrypto B
  /-- What the crypto module has accepted, in order. -/
  accepted : List (Submission B)
  /-- What was handed back, in order. -/
  delivered : List (Delivery B)

/-- A loop that runs until its body has nothing to do. The body returns nothing when it raises;
the loop returns nothing when the rounds do not suffice. -/
def whileLoop {σ : Type} (body : σ → Option (Option σ)) : ℕ → σ → Option σ
  | 0, _ => none
  | n + 1, s =>
    (body s).bind fun r => match r with
      | none => some s
      | some s' => whileLoop body n s'

namespace CryptoWorld

/-- The state that the library and the device begin with. -/
def initial (aes : Aes B) : CryptoWorld B :=
  { crypto := CryptoObject.initializedObject, plainBuf := fun _ => aes.zero,
    cipherBuf := fun _ => aes.zero, wait := WaitForEvent.invalid, scdActive := false,
    device := ExternalCrypto.initializedObject aes, accepted := [], delivered := [] }

/-- A primitive is handed to the crypto module, if that can take one. Otherwise it stays with
the module that it comes from. -/
def offer (aes : Aes B) (w : CryptoWorld B) (s : Submission B) : Option (CryptoWorld B) :=
  if ¬ w.crypto.PrimitiveAcceptable then some w
  else
    match s with
    | .addKey _ key =>
      (w.crypto.submitPrimitiveKey s.prim key).map fun crypto =>
        { w with crypto := crypto, accepted := w.accepted ++ [s] }
    | .removeKey _ keyId =>
      (w.crypto.submitPrimitiveKeyId s.prim keyId).map fun crypto =>
        { w with crypto := crypto, accepted := w.accepted ++ [s] }
    | .rekeyDecrypt _ _ keyId data | .read _ _ _ keyId data =>
      (w.crypto.submitPrimitive s.prim keyId).map fun r =>
        { w with
          crypto := r.1
          cipherBuf := Function.update w.cipherBuf r.2 data
          accepted := w.accepted ++ [s] }
    | .rekeyEncrypt _ _ keyId data | .writeBack _ _ keyId data =>
      (w.crypto.submitPrimitive s.prim keyId).map fun r =>
        { w with
          crypto := r.1
          plainBuf := Function.update w.plainBuf r.2 data
          accepted := w.accepted ++ [s] }
    | .readInitial _ _ _ keyId =>
      -- nothing to decrypt: the primitive is complete when it is submitted
      (w.crypto.submitCompletedPrimitive s.prim keyId).map fun r =>
        { w with
          crypto := r.1
          plainBuf := Function.update w.plainBuf r.2 aes.zero
          accepted := w.accepted ++ [s] }

/-- A completed primitive leaves the crypto module for a module of the library. -/
def deliver (w : CryptoWorld B) (client : CryptoClient) (prim : IoPrimitive) (data : Option B) :
    CryptoWorld B :=
  { w with
    crypto := w.crypto.dropCompletedPrimitive
    delivered := w.delivered ++ [{ client := client, prim := prim, data := data }] }

/-- A round of the loop of `Execute_Crypto`. -/
def executeCryptoOnce (w : CryptoWorld B) : Option (Option (CryptoWorld B)) :=
  let prim := w.crypto.peekCompletedPrimitive
  match prim.tag with
  | .sbCtrlCryptoAddKey | .sbCtrlCryptoRemoveKey =>
    some (some (w.deliver .superblockControl prim none))
  | .vbdRkgCryptoDecrypt =>
    (w.crypto.dataIndex prim).map fun idx =>
      some (w.deliver .vbdRekeying prim (some (w.plainBuf idx)))
  | .vbdRkgCryptoEncrypt =>
    (w.crypto.dataIndex prim).map fun idx =>
      some (w.deliver .vbdRekeying prim (some (w.cipherBuf idx)))
  | _ =>
    -- a read stays: its data goes to the client, not to a module
    if prim.valid = false ∨ prim.operation = .read then some none
    -- `Execute_Crypto` raises for a write that failed
    else if prim.success = false then none
    else
      (w.crypto.dataIndex prim).map fun idx =>
        some (w.deliver .writeBack prim (some (w.cipherBuf idx)))

/-- `Execute_Crypto`. -/
def executeCrypto (w : CryptoWorld B) : Option (CryptoWorld B) :=
  whileLoop executeCryptoOnce (numCryptoItems + 1) w

/-- `Start_Waiting_For_Front_End`. It raises for a primitive without a pool index, and for one
whose job in the pool is invalid. -/
def startWaitingForFrontEnd (w : CryptoWorld B) (pool : RequestPool) (prim : IoPrimitive)
    (event : FrontEndEvent) : Option (CryptoWorld B) :=
  prim.poolIdxSlot.bind fun idx =>
    (pool.requestForIndex idx).map fun req =>
      { w with wait := { req := req, prim := prim, event := event } }

/-- `Client_Data_Ready`. -/
def clientDataReady (w : CryptoWorld B) (pool : RequestPool) :
    Option (Request × CryptoWorld B) :=
  if w.wait.prim.valid = true then some (Request.invalidObject, w)
  else
    let prim := w.crypto.peekCompletedPrimitive
    match prim.tag with
    -- the tags of the rekeying are filtered out by an exception
    | .vbdRkgCryptoDecrypt | .vbdRkgCryptoEncrypt => none
    | _ =>
      if prim.valid = true ∧ prim.operation = .read then
        (w.startWaitingForFrontEnd pool prim .obtainClientData).map fun w => (w.wait.req, w)
      else some (Request.invalidObject, w)

/-- `Front_End_Busy_With_Other_Request`. -/
def FrontEndBusyWithOtherRequest (w : CryptoWorld B) (req : Request) : Prop :=
  ¬ w.wait.req.Equal req

instance (w : CryptoWorld B) (req : Request) : Decidable (w.FrontEndBusyWithOtherRequest req) :=
  inferInstanceAs (Decidable (¬ _))

/-- `Client_Data_Index`. The invalid index is the last one of `Primitive.Index_Type`. -/
def clientDataIndex (w : CryptoWorld B) (req : Request) : ℕ :=
  if w.FrontEndBusyWithOtherRequest req then 2 ^ 32 - 1 else w.wait.prim.index

/-- `Obtain_Client_Data`, with the data that the client copies from the buffer. The pool is told
that a primitive of the request is complete. -/
def obtainClientData (w : CryptoWorld B) (pool : RequestPool) (req : Request) :
    Option (CryptoWorld B × RequestPool) :=
  if w.FrontEndBusyWithOtherRequest req ∨ w.wait.event ≠ .obtainClientData then some (w, pool)
  else
    (w.crypto.dataIndex w.wait.prim).bind fun idx =>
      w.wait.prim.poolIdxSlot.bind fun slot =>
        (pool.markGeneratedPrimitiveComplete slot w.wait.prim.success).map fun pool =>
          ({ w.deliver .frontEnd w.wait.prim (some (w.plainBuf idx)) with
              wait := WaitForEvent.invalid }, pool)

/-- `Client_Data_Required`, where `prim` is the write that the virtual block device or the free
tree has completed. -/
def clientDataRequired (w : CryptoWorld B) (pool : RequestPool) (prim : IoPrimitive)
    (event : FrontEndEvent) : Option (Request × CryptoWorld B) :=
  if w.wait.prim.valid = true ∨ prim.valid = false then some (Request.invalidObject, w)
  else (w.startWaitingForFrontEnd pool prim event).map fun w => (w.wait.req, w)

/-- `Supply_Client_Data`. -/
def supplyClientData (w : CryptoWorld B) : Option (CryptoWorld B) :=
  if w.scdActive = true then none else some { w with scdActive := true }

/-- What `Execute_SCD` makes of a wait for the data of a write: it ends the wait, or it does
nothing, or it gives up on the data and leaves the wait. -/
inductive ScdStep where
  | stays
  | ends
  | givesUp
  deriving DecidableEq

/-- `Execute_SCD`, as far as the wait goes. -/
def executeScd (w : CryptoWorld B) : ScdStep → CryptoWorld B
  | .stays => w
  | .ends =>
    if w.wait.event ≠ .obtainClientData then
      { w with wait := WaitForEvent.invalid, scdActive := false }
    else w
  | .givesUp => { w with scdActive := false }

/-! ## The client -/

/-- A round of the loop that adds keys. -/
def addKeyOnce (w : CryptoWorld B) : Option (Option (CryptoWorld B)) :=
  w.crypto.addKeyRequired.bind fun r =>
    if r.1.valid = false then some none
    else
      (w.crypto.addKeyRequested r.1).bind fun crypto =>
        (w.device.addKey r.2.id r.2.value).bind fun device =>
          (crypto.addKeyCompleted { r.1 with success := true }).map fun crypto =>
            some { w with crypto := crypto, device := device }

/-- A round of the loop that removes keys. -/
def removeKeyOnce (w : CryptoWorld B) : Option (Option (CryptoWorld B)) :=
  w.crypto.removeKeyRequired.bind fun r =>
    if r.1.valid = false then some none
    else
      (w.crypto.removeKeyRequested r.1).bind fun crypto =>
        (w.device.removeKey r.2).bind fun device =>
          (crypto.removeKeyCompleted { r.1 with success := true }).map fun crypto =>
            some { w with crypto := crypto, device := device }

/-- A round of the loop that submits encryptions. -/
def encryptOnce (w : CryptoWorld B) : Option (Option (CryptoWorld B)) :=
  w.crypto.cipherDataRequired.bind fun r =>
    if r.1.valid = false ∨ ¬ w.device.EncryptionRequestAcceptable then some none
    else
      (w.device.submitEncryptionRequest { r.1 with tag := r.2 } (w.plainBuf r.2)).bind
        fun device =>
          (w.crypto.cipherDataRequested r.2).map fun crypto =>
            some { w with crypto := crypto, device := device }

/-- A round of the loop that fetches encrypted blocks. -/
def fetchCipherOnce (w : CryptoWorld B) : Option (Option (CryptoWorld B)) :=
  let request := w.device.peekCompletedEncryptionRequest
  if request.valid = false then some none
  else
    (itemIndexOfTag request.tag).bind fun idx =>
      match w.device.supplyCipherData request with
      | none => some none
      | some r =>
        (w.crypto.supplyCryptoCipherData idx request.success).map fun crypto =>
          some { w with
            crypto := crypto
            cipherBuf := Function.update w.cipherBuf idx r.1
            device := r.2 }

/-- A round of the loop that submits decryptions. -/
def decryptOnce (w : CryptoWorld B) : Option (Option (CryptoWorld B)) :=
  w.crypto.plainDataRequired.bind fun r =>
    if r.1.valid = false ∨ ¬ w.device.DecryptionRequestAcceptable then some none
    else
      (w.device.submitDecryptionRequest { r.1 with tag := r.2 } (w.cipherBuf r.2)).bind
        fun device =>
          (w.crypto.plainDataRequested r.2).map fun crypto =>
            some { w with crypto := crypto, device := device }

/-- A round of the loop that fetches decrypted blocks. -/
def fetchPlainOnce (w : CryptoWorld B) : Option (Option (CryptoWorld B)) :=
  let request := w.device.peekCompletedDecryptionRequest
  if request.valid = false then some none
  else
    (itemIndexOfTag request.tag).bind fun idx =>
      match w.device.supplyPlainData request with
      | none => some none
      | some r =>
        (w.crypto.supplyCryptoPlainData idx request.success).map fun crypto =>
          some { w with
            crypto := crypto
            plainBuf := Function.update w.plainBuf idx r.1
            device := r.2 }

/-- The work of the device at the beginning of `_handle_crypto`. -/
def executeDevice (aes : Aes B) (w : CryptoWorld B) : Option (CryptoWorld B) :=
  (w.device.execute aes).map fun device => { w with device := device }

/-- `_handle_crypto`. -/
def handleCrypto (aes : Aes B) (w : CryptoWorld B) : Option (CryptoWorld B) :=
  (w.executeDevice aes).bind fun w =>
    (whileLoop addKeyOnce (numCryptoItems + 1) w).bind fun w =>
      (whileLoop removeKeyOnce (numCryptoItems + 1) w).bind fun w =>
        (whileLoop encryptOnce (numCryptoItems + 1) w).bind fun w =>
          (whileLoop fetchCipherOnce (numCryptoItems + 1) w).bind fun w =>
            (whileLoop decryptOnce (numCryptoItems + 1) w).bind
              (whileLoop fetchPlainOnce (numCryptoItems + 1))

/-! ## The rounds of the client -/

/-- What the client has in progress when it calls the library: the read or the write of its
helper for unaligned accesses, and the request of the front end. -/
structure ClientRequests where
  /-- The read of its helper. -/
  helperRead : Bool
  /-- The write of its helper. -/
  helperWrite : Bool
  /-- The request itself. -/
  frontEnd : Bool

/-- **The client has a buffer for a block** of a request: that of its helper, or that of the
front end's request, at the place of the block. Without a request in progress it throws, and so
it does for a null pointer. -/
def HasBuffer (helper frontEnd : Bool) (req : Request) (primIndex : ℕ) : Prop :=
  helper = true ∨ frontEnd = true ∧ (req.offset + primIndex * blockSize) % 2 ^ 64 ≠ 0

instance (helper frontEnd : Bool) (req : Request) (primIndex : ℕ) :
    Decidable (HasBuffer helper frontEnd req primIndex) := inferInstanceAs (Decidable (_ ∨ _))

/-- A write that waits for its data: one that the virtual block device has completed, or one that
the free tree has. -/
structure RequiredData where
  /-- The primitive of the write. -/
  prim : IoPrimitive
  /-- Whether it comes from the free tree. -/
  afterFt : Bool

/-- No write waits for its data. -/
def RequiredData.invalid : RequiredData :=
  { prim := IoPrimitive.invalidObject, afterFt := false }

/-- The event that the library waits for. -/
def RequiredData.event (required : RequiredData) : FrontEndEvent :=
  if required.afterFt then .supplyClientDataAfterFt else .supplyClientDataAfterVbd

/-- **A pass through the front end**: what the modules offer before and after `Execute_Crypto`,
how `Execute_SCD` goes, what the client has in progress and the pool when the client asks for
data, and the write for which data is required. -/
structure Pass (B : Type) where
  /-- How `Execute_SCD` goes. -/
  scd : ScdStep
  /-- What is offered before `Execute_Crypto`. -/
  before : List (Submission B)
  /-- What is offered after it. -/
  after : List (Submission B)
  /-- What the client has in progress. -/
  client : ClientRequests
  /-- The request pool, when the client asks for data. -/
  pool : RequestPool
  /-- The write for which data is required. -/
  required : RequiredData

/-- The part of the front end that fetches the data of a read. It tells whether the front end
goes on: an index that the client takes for an error ends the call. -/
def handleReadData (w : CryptoWorld B) (pass : Pass B) :
    Option (Bool × CryptoWorld B × RequestPool) :=
  (w.clientDataReady pass.pool).bind fun r =>
    if r.1.valid = true ∧ r.1.operation = .read then
      let primIndex := r.2.clientDataIndex r.1
      if primIndex = 2 ^ 64 - 1 then some (false, r.2, pass.pool)
      else if HasBuffer pass.client.helperRead pass.client.frontEnd r.1 primIndex then
        (r.2.obtainClientData pass.pool r.1).map fun r => (true, r.1, r.2)
      else none
    else some (true, r.2, pass.pool)

/-- The part of the front end that supplies the data of a write. -/
def handleWriteData (w : CryptoWorld B) (pass : Pass B) (pool : RequestPool) :
    Option (CryptoWorld B) :=
  (w.clientDataRequired pool pass.required.prim pass.required.event).bind fun r =>
    if r.1.valid = true ∧ r.1.operation = .write then
      let primIndex := r.2.clientDataIndex r.1
      if primIndex = 2 ^ 64 - 1 then some r.2
      else if HasBuffer pass.client.helperWrite pass.client.frontEnd r.1 primIndex then
        r.2.supplyClientData
      else none
    else some r.2

/-- The modules offer one primitive after the other. -/
def offerAll (aes : Aes B) (w : CryptoWorld B) (l : List (Submission B)) :
    Option (CryptoWorld B) :=
  l.foldlM (offer aes) w

/-- `Execute`, as far as it reaches the crypto module. -/
def execute (aes : Aes B) (w : CryptoWorld B) (pass : Pass B) : Option (CryptoWorld B) :=
  (offerAll aes (w.executeScd pass.scd) pass.before).bind fun w =>
    w.executeCrypto.bind fun w => offerAll aes w pass.after

/-- `_handle_cbe_frontend`, which calls the library first. -/
def handleFrontEnd (aes : Aes B) (w : CryptoWorld B) (pass : Pass B) : Option (CryptoWorld B) :=
  (w.execute aes pass).bind fun w =>
    (w.handleReadData pass).bind fun r =>
      if r.1 = true then r.2.1.handleWriteData pass r.2.2 else some r.2.1

/-- The part of a round before the crypto jobs. The front end may turn a request down before it
calls the library, and has no pass then. -/
def frontEnd (aes : Aes B) (w : CryptoWorld B) : Option (Pass B) → Option (CryptoWorld B)
  | none => some w
  | some pass => w.handleFrontEnd aes pass

/-- **A round** of the loop of the client. -/
def round (aes : Aes B) (w : CryptoWorld B) (pass : Option (Pass B)) : Option (CryptoWorld B) :=
  (w.frontEnd aes pass).bind (handleCrypto aes)

end CryptoWorld

end Cbe
