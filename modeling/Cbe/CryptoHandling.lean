import Cbe.CryptoDispatch

/-!
# What the client does with a crypto job

A primitive is taken by the loop for its kind, the ones before it pass it by: a
key is added or removed at once, a block is handed to the device in one round
and fetched in the next. Each lemma says what `_handle_crypto` makes of a state,
and that it raises only where the device does.

The client runs six loops one after the other: the device works on its job, then
keys are added and removed, then blocks are encrypted and decrypted, each in two
loops, one that submits and one that fetches. The crypto module of the library
has one slot, so every loop makes one round at most. What has to be settled is
which loop that is. The filters of the source are not exclusive: the removal of
a key is offered as a block to decrypt too, because the filters for the data
leave out the addition of a key only. It is the order of the loops that keeps
the removal from being handed to the device, and `handleCrypto_removeKey` is
where this is used.

The states that a job goes through are named (`keyDone`, `atDevice`, `withJob`,
`encrypted`, `decrypted`), and the results are equations between them, so that
the run of the service needs no loop any more.
-/

namespace Cbe

variable {B : Type}

/-- The item of a job that is done. -/
def CryptoItem.done (item : CryptoItem) : CryptoItem :=
  { item with state := .complete, prim := { item.prim with success := true } }

theorem CryptoItem.done_state (item : CryptoItem) : item.done.state = .complete := rfl

/-- A job that is done is not offered again. -/
theorem CryptoItem.done_ne_pending (item : CryptoItem) : item.done.state ≠ .pending := by
  rintro ⟨⟩

/-! ## Loops

The loops of the client end when nothing is offered. With one slot in the
library's module a loop stops at once, or after a single round. -/

section

variable {σ : Type} {body : σ → Option (Option σ)} {s s' : σ}

/-- A loop whose body finds nothing to do leaves the state as it is. -/
theorem whileLoop_stop (h : body s = some none) (n : ℕ) : whileLoop body (n + 1) s = some s := by
  show (body s).bind _ = _
  rw [h]
  rfl

/-- A loop whose body finds something to do only once makes one round. -/
theorem whileLoop_once (h : body s = some (some s')) (h' : body s' = some none) (n : ℕ) :
    whileLoop body (n + 2) s = some s' := by
  show (body s).bind _ = _
  rw [h]
  exact whileLoop_stop h' n

/-- A loop raises where its body does. -/
theorem whileLoop_raise (h : body s = none) (n : ℕ) : whileLoop body (n + 1) s = none := by
  show (body s).bind _ = _
  rw [h]
  rfl

end

/-! ## What the library offers

The module `Crypto` of the library offers the primitive of its slot to several
filters: one for each kind of key request, one for each direction of the data.
Each filter answers with an invalid request where the primitive is not of its
kind, which is what ends the loop of the client. -/

namespace CryptoObject

variable {item : CryptoItem} {op : PrimitiveOperation} {reqOp : RequestOperation}

/-- Without a pending primitive an invalid one is offered. -/
theorem generated_valid (h : item.state ≠ .pending) :
    (ofItem item).peekGeneratedPrimitive = (0, IoPrimitive.invalidObject) := by
  rw [peekGenerated_ofItem, if_neg h]

/-- The pending primitive is offered. -/
theorem generated_pending (h : item.state = .pending) :
    (ofItem item).peekGeneratedPrimitive = (0, item.prim) := by
  rw [peekGenerated_ofItem, if_pos h]

/-- No key is to be added where the pending primitive is not for that. -/
theorem addKeyRequired_stop
    (h : item.state ≠ .pending ∨ item.prim.tag ≠ .sbCtrlCryptoAddKey) :
    (ofItem item).addKeyRequired = some (Request.invalidObject, keyInvalid) := by
  unfold addKeyRequired
  by_cases hst : item.state = .pending
  · rw [generated_pending hst]
    exact if_pos (Or.inr (h.resolve_left (not_not.mpr hst)))
  · rw [generated_valid hst]
    exact if_pos (Or.inl rfl)

/-- A pending primitive that adds a key is offered with the key. -/
theorem addKeyRequired_pending (hst : item.state = .pending) (hv : item.prim.valid = true)
    (ht : item.prim.tag = .sbCtrlCryptoAddKey) :
    (ofItem item).addKeyRequired = some (keyRequest 0, item.key) := by
  unfold addKeyRequired
  rw [generated_pending hst]
  dsimp only
  rw [if_neg (by rw [hv, ht]; decide), peekGeneratedKey_ofItem hst]
  rfl

/-- No key is to be removed where the pending primitive is not for that. -/
theorem removeKeyRequired_stop
    (h : item.state ≠ .pending ∨ item.prim.tag ≠ .sbCtrlCryptoRemoveKey) :
    (ofItem item).removeKeyRequired = some (Request.invalidObject, 0) := by
  unfold removeKeyRequired
  by_cases hst : item.state = .pending
  · rw [generated_pending hst]
    exact if_pos (Or.inr (h.resolve_left (not_not.mpr hst)))
  · rw [generated_valid hst]
    exact if_pos (Or.inl rfl)

/-- A pending primitive that removes a key is offered with the id of the key. -/
theorem removeKeyRequired_pending (hst : item.state = .pending) (hv : item.prim.valid = true)
    (ht : item.prim.tag = .sbCtrlCryptoRemoveKey) :
    (ofItem item).removeKeyRequired = some (keyRequest 0, item.keyId) := by
  unfold removeKeyRequired
  rw [generated_pending hst]
  dsimp only
  rw [if_neg (by rw [hv, ht]; decide), peekGeneratedKeyId_ofItem hst]
  rfl

/-- No data is to be worked on where the pending primitive has another
operation. -/
theorem dataRequired_stop (h : item.state ≠ .pending ∨ item.prim.operation ≠ op) :
    (ofItem item).dataRequired op reqOp = some (Request.invalidObject, 0) := by
  unfold dataRequired
  by_cases hst : item.state = .pending
  · rw [generated_pending hst]
    exact if_pos (Or.inr (Or.inr (h.resolve_left (not_not.mpr hst))))
  · rw [generated_valid hst]
    exact if_pos (Or.inl rfl)

/-- The filters for the data leave out the addition of a key only: a pending
primitive of any other tag is offered to them if the operation is theirs. -/
theorem dataRequired_pending (hst : item.state = .pending) (hv : item.prim.valid = true)
    (ht : item.prim.tag ≠ .sbCtrlCryptoAddKey) (hop : item.prim.operation = op) :
    (ofItem item).dataRequired op reqOp
      = some ({ valid := true, operation := reqOp, success := false,
                blockNumber := item.prim.blockNumber, offset := 0, count := 1,
                keyId := item.keyId, tag := 0 }, 0) := by
  unfold dataRequired
  rw [generated_pending hst]
  dsimp only
  rw [if_neg (by rw [hv]; simp [ht, hop]), peekGeneratedKeyId_ofItem hst]
  rfl

/-- Once the client has taken a key request, the primitive is in progress. -/
theorem keyRequested_keyRequest (hst : item.state = .pending) :
    (ofItem item).keyRequested (keyRequest 0) = some (ofItem { item with state := .inProgress }) :=
  dropGenerated_ofItem hst

/-- Once the client has answered a key request, the primitive is done. -/
theorem keyCompleted_keyRequest (hst : item.state = .inProgress) :
    (ofItem item).keyCompleted { keyRequest 0 with success := true } = some (ofItem item.done) :=
  markCompleted_ofItem hst true

end CryptoObject

/-! ## The work of the client

Each case first says what the body of its own loop does, then that the loops
before and after it find nothing to do. Two facts about the device carry this:
it is idle before a job is handed to it (`ExternalCrypto.Idle`), and only the
first of its slots is ever used (`OnlyFirst`). -/

/-- The device has no job: no slot but the first is ever used, and that one is
free. -/
structure ExternalCrypto.Idle (c : ExternalCrypto B) : Prop where
  /-- No job but the first one is ever in use. -/
  only : c.OnlyFirst
  /-- The first one is free. -/
  first : (c.jobs 0).operation = .invalid

/-- An idle device stays idle when its keys change. -/
theorem ExternalCrypto.Idle.withKeys {c : ExternalCrypto B} (h : c.Idle) (keys : ExternalKeys) :
    ({ c with keys := keys } : ExternalCrypto B).Idle :=
  ⟨h.only, h.first⟩

/-- A job that is done leaves the device idle. -/
theorem ExternalCrypto.OnlyFirst.idle {c : ExternalCrypto B} (h : c.OnlyFirst)
    (job : ExternalJob B) : (c.setJob 0 { job with operation := .invalid }).Idle :=
  ⟨h.setJob _, by rw [ExternalCrypto.setJob_self]⟩

/-- The first job is the one of a submission, with an operation. -/
structure ExternalJob.Submitted (job : ExternalJob B) (operation : ExternalOperation)
    (request : Request) : Prop where
  /-- What is to be done. -/
  operation : job.operation = operation
  /-- Nothing was done yet. -/
  state : job.state = .submitted
  /-- The request that it is for. -/
  request : job.request = request

namespace CryptoWorld

open CryptoObject

variable {aes : Aes B} {w w' : CryptoWorld B} {item : CryptoItem}

section

variable (hc : w.crypto = ofItem item)

include hc

/-- The loop that adds keys passes by a primitive of another tag. -/
theorem addKeys_stop (h : item.state ≠ .pending ∨ item.prim.tag ≠ .sbCtrlCryptoAddKey) :
    whileLoop addKeyOnce (numCryptoItems + 1) w = some w := by
  refine whileLoop_stop ?_ _
  unfold addKeyOnce
  rw [hc, addKeyRequired_stop h]
  rfl

/-- The loop that removes keys passes by a primitive of another tag. -/
theorem removeKeys_stop (h : item.state ≠ .pending ∨ item.prim.tag ≠ .sbCtrlCryptoRemoveKey) :
    whileLoop removeKeyOnce (numCryptoItems + 1) w = some w := by
  refine whileLoop_stop ?_ _
  unfold removeKeyOnce
  rw [hc, removeKeyRequired_stop h]
  rfl

/-- The loop that submits encryptions passes by a primitive that is no write. -/
theorem encrypt_stop (h : item.state ≠ .pending ∨ item.prim.operation ≠ .write) :
    whileLoop encryptOnce (numCryptoItems + 1) w = some w := by
  refine whileLoop_stop ?_ _
  unfold encryptOnce cipherDataRequired
  rw [hc, dataRequired_stop h]
  rfl

/-- The loop that submits decryptions passes by a primitive that is no read. -/
theorem decrypt_stop (h : item.state ≠ .pending ∨ item.prim.operation ≠ .read) :
    whileLoop decryptOnce (numCryptoItems + 1) w = some w := by
  refine whileLoop_stop ?_ _
  unfold decryptOnce plainDataRequired
  rw [hc, dataRequired_stop h]
  rfl

end

section

variable (hdev : w.device.OnlyFirst)

include hdev

/-- There is no encrypted block to fetch before the device has completed one. -/
theorem fetchCipher_stop
    (h : ¬ ((w.device.jobs 0).operation = .encrypt ∧ (w.device.jobs 0).state = .completed)) :
    whileLoop fetchCipherOnce (numCryptoItems + 1) w = some w := by
  refine whileLoop_stop ?_ _
  unfold fetchCipherOnce ExternalCrypto.peekCompletedEncryptionRequest
  rw [hdev.peekCompletedRequest (by decide), if_neg h]
  rfl

/-- There is no decrypted block to fetch before the device has completed one. -/
theorem fetchPlain_stop
    (h : ¬ ((w.device.jobs 0).operation = .decrypt ∧ (w.device.jobs 0).state = .completed)) :
    whileLoop fetchPlainOnce (numCryptoItems + 1) w = some w := by
  refine whileLoop_stop ?_ _
  unfold fetchPlainOnce ExternalCrypto.peekCompletedDecryptionRequest
  rw [hdev.peekCompletedRequest (by decide), if_neg h]
  rfl

end

/-- An idle device does nothing. -/
theorem executeDevice_idle (h : w.device.Idle) : w.executeDevice aes = some w := by
  unfold executeDevice
  rw [h.only.execute_idle h.first]
  rfl

/-- The loops behind those for the keys. -/
def handleData (w : CryptoWorld B) : Option (CryptoWorld B) :=
  (whileLoop encryptOnce (numCryptoItems + 1) w).bind fun w =>
    (whileLoop fetchCipherOnce (numCryptoItems + 1) w).bind fun w =>
      (whileLoop decryptOnce (numCryptoItems + 1) w).bind
        (whileLoop fetchPlainOnce (numCryptoItems + 1))

/-- The loops behind the one that adds keys. -/
def handleRest (w : CryptoWorld B) : Option (CryptoWorld B) :=
  (whileLoop removeKeyOnce (numCryptoItems + 1) w).bind handleData

/-- One round of the client: the device works, keys are added, then the rest. -/
theorem handleCrypto_eq (aes : Aes B) (w : CryptoWorld B) :
    w.handleCrypto aes = (w.executeDevice aes).bind fun w =>
      (whileLoop addKeyOnce (numCryptoItems + 1) w).bind handleRest := rfl

/-- An idle device has completed nothing. -/
theorem not_completed (hdev : w.device.Idle) {operation : ExternalOperation}
    (hne : operation ≠ .invalid) :
    ¬ ((w.device.jobs 0).operation = operation ∧ (w.device.jobs 0).state = .completed) :=
  fun h => hne (h.1.symm.trans hdev.first)

/-- The loops for the data do nothing where no primitive is pending. -/
theorem handleData_idle (hc : w.crypto = ofItem item) (hst : item.state ≠ .pending)
    (hdev : w.device.Idle) : w.handleData = some w := by
  unfold handleData
  rw [encrypt_stop hc (Or.inl hst), Option.bind_some,
    fetchCipher_stop hdev.only (not_completed hdev (by decide)), Option.bind_some,
    decrypt_stop hc (Or.inl hst), Option.bind_some,
    fetchPlain_stop hdev.only (not_completed hdev (by decide))]

/-- The loops behind the addition of keys do nothing where no primitive is
pending. -/
theorem handleRest_idle (hc : w.crypto = ofItem item) (hst : item.state ≠ .pending)
    (hdev : w.device.Idle) : w.handleRest = some w := by
  unfold handleRest
  rw [removeKeys_stop hc (Or.inl hst), Option.bind_some, handleData_idle hc hst hdev]

/-- **Without a pending primitive and without a job** the client has nothing to do. -/
theorem handleCrypto_idle (hc : w.crypto = ofItem item) (hst : item.state ≠ .pending)
    (hdev : w.device.Idle) : w.handleCrypto aes = some w := by
  rw [handleCrypto_eq, executeDevice_idle hdev, Option.bind_some, addKeys_stop hc (Or.inl hst),
    Option.bind_some, handleRest_idle hc hst hdev]

/-- The state after a job for a key. -/
def keyDone (w : CryptoWorld B) (item : CryptoItem) (keys : ExternalKeys) : CryptoWorld B :=
  { w with crypto := ofItem item.done, device := { w.device with keys := keys } }

/-- One round of the loop that adds keys: it raises where the device has a key
of that id already, otherwise the primitive is done. -/
theorem addKeyOnce_pending (hc : w.crypto = ofItem item) (hst : item.state = .pending)
    (hv : item.prim.valid = true) (ht : item.prim.tag = .sbCtrlCryptoAddKey) :
    addKeyOnce w = (w.device.keys.addKey item.keyId item.keyValue).map fun keys =>
      some (w.keyDone item keys) := by
  unfold addKeyOnce
  rw [hc, addKeyRequired_pending hst hv ht, Option.bind_some]
  show ((ofItem item).keyRequested (keyRequest 0)).bind _ = _
  rw [keyRequested_keyRequest hst, Option.bind_some]
  show ((w.device.keys.addKey item.keyId item.keyValue).map _).bind _ = _
  cases w.device.keys.addKey item.keyId item.keyValue with
  | none => rfl
  | some keys =>
    rw [Option.map_some, Option.bind_some]
    show ((ofItem _).keyCompleted { keyRequest 0 with success := true }).map _ = _
    rw [keyCompleted_keyRequest rfl]
    rfl

/-- **A key is added.** The primitive is done within the round, and the loops
behind it find nothing left to do. -/
theorem handleCrypto_addKey (hc : w.crypto = ofItem item) (hst : item.state = .pending)
    (hv : item.prim.valid = true) (ht : item.prim.tag = .sbCtrlCryptoAddKey)
    (hdev : w.device.Idle) :
    w.handleCrypto aes
      = (w.device.keys.addKey item.keyId item.keyValue).map (w.keyDone item) := by
  have hbody := addKeyOnce_pending hc hst hv ht
  rw [handleCrypto_eq, executeDevice_idle hdev, Option.bind_some]
  cases hk : w.device.keys.addKey item.keyId item.keyValue with
  | none =>
    rw [hk] at hbody
    rw [whileLoop_raise hbody]
    rfl
  | some keys =>
    rw [hk] at hbody
    have hstop : addKeyOnce (w.keyDone item keys) = some none := by
      unfold addKeyOnce keyDone
      rw [addKeyRequired_stop (Or.inl item.done_ne_pending)]
      rfl
    rw [whileLoop_once hbody hstop, Option.bind_some]
    exact handleRest_idle (w := w.keyDone item keys) rfl item.done_ne_pending
      (hdev.withKeys keys)

/-- One round of the loop that removes keys: it raises where the device does not
have the key, otherwise the primitive is done. -/
theorem removeKeyOnce_pending (hc : w.crypto = ofItem item) (hst : item.state = .pending)
    (hv : item.prim.valid = true) (ht : item.prim.tag = .sbCtrlCryptoRemoveKey) :
    removeKeyOnce w = (w.device.keys.removeKey item.keyId).map fun keys =>
      some (w.keyDone item keys) := by
  unfold removeKeyOnce
  rw [hc, removeKeyRequired_pending hst hv ht, Option.bind_some]
  show ((ofItem item).keyRequested (keyRequest 0)).bind _ = _
  rw [keyRequested_keyRequest hst, Option.bind_some]
  show ((w.device.keys.removeKey item.keyId).map _).bind _ = _
  cases w.device.keys.removeKey item.keyId with
  | none => rfl
  | some keys =>
    rw [Option.map_some, Option.bind_some]
    show ((ofItem _).keyCompleted { keyRequest 0 with success := true }).map _ = _
    rw [keyCompleted_keyRequest rfl]
    rfl

/-- **A key is removed**, before the filter for decryptions could take it. -/
theorem handleCrypto_removeKey (hc : w.crypto = ofItem item) (hst : item.state = .pending)
    (hv : item.prim.valid = true) (ht : item.prim.tag = .sbCtrlCryptoRemoveKey)
    (hdev : w.device.Idle) :
    w.handleCrypto aes = (w.device.keys.removeKey item.keyId).map (w.keyDone item) := by
  have hbody := removeKeyOnce_pending hc hst hv ht
  rw [handleCrypto_eq, executeDevice_idle hdev, Option.bind_some,
    addKeys_stop hc (Or.inr (by rw [ht]; decide)), Option.bind_some]
  unfold handleRest
  cases hk : w.device.keys.removeKey item.keyId with
  | none =>
    rw [hk] at hbody
    rw [whileLoop_raise hbody]
    rfl
  | some keys =>
    rw [hk] at hbody
    have hstop : removeKeyOnce (w.keyDone item keys) = some none := by
      unfold removeKeyOnce keyDone
      rw [removeKeyRequired_stop (Or.inl item.done_ne_pending)]
      rfl
    rw [whileLoop_once hbody hstop, Option.bind_some]
    exact handleData_idle (w := w.keyDone item keys) rfl item.done_ne_pending
      (hdev.withKeys keys)

/-- The request for the data of an item. -/
def dataRequest (item : CryptoItem) (operation : RequestOperation) : Request :=
  { valid := true, operation := operation, success := false,
    blockNumber := item.prim.blockNumber, offset := 0, count := 1, keyId := item.keyId, tag := 0 }

/-- The state after a job was handed to the device. -/
def atDevice (w : CryptoWorld B) (item : CryptoItem) (job : ExternalJob B) : CryptoWorld B :=
  { w with
    crypto := ofItem { item with state := .inProgress }
    device := w.device.setJob 0 job }

/-- An idle device accepts an encryption. -/
theorem encryptionRequestAcceptable (h : w.device.Idle) :
    w.device.EncryptionRequestAcceptable := ⟨0, h.first⟩

/-- An idle device accepts a decryption. -/
theorem decryptionRequestAcceptable (h : w.device.Idle) :
    w.device.DecryptionRequestAcceptable := ⟨0, h.first⟩

section

variable (hc : w.crypto = ofItem item) (hst : item.state = .pending)
  (hv : item.prim.valid = true) (ht : item.prim.tag ≠ .sbCtrlCryptoAddKey)

include hc hst hv ht

/-- One round of the loop that submits encryptions puts the block into the first
slot of the device. -/
theorem encryptOnce_pending (hop : item.prim.operation = .write) (hdev : w.device.Idle) :
    encryptOnce w = some (some (w.atDevice item { w.device.jobs 0 with
      operation := .encrypt, state := .submitted, request := dataRequest item .write
      plainData := w.plainBuf 0 })) := by
  unfold encryptOnce cipherDataRequired
  rw [hc, dataRequired_pending hst hv ht hop, Option.bind_some]
  dsimp only
  rw [if_neg (by simp [encryptionRequestAcceptable hdev])]
  unfold ExternalCrypto.submitEncryptionRequest cipherDataRequested
  rw [ExternalCrypto.submitJob_zero hdev.first, Option.bind_some, dropGenerated_ofItem hst]
  rfl

/-- One round of the loop that submits decryptions puts the block into the first
slot of the device. -/
theorem decryptOnce_pending (hop : item.prim.operation = .read) (hdev : w.device.Idle) :
    decryptOnce w = some (some (w.atDevice item { w.device.jobs 0 with
      operation := .decrypt, state := .submitted, request := dataRequest item .read
      cipherData := w.cipherBuf 0 })) := by
  unfold decryptOnce plainDataRequired
  rw [hc, dataRequired_pending hst hv ht hop, Option.bind_some]
  dsimp only
  rw [if_neg (by simp [decryptionRequestAcceptable hdev])]
  unfold ExternalCrypto.submitDecryptionRequest plainDataRequested
  rw [ExternalCrypto.submitJob_zero hdev.first, Option.bind_some, dropGenerated_ofItem hst]
  rfl

end

/-- Nothing more is to be encrypted while the block is at the device. -/
theorem encryptOnce_atDevice (w : CryptoWorld B) (item : CryptoItem) (job : ExternalJob B) :
    encryptOnce (w.atDevice item job) = some none := by
  unfold encryptOnce cipherDataRequired atDevice
  rw [dataRequired_stop (Or.inl (by rintro ⟨⟩))]
  rfl

/-- Nothing more is to be decrypted while the block is at the device. -/
theorem decryptOnce_atDevice (w : CryptoWorld B) (item : CryptoItem) (job : ExternalJob B) :
    decryptOnce (w.atDevice item job) = some none := by
  unfold decryptOnce plainDataRequired atDevice
  rw [dataRequired_stop (Or.inl (by rintro ⟨⟩))]
  rfl

/-- **An encryption is handed to the device.** It is not yet worked on in this
round: the device comes first in the order of the client. -/
theorem handleCrypto_encrypt (hc : w.crypto = ofItem item) (hst : item.state = .pending)
    (hv : item.prim.valid = true) (hop : item.prim.operation = .write)
    (ht : item.prim.tag ≠ .sbCtrlCryptoAddKey) (ht' : item.prim.tag ≠ .sbCtrlCryptoRemoveKey)
    (hdev : w.device.Idle) :
    w.handleCrypto aes = some (w.atDevice item { w.device.jobs 0 with
      operation := .encrypt, state := .submitted, request := dataRequest item .write
      plainData := w.plainBuf 0 }) := by
  have hbody := encryptOnce_pending hc hst hv ht hop hdev
  rw [handleCrypto_eq, executeDevice_idle hdev, Option.bind_some,
    addKeys_stop hc (Or.inr ht), Option.bind_some]
  unfold handleRest handleData
  rw [removeKeys_stop hc (Or.inr ht'), Option.bind_some,
    whileLoop_once hbody (encryptOnce_atDevice _ _ _), Option.bind_some,
    fetchCipher_stop (hdev.only.setJob _) (by simp [atDevice]), Option.bind_some,
    decrypt_stop rfl (Or.inr (by simp [hop])), Option.bind_some,
    fetchPlain_stop (hdev.only.setJob _) (by simp [atDevice])]

/-- **A decryption is handed to the device**, to be worked on in the next round.
-/
theorem handleCrypto_decrypt (hc : w.crypto = ofItem item) (hst : item.state = .pending)
    (hv : item.prim.valid = true) (hop : item.prim.operation = .read)
    (ht : item.prim.tag ≠ .sbCtrlCryptoAddKey) (ht' : item.prim.tag ≠ .sbCtrlCryptoRemoveKey)
    (hdev : w.device.Idle) :
    w.handleCrypto aes = some (w.atDevice item { w.device.jobs 0 with
      operation := .decrypt, state := .submitted, request := dataRequest item .read
      cipherData := w.cipherBuf 0 }) := by
  have hbody := decryptOnce_pending hc hst hv ht hop hdev
  rw [handleCrypto_eq, executeDevice_idle hdev, Option.bind_some,
    addKeys_stop hc (Or.inr ht), Option.bind_some]
  unfold handleRest handleData
  rw [removeKeys_stop hc (Or.inr ht'), Option.bind_some, encrypt_stop hc (Or.inr (by simp [hop])),
    Option.bind_some, fetchCipher_stop hdev.only (not_completed hdev (by decide)),
    Option.bind_some, whileLoop_once hbody (decryptOnce_atDevice _ _ _), Option.bind_some,
    fetchPlain_stop (hdev.only.setJob _) (by simp [atDevice])]

/-- The job of the device, once it is worked on. -/
def workedOn (job : ExternalJob B) : ExternalJob B :=
  { job with state := .completed, request := { job.request with success := true } }

/-- The state with another job at the device. -/
def withJob (w : CryptoWorld B) (job : ExternalJob B) : CryptoWorld B :=
  { w with device := w.device.setJob 0 job }

/-- The device works on the encryption that was submitted to it, with the key of
the item; without that key it raises. -/
theorem executeDevice_encrypt (hdev : w.device.OnlyFirst)
    (hjob : (w.device.jobs 0).Submitted .encrypt (dataRequest item .write)) :
    w.executeDevice aes = (w.device.keys.dataForJob item.keyId).map fun key =>
      w.withJob { workedOn (w.device.jobs 0) with
        cipherData := aes.encrypt key item.prim.blockNumber (w.device.jobs 0).plainData } := by
  unfold executeDevice withJob
  rw [hdev.execute]
  unfold ExternalCrypto.executeJob ExternalCrypto.executeEncrypt
  rw [hjob.operation, hjob.state, hjob.request]
  dsimp only
  rw [Option.map_map, Option.map_map]
  refine congrFun (congrArg Option.map (funext fun key => ?_)) _
  simp [workedOn, hjob.operation, hjob.request, dataRequest]

/-- The device works on the decryption that was submitted to it, with the key of
the item; without that key it raises. -/
theorem executeDevice_decrypt (hdev : w.device.OnlyFirst)
    (hjob : (w.device.jobs 0).Submitted .decrypt (dataRequest item .read)) :
    w.executeDevice aes = (w.device.keys.dataForJob item.keyId).map fun key =>
      w.withJob { workedOn (w.device.jobs 0) with
        plainData := aes.decrypt key item.prim.blockNumber (w.device.jobs 0).cipherData } := by
  unfold executeDevice withJob
  rw [hdev.execute]
  unfold ExternalCrypto.executeJob ExternalCrypto.executeDecrypt
  rw [hjob.operation, hjob.state, hjob.request]
  dsimp only
  rw [Option.map_map, Option.map_map]
  refine congrFun (congrArg Option.map (funext fun key => ?_)) _
  simp [workedOn, hjob.operation, hjob.request, dataRequest]

/-- One round of the loop that fetches encrypted blocks, given what the device
offers and supplies. -/
theorem fetchCipherOnce_eq {request : Request} {r : B × ExternalCrypto B}
    (hpeek : w.device.peekCompletedEncryptionRequest = request) (hv : request.valid = true)
    (htag : request.tag = 0) (hsupply : w.device.supplyCipherData request = some r) :
    fetchCipherOnce w = (w.crypto.supplyCryptoCipherData 0 request.success).map fun crypto =>
      some { w with
        crypto := crypto, cipherBuf := Function.update w.cipherBuf 0 r.1, device := r.2 } := by
  unfold fetchCipherOnce
  dsimp only
  rw [hpeek, hv, if_neg (by decide), htag]
  have hidx : itemIndexOfTag 0 = some 0 := rfl
  rw [hidx, Option.bind_some, hsupply]

/-- One round of the loop that fetches decrypted blocks, given what the device
offers and supplies. -/
theorem fetchPlainOnce_eq {request : Request} {r : B × ExternalCrypto B}
    (hpeek : w.device.peekCompletedDecryptionRequest = request) (hv : request.valid = true)
    (htag : request.tag = 0) (hsupply : w.device.supplyPlainData request = some r) :
    fetchPlainOnce w = (w.crypto.supplyCryptoPlainData 0 request.success).map fun crypto =>
      some { w with
        crypto := crypto, plainBuf := Function.update w.plainBuf 0 r.1, device := r.2 } := by
  unfold fetchPlainOnce
  dsimp only
  rw [hpeek, hv, if_neg (by decide), htag]
  have hidx : itemIndexOfTag 0 = some 0 := rfl
  rw [hidx, Option.bind_some, hsupply]

/-- The first job is done, with an operation. -/
structure Completed (w : CryptoWorld B) (operation : ExternalOperation) (request : Request) :
    Prop where
  /-- No other job is in use. -/
  only : w.device.OnlyFirst
  /-- What was to be done. -/
  operation : (w.device.jobs 0).operation = operation
  /-- It is done. -/
  state : (w.device.jobs 0).state = .completed
  /-- The request has succeeded. -/
  request : (w.device.jobs 0).request = { request with success := true }

/-- The device after the result of its job was fetched. -/
def fetched (c : ExternalCrypto B) : ExternalCrypto B :=
  c.setJob 0 { c.jobs 0 with operation := .invalid }

/-- The state after an encrypted block was fetched. -/
def encrypted (w : CryptoWorld B) (item : CryptoItem) : CryptoWorld B :=
  { w with
    crypto := ofItem item.done
    cipherBuf := Function.update w.cipherBuf 0 (w.device.jobs 0).cipherData
    device := fetched w.device }

/-- The state after a decrypted block was fetched. -/
def decrypted (w : CryptoWorld B) (item : CryptoItem) : CryptoWorld B :=
  { w with
    crypto := ofItem item.done
    plainBuf := Function.update w.plainBuf 0 (w.device.jobs 0).plainData
    device := fetched w.device }

section

variable (hc : w.crypto = ofItem item) (hst : item.state = .inProgress)

include hc hst

/-- **An encrypted block is fetched** into the buffer of the library, and the
primitive is done. -/
theorem fetchCipherOnce_completed (hjob : w.Completed .encrypt (dataRequest item .write)) :
    fetchCipherOnce w = some (some (w.encrypted item)) := by
  have hpeek : w.device.peekCompletedEncryptionRequest = (w.device.jobs 0).request := by
    unfold ExternalCrypto.peekCompletedEncryptionRequest
    rw [hjob.only.peekCompletedRequest (by decide), if_pos ⟨hjob.operation, hjob.state⟩]
  rw [fetchCipherOnce_eq hpeek (by rw [hjob.request]; rfl) (by rw [hjob.request]; rfl)
    (ExternalCrypto.supplyData_zero hjob.state _), hjob.request]
  unfold supplyCryptoCipherData
  rw [hc, markCompleted_ofItem hst]
  rfl

/-- **A decrypted block is fetched.** -/
theorem fetchPlainOnce_completed (hjob : w.Completed .decrypt (dataRequest item .read)) :
    fetchPlainOnce w = some (some (w.decrypted item)) := by
  have hpeek : w.device.peekCompletedDecryptionRequest = (w.device.jobs 0).request := by
    unfold ExternalCrypto.peekCompletedDecryptionRequest
    rw [hjob.only.peekCompletedRequest (by decide), if_pos ⟨hjob.operation, hjob.state⟩]
  rw [fetchPlainOnce_eq hpeek (by rw [hjob.request]; rfl) (by rw [hjob.request]; rfl)
    (ExternalCrypto.supplyData_zero hjob.state _), hjob.request]
  unfold supplyCryptoPlainData
  rw [hc, markCompleted_ofItem hst]
  rfl

omit hc in
theorem ne_pending : item.state ≠ .pending := by
  rw [hst]
  decide

theorem handleRest_encrypted (hjob : w.Completed .encrypt (dataRequest item .write)) :
    w.handleRest = some (w.encrypted item) := by
  have hidle : (w.encrypted item).device.Idle := hjob.only.idle _
  have hstop : fetchCipherOnce (w.encrypted item) = some none := by
    unfold fetchCipherOnce ExternalCrypto.peekCompletedEncryptionRequest
    rw [hidle.only.peekCompletedRequest (by decide),
      if_neg (not_completed hidle (by decide))]
    rfl
  unfold handleRest handleData
  rw [removeKeys_stop hc (Or.inl (ne_pending hst)), Option.bind_some,
    encrypt_stop hc (Or.inl (ne_pending hst)), Option.bind_some,
    whileLoop_once (fetchCipherOnce_completed hc hst hjob) hstop, Option.bind_some,
    decrypt_stop rfl (Or.inl item.done_ne_pending), Option.bind_some,
    fetchPlain_stop hidle.only (not_completed hidle (by decide))]

theorem handleRest_decrypted (hjob : w.Completed .decrypt (dataRequest item .read)) :
    w.handleRest = some (w.decrypted item) := by
  have hidle : (w.decrypted item).device.Idle := hjob.only.idle _
  have hstop : fetchPlainOnce (w.decrypted item) = some none := by
    unfold fetchPlainOnce ExternalCrypto.peekCompletedDecryptionRequest
    rw [hidle.only.peekCompletedRequest (by decide),
      if_neg (not_completed hidle (by decide))]
    rfl
  unfold handleRest handleData
  rw [removeKeys_stop hc (Or.inl (ne_pending hst)), Option.bind_some,
    encrypt_stop hc (Or.inl (ne_pending hst)), Option.bind_some,
    fetchCipher_stop hjob.only (by rw [hjob.operation]; simp), Option.bind_some,
    decrypt_stop hc (Or.inl (ne_pending hst)), Option.bind_some,
    whileLoop_once (fetchPlainOnce_completed hc hst hjob) hstop]

/-- **The device encrypts a block**, if it has the key. -/
theorem handleCrypto_encrypted (hdev : w.device.OnlyFirst)
    (hjob : (w.device.jobs 0).Submitted .encrypt (dataRequest item .write)) :
    w.handleCrypto aes = (w.device.keys.dataForJob item.keyId).map fun key =>
      (w.withJob { workedOn (w.device.jobs 0) with
        cipherData := aes.encrypt key item.prim.blockNumber (w.device.jobs 0).plainData }).encrypted
          item := by
  rw [handleCrypto_eq, executeDevice_encrypt hdev hjob]
  cases w.device.keys.dataForJob item.keyId with
  | none => rfl
  | some key =>
    have hc' : ∀ job, (w.withJob job).crypto = ofItem item := fun _ => hc
    rw [Option.map_some, Option.bind_some, addKeys_stop (hc' _) (Or.inl (ne_pending hst)),
      Option.bind_some]
    exact handleRest_encrypted hc hst ⟨hdev.setJob _, by simp [withJob, workedOn, hjob.operation],
      by simp [withJob, workedOn], by simp [withJob, workedOn, hjob.request]⟩

/-- **The device decrypts a block**, if it has the key. -/
theorem handleCrypto_decrypted (hdev : w.device.OnlyFirst)
    (hjob : (w.device.jobs 0).Submitted .decrypt (dataRequest item .read)) :
    w.handleCrypto aes = (w.device.keys.dataForJob item.keyId).map fun key =>
      (w.withJob { workedOn (w.device.jobs 0) with
        plainData := aes.decrypt key item.prim.blockNumber (w.device.jobs 0).cipherData }).decrypted
          item := by
  rw [handleCrypto_eq, executeDevice_decrypt hdev hjob]
  cases w.device.keys.dataForJob item.keyId with
  | none => rfl
  | some key =>
    have hc' : ∀ job, (w.withJob job).crypto = ofItem item := fun _ => hc
    rw [Option.map_some, Option.bind_some, addKeys_stop (hc' _) (Or.inl (ne_pending hst)),
      Option.bind_some]
    exact handleRest_decrypted hc hst ⟨hdev.setJob _, by simp [withJob, workedOn, hjob.operation],
      by simp [withJob, workedOn], by simp [withJob, workedOn, hjob.request]⟩

end

end CryptoWorld

end Cbe
