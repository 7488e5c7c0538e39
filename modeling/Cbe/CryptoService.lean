import Cbe.CryptoHandling
import Cbe.Support.Service
import Cbe.Support.Runs

/-!
# The crypto modules as a service

Seen from the modules that hand jobs over, the crypto module, the client and the
device together are a service that answers one job at a time: every primitive
that was accepted comes back once, in the order of acceptance, to the module it
came from, with the data that the device makes of it under the keys at hand
(`CryptoWorld.served_of_rounds`). A job is at one of three places on its way: it
waits in the crypto module, it is at the device, or it is complete
(`CryptoWorld.Carries`).

The calls of the library and of the client never raise; only the device does,
exactly when its keys do not fit what it is asked for
(`CryptoWorld.round_eq_none_iff`). And no job stays long: three rounds bring it
back (`CryptoWorld.delivered_of_rounds`).

The service is stated in general terms elsewhere: a state, here the keys of the
device, and a function that answers a submission and may change the state. What
is shown here is that a round of the three parties refines it. The invariant
ties the place of the job to the history of the service: as long as the job
waits, the service has it as waiting, under the keys of the device; once it is
complete, the service has answered it, and the answer is in the buffer. A round
is a call of the library and one of the client.
-/

namespace Cbe

variable {B : Type}

/-! ## The service

A submission carries everything that the answer depends on: the kind of the job,
the id or the value of a key, and the data. The item that the crypto module
makes of it has less, as the data goes to a buffer beside it. -/

/-- What is to be done for a submission. -/
inductive CryptoJob (B : Type) where
  | addKey (key : Key)
  | removeKey (keyId : ℕ)
  | encrypt (keyId : ℕ) (data : B)
  | decrypt (keyId : ℕ) (data : B)
  | initial

namespace Submission

/-- The job of a submission. -/
def job : Submission B → CryptoJob B
  | .addKey _ key => .addKey key
  | .removeKey _ keyId => .removeKey keyId
  | .rekeyDecrypt _ _ keyId data => .decrypt keyId data
  | .rekeyEncrypt _ _ keyId data => .encrypt keyId data
  | .readInitial _ _ _ _ => .initial
  | .read _ _ _ keyId data => .decrypt keyId data
  | .writeBack _ _ keyId data => .encrypt keyId data

/-- The module that a submission comes from. -/
def client : Submission B → CryptoClient
  | .addKey _ _ | .removeKey _ _ => .superblockControl
  | .rekeyDecrypt _ _ _ _ | .rekeyEncrypt _ _ _ _ => .vbdRekeying
  | .readInitial _ _ _ _ | .read _ _ _ _ _ => .frontEnd
  | .writeBack _ _ _ _ => .writeBack

/-- The item of a submission, when it is taken. -/
def item (s : Submission B) : CryptoItem :=
  match s with
  | .addKey _ key => CryptoItem.pendingObjectKey s.prim key
  | .removeKey _ keyId | .rekeyDecrypt _ _ keyId _ | .rekeyEncrypt _ _ keyId _
  | .readInitial _ _ _ keyId | .read _ _ _ keyId _ | .writeBack _ _ keyId _ =>
    CryptoItem.pendingObject s.prim keyId

/-- The delivery, with the data of the result. -/
def delivery (s : Submission B) (data : Option B) : Delivery B :=
  { client := s.client, prim := { s.prim with success := true }, data := data }

/-- The item has the primitive of the submission. -/
@[simp] theorem item_prim (s : Submission B) : s.item.prim = s.prim := by cases s <;> rfl

/-- It is pending. -/
@[simp] theorem item_state (s : Submission B) : s.item.state = .pending := by cases s <;> rfl

/-- Its primitive is valid. -/
theorem item_valid (s : Submission B) : s.item.prim.valid = true := by cases s <;> rfl

variable {s : Submission B} {key : Key} {keyId : ℕ} {data : B}

/-- What the client tells the addition of a key by. -/
theorem of_addKey (h : s.job = .addKey key) :
    s.prim.tag = .sbCtrlCryptoAddKey ∧ s.item.key = key := by
  cases s <;> cases h
  exact ⟨rfl, rfl⟩

/-- What the client tells the removal of a key by. -/
theorem of_removeKey (h : s.job = .removeKey keyId) :
    s.prim.tag = .sbCtrlCryptoRemoveKey ∧ s.item.keyId = keyId := by
  cases s <;> cases h
  exact ⟨rfl, rfl⟩

/-- What the client tells an encryption by. -/
theorem of_encrypt (h : s.job = .encrypt keyId data) :
    s.prim.operation = .write ∧ s.prim.tag ≠ .sbCtrlCryptoAddKey
      ∧ s.prim.tag ≠ .sbCtrlCryptoRemoveKey ∧ s.item.keyId = keyId := by
  cases s <;> cases h
  all_goals exact ⟨rfl, by rintro ⟨⟩, by rintro ⟨⟩, rfl⟩

/-- What the client tells a decryption by. -/
theorem of_decrypt (h : s.job = .decrypt keyId data) :
    s.prim.operation = .read ∧ s.prim.tag ≠ .sbCtrlCryptoAddKey
      ∧ s.prim.tag ≠ .sbCtrlCryptoRemoveKey ∧ s.item.keyId = keyId := by
  cases s <;> cases h
  all_goals exact ⟨rfl, by rintro ⟨⟩, by rintro ⟨⟩, rfl⟩

end Submission

/-- **The service** that the crypto device offers: it works on a job under the keys it has. -/
def cryptoService (aes : Aes B) : Service ExternalKeys (Submission B) (Delivery B) where
  answer keys s :=
    match s.job with
    | .addKey key => (keys.addKey key.id key.value).map fun keys => (s.delivery none, keys)
    | .removeKey keyId => (keys.removeKey keyId).map fun keys => (s.delivery none, keys)
    | .encrypt keyId data =>
      (keys.dataForJob keyId).map fun key =>
        (s.delivery (some (aes.encrypt key s.prim.blockNumber data)), keys)
    | .decrypt keyId data =>
      (keys.dataForJob keyId).map fun key =>
        (s.delivery (some (aes.decrypt key s.prim.blockNumber data)), keys)
    | .initial => some (s.delivery (some aes.zero), keys)

section

variable {aes : Aes B} {keys : ExternalKeys} {s : Submission B} {key : Key} {keyId : ℕ} {data : B}

/-- A key is added, if its id is not there. -/
theorem answer_addKey (h : s.job = .addKey key) :
    (cryptoService aes).answer keys s
      = (keys.addKey key.id key.value).map fun keys => (s.delivery none, keys) := by
  unfold cryptoService
  dsimp only
  rw [h]

/-- A key is removed, if it is there. -/
theorem answer_removeKey (h : s.job = .removeKey keyId) :
    (cryptoService aes).answer keys s
      = (keys.removeKey keyId).map fun keys => (s.delivery none, keys) := by
  unfold cryptoService
  dsimp only
  rw [h]

/-- A block is encrypted under the key of the id. -/
theorem answer_encrypt (h : s.job = .encrypt keyId data) :
    (cryptoService aes).answer keys s = (keys.dataForJob keyId).map fun key =>
      (s.delivery (some (aes.encrypt key s.prim.blockNumber data)), keys) := by
  unfold cryptoService
  dsimp only
  rw [h]

/-- A block is decrypted under the key of the id. -/
theorem answer_decrypt (h : s.job = .decrypt keyId data) :
    (cryptoService aes).answer keys s = (keys.dataForJob keyId).map fun key =>
      (s.delivery (some (aes.decrypt key s.prim.blockNumber data)), keys) := by
  unfold cryptoService
  dsimp only
  rw [h]

/-- A block that was never written is answered with zeros. -/
theorem answer_initial (h : s.job = .initial) :
    (cryptoService aes).answer keys s = some (s.delivery (some aes.zero), keys) := by
  unfold cryptoService
  dsimp only
  rw [h]

end

/-- The keys that the device begins with. -/
def noKeys : ExternalKeys := fun _ => ExternalKey.invalid

namespace CryptoWorld

open CryptoObject Service

variable {aes : Aes B} {w w' : CryptoWorld B} {s : Submission B}

/-! ## Where a job is

The buffers of the crypto module and the job of the device hold the data on its
way. Which of them is meant depends on the kind of the job, so these are
definitions by cases, each with a lemma for the case. -/

/-- The buffer of a submission has its data. -/
def Holds (w : CryptoWorld B) (s : Submission B) : Prop :=
  match s.job with
  | .encrypt _ data => w.plainBuf 0 = data
  | .decrypt _ data => w.cipherBuf 0 = data
  | .initial => False
  | .addKey _ | .removeKey _ => True

/-- The device has the job of a submission. -/
def Has (w : CryptoWorld B) (s : Submission B) : Prop :=
  match s.job with
  | .encrypt _ data =>
    (w.device.jobs 0).Submitted .encrypt (dataRequest s.item .write)
      ∧ (w.device.jobs 0).plainData = data
  | .decrypt _ data =>
    (w.device.jobs 0).Submitted .decrypt (dataRequest s.item .read)
      ∧ (w.device.jobs 0).cipherData = data
  | .addKey _ | .removeKey _ | .initial => False

/-- The data of a submission that is done, in its buffer. -/
def result (w : CryptoWorld B) (s : Submission B) : Option B :=
  match s.job with
  | .encrypt _ _ => some (w.cipherBuf 0)
  | .decrypt _ _ | .initial => some (w.plainBuf 0)
  | .addKey _ | .removeKey _ => none

section

variable {keyId : ℕ} {data : B}

/-- A job for a key has no data. -/
theorem result_none (h : (∃ key, s.job = .addKey key) ∨ ∃ keyId, s.job = .removeKey keyId) :
    w.result s = none := by
  unfold result
  rcases h with ⟨key, h⟩ | ⟨keyId, h⟩ <;> rw [h]

/-- The zeros of a block that was never written. -/
theorem result_initial (h : s.job = .initial) : w.result s = some (w.plainBuf 0) := by
  unfold result
  rw [h]

/-- An encrypted block is in the buffer for these. -/
theorem result_encrypt (h : s.job = .encrypt keyId data) :
    w.result s = some (w.cipherBuf 0) := by
  unfold result
  rw [h]

/-- A decrypted block is in the buffer for these. -/
theorem result_decrypt (h : s.job = .decrypt keyId data) :
    w.result s = some (w.plainBuf 0) := by
  unfold result
  rw [h]

/-- A block to encrypt waits in its buffer. -/
theorem holds_encrypt (h : s.job = .encrypt keyId data) :
    w.Holds s ↔ w.plainBuf 0 = data := by
  unfold Holds
  rw [h]

/-- A block to decrypt waits in its buffer. -/
theorem holds_decrypt (h : s.job = .decrypt keyId data) :
    w.Holds s ↔ w.cipherBuf 0 = data := by
  unfold Holds
  rw [h]

/-- A block to encrypt is at the device. -/
theorem has_encrypt (h : s.job = .encrypt keyId data) :
    w.Has s ↔ (w.device.jobs 0).Submitted .encrypt (dataRequest s.item .write)
      ∧ (w.device.jobs 0).plainData = data := by
  unfold Has
  rw [h]

/-- A block to decrypt is at the device. -/
theorem has_decrypt (h : s.job = .decrypt keyId data) :
    w.Has s ↔ (w.device.jobs 0).Submitted .decrypt (dataRequest s.item .read)
      ∧ (w.device.jobs 0).cipherData = data := by
  unfold Has
  rw [h]

end

/-- The history of the service, from the keys of a device without any. -/
abbrev History (aes : Aes B) (w : CryptoWorld B) (keys : ExternalKeys)
    (waiting : Option (Submission B)) : Prop :=
  (cryptoService aes).Served noKeys w.accepted w.delivered keys waiting

/-- **The places of a job** on its way, with the history up to there. -/
inductive Carries (aes : Aes B) (w : CryptoWorld B) : Prop
  /-- There is no job. -/
  | idle (crypto : w.crypto = ofItem CryptoItem.invalidObject) (device : w.device.Idle)
      (history : w.History aes w.device.keys none)
  /-- It waits in the crypto module. -/
  | waits (s : Submission B) (crypto : w.crypto = ofItem s.item) (buffer : w.Holds s)
      (device : w.device.Idle) (history : w.History aes w.device.keys (some s))
  /-- It is at the device. -/
  | isAtDevice (s : Submission B)
      (crypto : w.crypto = ofItem { s.item with state := .inProgress }) (job : w.Has s)
      (device : w.device.OnlyFirst) (history : w.History aes w.device.keys (some s))
  /-- It is complete. -/
  | complete (s : Submission B) (keys : ExternalKeys)
      (crypto : w.crypto = ofItem s.item.done) (device : w.device.Idle)
      (history : w.History aes keys (some s))
      (answer : (cryptoService aes).answer keys s
        = some (s.delivery (w.result s), w.device.keys))

/-- At the start there is no job. -/
theorem initial_carries (aes : Aes B) : (initial aes).Carries aes :=
  .idle (eq_ofItem _) ⟨fun _ _ => rfl, rfl⟩ (Served.nil _)

/-- **The device refuses** what it is asked for: the client is about to add a key under an id
that is there or to remove one that is not, or the device has a job under a key that it does not
have. -/
def Refused (w : CryptoWorld B) : Prop :=
  (∃ i, (w.crypto.items i).state = .pending
      ∧ (w.crypto.items i).prim.tag = .sbCtrlCryptoAddKey
      ∧ ∃ k, (w.device.keys k).id = (w.crypto.items i).keyId)
    ∨ (∃ i, (w.crypto.items i).state = .pending
      ∧ (w.crypto.items i).prim.tag = .sbCtrlCryptoRemoveKey
      ∧ ∀ k, (w.device.keys k).id ≠ (w.crypto.items i).keyId)
    ∨ ∃ j, (w.device.jobs j).operation ≠ .invalid ∧ (w.device.jobs j).state = .submitted
      ∧ ∀ k, ¬ ((w.device.keys k).valid = true
        ∧ (w.device.keys k).id = (w.device.jobs j).request.keyId)

/-- How far the job has to go. -/
def left (w : CryptoWorld B) : ℕ :=
  match (w.crypto.items 0).state with
  | .invalid => 0
  | .complete => 1
  | .inProgress => 2
  | .pending => 3

/-- The library waits for what it waited for before. -/
def SameWait (w w' : CryptoWorld B) : Prop := w'.wait = w.wait ∧ w'.scdActive = w.scdActive

/-- The library waits for what it waits for. -/
theorem SameWait.refl (w : CryptoWorld B) : SameWait w w := ⟨rfl, rfl⟩

/-- Waiting goes on. -/
theorem SameWait.trans {w'' : CryptoWorld B} (h : SameWait w w') (h' : SameWait w' w'') :
    SameWait w w'' := ⟨h'.1.trans h.1, h'.2.trans h.2⟩

/-- **What the client does with a job**: it takes it further, and leaves everything else. -/
structure Handles (aes : Aes B) (w w' : CryptoWorld B) : Prop where
  /-- The invariant is kept. -/
  carries : w'.Carries aes
  /-- The library waits for what it waited for. -/
  wait : SameWait w w'
  /-- Nothing was accepted. -/
  accepted : w'.accepted = w.accepted
  /-- Nothing was delivered. -/
  delivered : w'.delivered = w.delivered
  /-- A job that is under way is taken further. -/
  left : 1 < w.left → 0 < w'.left ∧ w'.left < w.left

/-- A job that waits has three rounds to go. -/
theorem left_pending (hc : w.crypto = ofItem s.item) : w.left = 3 := by
  unfold left
  rw [hc, ofItem_items, s.item_state]

/-- A job at the device has two. -/
theorem left_inProgress (hc : w.crypto = ofItem { s.item with state := .inProgress }) :
    w.left = 2 := by
  unfold left
  rw [hc, ofItem_items]

/-- A job that is done has one. -/
theorem left_done (hc : w.crypto = ofItem s.item.done) : w.left = 1 := by
  unfold left
  rw [hc, ofItem_items]
  rfl

/-- Without a job there is none. -/
theorem left_invalid (hc : w.crypto = ofItem CryptoItem.invalidObject) : w.left = 0 := by
  unfold left
  rw [hc, ofItem_items]
  rfl

/-- A job that is completed is handled. -/
theorem Handles.of_complete (hleft : 1 < w.left) (hwait : SameWait w w')
    (haccepted : w'.accepted = w.accepted) (hdelivered : w'.delivered = w.delivered)
    (hc : w'.crypto = ofItem s.item.done) (hdev : w'.device.Idle)
    (hist : w.History aes w.device.keys (some s))
    (ha : (cryptoService aes).answer w.device.keys s
      = some (s.delivery (w'.result s), w'.device.keys)) : Handles aes w w' where
  carries := .complete s w.device.keys hc hdev (by
    unfold History
    rw [haccepted, hdelivered]
    exact hist) ha
  wait := hwait
  accepted := haccepted
  delivered := hdelivered
  left _ := by
    rw [left_done hc]
    exact ⟨Nat.one_pos, hleft⟩

/-- A job that was handed to the device is handled. -/
theorem Handles.of_atDevice (hleft : w.left = 3) (hwait : SameWait w w')
    (haccepted : w'.accepted = w.accepted) (hdelivered : w'.delivered = w.delivered)
    (hc : w'.crypto = ofItem { s.item with state := .inProgress }) (hhas : w'.Has s)
    (hdev : w'.device.OnlyFirst) (hist : w.History aes w'.device.keys (some s)) :
    Handles aes w w' where
  carries := .isAtDevice s hc hhas hdev (by
    unfold History
    rw [haccepted, hdelivered]
    exact hist)
  wait := hwait
  accepted := haccepted
  delivered := hdelivered
  left _ := by
    rw [left_inProgress hc, hleft]
    decide

/-- Without a job at the device, only a pending key can be refused. -/
theorem refused_iff_of_idle {item : CryptoItem} (hc : w.crypto = ofItem item)
    (hdev : w.device.Idle) :
    w.Refused ↔ item.state = .pending
      ∧ ((item.prim.tag = .sbCtrlCryptoAddKey
          ∧ w.device.keys.addKey item.keyId item.keyValue = none)
        ∨ (item.prim.tag = .sbCtrlCryptoRemoveKey
          ∧ w.device.keys.removeKey item.keyId = none)) := by
  have hops : ∀ j, (w.device.jobs j).operation = .invalid := fun j => by
    by_cases hj : j = 0
    · rw [hj]
      exact hdev.first
    · exact hdev.only j hj
  rw [ExternalKeys.addKey_eq_none_iff, ExternalKeys.removeKey_eq_none_iff]
  unfold Refused
  rw [hc]
  constructor
  · rintro (⟨i, hst, ht, hk⟩ | ⟨i, hst, ht, hk⟩ | ⟨j, hop, -⟩)
    · exact ⟨hst, Or.inl ⟨ht, hk⟩⟩
    · exact ⟨hst, Or.inr ⟨ht, hk⟩⟩
    · exact absurd (hops j) hop
  · rintro ⟨hst, ⟨ht, hk⟩ | ⟨ht, hk⟩⟩
    · exact Or.inl ⟨0, hst, ht, hk⟩
    · exact Or.inr (Or.inl ⟨0, hst, ht, hk⟩)

/-- A job at the device is refused without its key. -/
theorem refused_iff_of_job {item : CryptoItem} {operation : ExternalOperation}
    {reqOp : RequestOperation} (hc : w.crypto = ofItem item) (hst : item.state = .inProgress)
    (hdev : w.device.OnlyFirst) (hop : operation ≠ .invalid)
    (hjob : (w.device.jobs 0).Submitted operation (dataRequest item reqOp)) :
    w.Refused ↔ w.device.keys.dataForJob item.keyId = none := by
  rw [ExternalKeys.dataForJob_eq_none_iff]
  unfold Refused
  rw [hc]
  constructor
  · rintro (⟨i, hp, -⟩ | ⟨i, hp, -⟩ | ⟨j, hj, -, hk⟩)
    · exact absurd hp (ne_pending hst)
    · exact absurd hp (ne_pending hst)
    · obtain rfl : j = 0 := by
        by_contra hne
        exact hj (hdev j hne)
      rw [hjob.request] at hk
      exact hk
  · intro hk
    refine Or.inr (Or.inr ⟨0, by rw [hjob.operation]; exact hop, hjob.state, ?_⟩)
    rw [hjob.request]
    exact hk

/-- **The outcome of `_handle_crypto`**: it raises because the device refuses, or it takes the
job further. -/
def Outcome (aes : Aes B) (w : CryptoWorld B) : Prop :=
  (w.handleCrypto aes = none ∧ w.Refused)
    ∨ ∃ w', w.handleCrypto aes = some w' ∧ ¬ w.Refused ∧ Handles aes w w'

/-- An outcome that may be missing. -/
theorem Outcome.of_map {α : Type} {o : Option α} {f : α → CryptoWorld B}
    (hw : w.handleCrypto aes = o.map f) (hr : w.Refused ↔ o = none)
    (hf : ∀ a, o = some a → Handles aes w (f a)) : Outcome aes w := by
  cases o with
  | none => exact Or.inl ⟨hw, hr.mpr rfl⟩
  | some a => exact Or.inr ⟨f a, hw, fun h => absurd (hr.mp h) (by simp), hf a rfl⟩

/-- Where there is nothing to do. -/
theorem Outcome.of_quiet (h : w.Carries aes) {item : CryptoItem} (hc : w.crypto = ofItem item)
    (hst : item.state ≠ .pending) (hdev : w.device.Idle) (hleft : w.left ≤ 1) :
    Outcome aes w := by
  refine Or.inr ⟨w, handleCrypto_idle hc hst hdev, fun hr => ?_,
    ⟨h, .refl w, rfl, rfl, fun hlt => absurd hleft (not_le.mpr hlt)⟩⟩
  exact hst ((refused_iff_of_idle hc hdev).mp hr).1

section

variable (hc : w.crypto = ofItem s.item) (hdev : w.device.Idle)
  (hist : w.History aes w.device.keys (some s))

include hc hdev

/-- A job that is not one for a key is not refused while it waits. -/
theorem not_refused_of_waits (ht : s.prim.tag ≠ .sbCtrlCryptoAddKey)
    (ht' : s.prim.tag ≠ .sbCtrlCryptoRemoveKey) : ¬ w.Refused := by
  intro hr
  rw [refused_iff_of_idle hc hdev, s.item_prim] at hr
  obtain ⟨h, -⟩ | ⟨h, -⟩ := hr.2
  · exact ht h
  · exact ht' h

include hist

/-- **A key is added**, if its id is not there. -/
theorem outcome_addKey {key : Key} (hj : s.job = .addKey key) : Outcome aes w := by
  obtain ⟨ht, rfl⟩ := Submission.of_addKey hj
  rw [← s.item_prim] at ht
  refine Outcome.of_map (handleCrypto_addKey hc s.item_state s.item_valid ht hdev) ?_
    fun keys hk => ?_
  · rw [refused_iff_of_idle hc hdev]
    exact ⟨fun h => h.2.elim And.right fun h' => absurd (ht.symm.trans h'.1) (by decide),
      fun h => ⟨s.item_state, Or.inl ⟨ht, h⟩⟩⟩
  · refine Handles.of_complete (by rw [left_pending hc]; decide) (.refl w) rfl rfl rfl
      (hdev.withKeys keys) hist ?_
    have hk' : w.device.keys.addKey s.item.key.id s.item.key.value = some keys := hk
    rw [answer_addKey hj, hk', result_none (Or.inl ⟨_, hj⟩)]
    rfl

/-- **A key is removed**, if it is there. -/
theorem outcome_removeKey {keyId : ℕ} (hj : s.job = .removeKey keyId) : Outcome aes w := by
  obtain ⟨ht, rfl⟩ := Submission.of_removeKey hj
  rw [← s.item_prim] at ht
  refine Outcome.of_map (handleCrypto_removeKey hc s.item_state s.item_valid ht hdev) ?_
    fun keys hk => ?_
  · rw [refused_iff_of_idle hc hdev]
    exact ⟨fun h => h.2.elim (fun h' => absurd (ht.symm.trans h'.1) (by decide)) And.right,
      fun h => ⟨s.item_state, Or.inr ⟨ht, h⟩⟩⟩
  · refine Handles.of_complete (by rw [left_pending hc]; decide) (.refl w) rfl rfl rfl
      (hdev.withKeys keys) hist ?_
    rw [answer_removeKey hj, hk, result_none (Or.inr ⟨_, hj⟩)]
    rfl

variable {keyId : ℕ} {data : B} (hbuf : w.Holds s)

include hbuf

/-- **A block to encrypt** is handed to the device. -/
theorem outcome_encrypt (hj : s.job = .encrypt keyId data) : Outcome aes w := by
  obtain ⟨hop, ht, ht', -⟩ := Submission.of_encrypt hj
  have hnot := not_refused_of_waits hc hdev ht ht'
  rw [← s.item_prim] at hop ht ht'
  refine Or.inr ⟨_, handleCrypto_encrypt hc s.item_state s.item_valid hop ht ht' hdev, hnot, ?_⟩
  refine Handles.of_atDevice (left_pending hc) (.refl w) rfl rfl rfl ((has_encrypt hj).mpr ⟨?_, ?_⟩)
    (hdev.only.setJob _) hist
  · exact ⟨by simp [atDevice], by simp [atDevice], by simp [atDevice]⟩
  · rw [← (holds_encrypt hj).mp hbuf]
    simp [atDevice]

/-- **A block to decrypt** is handed to the device. -/
theorem outcome_decrypt (hj : s.job = .decrypt keyId data) : Outcome aes w := by
  obtain ⟨hop, ht, ht', -⟩ := Submission.of_decrypt hj
  have hnot := not_refused_of_waits hc hdev ht ht'
  rw [← s.item_prim] at hop ht ht'
  refine Or.inr ⟨_, handleCrypto_decrypt hc s.item_state s.item_valid hop ht ht' hdev, hnot, ?_⟩
  refine Handles.of_atDevice (left_pending hc) (.refl w) rfl rfl rfl ((has_decrypt hj).mpr ⟨?_, ?_⟩)
    (hdev.only.setJob _) hist
  · exact ⟨by simp [atDevice], by simp [atDevice], by simp [atDevice]⟩
  · rw [← (holds_decrypt hj).mp hbuf]
    simp [atDevice]

/-- **A job that waits** goes to the device, or is done at once. -/
theorem outcome_waits : Outcome aes w := by
  cases hj : s.job with
  | addKey key => exact outcome_addKey hc hdev hist hj
  | removeKey keyId => exact outcome_removeKey hc hdev hist hj
  | encrypt keyId data => exact outcome_encrypt hc hdev hist hbuf hj
  | decrypt keyId data => exact outcome_decrypt hc hdev hist hbuf hj
  | initial =>
    unfold Holds at hbuf
    rw [hj] at hbuf
    exact hbuf.elim

end

/-- **A job at the device** is done, if the device has its key. -/
theorem outcome_atDevice (hc : w.crypto = ofItem { s.item with state := .inProgress })
    (hhas : w.Has s) (hdev : w.device.OnlyFirst)
    (hist : w.History aes w.device.keys (some s)) : Outcome aes w := by
  have hleft : w.left = 2 := left_inProgress hc
  cases hj : s.job with
  | encrypt keyId data =>
    obtain ⟨hjob, rfl⟩ := (has_encrypt hj).mp hhas
    obtain ⟨-, -, -, rfl⟩ := Submission.of_encrypt hj
    refine Outcome.of_map (handleCrypto_encrypted hc rfl hdev hjob)
      (refused_iff_of_job hc rfl hdev (by decide) hjob) fun key hk => ?_
    refine Handles.of_complete (by omega) (.refl w) rfl rfl rfl ((hdev.setJob _).idle _) hist ?_
    have hk' : w.device.keys.dataForJob s.item.keyId = some key := hk
    rw [answer_encrypt hj, hk', result_encrypt hj, ← s.item_prim]
    simp [encrypted, withJob, fetched]
  | decrypt keyId data =>
    obtain ⟨hjob, rfl⟩ := (has_decrypt hj).mp hhas
    obtain ⟨-, -, -, rfl⟩ := Submission.of_decrypt hj
    refine Outcome.of_map (handleCrypto_decrypted hc rfl hdev hjob)
      (refused_iff_of_job hc rfl hdev (by decide) hjob) fun key hk => ?_
    refine Handles.of_complete (by omega) (.refl w) rfl rfl rfl ((hdev.setJob _).idle _) hist ?_
    have hk' : w.device.keys.dataForJob s.item.keyId = some key := hk
    rw [answer_decrypt hj, hk', result_decrypt hj, ← s.item_prim]
    simp [decrypted, withJob, fetched]
  | addKey _ =>
    unfold Has at hhas
    rw [hj] at hhas
    exact hhas.elim
  | removeKey _ =>
    unfold Has at hhas
    rw [hj] at hhas
    exact hhas.elim
  | initial =>
    unfold Has at hhas
    rw [hj] at hhas
    exact hhas.elim

/-- **`_handle_crypto`** takes a job further, or raises because the device refuses. -/
theorem Carries.outcome (h : w.Carries aes) : Outcome aes w := by
  have h' := h
  cases h with
  | idle hc hdev _ =>
    exact Outcome.of_quiet h' hc (by decide) hdev (by rw [left_invalid hc]; decide)
  | waits s hc hbuf hdev hist => exact outcome_waits hc hdev hist hbuf
  | isAtDevice s hc hhas hdev hist => exact outcome_atDevice hc hhas hdev hist
  | complete s keys hc hdev _ _ =>
    exact Outcome.of_quiet h' hc s.item.done_ne_pending hdev (by rw [left_done hc])

end CryptoWorld

end Cbe
