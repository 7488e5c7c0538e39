import Cbe.RequestPool
import Cbe.SuperblockControl

/-!
# The external crypto device

The device at the other side of the crypto module. It has a small table of keys and a small
table of jobs; a key is added and removed at once, a block is submitted as a job, worked on
when the device is executed, and fetched afterwards. An added key takes the place of the one
with the lowest id when the table is full. The device raises when it is to add a key under an
id that is there, to remove one that is not, or to work on a job whose key it does not have.
-/

namespace Cbe

/-- The block cipher, of `Aes_Cbc_4k`: the key, the number of the block and its content. -/
structure Aes (B : Type) where
  /-- A block of zeros. -/
  zero : B
  /-- A block under a key, at its block number. -/
  encrypt : KeyValue → ℕ → B → B
  /-- The inverse, under the same key and at the same number. -/
  decrypt : KeyValue → ℕ → B → B

/-- `Nr_Of_Keys`. -/
def externalNrOfKeys : ℕ := 2

/-- `Keys_Index_Type`. -/
abbrev KeysIndex := Fin externalNrOfKeys

/-- `Nr_Of_Jobs`. -/
def externalNrOfJobs : ℕ := 2

/-- `Jobs_Index_Type`. -/
abbrev ExternalJobsIndex := Fin externalNrOfJobs

instance : NeZero externalNrOfKeys := ⟨by decide⟩

instance : NeZero externalNrOfJobs := ⟨by decide⟩

/-- `Key_Type`. -/
structure ExternalKey where
  /-- The value. -/
  data : KeyValue
  /-- The id. -/
  id : ℕ
  /-- Whether the place in the table is in use. -/
  valid : Bool
  deriving DecidableEq

/-- `Invalid_Key`, and what `Key_Invalidate` leaves. -/
def ExternalKey.invalid : ExternalKey := { data := 0, id := 0, valid := false }

/-- `Job_Operation_Type`. -/
inductive ExternalOperation where
  | invalid
  | decrypt
  | encrypt
  deriving DecidableEq

/-- `Job_State_Type`. -/
inductive ExternalJobState where
  | submitted
  | completed
  deriving DecidableEq

/-- `Job_Type`. -/
structure ExternalJob (B : Type) where
  /-- What is to be done, if anything. -/
  operation : ExternalOperation
  /-- How far the job has come. -/
  state : ExternalJobState
  /-- The request that it is for. -/
  request : Request
  /-- The encrypted data. -/
  cipherData : B
  /-- The plain data. -/
  plainData : B

/-- `Keys_Type`. -/
abbrev ExternalKeys := KeysIndex → ExternalKey

variable {B : Type}

/-- `Invalid_Job`. -/
def ExternalJob.invalid (aes : Aes B) : ExternalJob B :=
  { operation := .invalid, state := .submitted, request := Request.invalidObject,
    cipherData := aes.zero, plainData := aes.zero }

/-! ## The keys

Added and removed at once. -/

namespace ExternalKeys

/-- The loop that selects the key to evict: the first one that is not valid, or else the one
with the lowest id. The arguments are the index and the id selected so far. -/
def selectKeyToEvict (keys : ExternalKeys) : List KeysIndex → KeysIndex → ℕ → KeysIndex
  | [], evict, _ => evict
  | idx :: rest, evict, evictId =>
    if (keys idx).valid = true then
      if (keys idx).id < evictId then keys.selectKeyToEvict rest idx (keys idx).id
      else keys.selectKeyToEvict rest evict evictId
    else idx

/-- `Add_Key`. -/
def addKey (keys : ExternalKeys) (keyId : ℕ) (data : KeyValue) : Option ExternalKeys :=
  if ∃ idx, (keys idx).id = keyId then none
  else
    some (Function.update keys
      (keys.selectKeyToEvict (List.finRange externalNrOfKeys) 0 keyIdLast)
      { data := data, id := keyId, valid := true })

/-- `Remove_Key`. -/
def removeKey (keys : ExternalKeys) (keyId : ℕ) : Option ExternalKeys :=
  ((List.finRange externalNrOfKeys).find? fun idx => (keys idx).id = keyId).map fun idx =>
    Function.update keys idx ExternalKey.invalid

/-- `Key_Idx_For_Job`, of a job with this key id: the last valid key with the id. -/
def keyIdxForJob (keys : ExternalKeys) (keyId : ℕ) : Option KeysIndex :=
  ((List.finRange externalNrOfKeys).filter fun idx =>
    (keys idx).valid = true ∧ (keys idx).id = keyId).getLast?

/-- The value of the key that a job with this key id is worked on with. -/
def dataForJob (keys : ExternalKeys) (keyId : ℕ) : Option KeyValue :=
  (keys.keyIdxForJob keyId).map fun idx => (keys idx).data

variable {keys : ExternalKeys} {keyId : ℕ} {data : KeyValue}

/-- A key is not added under an id that is there. -/
theorem addKey_eq_none_iff :
    keys.addKey keyId data = none ↔ ∃ idx, (keys idx).id = keyId := by
  unfold addKey
  by_cases h : ∃ idx, (keys idx).id = keyId
  · rw [if_pos h]
    exact ⟨fun _ => h, fun _ => rfl⟩
  · rw [if_neg h]
    exact ⟨fun h' => absurd h' (by simp), fun h' => absurd h' h⟩

/-- A key is not removed under an id that is not there. -/
theorem removeKey_eq_none_iff :
    keys.removeKey keyId = none ↔ ∀ idx, (keys idx).id ≠ keyId := by
  unfold removeKey
  rw [Option.map_eq_none_iff, List.find?_eq_none]
  exact ⟨fun h idx he => h idx (List.mem_finRange idx) (decide_eq_true he),
    fun h idx _ hd => h idx (of_decide_eq_true hd)⟩

/-- There is no key for a job whose id no valid key has. -/
theorem dataForJob_eq_none_iff :
    keys.dataForJob keyId = none
      ↔ ∀ idx, ¬ ((keys idx).valid = true ∧ (keys idx).id = keyId) := by
  unfold dataForJob keyIdxForJob
  rw [Option.map_eq_none_iff, List.getLast?_eq_none_iff, List.filter_eq_nil_iff]
  exact ⟨fun h idx he => h idx (List.mem_finRange idx) (decide_eq_true he),
    fun h idx _ hd => h idx (of_decide_eq_true hd)⟩

end ExternalKeys

/-! ## The jobs

A job is submitted, worked on, and fetched with its result. -/

/-- `Object_Type`. -/
structure ExternalCrypto (B : Type) where
  /-- The table of the jobs. -/
  jobs : ExternalJobsIndex → ExternalJob B
  /-- The table of the keys. -/
  keys : ExternalKeys

namespace ExternalCrypto

/-- `Initialized_Object`. -/
def initializedObject (aes : Aes B) : ExternalCrypto B :=
  { jobs := fun _ => ExternalJob.invalid aes, keys := fun _ => ExternalKey.invalid }

/-- `Add_Key`. -/
def addKey (c : ExternalCrypto B) (keyId : ℕ) (data : KeyValue) : Option (ExternalCrypto B) :=
  (c.keys.addKey keyId data).map fun keys => { c with keys := keys }

/-- `Remove_Key`. -/
def removeKey (c : ExternalCrypto B) (keyId : ℕ) : Option (ExternalCrypto B) :=
  (c.keys.removeKey keyId).map fun keys => { c with keys := keys }

/-- The job of an index is another one. -/
def setJob (c : ExternalCrypto B) (idx : ExternalJobsIndex) (job : ExternalJob B) :
    ExternalCrypto B :=
  { c with jobs := Function.update c.jobs idx job }

/-- The first job of a kind, as the loops over the jobs find it. -/
def firstIdx (c : ExternalCrypto B) (p : ExternalJob B → Bool) : Option ExternalJobsIndex :=
  (List.finRange externalNrOfJobs).find? fun idx => p (c.jobs idx)

/-- `Execute_Encrypt`. -/
def executeEncrypt (aes : Aes B) (keys : ExternalKeys) (job : ExternalJob B) :
    Option (ExternalJob B) :=
  match job.state with
  | .submitted =>
    (keys.dataForJob job.request.keyId).map fun data =>
      { job with
        cipherData := aes.encrypt data job.request.blockNumber job.plainData
        state := .completed
        request := { job.request with success := true } }
  | .completed => some job

/-- `Execute_Decrypt`. -/
def executeDecrypt (aes : Aes B) (keys : ExternalKeys) (job : ExternalJob B) :
    Option (ExternalJob B) :=
  match job.state with
  | .submitted =>
    (keys.dataForJob job.request.keyId).map fun data =>
      { job with
        plainData := aes.decrypt data job.request.blockNumber job.cipherData
        request := { job.request with success := true }
        state := .completed }
  | .completed => some job

/-- The work on a job in `Execute`. -/
def executeJob (aes : Aes B) (keys : ExternalKeys) (job : ExternalJob B) :
    Option (ExternalJob B) :=
  match job.operation with
  | .encrypt => executeEncrypt aes keys job
  | .decrypt => executeDecrypt aes keys job
  | .invalid => some job

/-- `Execute`. -/
def execute (aes : Aes B) (c : ExternalCrypto B) : Option (ExternalCrypto B) :=
  (List.finRange externalNrOfJobs).foldlM
    (fun c idx => (executeJob aes c.keys (c.jobs idx)).map (c.setJob idx)) c

/-- What `Encryption_Request_Acceptable` and `Decryption_Request_Acceptable` share: there is a
job left. -/
def RequestAcceptable (c : ExternalCrypto B) : Prop :=
  ∃ idx, (c.jobs idx).operation = .invalid

instance (c : ExternalCrypto B) : Decidable c.RequestAcceptable :=
  inferInstanceAs (Decidable (∃ idx, (c.jobs idx).operation = .invalid))

/-- `Encryption_Request_Acceptable`. -/
def EncryptionRequestAcceptable (c : ExternalCrypto B) : Prop := c.RequestAcceptable

instance (c : ExternalCrypto B) : Decidable c.EncryptionRequestAcceptable :=
  inferInstanceAs (Decidable c.RequestAcceptable)

/-- `Decryption_Request_Acceptable`. -/
def DecryptionRequestAcceptable (c : ExternalCrypto B) : Prop := c.RequestAcceptable

instance (c : ExternalCrypto B) : Decidable c.DecryptionRequestAcceptable :=
  inferInstanceAs (Decidable c.RequestAcceptable)

/-- The loop of the two procedures to submit a request: the first invalid job takes it. -/
def submitJob (c : ExternalCrypto B) (change : ExternalJob B → ExternalJob B) :
    Option (ExternalCrypto B) :=
  (c.firstIdx fun job => job.operation = .invalid).map fun idx =>
    c.setJob idx (change (c.jobs idx))

/-- `Submit_Encryption_Request`. -/
def submitEncryptionRequest (c : ExternalCrypto B) (request : Request) (plainData : B) :
    Option (ExternalCrypto B) :=
  c.submitJob fun job =>
    { job with
      operation := .encrypt, state := .submitted, request := request, plainData := plainData }

/-- `Submit_Decryption_Request`. -/
def submitDecryptionRequest (c : ExternalCrypto B) (request : Request) (cipherData : B) :
    Option (ExternalCrypto B) :=
  c.submitJob fun job =>
    { job with
      operation := .decrypt, state := .submitted, request := request, cipherData := cipherData }

/-- The request of the first completed job of an operation. -/
def peekCompletedRequest (c : ExternalCrypto B) (operation : ExternalOperation) : Request :=
  match c.firstIdx fun job => job.operation = operation ∧ job.state = .completed with
  | none => Request.invalidObject
  | some idx => (c.jobs idx).request

/-- `Peek_Completed_Encryption_Request`. -/
def peekCompletedEncryptionRequest (c : ExternalCrypto B) : Request :=
  c.peekCompletedRequest .encrypt

/-- `Peek_Completed_Decryption_Request`. -/
def peekCompletedDecryptionRequest (c : ExternalCrypto B) : Request :=
  c.peekCompletedRequest .decrypt

/-- The loop of the two procedures that fetch the result of a job. It stops at the first job
with an equal request, whatever its operation is; without a completed one it has no success. -/
def supplyData (c : ExternalCrypto B) (request : Request) (data : ExternalJob B → B) :
    Option (B × ExternalCrypto B) :=
  (c.firstIdx fun job => request.Equal job.request).bind fun idx =>
    if (c.jobs idx).state ≠ .completed then none
    else some (data (c.jobs idx), c.setJob idx { c.jobs idx with operation := .invalid })

/-- `Supply_Cipher_Data`. -/
def supplyCipherData (c : ExternalCrypto B) (request : Request) : Option (B × ExternalCrypto B) :=
  c.supplyData request ExternalJob.cipherData

/-- `Supply_Plain_Data`. -/
def supplyPlainData (c : ExternalCrypto B) (request : Request) : Option (B × ExternalCrypto B) :=
  c.supplyData request ExternalJob.plainData

/-! ## One job at a time

The library has one job on the device at most, the one in the first place of the
table. -/

/-- No job but the first one is in use. -/
def OnlyFirst (c : ExternalCrypto B) : Prop := ∀ idx, idx ≠ 0 → (c.jobs idx).operation = .invalid

variable {c : ExternalCrypto B} {job : ExternalJob B} {idx : ExternalJobsIndex}

@[simp] theorem setJob_self (c : ExternalCrypto B) (idx : ExternalJobsIndex)
    (job : ExternalJob B) : (c.setJob idx job).jobs idx = job := Function.update_self _ _ _

theorem setJob_of_ne {idx' : ExternalJobsIndex} (h : idx' ≠ idx) (c : ExternalCrypto B)
    (job : ExternalJob B) : (c.setJob idx job).jobs idx' = c.jobs idx' :=
  Function.update_of_ne h _ _

@[simp] theorem setJob_keys (c : ExternalCrypto B) (idx : ExternalJobsIndex)
    (job : ExternalJob B) : (c.setJob idx job).keys = c.keys := rfl

@[simp] theorem setJob_jobs (c : ExternalCrypto B) (idx : ExternalJobsIndex) :
    c.setJob idx (c.jobs idx) = c := by
  unfold setJob
  rw [Function.update_eq_self]

@[simp] theorem setJob_setJob (c : ExternalCrypto B) (idx : ExternalJobsIndex)
    (job job' : ExternalJob B) : (c.setJob idx job).setJob idx job' = c.setJob idx job' := by
  unfold setJob
  rw [Function.update_idem]

/-- The first job may be any. -/
theorem OnlyFirst.setJob (h : c.OnlyFirst) (job : ExternalJob B) : (c.setJob 0 job).OnlyFirst :=
  fun idx hne => by
    rw [setJob_of_ne hne]
    exact h idx hne

/-- The first job is found first. -/
theorem firstIdx_zero {p : ExternalJob B → Bool} (h : p (c.jobs 0) = true) :
    c.firstIdx p = some 0 := by
  show [(0 : ExternalJobsIndex), 1].find? (fun idx => p (c.jobs idx)) = _
  exact List.find?_cons_of_pos h

/-- What a job without an operation does not meet, only the first job can meet. -/
theorem OnlyFirst.firstIdx (h : c.OnlyFirst) {p : ExternalJob B → Bool}
    (hp : ∀ job, job.operation = .invalid → p job = false) :
    c.firstIdx p = if p (c.jobs 0) = true then some 0 else none := by
  by_cases h0 : p (c.jobs 0) = true
  · rw [firstIdx_zero h0, if_pos h0]
  · rw [if_neg h0]
    refine List.find?_eq_none.mpr fun idx _ => ?_
    by_cases hidx : idx = 0
    · rw [hidx]
      exact h0
    · rw [hp _ (h idx hidx)]
      exact Bool.false_ne_true

/-- **The device works** on the first job. -/
theorem OnlyFirst.execute (h : c.OnlyFirst) (aes : Aes B) :
    execute aes c = (executeJob aes c.keys (c.jobs 0)).map (c.setJob 0) := by
  have hone : ∀ c' : ExternalCrypto B, c'.OnlyFirst →
      (executeJob aes c'.keys (c'.jobs 1)).map (c'.setJob 1) = some c' := by
    intro c' h'
    unfold executeJob
    rw [h' 1 (by decide)]
    exact congrArg some (setJob_jobs c' 1)
  show (((executeJob aes c.keys (c.jobs 0)).map (c.setJob 0)).bind fun c' =>
    ((executeJob aes c'.keys (c'.jobs 1)).map (c'.setJob 1)).bind some) = _
  cases executeJob aes c.keys (c.jobs 0) with
  | none => rfl
  | some job =>
    rw [Option.map_some, Option.bind_some, hone _ (h.setJob job)]
    rfl

/-- A device without a job does nothing. -/
theorem OnlyFirst.execute_idle (h : c.OnlyFirst) (h0 : (c.jobs 0).operation = .invalid)
    (aes : Aes B) : ExternalCrypto.execute aes c = some c := by
  rw [h.execute]
  unfold executeJob
  rw [h0]
  exact congrArg some (setJob_jobs c 0)

/-- The first job takes a request. -/
theorem submitJob_zero (h0 : (c.jobs 0).operation = .invalid)
    (change : ExternalJob B → ExternalJob B) :
    c.submitJob change = some (c.setJob 0 (change (c.jobs 0))) := by
  unfold submitJob
  rw [firstIdx_zero (decide_eq_true h0)]
  rfl

/-- **What has been completed**, of an operation. -/
theorem OnlyFirst.peekCompletedRequest (h : c.OnlyFirst) {operation : ExternalOperation}
    (hop : operation ≠ .invalid) :
    c.peekCompletedRequest operation
      = if (c.jobs 0).operation = operation ∧ (c.jobs 0).state = .completed then
          (c.jobs 0).request else Request.invalidObject := by
  unfold ExternalCrypto.peekCompletedRequest
  rw [h.firstIdx fun job hjob => decide_eq_false fun hd => hop (hd.1.symm.trans hjob)]
  by_cases h0 : (c.jobs 0).operation = operation ∧ (c.jobs 0).state = .completed
  · rw [if_pos (decide_eq_true h0), if_pos h0]
  · rw [if_neg fun hd => h0 (of_decide_eq_true hd), if_neg h0]

/-- **The result of the first job is fetched.** -/
theorem supplyData_zero (h0 : (c.jobs 0).state = .completed) (data : ExternalJob B → B) :
    c.supplyData (c.jobs 0).request data
      = some (data (c.jobs 0), c.setJob 0 { c.jobs 0 with operation := .invalid }) := by
  unfold supplyData
  rw [firstIdx_zero (decide_eq_true ⟨rfl, rfl, rfl⟩), Option.bind_some, if_neg (not_not.mpr h0)]

end ExternalCrypto

end Cbe
