import Cbe.Startup
import Cbe.Securing
import Cbe.Support.Runs
import Mathlib.Data.Finset.Insert

/-!
# The life of a key at the crypto module

A key is registered at the crypto module by the initialization of the library –
one key, or two when the superblock says that a rekeying is going on – and by
the first job of a rekeying, and removed by the last step of a rekeying and by
the deinitialization. `KeyWorld` puts the jobs of superblock control beside the
keys registered and the key values that came from the trust anchor. The request
pool runs one request at a time, so there is at most one job.

`KeyWorld.Kept` annotates each state of each job with what is registered there,
and every step keeps the annotation (`KeyWorld.Kept.step`). Two places spoil it.
The initialization never sets the id under which it registers the previous key:
the id is the one a job has from the start. And the deinitialization sets the
superblock invalid only when it had to remove the key of a rekeying.

There are nine jobs. Seven of them secure a superblock, and most of their states
have nothing to do with keys; for these `KeyStep` lists what a call can do to
the keys, and each of the seven procedures is shown to do one of these. The
other two are the initialization and the deinitialization, which are about keys
throughout; their states are gone through one by one. An assertion about a state
is a statement about the keys alone (`KeyView`), so that the many fields of a
job and of a superblock do not get into it.
-/

namespace Cbe

/-! ## Initialization and deinitialization as jobs

Both jobs are state machines of the same kind as the securing jobs: a call
generates a primitive, another module does it, and the next call goes on from
its result. The initialization reads the eight slots, then the chosen one once
more, has the keys decrypted, and adds them at the crypto module. -/

/-- The primitives that initialization and deinitialization generate. -/
inductive KeyPrim where
  | readSb
  | readCurrentSb
  | decryptCurrentKey
  | addCurrentKeyAtCryptoModule
  | decryptPreviousKey
  | addPreviousKeyAtCryptoModule
  | removeCurrentKeyAtCryptoModule
  | removePreviousKeyAtCryptoModule
  deriving DecidableEq

/-- The states of the two jobs, as in `JobState`. -/
inductive KeyJobState where
  | submitted
  | pending (prim : KeyPrim)
  | inProgress (prim : KeyPrim)
  | primCompleted (prim : KeyPrim) (success : Bool)
  | completed
  deriving DecidableEq

/-- `Initialize` and `Deinitialize` of `Job_Operation_Type`. -/
inductive KeyOperation where
  | initialization
  | deinitialization
  deriving DecidableEq

/-- `Job_Type`, with the fields the two jobs use. `scan` has the result of the
scan of the superblock slots. -/
structure KeyJob where
  /-- An initialization or a deinitialization. -/
  operation : KeyOperation
  /-- How far the job has come. -/
  state : KeyJobState
  /-- Whether it has succeeded. -/
  success : Bool
  /-- What the scan of the slots has found. -/
  scan : InitializeJob
  /-- The slot that is read. -/
  readSbIdx : SuperblocksIndex
  /-- The superblock with its keys encrypted. -/
  sbCiphertext : SuperblockCiphertext
  /-- The current key, once it was decrypted. -/
  currKeyPlaintext : Key
  /-- The previous key, once it was decrypted. -/
  prevKeyPlaintext : Key

/-- A job as `Initialize_Control` leaves it, submitted for an operation. A
deinitialization reads none of the other fields before it has set it. -/
def KeyJob.fresh (operation : KeyOperation) : KeyJob where
  operation := operation
  state := .submitted
  success := false
  scan := { sbFound := false, generation := 0, sbIdx := 0 }
  readSbIdx := 0
  sbCiphertext := superblockInvalid
  currKeyPlaintext := keyInvalid
  prevKeyPlaintext := keyInvalid

/-- The end of the initialization: the superblock is taken over. -/
def takeOver (job : KeyJob) (sb : Superblock) : Option (Control × KeyJob) :=
  if sb.freeMaxLevel < freeTreeMinMaxLevel then none
  else
    some ({ sb := sb, sbIdx := job.scan.sbIdx, currGen := nextGeneration job.scan.generation },
      { job with success := true, state := .completed })

/-- The superblock in memory with the decrypted current key. -/
def KeyJob.plainSuperblock (job : KeyJob) : Superblock :=
  { initSbWithoutKeyValues job.sbCiphertext with
    currentKey := { job.sbCiphertext.currentKey with value := job.currKeyPlaintext.value } }

/-- `Execute_Initialize`, one call. The id of the previous key is not set in
any of its states. -/
def jobExecuteInitialize (c : Control) (job : KeyJob) : Option (Control × KeyJob) :=
  match job.state with
  | .submitted =>
    some (c, { job with
      scan := { job.scan with sbFound := false }
      readSbIdx := 0
      state := .pending .readSb })
  | .primCompleted .readSb ok =>
    if ok = false then none
    else
      (readSbCompleted (fun _ => job.sbCiphertext) job.scan job.readSbIdx).bind fun scan =>
        if job.readSbIdx < Fin.last (nrOfSuperblockSlots - 1) then
          some (c, { job with
            scan := scan
            readSbIdx := job.readSbIdx + 1
            state := .pending .readSb })
        else if scan.sbFound = false then none
        else some (c, { job with scan := scan, state := .pending .readCurrentSb })
  | .primCompleted .readCurrentSb ok =>
    if ok = false then none else some (c, { job with state := .pending .decryptCurrentKey })
  | .primCompleted .decryptCurrentKey ok =>
    if ok = false then none
    else
      some (c, { job with
        currKeyPlaintext := { job.currKeyPlaintext with id := job.sbCiphertext.currentKey.id }
        state := .pending .addCurrentKeyAtCryptoModule })
  | .primCompleted .addCurrentKeyAtCryptoModule ok =>
    if ok = false then none
    else
      match job.sbCiphertext.state with
      | .invalid => none
      | .rekeying => some (c, { job with state := .pending .decryptPreviousKey })
      | _ => takeOver job job.plainSuperblock
  | .primCompleted .decryptPreviousKey ok =>
    if ok = false then none
    else some (c, { job with state := .pending .addPreviousKeyAtCryptoModule })
  | .primCompleted .addPreviousKeyAtCryptoModule ok =>
    if ok = false then none
    else
      takeOver job { job.plainSuperblock with
        previousKey :=
          { job.sbCiphertext.previousKey with value := job.prevKeyPlaintext.value } }
  | _ => some (c, job)

/-- `Execute_Deinitialize`, one call. -/
def jobExecuteDeinitialize (c : Control) (job : KeyJob) : Option (Control × KeyJob) :=
  match job.state with
  | .submitted =>
    some (c, { job with
      currKeyPlaintext := { job.currKeyPlaintext with id := c.sb.currentKey.id }
      state := .pending .removeCurrentKeyAtCryptoModule })
  | .primCompleted .removeCurrentKeyAtCryptoModule ok =>
    if ok = false then none
    else
      match c.sb.state with
      | .invalid => none
      | .rekeying =>
        some (c, { job with
          prevKeyPlaintext := { job.prevKeyPlaintext with id := c.sb.previousKey.id }
          state := .pending .removePreviousKeyAtCryptoModule })
      | _ => some (c, { job with success := true, state := .completed })
  | .primCompleted .removePreviousKeyAtCryptoModule ok =>
    if ok = false then none
    else
      some ({ c with sb := { c.sb with state := .invalid } },
        { job with success := true, state := .completed })
  | _ => some (c, job)

/-- One call of the procedure of a job. -/
def KeyJob.execute (c : Control) (job : KeyJob) : Option (Control × KeyJob) :=
  match job.operation with
  | .initialization => jobExecuteInitialize c job
  | .deinitialization => jobExecuteDeinitialize c job

/-- `Mark_Generated_Prim_Complete` and its variants for the two other jobs: a
read block is decoded, and the trust anchor hands back the decrypted value of
the key that it was given. -/
def KeyJob.complete (P : Platform) (prim : KeyPrim) (ok : Bool) (ct : SuperblockCiphertext)
    (job : KeyJob) : KeyJob :=
  let job := { job with state := .primCompleted prim ok }
  match prim with
  | .readSb | .readCurrentSb => { job with sbCiphertext := ct }
  | .decryptCurrentKey =>
    { job with currKeyPlaintext :=
        { job.currKeyPlaintext with value := P.decryptKey job.sbCiphertext.currentKey.value } }
  | .decryptPreviousKey =>
    { job with prevKeyPlaintext :=
        { job.prevKeyPlaintext with value := P.decryptKey job.sbCiphertext.previousKey.value } }
  | _ => job

/-! ## The world of the keys

A step is one call or one answer. Answers are arbitrary: any primitive may fail,
and a read may deliver any superblock. Starting anew forgets everything. -/

/-- The job of superblock control. -/
inductive ControlJob where
  | securing (job : Job)
  | key (job : KeyJob)

/-- How far the library is: before the end of its initialization, at work, or
after a deinitialization. -/
inductive Stage where
  | starting
  | running
  | ended
  deriving DecidableEq

/-- **Superblock control, the crypto module and the trust anchor.** `registered`
has the ids of the keys at the crypto module and `anchored` the key values that
the trust anchor has created or decrypted since the library started. -/
structure KeyWorld where
  /-- What the control has in memory. -/
  ctl : Control
  /-- The job that is in progress. -/
  job : Option ControlJob
  /-- The ids of the keys that the crypto module has. -/
  registered : Finset ℕ
  /-- The key values that came from the trust anchor. -/
  anchored : List KeyValue
  /-- How far the library is. -/
  stage : Stage

/-- `Initialize_Object`: a library that has just been started. -/
def KeyWorld.initial : KeyWorld where
  ctl := { sb := superblockInvalid, sbIdx := 0, currGen := 0 }
  job := none
  registered := ∅
  anchored := []
  stage := .starting

/-- What happens: the library is started anew; a primitive of the request pool
is submitted, with whatever earlier jobs have left in the fields of its job;
the job executes; its pending primitive is handed over; the primitive in
progress is marked complete, with what the other module hands back; the
completed job is dropped; the write path and the tree modules change snapshots
and roots. -/
inductive KeyAction where
  | start
  | submitKeyJob (operation : KeyOperation)
  | submit (job : Job)
  | execute
  | dropGenerated
  | complete (ok : Bool) (r : PrimResult) (ct : SuperblockCiphertext)
  | dropCompleted
  | modulesWork (snaps : Snapshots) (currSnap : SnapshotsIndex) (r : TreeRoots)

namespace KeyWorld

/-- A primitive of a securing job is marked complete. The crypto module has
added or removed the key that it was handed. -/
def completeSecuring (P : Platform) (w : KeyWorld) (job : Job) (prim : GeneratedPrim) (ok : Bool)
    (r : PrimResult) : KeyWorld :=
  { w with
    job := some (.securing (markGeneratedPrimComplete P prim ok r job))
    anchored := if prim = .createKey then r.keyValue :: w.anchored else w.anchored
    registered :=
      if ok = false then w.registered
      else
        match prim with
        | .addKeyAtCryptoModule => insert job.keyPlaintext.id w.registered
        | .removePreviousKeyAtCryptoModule => w.registered.erase job.prevKeyPlaintext.id
        | _ => w.registered }

/-- A primitive of an initialization or a deinitialization is marked
complete. -/
def completeKey (P : Platform) (w : KeyWorld) (job : KeyJob) (prim : KeyPrim) (ok : Bool)
    (ct : SuperblockCiphertext) : KeyWorld :=
  { w with
    job := some (.key (job.complete P prim ok ct))
    anchored :=
      match prim with
      | .decryptCurrentKey => P.decryptKey job.sbCiphertext.currentKey.value :: w.anchored
      | .decryptPreviousKey => P.decryptKey job.sbCiphertext.previousKey.value :: w.anchored
      | _ => w.anchored
    registered :=
      if ok = false then w.registered
      else
        match prim with
        | .addCurrentKeyAtCryptoModule => insert job.currKeyPlaintext.id w.registered
        | .addPreviousKeyAtCryptoModule => insert job.prevKeyPlaintext.id w.registered
        | .removeCurrentKeyAtCryptoModule => w.registered.erase job.currKeyPlaintext.id
        | .removePreviousKeyAtCryptoModule => w.registered.erase job.prevKeyPlaintext.id
        | _ => w.registered }

/-- How far the library is after the job of an operation has been dropped. -/
def stageAfter : KeyOperation → Stage
  | .initialization => .running
  | .deinitialization => .ended

/-- `Execute`. -/
def executeJob (P : Platform) (w : KeyWorld) : ControlJob → Option KeyWorld
  | .securing job =>
    (execute P w.ctl job).map fun (c, job) => { w with ctl := c, job := some (.securing job) }
  | .key job => (job.execute w.ctl).map fun (c, job) => { w with ctl := c, job := some (.key job) }

/-- `Drop_Generated_Primitive`. -/
def dropGenerated (w : KeyWorld) : ControlJob → Option KeyWorld
  | .securing job =>
    match job.state with
    | .pending prim =>
      some { w with job := some (.securing { job with state := .inProgress prim }) }
    | _ => none
  | .key job =>
    match job.state with
    | .pending prim => some { w with job := some (.key { job with state := .inProgress prim }) }
    | _ => none

/-- The primitive in progress is marked complete. -/
def complete (P : Platform) (w : KeyWorld) (ok : Bool) (r : PrimResult)
    (ct : SuperblockCiphertext) : ControlJob → Option KeyWorld
  | .securing job =>
    match job.state with
    | .inProgress prim => some (w.completeSecuring P job prim ok r)
    | _ => none
  | .key job =>
    match job.state with
    | .inProgress prim => some (w.completeKey P job prim ok ct)
    | _ => none

/-- `Drop_Completed_Primitive`. -/
def dropCompleted (w : KeyWorld) : ControlJob → Option KeyWorld
  | .securing job => if job.state = .completed then some { w with job := none } else none
  | .key job =>
    if job.state = .completed then
      some { w with job := none, stage := stageAfter job.operation }
    else none

/-- **One action.** It is `none` where the library raises, and where the action
is not possible. The first request is the initialization, and no later one
is. -/
def step (P : Platform) (w : KeyWorld) : KeyAction → Option KeyWorld
  | .start => some initial
  | .submitKeyJob operation =>
    if w.job = none ∧ (operation = .initialization ↔ w.stage = .starting) then
      some { w with job := some (.key (KeyJob.fresh operation)) }
    else none
  | .submit job =>
    if w.job = none ∧ w.stage ≠ .starting ∧ job.state = .submitted then
      some { w with job := some (.securing job) }
    else none
  | .execute => w.job.bind (w.executeJob P)
  | .dropGenerated => w.job.bind w.dropGenerated
  | .complete ok r ct => w.job.bind (w.complete P ok r ct)
  | .dropCompleted => w.job.bind w.dropCompleted
  | .modulesWork snaps currSnap r =>
    some { w with ctl := { w.ctl with
      sb := { r.apply w.ctl.sb with snapshots := snaps, currSnap := currSnap } } }

/-! ## What the crypto module should have

The property, and the condition under which it holds: the two slips of the
source are named in the condition, and nothing else is asked of a run. -/

/-- **The registered keys are the right ones** when no job is in progress: none
before the initialization has completed, the keys that the superblock stores
while the library is at work, and none after a deinitialization, which leaves
the superblock invalid. -/
structure Registered (w : KeyWorld) : Prop where
  /-- No key is registered before the initialization. -/
  starting : w.stage = .starting → w.registered = ∅
  /-- The current key is registered while no rekeying is under way. -/
  current : w.stage = .running → w.ctl.sb.state ∈ [.normal, .extendingVbd, .extendingFt] →
    w.registered = {w.ctl.sb.currentKey.id}
  /-- Both keys are registered during a rekeying. -/
  rekeying : w.stage = .running → w.ctl.sb.state = .rekeying →
    w.registered = {w.ctl.sb.currentKey.id, w.ctl.sb.previousKey.id}
  /-- No key stays behind, and the superblock is invalid. -/
  ended : w.stage = .ended → w.registered = ∅ ∧ w.ctl.sb.state = .invalid

/-- The key that is about to be handed to the crypto module, and the key that
the superblock stores there: the encrypted one of the superblock read, or the
new current one of the superblock in memory. -/
def handsOver (P : Platform) (w : KeyWorld) : Option (Key × Key) :=
  match w.job with
  | some (.securing job) =>
    if job.state = .pending .addKeyAtCryptoModule then
      some (job.keyPlaintext, w.ctl.sb.currentKey)
    else none
  | some (.key job) =>
    if job.state = .pending .addCurrentKeyAtCryptoModule then
      some (job.currKeyPlaintext,
        { job.sbCiphertext.currentKey with
          value := P.decryptKey job.sbCiphertext.currentKey.value })
    else if job.state = .pending .addPreviousKeyAtCryptoModule then
      some (job.prevKeyPlaintext, { job.sbCiphertext.previousKey with
        value := P.decryptKey job.sbCiphertext.previousKey.value })
    else none
  | none => none

/-- **The life of the keys is in order**: the registered keys are the right
ones whenever no job is in progress, and a key that is handed to the crypto
module came from the trust anchor and has the id that the superblock stores
with it. -/
structure KeysInOrder (P : Platform) (w : KeyWorld) : Prop where
  /-- Between two jobs the registered keys are the right ones. -/
  registered : w.job = none → w.Registered
  /-- A key that is handed over came from the trust anchor and is the one that is
  stored. -/
  handsOver : ∀ key stored, w.handsOver P = some (key, stored) →
    key.value ∈ w.anchored ∧ key = stored

/-- **The condition**: no deinitialization is submitted unless the superblock
says that a rekeying is going on (or is invalid already), and the superblock
that an initialization adopts says so only with the id 0 of a fresh job as that
of its previous key, and another one for its current key. -/
def Careful (w : KeyWorld) : KeyAction → Prop
  | .submitKeyJob operation =>
    operation = .deinitialization → w.ctl.sb.state ∈ [.rekeying, .invalid]
  | .complete _ _ ct =>
    match w.job with
    | some (.key job) =>
      job.state = .inProgress .readCurrentSb → ct.state = .rekeying →
        ct.previousKey.id = keyInvalid.id ∧ ct.currentKey.id ≠ keyInvalid.id
    | _ => True
  | _ => True

instance (w : KeyWorld) (a : KeyAction) : Decidable (w.Careful a) :=
  match a with
  | .submitKeyJob operation =>
    inferInstanceAs (Decidable (operation = .deinitialization → w.ctl.sb.state ∈ _))
  | .complete _ _ ct =>
    match w with
    | { job := some (.key job), .. } =>
      inferInstanceAs (Decidable (job.state = .inProgress .readCurrentSb →
        ct.state = .rekeying → _ ∧ ct.currentKey.id ≠ keyInvalid.id))
    | { job := some (.securing _), .. } => isTrue trivial
    | { job := none, .. } => isTrue trivial
  | .start | .submit _ | .execute | .dropGenerated | .dropCompleted | .modulesWork _ _ _ =>
    isTrue trivial

end KeyWorld

/-! ## What a call of a securing job does to the keys

Of the states of a securing job only those around the key primitives matter, and
of its calls only those that enter or leave a rekeying or touch a key. -/

/-- The two superblocks use the same keys. -/
structure SameKeys (sb sb' : Superblock) : Prop where
  /-- The current key is the same. -/
  current : sb'.currentKey = sb.currentKey
  /-- The previous key is the same. -/
  previous : sb'.previousKey = sb.previousKey
  /-- A rekeying is under way in both or in none. -/
  rekeying : sb'.state = .rekeying ↔ sb.state = .rekeying
  /-- Both are invalid or none is. -/
  invalid : sb'.state = .invalid ↔ sb.state = .invalid

/-- A superblock whose state and keys are kept. -/
theorem SameKeys.of_eq {sb sb' : Superblock} (hstate : sb'.state = sb.state)
    (hcurrent : sb'.currentKey = sb.currentKey) (hprevious : sb'.previousKey = sb.previousKey) :
    SameKeys sb sb' :=
  ⟨hcurrent, hprevious, by rw [hstate], by rw [hstate]⟩

/-- A state that is neither of the two others matters only for being neither. -/
theorem SameKeys.of_ne {sb sb' : Superblock} (hcurrent : sb'.currentKey = sb.currentKey)
    (hprevious : sb'.previousKey = sb.previousKey)
    (hsb : sb.state ≠ .rekeying ∧ sb.state ≠ .invalid)
    (hsb' : sb'.state ≠ .rekeying ∧ sb'.state ≠ .invalid) : SameKeys sb sb' :=
  ⟨hcurrent, hprevious, iff_of_false hsb'.1 hsb.1, iff_of_false hsb'.2 hsb.2⟩

/-- The states of a job in which its next call, or the other module, neither
registers nor removes a key and does not depend on the state of the
superblock. -/
def JobState.Plain : JobState → Prop
  | .primCompleted .createKey _ => False
  | .pending prim | .inProgress prim | .primCompleted prim _ =>
    prim ∉ [.addKeyAtCryptoModule, .removePreviousKeyAtCryptoModule, .rekeyVbaInVbd,
      .vbdExtStepInVbd, .ftExtStepInFt]
  | .submitted | .completed => True

/-- The tree step that a superblock in its state asks for. -/
def StepFor (state : SuperblockState) : GeneratedPrim → Prop
  | .rekeyVbaInVbd => state = .rekeying
  | .vbdExtStepInVbd => state = .extendingVbd
  | .ftExtStepInFt => state = .extendingFt
  | _ => False

/-- **What one call of a securing job does to the keys.** -/
inductive KeyStep (sb : Superblock) (job : Job) (sb' : Superblock) (job' : Job) : Prop
  | waits (hsb : sb' = sb) (hjob : job' = job)
  | plain (hst : job.state.Plain) (hsb : SameKeys sb sb') (hst' : job'.state.Plain)
  | startsStep {prim : GeneratedPrim} (hst : job.state.Plain) (hsb : sb' = sb)
      (hprim : StepFor sb.state prim) (hst' : job'.state = .pending prim)
  | enters (hst : job.state = .primCompleted .createKey true) (hstate : sb.state = .normal)
      (hstate' : sb'.state = .rekeying) (hprevious : sb'.previousKey = sb.currentKey)
      (hcurrent : sb'.currentKey = { value := job.keyPlaintext.value, id := sb.currentKey.id + 1 })
      (hst' : job'.state = .pending .addKeyAtCryptoModule)
      (hkey : job'.keyPlaintext = sb'.currentKey)
  | added (hst : job.state = .primCompleted .addKeyAtCryptoModule true) (hsb : SameKeys sb sb')
      (hst' : job'.state.Plain)
  | nextVba {ok : Bool} (hst : job.state = .primCompleted .rekeyVbaInVbd ok)
      (hsb : SameKeys sb sb') (hst' : job'.state.Plain)
  | lastVba {ok : Bool} (hst : job.state = .primCompleted .rekeyVbaInVbd ok)
      (hsb : SameKeys sb sb') (hst' : job'.state = .pending .removePreviousKeyAtCryptoModule)
      (hkey : job'.prevKeyPlaintext.id = sb.previousKey.id)
  | removed (hst : job.state = .primCompleted .removePreviousKeyAtCryptoModule true)
      (hstate' : sb'.state = .normal) (hcurrent : sb'.currentKey = sb.currentKey)
      (hst' : job'.state.Plain)
  | extended {prim : GeneratedPrim} {ok : Bool} (hst : job.state = .primCompleted prim ok)
      (hprim : prim = .vbdExtStepInVbd ∨ prim = .ftExtStepInFt)
      (hstate' : sb'.state = .normal ∨ sb'.state = sb.state)
      (hcurrent : sb'.currentKey = sb.currentKey) (hprevious : sb'.previousKey = sb.previousKey)
      (hst' : job'.state.Plain)

variable {P : Platform} {c c' : Control} {job job' : Job}

/-- The securing chain leaves the keys alone. -/
theorem executeSecuringChain_keyStep {skip : Bool}
    (h : executeSecuringChain P skip c job = some (c', job')) :
    KeyStep c.sb job c'.sb job' := by
  cases hst : job.state with
  | primCompleted prim ok =>
    have hplain : prim ∈ [.encryptCurrentKey, .encryptPreviousKey, .syncCache, .writeSb,
        .syncBlkIo, .secureSb] → job.state.Plain := by
      intro hprim
      rw [hst]
      revert hprim
      cases prim <;> simp [JobState.Plain]
    unfold executeSecuringChain at h
    rw [hst] at h
    cases prim
    case encryptCurrentKey =>
      dsimp only at h
      split_ifs at h with hok hskip <;> obtain ⟨rfl, rfl⟩ := Prod.mk.inj (Option.some.inj h) <;>
        exact .plain (hplain (by simp)) (.of_eq rfl rfl rfl) (by simp [JobState.Plain])
    case encryptPreviousKey | syncCache | writeSb | syncBlkIo | secureSb =>
      obtain ⟨-, h⟩ := Option.ite_none_left_eq_some.mp h
      obtain ⟨rfl, rfl⟩ := Prod.mk.inj (Option.some.inj h)
      exact .plain (hplain (by simp)) (.of_eq rfl rfl rfl) (by simp [JobState.Plain])
    all_goals
      obtain ⟨rfl, rfl⟩ := Prod.mk.inj (Option.some.inj h)
      exact .waits rfl rfl
  | submitted | pending _ | inProgress _ | completed =>
    unfold executeSecuringChain at h
    rw [hst] at h
    obtain ⟨rfl, rfl⟩ := Prod.mk.inj (Option.some.inj h)
    exact .waits rfl rfl

/-- The start of the chain from a state that does not concern the keys. -/
theorem startSecuring_keyStep {sb : Superblock} {job₀ : Job} (hst : job.state.Plain)
    (hsb : SameKeys sb c.sb) :
    KeyStep sb job (startSecuring c job₀).1.sb (startSecuring c job₀).2 :=
  .plain hst hsb (by simp [startSecuring, JobState.Plain])

/-- A sync does not touch the keys. -/
theorem executeSync_keyStep (h : executeSync P c job = some (c', job')) :
    KeyStep c.sb job c'.sb job' := by
  unfold executeSync at h
  split at h
  · next hst =>
    obtain ⟨rfl, rfl⟩ := Prod.mk.inj (Option.some.inj h)
    exact startSecuring_keyStep (by simp [hst, JobState.Plain]) (.of_eq rfl rfl rfl)
  · exact executeSecuringChain_keyStep h

/-- Nor does the creation of a snapshot. -/
theorem executeCreateSnapshot_keyStep (h : executeCreateSnapshot P c job = some (c', job')) :
    KeyStep c.sb job c'.sb job' := by
  unfold executeCreateSnapshot at h
  split at h
  · next hst =>
    obtain ⟨rfl, rfl⟩ := Prod.mk.inj (Option.some.inj h)
    exact startSecuring_keyStep (by simp [hst, JobState.Plain]) (.of_eq rfl rfl rfl)
  · exact executeSecuringChain_keyStep h

/-- Nor does the discard of one. -/
theorem executeDiscardSnapshot_keyStep (h : executeDiscardSnapshot P c job = some (c', job')) :
    KeyStep c.sb job c'.sb job' := by
  unfold executeDiscardSnapshot at h
  split at h
  · next hst =>
    have hplain : job.state.Plain := by simp [hst, JobState.Plain]
    split at h
    · next c₁ hc₁ =>
      obtain ⟨i, -, rfl⟩ := Option.map_eq_some_iff.mp hc₁
      obtain ⟨rfl, rfl⟩ := Prod.mk.inj (Option.some.inj h)
      exact startSecuring_keyStep hplain (.of_eq rfl rfl rfl)
    · obtain ⟨rfl, rfl⟩ := Prod.mk.inj (Option.some.inj h)
      exact .plain hplain (.of_eq rfl rfl rfl) (by simp [JobState.Plain])
  · exact executeSecuringChain_keyStep h

/-- The first job of a rekeying creates a key, enters the rekeying and adds the
key. -/
theorem executeInitializeRekeying_keyStep
    (h : executeInitializeRekeying P c job = some (c', job')) :
    KeyStep c.sb job c'.sb job' := by
  unfold executeInitializeRekeying at h
  split at h
  · next hst =>
    obtain ⟨rfl, rfl⟩ := Prod.mk.inj (Option.some.inj h)
    exact .plain (by simp [hst, JobState.Plain]) (.of_eq rfl rfl rfl) (by simp [JobState.Plain])
  · next ok hst =>
    obtain ⟨hok, h⟩ := Option.ite_none_left_eq_some.mp h
    obtain ⟨sb, hsb, h⟩ := Option.map_eq_some_iff.mp h
    obtain ⟨rfl, rfl⟩ := Prod.mk.inj h
    obtain ⟨hstate, -, rfl⟩ := superblockEnterRekeyingState_spec hsb
    exact .enters (by rw [hst, Bool.of_not_eq_false hok]) hstate rfl rfl rfl rfl rfl
  · next ok hst =>
    obtain ⟨hok, h⟩ := Option.ite_none_left_eq_some.mp h
    obtain ⟨rfl, rfl⟩ := Prod.mk.inj (Option.some.inj h)
    exact .added (by rw [hst, Bool.of_not_eq_false hok]) (.of_eq rfl rfl rfl)
      (by simp [JobState.Plain])
  · exact executeSecuringChain_keyStep h

/-- A rekeying step leaves the rekeying with its last address, and removes the
previous key. -/
theorem executeRekeyVba_keyStep (h : executeRekeyVba P c job = some (c', job')) :
    KeyStep c.sb job c'.sb job' := by
  unfold executeRekeyVba at h
  split at h
  · next hst =>
    obtain ⟨hstate, h⟩ := Option.ite_none_left_eq_some.mp h
    obtain ⟨rfl, rfl⟩ := Prod.mk.inj (Option.some.inj h)
    exact .startsStep (by simp [hst, JobState.Plain]) rfl
      (show StepFor c.sb.state .rekeyVbaInVbd from not_not.mp hstate) rfl
  · next ok hst =>
    obtain ⟨-, h⟩ := Option.ite_none_left_eq_some.mp h
    obtain ⟨⟨sb, more⟩, hsb, h⟩ := Option.map_eq_some_iff.mp h
    obtain ⟨-, rfl⟩ := rekeyVbaInVbdCompleted_spec hsb
    dsimp only at h
    split_ifs at h with hmore <;> obtain ⟨rfl, rfl⟩ := Prod.mk.inj h
    · exact .nextVba hst (.of_eq rfl rfl rfl) (by simp [JobState.Plain])
    · exact .lastVba hst (.of_eq rfl rfl rfl) rfl rfl
  · next ok hst =>
    obtain ⟨hok, h⟩ := Option.ite_none_left_eq_some.mp h
    obtain ⟨rfl, rfl⟩ := Prod.mk.inj (Option.some.inj h)
    exact .removed (by rw [hst, Bool.of_not_eq_false hok]) rfl rfl
      (by simp [JobState.Plain])
  · exact executeSecuringChain_keyStep h

/-- Entering an extension keeps the keys. -/
theorem enterExtending_sameKeys {st : SuperblockState} {sb sb' : Superblock} {nrOfBlks : ℕ}
    (hst : st ≠ .rekeying ∧ st ≠ .invalid) (hsb : sb.state = .normal)
    (h : enterExtending st sb nrOfBlks = some sb') : SameKeys sb sb' := by
  obtain ⟨-, rfl⟩ := enterExtending_spec h
  exact .of_ne rfl rfl (by simp [hsb]) hst

/-- The state at the end of an extension step. -/
theorem normal_or_same {st st' : SuperblockState} {finished : Bool}
    (h : st' = if finished = true then .normal else st) : st' = .normal ∨ st' = st := by
  cases finished
  · exact .inr h
  · exact .inl h

/-- A step of an extension of the virtual block device does not touch the keys.
-/
theorem executeVbdExtensionStep_keyStep
    (h : executeVbdExtensionStep P c job = some (c', job')) :
    KeyStep c.sb job c'.sb job' := by
  unfold executeVbdExtensionStep at h
  split at h
  · next hst =>
    have hplain : job.state.Plain := by simp [hst, JobState.Plain]
    split at h
    · next hstate =>
      obtain ⟨sb, hsb, h⟩ := Option.map_eq_some_iff.mp h
      obtain ⟨rfl, rfl⟩ := Prod.mk.inj h
      have hsame := enterExtending_sameKeys (by simp) hstate hsb
      exact startSecuring_keyStep hplain ⟨hsame.current, hsame.previous, hsame.rekeying,
        hsame.invalid⟩
    · next hstate =>
      obtain ⟨-, h⟩ := Option.ite_none_left_eq_some.mp h
      obtain ⟨rfl, rfl⟩ := Prod.mk.inj (Option.some.inj h)
      exact .startsStep hplain rfl (show StepFor c.sb.state .vbdExtStepInVbd from hstate) rfl
    · exact absurd h (by simp)
  · next ok hst =>
    obtain ⟨-, h⟩ := Option.ite_none_left_eq_some.mp h
    obtain ⟨⟨sb, finished⟩, hsb, h⟩ := Option.map_eq_some_iff.mp h
    obtain ⟨rfl, rfl⟩ := Prod.mk.inj h
    obtain ⟨-, -, -, -, -, -, -, hcurrent, hprevious, hstate⟩ := vbdExtStepInVbdCompleted_spec hsb
    exact .extended hst (.inl rfl) (normal_or_same hstate) hcurrent hprevious
      (by simp [JobState.Plain])
  · exact executeSecuringChain_keyStep h

/-- Nor does one of the free tree. -/
theorem executeFtExtensionStep_keyStep
    (h : executeFtExtensionStep P c job = some (c', job')) :
    KeyStep c.sb job c'.sb job' := by
  unfold executeFtExtensionStep at h
  split at h
  · next hst =>
    have hplain : job.state.Plain := by simp [hst, JobState.Plain]
    split at h
    · next hstate =>
      obtain ⟨sb, hsb, h⟩ := Option.map_eq_some_iff.mp h
      obtain ⟨rfl, rfl⟩ := Prod.mk.inj h
      have hsame := enterExtending_sameKeys (by simp) hstate hsb
      exact startSecuring_keyStep hplain ⟨hsame.current, hsame.previous, hsame.rekeying,
        hsame.invalid⟩
    · next hstate =>
      obtain ⟨-, h⟩ := Option.ite_none_left_eq_some.mp h
      obtain ⟨rfl, rfl⟩ := Prod.mk.inj (Option.some.inj h)
      exact .startsStep hplain rfl (show StepFor c.sb.state .ftExtStepInFt from hstate) rfl
    · exact absurd h (by simp)
  · next ok hst =>
    obtain ⟨-, h⟩ := Option.ite_none_left_eq_some.mp h
    obtain ⟨⟨sb, finished⟩, hsb, h⟩ := Option.map_eq_some_iff.mp h
    obtain ⟨rfl, rfl⟩ := Prod.mk.inj h
    obtain ⟨-, -, -, -, -, hcurrent, hprevious, hstate⟩ := ftExtStepInFtCompleted_spec hsb
    exact .extended hst (.inr rfl) (normal_or_same hstate) hcurrent hprevious
      (by simp [JobState.Plain])
  · exact executeSecuringChain_keyStep h

/-- **Every call of a securing job is one of the key steps.** -/
theorem execute_keyStep (h : execute P c job = some (c', job')) :
    KeyStep c.sb job c'.sb job' := by
  unfold execute at h
  split at h
  · exact executeSync_keyStep h
  · exact executeCreateSnapshot_keyStep h
  · exact executeDiscardSnapshot_keyStep h
  · exact executeInitializeRekeying_keyStep h
  · exact executeRekeyVba_keyStep h
  · exact executeVbdExtensionStep_keyStep h
  · exact executeFtExtensionStep_keyStep h

/-! ## What holds in each state of a job

The annotations. When no job is in progress the keys in use are registered
(`Settled`); while a job works on the keys it says which of them are, in each of
its states. -/

/-- What the assertions talk about: the keys of the superblock in memory and
its state, the keys registered, the values that came from the trust anchor and
how far the library is. -/
structure KeyView where
  /-- The state of the superblock. -/
  state : SuperblockState
  /-- The current key of the superblock. -/
  current : Key
  /-- Its previous key. -/
  previous : Key
  /-- The ids of the keys that the crypto module has. -/
  registered : Finset ℕ
  /-- The key values that came from the trust anchor. -/
  anchored : List KeyValue
  /-- How far the library is. -/
  stage : Stage

/-- The part of the world that the assertions talk about. -/
def KeyWorld.keys (w : KeyWorld) : KeyView where
  state := w.ctl.sb.state
  current := w.ctl.sb.currentKey
  previous := w.ctl.sb.previousKey
  registered := w.registered
  anchored := w.anchored
  stage := w.stage

namespace KeyView

variable {k : KeyView}

/-- The ids of the keys that the superblock has in use. -/
def inUse (k : KeyView) : Finset ℕ :=
  match k.state with
  | .invalid => ∅
  | .rekeying => {k.current.id, k.previous.id}
  | _ => {k.current.id}

/-- The keys in use are registered, and they differ; the superblock is valid
only while the library is at work. -/
structure Settled (k : KeyView) : Prop where
  /-- The registered keys are those in use. -/
  registered : k.registered = k.inUse
  /-- The two keys of a rekeying have two ids. -/
  distinct : k.state = .rekeying → k.current.id ≠ k.previous.id
  /-- The superblock is invalid before and after the work of the library. -/
  invalid : k.stage ≠ .running → k.state = .invalid

/-- A rekeying has been entered; its new key is not registered yet. -/
structure Entered (k : KeyView) (key : Key) : Prop where
  /-- The superblock says that a rekeying is under way. -/
  state : k.state = .rekeying
  /-- The old key alone is registered. -/
  registered : k.registered = {k.previous.id}
  /-- The two keys have two ids. -/
  distinct : k.current.id ≠ k.previous.id
  /-- The library is at work. -/
  running : k.stage = .running
  /-- The new key is the current one of the superblock. -/
  isCurrent : key = k.current
  /-- Its value came from the trust anchor. -/
  anchored : key.value ∈ k.anchored

/-- What holds in a state of a securing job. Of a primitive that failed nothing
is asked, since the next call raises. -/
def SecuringAt (k : KeyView) (job : Job) : JobState → Prop
  | .primCompleted .createKey _ => k.Settled ∧ job.keyPlaintext.value ∈ k.anchored
  | .pending .addKeyAtCryptoModule | .inProgress .addKeyAtCryptoModule =>
    k.Entered job.keyPlaintext
  | .primCompleted .addKeyAtCryptoModule ok => ok = true → k.Settled
  | .pending .removePreviousKeyAtCryptoModule | .inProgress .removePreviousKeyAtCryptoModule =>
    k.Settled ∧ k.state = .rekeying ∧ job.prevKeyPlaintext.id = k.previous.id
  | .primCompleted .removePreviousKeyAtCryptoModule ok =>
    ok = true → k.stage = .running ∧ k.registered = {k.current.id}
  | .pending prim | .inProgress prim | .primCompleted prim _ =>
    k.Settled ∧ (prim.OnTrees → StepFor k.state prim)
  | .submitted | .completed => k.Settled

/-- The superblock that an initialization reads has the keys that it will
register: two only if the second one has the id of a fresh job. -/
def Admitted (ct : SuperblockCiphertext) : Prop :=
  ct.state = .rekeying → ct.previousKey.id = keyInvalid.id ∧ ct.currentKey.id ≠ keyInvalid.id

/-- The value was decrypted by the trust anchor. -/
def Decrypted (P : Platform) (k : KeyView) (stored : Key) (value : KeyValue) : Prop :=
  value = P.decryptKey stored.value ∧ value ∈ k.anchored

/-- What holds in a state of the initialization. -/
def InitializeAt (P : Platform) (k : KeyView) (job : KeyJob) : KeyJobState → Prop
  | .submitted | .pending .readSb | .inProgress .readSb | .primCompleted .readSb _
  | .pending .readCurrentSb | .inProgress .readCurrentSb => k.registered = ∅
  | .primCompleted .readCurrentSb _ | .pending .decryptCurrentKey
  | .inProgress .decryptCurrentKey => k.registered = ∅ ∧ Admitted job.sbCiphertext
  | .primCompleted .decryptCurrentKey _ =>
    k.registered = ∅ ∧ Admitted job.sbCiphertext
      ∧ k.Decrypted P job.sbCiphertext.currentKey job.currKeyPlaintext.value
  | .pending .addCurrentKeyAtCryptoModule | .inProgress .addCurrentKeyAtCryptoModule =>
    k.registered = ∅ ∧ Admitted job.sbCiphertext
      ∧ k.Decrypted P job.sbCiphertext.currentKey job.currKeyPlaintext.value
      ∧ job.currKeyPlaintext.id = job.sbCiphertext.currentKey.id
  | .primCompleted .addCurrentKeyAtCryptoModule ok =>
    ok = true → k.registered = {job.sbCiphertext.currentKey.id} ∧ Admitted job.sbCiphertext
  | .pending .decryptPreviousKey | .inProgress .decryptPreviousKey =>
    k.registered = {job.sbCiphertext.currentKey.id} ∧ Admitted job.sbCiphertext
      ∧ job.sbCiphertext.state = .rekeying
  | .primCompleted .decryptPreviousKey _ | .pending .addPreviousKeyAtCryptoModule
  | .inProgress .addPreviousKeyAtCryptoModule =>
    k.registered = {job.sbCiphertext.currentKey.id} ∧ Admitted job.sbCiphertext
      ∧ job.sbCiphertext.state = .rekeying
      ∧ k.Decrypted P job.sbCiphertext.previousKey job.prevKeyPlaintext.value
  | .primCompleted .addPreviousKeyAtCryptoModule ok =>
    ok = true → k.registered = {job.sbCiphertext.currentKey.id, job.sbCiphertext.previousKey.id}
      ∧ Admitted job.sbCiphertext ∧ job.sbCiphertext.state = .rekeying
  | .completed =>
    k.registered = k.inUse ∧ (k.state = .rekeying → k.current.id ≠ k.previous.id)
  | _ => False

/-- What holds in a state of the deinitialization. -/
def DeinitializeAt (k : KeyView) (job : KeyJob) : KeyJobState → Prop
  | .submitted => k.Settled ∧ k.state ∈ [.rekeying, .invalid]
  | .pending .removeCurrentKeyAtCryptoModule | .inProgress .removeCurrentKeyAtCryptoModule =>
    k.Settled ∧ k.state ∈ [.rekeying, .invalid] ∧ job.currKeyPlaintext.id = k.current.id
  | .primCompleted .removeCurrentKeyAtCryptoModule ok =>
    ok = true → k.state ∈ [.rekeying, .invalid]
      ∧ (k.state = .rekeying → k.registered = {k.previous.id})
  | .pending .removePreviousKeyAtCryptoModule | .inProgress .removePreviousKeyAtCryptoModule =>
    k.registered = {k.previous.id} ∧ job.prevKeyPlaintext.id = k.previous.id
  | .primCompleted .removePreviousKeyAtCryptoModule ok => ok = true → k.registered = ∅
  | .completed => k.registered = ∅ ∧ k.state = .invalid
  | _ => False

/-! ### What the securing jobs keep

The assertion of a securing job is kept by its calls, by handing its primitive
over, and by the answer to it. -/

/-- The superblock in memory is another one. -/
def withSb (k : KeyView) (sb : Superblock) : KeyView :=
  { k with
    state := sb.state
    current := sb.currentKey
    previous := sb.previousKey }

variable {sb sb' : Superblock}

/-- An invalid superblock has no key in use. -/
theorem inUse_invalid (h : k.state = .invalid) : k.inUse = ∅ := by
  unfold inUse
  rw [h]

/-- During a rekeying there are two. -/
theorem inUse_rekeying (h : k.state = .rekeying) : k.inUse = {k.current.id, k.previous.id} := by
  unfold inUse
  rw [h]

/-- Otherwise there is one. -/
theorem inUse_single (hstate : k.state ≠ .rekeying) (hvalid : k.state ≠ .invalid) :
    k.inUse = {k.current.id} := by
  unfold inUse
  split
  · next h => exact absurd h hvalid
  · next h => exact absurd h hstate
  · rfl

/-- The keys in use are those of the superblock. -/
theorem inUse_withSb (h : SameKeys sb sb') : (k.withSb sb').inUse = (k.withSb sb).inUse := by
  have hrekeying := h.rekeying
  have hinvalid := h.invalid
  unfold inUse withSb
  rw [h.current, h.previous]
  cases hs : sb.state <;> cases hs' : sb'.state <;> simp_all

/-- Only the keys of the superblock matter. -/
theorem Settled.withSb (hk : (k.withSb sb).Settled) (h : SameKeys sb sb') :
    (k.withSb sb').Settled where
  registered := by
    rw [inUse_withSb h]
    exact hk.registered
  distinct hstate := by
    show sb'.currentKey.id ≠ sb'.previousKey.id
    rw [h.current, h.previous]
    exact hk.distinct (h.rekeying.mp hstate)
  invalid hstage := h.invalid.mpr (hk.invalid hstage)

/-- A superblock that is neither rekeying nor invalid has one key in use. -/
theorem Settled.of_single (hstage : k.stage = .running) (hstate : k.state ≠ .rekeying)
    (hvalid : k.state ≠ .invalid) (hreg : k.registered = {k.current.id}) : k.Settled where
  registered := hreg.trans (inUse_single hstate hvalid).symm
  distinct h := absurd h hstate
  invalid h := absurd hstage h

/-- One key is registered. -/
theorem Settled.single (h : k.Settled) (hstate : k.state ≠ .rekeying)
    (hvalid : k.state ≠ .invalid) : k.registered = {k.current.id} :=
  h.registered.trans (inUse_single hstate hvalid)

/-- Two keys are registered. -/
theorem Settled.both (h : k.Settled) (hstate : k.state = .rekeying) :
    k.registered = {k.current.id, k.previous.id} :=
  h.registered.trans (inUse_rekeying hstate)

/-- A valid superblock is there only while the library is at work. -/
theorem Settled.running (h : k.Settled) (hvalid : k.state ≠ .invalid) : k.stage = .running := by
  by_contra hstage
  exact hvalid (h.invalid hstage)

/-- In the plain states nothing but the registered keys is of interest. -/
theorem securingAt_of_plain {job : Job} {st : JobState} (hst : st.Plain) :
    k.SecuringAt job st ↔ k.Settled := by
  cases st with
  | submitted | completed => rfl
  | pending prim | inProgress prim | primCompleted prim ok =>
    cases prim <;> simp [JobState.Plain, SecuringAt, GeneratedPrim.OnTrees] at hst ⊢

/-- A tree step is handed over only in the state that asks for it. -/
theorem securingAt_of_stepFor {job : Job} {prim : GeneratedPrim} (hprim : StepFor k.state prim)
    (hk : k.Settled) : k.SecuringAt job (.pending prim) := by
  cases prim with
  | rekeyVbaInVbd | vbdExtStepInVbd | ftExtStepInFt => exact ⟨hk, fun _ => hprim⟩
  | _ => exact hprim.elim

/-- **A call of a securing job keeps the assertion.** -/
theorem SecuringAt.execute {job job' : Job} (hk : (k.withSb sb).SecuringAt job job.state)
    (h : KeyStep sb job sb' job') : (k.withSb sb').SecuringAt job' job'.state := by
  cases h with
  | waits hsb hjob =>
    rw [hsb, hjob]
    exact hk
  | plain hst hsb hst' =>
    exact (securingAt_of_plain hst').mpr (((securingAt_of_plain hst).mp hk).withSb hsb)
  | startsStep hst hsb hprim hst' =>
    have hsettled := (securingAt_of_plain hst).mp hk
    rw [hsb, hst']
    exact securingAt_of_stepFor hprim hsettled
  | enters hst hstate hstate' hprevious hcurrent hst' hkey =>
    rw [hst] at hk
    obtain ⟨hsettled, hanchored⟩ := hk
    rw [hst']
    refine ⟨hstate', ?_, ?_, ?_, hkey, ?_⟩
    · show k.registered = {sb'.previousKey.id}
      rw [hprevious]
      exact hsettled.single (show sb.state ≠ .rekeying by simp [hstate])
        (show sb.state ≠ .invalid by simp [hstate])
    · show sb'.currentKey.id ≠ sb'.previousKey.id
      rw [hprevious, hcurrent]
      exact Nat.succ_ne_self _
    · exact hsettled.running (show sb.state ≠ .invalid by simp [hstate])
    · rw [hkey, hcurrent]
      exact hanchored
  | added hst hsb hst' =>
    rw [hst] at hk
    exact (securingAt_of_plain hst').mpr ((hk rfl).withSb hsb)
  | nextVba hst hsb hst' =>
    rw [hst] at hk
    exact (securingAt_of_plain hst').mpr (hk.1.withSb hsb)
  | lastVba hst hsb hst' hkey =>
    rw [hst] at hk
    rw [hst']
    refine ⟨hk.1.withSb hsb, hsb.rekeying.mpr (hk.2 (.inl rfl)), ?_⟩
    show job'.prevKeyPlaintext.id = sb'.previousKey.id
    rw [hkey, hsb.previous]
  | removed hst hstate' hcurrent hst' =>
    rw [hst] at hk
    obtain ⟨hrunning, hreg⟩ := hk rfl
    refine (securingAt_of_plain hst').mpr (.of_single hrunning ?_ ?_ ?_)
    · show sb'.state ≠ .rekeying
      simp [hstate']
    · show sb'.state ≠ .invalid
      simp [hstate']
    · show k.registered = {sb'.currentKey.id}
      rw [hcurrent]
      exact hreg
  | extended hst hprim hstate' hcurrent hprevious hst' =>
    rw [hst] at hk
    have hstep : sb.state = .extendingVbd ∨ sb.state = .extendingFt := by
      rcases hprim with rfl | rfl
      · exact .inl (hk.2 (by simp [GeneratedPrim.OnTrees]))
      · exact .inr (hk.2 (by simp [GeneratedPrim.OnTrees]))
    have hsettled : (k.withSb sb).Settled := by
      rcases hprim with rfl | rfl
      · exact hk.1
      · exact hk.1
    refine (securingAt_of_plain hst').mpr (hsettled.withSb (.of_ne hcurrent hprevious ?_ ?_))
    · rcases hstep with hs | hs <;> simp [hs]
    · rcases hstate' with hs' | hs' <;> rcases hstep with hs | hs <;> simp [hs', hs]

/-- Handing a pending primitive over keeps the assertion. -/
theorem SecuringAt.dropGenerated {job : Job} {prim : GeneratedPrim}
    (hk : k.SecuringAt job (.pending prim)) :
    k.SecuringAt { job with state := .inProgress prim } (.inProgress prim) := by
  cases prim <;> exact hk

/-- Marking the primitive in progress complete keeps the assertion. -/
theorem SecuringAt.complete {w : KeyWorld} {job : Job} {prim : GeneratedPrim} (ok : Bool)
    (r : PrimResult) (hk : w.keys.SecuringAt job (.inProgress prim)) :
    (w.completeSecuring P job prim ok r).keys.SecuringAt
      (markGeneratedPrimComplete P prim ok r job) (.primCompleted prim ok) := by
  cases prim with
  | createKey =>
    have hsettled : w.keys.Settled := hk.1
    refine ⟨⟨?_, hsettled.distinct, hsettled.invalid⟩, List.mem_cons_self⟩
    cases ok <;> exact hsettled.registered
  | addKeyAtCryptoModule =>
    rintro rfl
    have hentered : w.keys.Entered job.keyPlaintext := hk
    refine ⟨?_, fun _ => hentered.distinct, fun hstage => absurd hentered.running hstage⟩
    show insert job.keyPlaintext.id w.registered = _
    rw [show w.registered = {w.keys.previous.id} from hentered.registered, hentered.isCurrent]
    exact (inUse_rekeying (show w.ctl.sb.state = .rekeying from hentered.state)).symm
  | removePreviousKeyAtCryptoModule =>
    rintro rfl
    obtain ⟨hsettled, hstate, hkey⟩ := hk
    refine ⟨hsettled.running (by simp [hstate]), ?_⟩
    show w.registered.erase job.prevKeyPlaintext.id = {w.keys.current.id}
    rw [hkey, show w.registered = _ from hsettled.both hstate]
    have hne := hsettled.distinct hstate
    rw [Finset.pair_comm, Finset.erase_insert (by simpa using hne.symm)]
  | _ => cases ok <;> exact hk

/-! ### What the two other jobs keep

For these the assertion depends on what was read, which the condition on the run
admits or not. -/

/-- The superblock that an initialization takes over has the keys in use that
were registered. -/
theorem takeOver_completed {job job' : KeyJob}
    (hreg : (k.withSb sb).registered = (k.withSb sb).inUse)
    (hdistinct : sb.state = .rekeying → sb.currentKey.id ≠ sb.previousKey.id)
    (h : takeOver job sb = some (c', job')) :
    InitializeAt P (k.withSb c'.sb) job' job'.state
      ∧ job'.prevKeyPlaintext.id = job.prevKeyPlaintext.id
      ∧ job'.operation = job.operation := by
  unfold takeOver at h
  obtain ⟨-, h⟩ := Option.ite_none_left_eq_some.mp h
  obtain ⟨rfl, rfl⟩ := Prod.mk.inj (Option.some.inj h)
  exact ⟨⟨hreg, hdistinct⟩, rfl, rfl⟩

/-- **A call of the initialization keeps the assertion**, and the id of the
previous key and the operation of its job. -/
theorem InitializeAt.execute {job job' : KeyJob}
    (hk : InitializeAt P (k.withSb c.sb) job job.state)
    (h : jobExecuteInitialize c job = some (c', job')) :
    InitializeAt P (k.withSb c'.sb) job' job'.state
      ∧ job'.prevKeyPlaintext.id = job.prevKeyPlaintext.id
      ∧ job'.operation = job.operation := by
  unfold jobExecuteInitialize at h
  split at h
  · next hst =>
    obtain ⟨rfl, rfl⟩ := Prod.mk.inj (Option.some.inj h)
    rw [hst] at hk
    exact ⟨hk, rfl, rfl⟩
  · next ok hst =>
    obtain ⟨-, h⟩ := Option.ite_none_left_eq_some.mp h
    obtain ⟨scan, -, h⟩ := Option.bind_eq_some_iff.mp h
    rw [hst] at hk
    split_ifs at h <;> obtain ⟨rfl, rfl⟩ := Prod.mk.inj (Option.some.inj h) <;> exact ⟨hk, rfl, rfl⟩
  · next ok hst =>
    obtain ⟨-, h⟩ := Option.ite_none_left_eq_some.mp h
    obtain ⟨rfl, rfl⟩ := Prod.mk.inj (Option.some.inj h)
    rw [hst] at hk
    exact ⟨hk, rfl, rfl⟩
  · next ok hst =>
    obtain ⟨-, h⟩ := Option.ite_none_left_eq_some.mp h
    obtain ⟨rfl, rfl⟩ := Prod.mk.inj (Option.some.inj h)
    rw [hst] at hk
    exact ⟨⟨hk.1, hk.2.1, hk.2.2, rfl⟩, rfl, rfl⟩
  · next ok hst =>
    obtain ⟨hok, h⟩ := Option.ite_none_left_eq_some.mp h
    rw [hst] at hk
    obtain ⟨hreg, hadm⟩ := hk (Bool.of_not_eq_false hok)
    split at h
    · exact absurd h (by simp)
    · next hstate =>
      obtain ⟨rfl, rfl⟩ := Prod.mk.inj (Option.some.inj h)
      exact ⟨⟨hreg, hadm, hstate⟩, rfl, rfl⟩
    · next hinvalid hrekeying =>
      refine takeOver_completed ?_ ?_ h
      · rw [inUse_single]
        · exact hreg
        · exact hrekeying
        · exact hinvalid
      · exact fun hstate => absurd hstate hrekeying
  · next ok hst =>
    obtain ⟨-, h⟩ := Option.ite_none_left_eq_some.mp h
    obtain ⟨rfl, rfl⟩ := Prod.mk.inj (Option.some.inj h)
    rw [hst] at hk
    exact ⟨hk, rfl, rfl⟩
  · next ok hst =>
    obtain ⟨hok, h⟩ := Option.ite_none_left_eq_some.mp h
    rw [hst] at hk
    obtain ⟨hreg, hadm, hstate⟩ := hk (Bool.of_not_eq_false hok)
    refine takeOver_completed ?_ (fun _ => ?_) h
    · rw [inUse_rekeying]
      · exact hreg
      · exact hstate
    · show job.sbCiphertext.currentKey.id ≠ job.sbCiphertext.previousKey.id
      obtain ⟨hprev, hcurr⟩ := hadm hstate
      rw [hprev]
      exact hcurr
  · obtain ⟨rfl, rfl⟩ := Prod.mk.inj (Option.some.inj h)
    exact ⟨hk, rfl, rfl⟩

/-- **A call of the deinitialization keeps the assertion.** -/
theorem DeinitializeAt.execute {job job' : KeyJob}
    (hk : DeinitializeAt (k.withSb c.sb) job job.state)
    (h : jobExecuteDeinitialize c job = some (c', job')) :
    DeinitializeAt (k.withSb c'.sb) job' job'.state ∧ job'.operation = job.operation := by
  unfold jobExecuteDeinitialize at h
  split at h
  · next hst =>
    obtain ⟨rfl, rfl⟩ := Prod.mk.inj (Option.some.inj h)
    rw [hst] at hk
    exact ⟨⟨hk.1, hk.2, rfl⟩, rfl⟩
  · next ok hst =>
    obtain ⟨hok, h⟩ := Option.ite_none_left_eq_some.mp h
    rw [hst] at hk
    obtain ⟨hmem, hreg⟩ := hk (Bool.of_not_eq_false hok)
    split at h
    · exact absurd h (by simp)
    · next hstate =>
      obtain ⟨rfl, rfl⟩ := Prod.mk.inj (Option.some.inj h)
      exact ⟨⟨hreg hstate, rfl⟩, rfl⟩
    · next hinvalid hrekeying =>
      -- the condition: the superblock is not in one of the other states
      rcases List.mem_pair.mp hmem with hs | hs
      · exact absurd hs hrekeying
      · exact absurd hs hinvalid
  · next ok hst =>
    obtain ⟨hok, h⟩ := Option.ite_none_left_eq_some.mp h
    obtain ⟨rfl, rfl⟩ := Prod.mk.inj (Option.some.inj h)
    rw [hst] at hk
    exact ⟨⟨hk (Bool.of_not_eq_false hok), rfl⟩, rfl⟩
  · obtain ⟨rfl, rfl⟩ := Prod.mk.inj (Option.some.inj h)
    exact ⟨hk, rfl⟩

/-- **Marking a primitive of the initialization complete keeps the
assertion**, if the superblock read is one that it admits. -/
theorem InitializeAt.complete {w : KeyWorld} {job : KeyJob} {prim : KeyPrim} {ok : Bool}
    {ct : SuperblockCiphertext} (hk : w.keys.InitializeAt P job (.inProgress prim))
    (hid : job.prevKeyPlaintext.id = keyInvalid.id)
    (hct : prim = .readCurrentSb → Admitted ct) :
    (w.completeKey P job prim ok ct).keys.InitializeAt P (job.complete P prim ok ct)
      (.primCompleted prim ok) := by
  cases prim with
  | readSb => cases ok <;> exact hk
  | readCurrentSb => cases ok <;> exact ⟨hk, hct rfl⟩
  | decryptCurrentKey => cases ok <;> exact ⟨hk.1, hk.2, rfl, List.mem_cons_self⟩
  | addCurrentKeyAtCryptoModule =>
    rintro rfl
    obtain ⟨hreg, hadm, -, hkey⟩ := hk
    refine ⟨?_, hadm⟩
    show insert job.currKeyPlaintext.id w.registered = _
    rw [hkey, show w.registered = ∅ from hreg]
    rfl
  | decryptPreviousKey =>
    obtain ⟨hreg, hadm, hstate⟩ := hk
    cases ok <;> exact ⟨hreg, hadm, hstate, rfl, List.mem_cons_self⟩
  | addPreviousKeyAtCryptoModule =>
    rintro rfl
    obtain ⟨hreg, hadm, hstate, -⟩ := hk
    refine ⟨?_, hadm, hstate⟩
    show insert job.prevKeyPlaintext.id w.registered
      = {job.sbCiphertext.currentKey.id, job.sbCiphertext.previousKey.id}
    -- the id of a fresh job is the one that is stored
    rw [show w.registered = _ from hreg, hid, (hadm hstate).1]
    exact Finset.pair_comm _ _
  | removeCurrentKeyAtCryptoModule | removePreviousKeyAtCryptoModule => exact hk.elim

/-- **Marking a primitive of the deinitialization complete keeps the
assertion.** -/
theorem DeinitializeAt.complete {w : KeyWorld} {job : KeyJob} {prim : KeyPrim} {ok : Bool}
    {ct : SuperblockCiphertext} (hk : w.keys.DeinitializeAt job (.inProgress prim)) :
    (w.completeKey P job prim ok ct).keys.DeinitializeAt (job.complete P prim ok ct)
      (.primCompleted prim ok) := by
  cases prim with
  | removeCurrentKeyAtCryptoModule =>
    rintro rfl
    obtain ⟨hsettled, hmem, hkey⟩ := hk
    refine ⟨hmem, fun hstate => ?_⟩
    show w.registered.erase job.currKeyPlaintext.id = {w.keys.previous.id}
    rw [hkey, show w.registered = _ from hsettled.both hstate]
    exact Finset.erase_insert (by simpa using hsettled.distinct hstate)
  | removePreviousKeyAtCryptoModule =>
    rintro rfl
    obtain ⟨hreg, hkey⟩ := hk
    show w.registered.erase job.prevKeyPlaintext.id = ∅
    rw [hkey, show w.registered = _ from hreg]
    exact Finset.erase_singleton _
  | _ => exact hk.elim

end KeyView

/-! ## Every run

The assertions of all the jobs together are the invariant. -/

namespace KeyWorld

/-- What holds of an initialization or a deinitialization in progress. -/
structure KeyJobKept (P : Platform) (k : KeyView) (job : KeyJob) : Prop where
  /-- An initialization is as its state says. -/
  initialization : job.operation = .initialization →
    k.stage = .starting ∧ job.prevKeyPlaintext.id = keyInvalid.id ∧ k.InitializeAt P job job.state
  /-- A deinitialization is as its state says. -/
  deinitialization : job.operation = .deinitialization → k.DeinitializeAt job job.state

/-- What holds of the job that is in progress, if there is one. -/
def KeptAt (P : Platform) (k : KeyView) : Option ControlJob → Prop
  | none => k.Settled
  | some (.securing job) => k.SecuringAt job job.state
  | some (.key job) => KeyJobKept P k job

/-- **The assertion of a world.** -/
def Kept (P : Platform) (w : KeyWorld) : Prop := KeptAt P w.keys w.job

/-- A library that was just started has no key registered. -/
theorem kept_initial : Kept P initial := by
  refine ⟨rfl, fun h => ?_, fun _ => rfl⟩
  exact absurd h (by decide)

variable {w w' : KeyWorld}

/-- A submitted initialization finds no key registered. -/
theorem Kept.submitKeyJob {operation : KeyOperation} (h : w.keys.Settled)
    (hC : w.Careful (.submitKeyJob operation))
    (hstage : operation = .initialization ↔ w.stage = .starting) :
    Kept P { w with job := some (.key (KeyJob.fresh operation)) } where
  initialization hop := by
    have hstarting : w.stage = .starting := hstage.mp hop
    have hinvalid : w.keys.state = .invalid := h.invalid (by simp [keys, hstarting])
    refine ⟨hstarting, rfl, ?_⟩
    exact h.registered.trans (KeyView.inUse_invalid hinvalid)
  deinitialization hop := ⟨h, hC hop⟩

/-- A call of the job keeps it. -/
theorem Kept.execute {j : ControlJob} (h : KeptAt P w.keys (some j))
    (hstep : w.executeJob P j = some w') : Kept P w' := by
  cases j with
  | securing job =>
    obtain ⟨⟨c', job'⟩, hex, rfl⟩ := Option.map_eq_some_iff.mp hstep
    have h : (w.keys.withSb w.ctl.sb).SecuringAt job job.state := h
    exact h.execute (execute_keyStep hex)
  | key job =>
    obtain ⟨⟨c', job'⟩, hex, rfl⟩ := Option.map_eq_some_iff.mp hstep
    unfold KeyJob.execute at hex
    split at hex
    · next hop =>
      obtain ⟨hstage, hid, hk⟩ := h.initialization hop
      have hk : KeyView.InitializeAt P (w.keys.withSb w.ctl.sb) job job.state := hk
      obtain ⟨hk', hid', hop'⟩ := hk.execute hex
      exact ⟨fun _ => ⟨hstage, hid'.trans hid, hk'⟩, fun h => by simp [hop', hop] at h⟩
    · next hop =>
      have hk : KeyView.DeinitializeAt (w.keys.withSb w.ctl.sb) job job.state :=
        h.deinitialization hop
      obtain ⟨hk', hop'⟩ := hk.execute hex
      exact ⟨fun h => by simp [hop', hop] at h, fun _ => hk'⟩

/-- Handing the primitive over keeps it. -/
theorem Kept.dropGenerated {j : ControlJob} (h : KeptAt P w.keys (some j))
    (hstep : w.dropGenerated j = some w') : Kept P w' := by
  unfold KeyWorld.dropGenerated at hstep
  split at hstep
  · next job =>
    split at hstep
    · next prim hst =>
      obtain rfl := Option.some.inj hstep
      have h : w.keys.SecuringAt job job.state := h
      rw [hst] at h
      exact h.dropGenerated
    · exact absurd hstep (by simp)
  · next job =>
    split at hstep
    · next prim hst =>
      obtain rfl := Option.some.inj hstep
      refine ⟨fun hop => ?_, fun hop => ?_⟩
      · obtain ⟨hstage, hid, hk⟩ := h.initialization hop
        rw [hst] at hk
        refine ⟨hstage, hid, ?_⟩
        cases prim <;> exact hk
      · have hk := h.deinitialization hop
        rw [hst] at hk
        cases prim <;> exact hk
    · exact absurd hstep (by simp)

/-- The answer to the primitive keeps it. -/
theorem Kept.complete {j : ControlJob} {ok : Bool} {r : PrimResult} {ct : SuperblockCiphertext}
    (hjob : w.job = some j) (h : KeptAt P w.keys (some j)) (hC : w.Careful (.complete ok r ct))
    (hstep : w.complete P ok r ct j = some w') : Kept P w' := by
  unfold KeyWorld.complete at hstep
  split at hstep
  · next job =>
    split at hstep
    · next prim hst =>
      obtain rfl := Option.some.inj hstep
      have h : w.keys.SecuringAt job job.state := h
      rw [hst] at h
      have hst' : (markGeneratedPrimComplete P prim ok r job).state = .primCompleted prim ok := by
        cases prim <;> rfl
      show KeyView.SecuringAt _ _ (markGeneratedPrimComplete P prim ok r job).state
      rw [hst']
      exact h.complete ok r
    · exact absurd hstep (by simp)
  · next job =>
    split at hstep
    · next prim hst =>
      obtain rfl := Option.some.inj hstep
      have hst' : (job.complete P prim ok ct).state = .primCompleted prim ok := by
        cases prim <;> rfl
      have hop' : (job.complete P prim ok ct).operation = job.operation := by
        cases prim <;> rfl
      refine ⟨fun hop => ?_, fun hop => ?_⟩
      · obtain ⟨hstage, hid, hk⟩ := h.initialization (hop'.symm.trans hop)
        rw [hst] at hk
        refine ⟨hstage, ?_, ?_⟩
        · rw [← hid]
          cases prim <;> rfl
        · rw [hst']
          refine hk.complete hid ?_
          rintro rfl
          unfold Careful at hC
          rw [hjob] at hC
          exact hC hst
      · have hk := h.deinitialization (hop'.symm.trans hop)
        rw [hst] at hk
        rw [hst']
        exact hk.complete
    · exact absurd hstep (by simp)

/-- A completed job is dropped with the keys settled. -/
theorem Kept.dropCompleted {j : ControlJob} (h : KeptAt P w.keys (some j))
    (hstep : w.dropCompleted j = some w') : Kept P w' := by
  unfold KeyWorld.dropCompleted at hstep
  split at hstep
  · next job =>
    obtain ⟨hst, hw'⟩ := Option.ite_none_right_eq_some.mp hstep
    obtain rfl := Option.some.inj hw'
    have h : w.keys.SecuringAt job job.state := h
    rw [hst] at h
    exact h
  · next job =>
    obtain ⟨hst, hw'⟩ := Option.ite_none_right_eq_some.mp hstep
    obtain rfl := Option.some.inj hw'
    cases hop : job.operation with
    | initialization =>
      obtain ⟨-, -, hk⟩ := h.initialization hop
      rw [hst] at hk
      exact ⟨hk.1, hk.2, fun hstage => absurd rfl hstage⟩
    | deinitialization =>
      have hk := h.deinitialization hop
      rw [hst] at hk
      obtain ⟨hreg, hinvalid⟩ := hk
      refine ⟨?_, fun hstate => ?_, fun _ => hinvalid⟩
      · rw [KeyView.inUse_invalid]
        · exact hreg
        · exact hinvalid
      · exact absurd (hinvalid.symm.trans hstate) (by decide)

/-- **Every action that meets the condition keeps the assertion.** -/
theorem Kept.step {a : KeyAction} (h : Kept P w) (hC : w.Careful a)
    (hstep : w.step P a = some w') : Kept P w' := by
  cases a with
  | start =>
    obtain rfl := Option.some.inj hstep
    exact kept_initial
  | submitKeyJob operation =>
    obtain ⟨⟨hjob, hstage⟩, hw'⟩ := Option.ite_none_right_eq_some.mp hstep
    obtain rfl := Option.some.inj hw'
    unfold Kept at h
    rw [hjob] at h
    exact Kept.submitKeyJob h hC hstage
  | submit job =>
    obtain ⟨⟨hjob, -, hst⟩, hw'⟩ := Option.ite_none_right_eq_some.mp hstep
    obtain rfl := Option.some.inj hw'
    unfold Kept at h
    rw [hjob] at h
    show w.keys.SecuringAt job job.state
    rw [hst]
    exact h
  | execute =>
    obtain ⟨j, hjob, hstep⟩ := Option.bind_eq_some_iff.mp hstep
    unfold Kept at h
    rw [hjob] at h
    exact Kept.execute h hstep
  | dropGenerated =>
    obtain ⟨j, hjob, hstep⟩ := Option.bind_eq_some_iff.mp hstep
    unfold Kept at h
    rw [hjob] at h
    exact Kept.dropGenerated h hstep
  | complete ok r ct =>
    obtain ⟨j, hjob, hstep⟩ := Option.bind_eq_some_iff.mp hstep
    unfold Kept at h
    rw [hjob] at h
    exact Kept.complete hjob h hC hstep
  | dropCompleted =>
    obtain ⟨j, hjob, hstep⟩ := Option.bind_eq_some_iff.mp hstep
    unfold Kept at h
    rw [hjob] at h
    exact Kept.dropCompleted h hstep
  | modulesWork snaps currSnap r =>
    obtain rfl := Option.some.inj hstep
    exact h

/-- The assertion says which keys are registered when no job is in progress. -/
theorem Kept.registered (h : Kept P w) (hjob : w.job = none) : w.Registered := by
  unfold Kept at h
  rw [hjob] at h
  have hsettled : w.keys.Settled := h
  have hregistered : w.registered = w.keys.inUse := hsettled.registered
  have hinvalid : w.stage ≠ .running → w.registered = ∅ ∧ w.ctl.sb.state = .invalid := by
    intro hstage
    have hstate := hsettled.invalid hstage
    exact ⟨hregistered.trans (KeyView.inUse_invalid hstate), hstate⟩
  refine ⟨fun hs => ?_, fun _ hmem => ?_, fun _ hstate => ?_, fun hs => ?_⟩
  · exact (hinvalid (by simp [hs])).1
  · refine hregistered.trans (KeyView.inUse_single ?_ ?_)
    · show w.ctl.sb.state ≠ .rekeying
      rintro hstate
      simp [hstate] at hmem
    · show w.ctl.sb.state ≠ .invalid
      rintro hstate
      simp [hstate] at hmem
  · exact hregistered.trans (KeyView.inUse_rekeying hstate)
  · exact hinvalid (by simp [hs])

/-- A key with the stored id and the decrypted value is the stored key,
decrypted. -/
theorem key_eq_of_decrypted {k : KeyView} {key stored : Key}
    (h : k.Decrypted P stored key.value) (hid : key.id = stored.id) :
    key.value ∈ k.anchored ∧ key = { stored with value := P.decryptKey stored.value } := by
  obtain ⟨hvalue, hanchored⟩ := h
  cases key
  exact ⟨hanchored, by simp_all⟩

/-- The assertion says which key is handed over. -/
theorem Kept.handsOver {key stored : Key} (h : Kept P w)
    (hkey : w.handsOver P = some (key, stored)) : key.value ∈ w.anchored ∧ key = stored := by
  unfold KeyWorld.handsOver at hkey
  unfold Kept at h
  split at hkey
  · next job hjob =>
    obtain ⟨hst, hkey⟩ := Option.ite_none_right_eq_some.mp hkey
    obtain ⟨rfl, rfl⟩ := Prod.mk.inj (Option.some.inj hkey)
    rw [hjob] at h
    have h : w.keys.SecuringAt job job.state := h
    rw [hst] at h
    have hentered : w.keys.Entered job.keyPlaintext := h
    exact ⟨hentered.anchored, hentered.isCurrent⟩
  · next job hjob =>
    rw [hjob] at h
    have hkept : KeyJobKept P w.keys job := h
    split_ifs at hkey with hst hst'
    · obtain ⟨rfl, rfl⟩ := Prod.mk.inj (Option.some.inj hkey)
      cases hop : job.operation with
      | initialization =>
        obtain ⟨-, -, hk⟩ := hkept.initialization hop
        rw [hst] at hk
        exact key_eq_of_decrypted hk.2.2.1 hk.2.2.2
      | deinitialization =>
        have hk := hkept.deinitialization hop
        rw [hst] at hk
        exact hk.elim
    · obtain ⟨rfl, rfl⟩ := Prod.mk.inj (Option.some.inj hkey)
      cases hop : job.operation with
      | initialization =>
        obtain ⟨-, hid, hk⟩ := hkept.initialization hop
        rw [hst'] at hk
        obtain ⟨-, hadm, hstate, hdecrypted⟩ := hk
        exact key_eq_of_decrypted hdecrypted (hid.trans (hadm hstate).1.symm)
      | deinitialization =>
        have hk := hkept.deinitialization hop
        rw [hst'] at hk
        exact hk.elim
  · exact absurd hkey (by simp)

/-- **In every run whose actions meet the condition the life of the keys is in
order.** -/
theorem keysInOrder_of_run (h : Runs.Run (step P) Careful initial w) : w.KeysInOrder P := by
  have hkept : Kept P w := h.invariant (fun _ _ _ hs hC hstep => hs.step hC hstep) kept_initial
  exact ⟨hkept.registered, fun _ _ => hkept.handsOver⟩

/-- A primitive is handed over and succeeds, and the job goes on. -/
def samplePrim (ct : SuperblockCiphertext) : List KeyAction :=
  [.dropGenerated,
    .complete true
      { keyValue := 7
        snapshots := ct.snapshots
        ext := ⟨0, 0, 0⟩
        ftRoot := type1NodeInvalid
        ftMaxLvlIdx := 0
        ftNrOfLeaves := 0 } ct,
    .execute]

/-- The initialization on an image whose first slot has a superblock: the scan,
the second reading and the primitives for its keys. -/
def sampleInitialization (ct : SuperblockCiphertext) (nrOfKeys : ℕ) : List KeyAction :=
  [.start, .submitKeyJob .initialization, .execute] ++ samplePrim ct
    ++ (List.replicate 7 (samplePrim superblockInvalid)).flatten ++ samplePrim ct
    ++ (List.replicate (2 * nrOfKeys) (samplePrim ct)).flatten ++ [.dropCompleted]

/-- A securing job to submit. -/
def sampleJob (operation : Operation) : Job where
  operation := operation
  state := .submitted
  success := false
  keyPlaintext := keyInvalid
  generation := 0
  hash := 0
  pba := 0
  nrOfBlks := 0
  nrOfLeaves := 0
  sbCiphertext := superblockInvalid
  requestFinished := false
  snapshots _ := snapshotInvalid
  ftRoot := type1NodeInvalid
  ftMaxLvlIdx := 0
  ftNrOfLeaves := 0
  prevKeyPlaintext := keyInvalid

/-- A rekeying is begun after the initialization, and the library is
deinitialized while it is going on. -/
def sampleLife : List KeyAction :=
  sampleInitialization (Superblock.sample 1) 1
    ++ [.submit (sampleJob .initializeRekeying), .execute]
    ++ (List.replicate 8 (samplePrim superblockInvalid)).flatten ++ [.dropCompleted]
    ++ [.submitKeyJob .deinitialization, .execute]
    ++ (List.replicate 2 (samplePrim superblockInvalid)).flatten ++ [.dropCompleted]

/-- The world at the end of the sample life. -/
theorem keysInOrder_of_run_sample :
    (Runs.after (step Platform.sample) Careful initial sampleLife).KeysInOrder Platform.sample :=
  keysInOrder_of_run (Runs.Run.after (by decide))

/-- A superblock secured while a rekeying from the key 1 to the key 2 was going
on. -/
def sampleRekeying : SuperblockCiphertext :=
  { Superblock.sample 1 with
    state := .rekeying
    previousKey := { value := 3, id := 1 }
    currentKey := { value := 4, id := 2 } }

/-- **The life of the keys is not always in order**: a restart while a rekeying
is going on registers the previous key, 1, under the id 0; and a
deinitialization of a normal superblock leaves it normal. -/
theorem not_keysInOrder_samples :
    (∃ w, Runs.Run (step Platform.sample) (fun _ _ => True) initial w ∧ w.stage = .running
        ∧ w.registered = {2, 0} ∧ w.ctl.sb.previousKey.id = 1
        ∧ ¬ w.KeysInOrder Platform.sample)
      ∧ ∃ w, Runs.Run (step Platform.sample) (fun _ _ => True) initial w ∧ w.stage = .ended
        ∧ w.ctl.sb.state = .normal ∧ ¬ w.KeysInOrder Platform.sample := by
  constructor
  · refine ⟨Runs.after (step Platform.sample) (fun _ _ => True) initial
      (sampleInitialization sampleRekeying 2), Runs.Run.after (by decide), by decide, by decide,
      by decide, fun h => ?_⟩
    have hreg := (h.registered (by decide)).rekeying (by decide) (by decide)
    revert hreg
    decide
  · refine ⟨Runs.after (step Platform.sample) (fun _ _ => True) initial
      (sampleInitialization (Superblock.sample 1) 1 ++ [.submitKeyJob .deinitialization, .execute]
        ++ samplePrim superblockInvalid ++ [.dropCompleted]), Runs.Run.after (by decide),
      by decide, by decide, fun h => ?_⟩
    have hended := ((h.registered (by decide)).ended (by decide)).2
    revert hended
    decide

end KeyWorld

end Cbe
