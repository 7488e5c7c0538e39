import Cbe.Types
import Cbe.IndexQueue
import Cbe.Support.Runs
import Mathlib.Data.List.FinRange

/-!
# The request pool

The pool that takes the requests of the client, keeps them in slots, and
serves the one at the head of its index queue: a read or write through the
primitives of the virtual block device, every other request through those of
the superblock control. A rekeying or an extension goes on in steps; between
two of them the pool lets a few requests that wait behind it go first.

A procedure that raises `Program_Error` returns nothing. The `Progress` flag
of a procedure is returned beside the pool.
-/

namespace Cbe

/-- `Request_Operation_Type`. -/
inductive RequestOperation where
  /-- `Initialize`. -/
  | initializeRequest
  | deinitializeRequest
  | read
  | write
  | sync
  | createSnapshot
  | discardSnapshot
  | rekey
  | extendVbd
  | extendFt
  | resumeRekeying
  deriving DecidableEq

/-- The operations that may go before a rekeying or an extension. -/
def RequestOperation.MayBePreponed : RequestOperation → Prop
  | .read | .write | .sync | .discardSnapshot => True
  | _ => False

instance : DecidablePred RequestOperation.MayBePreponed
  | .read | .write | .sync | .discardSnapshot => isTrue trivial
  | .initializeRequest | .deinitializeRequest | .createSnapshot | .rekey | .extendVbd | .extendFt
  | .resumeRekeying => isFalse id

/-- `Request.Object_Type`. -/
structure Request where
  /-- Whether there is a request. -/
  valid : Bool
  /-- What is asked for. -/
  operation : RequestOperation
  /-- Whether it has succeeded. -/
  success : Bool
  /-- The first virtual block address. -/
  blockNumber : ℕ
  /-- Where the data is in the memory of the client. -/
  offset : ℕ
  /-- How many blocks it is about. -/
  count : ℕ
  /-- The key that it is about. -/
  keyId : ℕ
  /-- A number of the client's own. -/
  tag : ℕ
  deriving DecidableEq

namespace Request

/-- `Request.Invalid_Object`. -/
def invalidObject : Request :=
  { valid := false, operation := .read, success := false, blockNumber := 0, offset := 0,
    count := 0, keyId := 0, tag := 0 }

/-- `Request.Valid_Object` as the pool calls it for its own requests. -/
def ownObject (op : RequestOperation) : Request :=
  { valid := true, operation := op, success := false, blockNumber := 0, offset := 0,
    count := 0, keyId := 0, tag := 0 }

/-- `Request.Equal`. -/
def Equal (r r' : Request) : Prop :=
  r.blockNumber = r'.blockNumber ∧ r.tag = r'.tag ∧ r.operation = r'.operation

instance (r r' : Request) : Decidable (r.Equal r') :=
  inferInstanceAs (Decidable (_ ∧ _ ∧ _))

end Request

/-- `Max_Number_Of_Requests_In_Pool`. -/
abbrev maxNumberOfRequestsInPool : ℕ := 16

/-- `Pool_Index_Type`. -/
abbrev PoolIndex := Fin maxNumberOfRequestsInPool

instance : NeZero maxNumberOfRequestsInPool := ⟨by decide⟩

/-- `Max_Nr_Of_Requests_Preponed_At_A_Time`. -/
def maxNrOfRequestsPreponedAtATime : ℕ := 8

/-- `Primitive_Operation_Type`. -/
inductive PrimitiveOperation where
  | read
  | write
  | sync
  deriving DecidableEq

/-- The tags of the primitives that the pool generates, of `Primitive.Tag_Type`. -/
inductive PoolTag where
  | invalid
  | poolVbd
  | sbCtrlInitRekey
  | sbCtrlRekeyVba
  | sbCtrlVbdExtStep
  | sbCtrlFtExtStep
  | sbCtrlCreateSnap
  | sbCtrlSync
  | sbCtrlDiscardSnap
  | sbCtrlInitialize
  | sbCtrlDeInitialize
  deriving DecidableEq

/-- `Primitive.Object_Type`. -/
structure Primitive where
  /-- Whether there is a primitive. -/
  valid : Bool
  /-- What is asked for. -/
  operation : PrimitiveOperation
  /-- Whether it has succeeded. -/
  success : Bool
  /-- The module that it is for. -/
  tag : PoolTag
  /-- The job that it is for. -/
  poolIdxSlot : Option PoolIndex
  /-- The virtual block address. -/
  blockNumber : ℕ
  /-- Its number in the request. -/
  index : ℕ
  deriving DecidableEq

namespace Primitive

/-- `Primitive.Invalid_Object`. -/
def invalidObject : Primitive :=
  { valid := false, operation := .read, success := false, tag := .invalid,
    poolIdxSlot := none, blockNumber := 0, index := 0 }

/-- `Primitive.Valid_Object` for a primitive of the superblock control: the
pool index and the tag, everything else the first value of its type. -/
def sbCtrl (tag : PoolTag) (idx : PoolIndex) : Primitive :=
  { valid := true, operation := .read, success := false, tag := tag,
    poolIdxSlot := some idx, blockNumber := 0, index := 0 }

/-- `Primitive.Equal`. -/
def Equal (p p' : Primitive) : Prop :=
  p.blockNumber = p'.blockNumber ∧ p.index = p'.index ∧ p.tag = p'.tag ∧
    p.poolIdxSlot = p'.poolIdxSlot ∧ p.operation = p'.operation

instance (p p' : Primitive) : Decidable (p.Equal p') :=
  inferInstanceAs (Decidable (_ ∧ _ ∧ _ ∧ _ ∧ _))

end Primitive

/-- `Job_State_Type`. -/
inductive PoolJobState where
  | invalid
  | pending
  | inProgress
  | submitted
  | submittedResumeRekeying
  | rekeyInitPending
  | rekeyInitInProgress
  | rekeyInitComplete
  | preponeRequestsPending
  | preponeRequestsComplete
  | vbdExtensionStepPending
  | vbdExtensionStepInProgress
  | vbdExtensionStepComplete
  | ftExtensionStepPending
  | ftExtensionStepInProgress
  | ftExtensionStepComplete
  | createSnapAtSbCtrlPending
  | createSnapAtSbCtrlInProgress
  | createSnapAtSbCtrlComplete
  | syncAtSbCtrlPending
  | syncAtSbCtrlInProgress
  | syncAtSbCtrlComplete
  | discardSnapAtSbCtrlPending
  | discardSnapAtSbCtrlInProgress
  | discardSnapAtSbCtrlComplete
  | rekeyVbaPending
  | rekeyVbaInProgress
  | rekeyVbaComplete
  | initializeSbCtrlPending
  | initializeSbCtrlInProgress
  | initializeSbCtrlComplete
  | deinitializeSbCtrlPending
  | deinitializeSbCtrlInProgress
  | deinitializeSbCtrlComplete
  | complete
  deriving DecidableEq

/-- The state of a job whose primitive has been taken, of `Drop_Generated_Primitive`. -/
def PoolJobState.dropped : PoolJobState → Option PoolJobState
  | .pending => some .inProgress
  | .syncAtSbCtrlPending => some .syncAtSbCtrlInProgress
  | .rekeyInitPending => some .rekeyInitInProgress
  | .rekeyVbaPending => some .rekeyVbaInProgress
  | .vbdExtensionStepPending => some .vbdExtensionStepInProgress
  | .ftExtensionStepPending => some .ftExtensionStepInProgress
  | .createSnapAtSbCtrlPending => some .createSnapAtSbCtrlInProgress
  | .discardSnapAtSbCtrlPending => some .discardSnapAtSbCtrlInProgress
  | .initializeSbCtrlPending => some .initializeSbCtrlInProgress
  | .deinitializeSbCtrlPending => some .deinitializeSbCtrlInProgress
  | _ => none

/-- `Job_Type`. -/
structure PoolJob where
  /-- How far the job has come. -/
  state : PoolJobState
  /-- The request. -/
  req : Request
  /-- The snapshot that it is for. -/
  snapId : ℕ
  /-- The primitive that it has generated. -/
  prim : Primitive
  /-- Whether the step was the last one. -/
  requestFinished : Bool
  /-- How many requests have overtaken it. -/
  nrOfRequestsPreponed : ℕ
  /-- How many of its primitives are complete. -/
  nrOfPrimsCompleted : ℕ
  /-- The state of the superblock that an initialization has found. -/
  sbState : SuperblockState
  /-- The generation of the snapshot that was created. -/
  gen : ℕ
  deriving DecidableEq

namespace PoolJob

/-- `Job_Invalid`. -/
def invalid : PoolJob :=
  { state := .invalid, req := Request.invalidObject, snapId := 0,
    prim := Primitive.invalidObject, requestFinished := false, nrOfRequestsPreponed := 0,
    nrOfPrimsCompleted := 0, sbState := .invalid, gen := 0 }

/-- `Job_Nr_Of_Prims`. -/
def nrOfPrims (job : PoolJob) : ℕ :=
  match job.req.operation with
  | .read | .write => job.req.count
  | _ => 1

/-- The state moves on. -/
def goto (job : PoolJob) (state : PoolJobState) : PoolJob := { job with state := state }

/-- A primitive is generated for the superblock control. -/
def generate (job : PoolJob) (idx : PoolIndex) (tag : PoolTag) (state : PoolJobState) : PoolJob :=
  { job with
    prim := Primitive.sbCtrl tag idx
    state := state }

/-- The primitive of the superblock control has completed. -/
def primDone (job : PoolJob) (success : Bool) (state : PoolJobState) : PoolJob :=
  { job with
    prim := { job.prim with success := success }
    state := state }

/-- The request has completed. -/
def done (job : PoolJob) (success : Bool) (offset : ℕ) : PoolJob :=
  { job with
    req := { job.req with
      success := success
      offset := offset }
    state := .complete }

/-- A primitive of a read or write has completed. -/
def countPrim (job : PoolJob) (success : Bool) : PoolJob :=
  { job with
    req := { job.req with success := success }
    nrOfPrimsCompleted := job.nrOfPrimsCompleted + 1 }

/-- A phase begins in which other requests may go first. -/
def beginPreponing (job : PoolJob) : PoolJob :=
  { job with
    nrOfRequestsPreponed := 0
    state := .preponeRequestsPending }

end PoolJob

/-- `Request_Pool.Object_Type`. -/
structure RequestPool where
  /-- The jobs. -/
  jobs : PoolIndex → PoolJob
  /-- The order in which they are served. -/
  indices : IndexQueue maxNumberOfRequestsInPool
  deriving DecidableEq

namespace RequestPool

/-- `Obj.Jobs (Idx) := Job`. -/
def setJob (pool : RequestPool) (idx : PoolIndex) (job : PoolJob) : RequestPool :=
  { pool with jobs := Function.update pool.jobs idx job }

@[simp] theorem setJob_indices (pool : RequestPool) (idx : PoolIndex) (job : PoolJob) :
    (pool.setJob idx job).indices = pool.indices := rfl

@[simp] theorem setJob_jobs_self (pool : RequestPool) (idx : PoolIndex) (job : PoolJob) :
    (pool.setJob idx job).jobs idx = job :=
  Function.update_self _ _ _

theorem setJob_jobs_of_ne (pool : RequestPool) {idx i : PoolIndex} (job : PoolJob) (h : i ≠ idx) :
    (pool.setJob idx job).jobs i = pool.jobs i :=
  Function.update_of_ne h _ _

/-- `Index_Queue.Enqueue (Obj.Indices, Idx)`. -/
def enqueue (pool : RequestPool) (idx : PoolIndex) : Option RequestPool :=
  (pool.indices.enqueue idx).map fun indices => { pool with indices := indices }

/-- `Index_Queue.Dequeue (Obj.Indices, Idx)`. -/
def dequeue (pool : RequestPool) (idx : PoolIndex) : Option RequestPool :=
  (pool.indices.dequeue idx).map fun indices => { pool with indices := indices }

/-! ## Admission

The queue is asked whether it is full, the jobs are searched for a free one. -/

/-- `Request_Acceptable`. -/
def RequestAcceptable (pool : RequestPool) : Prop := ¬ pool.indices.Full

instance (pool : RequestPool) : Decidable pool.RequestAcceptable :=
  inferInstanceAs (Decidable (¬ _))

/-- The first slot whose job is `Invalid`. -/
def firstInvalid (pool : RequestPool) : Option PoolIndex :=
  (List.finRange maxNumberOfRequestsInPool).find? fun idx =>
    decide ((pool.jobs idx).state = .invalid)

/-- `Submit_Request`. -/
def submitRequest (pool : RequestPool) (req : Request) (snapId : ℕ) : Option RequestPool :=
  match pool.firstInvalid with
  | none => none
  | some idx =>
    match req.operation with
    | .initializeRequest => none
    | .sync | .rekey | .extendVbd | .extendFt | .createSnapshot | .discardSnapshot
    | .deinitializeRequest =>
      (pool.setJob idx
        { pool.jobs idx with
          state := .submitted
          req := req
          snapId := snapId }).enqueue idx
    | .resumeRekeying =>
      (pool.setJob idx
        { pool.jobs idx with
          state := .submittedResumeRekeying
          req := Request.ownObject .rekey }).enqueue idx
    | .read | .write =>
      (pool.setJob idx
        { PoolJob.invalid with
          state := .pending
          req := { req with success := true }
          snapId := snapId }).enqueue idx

/-! ## The primitives that the head of the queue generates

Each peek looks at the head only, and a drop raises for any other slot. -/

/-- `Peek_Generated_VBD_Primitive`. -/
def peekGeneratedVbdPrimitive (pool : RequestPool) : Primitive :=
  match pool.indices.headItem with
  | none => Primitive.invalidObject
  | some idx =>
    let job := pool.jobs idx
    let prim (op : PrimitiveOperation) : Primitive :=
      { valid := true, operation := op, success := job.req.success, tag := .poolVbd,
        poolIdxSlot := some idx,
        blockNumber := (job.req.blockNumber + job.nrOfPrimsCompleted) % 2 ^ 64,
        index := job.nrOfPrimsCompleted }
    if job.state ≠ .pending then Primitive.invalidObject
    else match job.req.operation with
      | .read => prim .read
      | .write => prim .write
      | _ => Primitive.invalidObject

/-- `Drop_Generated_Primitive`. -/
def dropGeneratedPrimitive (pool : RequestPool) (idx : PoolIndex) : Option RequestPool :=
  if pool.indices.headItem = some idx then
    (pool.jobs idx).state.dropped.map fun state =>
      pool.setJob idx ((pool.jobs idx).goto state)
  else none

/-! ## Serving the head of the queue

`Execute` does what can be done without another module. -/

/-- The loop `Try_Prepone_Requests`: with the index before it has been tried
whether a request has gone first. The number of requests that have gone first
bounds the rounds. -/
def tryPreponeRequests (idx : PoolIndex) :
    ℕ → RequestPool → Bool → Option (RequestPool × Bool)
  | 0, pool, preponed => some (pool, preponed)
  | fuel + 1, pool, preponed =>
    if maxNrOfRequestsPreponedAtATime ≤ (pool.jobs idx).nrOfRequestsPreponed then
      some (pool, preponed)
    else
      (pool.indices.itemIsTail idx).bind fun isTail =>
        if isTail then some (pool, preponed)
        else
          (pool.indices.nextItem idx).bind fun nextIdx =>
            if (pool.jobs nextIdx).req.operation.MayBePreponed then
              (pool.indices.moveOneItemTowardsTail idx).bind fun indices =>
                tryPreponeRequests idx fuel
                  ({ pool with indices := indices }.setJob idx
                    { pool.jobs idx with
                      nrOfRequestsPreponed := (pool.jobs idx).nrOfRequestsPreponed + 1 })
                  true
            else some (pool, preponed)

/-- The branch `Prepone_Requests_Pending`. -/
def preponeRequests (pool : RequestPool) (idx : PoolIndex) : Option (RequestPool × Bool) :=
  (tryPreponeRequests idx maxNrOfRequestsPreponedAtATime pool false).map fun res =>
    if res.2 then (res.1, true)
    else (res.1.setJob idx ((res.1.jobs idx).goto .preponeRequestsComplete), true)

/-- The request completes and leaves the queue. -/
def finish (pool : RequestPool) (idx : PoolIndex) (job : PoolJob) : Option (RequestPool × Bool) :=
  ((pool.setJob idx job).dequeue idx).map fun pool => (pool, true)

/-- The job moves on. -/
def proceed (pool : RequestPool) (idx : PoolIndex) (job : PoolJob) : Option (RequestPool × Bool) :=
  some (pool.setJob idx job, true)

/-- The branch of a rekeying or an extension whose step has completed. -/
def stepCompleted (pool : RequestPool) (idx : PoolIndex) : Option (RequestPool × Bool) :=
  let job := pool.jobs idx
  if job.prim.success = false then none
  else if job.requestFinished then pool.finish idx (job.done true job.req.offset)
  else pool.proceed idx job.beginPreponing

/-- `Execute_Extend_VBD`. -/
def executeExtendVbd (pool : RequestPool) (idx : PoolIndex) : Option (RequestPool × Bool) :=
  let job := pool.jobs idx
  match job.state with
  | .submitted =>
    pool.proceed idx (job.generate idx .sbCtrlVbdExtStep .vbdExtensionStepPending)
  | .vbdExtensionStepComplete => pool.stepCompleted idx
  | .preponeRequestsPending => pool.preponeRequests idx
  | .preponeRequestsComplete =>
    pool.proceed idx (job.generate idx .sbCtrlVbdExtStep .vbdExtensionStepPending)
  | _ => some (pool, false)

/-- `Execute_Extend_FT`. -/
def executeExtendFt (pool : RequestPool) (idx : PoolIndex) : Option (RequestPool × Bool) :=
  let job := pool.jobs idx
  match job.state with
  | .submitted =>
    pool.proceed idx (job.generate idx .sbCtrlFtExtStep .ftExtensionStepPending)
  | .ftExtensionStepComplete => pool.stepCompleted idx
  | .preponeRequestsPending => pool.preponeRequests idx
  | .preponeRequestsComplete =>
    pool.proceed idx (job.generate idx .sbCtrlFtExtStep .ftExtensionStepPending)
  | _ => some (pool, false)

/-- `Execute_Rekey`. -/
def executeRekey (pool : RequestPool) (idx : PoolIndex) : Option (RequestPool × Bool) :=
  let job := pool.jobs idx
  match job.state with
  | .submitted => pool.proceed idx (job.generate idx .sbCtrlInitRekey .rekeyInitPending)
  | .submittedResumeRekeying =>
    pool.proceed idx { job.beginPreponing with prim := Primitive.invalidObject }
  | .rekeyInitComplete =>
    if job.prim.success = false then none else pool.proceed idx job.beginPreponing
  | .rekeyVbaComplete => pool.stepCompleted idx
  | .preponeRequestsPending => pool.preponeRequests idx
  | .preponeRequestsComplete =>
    pool.proceed idx (job.generate idx .sbCtrlRekeyVba .rekeyVbaPending)
  | _ => some (pool, false)

/-- `Execute_Sync`. -/
def executeSync (pool : RequestPool) (idx : PoolIndex) : Option (RequestPool × Bool) :=
  let job := pool.jobs idx
  match job.state with
  | .submitted => pool.proceed idx (job.generate idx .sbCtrlSync .syncAtSbCtrlPending)
  | .syncAtSbCtrlComplete =>
    if job.prim.success then pool.finish idx (job.done true job.gen)
    else pool.finish idx (job.done false job.req.offset)
  | _ => some (pool, false)

/-- `Execute_Create_Snapshot`. -/
def executeCreateSnapshot (pool : RequestPool) (idx : PoolIndex) :
    Option (RequestPool × Bool) :=
  let job := pool.jobs idx
  match job.state with
  | .submitted =>
    pool.proceed idx (job.generate idx .sbCtrlCreateSnap .createSnapAtSbCtrlPending)
  | .createSnapAtSbCtrlComplete =>
    if job.prim.success then pool.finish idx (job.done true job.gen)
    else pool.finish idx (job.done false job.req.offset)
  | _ => some (pool, false)

/-- `Execute_Discard_Snapshot`. -/
def executeDiscardSnapshot (pool : RequestPool) (idx : PoolIndex) :
    Option (RequestPool × Bool) :=
  let job := pool.jobs idx
  match job.state with
  | .submitted =>
    pool.proceed idx (job.generate idx .sbCtrlDiscardSnap .discardSnapAtSbCtrlPending)
  | .discardSnapAtSbCtrlComplete =>
    pool.finish idx (job.done job.prim.success job.req.offset)
  | _ => some (pool, false)

/-- `Execute_Deinitialize`. -/
def executeDeinitialize (pool : RequestPool) (idx : PoolIndex) :
    Option (RequestPool × Bool) :=
  let job := pool.jobs idx
  match job.state with
  | .submitted =>
    pool.proceed idx (job.generate idx .sbCtrlDeInitialize .deinitializeSbCtrlPending)
  | .deinitializeSbCtrlComplete =>
    if job.prim.success = false then none else pool.finish idx (job.done true job.req.offset)
  | _ => some (pool, false)

/-- A branch of `Execute_Initialize` that resumes what a restart has
interrupted: the slot of the initialization becomes that of the resumed
request and is enqueued. -/
def resume (pool : RequestPool) (idx : PoolIndex) (state : PoolJobState) (op : RequestOperation) :
    Option (RequestPool × Bool) :=
  ((pool.setJob idx
    { pool.jobs idx with
      state := state
      req := Request.ownObject op }).enqueue idx).map fun pool => (pool, true)

/-- `Execute_Initialize`. -/
def executeInitialize (pool : RequestPool) (idx : PoolIndex) : Option (RequestPool × Bool) :=
  let job := pool.jobs idx
  match job.state with
  | .submitted =>
    pool.proceed idx (job.generate idx .sbCtrlInitialize .initializeSbCtrlPending)
  | .initializeSbCtrlComplete =>
    if job.prim.success = false then none
    else match job.sbState with
      | .invalid => none
      | .normal => pool.finish idx PoolJob.invalid
      | .rekeying => pool.resume idx .submittedResumeRekeying .rekey
      | .extendingVbd => pool.resume idx .submitted .extendVbd
      | .extendingFt => pool.resume idx .submitted .extendFt
  | _ => some (pool, false)

/-- The case statement of `Execute`. -/
def executeJob (pool : RequestPool) (idx : PoolIndex) : Option (RequestPool × Bool) :=
  match (pool.jobs idx).req.operation with
  | .sync => pool.executeSync idx
  | .rekey => pool.executeRekey idx
  | .extendVbd => pool.executeExtendVbd idx
  | .extendFt => pool.executeExtendFt idx
  | .createSnapshot => pool.executeCreateSnapshot idx
  | .discardSnapshot => pool.executeDiscardSnapshot idx
  | .initializeRequest => pool.executeInitialize idx
  | .deinitializeRequest => pool.executeDeinitialize idx
  | .read | .write | .resumeRekeying => some (pool, false)

/-- `Execute`. -/
def execute (pool : RequestPool) : Option (RequestPool × Bool) :=
  match pool.indices.headItem with
  | none => some (pool, false)
  | some idx => pool.executeJob idx

/-! ## Completed primitives and requests

A completed primitive comes back with its result, a completed request waits for
the client. -/

/-- `Mark_Generated_Primitive_Complete_SB_State`. -/
def markGeneratedPrimitiveCompleteSbState (pool : RequestPool) (idx : PoolIndex)
    (success : Bool) (sbState : SuperblockState) : Option RequestPool :=
  let job := pool.jobs idx
  if pool.indices.headItem ≠ some idx then none
  else match job.req.operation, job.state with
    | .initializeRequest, .initializeSbCtrlInProgress =>
      some (pool.setJob idx
        { job.primDone success .initializeSbCtrlComplete with sbState := sbState })
    | _, _ => none

/-- `Mark_Generated_Primitive_Complete`. -/
def markGeneratedPrimitiveComplete (pool : RequestPool) (idx : PoolIndex) (success : Bool) :
    Option RequestPool :=
  let job := pool.jobs idx
  if pool.indices.headItem ≠ some idx then none
  else match job.req.operation, job.state with
    | .sync, .syncAtSbCtrlInProgress =>
      some (pool.setJob idx (job.primDone success .syncAtSbCtrlComplete))
    | .discardSnapshot, .discardSnapAtSbCtrlInProgress =>
      some (pool.setJob idx (job.primDone success .discardSnapAtSbCtrlComplete))
    | .rekey, .rekeyInitInProgress =>
      some (pool.setJob idx (job.primDone success .rekeyInitComplete))
    | .deinitializeRequest, .deinitializeSbCtrlInProgress =>
      some (pool.setJob idx (job.primDone success .deinitializeSbCtrlComplete))
    | .read, .inProgress | .write, .inProgress =>
      let counted := job.countPrim success
      if counted.nrOfPrimsCompleted < counted.nrOfPrims then
        some (pool.setJob idx (counted.goto .pending))
      else (pool.setJob idx (counted.goto .complete)).dequeue idx
    | _, _ => none

/-- `Mark_Generated_Primitive_Complete_Gen`. -/
def markGeneratedPrimitiveCompleteGen (pool : RequestPool) (idx : PoolIndex)
    (success : Bool) (gen : ℕ) : Option RequestPool :=
  let job := pool.jobs idx
  if pool.indices.headItem ≠ some idx then none
  else match job.req.operation, job.state with
    | .createSnapshot, .createSnapAtSbCtrlInProgress =>
      some (pool.setJob idx
        { job.primDone success .createSnapAtSbCtrlComplete with gen := gen })
    | _, _ => none

/-- `Mark_Generated_Primitive_Complete_Req_Fin`. -/
def markGeneratedPrimitiveCompleteReqFin (pool : RequestPool) (idx : PoolIndex)
    (success requestFinished : Bool) : Option RequestPool :=
  let job := pool.jobs idx
  let finished (state : PoolJobState) : PoolJob :=
    { job.primDone success state with requestFinished := requestFinished }
  if pool.indices.headItem ≠ some idx then none
  else match job.req.operation, job.state with
    | .rekey, .rekeyVbaInProgress => some (pool.setJob idx (finished .rekeyVbaComplete))
    | .extendVbd, .vbdExtensionStepInProgress =>
      some (pool.setJob idx (finished .vbdExtensionStepComplete))
    | .extendFt, .ftExtensionStepInProgress =>
      some (pool.setJob idx (finished .ftExtensionStepComplete))
    | _, _ => none

/-- `Request_For_Index`. It raises for an invalid job. -/
def requestForIndex (pool : RequestPool) (idx : PoolIndex) : Option Request :=
  if (pool.jobs idx).state = .invalid then none else some (pool.jobs idx).req

/-- `Peek_Completed_Request`. -/
def peekCompletedRequest (pool : RequestPool) : Request :=
  match (List.finRange maxNumberOfRequestsInPool).find? fun idx =>
      decide ((pool.jobs idx).state = .complete) with
  | some idx => (pool.jobs idx).req
  | none => Request.invalidObject

/-- `Drop_Completed_Request`. -/
def dropCompletedRequest (pool : RequestPool) (req : Request) : Option RequestPool :=
  match (List.finRange maxNumberOfRequestsInPool).find? fun idx =>
      decide ((pool.jobs idx).req.valid = true ∧ (pool.jobs idx).req.Equal req) with
  | none => none
  | some idx =>
    if (pool.jobs idx).state ≠ .complete then none else some (pool.setJob idx PoolJob.invalid)

/-- The pool without requests. -/
def empty : RequestPool where
  jobs _ := PoolJob.invalid
  indices := IndexQueue.emptyQueue _

/-- `Initialized_Object`: the pool starts with an initialization in its first
slot. The queue of 16 slots takes its index. -/
def initializedObject : RequestPool :=
  let pool := empty.setJob 0
    { PoolJob.invalid with
      state := .submitted
      req := Request.ownObject .initializeRequest }
  (pool.enqueue 0).getD pool

/-! ## Runs of the pool

The calls as actions, for any client and any modules. -/

/-- What the library does with the pool. -/
inductive PoolAction where
  | submit (req : Request) (snapId : ℕ)
  | execute
  | dropGenerated (idx : PoolIndex)
  | markComplete (idx : PoolIndex) (success : Bool)
  | markCompleteReqFin (idx : PoolIndex) (success requestFinished : Bool)
  | markCompleteSbState (idx : PoolIndex) (success : Bool) (sbState : SuperblockState)
  | markCompleteGen (idx : PoolIndex) (success : Bool) (gen : ℕ)
  | dropCompleted (req : Request)
  deriving DecidableEq

/-- One call of the library. It raises where the procedure raises. -/
def step (pool : RequestPool) : PoolAction → Option RequestPool
  | .submit req snapId => pool.submitRequest req snapId
  | .execute => pool.execute.map Prod.fst
  | .dropGenerated idx => pool.dropGeneratedPrimitive idx
  | .markComplete idx success => pool.markGeneratedPrimitiveComplete idx success
  | .markCompleteReqFin idx success requestFinished =>
    pool.markGeneratedPrimitiveCompleteReqFin idx success requestFinished
  | .markCompleteSbState idx success sbState =>
    pool.markGeneratedPrimitiveCompleteSbState idx success sbState
  | .markCompleteGen idx success gen => pool.markGeneratedPrimitiveCompleteGen idx success gen
  | .dropCompleted req => pool.dropCompletedRequest req

end RequestPool

end Cbe
