import Cbe.BlockIo
import Cbe.Support.Runs

/-!
# The I/O jobs of the file system

The plugin of the file system serves the block I/O of the library through a
file: it takes a pending entry as a job (`IoJob`), which reads, writes or
synchronizes the file in as many calls as the file takes, and completes the
entry. The job and the entry have a state each; the job tells the library when
it begins and when it ends.

The answers of the file are the inputs of a run (`FileAnswer`). As long as each
transfer is whole, the entry moves once from pending to in progress and once to
complete, with success only when the whole block was transferred
(`IoWorld.served_of_run`). After a partial transfer, the job goes back to its
first state and begins again, which the library does not admit for an entry in
progress (`IoWorld.handleCbeBackend_partial`).

`InStep` has a case for each state of the entry: without a job, with a job that
has not begun, with one that has begun, and complete with the job gone. One call
of the plugin leads from a case to the next or leaves it, and it leaves it when
the file says to try again. The record of a run is kept beside the state: which
states the job told the library, what was transferred, and whether the file
failed. It starts anew with each primitive that is submitted.

After a partial transfer the two are out of step: the job is in its first state,
the entry in progress. The next call of the plugin for which the file accepts
the operation makes the library raise.
-/

namespace Cbe

/-- `Io_job::State`. -/
inductive IoJobState where
  | pending
  | inProgress
  | complete
  deriving DecidableEq

/-- `Read_result`, with the number of bytes that were read. -/
inductive FileReadResult where
  | ok (out : ℕ)
  | queued
  | errInterrupt
  | errAgain
  | errWouldBlock
  | errIo
  | errInvalid
  deriving DecidableEq

/-- `Write_result`, with the number of bytes that were written; the exception
`Insufficient_buffer` is one more result. -/
inductive FileWriteResult where
  | ok (out : ℕ)
  | errInterrupt
  | errAgain
  | errWouldBlock
  | errIo
  | errInvalid
  | insufficientBuffer
  deriving DecidableEq

/-- `Sync_result`. -/
inductive FileSyncResult where
  | ok
  | queued
  | errInvalid
  deriving DecidableEq

/-- **What the file answers** in one call of a job, to each question that the job
may ask. -/
structure FileAnswer where
  /-- Whether a read is accepted. -/
  queueRead : Bool
  /-- What becomes of a read. -/
  completeRead : FileReadResult
  /-- What becomes of a write. -/
  write : FileWriteResult
  /-- Whether a sync is accepted. -/
  queueSync : Bool
  /-- What becomes of a sync. -/
  completeSync : FileSyncResult

/-- What a job makes of a result: try again, go on after some bytes, or end with
an error. -/
inductive TransferResult where
  | again
  | moved (out : ℕ)
  | error
  deriving DecidableEq

/-- The cases of `_read`. -/
def FileReadResult.transfer : FileReadResult → TransferResult
  | .queued | .errInterrupt | .errAgain | .errWouldBlock => .again
  | .ok out => .moved out
  | .errIo | .errInvalid => .error

/-- The cases of `_write`. -/
def FileWriteResult.transfer : FileWriteResult → TransferResult
  | .errInterrupt | .errAgain | .errWouldBlock | .insufficientBuffer => .again
  | .ok out => .moved out
  | .errIo | .errInvalid => .error

/-- **`Io_job`.** -/
structure IoJob where
  /-- The operation. -/
  op : RequestOperation
  /-- The entry that it is for. -/
  index : DataIndex
  /-- How far the job has come. -/
  state : IoJobState
  /-- The offset of the block in the file. -/
  baseOffset : ℕ
  /-- How many bytes were moved. -/
  currentOffset : ℕ
  /-- How many bytes are left. -/
  currentCount : ℕ
  /-- Whether it has succeeded. -/
  success : Bool
  /-- Whether it has come to its end. -/
  complete : Bool

/-- A stretch of bytes that was transferred between the file and the data block of
an entry. -/
structure Transfer where
  /-- Where it begins in the file. -/
  fileOffset : ℕ
  /-- Where it begins in the data block. -/
  bufferOffset : ℕ
  /-- How many bytes it moves. -/
  length : ℕ
  deriving DecidableEq

/-- **The block I/O of the library with the plugin at its backend.** The last three
fields are a record of what happened since the entry was submitted: the states the
job moved it to, the bytes transferred, and whether the file reported an error. -/
structure IoWorld where
  /-- The block I/O. -/
  io : BlockIoObject
  /-- The job of the plugin. -/
  backendJob : Option IoJob
  /-- The position of the file. -/
  seek : ℕ
  /-- The states that the entry was moved to. -/
  moves : List BlockIoEntryState
  /-- What was transferred for it. -/
  transfers : List Transfer
  /-- Whether the file has reported an error. -/
  error : Bool

/-- `Prim_Op_To_Req_Op`. -/
def primOpToReqOp : PrimitiveOperation → RequestOperation
  | .read => .read
  | .write => .write
  | .sync => .sync

/-- The request to the backend for a primitive. -/
def ioRequest (prim : IoPrimitive) : Request where
  valid := true
  operation := primOpToReqOp prim.operation
  success := false
  blockNumber := prim.blockNumber
  offset := 0
  count := 1
  keyId := 0
  tag := 0

/-- `Has_IO_Request`. -/
def hasIoRequest (io : BlockIoObject) : Option (Request × DataIndex) :=
  let prim := io.peekGeneratedPrimitive
  if prim.valid = true then (io.peekGeneratedDataIndex prim).map fun idx => (ioRequest prim, idx)
  else some (Request.invalidObject, 0)

namespace IoJob

/-- `_initial_state`; it throws for an operation that is not of the backend. -/
def initialState : RequestOperation → Option IoJobState
  | .read | .write | .sync => some .pending
  | _ => none

/-- The constructor of `Io_job`. -/
def construct (op : RequestOperation) (index : DataIndex) (baseOffset length : ℕ) :
    Option IoJob :=
  (initialState op).map fun state =>
    { op := op, index := index, state := state, baseOffset := baseOffset, currentOffset := 0,
      currentCount := length, success := false, complete := false }

variable (job : IoJob) (w : IoWorld)

/-- `State::COMPLETE`, the same in all three. -/
def completeState : Option (Bool × IoWorld × IoJob) :=
  (w.io.markGeneratedPrimitiveComplete job.index job.success).map fun io =>
    (true, { w with io := io, moves := w.moves ++ [.complete] }, { job with complete := true })

/-- `State::IN_PROGRESS` of `_read` and `_write`. The number of bytes left is a
64-bit one. -/
def transferState (result : TransferResult) (progress : Bool) :
    Option (Bool × IoWorld × IoJob) :=
  match result with
  | .again => some (progress, w, job)
  | .moved out =>
    let w := { w with transfers := w.transfers ++ [⟨w.seek, job.currentOffset, out⟩] }
    let job := { job with
      currentOffset := job.currentOffset + out
      currentCount := (job.currentCount + (2 ^ 64 - out % 2 ^ 64)) % 2 ^ 64
      success := true }
    if job.currentCount = 0 then { job with state := .complete }.completeState w
    else some (true, w, { job with state := .pending })
  | .error =>
    { job with success := false, state := .complete }.completeState { w with error := true }

/-- `State::IN_PROGRESS` of `_sync`. -/
def syncState (result : FileSyncResult) (progress : Bool) : Option (Bool × IoWorld × IoJob) :=
  match result with
  | .queued => some (progress, w, job)
  | .errInvalid =>
    { job with success := false, state := .complete }.completeState { w with error := true }
  | .ok => { job with success := true, state := .complete }.completeState w

/-- `_handle.seek`, of the 64-bit sum. -/
def seekFile : IoWorld := { w with seek := (job.baseOffset + job.currentOffset) % 2 ^ 64 }

/-- The library is told that the job is in progress. -/
def ioRequestInProgress : Option (IoWorld × IoJob) :=
  (w.io.dropGeneratedPrimitive2 job.index).map fun io =>
    ({ w with io := io, moves := w.moves ++ [.inProgress] }, { job with state := .inProgress })

/-- **`_read`.** -/
def read (ans : FileAnswer) : Option (Bool × IoWorld × IoJob) :=
  match job.state with
  | .pending =>
    let w := job.seekFile w
    if ans.queueRead = false then some (false, w, job)
    else (job.ioRequestInProgress w).bind fun (w, job) =>
      job.transferState w ans.completeRead.transfer true
  | .inProgress => job.transferState w ans.completeRead.transfer false
  | .complete => job.completeState w

/-- **`_write`**, which does not queue. -/
def write (ans : FileAnswer) : Option (Bool × IoWorld × IoJob) :=
  match job.state with
  | .pending =>
    (job.ioRequestInProgress (job.seekFile w)).bind fun (w, job) =>
      job.transferState w ans.write.transfer true
  | .inProgress => job.transferState w ans.write.transfer false
  | .complete => job.completeState w

/-- **`_sync`.** -/
def sync (ans : FileAnswer) : Option (Bool × IoWorld × IoJob) :=
  match job.state with
  | .pending =>
    if ans.queueSync = false then some (false, w, job)
    else (job.ioRequestInProgress w).bind fun (w, job) => job.syncState w ans.completeSync true
  | .inProgress => job.syncState w ans.completeSync false
  | .complete => job.completeState w

/-- `execute`. -/
def execute (ans : FileAnswer) : Option (Bool × IoWorld × IoJob) :=
  match job.op with
  | .read => job.read w ans
  | .write => job.write w ans
  | .sync => job.sync w ans
  | _ => some (false, w, job)

end IoJob

/-- The offset in the file of a block, a 64-bit product. -/
def backendOffset (blockNumber : ℕ) : ℕ := blockNumber * blockSize % 2 ^ 64

namespace IoWorld

variable (w : IoWorld)

/-- **`_handle_cbe_backend`.** The job is destructed when it has completed. -/
def handleCbeBackend (ans : FileAnswer) : Option (Bool × IoWorld) :=
  (hasIoRequest w.io).bind fun (cbeRequest, dataIndex) =>
    (if cbeRequest.valid = true ∧ w.backendJob = none then
      (IoJob.construct cbeRequest.operation dataIndex (backendOffset cbeRequest.blockNumber)
        (cbeRequest.count * blockSize)).map some
    else some w.backendJob).bind fun backendJob =>
      match backendJob with
      | none => some (false, w)
      | some job => (job.execute w ans).map fun (progress, w, job) =>
          (progress, { w with backendJob := if job.complete = true then none else some job })

/-- The library has submitted a primitive: the record begins anew. -/
def submitted (io : BlockIoObject) : IoWorld :=
  { w with io := io, moves := [], transfers := [], error := false }

/-- The library submits a primitive only when one is acceptable. -/
def submitIfAcceptable (res : Option (BlockIoObject × DataIndex)) : Option IoWorld :=
  if w.io.PrimitiveAcceptable then res.map fun (io, _) => w.submitted io else some w

end IoWorld

/-- **What happens at the block I/O**: a call of the plugin with the answer of the
file, or a step of the library, which submits a primitive in one of three ways or
takes the completed one. -/
inductive IoAction where
  | backend (ans : FileAnswer)
  | submit (tag : IoTag) (prim : IoPrimitive)
  | submitDecrypt (prim : IoPrimitive) (hash : Hash) (keyId : ℕ)
  | submitDataIndex (tag : IoTag) (prim : IoPrimitive)
  | take

/-- **One step.** The library raises when it takes a primitive that has failed. -/
def IoWorld.step (w : IoWorld) : IoAction → Option IoWorld
  | .backend ans => (w.handleCbeBackend ans).map Prod.snd
  | .submit tag prim => w.submitIfAcceptable (w.io.submitPrimitive tag prim)
  | .submitDecrypt prim hash keyId =>
    w.submitIfAcceptable (w.io.submitPrimitiveDecrypt prim hash keyId)
  | .submitDataIndex tag prim => w.submitIfAcceptable (w.io.submitPrimitiveDataIndex tag prim)
  | .take =>
    let prim := w.io.peekCompletedPrimitive
    if prim.valid = false then some w
    else if prim.success = false then none
    else some { w with io := w.io.dropCompletedPrimitive prim }

/-! ## A job and its entry in step

What a job does is put as one function of the operation, so that reads, writes
and syncs are gone through together. -/

/-- The file accepts to read or to synchronize; nobody asks before a write. -/
def FileAnswer.queued (ans : FileAnswer) : PrimitiveOperation → Bool
  | .read => ans.queueRead
  | .write => true
  | .sync => ans.queueSync

/-- What the file answers to an operation. A file that was synchronized has moved
no bytes. -/
def FileAnswer.result (ans : FileAnswer) : PrimitiveOperation → TransferResult
  | .read => ans.completeRead.transfer
  | .write => ans.write.transfer
  | .sync =>
    match ans.completeSync with
    | .queued => .again
    | .ok => .moved 0
    | .errInvalid => .error

/-- The number of bytes that an operation moves. -/
def operationSize : PrimitiveOperation → ℕ
  | .read | .write => blockSize
  | .sync => 0

/-- **The answer is not a partial transfer** for an operation. -/
def FileAnswer.Whole (ans : FileAnswer) (op : PrimitiveOperation) : Prop :=
  ∀ out, ans.result op = .moved out → out = operationSize op

namespace IoJob

/-- The job of a primitive, when it begins. -/
def fresh (prim : IoPrimitive) : IoJob :=
  { op := primOpToReqOp prim.operation
    index := 0
    state := .pending
    baseOffset := backendOffset prim.blockNumber
    currentOffset := 0
    currentCount := blockSize
    success := false
    complete := false }

/-- The job of a primitive, when it has begun. -/
def begun (prim : IoPrimitive) : IoJob := { fresh prim with state := .inProgress }

/-- `State::IN_PROGRESS`, by the operation. -/
def resultState (prim : IoPrimitive) (w : IoWorld) (ans : FileAnswer) (progress : Bool) :
    Option (Bool × IoWorld × IoJob) :=
  match prim.operation with
  | .read => (begun prim).transferState w ans.completeRead.transfer progress
  | .write => (begun prim).transferState w ans.write.transfer progress
  | .sync => (begun prim).syncState w ans.completeSync progress

/-- A job that has begun goes on with the answer. -/
theorem execute_begun (prim : IoPrimitive) (w : IoWorld) (ans : FileAnswer) :
    (begun prim).execute w ans = resultState prim w ans false := by
  unfold execute resultState begun fresh
  cases prim.operation <;> rfl

/-- The state before the job asks the file. -/
def asking (prim : IoPrimitive) (w : IoWorld) : IoWorld :=
  if prim.operation = .sync then w else { w with seek := backendOffset prim.blockNumber }

/-- To ask leaves the block I/O alone. -/
@[simp] theorem asking_io (prim : IoPrimitive) (w : IoWorld) : (asking prim w).io = w.io := by
  unfold asking
  split_ifs <;> rfl

/-- It moves the entry to no state. -/
@[simp] theorem asking_moves (prim : IoPrimitive) (w : IoWorld) :
    (asking prim w).moves = w.moves := by
  unfold asking
  split_ifs <;> rfl

/-- It transfers nothing. -/
@[simp] theorem asking_transfers (prim : IoPrimitive) (w : IoWorld) :
    (asking prim w).transfers = w.transfers := by
  unfold asking
  split_ifs <;> rfl

/-- It is no error. -/
@[simp] theorem asking_error (prim : IoPrimitive) (w : IoWorld) :
    (asking prim w).error = w.error := by
  unfold asking
  split_ifs <;> rfl

/-- A job seeks the block of its primitive. -/
theorem seekFile_fresh (prim : IoPrimitive) (w : IoWorld) :
    (fresh prim).seekFile w = { w with seek := backendOffset prim.blockNumber } := by
  unfold seekFile fresh backendOffset
  rw [Nat.add_zero, Nat.mod_mod]

/-- **A job that begins** asks the file, tells the library when it was accepted, and
goes on with the answer. -/
theorem execute_fresh (prim : IoPrimitive) (w : IoWorld) (ans : FileAnswer) :
    (fresh prim).execute w ans
      = if ans.queued prim.operation = false then some (false, asking prim w, fresh prim)
        else ((fresh prim).ioRequestInProgress (asking prim w)).bind fun (w, _) =>
          resultState prim w ans true := by
  have hseek := seekFile_fresh prim w
  cases hop : prim.operation with
  | read =>
    have hask : asking prim w = (fresh prim).seekFile w := by
      rw [hseek]
      exact if_neg (by rw [hop]; decide)
    have hrun : (fresh prim).execute w ans = (fresh prim).read w ans := by
      unfold execute fresh
      rw [hop]
      rfl
    rw [hrun, hask]
    show (if ans.queueRead = false then some (false, (fresh prim).seekFile w, fresh prim)
      else _) = if ans.queueRead = false then _ else _
    refine if_congr Iff.rfl rfl ?_
    unfold ioRequestInProgress resultState
    rw [hop, Option.bind_map, Option.bind_map]
    rfl
  | write =>
    have hask : asking prim w = (fresh prim).seekFile w := by
      rw [hseek]
      exact if_neg (by rw [hop]; decide)
    have hrun : (fresh prim).execute w ans = (fresh prim).write w ans := by
      unfold execute fresh
      rw [hop]
      rfl
    rw [hrun, hask]
    show Option.bind _ _ = if true = false then _ else _
    rw [if_neg (by decide)]
    unfold ioRequestInProgress resultState
    rw [hop, Option.bind_map, Option.bind_map]
    rfl
  | sync =>
    have hask : asking prim w = w := if_pos hop
    have hrun : (fresh prim).execute w ans = (fresh prim).sync w ans := by
      unfold execute fresh
      rw [hop]
      rfl
    rw [hrun, hask]
    show (if ans.queueSync = false then some (false, w, fresh prim) else _)
      = if ans.queueSync = false then _ else _
    refine if_congr Iff.rfl rfl ?_
    unfold ioRequestInProgress resultState
    rw [hop, Option.bind_map, Option.bind_map]
    rfl

end IoJob

namespace IoWorld

/-- The entry of the block I/O. -/
def entry (w : IoWorld) : BlockIoEntry := w.io.entries 0

/-- The primitive of the entry. -/
def prim (w : IoWorld) : IoPrimitive := w.entry.prim

/-- **A completion**: the entry of a world is complete in the next one, with a
result, after transfers and perhaps an error of the file. -/
structure Completes (w w' : IoWorld) (success : Bool) (transfers : List Transfer) (error : Bool) :
    Prop where
  /-- The entry is complete, with the result. -/
  entry : w'.entry = { w.entry with prim := { w.prim with success := success }, state := .complete }
  /-- The job has moved it there. -/
  moves : w'.moves = w.moves ++ [.complete]
  /-- The transfers were made before. -/
  transfers : w'.transfers = w.transfers ++ transfers
  /-- The file has reported an error, or has not. -/
  error : w'.error = error

end IoWorld

namespace IoJob

/-- The last state completes an entry in progress. -/
theorem completeState_spec (job : IoJob) (w : IoWorld) (h : w.entry.state = .inProgress) :
    ∃ w', job.completeState w = some (true, w', { job with complete := true })
      ∧ w.Completes w' job.success [] w.error := by
  obtain ⟨io', hrun, hentry⟩ :=
    BlockIoObject.markGeneratedPrimitiveComplete_spec job.index job.success h
  unfold completeState
  rw [hrun]
  exact ⟨_, rfl, hentry, rfl, (List.append_nil _).symm, rfl⟩

/-- A completion after a transfer or an error that was noted before. -/
theorem completes_of_noted {w w' : IoWorld} {success : Bool} {ts : List Transfer} {error : Bool}
    (h : IoWorld.Completes { w with transfers := w.transfers ++ ts, error := error } w' success []
      error) : w.Completes w' success ts error where
  entry := h.entry
  moves := h.moves
  transfers := by
    rw [h.transfers, List.append_nil]
  error := h.error

/-- What a whole answer moves: a block between the offset of the file and the
beginning of the data, or nothing. -/
def wholeTransfers (prim : IoPrimitive) (w : IoWorld) : List Transfer :=
  if prim.operation = .sync then [] else [⟨w.seek, 0, blockSize⟩]

/-- After a transfer of the whole block there is nothing left. -/
theorem transferState_whole (prim : IoPrimitive) (w : IoWorld) (progress : Bool) :
    (begun prim).transferState w (.moved blockSize) progress
      = IoJob.completeState
        { begun prim with
          currentOffset := 0 + blockSize
          currentCount := 0
          success := true
          state := .complete }
        { w with transfers := w.transfers ++ [⟨w.seek, 0, blockSize⟩] } := by
  have hleft : (blockSize + (2 ^ 64 - blockSize % 2 ^ 64)) % 2 ^ 64 = 0 := by decide
  unfold transferState
  dsimp only
  rw [show (begun prim).currentCount = blockSize from rfl, hleft, if_pos rfl]
  rfl

/-- A transfer of the whole block completes a job. -/
theorem transferState_begun {prim : IoPrimitive} {w : IoWorld} {result : TransferResult}
    {progress : Bool} (hop : prim.operation ≠ .sync) (hstate : w.entry.state = .inProgress)
    (hwhole : ∀ out, result = .moved out → out = blockSize) :
    (result = .again
        ∧ (begun prim).transferState w result progress = some (progress, w, begun prim))
      ∨ ∃ w' job, (begun prim).transferState w result progress = some (true, w', job)
        ∧ job.complete = true
        ∧ ((∃ out, result = .moved out) ∧ w.Completes w' true (wholeTransfers prim w) w.error
          ∨ result = .error ∧ w.Completes w' false [] true) := by
  cases result with
  | again => exact Or.inl ⟨rfl, rfl⟩
  | moved out =>
    obtain rfl := hwhole out rfl
    have hts : wholeTransfers prim w = [⟨w.seek, 0, blockSize⟩] := if_neg hop
    obtain ⟨w', hrun, hc⟩ := completeState_spec
      { begun prim with
        currentOffset := 0 + blockSize
        currentCount := 0
        success := true
        state := .complete }
      { w with transfers := w.transfers ++ [⟨w.seek, 0, blockSize⟩] } hstate
    rw [hts, transferState_whole]
    exact Or.inr ⟨w', _, hrun, rfl, Or.inl ⟨⟨blockSize, rfl⟩, completes_of_noted hc⟩⟩
  | error =>
    obtain ⟨w', hrun, hc⟩ := completeState_spec
      { begun prim with success := false, state := .complete }
      { w with transfers := w.transfers ++ [], error := true } hstate
    rw [List.append_nil] at hrun
    exact Or.inr ⟨w', _, hrun, rfl, Or.inr ⟨rfl, completes_of_noted hc⟩⟩

/-- **A job that has begun waits or completes.** -/
theorem resultState_spec {prim : IoPrimitive} {w : IoWorld} {ans : FileAnswer} (progress : Bool)
    (hstate : w.entry.state = .inProgress) (hwhole : ans.Whole prim.operation) :
    (ans.result prim.operation = .again
        ∧ resultState prim w ans progress = some (progress, w, begun prim))
      ∨ ∃ w' job, resultState prim w ans progress = some (true, w', job)
        ∧ job.complete = true
        ∧ ((∃ out, ans.result prim.operation = .moved out)
            ∧ w.Completes w' true (wholeTransfers prim w) w.error
          ∨ ans.result prim.operation = .error ∧ w.Completes w' false [] true) := by
  unfold resultState
  cases hop : prim.operation with
  | read =>
    rw [hop] at hwhole
    exact transferState_begun (by rw [hop]; decide) hstate hwhole
  | write =>
    rw [hop] at hwhole
    exact transferState_begun (by rw [hop]; decide) hstate hwhole
  | sync =>
    have hts : wholeTransfers prim w = [] := if_pos hop
    rw [hts]
    unfold FileAnswer.result
    dsimp only
    cases ans.completeSync with
    | queued => exact Or.inl ⟨rfl, rfl⟩
    | ok =>
      obtain ⟨w', hrun, hc⟩ := completeState_spec
        { begun prim with success := true, state := .complete } w hstate
      exact Or.inr ⟨w', _, hrun, rfl, Or.inl ⟨⟨0, rfl⟩, hc⟩⟩
    | errInvalid =>
      obtain ⟨w', hrun, hc⟩ := completeState_spec
        { begun prim with success := false, state := .complete }
        { w with transfers := w.transfers ++ [], error := true } hstate
      rw [List.append_nil] at hrun
      exact Or.inr ⟨w', _, hrun, rfl, Or.inr ⟨rfl, completes_of_noted hc⟩⟩

/-- The library admits that a job of a pending entry begins. -/
theorem ioRequestInProgress_spec (job : IoJob) {w : IoWorld} (h : w.entry.state = .pending) :
    ∃ w', job.ioRequestInProgress w = some (w', { job with state := .inProgress })
      ∧ w'.entry = { w.entry with state := .inProgress } ∧ w'.moves = w.moves ++ [.inProgress]
      ∧ w'.transfers = w.transfers ∧ w'.error = w.error ∧ w'.seek = w.seek := by
  obtain ⟨io', hrun, hentry⟩ := BlockIoObject.dropGeneratedPrimitive2_spec job.index h
  unfold ioRequestInProgress
  rw [hrun]
  exact ⟨_, rfl, hentry, rfl, rfl, rfl, rfl⟩

end IoJob

namespace IoWorld

/-- The bytes of the file and of the data block that were transferred, in pairs of
offsets. -/
def bytes (w : IoWorld) : List (ℕ × ℕ) :=
  w.transfers.flatMap fun t =>
    (List.range t.length).map fun i => (t.fileOffset + i, t.bufferOffset + i)

/-- **Every byte of the block once**, between the file and the same offset of the
data block. -/
def wholeBlock (prim : IoPrimitive) : List (ℕ × ℕ) :=
  (List.range (operationSize prim.operation)).map fun i => (backendOffset prim.blockNumber + i, i)

/-- **A job and its entry are in step.** -/
inductive InStep (w : IoWorld) : Prop
  | unused (hstate : w.entry.state = .unused) (hjob : w.backendJob = none)
  | pending (hentry : BlockIoObject.Fresh w.entry) (hmoves : w.moves = [])
      (htransfers : w.transfers = [])
      (herror : w.error = false)
      (hjob : w.backendJob = none ∨ w.backendJob = some (IoJob.fresh w.prim))
  | inProgress (hstate : w.entry.state = .inProgress) (hmoves : w.moves = [.inProgress])
      (htransfers : w.transfers = []) (herror : w.error = false)
      (hjob : w.backendJob = some (IoJob.begun w.prim))
      (hseek : w.prim.operation = .sync ∨ w.seek = backendOffset w.prim.blockNumber)
  | complete (hstate : w.entry.state = .complete) (hmoves : w.moves = [.inProgress, .complete])
      (hjob : w.backendJob = none)
      (hwhole : w.prim.success = true → w.bytes = wholeBlock w.prim)
      (hfailed : w.error = true → w.prim.success = false)

/-- Nothing is requested of the backend. -/
theorem hasIoRequest_none {w : IoWorld} (h : w.entry.state ≠ .pending) :
    hasIoRequest w.io = some (Request.invalidObject, 0) := by
  have hpeek : w.io.peekGeneratedPrimitive = IoPrimitive.invalidObject := by
    rw [BlockIoObject.peekGenerated_eq]
    exact if_neg h
  unfold hasIoRequest
  rw [hpeek]
  rfl

/-- A call without anything to do. -/
theorem handleCbeBackend_idle {w : IoWorld} (h : w.entry.state ≠ .pending)
    (hjob : w.backendJob = none) (ans : FileAnswer) : w.handleCbeBackend ans = some (false, w) := by
  unfold handleCbeBackend
  rw [hasIoRequest_none h, hjob]
  rfl

/-- A call with a job that has begun. -/
theorem handleCbeBackend_begun {w : IoWorld} (h : w.entry.state = .inProgress)
    (hjob : w.backendJob = some (IoJob.begun w.prim)) (ans : FileAnswer) :
    w.handleCbeBackend ans = (IoJob.resultState w.prim w ans false).map
      fun (progress, w, job) =>
        (progress, { w with backendJob := if job.complete = true then none else some job }) := by
  unfold handleCbeBackend
  rw [hasIoRequest_none (by rw [h]; decide), hjob, ← IoJob.execute_begun]
  rfl

/-- A call with a pending entry: the job is constructed, unless it was before. -/
theorem handleCbeBackend_fresh {w : IoWorld} (h : BlockIoObject.Fresh w.entry)
    (hjob : w.backendJob = none ∨ w.backendJob = some (IoJob.fresh w.prim)) (ans : FileAnswer) :
    w.handleCbeBackend ans = ((IoJob.fresh w.prim).execute w ans).map
      fun (progress, w, job) =>
        (progress, { w with backendJob := if job.complete = true then none else some job }) := by
  have hreq : hasIoRequest w.io = some (ioRequest w.prim, 0) := by
    have hpeek : w.io.peekGeneratedPrimitive = w.prim := by
      rw [BlockIoObject.peekGenerated_eq]
      exact if_pos h.1
    have hidx : w.io.peekGeneratedDataIndex w.prim = some 0 := by
      unfold BlockIoObject.peekGeneratedDataIndex
      rw [BlockIoObject.firstIdx_eq,
        if_pos (decide_eq_true ⟨Or.inl h.1, IoPrimitive.equal_refl _⟩)]
    have hvalid : w.prim.valid = true := h.2
    unfold hasIoRequest
    rw [hpeek]
    dsimp only
    rw [if_pos hvalid, hidx]
    rfl
  have hnew : IoJob.construct (primOpToReqOp w.prim.operation) 0
      (backendOffset w.prim.blockNumber) (1 * blockSize) = some (IoJob.fresh w.prim) := by
    unfold IoJob.fresh
    cases w.prim.operation <;> rfl
  unfold handleCbeBackend
  rw [hreq, Option.bind_some]
  show Option.bind (if (ioRequest w.prim).valid = true ∧ w.backendJob = none then
    (IoJob.construct (primOpToReqOp w.prim.operation) 0 (backendOffset w.prim.blockNumber)
      (1 * blockSize)).map some else some w.backendJob) _ = _
  rcases hjob with hnone | hsome
  · rw [if_pos ⟨rfl, hnone⟩, hnew]
    rfl
  · rw [if_neg fun hc => by rw [hsome] at hc; exact absurd hc.2 (by simp), hsome]
    rfl

/-- The world after a call, with the job kept unless it has completed. -/
def keepJob (w : IoWorld) (job : IoJob) : IoWorld :=
  { w with backendJob := if job.complete = true then none else some job }

/-- **The file has given its answer** in a call: the job has begun or begins, and is
not to try again. -/
def Answered (w : IoWorld) (ans : FileAnswer) : Prop :=
  (w.entry.state = .inProgress ∨ w.entry.state = .pending ∧ ans.queued w.prim.operation = true)
    ∧ ans.result w.prim.operation ≠ .again

/-- **The entry has ended** with what the file has answered. -/
def Ended (w : IoWorld) (result : TransferResult) : Prop :=
  w.entry.state = .complete ∧ (w.prim.success = true ↔ result ≠ .error)

/-- What a job that has begun makes of an answer, with its entry in step. -/
theorem resultState_inStep {w : IoWorld} {ans : FileAnswer} (progress : Bool)
    (hstate : w.entry.state = .inProgress) (hmoves : w.moves = [.inProgress])
    (htransfers : w.transfers = []) (herror : w.error = false)
    (hseek : w.prim.operation = .sync ∨ w.seek = backendOffset w.prim.blockNumber)
    (hwhole : ans.Whole w.prim.operation) :
    ∃ p w' job, IoJob.resultState w.prim w ans progress = some (p, w', job)
      ∧ (w'.keepJob job).InStep
      ∧ (ans.result w.prim.operation ≠ .again →
        (w'.keepJob job).Ended (ans.result w.prim.operation)) := by
  rcases IoJob.resultState_spec progress hstate hwhole with
    ⟨hagain, hrun⟩ | ⟨w', job, hrun, hdone, hc⟩
  · exact ⟨_, w, _, hrun, .inProgress hstate hmoves htransfers herror rfl hseek,
      fun h => absurd hagain h⟩
  have hjob : (w'.keepJob job).backendJob = none := if_pos hdone
  rcases hc with ⟨⟨out, hres⟩, hc⟩ | ⟨hres, hc⟩
  · have hprim : w'.prim = { w.prim with success := true } := congrArg BlockIoEntry.prim hc.entry
    refine ⟨_, w', job, hrun, ?_, fun _ => ⟨congrArg BlockIoEntry.state hc.entry, ?_⟩⟩
    · refine .complete (congrArg BlockIoEntry.state hc.entry) ?_ hjob (fun _ => ?_) fun he => ?_
      · show w'.moves = _
        rw [hc.moves, hmoves]
        rfl
      · show w'.bytes = wholeBlock w'.prim
        unfold bytes wholeBlock operationSize
        rw [hc.transfers, htransfers, hprim]
        unfold IoJob.wholeTransfers
        dsimp only
        cases hop : w.prim.operation with
        | sync => rfl
        | read | write =>
          have hs : w.seek = backendOffset w.prim.blockNumber :=
            hseek.resolve_left (by rw [hop]; decide)
          rw [if_neg (by decide), hs, List.nil_append, List.flatMap_singleton]
          simp only [Nat.zero_add]
      · have he' : w'.error = true := he
        rw [hc.error, herror] at he'
        exact absurd he' (by decide)
    · show w'.prim.success = true ↔ _
      rw [hprim, hres]
      exact ⟨fun _ => by simp, fun _ => rfl⟩
  · have hprim : w'.prim = { w.prim with success := false } := congrArg BlockIoEntry.prim hc.entry
    have hsucc : (w'.keepJob job).prim.success = false := congrArg IoPrimitive.success hprim
    refine ⟨_, w', job, hrun, ?_, fun _ => ⟨congrArg BlockIoEntry.state hc.entry, ?_⟩⟩
    · refine .complete (congrArg BlockIoEntry.state hc.entry) ?_ hjob (fun hs => ?_) fun _ => hsucc
      · show w'.moves = _
        rw [hc.moves, hmoves]
        rfl
      · exact absurd (hs.symm.trans hsucc) (by decide)
    · rw [hsucc, hres]
      simp

/-- **A call with a whole answer** keeps the job and its entry in step, and it ends
them when the file has given its answer. -/
theorem InStep.backend {w : IoWorld} (h : w.InStep) {ans : FileAnswer}
    (hwhole : ans.Whole w.prim.operation) :
    ∃ progress w', w.handleCbeBackend ans = some (progress, w') ∧ w'.InStep
      ∧ (w.Answered ans → w'.Ended (ans.result w.prim.operation)) := by
  cases h with
  | unused hstate hjob =>
    refine ⟨_, w, handleCbeBackend_idle (by rw [hstate]; decide) hjob ans, .unused hstate hjob,
      fun ha => ?_⟩
    unfold Answered at ha
    rw [hstate] at ha
    exact absurd ha.1 (by simp)
  | pending hentry hmoves htransfers herror hjob =>
    rw [handleCbeBackend_fresh hentry hjob, IoJob.execute_fresh]
    by_cases hq : ans.queued w.prim.operation = false
    · rw [if_pos hq]
      refine ⟨_, _, rfl, .pending ?_ ?_ ?_ ?_ (Or.inr ?_), fun ha => ?_⟩
      · show BlockIoObject.Fresh ((IoJob.asking w.prim w).io.entries 0)
        rw [IoJob.asking_io]
        exact hentry
      · exact (IoJob.asking_moves w.prim w).trans hmoves
      · exact (IoJob.asking_transfers w.prim w).trans htransfers
      · exact (IoJob.asking_error w.prim w).trans herror
      · unfold prim entry
        dsimp only
        rw [IoJob.asking_io]
        rfl
      · obtain ⟨hs | ⟨-, hq'⟩, -⟩ := ha
        · exact absurd (hs.symm.trans hentry.1) (by decide)
        · exact absurd (hq.symm.trans hq') (by decide)
    · rw [if_neg hq]
      have hpend : (IoJob.asking w.prim w).entry.state = .pending := by
        unfold entry
        rw [IoJob.asking_io]
        exact hentry.1
      obtain ⟨w₁, hrun, hentry₁, hmoves₁, htransfers₁, herror₁, hseek₁⟩ :=
        IoJob.ioRequestInProgress_spec (IoJob.fresh w.prim) hpend
      have hprim : w₁.prim = w.prim := by
        unfold prim
        rw [hentry₁]
        unfold entry
        rw [IoJob.asking_io]
      obtain ⟨p, w', job, hres, hstep, hends⟩ := resultState_inStep (w := w₁) true
        (by rw [hentry₁])
        (by rw [hmoves₁, IoJob.asking_moves, hmoves]; rfl)
        (by rw [htransfers₁, IoJob.asking_transfers, htransfers])
        (by rw [herror₁, IoJob.asking_error, herror])
        (by
          rw [hprim, hseek₁]
          unfold IoJob.asking
          by_cases hop : w.prim.operation = .sync
          · exact Or.inl hop
          · rw [if_neg hop]
            exact Or.inr rfl)
        (by rw [hprim]; exact hwhole)
      rw [hprim] at hres hends
      rw [hrun, Option.bind_some]
      dsimp only
      rw [hres]
      exact ⟨p, _, rfl, hstep, fun ha => hends ha.2⟩
  | inProgress hstate hmoves htransfers herror hjob hseek =>
    obtain ⟨p, w', job, hres, hstep, hends⟩ := resultState_inStep false hstate hmoves
      htransfers herror hseek hwhole
    rw [handleCbeBackend_begun hstate hjob, hres]
    exact ⟨p, _, rfl, hstep, fun ha => hends ha.2⟩
  | complete hstate hmoves hjob hdone hfailed =>
    refine ⟨_, w, handleCbeBackend_idle (by rw [hstate]; decide) hjob ans,
      .complete hstate hmoves hjob hdone hfailed, fun ha => ?_⟩
    unfold Answered at ha
    rw [hstate] at ha
    exact absurd ha.1 (by simp)

/-- A job that has begun never provokes a raise, whatever the answer. -/
theorem resultState_ne_none {prim : IoPrimitive} {w : IoWorld}
    (hstate : w.entry.state = .inProgress)
    (ans : FileAnswer) (progress : Bool) : IoJob.resultState prim w ans progress ≠ none := by
  have hcomplete : ∀ (job : IoJob) (w' : IoWorld), w'.io = w.io → job.completeState w' ≠ none := by
    intro job w' hio
    obtain ⟨_, hrun, -⟩ := IoJob.completeState_spec job w' (by unfold entry; rw [hio]; exact hstate)
    rw [hrun]
    simp
  have htransfer : ∀ (job : IoJob) (result : TransferResult),
      job.transferState w result progress ≠ none := by
    intro job result
    unfold IoJob.transferState
    cases result with
    | again => simp
    | moved out =>
      dsimp only
      split_ifs
      · exact hcomplete _ _ rfl
      · simp
    | error => exact hcomplete _ _ rfl
  unfold IoJob.resultState
  cases prim.operation with
  | read | write => exact htransfer _ _
  | sync =>
    dsimp only
    unfold IoJob.syncState
    cases ans.completeSync with
    | queued => simp
    | ok | errInvalid => exact hcomplete _ _ rfl

/-- **While a job and its entry are in step, no call raises**, whatever the answer. -/
theorem InStep.ne_none {w : IoWorld} (h : w.InStep) (ans : FileAnswer) :
    w.handleCbeBackend ans ≠ none := by
  cases h with
  | unused hstate hjob =>
    rw [handleCbeBackend_idle (by rw [hstate]; decide) hjob ans]
    simp
  | pending hentry _ _ _ hjob =>
    rw [handleCbeBackend_fresh hentry hjob, IoJob.execute_fresh]
    split_ifs
    · simp
    · have hpend : (IoJob.asking w.prim w).entry.state = .pending := by
        unfold entry
        rw [IoJob.asking_io]
        exact hentry.1
      obtain ⟨w₁, hrun, hentry₁, -⟩ :=
        IoJob.ioRequestInProgress_spec (IoJob.fresh w.prim) hpend
      rw [hrun, Option.bind_some, Ne, Option.map_eq_none_iff]
      exact resultState_ne_none (by rw [hentry₁]) ans true
  | inProgress hstate _ _ _ hjob _ =>
    rw [handleCbeBackend_begun hstate hjob, Ne, Option.map_eq_none_iff]
    exact resultState_ne_none hstate ans false
  | complete hstate _ hjob _ _ =>
    rw [handleCbeBackend_idle (by rw [hstate]; decide) hjob ans]
    simp

/-- A submitted primitive, with a record that begins anew. -/
theorem InStep.submit {w w' : IoWorld} (h : w.InStep) {res : Option (BlockIoObject × DataIndex)}
    (hres : ∀ io idx, res = some (io, idx) →
      w.entry.state = .unused ∧ BlockIoObject.Fresh (io.entries 0))
    (hstep : w.submitIfAcceptable res = some w') : w'.InStep := by
  unfold submitIfAcceptable at hstep
  split_ifs at hstep
  · obtain ⟨⟨io, idx⟩, hsub, rfl⟩ := Option.map_eq_some_iff.mp hstep
    obtain ⟨hunused, hfresh⟩ := hres io idx hsub
    refine .pending hfresh rfl rfl rfl (Or.inl ?_)
    cases h with
    | unused _ hjob => exact hjob
    | pending hentry => exact absurd (hunused.symm.trans hentry.1) (by decide)
    | inProgress hstate => exact absurd (hunused.symm.trans hstate) (by decide)
    | complete hstate => exact absurd (hunused.symm.trans hstate) (by decide)
  · obtain rfl := Option.some.inj hstep
    exact h

/-- The condition on a step: the answer is not a partial transfer for the entry at
hand. -/
def WholeAnswer (w : IoWorld) : IoAction → Prop
  | .backend ans => ans.Whole w.prim.operation
  | _ => True

/-- **Every step with a whole answer keeps a job and its entry in step.** -/
theorem InStep.step {w w' : IoWorld} {a : IoAction} (h : w.InStep) (hwhole : w.WholeAnswer a)
    (hstep : w.step a = some w') : w'.InStep := by
  cases a with
  | backend ans =>
    obtain ⟨p, w₁, hrun, hin, -⟩ := h.backend hwhole
    have hstep : (w.handleCbeBackend ans).map Prod.snd = some w' := hstep
    rw [hrun] at hstep
    obtain rfl := Option.some.inj hstep
    exact hin
  | submit tag prim => exact h.submit (fun _ _ => BlockIoObject.submitPrimitive_spec) hstep
  | submitDecrypt prim hash keyId =>
    exact h.submit (fun _ _ => BlockIoObject.submitPrimitiveDecrypt_spec) hstep
  | submitDataIndex tag prim =>
    exact h.submit (fun _ _ => BlockIoObject.submitPrimitiveDataIndex_spec) hstep
  | take =>
    unfold IoWorld.step at hstep
    dsimp only at hstep
    rw [BlockIoObject.peekCompleted_eq] at hstep
    by_cases hstate : (w.io.entries 0).state = .complete
    · rw [if_pos hstate] at hstep
      split_ifs at hstep
      · obtain rfl := Option.some.inj hstep
        exact h
      · obtain rfl := Option.some.inj hstep
        have hentry := BlockIoObject.dropCompletedPrimitive_spec hstate
        refine .unused (congrArg BlockIoEntry.state hentry) ?_
        cases h with
        | unused hs => exact absurd (hstate.symm.trans hs) (by decide)
        | pending he => exact absurd (hstate.symm.trans he.1) (by decide)
        | inProgress hs => exact absurd (hstate.symm.trans hs) (by decide)
        | complete _ _ hjob => exact hjob
    · rw [if_neg hstate, if_pos (show IoPrimitive.invalidObject.valid = false from rfl)] at hstep
      obtain rfl := Option.some.inj hstep
      exact h

/-! ## Whole runs

What is asked of a run is read off the invariant, state by state. -/

/-- The states that an entry is moved through by its job. -/
def path : BlockIoEntryState → List BlockIoEntryState
  | .unused | .pending => []
  | .inProgress => [.inProgress]
  | .complete => [.inProgress, .complete]

/-- **The entry is served once**: the job moves it once to each of its states and
never provokes a raise, it succeeds only with every byte of the block transferred
once, it fails when the file reported an error, and it ends with the first answer
of the file that is not to try again. -/
structure Served (w : IoWorld) : Prop where
  /-- No answer of the file makes the library raise. -/
  noRaise : ∀ ans, w.handleCbeBackend ans ≠ none
  /-- The entry has moved to each of its states once. -/
  moves : w.entry.state ≠ .unused → w.moves = path w.entry.state
  /-- A success stands for every byte of the block, transferred once. -/
  whole : w.entry.state = .complete → w.prim.success = true → w.bytes = wholeBlock w.prim
  /-- An error of the file is a failure. -/
  failed : w.entry.state = .complete → w.error = true → w.prim.success = false
  /-- It ends with the first answer that is not to try again. -/
  ends : ∀ ans, ans.Whole w.prim.operation → w.Answered ans →
    ∃ progress w', w.handleCbeBackend ans = some (progress, w')
      ∧ w'.Ended (ans.result w.prim.operation)

/-- What is in step is served. -/
theorem InStep.served {w : IoWorld} (h : w.InStep) : w.Served where
  noRaise := h.ne_none
  moves := fun hne => by
    cases h with
    | unused hstate => exact absurd hstate hne
    | pending hentry hmoves => rw [hmoves, hentry.1]; rfl
    | inProgress hstate hmoves => rw [hmoves, hstate]; rfl
    | complete hstate hmoves => rw [hmoves, hstate]; rfl
  whole := fun hc => by
    cases h with
    | unused hstate => exact absurd (hc.symm.trans hstate) (by decide)
    | pending hentry => exact absurd (hc.symm.trans hentry.1) (by decide)
    | inProgress hstate => exact absurd (hc.symm.trans hstate) (by decide)
    | complete _ _ _ hwhole => exact hwhole
  failed := fun hc => by
    cases h with
    | unused hstate => exact absurd (hc.symm.trans hstate) (by decide)
    | pending hentry => exact absurd (hc.symm.trans hentry.1) (by decide)
    | inProgress hstate => exact absurd (hc.symm.trans hstate) (by decide)
    | complete _ _ _ _ hfailed => exact hfailed
  ends := fun ans hwhole ha => by
    obtain ⟨p, w', hrun, -, hends⟩ := h.backend hwhole
    exact ⟨p, w', hrun, hends ha⟩

/-! ## After a partial transfer

One call with a partial answer, and the next one. -/

/-- A job that has begun goes back to its first state after a part of the block. -/
theorem resultState_partial {prim : IoPrimitive} {w : IoWorld} {ans : FileAnswer} {out : ℕ}
    (progress : Bool) (hop : prim.operation ≠ .sync)
    (hres : ans.result prim.operation = .moved out) (hout : out < blockSize) :
    ∃ w' job, IoJob.resultState prim w ans progress = some (true, w', job) ∧ w'.io = w.io
      ∧ job.op = primOpToReqOp prim.operation ∧ job.state = .pending ∧ job.complete = false := by
  have hleft : (blockSize + (2 ^ 64 - out % 2 ^ 64)) % 2 ^ 64 ≠ 0 := by
    rw [Nat.mod_eq_of_lt (hout.trans (by decide))]
    show (4096 + (2 ^ 64 - out)) % 2 ^ 64 ≠ 0
    have hlt : out < 4096 := hout
    omega
  have htransfer : (IoJob.begun prim).transferState w (.moved out) progress
      = some (true, { w with transfers := w.transfers ++ [⟨w.seek, 0, out⟩] },
        { IoJob.begun prim with
          currentOffset := 0 + out
          currentCount := (blockSize + (2 ^ 64 - out % 2 ^ 64)) % 2 ^ 64
          success := true
          state := .pending }) := by
    unfold IoJob.transferState
    exact if_neg hleft
  refine ⟨_, _, Eq.trans ?_ htransfer, rfl, rfl, rfl, rfl⟩
  unfold IoJob.resultState
  cases hop' : prim.operation with
  | read | write =>
    rw [hop'] at hres
    exact congrArg (fun result => (IoJob.begun prim).transferState w result progress) hres
  | sync => exact absurd hop' hop

/-- The library does not admit that a job of an entry in progress begins. -/
theorem execute_again {w : IoWorld} {job : IoJob} {op : PrimitiveOperation} {ans : FileAnswer}
    (hstate : w.entry.state = .inProgress) (hop : job.op = primOpToReqOp op)
    (hjob : job.state = .pending) (hq : ans.queued op = true) : job.execute w ans = none := by
  have hnone : ∀ w' : IoWorld, w'.io = w.io → job.ioRequestInProgress w' = none := by
    intro w' hio
    have hne : (w.io.entries job.index).state ≠ .pending := by
      rw [Subsingleton.elim job.index 0]
      exact fun hp => absurd (hstate.symm.trans hp) (by decide)
    unfold IoJob.ioRequestInProgress BlockIoObject.dropGeneratedPrimitive2
    rw [hio, if_pos hne]
    rfl
  unfold IoJob.execute
  rw [hop]
  cases op with
  | read =>
    have hq' : ans.queueRead = true := hq
    show job.read w ans = none
    unfold IoJob.read
    rw [hjob, hq']
    dsimp only
    rw [if_neg (by decide), hnone (job.seekFile w) rfl]
    rfl
  | write =>
    show job.write w ans = none
    unfold IoJob.write
    rw [hjob]
    dsimp only
    rw [hnone (job.seekFile w) rfl]
    rfl
  | sync =>
    have hq' : ans.queueSync = true := hq
    show job.sync w ans = none
    unfold IoJob.sync
    rw [hjob, hq']
    dsimp only
    rw [if_neg (by decide), hnone _ rfl]
    rfl

/-- **After a partial transfer the next call raises** that the file accepts: the job
begins again, with an entry that is in progress. -/
theorem handleCbeBackend_partial {w : IoWorld} (h : w.InStep) {ans : FileAnswer}
    (ha : w.Answered ans) (hop : w.prim.operation ≠ .sync) {out : ℕ}
    (hres : ans.result w.prim.operation = .moved out) (hout : out < blockSize) :
    ∃ progress w', w.handleCbeBackend ans = some (progress, w')
      ∧ ∀ ans', ans'.queued w.prim.operation = true → w'.handleCbeBackend ans' = none := by
  have hraise : ∀ (w' : IoWorld) (job : IoJob), w'.entry.state = .inProgress →
      job.op = primOpToReqOp w.prim.operation → job.state = .pending → job.complete = false →
      ∀ ans', ans'.queued w.prim.operation = true →
        (w'.keepJob job).handleCbeBackend ans' = none := by
    intro w' job hstate hjop hjob hcomplete ans' hq
    have hkeep : (w'.keepJob job).backendJob = some job := if_neg (by rw [hcomplete]; decide)
    have hreq : hasIoRequest (w'.keepJob job).io = some (Request.invalidObject, 0) :=
      hasIoRequest_none (w := w'.keepJob job) fun hp => absurd (hstate.symm.trans hp) (by decide)
    have hexec : job.execute (w'.keepJob job) ans' = none :=
      execute_again (w := w'.keepJob job) hstate hjop hjob hq
    unfold handleCbeBackend
    rw [hreq, Option.bind_some]
    dsimp only
    rw [if_neg fun hc => absurd hc.1 (by decide), hkeep, Option.bind_some]
    dsimp only
    rw [hexec]
    rfl
  cases h with
  | unused hstate =>
    unfold Answered at ha
    rw [hstate] at ha
    exact absurd ha.1 (by simp)
  | pending hentry _ _ _ hjob =>
    have hq : ans.queued w.prim.operation = true := by
      obtain ⟨hs | ⟨-, hq⟩, -⟩ := ha
      · exact absurd (hs.symm.trans hentry.1) (by decide)
      · exact hq
    have hpend : (IoJob.asking w.prim w).entry.state = .pending := by
      unfold entry
      rw [IoJob.asking_io]
      exact hentry.1
    obtain ⟨w₁, hrun, hentry₁, -⟩ :=
      IoJob.ioRequestInProgress_spec (IoJob.fresh w.prim) hpend
    obtain ⟨w', job, hresult, hio, hjop, hjst, hjc⟩ :=
      resultState_partial (w := w₁) true hop hres hout
    refine ⟨true, w'.keepJob job, ?_, hraise w' job ?_ hjop hjst hjc⟩
    · rw [handleCbeBackend_fresh hentry hjob, IoJob.execute_fresh, if_neg (by rw [hq]; decide),
        hrun,
        Option.bind_some]
      dsimp only
      rw [hresult]
      rfl
    · unfold entry
      rw [hio]
      exact congrArg BlockIoEntry.state hentry₁
  | inProgress hstate _ _ _ hjob _ =>
    obtain ⟨w', job, hresult, hio, hjop, hjst, hjc⟩ :=
      resultState_partial (w := w) false hop hres hout
    refine ⟨true, w'.keepJob job, ?_, hraise w' job ?_ hjop hjst hjc⟩
    · rw [handleCbeBackend_begun hstate hjob, hresult]
      rfl
    · unfold entry
      rw [hio]
      exact hstate
  | complete hstate =>
    unfold Answered at ha
    rw [hstate] at ha
    exact absurd ha.1 (by simp)

/-! ## All requests

From the start on, every primitive that is submitted is served once, as long as
the file transfers whole blocks. -/

/-- The block I/O and the plugin at the start, with the file at some offset. -/
def initialized (seek : ℕ) : IoWorld where
  io := BlockIoObject.initializedObject
  backendJob := none
  seek := seek
  moves := []
  transfers := []
  error := false

/-- **Every request to the backend is served once** in a run in which each transfer
is whole, for all its requests and all other answers of the file. -/
theorem served_of_run {seek : ℕ} {w : IoWorld}
    (h : Runs.Run step WholeAnswer (initialized seek) w) : w.Served := by
  have hin : w.InStep :=
    h.invariant (fun _ _ _ hs hC hstep => hs.step hC hstep) (.unused rfl rfl)
  exact hin.served

/-- A read of a block, as the cache submits it. -/
def samplePrim : IoPrimitive where
  valid := true
  operation := .read
  success := false
  tag := .cacheBlkIo
  poolIdxSlot := none
  blockNumber := 3
  index := 0

/-- A file that reads a number of bytes. -/
def sampleAnswer (out : ℕ) : FileAnswer where
  queueRead := true
  completeRead := .ok out
  write := .errAgain
  queueSync := true
  completeSync := .queued

/-- A read that is answered at once. -/
theorem served_of_run_sample :
    ∃ w : IoWorld, w.Served ∧ w.entry.state = .complete ∧ w.prim.success = true :=
  have hrun : Runs.Run step WholeAnswer (initialized 0) _ :=
    Runs.Run.tail (.backend (sampleAnswer blockSize))
      (Runs.Run.single (.submit .cacheBlkIo samplePrim) trivial rfl)
      (fun _ h => (TransferResult.moved.inj h).symm) rfl
  ⟨_, served_of_run hrun, rfl, rfl⟩

/-- **A read in two halves raises**: the job of a run whose answers are not empty is
to begin twice. -/
theorem not_served_of_run : ∃ w : IoWorld,
    Runs.Run step (fun w a => ∀ ans out, a = .backend ans →
      ans.result w.prim.operation = .moved out → 0 < out ∧ out ≤ blockSize) (initialized 0) w
      ∧ w.handleCbeBackend (sampleAnswer 2048) = none ∧ ¬ w.Served := by
  have hsubmit : ∀ w : IoWorld, ∀ ans out, IoAction.submit .cacheBlkIo samplePrim = .backend ans →
      ans.result w.prim.operation = .moved out → 0 < out ∧ out ≤ blockSize :=
    fun _ _ _ h => absurd h (by simp)
  refine ⟨_, Runs.Run.tail (.backend (sampleAnswer 2048))
    (Runs.Run.single (.submit .cacheBlkIo samplePrim) (hsubmit _) rfl) ?_ rfl, rfl,
    fun h => h.noRaise (sampleAnswer 2048) rfl⟩
  rintro ans out hans hmoved
  obtain rfl := IoAction.backend.inj hans
  obtain rfl := TransferResult.moved.inj hmoved
  exact ⟨by decide, by decide⟩

end IoWorld

end Cbe
