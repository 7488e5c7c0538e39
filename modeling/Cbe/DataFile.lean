import Cbe.IoJob
import Cbe.SuperblockCodec
import Cbe.Support.ByteFile

/-!
# The data file of the file system

The plugin of the file system serves the reads and writes of a file by requests of
whole blocks to the library. An access that begins at a block and asks for a block
or more is one request (`FrontendRequest`); any other is cut off at the end of its
first block and goes through two helpers (`HelperRequest`): one reads the block, and
for a write another writes it back with the bytes changed. While a request is on its
way, the client is told to call again.

The library itself is described here by what the plugin relies on (`BlockService`):
it takes a request, has its blocks moved one by one in any order, and completes it
when all of them are done. What it does in one call of `execute` is an input of a
run (`ServiceEvent`); it may also fail.
-/

namespace Cbe

open ByteFile (Direction Access bytes patch)
open ByteWalk (Byte)

instance : NeZero blockSize := ⟨by decide⟩

/-! ## The library as the plugin sees it -/

/-- A request in the library: which of its blocks were moved, which one is on offer
to be moved, and whether it is complete and with success. -/
structure ServiceJob where
  /-- The request. -/
  req : Request
  /-- The blocks of it that were moved. -/
  served : List ℕ
  /-- The block on offer. -/
  offered : Option ℕ
  /-- Whether it is complete, and if so, with success. -/
  completed : Option Bool

/-- **What the plugin relies on.** The blocks are those of the snapshot that the
handle was opened for. Whether the pool has room for a request may change at any
time, as other clients use it too. -/
structure BlockService where
  /-- The snapshot that is served. -/
  snapId : ℕ
  /-- Its last virtual block address. -/
  maxVba : ℕ
  /-- The size of the file is a `file_size`. -/
  size_lt : (maxVba + 1) * blockSize < 2 ^ 64
  /-- The content of the blocks. -/
  blocks : ℕ → BlockData
  /-- Whether a request is refused. -/
  full : Bool
  /-- The request that is being served. -/
  job : Option ServiceJob

/-- What the library does for a request. -/
inductive ServiceMove where
  | idle
  | offer (i : ℕ)
  | complete
  | fail
  deriving DecidableEq

/-- One call of `execute`: what it does for the request, whether it leaves room for
another one, and whether the library made progress; last, whether the backend or
the crypto module makes progress after it. -/
structure ServiceEvent where
  /-- What is done for the request. -/
  move : ServiceMove
  /-- Whether the pool is full after it. -/
  full : Bool
  /-- Whether the library made progress. -/
  progress : Bool
  /-- Whether the backend or the crypto module made progress. -/
  otherProgress : Bool

/-- A block is offered once and only if there is such a block, and a request is
complete when all of its blocks were moved. -/
def ServiceJob.move (maxVba : ℕ) (job : ServiceJob) : ServiceMove → ServiceJob
  | .idle => job
  | .offer i =>
    if job.completed = none ∧ job.offered = none ∧ i < job.req.count ∧ i ∉ job.served
        ∧ job.req.blockNumber + i ≤ maxVba
    then { job with offered := some i } else job
  | .complete =>
    if job.completed = none ∧ job.offered = none ∧ ∀ i < job.req.count, i ∈ job.served
    then { job with completed := some true } else job
  | .fail =>
    if job.completed = none then { job with offered := none, completed := some false } else job

/-- A block on offer was moved. -/
def ServiceJob.moved (job : ServiceJob) (i : ℕ) : ServiceJob :=
  { job with served := i :: job.served, offered := none }

namespace BlockService

/-- `client_request_acceptable`. -/
def clientRequestAcceptable (cbe : BlockService) : Prop := cbe.full = false

instance (cbe : BlockService) : Decidable cbe.clientRequestAcceptable :=
  inferInstanceAs (Decidable (_ = _))

/-- `submit_client_request`. The plugin has one request at a time in the library, and
for the snapshot of the handle. -/
def submitClientRequest (cbe : BlockService) (req : Request) (snapId : ℕ) :
    Option BlockService :=
  match cbe.job with
  | some _ => none
  | none =>
    if snapId = cbe.snapId then
      some { cbe with job := some { req := req, served := [], offered := none, completed := none } }
    else none

/-- `execute`. -/
def execute (cbe : BlockService) (ev : ServiceEvent) : BlockService :=
  { cbe with
    full := ev.full
    job := cbe.job.map fun job => job.move cbe.maxVba ev.move }

/-- `peek_completed_client_request`. -/
def peekCompletedClientRequest (cbe : BlockService) : Option Request :=
  cbe.job.bind fun job => job.completed.map fun success => { job.req with success := success }

/-- `drop_completed_client_request`. -/
def dropCompletedClientRequest (cbe : BlockService) : BlockService := { cbe with job := none }

/-- The request of an operation whose block is on offer, with the index of the block,
as `client_data_index` returns it. -/
def offeredTo (cbe : BlockService) (op : RequestOperation) : Option (ServiceJob × ℕ) :=
  cbe.job.bind fun job =>
    if job.req.operation = op then job.offered.map fun i => (job, i) else none

/-- `client_data_ready`. -/
def clientDataReady (cbe : BlockService) : Option (ServiceJob × ℕ) := cbe.offeredTo .read

/-- `client_data_required`. -/
def clientDataRequired (cbe : BlockService) : Option (ServiceJob × ℕ) := cbe.offeredTo .write

/-- `obtain_client_data` and the item of the plain buffer that it refers to. -/
def obtainClientData (cbe : BlockService) (job : ServiceJob) (i : ℕ) :
    BlockData × BlockService :=
  (cbe.blocks (job.req.blockNumber + i), { cbe with job := some (job.moved i) })

/-- `supply_client_data`. -/
def supplyClientData (cbe : BlockService) (job : ServiceJob) (i : ℕ) (data : BlockData) :
    BlockService :=
  { cbe with
    blocks := Function.update cbe.blocks (job.req.blockNumber + i) data
    job := some (job.moved i) }

/-- The bytes of the device. -/
def file (cbe : BlockService) : ℕ → Byte := ByteFile.flat blockSize cbe.blocks

/-- The number of bytes of the device, the `size` of `stat`. -/
def size (cbe : BlockService) : ℕ := (cbe.maxVba + 1) * blockSize

end BlockService

/-! ## The plugin -/

/-- `Helper_request::State`. -/
inductive HelperState where
  | none
  | pending
  | inProgress
  | complete
  | error
  deriving DecidableEq

/-- `Helper_request`. -/
structure HelperRequest where
  /-- How far the helper has come. -/
  state : HelperState
  /-- The block that a partial access reads and writes. -/
  blockData : BlockData
  /-- The request to the library. -/
  cbeRequest : Request

/-- `Frontend_request::State`. -/
inductive FrontendState where
  | none
  | pending
  | inProgress
  | complete
  | error
  | errorEof
  deriving DecidableEq

/-- `Frontend_request`. -/
structure FrontendRequest where
  /-- How far the access has come. -/
  state : FrontendState
  /-- How many bytes it moves. -/
  count : ℕ
  /-- The request to the library. -/
  cbeRequest : Request
  /-- The snapshot that it is for. -/
  snapId : ℕ
  /-- Where the access begins. -/
  offset : ℕ
  /-- Where it begins in the block of the helper. -/
  helperOffset : ℕ

/-- **The plugin** with its helpers and its request, before the library and the
memory of its client. A request of the client refers to its memory by address. -/
structure Vfs where
  /-- The helper that reads a block. -/
  helperReadRequest : HelperRequest
  /-- The helper that writes it back. -/
  helperWriteRequest : HelperRequest
  /-- The access of the client. -/
  frontendRequest : FrontendRequest
  /-- The library. -/
  cbe : BlockService
  /-- The memory of the client. -/
  mem : ℕ → Byte

/-- `Cbe::Request (op, false, block_number, offset, count, 0, 0)`. -/
def clientRequest (op : RequestOperation) (blockNumber offset count : ℕ) : Request where
  valid := true
  operation := op
  success := false
  blockNumber := blockNumber
  offset := offset
  count := count
  keyId := 0
  tag := 0

namespace Vfs

variable (v : Vfs)

/-- Set the state of the frontend request. -/
def setState (state : FrontendState) : Vfs :=
  { v with frontendRequest := { v.frontendRequest with state := state } }

/-- `submit_frontend_request`, at the position of the handle. The helpers read and
write a block of their own, so the address in their requests is left out. -/
def submitFrontendRequest (offset data count : ℕ) (op : RequestOperation) (snapId : ℕ) :
    Option Vfs :=
  if v.frontendRequest.state ≠ .none then none
  else if op = .sync then
    some { v with
      frontendRequest := { v.frontendRequest with
        cbeRequest := clientRequest op 0 0 1
        count := 0
        snapId := 0
        state := .pending } }
  else
    let unalignedRequest := offset % blockSize ≠ 0 ∨ count < blockSize
    let count :=
      if count % blockSize ≠ 0 ∧ ¬ unalignedRequest then count - count % blockSize else count
    -- the number of blocks is narrowed to 32 bits
    let cbeRequest := clientRequest op (offset / blockSize) data (count / blockSize % 2 ^ 32)
    if unalignedRequest then
      let helperOffset := offset % blockSize
      some { v with
        helperReadRequest := { v.helperReadRequest with
          cbeRequest := clientRequest .read (offset / blockSize) 0 1
          state := .pending }
        frontendRequest := {
          state := .inProgress
          count :=
            if blockSize - helperOffset ≤ count then blockSize - helperOffset else count
          cbeRequest := cbeRequest
          snapId := snapId
          offset := offset
          helperOffset := helperOffset } }
    else
      some { v with
        frontendRequest := { v.frontendRequest with
          state := .pending
          count := count
          cbeRequest := cbeRequest
          snapId := snapId
          offset := offset } }

/-- `ack_frontend_request`. -/
def ackFrontendRequest : Vfs :=
  { v with
    frontendRequest := { v.frontendRequest with
      state := .none
      cbeRequest := Request.invalidObject } }

/-! ### `_handle_cbe_frontend` -/

/-- The helper that reads is submitted. -/
def submitHelperRead : Option Vfs :=
  if v.helperReadRequest.state = .pending ∧ v.cbe.clientRequestAcceptable then
    (v.cbe.submitClientRequest v.helperReadRequest.cbeRequest v.frontendRequest.snapId).map
      fun cbe => { v with
        cbe := cbe
        helperReadRequest := { v.helperReadRequest with state := .inProgress } }
  else some v

/-- The helper that writes is submitted. -/
def submitHelperWrite : Option Vfs :=
  if v.helperWriteRequest.state = .pending ∧ v.cbe.clientRequestAcceptable then
    (v.cbe.submitClientRequest v.helperWriteRequest.cbeRequest v.frontendRequest.snapId).map
      fun cbe => { v with
        cbe := cbe
        helperWriteRequest := { v.helperWriteRequest with state := .inProgress } }
  else some v

/-- The three tests of a pending request against the end of the device; the sums are
of 64 bits. -/
def Rejects : Prop :=
  let request := v.frontendRequest.cbeRequest
  v.frontendRequest.state = .pending ∧
    (v.cbe.maxVba < request.blockNumber
      ∨ (request.blockNumber + request.count) % 2 ^ 64 < request.blockNumber
      ∨ v.cbe.maxVba + 1 < (request.blockNumber + request.count) % 2 ^ 64)

instance : Decidable v.Rejects := inferInstanceAs (Decidable (_ ∧ (_ ∨ _ ∨ _)))

/-- The request of the frontend is submitted. -/
def submitFrontend : Option Vfs :=
  if v.frontendRequest.state = .pending ∧ v.cbe.clientRequestAcceptable then
    (v.cbe.submitClientRequest v.frontendRequest.cbeRequest v.frontendRequest.snapId).map
      fun cbe => ({ v with cbe := cbe } : Vfs).setState .inProgress
  else some v

/-- The completed requests of the library. The plugin has one of its own there at
most. -/
def completeRequests : Vfs × Bool :=
  match v.cbe.peekCompletedClientRequest with
  | none => (v, false)
  | some cbeRequest =>
    let v := { v with cbe := v.cbe.dropCompletedClientRequest }
    if cbeRequest.success = false then
      -- the failure is kept in the request, and the request is complete all the same
      ({ v with
        helperReadRequest := { v.helperReadRequest with state := .none }
        helperWriteRequest := { v.helperWriteRequest with state := .none }
        frontendRequest := { v.frontendRequest with
          state := .complete
          cbeRequest := { v.frontendRequest.cbeRequest with success := false } } }, true)
    else if v.helperReadRequest.state = .inProgress then
      ({ v with
        helperReadRequest := { v.helperReadRequest with
          state := .complete
          cbeRequest := { v.helperReadRequest.cbeRequest with success := true } } }, true)
    else if v.helperWriteRequest.state = .inProgress then
      ({ v with
        helperWriteRequest := { v.helperWriteRequest with
          state := .complete
          cbeRequest := { v.helperWriteRequest.cbeRequest with success := true } } }, true)
    else
      ({ v with
        frontendRequest := { v.frontendRequest with
          state := .complete
          cbeRequest := { v.frontendRequest.cbeRequest with success := true } } }, true)

/-- The helper that reads is complete, for a read. -/
def finishUnalignedRead : Vfs :=
  { v with
    mem := patch v.mem v.frontendRequest.cbeRequest.offset v.frontendRequest.count fun j =>
      bytes blockSize v.helperReadRequest.blockData (v.frontendRequest.helperOffset + j)
    helperReadRequest := { v.helperReadRequest with state := .none }
    frontendRequest := { v.frontendRequest with
      state := .complete
      cbeRequest := { v.frontendRequest.cbeRequest with
        success := v.helperReadRequest.cbeRequest.success } } }

/-- The helper that reads is complete, for a write: the block is changed and handed
to the helper that writes. -/
def startUnalignedWrite : Vfs :=
  let request := v.helperReadRequest.cbeRequest
  { v with
    helperWriteRequest := {
      state := .pending
      blockData := fun i =>
        patch (bytes blockSize v.helperReadRequest.blockData) v.frontendRequest.helperOffset
          v.frontendRequest.count (fun j => v.mem (v.frontendRequest.cbeRequest.offset + j)) i
      cbeRequest := { clientRequest .write request.blockNumber 0 request.count with
        keyId := request.keyId
        tag := request.tag } }
    helperReadRequest := { v.helperReadRequest with state := .none } }

/-- What follows when the helper that reads is complete. -/
def finishHelperRead : Vfs × Bool :=
  if v.helperReadRequest.state = .complete then
    match v.frontendRequest.cbeRequest.operation with
    | .read => (v.finishUnalignedRead, true)
    | .write => (v.startUnalignedWrite, true)
    | _ => (v, true)
  else (v, false)

/-- What follows when the helper that writes is complete. -/
def finishHelperWrite : Vfs × Bool :=
  if v.helperWriteRequest.state = .complete then
    (({ v with
      helperWriteRequest := { v.helperWriteRequest with state := .none } } : Vfs).setState
        .complete, true)
  else (v, false)

/-- A block that was read is taken over, into the block of the helper or to its place
in the memory of the client; with no request in progress, an exception is thrown. -/
def readClientData : Option (Vfs × Bool) :=
  match v.cbe.clientDataReady with
  | none => some (v, false)
  | some (job, i) =>
    let (data, cbe) := v.cbe.obtainClientData job i
    if v.helperReadRequest.state = .inProgress then
      some ({ v with
        cbe := cbe
        helperReadRequest := { v.helperReadRequest with blockData := data } }, true)
    else if v.frontendRequest.state = .inProgress then
      some ({ v with
        cbe := cbe
        mem := patch v.mem (job.req.offset + i * blockSize) blockSize (bytes blockSize data) },
        true)
    else none

/-- A block to be written is supplied, from the helper or from its place in the
memory of the client. -/
def writeClientData : Option (Vfs × Bool) :=
  match v.cbe.clientDataRequired with
  | none => some (v, false)
  | some (job, i) =>
    if v.helperWriteRequest.state = .inProgress then
      some ({ v with
        cbe := v.cbe.supplyClientData job i v.helperWriteRequest.blockData }, true)
    else if v.frontendRequest.state = .inProgress then
      some ({ v with
        cbe := v.cbe.supplyClientData job i fun k =>
          v.mem (job.req.offset + i * blockSize + k) }, true)
    else none

/-- **`_handle_cbe_frontend`**, and whether it made progress. -/
def handleCbeFrontend (ev : ServiceEvent) : Option (Vfs × Bool) := do
  let v ← v.submitHelperRead
  let v ← v.submitHelperWrite
  if v.Rejects then
    some (v.setState .errorEof, false)
  else
    let v ← v.submitFrontend
    let v := { v with cbe := v.cbe.execute ev }
    let (v, completed) := v.completeRequests
    let (v, helperRead) := v.finishHelperRead
    let (v, helperWrite) := v.finishHelperWrite
    let (v, read) ← v.readClientData
    let (v, wrote) ← v.writeClientData
    some (v, ev.progress || completed || helperRead || helperWrite || read || wrote)

/-- **`handle_frontend_request`**: the loop ends after a round without progress. The
events are those of its rounds. -/
def handleFrontendRequest : List ServiceEvent → Vfs → Option Vfs
  | [], _ => none
  | ev :: evs, v => do
    let (v, progress) ← v.handleCbeFrontend ev
    if progress || ev.otherProgress then handleFrontendRequest evs v
    else if evs.isEmpty then some v else none

/-! ### The handle -/

/-- What a call of the handle returns: a number of bytes, that the client shall call
again (`READ_QUEUED`, or the exception `Insufficient_buffer` for a write), or an
error. -/
inductive CallResult where
  | ok (out : ℕ)
  | queued
  | errIo
  deriving DecidableEq

/-- What a call makes of the state of the frontend request. -/
def answer : Vfs × CallResult :=
  match v.frontendRequest.state with
  | .pending | .inProgress => (v, .queued)
  | .complete => (v.ackFrontendRequest, .ok v.frontendRequest.count)
  | .errorEof => (v.ackFrontendRequest, .ok 0)
  | .error => (v.ackFrontendRequest, .errIo)
  | .none => (v, .errIo)

/-- `Vfs_handle::read` and `Vfs_handle::write`, at the position of the handle. A call
that cannot be submitted for want of room in the pool has no rounds. -/
def callFile (op : RequestOperation) (offset data count snapId : ℕ) (evs : List ServiceEvent) :
    Option (Vfs × CallResult) :=
  if v.frontendRequest.state = .none then
    if v.cbe.clientRequestAcceptable then
      match v.submitFrontendRequest offset data count op snapId with
      | none => some (v, .errIo)
      | some v => (v.handleFrontendRequest evs).map answer
    else some (v, .queued)
  else (v.handleFrontendRequest evs).map answer

end Vfs

end Cbe
