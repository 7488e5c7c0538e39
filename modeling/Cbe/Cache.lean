import Cbe.Securing
import Cbe.RequestPool
import Cbe.Support.StoreHistory

/-!
# The cache

Four jobs work on thirty-two slots. A read looks for a slot with its block and
completes with the data there, waits for the slot to be read, or takes a slot
that is free or clean and lets the block device read into it; a write completes
as soon as it has put its data into a slot. A slot with data that the device
does not have is written back when no other slot can be taken, or by a sync.

`CacheWorld` puts the block device and the modules that use the cache beside it.
The primitives of the device may be served in any order, at any time between
their generation and their completion. The log is what the modules see: it
lists the jobs in the order in which they complete, each with the block that
was asked for and with the data that the module handed over for a write or
finds in the buffer after a read. The cache itself knows nothing of it.
-/

namespace Cbe

open StoreHistory

/-- `Nr_Of_Slots`. -/
abbrev nrOfCacheSlots : ℕ := 32

/-- `Nr_Of_Jobs` of the cache. -/
abbrev nrOfCacheJobs : ℕ := 4

abbrev CacheSlotsIndex := Fin nrOfCacheSlots
abbrev CacheJobsIndex := Fin nrOfCacheJobs

instance : NeZero nrOfCacheSlots := ⟨by decide⟩
instance : NeZero nrOfCacheJobs := ⟨by decide⟩

/-- A primitive of the cache: one submitted to it, or one that it generates for
the block device. -/
structure CachePrim where
  /-- Whether there is a primitive. -/
  valid : Bool
  /-- A read, a write or a sync. -/
  operation : PrimitiveOperation
  /-- Whether it has succeeded. -/
  success : Bool
  /-- The block that it is for. -/
  blockNumber : ℕ
  /-- The slot that it belongs to. -/
  index : CacheSlotsIndex
  deriving DecidableEq

/-- `Primitive.Invalid_Object`. -/
def CachePrim.invalidObject : CachePrim where
  valid := false
  operation := .read
  success := false
  blockNumber := 0
  index := 0

/-- `Slot_Type`. -/
structure CacheSlot where
  /-- Whether the slot has data, and where the data stands. -/
  state : CacheSlotState
  /-- The primitive that it generates for the block device. -/
  prim : CachePrim
  /-- The block whose data it has. -/
  pba : ℕ
  deriving DecidableEq

/-- `Job_Type` of the cache. -/
structure CacheJob where
  /-- Whether the job is in use. -/
  state : CacheJobState
  /-- What was asked for. -/
  prim : CachePrim
  /-- The block that it is for. -/
  pba : ℕ
  deriving DecidableEq

/-- **The cache** with the data of its slots and of its jobs, over the type of
the blocks. -/
structure Cache (β : Type) where
  /-- The slots. -/
  slots : CacheSlotsIndex → CacheSlot
  /-- The jobs. -/
  jobs : CacheJobsIndex → CacheJob
  /-- The data of each slot. -/
  slotsData : CacheSlotsIndex → β
  /-- The buffer of each job. -/
  jobsData : CacheJobsIndex → β

namespace Cache

variable {β : Type}

/-- `Initialize`, with the blocks that the library puts into the buffers. -/
def initialObject (zero : β) : Cache β where
  slots _ := { state := .invalid, prim := .invalidObject, pba := 0 }
  jobs _ := { state := .invalid, prim := .invalidObject, pba := 0 }
  slotsData _ := zero
  jobsData _ := zero

/-! ## Submission -/

/-- `Assert_PBA_Not_Affected_By_Any_Job`: a job in progress must neither read
nor write the block, and must not be a sync. -/
def PbaNotAffectedByAnyJob (cache : Cache β) (pba : ℕ) : Prop :=
  ∀ idx, (cache.jobs idx).state ≠ .invalid →
    (cache.jobs idx).prim.operation ≠ .sync ∧ (cache.jobs idx).pba ≠ pba

/-- `Assert_PBA_Not_Written_By_Any_Job`. -/
def PbaNotWrittenByAnyJob (cache : Cache β) (pba : ℕ) : Prop :=
  ∀ idx, (cache.jobs idx).state ≠ .invalid →
    (cache.jobs idx).prim.operation = .write → (cache.jobs idx).pba ≠ pba

instance (cache : Cache β) (pba : ℕ) : Decidable (cache.PbaNotAffectedByAnyJob pba) :=
  inferInstanceAs (Decidable (∀ _, _))

instance (cache : Cache β) (pba : ℕ) : Decidable (cache.PbaNotWrittenByAnyJob pba) :=
  inferInstanceAs (Decidable (∀ _, _))

/-- `Submit_Primitive_Assertions`; where one does not hold, the source
raises. -/
def SubmitPrimitiveAssertions (cache : Cache β) (prim : CachePrim) : Prop :=
  prim.valid = true ∧ prim.success = false ∧
    match prim.operation with
    | .write => cache.PbaNotAffectedByAnyJob prim.blockNumber
    | .read | .sync => cache.PbaNotWrittenByAnyJob prim.blockNumber

instance (cache : Cache β) (prim : CachePrim) :
    Decidable (cache.SubmitPrimitiveAssertions prim) :=
  match prim with
  | { operation := .write, .. } => inferInstanceAs (Decidable (_ ∧ _ ∧ PbaNotAffectedByAnyJob _ _))
  | { operation := .read, .. } => inferInstanceAs (Decidable (_ ∧ _ ∧ PbaNotWrittenByAnyJob _ _))
  | { operation := .sync, .. } => inferInstanceAs (Decidable (_ ∧ _ ∧ PbaNotWrittenByAnyJob _ _))

/-- `Submit_Primitive` and `Submit_Primitive_Without_Data`: the first free job
takes the primitive, and the caller learns its index. For a write, the library
then puts the data into the buffer of the job. -/
def submitPrimitive (cache : Cache β) (prim : CachePrim) (data : β) :
    Option (Cache β × CacheJobsIndex) :=
  if cache.SubmitPrimitiveAssertions prim then
    ((List.finRange nrOfCacheJobs).find? fun idx => (cache.jobs idx).state = .invalid).map
      fun idx =>
      ({ cache with
          jobs := Function.update cache.jobs idx
            { state := .submitted, prim := prim, pba := prim.blockNumber }
          jobsData := if prim.operation = .write then Function.update cache.jobsData idx data
            else cache.jobsData }, idx)
  else none

/-! ## Execution -/

/-- The primitive that a slot generates for the block device. -/
def slotPrim (operation : PrimitiveOperation) (pba : ℕ) (idx : CacheSlotsIndex) : CachePrim where
  valid := true
  operation := operation
  success := false
  blockNumber := pba
  index := idx

/-- `Clean_Slot_Evictable`: no job, whatever its state, has the block of the
slot. -/
def CleanSlotEvictable (cache : Cache β) (slot : CacheSlot) : Prop :=
  ∀ idx, (cache.jobs idx).prim.operation ≠ .sync → (cache.jobs idx).pba ≠ slot.pba

instance (cache : Cache β) (slot : CacheSlot) : Decidable (cache.CleanSlotEvictable slot) :=
  inferInstanceAs (Decidable (∀ _, _))

/-- The slot that `Find_Matching_Slot` stops at. -/
def findMatchingSlot (cache : Cache β) (pba : ℕ) : Option CacheSlotsIndex :=
  (List.finRange nrOfCacheSlots).find? fun idx =>
    (cache.slots idx).state ≠ .invalid ∧ (cache.slots idx).pba = pba

/-- The slot that `Find_Evictable_Slot` takes. -/
def findEvictableSlot (cache : Cache β) : Option CacheSlotsIndex :=
  (List.finRange nrOfCacheSlots).find? fun idx =>
    (cache.slots idx).state = .invalid
      ∨ (cache.slots idx).state = .clean ∧ cache.CleanSlotEvictable (cache.slots idx)

/-- A slot gets another content. -/
def setSlot (cache : Cache β) (idx : CacheSlotsIndex) (slot : CacheSlot) : Cache β :=
  { cache with slots := Function.update cache.slots idx slot }

/-- The data of a slot is written back. -/
def generateWrite (cache : Cache β) (idx : CacheSlotsIndex) : Cache β :=
  cache.setSlot idx { cache.slots idx with
    state := .writeGenerated
    prim := slotPrim .write (cache.slots idx).pba idx }

/-- `Write_Back_One_Dirty_Slot`, which raises when no slot is dirty. -/
def writeBackOneDirtySlot (cache : Cache β) : Option (Cache β) :=
  ((List.finRange nrOfCacheSlots).find? fun idx => (cache.slots idx).state = .dirty).map
    cache.generateWrite

/-- What a read and a write do when no slot can be taken: they let one dirty
slot be written back unless a write-back is in progress. -/
def makeRoom (cache : Cache β) : Option (Cache β) :=
  if ∃ idx, (cache.slots idx).state = .writeGenerated ∨ (cache.slots idx).state = .writeInProgress
  then some cache
  else cache.writeBackOneDirtySlot

/-- The job completes with success. -/
def completeJob (cache : Cache β) (idx : CacheJobsIndex) : Cache β :=
  { cache with
    jobs := Function.update cache.jobs idx
      { cache.jobs idx with
        state := .completed
        prim := { (cache.jobs idx).prim with success := true } } }

/-- `Job_Execute_Sync`: every dirty slot is written back, and the job completes
when no slot has data that the device does not have. -/
def jobExecuteSync (cache : Cache β) (idx : CacheJobsIndex) : Cache β :=
  let slots i :=
    if (cache.slots i).state = .dirty then
      { cache.slots i with
        state := .writeGenerated
        prim := slotPrim .write (cache.slots i).pba i }
    else cache.slots i
  if ∃ i, (cache.slots i).state.Unwritten then { cache with slots := slots }
  else completeJob { cache with slots := slots } idx

/-- `Job_Execute_Read`. A completed read leaves its data in the buffer of the
job. -/
def jobExecuteRead (cache : Cache β) (idx : CacheJobsIndex) : Option (Cache β) :=
  let pba := (cache.jobs idx).pba
  match cache.findMatchingSlot pba with
  | some i =>
    match (cache.slots i).state with
    | .clean | .dirty | .writeGenerated | .writeInProgress =>
      some (completeJob
        { cache with jobsData := Function.update cache.jobsData idx (cache.slotsData i) } idx)
    | _ => some cache
  | none =>
    match cache.findEvictableSlot with
    | some i =>
      some (cache.setSlot i { state := .readGenerated, prim := slotPrim .read pba i, pba := pba })
    | none => cache.makeRoom

/-- The data of a write job goes into a slot, and the job completes. -/
def putData (cache : Cache β) (idx : CacheJobsIndex) (i : CacheSlotsIndex) : Cache β :=
  completeJob { cache.setSlot i { cache.slots i with
      state := .dirty
      pba := (cache.jobs idx).pba } with
      slotsData := Function.update cache.slotsData i (cache.jobsData idx) } idx

/-- `Job_Execute_Write`. -/
def jobExecuteWrite (cache : Cache β) (idx : CacheJobsIndex) : Option (Cache β) :=
  match cache.findMatchingSlot (cache.jobs idx).pba with
  | some i =>
    match (cache.slots i).state with
    | .clean | .dirty => some (cache.putData idx i)
    | _ => some cache
  | none =>
    match cache.findEvictableSlot with
    | some i => some (cache.putData idx i)
    | none => cache.makeRoom

/-- `Job_Execute`: a job that is free or has completed does nothing. -/
def jobExecute (cache : Cache β) (idx : CacheJobsIndex) : Option (Cache β) :=
  match (cache.jobs idx).state with
  | .submitted =>
    match (cache.jobs idx).prim.operation with
    | .sync => some (cache.jobExecuteSync idx)
    | .read => cache.jobExecuteRead idx
    | .write => cache.jobExecuteWrite idx
  | _ => some cache

/-! ## The primitives of the slots and of the jobs -/

/-- `Drop_Completed_Primitive`. -/
def dropCompletedPrimitive (cache : Cache β) (idx : CacheJobsIndex) : Option (Cache β) :=
  if (cache.jobs idx).state = .completed then
    some { cache with
      jobs := Function.update cache.jobs idx { cache.jobs idx with state := .invalid } }
  else none

/-- `Peek_Generated_Primitive`: the first slot with a primitive to hand over. -/
def peekGeneratedPrimitive (cache : Cache β) : Option CacheSlotsIndex :=
  (List.finRange nrOfCacheSlots).find? fun idx =>
    (cache.slots idx).state = .readGenerated ∨ (cache.slots idx).state = .writeGenerated

/-- `Drop_Generated_Primitive`. -/
def dropGeneratedPrimitive (cache : Cache β) (idx : CacheSlotsIndex) : Option (Cache β) :=
  (cache.slots idx).state.dropGenerated.map fun state =>
    cache.setSlot idx { cache.slots idx with state := state }

/-- `Mark_Generated_Primitive_Complete`, which raises for a failure. -/
def markGeneratedPrimitiveComplete (cache : Cache β) (idx : CacheSlotsIndex) (success : Bool) :
    Option (Cache β) :=
  if success = false then none
  else
    (cache.slots idx).state.markCompleted.map fun state =>
      cache.setSlot idx { cache.slots idx with
        state := state
        prim := { (cache.slots idx).prim with success := true } }

end Cache

/-! ## The cache on a block device -/

/-- A primitive at the block device, with its buffer. -/
structure IoEntry (β : Type) where
  /-- The primitive. -/
  prim : CachePrim
  /-- The data that is to be written, or that was read. -/
  data : β
  /-- Whether the block device has executed it. -/
  served : Bool

/-- What a module has asked of a job: the primitive that it has submitted, and
the data that it has handed over with it. -/
structure CacheRequest (β : Type) where
  /-- The primitive. -/
  prim : CachePrim
  /-- The data of a write. -/
  data : β

/-- **The access that the completion of a job acknowledges** to the module that
asked for it: a read has returned what is in the buffer of the job, and a write
has written the data that was handed over for it. -/
def CacheRequest.acknowledged {β : Type} (r : CacheRequest β) (buffer : β) : List (Access ℕ β) :=
  match r.prim.operation with
  | .read => [.read r.prim.blockNumber buffer]
  | .write => [.write r.prim.blockNumber r.data]
  | .sync => []

/-- **The cache, the block device and the primitives between them**, with what
the modules that use the cache know: what they have asked of each job, and
which accesses have been acknowledged to them. -/
structure CacheWorld (β : Type) where
  /-- The cache. -/
  cache : Cache β
  /-- The blocks on the block device. -/
  disk : ℕ → β
  /-- The primitives on their way to the block device and back. -/
  io : List (IoEntry β)
  /-- What was asked of each job. -/
  requests : CacheJobsIndex → CacheRequest β
  /-- The accesses that were acknowledged, in their order. -/
  log : List (Access ℕ β)

/-- What happens: a module submits a primitive, with its data if it is a write;
the cache executes one of its jobs; the library hands a generated primitive to
the block device, whose buffer has some data before; the device serves a
primitive; a served primitive is marked complete; a module takes the result of
a job. -/
inductive CacheAction (β : Type) where
  | submit (prim : CachePrim) (data : β)
  | jobExecute (idx : CacheJobsIndex)
  | dropGenerated (buffer : β)
  | serve (k : ℕ)
  | complete (k : ℕ) (success : Bool)
  | dropCompleted (idx : CacheJobsIndex)

namespace CacheWorld

variable {β : Type}

/-- The cache after its start, on a block device. -/
def initial (zero : β) (disk : ℕ → β) : CacheWorld β where
  cache := Cache.initialObject zero
  disk := disk
  io := []
  requests _ := { prim := .invalidObject, data := zero }
  log := []

/-- The device serves a primitive: it reads into the buffer or writes from
it. -/
def serve (w : CacheWorld β) (k : ℕ) (e : IoEntry β) : CacheWorld β :=
  match e.prim.operation with
  | .read =>
    { w with io := w.io.set k { e with data := w.disk e.prim.blockNumber, served := true } }
  | _ =>
    { w with
      disk := Function.update w.disk e.prim.blockNumber e.data
      io := w.io.set k { e with served := true } }

/-- The library marks a primitive complete: what was read goes into the
slot. -/
def complete (w : CacheWorld β) (k : ℕ) (e : IoEntry β) (success : Bool) :
    Option (CacheWorld β) :=
  let cache := if e.prim.operation = .read then
      { w.cache with slotsData := Function.update w.cache.slotsData e.prim.index e.data }
    else w.cache
  (cache.markGeneratedPrimitiveComplete e.prim.index success).map fun cache =>
    { w with cache := cache, io := w.io.eraseIdx k }

/-- The cache has executed a job. If the job has completed, the module that
asked for it gets what it asked for acknowledged. -/
def executed (w : CacheWorld β) (idx : CacheJobsIndex) (cache : Cache β) : CacheWorld β :=
  { w with
    cache := cache
    log := if (w.cache.jobs idx).state = .submitted ∧ (cache.jobs idx).state = .completed then
        w.log ++ (w.requests idx).acknowledged (cache.jobsData idx)
      else w.log }

/-- **One action.** -/
def step (w : CacheWorld β) : CacheAction β → Option (CacheWorld β)
  | .submit prim data => (w.cache.submitPrimitive prim data).map fun (cache, idx) =>
    { w with
      cache := cache
      requests := Function.update w.requests idx { prim := prim, data := data } }
  | .jobExecute idx => (w.cache.jobExecute idx).map (w.executed idx)
  | .dropGenerated buffer =>
    w.cache.peekGeneratedPrimitive.bind fun idx =>
      (w.cache.dropGeneratedPrimitive idx).map fun cache =>
        let prim := (w.cache.slots idx).prim
        { w with
          cache := cache
          io := w.io ++ [{
            prim := prim
            data := if prim.operation = .write then w.cache.slotsData idx else buffer
            served := false }] }
  | .serve k =>
    w.io[k]?.bind fun e => if e.served = true then none else some (w.serve k e)
  | .complete k success =>
    w.io[k]?.bind fun e => if e.served = true then w.complete k e success else none
  | .dropCompleted idx =>
    (w.cache.dropCompletedPrimitive idx).map fun cache => { w with cache := cache }

end CacheWorld

end Cbe
