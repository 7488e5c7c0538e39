import Cbe.RequestDiscipline
import Cbe.Support.Overtaking

/-!
# The jobs of the pool, call by call

What one call does to the job in one slot, with all that the request says
(`JobChange`): most calls leave the job alone or serve it and keep its request.
Two results about the client's side of the pool are read off it.

A completed request is handed back by value: the client gets a copy of it and
returns the copy to free the slot. `Drop_Completed_Request` searches the slots
for an equal request, and `Request.Equal` compares the block number, the tag and
the operation only. So it frees the right slot exactly when no slot before it
holds a request that looks like it (`handsBack_iff`), and this holds over a run
in which no request is submitted to a slot before one that holds a request that
looks like it (`handsBack_of_run`).

A read or write is cut into primitives of one block each. `PrimitiveLog` keeps
the blocks of the primitives that were taken for a slot and what was reported
for them. The pool keeps the last of the reports as the success of the request,
takes the sum of the block number and the count of primitives modulo the word
size, and asks for one primitive at least (`servedInFull_iff_of_run`).
-/

namespace Cbe

open RequestPool

/-- The operations on blocks of the virtual block device. -/
def RequestOperation.OnBlocks : RequestOperation → Prop
  | .read | .write => True
  | _ => False

instance : DecidablePred RequestOperation.OnBlocks
  | .read | .write => isTrue trivial
  | .initializeRequest | .deinitializeRequest | .sync | .createSnapshot | .discardSnapshot
  | .rekey | .extendVbd | .extendFt | .resumeRekeying => isFalse id

namespace Request

/-- **What a request keeps** while it is served: everything but its success and
its offset. -/
structure Keeps (r r' : Request) : Prop where
  valid : r'.valid = r.valid
  operation : r'.operation = r.operation
  blockNumber : r'.blockNumber = r.blockNumber
  count : r'.count = r.count
  tag : r'.tag = r.tag

/-- A request keeps what it has. -/
theorem Keeps.refl (r : Request) : r.Keeps r := ⟨rfl, rfl, rfl, rfl, rfl⟩

/-- Being served is done in steps. -/
theorem Keeps.trans {r r' r'' : Request} (h : r.Keeps r') (h' : r'.Keeps r'') : r.Keeps r'' :=
  ⟨h'.valid.trans h.valid, h'.operation.trans h.operation, h'.blockNumber.trans h.blockNumber,
    h'.count.trans h.count, h'.tag.trans h.tag⟩

/-- The request as `Submit_Request` stores it. -/
def stored (req : Request) : Request :=
  match req.operation with
  | .resumeRekeying => ownObject .rekey
  | .read | .write => { req with success := true }
  | _ => req

/-- Two requests that `Drop_Completed_Request` cannot tell apart. -/
def LooksLike (r r' : Request) : Prop := r.valid = true ∧ r'.valid = true ∧ r.Equal r'

instance (r r' : Request) : Decidable (r.LooksLike r') :=
  inferInstanceAs (Decidable (_ ∧ _ ∧ _))

/-- The comparison does not depend on the order. -/
theorem Equal.symm {r r' : Request} (h : r.Equal r') : r'.Equal r :=
  ⟨h.1.symm, h.2.1.symm, h.2.2.symm⟩

/-- Nor does the confusion of two requests. -/
theorem LooksLike.symm {r r' : Request} (h : r.LooksLike r') : r'.LooksLike r :=
  ⟨h.2.1, h.1, h.2.2.symm⟩

/-- What requests keep is all that is compared. -/
theorem LooksLike.of_keeps {r r' q q' : Request} (hr : r.Keeps r') (hq : q.Keeps q')
    (h : r'.LooksLike q') : r.LooksLike q := by
  obtain ⟨hv, hv', hblk, htag, hop⟩ := h
  refine ⟨hr.valid ▸ hv, hq.valid ▸ hv', ?_, ?_, ?_⟩
  · rw [← hr.blockNumber, ← hq.blockNumber, hblk]
  · rw [← hr.tag, ← hq.tag, htag]
  · rw [← hr.operation, ← hq.operation, hop]

end Request

namespace RequestPool

variable {pool pool' : RequestPool} {a : PoolAction} {idx i : PoolIndex} {job : PoolJob}
  {progress : Bool}

/-! ## What `Execute` does to the jobs

`Execute` serves the head of the queue. Whatever the operation is, one job was
served and keeps its request; only an initialization that has completed may
become another request in its slot. -/

/-- One job was served and keeps its request. -/
def Tends (pool pool' : RequestPool) (idx : PoolIndex) : Prop :=
  ∃ job : PoolJob, pool'.jobs = Function.update pool.jobs idx job
    ∧ (pool.jobs idx).req.Keeps job.req

/-- Without progress no job was changed. -/
theorem tends_of_idle (h : some (pool, false) = some (pool', progress)) :
    pool.Tends pool' idx := by
  obtain ⟨heq, -⟩ := idle_of_eq h
  exact ⟨pool.jobs idx, by rw [heq, Function.update_eq_self], .refl _⟩

/-- A job that goes to another state was served. -/
theorem tends_of_proceed (h : pool.proceed idx job = some (pool', progress))
    (hkeeps : (pool.jobs idx).req.Keeps job.req) : pool.Tends pool' idx := by
  obtain ⟨rfl, -⟩ := Prod.mk.inj (Option.some.inj h)
  exact ⟨job, rfl, hkeeps⟩

/-- A job that leaves the queue is the only one that changes. -/
theorem jobs_of_finish (h : pool.finish idx job = some (pool', progress)) :
    pool'.jobs = Function.update pool.jobs idx job := by
  obtain ⟨pool₁, hdeq, hpair⟩ := Option.map_eq_some_iff.mp h
  obtain ⟨rfl, -⟩ := Prod.mk.inj hpair
  obtain ⟨indices, -, rfl⟩ := Option.map_eq_some_iff.mp hdeq
  rfl

/-- A job that completes was served. -/
theorem tends_of_done {success : Bool} {offset : ℕ}
    (h : pool.finish idx ((pool.jobs idx).done success offset) = some (pool', progress)) :
    pool.Tends pool' idx :=
  ⟨_, jobs_of_finish h, ⟨rfl, rfl, rfl, rfl, rfl⟩⟩

/-- A job with a completed step was served. -/
theorem tends_of_stepCompleted (h : pool.stepCompleted idx = some (pool', progress)) :
    pool.Tends pool' idx := by
  unfold stepCompleted at h
  dsimp only at h
  split_ifs at h
  · exact tends_of_done h
  · exact tends_of_proceed h ⟨rfl, rfl, rfl, rfl, rfl⟩

/-- A job that lets others go first was served, and the others were not. -/
theorem tends_of_preponeRequests (hhead : pool.indices.items.head? = some idx)
    (hop : (pool.jobs idx).req.operation.InSteps)
    (h : pool.preponeRequests idx = some (pool', progress)) : pool.Tends pool' idx := by
  obtain ⟨rest, hitems⟩ := List.head?_eq_some_iff.mp hhead
  obtain ⟨passed, rest', pool₁, heq, -, -, -, hjobs, -, -⟩ :=
    @tryPreponeRequests_spec idx maxNrOfRequestsPreponedAtATime pool [] rest false hitems
      List.not_mem_nil hop.not_mayBePreponed
  unfold preponeRequests at h
  rw [heq, Option.map_some] at h
  split at h
  · obtain ⟨rfl, -⟩ := Prod.mk.inj (Option.some.inj h)
    exact ⟨_, hjobs, .refl _⟩
  · obtain ⟨rfl, -⟩ := Prod.mk.inj (Option.some.inj h)
    refine ⟨(pool₁.jobs idx).goto .preponeRequestsComplete, ?_, ?_⟩
    · show Function.update pool₁.jobs idx _ = _
      rw [hjobs, Function.update_idem]
    · rw [hjobs, Function.update_self]
      exact ⟨rfl, rfl, rfl, rfl, rfl⟩

/-- **`Execute` serves one job**, unless an initialization completes. The cases
are the operations and the states of the job; in each of them the procedure
writes one job whose request has at most another success and another offset. -/
theorem executeJob_tends (hhead : pool.indices.items.head? = some idx)
    (h : pool.executeJob idx = some (pool', progress)) :
    pool.Tends pool' idx ∨ (pool.jobs idx).state = .initializeSbCtrlComplete
      ∧ ∃ job : PoolJob, pool'.jobs = Function.update pool.jobs idx job
        ∧ (job = PoolJob.invalid
          ∨ ∃ op ∈ [RequestOperation.rekey, .extendVbd, .extendFt],
            job.req = Request.ownObject op) := by
  have hresume : ∀ (state : PoolJobState) (op : RequestOperation),
      pool.resume idx state op = some (pool', progress) →
      pool'.jobs = Function.update pool.jobs idx
        { pool.jobs idx with
          state := state
          req := Request.ownObject op } := by
    intro state op hres
    obtain ⟨pool₁, henq, hpair⟩ := Option.map_eq_some_iff.mp hres
    obtain ⟨rfl, -⟩ := Prod.mk.inj hpair
    obtain ⟨indices, -, rfl⟩ := Option.map_eq_some_iff.mp henq
    rfl
  have hsteps : ∀ op : RequestOperation, op.InSteps → (pool.jobs idx).req.operation = op →
      (pool.jobs idx).req.operation.InSteps := fun op hin hop => hop ▸ hin
  unfold executeJob at h
  split at h
  case h_1 =>
    refine Or.inl ?_
    unfold executeSync at h
    dsimp only at h
    split at h
    · exact tends_of_proceed h (.refl _)
    · split_ifs at h <;> exact tends_of_done h
    · exact tends_of_idle h
  case h_2 hop =>
    refine Or.inl ?_
    unfold executeRekey at h
    dsimp only at h
    split at h
    · exact tends_of_proceed h (.refl _)
    · exact tends_of_proceed h (.refl _)
    · split_ifs at h
      exact tends_of_proceed h (.refl _)
    · exact tends_of_stepCompleted h
    · exact tends_of_preponeRequests hhead (hsteps .rekey trivial hop) h
    · exact tends_of_proceed h (.refl _)
    · exact tends_of_idle h
  case h_3 hop =>
    refine Or.inl ?_
    unfold executeExtendVbd at h
    dsimp only at h
    split at h
    · exact tends_of_proceed h (.refl _)
    · exact tends_of_stepCompleted h
    · exact tends_of_preponeRequests hhead (hsteps .extendVbd trivial hop) h
    · exact tends_of_proceed h (.refl _)
    · exact tends_of_idle h
  case h_4 hop =>
    refine Or.inl ?_
    unfold executeExtendFt at h
    dsimp only at h
    split at h
    · exact tends_of_proceed h (.refl _)
    · exact tends_of_stepCompleted h
    · exact tends_of_preponeRequests hhead (hsteps .extendFt trivial hop) h
    · exact tends_of_proceed h (.refl _)
    · exact tends_of_idle h
  case h_5 =>
    refine Or.inl ?_
    unfold executeCreateSnapshot at h
    dsimp only at h
    split at h
    · exact tends_of_proceed h (.refl _)
    · split_ifs at h <;> exact tends_of_done h
    · exact tends_of_idle h
  case h_6 =>
    refine Or.inl ?_
    unfold executeDiscardSnapshot at h
    dsimp only at h
    split at h
    · exact tends_of_proceed h (.refl _)
    · exact tends_of_done h
    · exact tends_of_idle h
  case h_7 =>
    unfold executeInitialize at h
    dsimp only at h
    split at h
    · exact Or.inl (tends_of_proceed h (.refl _))
    · next hs =>
      refine Or.inr ⟨hs, ?_⟩
      split_ifs at h
      split at h
      · exact absurd h (by simp)
      · exact ⟨_, jobs_of_finish h, Or.inl rfl⟩
      · exact ⟨_, hresume _ _ h, Or.inr ⟨.rekey, by decide, rfl⟩⟩
      · exact ⟨_, hresume _ _ h, Or.inr ⟨.extendVbd, by decide, rfl⟩⟩
      · exact ⟨_, hresume _ _ h, Or.inr ⟨.extendFt, by decide, rfl⟩⟩
    · exact Or.inl (tends_of_idle h)
  case h_8 =>
    refine Or.inl ?_
    unfold executeDeinitialize at h
    dsimp only at h
    split at h
    · exact tends_of_proceed h (.refl _)
    · split_ifs at h
      exact tends_of_done h
    · exact tends_of_idle h
  all_goals exact Or.inl (tends_of_idle h)

/-! ## What a call does to a job

The changes of the pool are said here of a single slot, with all that is in the
request. `Change` does not say so much, as the order of the queue does not need
it. -/

/-- The call is about the job in a slot. -/
def Targets (pool : RequestPool) (a : PoolAction) (idx : PoolIndex) : Prop :=
  match a with
  | .submit _ _ => pool.firstInvalid = some idx
  | .dropGenerated i | .markComplete i _ => i = idx
  | _ => False

/-- **What a call does to the job in one slot.** -/
inductive JobChange (pool : RequestPool) (a : PoolAction) (idx : PoolIndex) (job' : PoolJob) :
    Prop
  /-- It is left alone. -/
  | kept (hjob : job' = pool.jobs idx) (hnot : ¬ pool.Targets a idx)
  /-- The slot takes a request. -/
  | admitted {req : Request} {snapId : ℕ} (ha : a = .submit req snapId)
      (hslot : pool.firstInvalid = some idx) (hreq : job'.req = req.stored)
      (hblocks : req.operation.OnBlocks → job'.state = .pending ∧ job'.nrOfPrimsCompleted = 0)
  /-- It is served, and is no read or write. -/
  | served (ha : a.submits = []) (hop : ¬ (pool.jobs idx).req.operation.OnBlocks)
      (hkeeps : (pool.jobs idx).req.Keeps job'.req)
  /-- The primitive of a read or write is taken. -/
  | issued (ha : a = .dropGenerated idx) (hhead : pool.indices.headItem = some idx)
      (hop : (pool.jobs idx).req.operation.OnBlocks) (hs : (pool.jobs idx).state = .pending)
      (hjob : job' = (pool.jobs idx).goto .inProgress)
  /-- The primitive of a read or write has completed. -/
  | counted {success : Bool} (ha : a = .markComplete idx success)
      (hop : (pool.jobs idx).req.operation.OnBlocks) (hs : (pool.jobs idx).state = .inProgress)
      (hjob : job' = ((pool.jobs idx).countPrim success).goto
        (if (pool.jobs idx).nrOfPrimsCompleted + 1 < (pool.jobs idx).req.count then .pending
        else .complete))
  /-- A completed job is dropped. -/
  | freed (ha : ∃ req, a = .dropCompleted req) (hs : (pool.jobs idx).state = .complete)
      (hjob : job' = PoolJob.invalid)
  /-- An initialization completes, or turns into what it resumes. -/
  | started (ha : a = .execute) (hs : (pool.jobs idx).state = .initializeSbCtrlComplete)
      (hjob : job' = PoolJob.invalid ∨ ∃ op ∈ [RequestOperation.rekey, .extendVbd, .extendFt],
        job'.req = Request.ownObject op)

/-- A call that is about one slot and changes that slot only. -/
theorem JobChange.of_update (hjobs : pool'.jobs = Function.update pool.jobs idx job)
    (htarget : ∀ i, pool.Targets a i → i = idx) (hjob : JobChange pool a idx job) (i : PoolIndex) :
    JobChange pool a i (pool'.jobs i) := by
  rw [hjobs]
  by_cases hi : i = idx
  · subst hi
    rw [Function.update_self]
    exact hjob
  · rw [Function.update_of_ne hi]
    exact .kept rfl fun ht => hi (htarget i ht)

/-- A submission fills a free slot and leaves the others. -/
theorem submitRequest_job {req : Request} {snapId : ℕ}
    (h : pool.submitRequest req snapId = some pool') (i : PoolIndex) :
    JobChange pool (.submit req snapId) i (pool'.jobs i) := by
  unfold submitRequest at h
  split at h
  case h_1 => exact absurd h (by simp)
  case h_2 idx hslot =>
    have hadmit : ∀ job : PoolJob, (pool.setJob idx job).enqueue idx = some pool' →
        job.req = req.stored →
        (req.operation.OnBlocks → job.state = .pending ∧ job.nrOfPrimsCompleted = 0) →
        JobChange pool (.submit req snapId) i (pool'.jobs i) := by
      intro job henq hreq hblocks
      obtain ⟨indices, -, rfl⟩ := Option.map_eq_some_iff.mp henq
      refine @JobChange.of_update _ { pool.setJob idx job with indices := indices } _ _ _ rfl
        (fun j hj => ?_) (.admitted rfl hslot hreq hblocks) i
      exact Option.some.inj (Eq.trans (Eq.symm hj) hslot)
    have hstored : ∀ op : RequestOperation, req.operation = op → ¬ op.OnBlocks →
        op ≠ .resumeRekeying → req.stored = req := by
      intro op hop hnot hres
      unfold Request.stored
      rw [hop]
      cases op <;> first | rfl | exact absurd trivial hnot | exact absurd rfl hres
    split at h
    case h_1 => exact absurd h (by simp)
    case h_9 hop =>
      refine hadmit _ h ?_ fun hb => ?_
      · unfold Request.stored
        rw [hop]
      · rw [hop] at hb
        exact hb.elim
    case h_10 hop | h_11 hop =>
      refine hadmit _ h ?_ fun _ => ⟨rfl, rfl⟩
      unfold Request.stored
      rw [hop]
    all_goals
      next hop =>
        refine hadmit _ h (hstored _ hop id (by decide)).symm fun hb => ?_
        rw [hop] at hb
        exact hb.elim

/-- Taking a primitive serves the job it is of. -/
theorem dropGeneratedPrimitive_job (hcoh : pool.Coherent)
    (h : pool.dropGeneratedPrimitive idx = some pool') (i : PoolIndex) :
    JobChange pool (.dropGenerated idx) i (pool'.jobs i) := by
  unfold dropGeneratedPrimitive at h
  split_ifs at h with hhead
  obtain ⟨s', hs', rfl⟩ := Option.map_eq_some_iff.mp h
  refine JobChange.of_update (a := .dropGenerated idx) rfl (fun j hj => Eq.symm hj) ?_ i
  obtain ⟨-, hne, -⟩ := PoolJobState.dropped_spec hs'
  have hin := (hcoh idx).resolve_left hne
  by_cases hop : (pool.jobs idx).req.operation.OnBlocks
  · -- of the states of a read or write only `Pending` has a primitive
    have hs : (pool.jobs idx).state = .pending := by
      revert hin hop hs'
      cases (pool.jobs idx).req.operation <;> cases (pool.jobs idx).state <;>
        simp [RequestOperation.states, RequestOperation.OnBlocks, PoolJobState.dropped]
    rw [hs] at hs'
    obtain rfl := Option.some.inj hs'
    exact .issued rfl hhead hop hs rfl
  · exact .served rfl hop ⟨rfl, rfl, rfl, rfl, rfl⟩

/-- The completion of a primitive is counted by the job it is of. -/
theorem markGeneratedPrimitiveComplete_job {success : Bool}
    (h : pool.markGeneratedPrimitiveComplete idx success = some pool') (i : PoolIndex) :
    JobChange pool (.markComplete idx success) i (pool'.jobs i) := by
  unfold markGeneratedPrimitiveComplete at h
  obtain ⟨-, h⟩ := Option.ite_none_left_eq_some.mp h
  dsimp only at h
  have hserved : ∀ (job : PoolJob) (op : RequestOperation),
      some (pool.setJob idx job) = some pool' → (pool.jobs idx).req.operation = op →
      ¬ op.OnBlocks → (pool.jobs idx).req.Keeps job.req →
      JobChange pool (.markComplete idx success) i (pool'.jobs i) := by
    rintro job op heq rfl hnot hkeeps
    obtain rfl := Option.some.inj heq
    exact JobChange.of_update (a := .markComplete idx success) rfl (fun j hj => Eq.symm hj)
      (.served rfl hnot hkeeps) i
  have hcounted : ∀ op : RequestOperation, (pool.jobs idx).req.operation = op → op.OnBlocks →
      (pool.jobs idx).state = .inProgress →
      (if ((pool.jobs idx).countPrim success).nrOfPrimsCompleted
          < ((pool.jobs idx).countPrim success).nrOfPrims then
        some (pool.setJob idx (((pool.jobs idx).countPrim success).goto .pending))
      else (pool.setJob idx (((pool.jobs idx).countPrim success).goto .complete)).dequeue idx)
        = some pool' →
      JobChange pool (.markComplete idx success) i (pool'.jobs i) := by
    intro op hop hblocks hs heq
    have hcount : ((pool.jobs idx).countPrim success).nrOfPrims = (pool.jobs idx).req.count := by
      unfold PoolJob.nrOfPrims
      rw [show ((pool.jobs idx).countPrim success).req.operation = op from hop]
      cases op <;> first | rfl | exact absurd hblocks id
    rw [hcount] at heq
    have hjobs : pool'.jobs = Function.update pool.jobs idx
        (((pool.jobs idx).countPrim success).goto
          (if (pool.jobs idx).nrOfPrimsCompleted + 1 < (pool.jobs idx).req.count then .pending
          else .complete)) := by
      split_ifs at heq with hlt
      · obtain rfl := Option.some.inj heq
        have hlt' : (pool.jobs idx).nrOfPrimsCompleted + 1 < (pool.jobs idx).req.count := hlt
        rw [if_pos hlt']
        rfl
      · obtain ⟨indices, -, rfl⟩ := Option.map_eq_some_iff.mp heq
        have hlt' : ¬ (pool.jobs idx).nrOfPrimsCompleted + 1 < (pool.jobs idx).req.count := hlt
        rw [if_neg hlt']
        rfl
    rw [← hop] at hblocks
    exact JobChange.of_update (a := .markComplete idx success) hjobs (fun j hj => Eq.symm hj)
      (.counted rfl hblocks hs rfl) i
  split at h
  case h_5 hop hs => exact hcounted _ hop trivial hs h
  case h_6 hop hs => exact hcounted _ hop trivial hs h
  case h_7 => exact absurd h (by simp)
  all_goals next hop _ => exact hserved _ _ h hop id ⟨rfl, rfl, rfl, rfl, rfl⟩

/-- **What a call does to every job.** -/
theorem step_job (hcoh : pool.Coherent) (h : pool.step a = some pool') (i : PoolIndex) :
    JobChange pool a i (pool'.jobs i) := by
  -- the primitives of the superblock control
  have hprim : ∀ {a : PoolAction} {idx : PoolIndex} (job : PoolJob) (op : RequestOperation),
      a.submits = [] → (∀ j, ¬ pool.Targets a j) → some (pool.setJob idx job) = some pool' →
      (pool.jobs idx).req.operation = op → ¬ op.OnBlocks →
      (pool.jobs idx).req.Keeps job.req → JobChange pool a i (pool'.jobs i) := by
    rintro a idx job op ha hno heq rfl hnot hkeeps
    obtain rfl := Option.some.inj heq
    exact JobChange.of_update rfl (fun j hj => absurd hj (hno j)) (.served ha hnot hkeeps) i
  cases a with
  | submit req snapId => exact submitRequest_job h i
  | dropGenerated idx => exact dropGeneratedPrimitive_job hcoh h i
  | markComplete idx success => exact markGeneratedPrimitiveComplete_job h i
  | execute =>
    obtain ⟨⟨pool₁, progress⟩, hexec, rfl⟩ := Option.map_eq_some_iff.mp h
    unfold execute at hexec
    rw [IndexQueue.headItem_eq] at hexec
    split at hexec
    · obtain ⟨heq, -⟩ := idle_of_eq hexec
      rw [heq]
      exact .kept rfl id
    · next idx hhead =>
      by_cases hop : (pool.jobs idx).req.operation.OnBlocks
      · -- nothing is done for a read or write
        have hidle : pool.executeJob idx = some (pool, false) := by
          unfold executeJob
          revert hop
          cases (pool.jobs idx).req.operation <;>
            first | exact fun _ => rfl | exact fun hop => absurd hop id
        obtain ⟨heq, -⟩ := idle_of_eq (hidle.symm.trans hexec)
        rw [heq]
        exact .kept rfl id
      · rcases executeJob_tends hhead hexec with ⟨job, hjobs, hkeeps⟩ | ⟨hs, job, hjobs, hjob⟩
        · exact JobChange.of_update (a := .execute) hjobs (fun _ hj => False.elim hj)
            (.served rfl hop hkeeps) i
        · exact JobChange.of_update (a := .execute) hjobs (fun _ hj => False.elim hj)
            (.started rfl hs hjob) i
  | markCompleteReqFin idx success requestFinished =>
    replace h : pool.markGeneratedPrimitiveCompleteReqFin idx success requestFinished
      = some pool' := h
    unfold markGeneratedPrimitiveCompleteReqFin at h
    obtain ⟨-, h⟩ := Option.ite_none_left_eq_some.mp h
    dsimp only at h
    split at h
    case h_4 => exact absurd h (by simp)
    all_goals
      next hop _ => exact hprim _ _ rfl (fun _ => id) h hop id ⟨rfl, rfl, rfl, rfl, rfl⟩
  | markCompleteSbState idx success sbState =>
    replace h : pool.markGeneratedPrimitiveCompleteSbState idx success sbState = some pool' := h
    unfold markGeneratedPrimitiveCompleteSbState at h
    obtain ⟨-, h⟩ := Option.ite_none_left_eq_some.mp h
    dsimp only at h
    split at h
    · next hop _ => exact hprim _ _ rfl (fun _ => id) h hop id ⟨rfl, rfl, rfl, rfl, rfl⟩
    · exact absurd h (by simp)
  | markCompleteGen idx success gen =>
    replace h : pool.markGeneratedPrimitiveCompleteGen idx success gen = some pool' := h
    unfold markGeneratedPrimitiveCompleteGen at h
    obtain ⟨-, h⟩ := Option.ite_none_left_eq_some.mp h
    dsimp only at h
    split at h
    · next hop _ => exact hprim _ _ rfl (fun _ => id) h hop id ⟨rfl, rfl, rfl, rfl, rfl⟩
    · exact absurd h (by simp)
  | dropCompleted req =>
    replace h : pool.dropCompletedRequest req = some pool' := h
    unfold dropCompletedRequest at h
    split at h
    · exact absurd h (by simp)
    · next idx _ =>
      obtain ⟨hs, h⟩ := Option.ite_none_left_eq_some.mp h
      obtain rfl := Option.some.inj h
      exact JobChange.of_update (a := .dropCompleted req) rfl (fun _ hj => False.elim hj)
        (.freed ⟨req, rfl⟩ (not_not.mp hs) rfl) i

/-! ## Handing a completed request back

The slot that is freed has to be the one whose request was looked at. Both
searches of the source start at the first slot: one looks for a completed job,
the other for an equal request. They meet in the same slot unless an equal
request waits before. -/

/-- The first completed job, which `Peek_Completed_Request` looks at. -/
def firstComplete (pool : RequestPool) : Option PoolIndex :=
  (List.finRange maxNumberOfRequestsInPool).find? fun idx =>
    decide ((pool.jobs idx).state = .complete)

/-- **A completed request is handed back**: dropping the request that
`Peek_Completed_Request` returns frees its slot and leaves all other jobs as
they are. -/
def HandsBack (pool : RequestPool) : Prop :=
  ∀ idx, pool.firstComplete = some idx →
    pool.dropCompletedRequest pool.peekCompletedRequest = some (pool.setJob idx PoolJob.invalid)

/-- The first slot with a property. -/
theorem find?_finRange_eq_some {n : ℕ} {p : Fin n → Bool} {i : Fin n} :
    (List.finRange n).find? p = some i ↔ p i = true ∧ ∀ j < i, p j = false := by
  rw [List.find?_eq_some_iff_getElem]
  constructor
  · rintro ⟨hp, k, hk, heq, hbefore⟩
    refine ⟨hp, fun j hj => ?_⟩
    rw [List.getElem_finRange] at heq
    have hlt : j.val < k := by
      rw [← heq] at hj
      exact hj
    have := hbefore j.val hlt
    rw [List.getElem_finRange] at this
    simpa using this
  · rintro ⟨hp, hbefore⟩
    refine ⟨hp, i.val, by simp, by simp, fun j hj => ?_⟩
    rw [List.getElem_finRange]
    have := hbefore ⟨j, by omega⟩ hj
    simpa using this

/-- The first completed job has none before it. -/
theorem firstComplete_eq_some : pool.firstComplete = some idx ↔
    (pool.jobs idx).state = .complete ∧ ∀ j < idx, (pool.jobs j).state ≠ .complete := by
  unfold firstComplete
  rw [find?_finRange_eq_some, decide_eq_true_eq]
  exact and_congr_right fun _ => forall₂_congr fun _ _ => decide_eq_false_iff_not

/-- What the client gets is the request of that job. -/
theorem peekCompletedRequest_eq (h : pool.firstComplete = some idx) :
    pool.peekCompletedRequest = (pool.jobs idx).req := by
  unfold firstComplete at h
  unfold peekCompletedRequest
  rw [h]

/-- **When a completed request is handed back**: exactly when it is a valid
object and no slot before it holds a request that looks like it. -/
theorem handsBack_iff (pool : RequestPool) :
    pool.HandsBack ↔ ∀ idx, pool.firstComplete = some idx →
      (pool.jobs idx).req.valid = true
        ∧ ∀ j < idx, ¬ (pool.jobs j).req.LooksLike (pool.jobs idx).req := by
  refine forall₂_congr fun idx hfirst => ?_
  have hcomplete := (firstComplete_eq_some.mp hfirst).1
  rw [peekCompletedRequest_eq hfirst]
  unfold dropCompletedRequest
  constructor
  · intro h
    split at h
    · exact absurd h (by simp)
    · next i hfind =>
      obtain ⟨-, h⟩ := Option.ite_none_left_eq_some.mp h
      -- the slot that was freed is the one of the request
      have hi : i = idx := by
        by_contra hne
        have hjob := congrFun (congrArg RequestPool.jobs (Option.some.inj h)) idx
        rw [setJob_jobs_self, setJob_jobs_of_ne _ _ (Ne.symm hne)] at hjob
        rw [hjob] at hcomplete
        exact absurd hcomplete (by decide)
      subst hi
      obtain ⟨hp, hbefore⟩ := find?_finRange_eq_some.mp hfind
      refine ⟨(of_decide_eq_true hp).1, fun j hj hlook => ?_⟩
      exact of_decide_eq_false (hbefore j hj) ⟨hlook.1, hlook.2.2⟩
  · rintro ⟨hvalid, hbefore⟩
    have hfind : ((List.finRange maxNumberOfRequestsInPool).find? fun i =>
        decide ((pool.jobs i).req.valid = true ∧ (pool.jobs i).req.Equal (pool.jobs idx).req))
        = some idx := by
      refine find?_finRange_eq_some.mpr ⟨decide_eq_true ⟨hvalid, rfl, rfl, rfl⟩, fun j hj => ?_⟩
      exact decide_eq_false fun hlook => hbefore j hj ⟨hlook.1, hvalid, hlook.2⟩
    rw [hfind]
    exact if_neg (not_not.mpr hcomplete)

/-- **A call that keeps requests apart**: a request is submitted as a valid
object, and no slot behind the one it takes holds a request that looks like
it. -/
def KeepsApart (pool : RequestPool) : PoolAction → Prop
  | .submit req _ => req.stored.valid = true
      ∧ ∀ idx j, pool.firstInvalid = some idx → idx < j →
        ¬ (pool.jobs j).req.LooksLike req.stored
  | _ => True

instance (pool : RequestPool) : DecidablePred pool.KeepsApart
  | .submit _ _ => inferInstanceAs (Decidable (_ ∧ _))
  | .execute | .dropGenerated _ | .markComplete _ _ | .markCompleteReqFin _ _ _
  | .markCompleteSbState _ _ _ | .markCompleteGen _ _ _ | .dropCompleted _ => isTrue trivial

/-- **What holds in a run that keeps requests apart**: of two requests that look
alike, the one in the slot before is served first. Only the first slot may be in
the queue without need, after the initialization was resumed in it. The order of
the slots and that of the queue are tied together for look-alikes only; for the
others they are independent. -/
structure InLine (pool : RequestPool) : Prop where
  /-- The jobs fit to their requests. -/
  coherent : pool.Coherent
  /-- A job that is in use has a valid request. -/
  valid_iff : ∀ idx, (pool.jobs idx).req.valid = true ↔ (pool.jobs idx).state ≠ .invalid
  /-- A live job is in the queue. -/
  queued : ∀ idx, (pool.jobs idx).Live → idx ∈ pool.indices.items
  /-- Only the first slot may be in the queue without need. -/
  live : ∀ idx ∈ pool.indices.items, idx ≠ 0 → (pool.jobs idx).Live
  /-- Only the first slot may be in the queue twice. -/
  once : ∀ idx, idx ≠ 0 → pool.indices.items.count idx ≤ 1
  /-- Nothing completes before the initialization. -/
  starting : ∀ idx, (pool.jobs idx).req.operation = .initializeRequest → (pool.jobs idx).Live →
    idx = 0 ∧ pool.indices.items.head? = some 0 ∧ ∀ j, (pool.jobs j).state ≠ .complete
  /-- Of two requests that look alike the one in the slot before is served first.
  -/
  served : ∀ i j, i < j → (pool.jobs i).req.LooksLike (pool.jobs j).req → (pool.jobs i).Live →
    (pool.jobs j).Live ∧ Overtaking.Precedes i j pool.indices.items

/-- In such a pool every completed request is handed back. -/
theorem InLine.handsBack (h : pool.InLine) : pool.HandsBack := by
  refine (handsBack_iff pool).mpr fun idx hfirst => ?_
  obtain ⟨hcomplete, hbefore⟩ := firstComplete_eq_some.mp hfirst
  refine ⟨(h.valid_iff idx).mpr (by rw [hcomplete]; decide), fun j hj hlook => ?_⟩
  have hlive : (pool.jobs j).Live := ⟨(h.valid_iff j).mp hlook.1, hbefore j hj⟩
  exact (h.served j idx hj hlook hlive).1.2 hcomplete

/-- A pool that was just initialized holds the initialization only. -/
theorem inLine_initializedObject : initializedObject.InLine where
  coherent := coherent_initializedObject
  valid_iff := by decide
  queued := by decide
  live := by decide
  once := by decide
  starting := by decide
  served i j hij hlook _ := by
    have hother : ∀ k : PoolIndex, k ≠ 0 → (initializedObject.jobs k).req.valid = false := by decide
    rw [Request.LooksLike, hother j (lt_of_le_of_lt (Fin.zero_le i) hij).ne'] at hlook
    exact absurd hlook.2.1 (by decide)

/-- A job that goes on being served keeps its request. -/
theorem JobChange.keeps (h : JobChange pool a idx job) (ha : a.submits = [])
    (hlive : (pool.jobs idx).Live) (hinit : (pool.jobs idx).state ≠ .initializeSbCtrlComplete) :
    (pool.jobs idx).req.Keeps job.req := by
  cases h with
  | kept hjob _ =>
    rw [hjob]
    exact .refl _
  | admitted ha' _ _ _ =>
    rw [ha'] at ha
    exact absurd ha (by simp [PoolAction.submits])
  | served _ _ hkeeps => exact hkeeps
  | issued _ _ _ _ hjob =>
    rw [hjob]
    exact ⟨rfl, rfl, rfl, rfl, rfl⟩
  | counted _ _ _ hjob =>
    rw [hjob]
    exact ⟨rfl, rfl, rfl, rfl, rfl⟩
  | freed _ hs _ => exact absurd hs hlive.2
  | started _ hs _ => exact absurd hs hinit

/-- A job that is served without leaving the queue. The queue may be reordered
by it, as long as two requests that look alike keep their order. -/
theorem InLine.of_served (h : pool.InLine) (hcoh : pool'.Coherent)
    (hjobs : pool'.jobs = Function.update pool.jobs idx job)
    (hkeeps : (pool.jobs idx).req.Keeps job.req) (hlive : (pool.jobs idx).Live)
    (hlive' : job.Live) (hperm : pool'.indices.items.Perm pool.indices.items)
    (hhead : (pool.jobs 0).req.operation = .initializeRequest →
      pool.indices.items.head? = some 0 → pool'.indices.items.head? = some 0)
    (hprec : ∀ i j, (pool.jobs i).req.LooksLike (pool.jobs j).req → i ≠ j →
      Overtaking.Precedes i j pool.indices.items →
      Overtaking.Precedes i j pool'.indices.items) : pool'.InLine := by
  have hsame : ∀ i, (pool.jobs i).req.Keeps (pool'.jobs i).req := by
    intro i
    rw [hjobs]
    by_cases hi : i = idx
    · subst hi
      rw [Function.update_self]
      exact hkeeps
    · rw [Function.update_of_ne hi]
      exact .refl _
  have hsameLive : ∀ i, (pool'.jobs i).Live ↔ (pool.jobs i).Live := by
    intro i
    rw [hjobs]
    by_cases hi : i = idx
    · subst hi
      rw [Function.update_self]
      exact iff_of_true hlive' hlive
    · rw [Function.update_of_ne hi]
  have hstate : ∀ (s : PoolJobState) (i : PoolIndex), s = .invalid ∨ s = .complete →
      ((pool'.jobs i).state = s ↔ (pool.jobs i).state = s) := by
    intro s i hs
    rw [hjobs]
    by_cases hi : i = idx
    · subst hi
      rw [Function.update_self]
      rcases hs with rfl | rfl
      · exact iff_of_false hlive'.1 hlive.1
      · exact iff_of_false hlive'.2 hlive.2
    · rw [Function.update_of_ne hi]
  refine ⟨hcoh, fun i => ?_, fun i hi => ?_, fun i hi hne => ?_, fun i hne => ?_,
    fun i hop hi => ?_, fun i j hij hlook hi => ?_⟩
  · rw [(hsame i).valid, h.valid_iff i, Ne, Ne, hstate _ i (Or.inl rfl)]
  · exact hperm.mem_iff.mpr (h.queued i ((hsameLive i).mp hi))
  · exact (hsameLive i).mpr (h.live i (hperm.mem_iff.mp hi) hne)
  · rw [hperm.count_eq]
    exact h.once i hne
  · rw [(hsame i).operation] at hop
    obtain ⟨rfl, hfront, hnone⟩ := h.starting i hop ((hsameLive i).mp hi)
    refine ⟨rfl, hhead hop hfront, fun j => ?_⟩
    rw [Ne, hstate _ j (Or.inr rfl)]
    exact hnone j
  · have hlook' := hlook.of_keeps (hsame i) (hsame j)
    obtain ⟨hj, hp⟩ := h.served i j hij hlook' ((hsameLive i).mp hi)
    exact ⟨(hsameLive j).mpr hj, hprec i j hlook' hij.ne hp⟩

/-- A job that leaves the queue. -/
theorem InLine.of_finished (h : pool.InLine) (hcoh : pool'.Coherent)
    (hjobs : pool'.jobs = Function.update pool.jobs idx job)
    (hlive : (pool.jobs idx).Live) (hjob : job = PoolJob.invalid
      ∨ job.state = .complete ∧ (pool.jobs idx).req.Keeps job.req)
    (hitems : pool.indices.items = idx :: pool'.indices.items) : pool'.InLine := by
  have hself : pool'.jobs idx = job := by rw [hjobs, Function.update_self]
  have hother : ∀ i, i ≠ idx → pool'.jobs i = pool.jobs i := fun i hi => by
    rw [hjobs, Function.update_of_ne hi]
  have hdead : ¬ job.Live := by
    rcases hjob with rfl | ⟨hs, -⟩
    · exact fun hl => hl.1 rfl
    · exact fun hl => hl.2 hs
  have hne : ∀ i, (pool'.jobs i).Live → i ≠ idx := by
    rintro i hi rfl
    exact hdead (hself ▸ hi)
  have hsub : ∀ i ∈ pool'.indices.items, i ∈ pool.indices.items := fun i hi => by
    rw [hitems]
    exact List.mem_cons_of_mem _ hi
  refine ⟨hcoh, fun i => ?_, fun i hi => ?_, fun i hi hi0 => ?_, fun i hi0 => ?_,
    fun i hop hi => ?_, fun i j hij hlook hi => ?_⟩
  · by_cases hi : i = idx
    · rw [hi, hself]
      rcases hjob with rfl | ⟨hs, hkeeps⟩
      · exact iff_of_false (by decide) fun hn => hn rfl
      · rw [hkeeps.valid, h.valid_iff idx, hs]
        exact iff_of_true hlive.1 (by decide)
    · rw [hother i hi]
      exact h.valid_iff i
  · have hold := hother i (hne i hi) ▸ hi
    have hmem := h.queued i hold
    rw [hitems] at hmem
    exact (List.mem_cons.mp hmem).resolve_left (hne i hi)
  · have hi1 : i ≠ idx := by
      rintro rfl
      have honce := h.once i hi0
      rw [hitems, List.count_cons_self] at honce
      exact absurd (List.count_pos_iff.mpr hi) (by omega)
    rw [hother i hi1]
    exact h.live i (hsub i hi) hi0
  · refine le_trans ?_ (h.once i hi0)
    rw [hitems]
    exact List.count_le_count_cons
  · have hi1 := hne i hi
    rw [hother i hi1] at hop hi
    obtain ⟨rfl, hfront, -⟩ := h.starting i hop hi
    rw [hitems] at hfront
    exact absurd (Option.some.inj hfront).symm hi1
  · have hi1 := hne i hi
    rw [hother i hi1] at hlook hi
    by_cases hj : j = idx
    · -- the one behind leaves the queue while the one before is in it
      exfalso
      rw [hj, hself] at hlook
      rcases hjob with rfl | ⟨-, hkeeps⟩
      · exact absurd hlook.2.1 (by decide)
      · have hp := (h.served i idx (hj ▸ hij) (hlook.of_keeps (.refl _) hkeeps) hi).2
        rw [hitems] at hp
        exact Overtaking.not_precedes_head hi1 hp
    · rw [hother j hj] at hlook ⊢
      obtain ⟨hlivej, hp⟩ := h.served i j hij hlook hi
      rw [hitems] at hp
      exact ⟨hlivej, hp.tail (Ne.symm hi1)⟩

/-- An initialization is not submitted. -/
theorem operation_of_submitRequest {req : Request} {snapId : ℕ}
    (h : pool.submitRequest req snapId = some pool') :
    req.stored.operation ≠ .initializeRequest := by
  have hop : req.operation ≠ .initializeRequest := by
    intro hop
    unfold submitRequest at h
    rw [hop] at h
    split at h <;> exact absurd h (by simp)
  unfold Request.stored
  split
  · exact (by decide : RequestOperation.rekey ≠ .initializeRequest)
  · exact hop
  · exact hop
  · exact hop

/-- A request that is taken. -/
theorem InLine.of_admitted {req : Request} (h : pool.InLine) (hcoh : pool'.Coherent)
    (hfree : (pool.jobs idx).state = .invalid) (hslot : pool.firstInvalid = some idx)
    (hreq : job.req = req.stored) (hop : req.stored.operation ≠ .initializeRequest)
    (hvalid : req.stored.valid = true)
    (hbehind : ∀ j, idx < j → ¬ (pool.jobs j).req.LooksLike req.stored)
    (hlive : job.Live) (hjobs : pool'.jobs = Function.update pool.jobs idx job)
    (hitems : pool'.indices.items = pool.indices.items ++ [idx]) : pool'.InLine := by
  have hself : pool'.jobs idx = job := by rw [hjobs, Function.update_self]
  have hother : ∀ i, i ≠ idx → pool'.jobs i = pool.jobs i := fun i hi => by
    rw [hjobs, Function.update_of_ne hi]
  have hfresh : idx ≠ 0 → idx ∉ pool.indices.items :=
    fun h0 hmem => (h.live idx hmem h0).1 hfree
  refine ⟨hcoh, fun i => ?_, fun i hi => ?_, fun i hi hi0 => ?_, fun i hi0 => ?_,
    fun i hopi hi => ?_, fun i j hij hlook hi => ?_⟩
  · by_cases hi : i = idx
    · rw [hi, hself, hreq]
      exact iff_of_true hvalid hlive.1
    · rw [hother i hi]
      exact h.valid_iff i
  · rw [hitems, List.mem_append, List.mem_singleton]
    by_cases hi1 : i = idx
    · exact Or.inr hi1
    · rw [hother i hi1] at hi
      exact Or.inl (h.queued i hi)
  · by_cases hi1 : i = idx
    · rw [hi1, hself]
      exact hlive
    · rw [hitems, List.mem_append, List.mem_singleton] at hi
      rw [hother i hi1]
      exact h.live i (hi.resolve_right hi1) hi0
  · rw [hitems, List.count_append]
    by_cases hi1 : i = idx
    · subst hi1
      rw [List.count_eq_zero.mpr (hfresh hi0), List.count_singleton_self]
    · rw [List.count_singleton, if_neg (by simpa using Ne.symm hi1)]
      exact h.once i hi0
  · have hi1 : i ≠ idx := by
      rintro rfl
      rw [hself, hreq] at hopi
      exact hop hopi
    rw [hother i hi1] at hopi hi
    obtain ⟨rfl, hfront, hnone⟩ := h.starting i hopi hi
    refine ⟨rfl, ?_, fun j => ?_⟩
    · rw [hitems, List.head?_append, hfront]
      rfl
    · by_cases hj : j = idx
      · rw [hj, hself]
        exact hlive.2
      · rw [hother j hj]
        exact hnone j
  · by_cases hi1 : i = idx
    · rw [hi1] at hij hlook
      have hj : j ≠ idx := hij.ne'
      rw [hself, hother j hj, hreq] at hlook
      exact absurd hlook.symm (hbehind j hij)
    · rw [hother i hi1] at hlook hi
      rw [hitems]
      by_cases hj : j = idx
      · have hnot := hfresh (hj ▸ (lt_of_le_of_lt (Fin.zero_le i) hij).ne')
        rw [hj, hself]
        exact ⟨hlive, (Overtaking.precedes_of_notMem hnot).append (Or.inr (h.queued i hi))⟩
      · rw [hother j hj] at hlook ⊢
        obtain ⟨hlivej, hp⟩ := h.served i j hij hlook hi
        exact ⟨hlivej, hp.append (Or.inl (Ne.symm hj))⟩

/-- The initialization turns into what it resumes, and is enqueued once more. -/
theorem InLine.of_resumed (h : pool.InLine) (hcoh : pool'.Coherent)
    (hhead : pool.indices.items.head? = some idx)
    (hop : (pool.jobs idx).req.operation = .initializeRequest) (hlive : (pool.jobs idx).Live)
    (hvalid : job.req.valid = true) (hlive' : job.Live)
    (hjobs : pool'.jobs = Function.update pool.jobs idx job)
    (hitems : pool'.indices.items = pool.indices.items ++ [idx]) : pool'.InLine := by
  obtain ⟨rfl, -, hnone⟩ := h.starting idx hop hlive
  have hself : pool'.jobs 0 = job := by rw [hjobs, Function.update_self]
  have hother : ∀ i, i ≠ 0 → pool'.jobs i = pool.jobs i := fun i hi => by
    rw [hjobs, Function.update_of_ne hi]
  have hnone' : ∀ j, (pool'.jobs j).state ≠ .complete := fun j => by
    by_cases hj : j = 0
    · rw [hj, hself]
      exact hlive'.2
    · rw [hother j hj]
      exact hnone j
  have hfront : pool'.indices.items.head? = some 0 := by
    rw [hitems, List.head?_append, hhead]
    rfl
  refine ⟨hcoh, fun i => ?_, fun i hi => ?_, fun i hi hi0 => ?_, fun i hi0 => ?_,
    fun i hopi hi => ?_, fun i j hij hlook hi => ?_⟩
  · by_cases hi : i = 0
    · rw [hi, hself]
      exact iff_of_true hvalid hlive'.1
    · rw [hother i hi]
      exact h.valid_iff i
  · rw [hitems, List.mem_append, List.mem_singleton]
    by_cases hi1 : i = 0
    · exact Or.inr hi1
    · rw [hother i hi1] at hi
      exact Or.inl (h.queued i hi)
  · rw [hitems, List.mem_append, List.mem_singleton] at hi
    rw [hother i hi0]
    exact h.live i (hi.resolve_right hi0) hi0
  · rw [hitems, List.count_append, List.count_singleton, if_neg (by simpa using Ne.symm hi0)]
    exact h.once i hi0
  · refine ⟨?_, hfront, hnone'⟩
    by_contra hi0
    rw [hother i hi0] at hopi hi
    exact hi0 (h.starting i hopi hi).1
  · have hj : j ≠ 0 := (lt_of_le_of_lt (Fin.zero_le i) hij).ne'
    have hlivej : (pool'.jobs j).Live := by
      refine ⟨?_, hnone' j⟩
      rw [hother j hj]
      rw [hother j hj] at hlook
      exact (h.valid_iff j).mp hlook.2.1
    refine ⟨hlivej, ?_⟩
    by_cases hi0 : i = 0
    · obtain ⟨l, hl⟩ := List.head?_eq_some_iff.mp hfront
      rw [hl, hi0]
      exact Or.inl rfl
    · rw [hother i hi0, hother j hj] at hlook
      rw [hother i hi0] at hi
      rw [hitems]
      exact (h.served i j hij hlook hi).2.append (Or.inl (Ne.symm hj))

/-- A completed job is dropped. -/
theorem InLine.of_dropped (h : pool.InLine) (hcoh : pool'.Coherent)
    (hs : (pool.jobs idx).state = .complete)
    (hjobs : pool'.jobs = Function.update pool.jobs idx PoolJob.invalid)
    (hitems : pool'.indices.items = pool.indices.items) : pool'.InLine := by
  have hself : pool'.jobs idx = PoolJob.invalid := by rw [hjobs, Function.update_self]
  have hother : ∀ i, i ≠ idx → pool'.jobs i = pool.jobs i := fun i hi => by
    rw [hjobs, Function.update_of_ne hi]
  have hne : ∀ i, (pool'.jobs i).Live → i ≠ idx := by
    rintro i hi rfl
    exact (hself ▸ hi).1 rfl
  refine ⟨hcoh, fun i => ?_, fun i hi => ?_, fun i hi hi0 => ?_, fun i hi0 => ?_,
    fun i hop hi => ?_, fun i j hij hlook hi => ?_⟩
  · by_cases hi : i = idx
    · rw [hi, hself]
      exact iff_of_false (by decide) fun hn => hn rfl
    · rw [hother i hi]
      exact h.valid_iff i
  · rw [hother i (hne i hi)] at hi
    rw [hitems]
    exact h.queued i hi
  · rw [hitems] at hi
    have hi1 : i ≠ idx := by
      rintro rfl
      exact (h.live i hi hi0).2 hs
    rw [hother i hi1]
    exact h.live i hi hi0
  · rw [hitems]
    exact h.once i hi0
  · have hi1 := hne i hi
    rw [hother i hi1] at hop hi
    exact absurd hs ((h.starting i hop hi).2.2 idx)
  · have hi1 := hne i hi
    have hj : j ≠ idx := by
      rintro rfl
      rw [hself] at hlook
      exact absurd hlook.2.1 (by decide)
    rw [hother i hi1] at hi
    rw [hother i hi1, hother j hj] at hlook
    rw [hother j hj, hitems]
    exact h.served i j hij hlook hi

/-- **The step lemma**: a call that keeps requests apart keeps them in line. Its
cases are the changes of the pool. -/
theorem InLine.step (h : pool.InLine) (hapart : pool.KeepsApart a)
    (hstep : pool.step a = some pool') : pool'.InLine := by
  have hjob := step_job h.coherent hstep
  rcases step_change h.coherent hstep with ⟨rfl, -, -⟩ | hchange
  · exact h
  have hcoh := hchange.coherent h.coherent
  cases hchange with
  | @admitted idx job ha hfree _ hentry hjobs hitems =>
    have hlive : job.Live := live_of_states hentry (by decide)
    have hself : pool'.jobs idx = job := by rw [hjobs, Function.update_self]
    cases hself ▸ hjob idx with
    | kept hkept _ =>
      rw [hkept] at hlive
      exact absurd hfree hlive.1
    | @admitted req snapId hsub hslot hreq _ =>
      subst hsub
      exact h.of_admitted hcoh hfree hslot hreq (operation_of_submitRequest hstep) hapart.1
        (fun j => hapart.2 idx j hslot) hlive hjobs hitems
    | served ha' _ _ =>
      rw [ha'] at ha
      exact absurd ha (by simp)
    | issued _ _ _ hs _ | counted _ _ hs _ | freed _ hs _ | started _ hs _ =>
      rw [hfree] at hs
      exact absurd hs (by decide)
  | @advanced idx job ha hhead hadv hjobs hitems =>
    have hself : pool'.jobs idx = job := by rw [hjobs, Function.update_self]
    have hmoves := hadv.moves
    have hne : ∀ s, s.moves = [] → (pool.jobs idx).state ≠ s := by
      rintro s hs rfl
      rw [hs] at hmoves
      exact absurd hmoves List.not_mem_nil
    have hlive : (pool.jobs idx).Live := ⟨hne _ rfl, hne _ rfl⟩
    refine h.of_served hcoh hjobs ((hself ▸ hjob idx).keeps ha hlive (hne _ rfl)) hlive
      (PoolJobState.live_of_moves _ hmoves) (by rw [hitems]) (fun _ hf => ?_) fun _ _ _ _ hp => ?_
    · rw [hitems]
      exact hf
    · rw [hitems]
      exact hp
  | @finished idx job ha hlive hend hjobs hitems =>
    have hself : pool'.jobs idx = job := by rw [hjobs, Function.update_self]
    refine h.of_finished hcoh hjobs hlive (hend.imp_right fun ⟨hs, hop, hstates⟩ => ?_) hitems
    refine ⟨hs, (hself ▸ hjob idx).keeps ha hlive fun hinit => ?_⟩
    -- an initialization leaves the queue as an invalid job
    have hin := (h.coherent idx).resolve_left hlive.1
    rw [hop] at hstates
    rw [hinit] at hin
    revert hin hstates
    cases (pool.jobs idx).req.operation <;> decide
  | @preponed idx passed rest ha hs _ hmay _ hjobs hitems hitems' =>
    have hself : pool'.jobs idx = (pool.jobs idx).letPass passed.length := by
      rw [hjobs, Function.update_self]
    have hlive := live_of_state hs (by decide)
    have hin := (h.coherent idx).resolve_left hlive.1
    rw [hs] at hin
    have hsteps := RequestOperation.inSteps_of_preponing hin
    refine h.of_served hcoh hjobs ((hself ▸ hjob idx).keeps ha hlive (by rw [hs]; decide)) hlive
      hlive ?_ (fun hinit hf => ?_) fun i j hlook hij hp => ?_
    · rw [hitems, hitems']
      exact List.perm_middle
    · rw [hitems] at hf
      rw [← Option.some.inj hf] at hinit
      rw [hinit] at hsteps
      exact hsteps.elim
    · rw [hitems] at hp
      rw [hitems']
      have hjidx : j ≠ idx := by
        rintro rfl
        exact Overtaking.not_precedes_head hij hp
      refine hp.overtake hjidx fun hmem => ?_
      rintro rfl
      have hopj := hmay j hmem
      rw [← hlook.2.2.2.2] at hopj
      exact hsteps.not_mayBePreponed hopj
  | @blocked idx rest ha hs _ hjobs hitems hitems' =>
    have hself : pool'.jobs idx = (pool.jobs idx).goto .preponeRequestsComplete := by
      rw [hjobs, Function.update_self]
    have hlive := live_of_state hs (by decide)
    have hsame : pool'.indices.items = pool.indices.items := by rw [hitems, hitems']
    refine h.of_served hcoh hjobs ((hself ▸ hjob idx).keeps ha hlive (by rw [hs]; decide)) hlive
      (by decide : PoolJobState.preponeRequestsComplete ≠ .invalid ∧
        PoolJobState.preponeRequestsComplete ≠ .complete)
      (by rw [hsame]) (fun _ hf => ?_) fun _ _ _ _ hp => ?_
    · rw [hsame]
      exact hf
    · rw [hsame]
      exact hp
  | @resumed idx job ha hhead hs hsb _ hentry hjobs hitems =>
    have hself : pool'.jobs idx = job := by rw [hjobs, Function.update_self]
    have hlive := live_of_state hs (by decide)
    have hlive' : job.Live := live_of_states hentry (by decide)
    have hin := (h.coherent idx).resolve_left hlive.1
    have hop : (pool.jobs idx).req.operation = .initializeRequest := by
      rw [hs] at hin
      revert hin
      cases (pool.jobs idx).req.operation <;> decide
    have hvalid : job.req.valid = true := by
      have hold := (h.valid_iff idx).mpr hlive.1
      cases hself ▸ hjob idx with
      | kept hkept _ => rw [hkept, hold]
      | admitted hsub _ _ _ =>
        rw [ha] at hsub
        exact absurd hsub (by simp)
      | served _ _ hkeeps => rw [hkeeps.valid, hold]
      | issued _ _ _ hs' _ | counted _ _ hs' _ | freed _ hs' _ =>
        rw [hs] at hs'
        exact absurd hs' (by decide)
      | started _ _ hstart =>
        rcases hstart with rfl | ⟨op, -, hreq⟩
        · exact absurd rfl hlive'.1
        · rw [hreq]
          rfl
    exact h.of_resumed hcoh hhead hop hlive hvalid hlive' hjobs hitems
  | dropped _ hs hjobs hitems => exact h.of_dropped hcoh hs hjobs hitems

/-- **Completed requests are handed back** in every run in which no request is
submitted to a slot before one that holds a request that looks like it. -/
theorem handsBack_of_run (h : Runs.Run step KeepsApart initializedObject pool) :
    pool.HandsBack := by
  have hline : pool.InLine :=
    h.invariant (fun _ _ _ hline hapart hstep => hline.step hapart hstep) inLine_initializedObject
  exact hline.handsBack

/-- A start on a superblock in the state `Normal`. -/
def sampleStart : List PoolAction :=
  [.execute, .dropGenerated 0, .markCompleteSbState 0 true .normal, .execute]

/-- Two reads that look alike; the first one completes. -/
def sampleLookAlikes : List PoolAction :=
  sampleStart ++ [.submit sampleRead 0, .submit sampleRead 0, .dropGenerated 0,
    .markComplete 0 true]

theorem handsBack_of_run_sample :
    (Runs.after step KeepsApart initializedObject sampleLookAlikes).HandsBack
      ∧ (Runs.after step KeepsApart initializedObject sampleLookAlikes).firstComplete = some 0 :=
  ⟨handsBack_of_run (Runs.Run.after (by decide)), by decide⟩

/-- A read that looks like one in a later slot is submitted to a slot that has
become free, and the one in the later slot completes. -/
def sampleMixUp : List PoolAction :=
  sampleStart ++ [.submit { sampleRead with blockNumber := 1 } 0, .submit sampleRead 0,
    .dropGenerated 0, .markComplete 0 true, .dropCompleted { sampleRead with blockNumber := 1 },
    .submit sampleRead 0, .dropGenerated 1, .markComplete 1 true]

/-- **A completed request is not handed back** when one that looks like it waits
in a slot before it: dropping it raises. -/
theorem not_handsBack_mixedUp :
    (∃ pool, Runs.Run step (fun _ _ => True) initializedObject pool
        ∧ pool.firstComplete = some 1 ∧ pool.dropCompletedRequest pool.peekCompletedRequest = none)
      ∧ ¬ ∀ pool, Runs.Run step (fun _ _ => True) initializedObject pool → pool.HandsBack := by
  have hrun : Runs.Run step (fun _ _ => True) initializedObject
      (Runs.after step (fun _ _ => True) initializedObject sampleMixUp) :=
    Runs.Run.after (by decide)
  have hfirst : (Runs.after step (fun _ _ => True) initializedObject sampleMixUp).firstComplete
      = some 1 := by decide
  have hraise : (Runs.after step (fun _ _ => True) initializedObject
      sampleMixUp).dropCompletedRequest (Runs.after step (fun _ _ => True) initializedObject
        sampleMixUp).peekCompletedRequest = none := by decide
  refine ⟨⟨_, hrun, hfirst, hraise⟩, fun h => ?_⟩
  exact absurd (hraise.symm.trans (h _ hrun 1 hfirst)) (by simp)

end RequestPool

/-! ## The primitives of a read or write

The pool does not keep which blocks it has asked for. The log does, and beside
it the reports, so that a completed request can be compared with what was done
for it. -/

/-- **The pool with the primitives of its reads and writes**: for each slot the
blocks that were asked for since it took its request, and what was reported. -/
structure PrimitiveLog where
  pool : RequestPool
  issued : PoolIndex → List ℕ
  results : PoolIndex → List Bool

namespace PrimitiveLog

/-- The pool at its start, and nothing asked for. -/
def initial : PrimitiveLog where
  pool := RequestPool.initializedObject
  issued _ := []
  results _ := []

/-- What is noted of a call. -/
def note (w : PrimitiveLog) (a : PoolAction) (pool : RequestPool) : PrimitiveLog :=
  match a with
  | .submit _ _ =>
    match w.pool.firstInvalid with
    | none => { w with pool := pool }
    | some idx =>
      { pool := pool
        issued := Function.update w.issued idx []
        results := Function.update w.results idx [] }
  | .dropGenerated idx =>
    { w with
      pool := pool
      issued := Function.update w.issued idx
        (w.issued idx ++ [w.pool.peekGeneratedVbdPrimitive.blockNumber]) }
  | .markComplete idx success =>
    { w with
      pool := pool
      results := Function.update w.results idx (w.results idx ++ [success]) }
  | _ => { w with pool := pool }

/-- A call, and what is noted of it. -/
def step (w : PrimitiveLog) (a : PoolAction) : Option PrimitiveLog :=
  (w.pool.step a).map (w.note a)

/-- The blocks that a request is for. -/
def requestedBlocks (req : Request) : List ℕ :=
  (List.range req.count).map (req.blockNumber + ·)

/-- **A read or write was served in full**: one primitive for each of its blocks
in their order and no other, one report for each, and success exactly when all
of them reported it. -/
structure ServedInFull (w : PrimitiveLog) (idx : PoolIndex) : Prop where
  issued : w.issued idx = requestedBlocks (w.pool.jobs idx).req
  answered : (w.results idx).length = (w.issued idx).length
  success : (w.pool.jobs idx).req.success = true ↔ ∀ r ∈ w.results idx, r = true

/-- What the log says of the job in a slot. -/
structure Logged (w : PrimitiveLog) (idx : PoolIndex) : Prop where
  /-- The primitives that were issued, in order. -/
  issued : w.issued idx
    = (List.range ((w.pool.jobs idx).nrOfPrimsCompleted
        + if (w.pool.jobs idx).state = .inProgress then 1 else 0)).map
      fun k => ((w.pool.jobs idx).req.blockNumber + k) % 2 ^ 64
  /-- Each completed primitive has left an answer. -/
  answered : (w.results idx).length = (w.pool.jobs idx).nrOfPrimsCompleted
  /-- The job has the answer of the last one. -/
  success : (w.pool.jobs idx).req.success = (w.results idx).getLastD true
  /-- A live job has not done all its blocks. -/
  live : (w.pool.jobs idx).state ≠ .complete → (w.pool.jobs idx).nrOfPrimsCompleted = 0
    ∨ (w.pool.jobs idx).nrOfPrimsCompleted < (w.pool.jobs idx).req.count
  /-- A completed job has. -/
  complete : (w.pool.jobs idx).state = .complete →
    (w.pool.jobs idx).nrOfPrimsCompleted = max 1 (w.pool.jobs idx).req.count

/-- **The log is right** about all reads and writes. -/
structure Kept (w : PrimitiveLog) : Prop where
  coherent : w.pool.Coherent
  logged : ∀ idx, (w.pool.jobs idx).req.operation.OnBlocks →
    (w.pool.jobs idx).state ≠ .invalid → w.Logged idx

variable {w w' : PrimitiveLog} {a : PoolAction} {idx : PoolIndex}

/-- At the start nothing was asked for. -/
theorem kept_initial : initial.Kept where
  coherent := RequestPool.coherent_initializedObject
  logged := by
    intro idx hop hs
    by_cases h : idx = 0
    · rw [h] at hop
      exact absurd hop (by decide)
    · have hinv : ∀ i : PoolIndex, i ≠ 0 →
          (RequestPool.initializedObject.jobs i).state = .invalid := by decide
      exact absurd (hinv idx h) hs

/-- The log does not influence the pool. -/
theorem note_pool (w : PrimitiveLog) (a : PoolAction) (pool : RequestPool) :
    (w.note a pool).pool = pool := by
  unfold note
  split
  · split <;> rfl
  all_goals rfl

/-- Nothing is noted for a slot that the call is not about. -/
theorem note_of_not_targets (pool : RequestPool) (h : ¬ w.pool.Targets a idx) :
    (w.note a pool).issued idx = w.issued idx ∧ (w.note a pool).results idx = w.results idx := by
  unfold note
  split
  · split
    · exact ⟨rfl, rfl⟩
    · next i hi =>
      have hne : idx ≠ i := by
        rintro rfl
        exact h hi
      exact ⟨Function.update_of_ne hne _ _, Function.update_of_ne hne _ _⟩
  · next i => exact ⟨Function.update_of_ne (Ne.symm h) _ _, rfl⟩
  · next i success => exact ⟨rfl, Function.update_of_ne (Ne.symm h) _ _⟩
  · exact ⟨rfl, rfl⟩

/-- The block that the primitive of a read or write is for. -/
theorem peek_blockNumber {pool : RequestPool} (hhead : pool.indices.headItem = some idx)
    (hop : (pool.jobs idx).req.operation.OnBlocks) (hs : (pool.jobs idx).state = .pending) :
    pool.peekGeneratedVbdPrimitive.blockNumber
      = ((pool.jobs idx).req.blockNumber + (pool.jobs idx).nrOfPrimsCompleted) % 2 ^ 64 := by
  unfold RequestPool.peekGeneratedVbdPrimitive
  rw [hhead]
  dsimp only
  rw [if_neg (not_not.mpr hs)]
  revert hop
  cases (pool.jobs idx).req.operation <;> first | exact fun _ => rfl | exact fun hop => hop.elim

/-- **The step lemma of the log.** Three calls matter: a submission begins a new
entry, taking a primitive adds a block, and completing one adds a report.
`Execute` changes no job with a read or write. -/
theorem Kept.step (h : w.Kept) (hstep : w.step a = some w') : w'.Kept := by
  obtain ⟨pool', hpool, rfl⟩ := Option.map_eq_some_iff.mp hstep
  have hcoh : pool'.Coherent := by
    rcases RequestPool.step_change h.coherent hpool with ⟨rfl, -, -⟩ | hchange
    · exact h.coherent
    · exact hchange.coherent h.coherent
  refine ⟨by rw [note_pool]; exact hcoh, fun idx hop hs => ?_⟩
  rw [note_pool] at hop hs
  cases RequestPool.step_job h.coherent hpool idx with
  | kept hjob hnot =>
    obtain ⟨hissued, hresults⟩ := note_of_not_targets pool' hnot
    rw [hjob] at hop hs
    obtain ⟨h1, h2, h3, h4, h5⟩ := h.logged idx hop hs
    refine ⟨?_, ?_, ?_, ?_, ?_⟩
    all_goals rw [note_pool, hjob]
    · rw [hissued, h1]
    · rw [hresults, h2]
    · rw [hresults, h3]
    · exact h4
    · exact h5
  | @admitted req snapId ha hslot hreq hblocks =>
    have hstored : req.operation.OnBlocks ∧ req.stored.success = true := by
      rw [hreq] at hop
      unfold Request.stored at hop ⊢
      revert hop
      cases hreqop : req.operation <;>
        first
          | exact fun _ => ⟨trivial, rfl⟩
          | (intro hop; simp only [hreqop] at hop; exact hop.elim)
    obtain ⟨hpend, hnone⟩ := hblocks hstored.1
    have hissued : (w.note a pool').issued idx = [] ∧ (w.note a pool').results idx = [] := by
      rw [ha]
      unfold note
      rw [hslot]
      exact ⟨Function.update_self _ _ _, Function.update_self _ _ _⟩
    refine ⟨?_, ?_, ?_, fun _ => ?_, fun hc => ?_⟩
    all_goals rw [note_pool] at *
    · rw [hissued.1, hpend, hnone]
      rfl
    · rw [hissued.2, hnone]
      rfl
    · rw [hissued.2, hreq, hstored.2]
      rfl
    · exact Or.inl hnone
    · rw [hpend] at hc
      exact absurd hc (by decide)
  | served _ hnot hkeeps =>
    rw [hkeeps.operation] at hop
    exact absurd hop hnot
  | issued ha hhead hop' hs' hjob =>
    obtain ⟨h1, h2, h3, h4, -⟩ := h.logged idx hop' (by rw [hs']; decide)
    have hissued : (w.note a pool').issued idx
          = w.issued idx ++ [w.pool.peekGeneratedVbdPrimitive.blockNumber]
        ∧ (w.note a pool').results idx = w.results idx := by
      rw [ha]
      exact ⟨Function.update_self _ _ _, rfl⟩
    refine ⟨?_, ?_, ?_, fun _ => ?_, fun hc => ?_⟩
    all_goals rw [note_pool, hjob] at *
    · rw [hissued.1, h1, peek_blockNumber hhead hop' hs', hs', if_neg (by decide)]
      show _ = (List.range ((w.pool.jobs idx).nrOfPrimsCompleted + 1)).map _
      rw [Nat.add_zero, List.range_succ, List.map_append]
      rfl
    · rw [hissued.2, h2]
      rfl
    · rw [hissued.2, ← h3]
      rfl
    · exact h4 (by rw [hs']; decide)
    · exact absurd hc (by simp [PoolJob.goto])
  | @counted success ha hop' hs' hjob =>
    obtain ⟨h1, h2, -, h4, -⟩ := h.logged idx hop' (by rw [hs']; decide)
    have hbound := h4 (by rw [hs']; decide)
    have hissued : (w.note a pool').issued idx = w.issued idx
        ∧ (w.note a pool').results idx = w.results idx ++ [success] := by
      rw [ha]
      exact ⟨rfl, Function.update_self _ _ _⟩
    obtain ⟨state, hstate⟩ : ∃ state : PoolJobState, state
        = if (w.pool.jobs idx).nrOfPrimsCompleted + 1 < (w.pool.jobs idx).req.count then .pending
          else .complete := ⟨_, rfl⟩
    rw [← hstate] at hjob
    have hnot : state ≠ .inProgress := by
      rw [hstate]
      split_ifs <;> decide
    refine ⟨?_, ?_, ?_, fun hc => ?_, fun hc => ?_⟩
    all_goals rw [note_pool, hjob] at *
    · rw [hissued.1, h1, hs', if_pos rfl]
      show _ = (List.range ((w.pool.jobs idx).nrOfPrimsCompleted + 1
        + if state = .inProgress then 1 else 0)).map _
      rw [if_neg hnot]
      rfl
    · rw [hissued.2, List.length_append, h2]
      rfl
    · rw [hissued.2, List.getLastD_concat]
      rfl
    · right
      by_contra hlt
      exact hc (hstate.trans (if_neg hlt))
    · have hge : ¬ (w.pool.jobs idx).nrOfPrimsCompleted + 1 < (w.pool.jobs idx).req.count :=
        fun hlt => absurd ((hstate.trans (if_pos hlt)).symm.trans hc) (by decide)
      show (w.pool.jobs idx).nrOfPrimsCompleted + 1 = max 1 (w.pool.jobs idx).req.count
      omega
  | freed _ _ hjob =>
    rw [hjob] at hs
    exact absurd rfl hs
  | started _ _ hjob =>
    rcases hjob with hjob | ⟨op, hmem, hreq⟩
    · rw [hjob] at hs
      exact absurd rfl hs
    · rw [hreq] at hop
      revert hmem hop
      cases op <;> simp [Request.ownObject, RequestOperation.OnBlocks]

/-- **The run lemma of the log.** -/
theorem kept_of_run (h : Runs.Run step (fun _ _ => True) initial w) : w.Kept :=
  h.invariant (fun _ _ _ hk _ hstep => hk.step hstep) kept_initial

/-- The blocks from one on, computed in machine words, are the blocks of the
request exactly when there is one at least and none of them wraps around. -/
theorem issuedBlocks_eq_iff (blk count : ℕ) :
    ((List.range (max 1 count)).map fun k => (blk + k) % 2 ^ 64)
        = (List.range count).map (blk + ·)
      ↔ 0 < count ∧ blk + count ≤ 2 ^ 64 := by
  constructor
  · intro h
    have hlen : max 1 count = count := by
      have := congrArg List.length h
      rwa [List.length_map, List.length_map, List.length_range, List.length_range] at this
    have hpos : 0 < count := by omega
    refine ⟨hpos, ?_⟩
    rw [hlen] at h
    have hlast : (blk + (count - 1)) % 2 ^ 64 = blk + (count - 1) :=
      List.map_inj_left.mp h (count - 1) (List.mem_range.mpr (by omega))
    have hlt : (blk + (count - 1)) % 2 ^ 64 < 2 ^ 64 := Nat.mod_lt _ (by decide)
    omega
  · rintro ⟨hpos, hle⟩
    rw [Nat.max_eq_right hpos]
    refine List.map_inj_left.mpr fun k hk => ?_
    have hk' : k < count := List.mem_range.mp hk
    exact Nat.mod_eq_of_lt (by omega)

/-- The last report stands for all of them exactly when it is a failure if one
of them is. -/
theorem lastReport_iff {results : List Bool} (hne : results ≠ []) :
    (results.getLastD true = true ↔ ∀ r ∈ results, r = true)
      ↔ (false ∈ results → results.getLast? = some false) := by
  have hlast : results.getLast? = some (results.getLast hne) := List.getLast?_eq_some_getLast hne
  rw [List.getLastD_eq_getLast?, hlast, Option.getD_some]
  have hall : (∀ r ∈ results, r = true) ↔ false ∉ results := by
    constructor
    · intro h hmem
      exact absurd (h false hmem) (by decide)
    · intro h r hr
      cases r with
      | false => exact absurd hr h
      | true => rfl
  have hmem : results.getLast hne ∈ results := List.getLast_mem hne
  rw [hall]
  cases hl : results.getLast hne with
  | false =>
    rw [hl] at hmem
    simp [hmem]
  | true => simp

/-- The primitive of a read or write at the head of the queue is taken and
answered. If it was the last one the job is complete, otherwise the next one is
pending. -/
theorem serve_one (success : Bool) (hhead : w.pool.indices.headItem = some idx)
    (hop : (w.pool.jobs idx).req.operation.OnBlocks) (hs : (w.pool.jobs idx).state = .pending) :
    ∃ w', Runs.Run step (fun _ _ => True) w w'
      ∧ w'.results idx = w.results idx ++ [success]
      ∧ w'.pool.jobs idx = ((w.pool.jobs idx).countPrim success).goto
        (if (w.pool.jobs idx).nrOfPrimsCompleted + 1 < (w.pool.jobs idx).req.count then .pending
        else .complete)
      ∧ ((w.pool.jobs idx).nrOfPrimsCompleted + 1 < (w.pool.jobs idx).req.count →
        w'.pool.indices.headItem = some idx) := by
  set pool₁ : RequestPool := w.pool.setJob idx ((w.pool.jobs idx).goto .inProgress) with hpool₁
  set w₁ : PrimitiveLog := w.note (.dropGenerated idx) pool₁ with hw₁
  have hdrop : w.step (.dropGenerated idx) = some w₁ := by
    show Option.map _ (w.pool.dropGeneratedPrimitive idx) = _
    unfold RequestPool.dropGeneratedPrimitive
    rw [if_pos hhead, hs]
    rfl
  have hjob₁ : pool₁.jobs idx = (w.pool.jobs idx).goto .inProgress := by
    rw [hpool₁, RequestPool.setJob_jobs_self]
  have hmark : pool₁.markGeneratedPrimitiveComplete idx success
      = if (w.pool.jobs idx).nrOfPrimsCompleted + 1 < (w.pool.jobs idx).req.count then
          some (pool₁.setJob idx (((w.pool.jobs idx).countPrim success).goto .pending))
        else (pool₁.setJob idx (((w.pool.jobs idx).countPrim success).goto .complete)).dequeue
          idx := by
    unfold RequestPool.markGeneratedPrimitiveComplete
    rw [if_neg (not_not.mpr (show pool₁.indices.headItem = some idx from hhead)), hjob₁]
    revert hop
    unfold PoolJob.nrOfPrims
    show (w.pool.jobs idx).req.operation.OnBlocks → _
    cases hreqop : (w.pool.jobs idx).req.operation <;>
      first
        | exact fun hop => hop.elim
        | (intro _
           simp only [PoolJob.goto, PoolJob.countPrim, hreqop])
  obtain ⟨pool₂, hpool₂, hjob₂, hhead₂⟩ : ∃ pool₂,
      pool₁.markGeneratedPrimitiveComplete idx success = some pool₂
      ∧ pool₂.jobs idx = ((w.pool.jobs idx).countPrim success).goto
        (if (w.pool.jobs idx).nrOfPrimsCompleted + 1 < (w.pool.jobs idx).req.count then .pending
        else .complete)
      ∧ ((w.pool.jobs idx).nrOfPrimsCompleted + 1 < (w.pool.jobs idx).req.count →
        pool₂.indices.headItem = some idx) := by
    by_cases hlt : (w.pool.jobs idx).nrOfPrimsCompleted + 1 < (w.pool.jobs idx).req.count
    · rw [hmark, if_pos hlt, if_pos hlt]
      exact ⟨_, rfl, RequestPool.setJob_jobs_self _ _ _, fun _ => hhead⟩
    · obtain ⟨rest, hitems⟩ : ∃ rest, w.pool.indices.items = idx :: rest := by
        rw [IndexQueue.headItem_eq] at hhead
        exact List.head?_eq_some_iff.mp hhead
      obtain ⟨indices, hdeq, -⟩ := IndexQueue.dequeue_spec hitems
      have hdeq₂ : ∀ job : PoolJob, (pool₁.setJob idx job).dequeue idx
          = some { pool₁.setJob idx job with indices := indices } := by
        intro job
        show Option.map _ (w.pool.indices.dequeue idx) = _
        rw [hdeq]
        rfl
      rw [hmark, if_neg hlt, if_neg hlt, hdeq₂]
      exact ⟨_, rfl, RequestPool.setJob_jobs_self _ _ _, fun h => absurd h hlt⟩
  have hstep₂ : w₁.step (.markComplete idx success)
      = some (w₁.note (.markComplete idx success) pool₂) := by
    show Option.map _ (w₁.pool.markGeneratedPrimitiveComplete idx success) = _
    rw [hw₁, note_pool, hpool₂]
    rfl
  refine ⟨_, (Runs.Run.single _ trivial hdrop).trans (Runs.Run.single _ trivial hstep₂), ?_, ?_, ?_⟩
  · exact Function.update_self _ _ _
  · rw [note_pool, hjob₂]
  · rw [note_pool]
    exact hhead₂

/-- **A read or write at the head of the queue can be served to its end**, with
whatever is reported for its primitives. By induction on the reports. -/
theorem served_of_head (results : List Bool) (hhead : w.pool.indices.headItem = some idx)
    (hop : (w.pool.jobs idx).req.operation.OnBlocks) (hs : (w.pool.jobs idx).state = .pending)
    (hlen : (w.pool.jobs idx).nrOfPrimsCompleted + results.length
      = max 1 (w.pool.jobs idx).req.count) (hne : results ≠ []) :
    ∃ w', Runs.Run step (fun _ _ => True) w w'
      ∧ (w'.pool.jobs idx).state = .complete
      ∧ (w.pool.jobs idx).req.Keeps (w'.pool.jobs idx).req
      ∧ w'.results idx = w.results idx ++ results := by
  induction results generalizing w with
  | nil => exact absurd rfl hne
  | cons success results ih =>
    rw [List.length_cons] at hlen
    obtain ⟨w₁, hrun, hresults, hjob, hhead₁⟩ := serve_one success hhead hop hs
    cases results with
    | nil =>
      rw [List.length_nil] at hlen
      rw [if_neg (by omega)] at hjob
      refine ⟨w₁, hrun, ?_, ?_, hresults⟩
      · rw [hjob]
        rfl
      · rw [hjob]
        exact ⟨rfl, rfl, rfl, rfl, rfl⟩
    | cons success' results =>
      rw [List.length_cons] at hlen
      have hlt : (w.pool.jobs idx).nrOfPrimsCompleted + 1 < (w.pool.jobs idx).req.count := by omega
      rw [if_pos hlt] at hjob
      have hkeeps : (w.pool.jobs idx).req.Keeps (w₁.pool.jobs idx).req := by
        rw [hjob]
        exact ⟨rfl, rfl, rfl, rfl, rfl⟩
      obtain ⟨w', hrun', hcomplete, hkeeps', hresults'⟩ := ih (hhead₁ hlt)
        (hkeeps.operation ▸ hop) (by rw [hjob]; rfl)
        (by
          rw [hkeeps.count, hjob, List.length_cons]
          show (w.pool.jobs idx).nrOfPrimsCompleted + 1 + (results.length + 1) = _
          omega)
        (List.cons_ne_nil _ _)
      refine ⟨w', hrun.trans hrun', hcomplete, hkeeps.trans hkeeps', ?_⟩
      rw [hresults', hresults, List.append_assoc]
      rfl

/-- **When a read or write is served in full**: exactly when it is for one block
at least, its last block has an address, and the primitive that was reported
last failed if any did. It can always be served to its end. -/
theorem servedInFull_iff_of_run (h : Runs.Run step (fun _ _ => True) initial w)
    (hop : (w.pool.jobs idx).req.operation.OnBlocks) :
    ((w.pool.jobs idx).state = .complete →
      (w.ServedInFull idx ↔ 0 < (w.pool.jobs idx).req.count
        ∧ (w.pool.jobs idx).req.blockNumber + (w.pool.jobs idx).req.count ≤ 2 ^ 64
        ∧ (false ∈ w.results idx → (w.results idx).getLast? = some false)))
    ∧ (w.pool.indices.headItem = some idx → (w.pool.jobs idx).state = .pending →
      ∀ results : List Bool, results ≠ [] →
        (w.results idx ++ results).length = max 1 (w.pool.jobs idx).req.count →
        ∃ w', Runs.Run step (fun _ _ => True) w w' ∧ (w'.pool.jobs idx).state = .complete
          ∧ (w.pool.jobs idx).req.Keeps (w'.pool.jobs idx).req
          ∧ w'.results idx = w.results idx ++ results) := by
  constructor
  · intro hs
    obtain ⟨hissued, hanswered, hsuccess, -, hcount⟩ :=
      (kept_of_run h).logged idx hop (by rw [hs]; decide)
    rw [hs, if_neg (by decide), Nat.add_zero, hcount hs] at hissued
    rw [hcount hs] at hanswered
    have hlength : (w.results idx).length = (w.issued idx).length := by
      rw [hanswered, hissued, List.length_map, List.length_range]
    have hne : w.results idx ≠ [] := by
      intro hnil
      rw [hnil, List.length_nil] at hanswered
      omega
    have hblocks := issuedBlocks_eq_iff (w.pool.jobs idx).req.blockNumber
      (w.pool.jobs idx).req.count
    have hlast := lastReport_iff hne
    constructor
    · rintro ⟨h1, -, h3⟩
      obtain ⟨hpos, hle⟩ := hblocks.mp (hissued.symm.trans h1)
      rw [hsuccess] at h3
      exact ⟨hpos, hle, hlast.mp h3⟩
    · rintro ⟨hpos, hle, hfail⟩
      refine ⟨hissued.trans (hblocks.mpr ⟨hpos, hle⟩), hlength, ?_⟩
      rw [hsuccess]
      exact hlast.mpr hfail
  · intro hhead hs results hne hlen
    have hanswered := ((kept_of_run h).logged idx hop (by rw [hs]; decide)).answered
    rw [List.length_append, hanswered] at hlen
    exact served_of_head results hhead hop hs hlen hne

/-- A read of two blocks is submitted after a start. -/
def sampleTwoBlocks : List PoolAction :=
  RequestPool.sampleStart ++ [.submit { RequestPool.sampleRead with count := 2 } 0]

/-- Its primitives are answered. -/
def sampleAnswers (first second : Bool) : List PoolAction :=
  sampleTwoBlocks ++ [.dropGenerated 0, .markComplete 0 first, .dropGenerated 0,
    .markComplete 0 second]

theorem servedInFull_iff_of_run_sample :
    (Runs.after step (fun _ _ => True) initial (sampleAnswers true false)).ServedInFull 0
      ∧ ∃ w, Runs.Run step (fun _ _ => True)
          (Runs.after step (fun _ _ => True) initial sampleTwoBlocks) w
        ∧ (w.pool.jobs 0).state = .complete ∧ w.results 0 = [false, true] := by
  constructor
  · exact ((servedInFull_iff_of_run (Runs.Run.after (by decide)) (by decide)).1
      (by decide)).mpr (by decide)
  · have hop : ((Runs.after step (fun _ _ => True) initial sampleTwoBlocks).pool.jobs
        0).req.operation.OnBlocks := by decide
    obtain ⟨w, hrun, hs, -, hresults⟩ := (servedInFull_iff_of_run (Runs.Run.after (by decide))
      hop).2 (by decide) (by decide) [false, true] (by decide) (by decide)
    exact ⟨w, hrun, hs, hresults⟩

/-- **A failed block is hidden** by the success of a later one. -/
theorem not_servedInFull_failureHidden :
    (∃ w, Runs.Run step (fun _ _ => True) initial w ∧ (w.pool.jobs 0).state = .complete
        ∧ w.results 0 = [false, true] ∧ (w.pool.jobs 0).req.success = true)
      ∧ ¬ ∀ (w : PrimitiveLog) (idx : PoolIndex), Runs.Run step (fun _ _ => True) initial w →
        (w.pool.jobs idx).req.operation.OnBlocks → (w.pool.jobs idx).state = .complete →
        w.ServedInFull idx := by
  have hrun : Runs.Run step (fun _ _ => True) initial
      (Runs.after step (fun _ _ => True) initial (sampleAnswers false true)) :=
    Runs.Run.after (by decide)
  refine ⟨⟨_, hrun, by decide, by decide, by decide⟩, fun h => ?_⟩
  have hserved := h _ 0 hrun (by decide) (by decide)
  exact absurd (hserved.success.mp (by decide)) (by decide)

end PrimitiveLog

end Cbe
