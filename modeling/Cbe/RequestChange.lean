import Cbe.RequestPool
import Mathlib.Algebra.BigOperators.Fin
import Mathlib.Algebra.Order.BigOperators.Group.Finset

/-!
# What one call does to the request pool

A call of the library changes the pool in one of a few ways (`Change`): a
request is admitted to a free slot and to the end of the queue, the job at the
head moves on, it completes and leaves the queue, it lets the requests behind it
go first, a completed job is dropped – or the initialization turns into the
request that a restart has interrupted. Everything that holds of the pool over a
whole run is shown for these changes.

The reason to have them is the size of the source: the state of a job has more
than thirty values, and every call is a case distinction over them. An invariant
that is shown call by call goes through all of these cases each time. Here they
are gone through once, in `step_change`, and every later proof has six cases.

A job that moves on has less work ahead (`PoolJob.work`), but for a step of a
rekeying or an extension that reports that the request goes on. This is what
bounds the number of calls that a request can take, and it is part of what
`PoolJob.Advance` says of a move. The bound counts a whole phase in which other
requests go first, since the counter of a job starts anew in each phase.
-/

namespace Cbe

open RequestPool

/-! ## The states of a job

Which states a job can be in depends on its operation, and which state comes
next depends on the state. Both are tables of the source's branches. They are
lists, so that a question about all the states of an operation is decided by
going through them. -/

/-- The states that a job with a request of an operation goes through. -/
def RequestOperation.states : RequestOperation → List PoolJobState
  | .initializeRequest =>
    [.submitted, .initializeSbCtrlPending, .initializeSbCtrlInProgress,
      .initializeSbCtrlComplete]
  | .deinitializeRequest =>
    [.submitted, .deinitializeSbCtrlPending, .deinitializeSbCtrlInProgress,
      .deinitializeSbCtrlComplete, .complete]
  | .read | .write => [.pending, .inProgress, .complete]
  | .sync =>
    [.submitted, .syncAtSbCtrlPending, .syncAtSbCtrlInProgress, .syncAtSbCtrlComplete,
      .complete]
  | .createSnapshot =>
    [.submitted, .createSnapAtSbCtrlPending, .createSnapAtSbCtrlInProgress,
      .createSnapAtSbCtrlComplete, .complete]
  | .discardSnapshot =>
    [.submitted, .discardSnapAtSbCtrlPending, .discardSnapAtSbCtrlInProgress,
      .discardSnapAtSbCtrlComplete, .complete]
  | .rekey =>
    [.submitted, .submittedResumeRekeying, .rekeyInitPending, .rekeyInitInProgress,
      .rekeyInitComplete, .preponeRequestsPending, .preponeRequestsComplete,
      .rekeyVbaPending, .rekeyVbaInProgress, .rekeyVbaComplete, .complete]
  | .extendVbd =>
    [.submitted, .preponeRequestsPending, .preponeRequestsComplete,
      .vbdExtensionStepPending, .vbdExtensionStepInProgress, .vbdExtensionStepComplete,
      .complete]
  | .extendFt =>
    [.submitted, .preponeRequestsPending, .preponeRequestsComplete,
      .ftExtensionStepPending, .ftExtensionStepInProgress, .ftExtensionStepComplete,
      .complete]
  | .resumeRekeying => []

/-- The operations that go on in steps. -/
def RequestOperation.InSteps : RequestOperation → Prop
  | .rekey | .extendVbd | .extendFt => True
  | _ => False

instance : DecidablePred RequestOperation.InSteps
  | .rekey | .extendVbd | .extendFt => isTrue trivial
  | .initializeRequest | .deinitializeRequest | .read | .write | .sync | .createSnapshot
  | .discardSnapshot | .resumeRekeying => isFalse id

/-- A request that goes on in steps does not go before another one. -/
theorem RequestOperation.InSteps.not_mayBePreponed {op : RequestOperation} (h : op.InSteps) :
    ¬ op.MayBePreponed := by
  cases op <;> first | exact id | exact absurd h id

/-- Only a request that goes on in steps lets others go first. -/
theorem RequestOperation.inSteps_of_preponing {op : RequestOperation}
    (h : PoolJobState.preponeRequestsPending ∈ op.states) : op.InSteps := by
  cases op <;> trivial

/-- Where a job at the head of the queue can move to, short of letting others
go first and of completing. -/
def PoolJobState.moves : PoolJobState → List PoolJobState
  | .pending => [.inProgress]
  | .inProgress => [.pending]
  | .submitted =>
    [.rekeyInitPending, .vbdExtensionStepPending, .ftExtensionStepPending,
      .createSnapAtSbCtrlPending, .syncAtSbCtrlPending, .discardSnapAtSbCtrlPending,
      .initializeSbCtrlPending, .deinitializeSbCtrlPending]
  | .submittedResumeRekeying | .rekeyInitComplete | .vbdExtensionStepComplete
  | .ftExtensionStepComplete | .rekeyVbaComplete => [.preponeRequestsPending]
  | .preponeRequestsComplete =>
    [.vbdExtensionStepPending, .ftExtensionStepPending, .rekeyVbaPending]
  | .rekeyInitPending => [.rekeyInitInProgress]
  | .rekeyInitInProgress => [.rekeyInitComplete]
  | .vbdExtensionStepPending => [.vbdExtensionStepInProgress]
  | .vbdExtensionStepInProgress => [.vbdExtensionStepComplete]
  | .ftExtensionStepPending => [.ftExtensionStepInProgress]
  | .ftExtensionStepInProgress => [.ftExtensionStepComplete]
  | .rekeyVbaPending => [.rekeyVbaInProgress]
  | .rekeyVbaInProgress => [.rekeyVbaComplete]
  | .createSnapAtSbCtrlPending => [.createSnapAtSbCtrlInProgress]
  | .createSnapAtSbCtrlInProgress => [.createSnapAtSbCtrlComplete]
  | .syncAtSbCtrlPending => [.syncAtSbCtrlInProgress]
  | .syncAtSbCtrlInProgress => [.syncAtSbCtrlComplete]
  | .discardSnapAtSbCtrlPending => [.discardSnapAtSbCtrlInProgress]
  | .discardSnapAtSbCtrlInProgress => [.discardSnapAtSbCtrlComplete]
  | .initializeSbCtrlPending => [.initializeSbCtrlInProgress]
  | .initializeSbCtrlInProgress => [.initializeSbCtrlComplete]
  | .deinitializeSbCtrlPending => [.deinitializeSbCtrlInProgress]
  | .deinitializeSbCtrlInProgress => [.deinitializeSbCtrlComplete]
  | .invalid | .preponeRequestsPending | .createSnapAtSbCtrlComplete
  | .syncAtSbCtrlComplete | .discardSnapAtSbCtrlComplete | .initializeSbCtrlComplete
  | .deinitializeSbCtrlComplete | .complete => []

/-- How many calls lie ahead of a job in a state before it completes, if the
next step of a rekeying or an extension is its last one. -/
def PoolJobState.rank : PoolJobState → ℕ
  | .invalid | .complete => 0
  | .createSnapAtSbCtrlComplete | .syncAtSbCtrlComplete | .discardSnapAtSbCtrlComplete
  | .initializeSbCtrlComplete | .deinitializeSbCtrlComplete
  | .vbdExtensionStepComplete | .ftExtensionStepComplete | .rekeyVbaComplete => 1
  | .createSnapAtSbCtrlInProgress | .syncAtSbCtrlInProgress | .discardSnapAtSbCtrlInProgress
  | .initializeSbCtrlInProgress | .deinitializeSbCtrlInProgress
  | .vbdExtensionStepInProgress | .ftExtensionStepInProgress | .rekeyVbaInProgress
  | .inProgress => 2
  | .createSnapAtSbCtrlPending | .syncAtSbCtrlPending | .discardSnapAtSbCtrlPending
  | .initializeSbCtrlPending | .deinitializeSbCtrlPending
  | .vbdExtensionStepPending | .ftExtensionStepPending | .rekeyVbaPending
  | .pending => 3
  | .preponeRequestsComplete => 4
  | .preponeRequestsPending => 5
  | .submittedResumeRekeying | .rekeyInitComplete => 14
  | .rekeyInitInProgress => 15
  | .rekeyInitPending => 16
  | .submitted => 17

/-- The states in which the work ahead does not depend on the counters of the
job. -/
def PoolJobState.plain : PoolJobState → Bool
  | .pending | .inProgress | .preponeRequestsPending | .vbdExtensionStepComplete
  | .ftExtensionStepComplete | .rekeyVbaComplete => false
  | _ => true

/-- A move to such a state has less work ahead. -/
theorem PoolJobState.rank_of_moves {s : PoolJobState} :
    ∀ s' ∈ s.moves, s'.plain = true → s'.rank + 1 ≤ s.rank := by
  cases s <;> decide

/-- No job moves to the two final states. -/
theorem PoolJobState.live_of_moves {s : PoolJobState} :
    ∀ s' ∈ s.moves, s' ≠ .invalid ∧ s' ≠ .complete := by
  cases s <;> decide

namespace PoolJob

/-- A job that the pool still has to serve. -/
def Live (job : PoolJob) : Prop := job.state ≠ .invalid ∧ job.state ≠ .complete

instance (job : PoolJob) : Decidable job.Live := inferInstanceAs (Decidable (_ ∧ _))

/-- The state of a job is one of those of its operation. -/
def Coherent (job : PoolJob) : Prop :=
  job.state = .invalid ∨ job.state ∈ job.req.operation.states

/-- The job after `k` more requests have gone first. -/
def letPass (job : PoolJob) (k : ℕ) : PoolJob :=
  { job with nrOfRequestsPreponed := job.nrOfRequestsPreponed + k }

/-- Without a request that goes first the job is the same. -/
theorem letPass_zero (job : PoolJob) : job.letPass 0 = job := rfl

/-- The requests that have gone first are counted up. -/
theorem letPass_letPass (job : PoolJob) (j k : ℕ) :
    (job.letPass j).letPass k = job.letPass (j + k) := by
  unfold letPass
  rw [Nat.add_assoc]

/-- The calls that lie ahead of a job: two for each primitive of a read or
write, and up to eight for the requests that go first. A step that has completed
without ending its request has the work of a whole step ahead again. -/
def work (job : PoolJob) : ℕ :=
  job.state.rank + match job.state with
    | .pending | .inProgress => 2 * (job.req.count - job.nrOfPrimsCompleted)
    | .preponeRequestsPending => maxNrOfRequestsPreponedAtATime - job.nrOfRequestsPreponed
    | .vbdExtensionStepComplete | .ftExtensionStepComplete | .rekeyVbaComplete =>
      if job.requestFinished then 0 else 13
    | _ => 0

/-- The work ahead is no less than the rank of the state. -/
theorem rank_le_work (job : PoolJob) : job.state.rank ≤ job.work := Nat.le_add_right _ _

/-- In a state that does not depend on the counters the work is the rank. -/
theorem work_of_plain {job : PoolJob} (h : job.state.plain = true) :
    job.work = job.state.rank := by
  unfold work
  revert h
  cases job.state <;> first | exact fun _ => rfl | exact fun h => absurd h (by decide)

end PoolJob

/-- The calls that a completed step adds when it reports that the request goes
on. -/
def RequestPool.PoolAction.further : PoolAction → ℕ
  | .markCompleteReqFin _ _ false => 13
  | _ => 0

/-- The operation under which a request is kept. -/
def Request.keptOperation (req : Request) : RequestOperation :=
  match req.operation with
  | .resumeRekeying => .rekey
  | op => op

/-- The operations that a call submits. -/
def RequestPool.PoolAction.submits : PoolAction → List RequestOperation
  | .submit req _ => [req.keptOperation]
  | _ => []

/-- **A job at the head moves on** by a call: within the states of its
operation, along one of the moves, with less work ahead than before. The counter
of the requests that went first is set back only where such a phase begins. -/
structure PoolJob.Advance (a : PoolAction) (job job' : PoolJob) : Prop where
  /-- The operation is the same. -/
  operation : job'.req.operation = job.req.operation
  /-- The state is one of this operation. -/
  states : job'.state ∈ job.req.operation.states
  /-- It is reached by one of the moves. -/
  moves : job'.state ∈ job.state.moves
  /-- The counter starts again with a new phase. -/
  preponed : job'.nrOfRequestsPreponed =
    if job'.state = .preponeRequestsPending then 0 else job.nrOfRequestsPreponed
  /-- There is less ahead, but for the further steps of the call. -/
  work : job'.work + 1 ≤ job.work + a.further

/-- A job moves on to a state in which only the state counts. -/
theorem PoolJob.Advance.of_plain {a : PoolAction} {job job' : PoolJob} {op : RequestOperation}
    {s : PoolJobState} (s' : PoolJobState) (hop : job.req.operation = op) (hs : job.state = s)
    (hs' : job'.state = s') (hop' : job'.req.operation = job.req.operation)
    (hstates : s' ∈ op.states) (hmoves : s' ∈ s.moves)
    (hpre : job'.nrOfRequestsPreponed = job.nrOfRequestsPreponed) (hplain : s'.plain = true) :
    job.Advance a job' where
  operation := hop'
  states := by rw [hs', hop]; exact hstates
  moves := by rw [hs', hs]; exact hmoves
  preponed := by
    rw [hpre, hs', if_neg]
    rintro rfl
    exact absurd hplain (by decide)
  work := by
    have hrank := PoolJobState.rank_of_moves s' hmoves hplain
    have hle := job.rank_le_work
    rw [hs] at hle
    rw [PoolJob.work_of_plain (by rw [hs']; exact hplain), hs']
    omega

/-- A phase begins in which other requests may go first. -/
theorem PoolJob.Advance.beginPreponing {a : PoolAction} {job job' : PoolJob}
    (hop' : job'.req.operation = job.req.operation)
    (hs' : job'.state = .preponeRequestsPending) (hpre : job'.nrOfRequestsPreponed = 0)
    (hstates : .preponeRequestsPending ∈ job.req.operation.states)
    (hmoves : .preponeRequestsPending ∈ job.state.moves) (hwork : 14 ≤ job.work) :
    job.Advance a job' where
  operation := hop'
  states := by rw [hs']; exact hstates
  moves := by rw [hs']; exact hmoves
  preponed := by rw [hpre, hs', if_pos rfl]
  work := by
    have : job'.work = 13 := by
      unfold PoolJob.work
      rw [hs', hpre]
      rfl
    omega

namespace RequestPool

/-- Every job is in a state of its operation. -/
def Coherent (pool : RequestPool) : Prop := ∀ idx, (pool.jobs idx).Coherent

/-- Why a request that lets others go first does not let another one go: eight
have gone, none is behind it, or the next one may not go first. -/
def Blocked (pool : RequestPool) (idx : PoolIndex) (rest : List PoolIndex) : Prop :=
  maxNrOfRequestsPreponedAtATime ≤ (pool.jobs idx).nrOfRequestsPreponed ∨
    (idx :: rest).getLast? = some idx ∨
    ∃ next, rest.head? = some next ∧ ¬ (pool.jobs next).req.operation.MayBePreponed

/-- **What one call does to the pool.** Each constructor carries what the later
invariants ask for: where the job was in the queue, what its state was, and that
the other jobs and the rest of the queue are the same. -/
inductive Change (pool : RequestPool) (a : PoolAction) : RequestPool → Prop
  | admitted {pool' : RequestPool} {idx : PoolIndex} {job : PoolJob}
      (ha : a.submits = [job.req.operation])
      (hfree : (pool.jobs idx).state = .invalid)
      (hstates : job.state ∈ job.req.operation.states)
      (hentry : job.state ∈ [.pending, .submitted, .submittedResumeRekeying])
      (hjobs : pool'.jobs = Function.update pool.jobs idx job)
      (hitems : pool'.indices.items = pool.indices.items ++ [idx]) : Change pool a pool'
  | advanced {pool' : RequestPool} {idx : PoolIndex} {job : PoolJob}
      (ha : a.submits = [])
      (hhead : pool.indices.items.head? = some idx)
      (hadv : (pool.jobs idx).Advance a job)
      (hjobs : pool'.jobs = Function.update pool.jobs idx job)
      (hitems : pool'.indices.items = pool.indices.items) : Change pool a pool'
  | finished {pool' : RequestPool} {idx : PoolIndex} {job : PoolJob}
      (ha : a.submits = [])
      (hlive : (pool.jobs idx).Live)
      (hjob : job = PoolJob.invalid ∨
        job.state = .complete ∧ job.req.operation = (pool.jobs idx).req.operation ∧
          .complete ∈ job.req.operation.states)
      (hjobs : pool'.jobs = Function.update pool.jobs idx job)
      (hitems : pool.indices.items = idx :: pool'.indices.items) : Change pool a pool'
  | preponed {pool' : RequestPool} {idx : PoolIndex} {passed rest : List PoolIndex}
      (ha : a.submits = [])
      (hstate : (pool.jobs idx).state = .preponeRequestsPending)
      (hne : passed ≠ [])
      (hmay : ∀ b ∈ passed, (pool.jobs b).req.operation.MayBePreponed)
      (hmax : (pool.jobs idx).nrOfRequestsPreponed + passed.length
        ≤ maxNrOfRequestsPreponedAtATime)
      (hjobs : pool'.jobs
        = Function.update pool.jobs idx ((pool.jobs idx).letPass passed.length))
      (hitems : pool.indices.items = idx :: (passed ++ rest))
      (hitems' : pool'.indices.items = passed ++ idx :: rest) : Change pool a pool'
  | blocked {pool' : RequestPool} {idx : PoolIndex} {rest : List PoolIndex}
      (ha : a.submits = [])
      (hstate : (pool.jobs idx).state = .preponeRequestsPending)
      (hblocked : pool.Blocked idx rest)
      (hjobs : pool'.jobs
        = Function.update pool.jobs idx ((pool.jobs idx).goto .preponeRequestsComplete))
      (hitems : pool.indices.items = idx :: rest)
      (hitems' : pool'.indices.items = idx :: rest) : Change pool a pool'
  | resumed {pool' : RequestPool} {idx : PoolIndex} {job : PoolJob}
      (ha : a = .execute)
      (hhead : pool.indices.items.head? = some idx)
      (hstate : (pool.jobs idx).state = .initializeSbCtrlComplete)
      (hsb : (pool.jobs idx).sbState ∈ [.rekeying, .extendingVbd, .extendingFt])
      (hstates : job.state ∈ job.req.operation.states)
      (hentry : job.state ∈ [.submitted, .submittedResumeRekeying])
      (hjobs : pool'.jobs = Function.update pool.jobs idx job)
      (hitems : pool'.indices.items = pool.indices.items ++ [idx]) : Change pool a pool'
  | dropped {pool' : RequestPool} {idx : PoolIndex}
      (ha : ∃ req, a = .dropCompleted req)
      (hstate : (pool.jobs idx).state = .complete)
      (hjobs : pool'.jobs = Function.update pool.jobs idx PoolJob.invalid)
      (hitems : pool'.indices.items = pool.indices.items) : Change pool a pool'

/-! ## Letting requests go first

A rekeying or an extension lets reads, writes, syncs and discards of snapshots
that were submitted behind it go first, up to eight of them between two of its
steps. The source swaps the request with the one behind it, in a loop that a
counter bounds. -/

/-- **The loop lets a run of requests go first** and stops where the request is
blocked, or when its rounds are used up. The requests that went first keep their
order among themselves, as do those behind. The induction is on the rounds left.
-/
theorem tryPreponeRequests_spec {idx : PoolIndex} (fuel : ℕ) {pool : RequestPool}
    {pre rest : List PoolIndex} {tried : Bool}
    (hitems : pool.indices.items = pre ++ idx :: rest) (hpre : idx ∉ pre)
    (hidx : ¬ (pool.jobs idx).req.operation.MayBePreponed) :
    ∃ passed rest' pool',
      tryPreponeRequests idx fuel pool tried = some (pool', tried || !passed.isEmpty) ∧
      rest = passed ++ rest' ∧
      pool'.indices.items = pre ++ (passed ++ idx :: rest') ∧
      (∀ b ∈ passed, (pool.jobs b).req.operation.MayBePreponed) ∧
      pool'.jobs = Function.update pool.jobs idx ((pool.jobs idx).letPass passed.length) ∧
      (passed = [] ∨ (pool.jobs idx).nrOfRequestsPreponed + passed.length
        ≤ maxNrOfRequestsPreponedAtATime) ∧
      (passed.length = fuel ∨ pool'.Blocked idx rest') := by
  induction fuel generalizing pool pre rest tried with
  | zero =>
    refine ⟨[], rest, pool, ?_, rfl, hitems, by simp, ?_, Or.inl rfl, Or.inl rfl⟩
    · rw [List.isEmpty_nil, Bool.not_true, Bool.or_false]
      rfl
    · rw [List.length_nil, PoolJob.letPass_zero, Function.update_eq_self]
  | succ fuel ih =>
    have hstop : pool.Blocked idx rest →
        tryPreponeRequests idx (fuel + 1) pool tried = some (pool, tried) →
        ∃ passed rest' pool',
          tryPreponeRequests idx (fuel + 1) pool tried
            = some (pool', tried || !passed.isEmpty) ∧
          rest = passed ++ rest' ∧
          pool'.indices.items = pre ++ (passed ++ idx :: rest') ∧
          (∀ b ∈ passed, (pool.jobs b).req.operation.MayBePreponed) ∧
          pool'.jobs
            = Function.update pool.jobs idx ((pool.jobs idx).letPass passed.length) ∧
          (passed = [] ∨ (pool.jobs idx).nrOfRequestsPreponed + passed.length
            ≤ maxNrOfRequestsPreponedAtATime) ∧
          (passed.length = fuel + 1 ∨ pool'.Blocked idx rest') := by
      intro hblocked heq
      refine ⟨[], rest, pool, ?_, rfl, hitems, by simp, ?_, Or.inl rfl, Or.inr hblocked⟩
      · rw [heq, List.isEmpty_nil, Bool.not_true, Bool.or_false]
      · rw [List.length_nil, PoolJob.letPass_zero, Function.update_eq_self]
    by_cases hmax : maxNrOfRequestsPreponedAtATime ≤ (pool.jobs idx).nrOfRequestsPreponed
    · refine hstop (Or.inl hmax) ?_
      unfold tryPreponeRequests
      rw [if_pos hmax]
    · obtain ⟨front, last, hlast⟩ : ∃ front last, idx :: rest = front ++ [last] :=
        ⟨_, _, (List.dropLast_append_getLast (List.cons_ne_nil idx rest)).symm⟩
      have htail : pool.indices.itemIsTail idx = some (decide (last = idx)) :=
        IndexQueue.itemIsTail_spec (l := pre ++ front)
          (by rw [hitems, hlast, List.append_assoc]) idx
      have hunfold : tryPreponeRequests idx (fuel + 1) pool tried =
          if last = idx then some (pool, tried)
          else (pool.indices.nextItem idx).bind fun nextIdx =>
            if (pool.jobs nextIdx).req.operation.MayBePreponed then
              (pool.indices.moveOneItemTowardsTail idx).bind fun indices =>
                tryPreponeRequests idx fuel
                  ({ pool with indices := indices }.setJob idx
                    { pool.jobs idx with
                      nrOfRequestsPreponed := (pool.jobs idx).nrOfRequestsPreponed + 1 })
                  true
            else some (pool, tried) := by
        rw [tryPreponeRequests, if_neg hmax, htail, Option.bind_some]
        by_cases hl : last = idx
        · rw [if_pos hl, decide_eq_true hl, if_pos rfl]
        · rw [if_neg hl, decide_eq_false hl, if_neg Bool.false_ne_true]
      by_cases hl : last = idx
      · refine hstop (Or.inr (Or.inl ?_)) ?_
        · rw [hlast, hl, List.getLast?_append, List.getLast?_singleton]
          rfl
        · rw [hunfold, if_pos hl]
      · -- there is a request behind it
        obtain ⟨b, rest, rfl⟩ : ∃ b l, rest = b :: l := by
          cases rest with
          | nil =>
            exfalso
            cases front with
            | nil => exact hl (List.cons.inj hlast).1.symm
            | cons x front =>
              have := (List.cons.inj hlast).2
              exact absurd this.symm (by simp)
          | cons b l => exact ⟨b, l, rfl⟩
        have hnext : pool.indices.nextItem idx = some b :=
          IndexQueue.nextItem_spec hitems hpre
        by_cases hb : (pool.jobs b).req.operation.MayBePreponed
        · obtain ⟨indices, hmove, hmoved⟩ :=
            IndexQueue.moveOneItemTowardsTail_spec hitems hpre
          have hbne : b ≠ idx := fun heq => hidx (heq ▸ hb)
          have hop : ∀ i, ((({ pool with indices := indices } : RequestPool).setJob idx
              ((pool.jobs idx).letPass 1)).jobs i).req = (pool.jobs i).req := by
            intro i
            by_cases hi : i = idx
            · rw [hi, setJob_jobs_self]
              rfl
            · rw [setJob_jobs_of_ne _ _ hi]
          obtain ⟨passed, rest', pool', heq, hrest, hitems', hmay, hjobs, hle, hreason⟩ :=
            @ih (({ pool with indices := indices } : RequestPool).setJob idx
                ((pool.jobs idx).letPass 1)) (pre ++ [b]) rest true
              (by rw [setJob_indices, hmoved, List.append_assoc]; rfl)
              (by simp [hpre, Ne.symm hbne]) (by rw [hop]; exact hidx)
          rw [setJob_jobs_self] at hjobs hle
          refine ⟨b :: passed, rest', pool', ?_, by rw [hrest]; rfl, ?_, ?_, ?_, ?_, ?_⟩
          · rw [hunfold, if_neg hl, hnext, Option.bind_some, if_pos hb, hmove, Option.bind_some]
            refine heq.trans ?_
            rw [Bool.true_or, List.isEmpty_cons, Bool.not_false, Bool.or_true]
          · rw [hitems', List.append_assoc]
            rfl
          · intro x hx
            rcases List.mem_cons.mp hx with rfl | hx
            · exact hb
            · have := hmay x hx
              rwa [hop] at this
          · rw [hjobs]
            show Function.update (Function.update pool.jobs idx _) idx _ = _
            rw [Function.update_idem]
            rw [PoolJob.letPass_letPass, List.length_cons, Nat.add_comm 1]
          · right
            rcases hle with rfl | hle
            · show (pool.jobs idx).nrOfRequestsPreponed + 1 ≤ _
              omega
            · rw [List.length_cons]
              have : (pool.jobs idx).nrOfRequestsPreponed + 1 + passed.length
                  ≤ maxNrOfRequestsPreponedAtATime := hle
              omega
          · rcases hreason with hlen | hblocked
            · exact Or.inl (by rw [List.length_cons, hlen])
            · exact Or.inr hblocked
        · refine hstop (Or.inr (Or.inr ⟨b, rfl, hb⟩)) ?_
          rw [hunfold, if_neg hl, hnext, Option.bind_some, if_neg hb]

/-- The branch `Prepone_Requests_Pending` goes through, whether a request has
gone first or not. -/
theorem preponeRequests_change {pool : RequestPool} {a : PoolAction} {idx : PoolIndex}
    {rest : List PoolIndex} (ha : a.submits = [])
    (hitems : pool.indices.items = idx :: rest)
    (hstate : (pool.jobs idx).state = .preponeRequestsPending)
    (hop : (pool.jobs idx).req.operation.InSteps) :
    ∃ pool', pool.preponeRequests idx = some (pool', true) ∧ Change pool a pool' := by
  obtain ⟨passed, rest', pool', heq, hrest, hitems', hmay, hjobs, hle, hreason⟩ :=
    @tryPreponeRequests_spec idx maxNrOfRequestsPreponedAtATime pool [] rest false hitems
      List.not_mem_nil hop.not_mayBePreponed
  unfold preponeRequests
  rw [heq, Option.map_some, Bool.false_or]
  by_cases hpassed : passed = []
  · subst hpassed
    rw [List.isEmpty_nil, Bool.not_true, if_neg Bool.false_ne_true]
    have hsame : pool'.jobs = pool.jobs := by
      rw [hjobs, List.length_nil, PoolJob.letPass_zero, Function.update_eq_self]
    refine ⟨_, rfl, Change.blocked ha hstate (?_ : pool.Blocked idx rest) ?_ hitems ?_⟩
    · rcases hreason with hlen | hblocked
      · exact absurd hlen (by decide)
      · unfold Blocked at hblocked ⊢
        rw [hsame] at hblocked
        rwa [show rest = rest' from hrest]
    · show Function.update pool'.jobs idx _ = _
      rw [hsame]
    · rw [setJob_indices, hitems', show rest = rest' from hrest]
      rfl
  · rw [show (!passed.isEmpty) = true by simp [hpassed], if_pos rfl]
    refine ⟨_, rfl, Change.preponed ha hstate hpassed hmay (hle.resolve_left hpassed) hjobs
      (hitems.trans (by rw [hrest])) hitems'⟩

/-! ## The changes of the single procedures

Every procedure of `Execute` is a case distinction over the states of its
operation, and each of its branches is one of the lemmas `Change.of_…`. What is
left for the procedure is to name the branch. -/

section Procedures

variable {pool pool' : RequestPool} {a : PoolAction} {idx : PoolIndex} {job : PoolJob}
  {progress : Bool}

/-- The job at the head is replaced by one that has moved on. -/
theorem Change.of_setJob (ha : a.submits = [])
    (hhead : pool.indices.items.head? = some idx) (h : some (pool.setJob idx job) = some pool')
    (hadv : (pool.jobs idx).Advance a job) : Change pool a pool' := by
  obtain rfl := Option.some.inj h
  exact Change.advanced ha hhead hadv rfl rfl

/-- The job at the head has gone to another state, as `proceed` writes it. -/
theorem Change.of_proceed (ha : a.submits = [])
    (hhead : pool.indices.items.head? = some idx)
    (h : pool.proceed idx job = some (pool', progress))
    (hadv : (pool.jobs idx).Advance a job) : Change pool a pool' := by
  exact Change.of_setJob ha hhead (congrArg (Option.map Prod.fst) h) hadv

/-- A job that has been dequeued has been at the head. -/
theorem Change.of_dequeue (ha : a.submits = []) (hlive : (pool.jobs idx).Live)
    (hjob : job = PoolJob.invalid ∨
      job.state = .complete ∧ job.req.operation = (pool.jobs idx).req.operation ∧
        .complete ∈ job.req.operation.states)
    (h : (pool.setJob idx job).dequeue idx = some pool') : Change pool a pool' := by
  obtain ⟨indices, hdeq, rfl⟩ := Option.map_eq_some_iff.mp h
  exact Change.finished ha hlive hjob rfl (IndexQueue.items_of_dequeue hdeq)

/-- The job at the head has completed, as `finish` writes it. -/
theorem Change.of_finish (ha : a.submits = []) (hlive : (pool.jobs idx).Live)
    (h : pool.finish idx job = some (pool', progress))
    (hjob : job = PoolJob.invalid ∨
      job.state = .complete ∧ job.req.operation = (pool.jobs idx).req.operation ∧
        .complete ∈ job.req.operation.states) : Change pool a pool' := by
  obtain ⟨pool'', hdeq, heq⟩ := Option.map_eq_some_iff.mp h
  obtain rfl := (Prod.mk.inj heq).1
  exact Change.of_dequeue ha hlive hjob hdeq

/-- The initialization turns into the request that was interrupted: the state of
the superblock says which, and the job keeps its place at the head of the queue.
-/
theorem Change.of_resume {state : PoolJobState} {op : RequestOperation}
    (hhead : pool.indices.items.head? = some idx)
    (hstate : (pool.jobs idx).state = .initializeSbCtrlComplete)
    (hsb : (pool.jobs idx).sbState ∈ [.rekeying, .extendingVbd, .extendingFt])
    (hstates : state ∈ op.states) (hentry : state ∈ [.submitted, .submittedResumeRekeying])
    (h : pool.resume idx state op = some (pool', progress)) : Change pool .execute pool' := by
  obtain ⟨pool'', henq, heq⟩ := Option.map_eq_some_iff.mp h
  obtain rfl := (Prod.mk.inj heq).1
  obtain ⟨indices, hindices, rfl⟩ := Option.map_eq_some_iff.mp henq
  exact Change.resumed rfl hhead hstate hsb hstates hentry rfl
    (IndexQueue.items_of_enqueue hindices)

/-- A job in a state of the queue is live. -/
theorem live_of_state {s : PoolJobState} (hs : (pool.jobs idx).state = s)
    (h : s ≠ .invalid ∧ s ≠ .complete) : (pool.jobs idx).Live := by
  unfold PoolJob.Live
  rwa [hs]

/-- A completed step ends the request or begins a phase in which others may go
first. -/
theorem stepCompleted_change {s : PoolJobState} (ha : a.submits = [])
    (hhead : pool.indices.items.head? = some idx) (hs : (pool.jobs idx).state = s)
    (hstep : s ∈ [.vbdExtensionStepComplete, .ftExtensionStepComplete, .rekeyVbaComplete])
    (hop : (pool.jobs idx).req.operation.InSteps)
    (h : pool.stepCompleted idx = some (pool', progress)) : Change pool a pool' := by
  have hlive : (pool.jobs idx).Live := by
    refine live_of_state hs ?_
    constructor <;> rintro rfl <;> exact absurd hstep (by decide)
  have hstates : .complete ∈ (pool.jobs idx).req.operation.states ∧
      .preponeRequestsPending ∈ (pool.jobs idx).req.operation.states := by
    revert hop
    cases (pool.jobs idx).req.operation <;> decide
  unfold stepCompleted at h
  dsimp only at h
  split_ifs at h with hsucc hfin
  · exact Change.of_finish ha hlive h (Or.inr ⟨rfl, rfl, hstates.1⟩)
  · refine Change.of_proceed ha hhead h
      (PoolJob.Advance.beginPreponing rfl rfl rfl hstates.2 ?_ ?_)
    · rw [hs]
      revert hstep
      cases s <;> decide
    · have hwork : (pool.jobs idx).work = 14 := by
        unfold PoolJob.work
        rw [hs]
        revert hstep
        cases s <;> intro hstep <;> first
          | exact absurd hstep (by decide)
          | (show 1 + (if _ then _ else _) = 14; rw [if_neg hfin])
      omega

/-- A procedure that does nothing. -/
theorem idle_of_eq (h : some (pool, false) = some (pool', progress)) :
    pool' = pool ∧ progress = false := by
  obtain ⟨rfl, rfl⟩ := Prod.mk.inj (Option.some.inj h)
  exact ⟨rfl, rfl⟩

/-- A sync is handed to the superblock control, and completes. -/
theorem executeSync_change (ha : a.submits = [])
    (hhead : pool.indices.items.head? = some idx)
    (hop : (pool.jobs idx).req.operation = .sync)
    (h : pool.executeSync idx = some (pool', progress)) :
    pool' = pool ∧ progress = false ∨ Change pool a pool' := by
  unfold executeSync at h
  dsimp only at h
  split at h
  case h_1 hs =>
    exact .inr <| Change.of_proceed ha hhead h
      (.of_plain .syncAtSbCtrlPending hop hs rfl rfl (by decide) (by decide) rfl rfl)
  case h_2 hs =>
    have hlive := live_of_state hs (by decide)
    split_ifs at h
    all_goals
      exact .inr <| Change.of_finish ha hlive h
        (Or.inr ⟨rfl, rfl, by rw [PoolJob.done, hop]; decide⟩)
  case h_3 =>
    exact Or.inl (idle_of_eq h)

/-- The creation of a snapshot is handed to the superblock control, and
completes. -/
theorem executeCreateSnapshot_change (ha : a.submits = [])
    (hhead : pool.indices.items.head? = some idx)
    (hop : (pool.jobs idx).req.operation = .createSnapshot)
    (h : pool.executeCreateSnapshot idx = some (pool', progress)) :
    pool' = pool ∧ progress = false ∨ Change pool a pool' := by
  unfold executeCreateSnapshot at h
  dsimp only at h
  split at h
  case h_1 hs =>
    exact .inr <| Change.of_proceed ha hhead h
      (.of_plain .createSnapAtSbCtrlPending hop hs rfl rfl (by decide) (by decide) rfl rfl)
  case h_2 hs =>
    have hlive := live_of_state hs (by decide)
    split_ifs at h
    all_goals
      exact .inr <| Change.of_finish ha hlive h
        (Or.inr ⟨rfl, rfl, by rw [PoolJob.done, hop]; decide⟩)
  case h_3 =>
    exact Or.inl (idle_of_eq h)

/-- The discard of a snapshot is handed to the superblock control, and
completes. -/
theorem executeDiscardSnapshot_change (ha : a.submits = [])
    (hhead : pool.indices.items.head? = some idx)
    (hop : (pool.jobs idx).req.operation = .discardSnapshot)
    (h : pool.executeDiscardSnapshot idx = some (pool', progress)) :
    pool' = pool ∧ progress = false ∨ Change pool a pool' := by
  unfold executeDiscardSnapshot at h
  dsimp only at h
  split at h
  case h_1 hs =>
    exact .inr <| Change.of_proceed ha hhead h
      (.of_plain .discardSnapAtSbCtrlPending hop hs rfl rfl (by decide) (by decide) rfl rfl)
  case h_2 hs =>
    exact .inr <| Change.of_finish ha (live_of_state hs (by decide)) h
      (Or.inr ⟨rfl, rfl, by rw [PoolJob.done, hop]; decide⟩)
  case h_3 =>
    exact Or.inl (idle_of_eq h)

/-- The deinitialization is handed to the superblock control, and completes. -/
theorem executeDeinitialize_change (ha : a.submits = [])
    (hhead : pool.indices.items.head? = some idx)
    (hop : (pool.jobs idx).req.operation = .deinitializeRequest)
    (h : pool.executeDeinitialize idx = some (pool', progress)) :
    pool' = pool ∧ progress = false ∨ Change pool a pool' := by
  unfold executeDeinitialize at h
  dsimp only at h
  split at h
  case h_1 hs =>
    exact .inr <| Change.of_proceed ha hhead h
      (.of_plain .deinitializeSbCtrlPending hop hs rfl rfl (by decide) (by decide) rfl rfl)
  case h_2 hs =>
    split_ifs at h
    exact .inr <| Change.of_finish ha (live_of_state hs (by decide)) h
      (Or.inr ⟨rfl, rfl, by rw [PoolJob.done, hop]; decide⟩)
  case h_3 =>
    exact Or.inl (idle_of_eq h)

/-- The branch `Prepone_Requests_Pending`, as a change. -/
theorem Change.of_preponeRequests (ha : a.submits = [])
    (hhead : pool.indices.items.head? = some idx)
    (hs : (pool.jobs idx).state = .preponeRequestsPending)
    (hop : (pool.jobs idx).req.operation.InSteps)
    (h : pool.preponeRequests idx = some (pool', progress)) : Change pool a pool' := by
  obtain ⟨rest, hitems⟩ := List.head?_eq_some_iff.mp hhead
  obtain ⟨pool'', heq, hchange⟩ := preponeRequests_change ha hitems hs hop
  obtain rfl := (Prod.mk.inj (Option.some.inj (heq.symm.trans h))).1
  exact hchange

/-- The extension of the virtual block device goes on by a step, lets requests
go first, or completes. -/
theorem executeExtendVbd_change (ha : a.submits = [])
    (hhead : pool.indices.items.head? = some idx)
    (hop : (pool.jobs idx).req.operation = .extendVbd)
    (h : pool.executeExtendVbd idx = some (pool', progress)) :
    pool' = pool ∧ progress = false ∨ Change pool a pool' := by
  have hsteps : (pool.jobs idx).req.operation.InSteps := by rw [hop]; trivial
  unfold executeExtendVbd at h
  dsimp only at h
  split at h
  case h_1 hs =>
    exact .inr <| Change.of_proceed ha hhead h
      (.of_plain .vbdExtensionStepPending hop hs rfl rfl (by decide) (by decide) rfl rfl)
  case h_2 hs => exact .inr <| stepCompleted_change ha hhead hs (by decide) hsteps h
  case h_3 hs => exact .inr <| Change.of_preponeRequests ha hhead hs hsteps h
  case h_4 hs =>
    exact .inr <| Change.of_proceed ha hhead h
      (.of_plain .vbdExtensionStepPending hop hs rfl rfl (by decide) (by decide) rfl rfl)
  case h_5 =>
    exact Or.inl (idle_of_eq h)

/-- The extension of the free tree goes on by a step, lets requests go first, or
completes. -/
theorem executeExtendFt_change (ha : a.submits = [])
    (hhead : pool.indices.items.head? = some idx)
    (hop : (pool.jobs idx).req.operation = .extendFt)
    (h : pool.executeExtendFt idx = some (pool', progress)) :
    pool' = pool ∧ progress = false ∨ Change pool a pool' := by
  have hsteps : (pool.jobs idx).req.operation.InSteps := by rw [hop]; trivial
  unfold executeExtendFt at h
  dsimp only at h
  split at h
  case h_1 hs =>
    exact .inr <| Change.of_proceed ha hhead h
      (.of_plain .ftExtensionStepPending hop hs rfl rfl (by decide) (by decide) rfl rfl)
  case h_2 hs => exact .inr <| stepCompleted_change ha hhead hs (by decide) hsteps h
  case h_3 hs => exact .inr <| Change.of_preponeRequests ha hhead hs hsteps h
  case h_4 hs =>
    exact .inr <| Change.of_proceed ha hhead h
      (.of_plain .ftExtensionStepPending hop hs rfl rfl (by decide) (by decide) rfl rfl)
  case h_5 =>
    exact Or.inl (idle_of_eq h)

/-- A rekeying is begun, or resumed, and goes on by single addresses; between
two of them it lets requests go first. -/
theorem executeRekey_change (ha : a.submits = [])
    (hhead : pool.indices.items.head? = some idx)
    (hop : (pool.jobs idx).req.operation = .rekey)
    (h : pool.executeRekey idx = some (pool', progress)) :
    pool' = pool ∧ progress = false ∨ Change pool a pool' := by
  have hsteps : (pool.jobs idx).req.operation.InSteps := by rw [hop]; trivial
  have hwork : ∀ s, (pool.jobs idx).state = s → s.rank = 14 → 14 ≤ (pool.jobs idx).work := by
    rintro s rfl hrank
    exact hrank ▸ (pool.jobs idx).rank_le_work
  unfold executeRekey at h
  dsimp only at h
  split at h
  case h_1 hs =>
    exact .inr <| Change.of_proceed ha hhead h
      (.of_plain .rekeyInitPending hop hs rfl rfl (by decide) (by decide) rfl rfl)
  case h_2 hs =>
    exact .inr <| Change.of_proceed ha hhead h
      (.beginPreponing rfl rfl rfl (by rw [hop]; decide) (by rw [hs]; decide) (hwork _ hs rfl))
  case h_3 hs =>
    split_ifs at h
    exact .inr <| Change.of_proceed ha hhead h
      (.beginPreponing rfl rfl rfl (by rw [hop]; decide) (by rw [hs]; decide) (hwork _ hs rfl))
  case h_4 hs => exact .inr <| stepCompleted_change ha hhead hs (by decide) hsteps h
  case h_5 hs => exact .inr <| Change.of_preponeRequests ha hhead hs hsteps h
  case h_6 hs =>
    exact .inr <| Change.of_proceed ha hhead h
      (.of_plain .rekeyVbaPending hop hs rfl rfl (by decide) (by decide) rfl rfl)
  case h_7 =>
    exact Or.inl (idle_of_eq h)

/-- The initialization completes, or turns into the request that a restart has
interrupted. -/
theorem executeInitialize_change
    (hhead : pool.indices.items.head? = some idx)
    (hop : (pool.jobs idx).req.operation = .initializeRequest)
    (h : pool.executeInitialize idx = some (pool', progress)) :
    pool' = pool ∧ progress = false ∨ Change pool .execute pool' := by
  have ha : PoolAction.execute.submits = [] := rfl
  unfold executeInitialize at h
  dsimp only at h
  split at h
  case h_1 hs =>
    exact .inr <| Change.of_proceed ha hhead h
      (.of_plain .initializeSbCtrlPending hop hs rfl rfl (by decide) (by decide) rfl rfl)
  case h_2 hs =>
    split_ifs at h
    split at h
    case h_1 => exact absurd h (by simp)
    case h_2 =>
      exact .inr <| Change.of_finish ha (live_of_state hs (by decide)) h (Or.inl rfl)
    case h_3 hsb =>
      exact .inr <| Change.of_resume hhead hs (by rw [hsb]; decide) (by decide) (by decide) h
    case h_4 hsb =>
      exact .inr <| Change.of_resume hhead hs (by rw [hsb]; decide) (by decide) (by decide) h
    case h_5 hsb =>
      exact .inr <| Change.of_resume hhead hs (by rw [hsb]; decide) (by decide) (by decide) h
  case h_3 =>
    exact Or.inl (idle_of_eq h)

/-- **`Execute` serves the head of the queue**: it is the one call that looks at
the operation of the job, so its cases are the operations. -/
theorem execute_change (h : pool.execute = some (pool', progress)) :
    pool' = pool ∧ progress = false ∨ Change pool .execute pool' := by
  have ha : PoolAction.execute.submits = [] := rfl
  unfold execute at h
  rw [IndexQueue.headItem_eq] at h
  split at h
  case h_1 =>
    exact Or.inl (idle_of_eq h)
  case h_2 idx hhead =>
    unfold executeJob at h
    split at h
    case h_1 hop => exact executeSync_change ha hhead hop h
    case h_2 hop => exact executeRekey_change ha hhead hop h
    case h_3 hop => exact executeExtendVbd_change ha hhead hop h
    case h_4 hop => exact executeExtendFt_change ha hhead hop h
    case h_5 hop => exact executeCreateSnapshot_change ha hhead hop h
    case h_6 hop => exact executeDiscardSnapshot_change ha hhead hop h
    case h_7 hop => exact executeInitialize_change hhead hop h
    case h_8 hop => exact executeDeinitialize_change ha hhead hop h
    all_goals
      exact Or.inl (idle_of_eq h)

/-! ## The changes of the other calls

The remaining calls name the slot they are about. They are calls of the library
about a primitive that the pool has offered, so the slot is the head of the
queue wherever they do not raise. -/

/-- What taking a primitive does to a state. -/
theorem PoolJobState.dropped_spec {s s' : PoolJobState} (h : s.dropped = some s') :
    s' ∈ s.moves ∧ s ≠ .invalid ∧ ∀ op : RequestOperation, s ∈ op.states → s' ∈ op.states := by
  cases s <;> simp only [PoolJobState.dropped, reduceCtorEq, Option.some.injEq] at h <;> subst h
  all_goals
    refine ⟨by decide, by decide, fun op => ?_⟩
    cases op <;> decide

/-- Taking the primitive of a job brings it from pending to in progress. -/
theorem dropGeneratedPrimitive_change (hcoh : pool.Coherent) (ha : a.submits = [])
    (h : pool.dropGeneratedPrimitive idx = some pool') : Change pool a pool' := by
  unfold dropGeneratedPrimitive at h
  rw [IndexQueue.headItem_eq] at h
  split_ifs at h with hhead
  obtain ⟨s', hs', rfl⟩ := Option.map_eq_some_iff.mp h
  obtain ⟨hmoves, hne, hstates⟩ := PoolJobState.dropped_spec hs'
  have hin := hstates _ ((hcoh idx).resolve_left hne)
  refine Change.of_setJob ha hhead rfl ?_
  by_cases hplain : s'.plain = true
  · exact .of_plain s' rfl rfl rfl rfl hin hmoves rfl hplain
  · -- a primitive of a read or write
    have hs : (pool.jobs idx).state = .pending ∧ s' = .inProgress := by
      revert hs' hplain
      cases (pool.jobs idx).state <;>
        simp only [PoolJobState.dropped, reduceCtorEq, Option.some.injEq, false_implies] <;>
        rintro rfl <;> decide
    obtain ⟨hs, rfl⟩ := hs
    refine ⟨rfl, hin, hmoves, rfl, ?_⟩
    unfold PoolJob.work
    rw [hs]
    show 2 + 2 * ((pool.jobs idx).req.count - (pool.jobs idx).nrOfPrimsCompleted) + 1
      ≤ 3 + 2 * ((pool.jobs idx).req.count - (pool.jobs idx).nrOfPrimsCompleted) + _
    omega

/-- The initialization of the superblock control has completed. -/
theorem markGeneratedPrimitiveCompleteSbState_change {success : Bool}
    {sbState : SuperblockState} (ha : a.submits = [])
    (h : pool.markGeneratedPrimitiveCompleteSbState idx success sbState = some pool') :
    Change pool a pool' := by
  unfold markGeneratedPrimitiveCompleteSbState at h
  rw [IndexQueue.headItem_eq] at h
  obtain ⟨hhead, h⟩ := Option.ite_none_left_eq_some.mp h
  have hhead := not_not.mp hhead
  dsimp only at h
  split at h
  case h_1 hop hs =>
    exact Change.of_setJob ha hhead h
      (.of_plain .initializeSbCtrlComplete hop hs rfl rfl (by decide) (by decide) rfl rfl)
  case h_2 => exact absurd h (by simp)

/-- The creation of a snapshot has completed and given its generation. -/
theorem markGeneratedPrimitiveCompleteGen_change {success : Bool} {gen : ℕ}
    (ha : a.submits = [])
    (h : pool.markGeneratedPrimitiveCompleteGen idx success gen = some pool') :
    Change pool a pool' := by
  unfold markGeneratedPrimitiveCompleteGen at h
  rw [IndexQueue.headItem_eq] at h
  obtain ⟨hhead, h⟩ := Option.ite_none_left_eq_some.mp h
  have hhead := not_not.mp hhead
  dsimp only at h
  split at h
  case h_1 hop hs =>
    exact Change.of_setJob ha hhead h
      (.of_plain .createSnapAtSbCtrlComplete hop hs rfl rfl (by decide) (by decide) rfl rfl)
  case h_2 => exact absurd h (by simp)

/-- A step of a rekeying or an extension has completed: it may report that the
request goes on. -/
theorem Change.of_stepReported {success requestFinished : Bool} {op : RequestOperation}
    {s s' : PoolJobState} (hhead : pool.indices.items.head? = some idx)
    (hop : (pool.jobs idx).req.operation = op) (hs : (pool.jobs idx).state = s)
    (hstates : s' ∈ op.states) (hmoves : s' ∈ s.moves)
    (hstep : s' ∈ [.vbdExtensionStepComplete, .ftExtensionStepComplete, .rekeyVbaComplete])
    (hrank : s.rank = 2) :
    Change pool (.markCompleteReqFin idx success requestFinished)
      (pool.setJob idx
        { (pool.jobs idx).primDone success s' with requestFinished := requestFinished }) := by
  refine Change.of_setJob rfl hhead rfl ⟨rfl, ?_, ?_, ?_, ?_⟩
  · rw [hop]
    exact hstates
  · rw [hs]
    exact hmoves
  · rw [if_neg]
    · rfl
    · show s' ≠ .preponeRequestsPending
      rintro rfl
      exact absurd hstep (by decide)
  · have hle := (pool.jobs idx).rank_le_work
    rw [hs, hrank] at hle
    have hwork : ∀ job : PoolJob, job.state = s' → job.requestFinished = requestFinished →
        job.work = 1 + if requestFinished then 0 else 13 := by
      intro job hjob hfin
      unfold PoolJob.work
      rw [hjob]
      revert hstep
      cases s' <;> intro hstep <;> first
        | exact absurd hstep (by decide)
        | (rw [← hfin]; rfl)
    rw [hwork _ rfl rfl]
    cases requestFinished with
    | true =>
      show 1 + 0 + 1 ≤ _ + 0
      omega
    | false =>
      show 1 + 13 + 1 ≤ _ + 13
      omega

/-- A step of a request that goes on in steps has completed. -/
theorem markGeneratedPrimitiveCompleteReqFin_change {success requestFinished : Bool}
    (h : pool.markGeneratedPrimitiveCompleteReqFin idx success requestFinished = some pool') :
    Change pool (.markCompleteReqFin idx success requestFinished) pool' := by
  unfold markGeneratedPrimitiveCompleteReqFin at h
  rw [IndexQueue.headItem_eq] at h
  obtain ⟨hhead, h⟩ := Option.ite_none_left_eq_some.mp h
  have hhead := not_not.mp hhead
  dsimp only at h
  split at h
  case h_4 => exact absurd h (by simp)
  all_goals
    rename_i hop hs
    obtain rfl := Option.some.inj h
    exact Change.of_stepReported hhead hop hs (by decide) (by decide) (by decide) rfl

/-- A primitive of a read or write has completed. -/
theorem Change.of_primCounted {success : Bool} {op : RequestOperation} (ha : a.submits = [])
    (hhead : pool.indices.items.head? = some idx)
    (hop : (pool.jobs idx).req.operation = op) (hs : (pool.jobs idx).state = .inProgress)
    (hpend : .pending ∈ op.states) (hcomp : .complete ∈ op.states)
    (hcount : ∀ j : PoolJob, j.req.operation = op → j.nrOfPrims = j.req.count)
    (hjob : job = (pool.jobs idx).countPrim success)
    (h : (if job.nrOfPrimsCompleted < job.nrOfPrims then
        some (pool.setJob idx (job.goto .pending))
      else (pool.setJob idx (job.goto .complete)).dequeue idx) = some pool') :
    Change pool a pool' := by
  have hopj : job.req.operation = op := by rw [hjob]; exact hop
  split_ifs at h with hlt
  · refine Change.of_setJob ha hhead h ⟨hopj.trans hop.symm, ?_, ?_, ?_, ?_⟩
    · rw [hop]
      exact hpend
    · rw [hs]
      exact List.mem_singleton_self _
    · rw [hjob]
      rfl
    · rw [hcount job hopj, hjob] at hlt
      have hlt' : (pool.jobs idx).nrOfPrimsCompleted + 1 < (pool.jobs idx).req.count := hlt
      unfold PoolJob.work
      rw [hs, hjob]
      show 3 + 2 * ((pool.jobs idx).req.count - ((pool.jobs idx).nrOfPrimsCompleted + 1)) + 1
        ≤ 2 + 2 * ((pool.jobs idx).req.count - (pool.jobs idx).nrOfPrimsCompleted) + _
      omega
  · refine Change.of_dequeue ha (live_of_state hs (by decide)) (Or.inr ⟨rfl, ?_, ?_⟩) h
    · exact hopj.trans hop.symm
    · show PoolJobState.complete ∈ job.req.operation.states
      rw [hopj]
      exact hcomp

/-- A primitive has completed that reports nothing but its success. -/
theorem markGeneratedPrimitiveComplete_change {success : Bool} (ha : a.submits = [])
    (h : pool.markGeneratedPrimitiveComplete idx success = some pool') :
    Change pool a pool' := by
  unfold markGeneratedPrimitiveComplete at h
  rw [IndexQueue.headItem_eq] at h
  obtain ⟨hhead, h⟩ := Option.ite_none_left_eq_some.mp h
  have hhead := not_not.mp hhead
  dsimp only at h
  split at h
  case h_1 hop hs =>
    exact Change.of_setJob ha hhead h
      (.of_plain .syncAtSbCtrlComplete hop hs rfl rfl (by decide) (by decide) rfl rfl)
  case h_2 hop hs =>
    exact Change.of_setJob ha hhead h
      (.of_plain .discardSnapAtSbCtrlComplete hop hs rfl rfl (by decide) (by decide) rfl rfl)
  case h_3 hop hs =>
    exact Change.of_setJob ha hhead h
      (.of_plain .rekeyInitComplete hop hs rfl rfl (by decide) (by decide) rfl rfl)
  case h_4 hop hs =>
    exact Change.of_setJob ha hhead h
      (.of_plain .deinitializeSbCtrlComplete hop hs rfl rfl (by decide) (by decide) rfl rfl)
  case h_5 hop hs =>
    exact Change.of_primCounted ha hhead hop hs (by decide) (by decide)
      (fun j hj => by unfold PoolJob.nrOfPrims; rw [hj]) rfl h
  case h_6 hop hs =>
    exact Change.of_primCounted ha hhead hop hs (by decide) (by decide)
      (fun j hj => by unfold PoolJob.nrOfPrims; rw [hj]) rfl h
  case h_7 => exact absurd h (by simp)

/-- A submission admits the request to a free slot, at the end of the queue. -/
theorem submitRequest_change {req : Request} {snapId : ℕ}
    (h : pool.submitRequest req snapId = some pool') :
    Change pool (.submit req snapId) pool' := by
  unfold submitRequest at h
  split at h
  case h_1 => exact absurd h (by simp)
  case h_2 idx hfirst =>
    have hfree : (pool.jobs idx).state = .invalid := by
      have := List.find?_some hfirst
      exact of_decide_eq_true this
    have hadmit : ∀ (job : PoolJob) (op : RequestOperation) (state : PoolJobState),
        (pool.setJob idx job).enqueue idx = some pool' → job.req.operation = op →
        job.state = state → req.keptOperation = op → state ∈ op.states →
        state ∈ [PoolJobState.pending, .submitted, .submittedResumeRekeying] →
        Change pool (.submit req snapId) pool' := by
      rintro job op state henq hop rfl hkept hstates hentry
      obtain ⟨indices, hindices, rfl⟩ := Option.map_eq_some_iff.mp henq
      refine Change.admitted (congrArg (· :: []) (hkept.trans hop.symm)) hfree ?_ hentry rfl
        (IndexQueue.items_of_enqueue hindices)
      rw [hop]
      exact hstates
    split at h
    case h_1 => exact absurd h (by simp)
    case h_9 hop =>
      exact hadmit _ .rekey .submittedResumeRekeying h rfl rfl
        (by unfold Request.keptOperation; rw [hop]) (by decide) (by decide)
    case h_10 hop =>
      exact hadmit _ _ .pending h hop rfl (by unfold Request.keptOperation; rw [hop])
        (by decide) (by decide)
    case h_11 hop =>
      exact hadmit _ _ .pending h hop rfl (by unfold Request.keptOperation; rw [hop])
        (by decide) (by decide)
    all_goals
      rename_i hop
      exact hadmit _ _ .submitted h hop rfl (by unfold Request.keptOperation; rw [hop])
        (by decide) (by decide)

/-- A completed request leaves the pool, which does not touch the queue. -/
theorem dropCompletedRequest_change {req : Request}
    (h : pool.dropCompletedRequest req = some pool') :
    Change pool (.dropCompleted req) pool' := by
  unfold dropCompletedRequest at h
  split at h
  case h_1 => exact absurd h (by simp)
  case h_2 idx _ =>
    obtain ⟨hstate, h⟩ := Option.ite_none_left_eq_some.mp h
    obtain rfl := Option.some.inj h
    exact Change.dropped ⟨req, rfl⟩ (not_not.mp hstate) rfl rfl

/-- A call that serves the head of the queue: `Execute` when it makes progress,
and what becomes of the primitive of the head. -/
def Serving (pool : RequestPool) : PoolAction → Prop
  | .execute => ∃ pool', pool.execute = some (pool', true)
  | .dropGenerated _ | .markComplete _ _ | .markCompleteReqFin _ _ _
  | .markCompleteSbState _ _ _ | .markCompleteGen _ _ _ => True
  | .submit _ _ | .dropCompleted _ => False

/-- **Every call of the library is one of the changes**, but for an `Execute`
without progress. It is the only theorem that looks into all the procedures; the
runs of the pool are shown from it alone. -/
theorem step_change (hcoh : pool.Coherent) (h : pool.step a = some pool') :
    pool' = pool ∧ a.submits = [] ∧ ¬ pool.Serving a ∨ Change pool a pool' := by
  cases a with
  | submit req snapId => exact .inr (submitRequest_change h)
  | execute =>
    obtain ⟨⟨pool'', progress⟩, hexec, rfl⟩ := Option.map_eq_some_iff.mp h
    rcases execute_change hexec with ⟨rfl, rfl⟩ | hchange
    · refine .inl ⟨rfl, rfl, ?_⟩
      rintro ⟨pool', hserve⟩
      have := (Prod.mk.inj (Option.some.inj (hexec.symm.trans hserve))).2
      exact Bool.false_ne_true this
    · exact .inr hchange
  | dropGenerated idx => exact .inr (dropGeneratedPrimitive_change hcoh rfl h)
  | markComplete idx success => exact .inr (markGeneratedPrimitiveComplete_change rfl h)
  | markCompleteReqFin idx success requestFinished =>
    exact .inr (markGeneratedPrimitiveCompleteReqFin_change h)
  | markCompleteSbState idx success sbState =>
    exact .inr (markGeneratedPrimitiveCompleteSbState_change rfl h)
  | markCompleteGen idx success gen =>
    exact .inr (markGeneratedPrimitiveCompleteGen_change rfl h)
  | dropCompleted req => exact .inr (dropCompletedRequest_change h)

end Procedures

end RequestPool

end Cbe
