import Cbe.RequestChange

/-!
# The discipline of the request pool

Over a run of the pool each slot occurs in the index queue at most once, and the
slots in the queue are those whose job is neither invalid nor complete
(`Disciplined`). The only call that breaks this is the `Execute` in which a
completed initialization turns into the request that a restart has interrupted:
it enqueues its slot although the slot is still at the head.

A pool that keeps the discipline is never stuck: something can be done for the
job at the head (`Disciplined.serviceable`), and every call that does something
takes it closer to its completion (`work_of_serving`).

The work ahead of a job is a number of calls (`PoolJob.work`), and that of the
pool is the sum over its jobs. A call that serves the head takes one off this
sum; the exception is a report that a step of a rekeying or an extension was not
the last one, which adds what a further step takes. So a run of serving calls is
bounded by the work at its beginning and the number of these reports
(`length_le_work`).

A failed primitive is left aside here. The pool raises when one of a rekeying,
an extension, an initialization or a deinitialization fails, and then nothing
can be done for the head (`HeadFailed`).

The second part is about admission. Whether a request is acceptable is decided
from the queue, whether it can be stored from the jobs. The two agree as long as
a free slot exists whenever the queue is not full (`admissionHonest_iff`), which
fails once the client leaves its completed requests in the pool.
-/

namespace Cbe

/-- The job holds the request: as it was submitted, up to its success flag, or as
the rekeying that it resumes. -/
def PoolJob.Holds (job : PoolJob) (req : Request) (snapId : ℕ) : Prop :=
  match req.operation with
  | .resumeRekeying =>
    job.state = .submittedResumeRekeying ∧ job.req = Request.ownObject .rekey
  | _ => job.Live ∧ job.req = { req with success := job.req.success } ∧ job.snapId = snapId

namespace RequestPool

/-- **The discipline of the index queue.** -/
structure Disciplined (pool : RequestPool) : Prop where
  /-- No slot is in the queue twice. -/
  nodup : pool.indices.items.Nodup
  /-- The slots in the queue are those with a live job. -/
  mem_iff : ∀ idx, idx ∈ pool.indices.items ↔ (pool.jobs idx).Live

/-- The job at the head is an initialization that has found an interrupted
rekeying or extension. -/
def Resumes (pool : RequestPool) : Prop :=
  ∃ idx, pool.indices.items.head? = some idx ∧
    (pool.jobs idx).state = .initializeSbCtrlComplete ∧
    (pool.jobs idx).sbState ∈ [.rekeying, .extendingVbd, .extendingFt]

instance (pool : RequestPool) : Decidable pool.Resumes :=
  inferInstanceAs (Decidable (∃ _, _ ∧ _ ∧ _))

/-- A call that resumes nothing. -/
def Unresumed (pool : RequestPool) (a : PoolAction) : Prop := a = .execute → ¬ pool.Resumes

instance (pool : RequestPool) (a : PoolAction) : Decidable (pool.Unresumed a) :=
  inferInstanceAs (Decidable (_ → ¬ _))

variable {pool pool' : RequestPool} {a : PoolAction}

/-! ## The jobs and their states

Each call changes one job at most, and a job that is changed gets a state of its
operation. -/

/-- The states of all jobs but one are those of before. -/
theorem coherent_update {job : PoolJob} {idx : PoolIndex} (hcoh : pool.Coherent)
    (hjob : job.Coherent) (hjobs : pool'.jobs = Function.update pool.jobs idx job) :
    pool'.Coherent := by
  intro i
  rw [hjobs]
  by_cases hi : i = idx
  · rw [hi, Function.update_self]
    exact hjob
  · rw [Function.update_of_ne hi]
    exact hcoh i

/-- **The states stay those of the operations.** -/
theorem Change.coherent (h : Change pool a pool') (hcoh : pool.Coherent) :
    pool'.Coherent := by
  cases h with
  | admitted _ _ hstates _ hjobs _ => exact coherent_update hcoh (Or.inr hstates) hjobs
  | advanced _ _ hadv hjobs _ =>
    refine coherent_update hcoh (Or.inr ?_) hjobs
    rw [hadv.operation]
    exact hadv.states
  | finished _ _ hjob hjobs _ =>
    refine coherent_update hcoh ?_ hjobs
    rcases hjob with rfl | ⟨hs, _, hstates⟩
    · exact Or.inl rfl
    · exact Or.inr (hs ▸ hstates)
  | @preponed idx _ _ _ hstate _ _ _ hjobs _ _ =>
    refine coherent_update hcoh ?_ hjobs
    exact hcoh idx
  | @blocked idx _ _ hstate _ hjobs _ _ =>
    refine coherent_update hcoh (Or.inr ?_) hjobs
    have hin := (hcoh idx).resolve_left (by rw [hstate]; decide)
    rw [hstate] at hin
    show PoolJobState.preponeRequestsComplete ∈ (pool.jobs idx).req.operation.states
    revert hin
    cases (pool.jobs idx).req.operation <;> decide
  | resumed _ _ _ _ hstates _ hjobs _ => exact coherent_update hcoh (Or.inr hstates) hjobs
  | dropped _ _ hjobs _ => exact coherent_update hcoh (Or.inl rfl) hjobs

/-! ## The discipline over a run

What one call does to the queue and to the jobs is `Change`, and here only what
it does to the discipline is read off it. -/

/-- A job that is replaced by one that is as live as it was changes nothing. -/
theorem Disciplined.update {job : PoolJob} {idx : PoolIndex} (hdis : pool.Disciplined)
    (hlive : job.Live ↔ (pool.jobs idx).Live)
    (hjobs : pool'.jobs = Function.update pool.jobs idx job)
    (hitems : pool'.indices.items.Perm pool.indices.items) : pool'.Disciplined where
  nodup := hitems.nodup_iff.mpr hdis.nodup
  mem_iff i := by
    rw [hitems.mem_iff, hdis.mem_iff, hjobs]
    by_cases hi : i = idx
    · rw [hi, Function.update_self]
      exact hlive.symm
    · rw [Function.update_of_ne hi]

/-- The index of the head is in the queue. -/
theorem mem_of_head {idx : PoolIndex} (h : pool.indices.items.head? = some idx) :
    idx ∈ pool.indices.items := by
  obtain ⟨l, hl⟩ := List.head?_eq_some_iff.mp h
  rw [hl]
  exact List.mem_cons_self

/-- A job in one of some live states is live. -/
theorem live_of_states {job : PoolJob} {l : List PoolJobState} (h : job.state ∈ l)
    (hl : ∀ s ∈ l, s ≠ .invalid ∧ s ≠ .complete) : job.Live := hl _ h

/-- **A call that resumes nothing keeps the discipline.** -/
theorem Change.disciplined (h : Change pool a pool') (hdis : pool.Disciplined)
    (hun : pool.Unresumed a) : pool'.Disciplined := by
  cases h with
  | @admitted idx job _ hfree _ hentry hjobs hitems =>
    have hlive : job.Live := live_of_states hentry (by decide)
    have hnot : idx ∉ pool.indices.items := by
      rw [hdis.mem_iff]
      exact fun hl => hl.1 hfree
    refine ⟨?_, fun i => ?_⟩
    · rw [hitems, List.nodup_append]
      refine ⟨hdis.nodup, List.nodup_singleton idx, fun x hx y hy => ?_⟩
      obtain rfl := List.mem_singleton.mp hy
      exact fun heq => hnot (heq ▸ hx)
    · rw [hitems, hjobs, List.mem_append, List.mem_singleton]
      by_cases hi : i = idx
      · rw [hi, Function.update_self]
        exact ⟨fun _ => hlive, fun _ => Or.inr rfl⟩
      · rw [Function.update_of_ne hi, ← hdis.mem_iff]
        exact or_iff_left hi
  | @advanced idx job _ hhead hadv hjobs hitems =>
    refine hdis.update ?_ hjobs (by rw [hitems])
    exact ⟨fun _ => (hdis.mem_iff idx).mp (mem_of_head hhead),
      fun _ => PoolJobState.live_of_moves _ hadv.moves⟩
  | @finished idx job _ _ hjob hjobs hitems =>
    have hnodup := hdis.nodup
    rw [hitems, List.nodup_cons] at hnodup
    refine ⟨hnodup.2, fun i => ?_⟩
    rw [hjobs]
    by_cases hi : i = idx
    · rw [hi, Function.update_self]
      refine ⟨fun hmem => absurd hmem hnodup.1, fun hlive => ?_⟩
      rcases hjob with rfl | ⟨hs, _⟩
      · exact absurd rfl hlive.1
      · exact absurd hs hlive.2
    · rw [Function.update_of_ne hi, ← hdis.mem_iff, hitems, List.mem_cons]
      exact (or_iff_right hi).symm
  | @preponed idx passed rest _ _ _ _ _ hjobs hitems hitems' =>
    refine hdis.update ?_ hjobs ?_
    · exact Iff.rfl
    · rw [hitems, hitems']
      exact List.perm_middle
  | @blocked idx rest _ hstate _ hjobs hitems hitems' =>
    refine hdis.update ?_ hjobs (by rw [hitems, hitems'])
    refine ⟨fun _ => ?_, fun _ => ?_⟩
    · exact live_of_state hstate (by decide)
    · exact (by decide : PoolJobState.preponeRequestsComplete ≠ .invalid ∧
        PoolJobState.preponeRequestsComplete ≠ .complete)
  | @resumed idx _ ha hhead hstate hsb _ _ _ _ =>
    exact absurd ⟨idx, hhead, hstate, hsb⟩ (hun ha)
  | @dropped idx _ hstate hjobs hitems =>
    refine hdis.update ?_ hjobs (by rw [hitems])
    exact ⟨fun h => absurd rfl h.1, fun h => absurd hstate h.2⟩

/-- The pool starts in the discipline. -/
theorem disciplined_initializedObject : initializedObject.Disciplined where
  nodup := by decide
  mem_iff := by decide

/-- The job that the pool starts with is in a state of its operation. -/
theorem coherent_initializedObject : initializedObject.Coherent := by
  intro idx
  by_cases h : idx = 0
  · subst h
    exact Or.inr (by decide)
  · exact Or.inl (by revert h; revert idx; decide)

/-- What holds in every state that a run without a resumption reaches. -/
structure Ready (pool : RequestPool) : Prop where
  /-- The queue has the live jobs. -/
  disciplined : pool.Disciplined
  /-- The jobs fit to their requests. -/
  coherent : pool.Coherent

/-- Both hold at the start. -/
theorem ready_initializedObject : initializedObject.Ready :=
  ⟨disciplined_initializedObject, coherent_initializedObject⟩

/-- **The step lemma**: a call that resumes nothing keeps both. -/
theorem Ready.step (h : pool.Ready) (hun : pool.Unresumed a) (hstep : pool.step a = some pool') :
    pool'.Ready := by
  rcases step_change h.coherent hstep with ⟨rfl, _, _⟩ | hchange
  · exact h
  · exact ⟨hchange.disciplined h.disciplined hun, hchange.coherent h.coherent⟩

/-- **The run lemma of the discipline.** -/
theorem ready_of_run (h : Runs.Run step Unresumed initializedObject pool) : pool.Ready :=
  h.invariant (fun _ _ _ hready hun hstep => hready.step hun hstep) ready_initializedObject

/-- `Execute` serves the job at the head. -/
theorem execute_of_head {idx : PoolIndex} (hhead : pool.indices.items.head? = some idx) :
    pool.execute = pool.executeJob idx := by
  unfold execute
  rw [IndexQueue.headItem_eq, hhead]

/-- **A resumption puts the index of the head into the queue a second time.** -/
theorem not_disciplined_of_resumes (hcoh : pool.Coherent) (hres : pool.Resumes)
    (hstep : pool.step .execute = some pool') : ¬ pool'.Disciplined := by
  obtain ⟨idx, hhead, hstate, hsb⟩ := hres
  have hop : (pool.jobs idx).req.operation = .initializeRequest := by
    have hin := (hcoh idx).resolve_left (by rw [hstate]; decide)
    rw [hstate] at hin
    revert hin
    cases (pool.jobs idx).req.operation <;> decide
  have hresume : ∀ state op progress, pool.resume idx state op = some (pool', progress) →
      ¬ pool'.Disciplined := by
    intro state op progress h hdis
    obtain ⟨pool'', henq, heq⟩ := Option.map_eq_some_iff.mp h
    obtain rfl := (Prod.mk.inj heq).1
    obtain ⟨indices, hindices, rfl⟩ := Option.map_eq_some_iff.mp henq
    have hitems := IndexQueue.items_of_enqueue hindices
    have hnodup := hdis.nodup
    rw [hitems, List.nodup_append] at hnodup
    exact hnodup.2.2 idx (mem_of_head hhead) idx (List.mem_singleton_self idx) rfl
  obtain ⟨⟨pool'', progress⟩, hexec, rfl⟩ := Option.map_eq_some_iff.mp hstep
  rw [execute_of_head hhead] at hexec
  simp only [executeJob, hop, executeInitialize, hstate] at hexec
  split_ifs at hexec
  split at hexec
  case h_1 hinv =>
    rw [hinv] at hsb
    exact absurd hsb (by decide)
  case h_2 hnormal =>
    rw [hnormal] at hsb
    exact absurd hsb (by decide)
  all_goals exact hresume _ _ _ hexec

/-! ## The work ahead

A sum over the slots, of which a call changes one term. -/

/-- The calls that lie ahead of all jobs. -/
def totalWork (pool : RequestPool) : ℕ := ∑ idx, (pool.jobs idx).work

/-- The work ahead after one job has been replaced. -/
theorem totalWork_update {job : PoolJob} {idx : PoolIndex}
    (hjobs : pool'.jobs = Function.update pool.jobs idx job) :
    pool'.totalWork + (pool.jobs idx).work = pool.totalWork + job.work := by
  unfold totalWork
  have hupd : (fun i => (pool'.jobs i).work)
      = Function.update (fun i => (pool.jobs i).work) idx job.work := by
    funext i
    rw [hjobs]
    by_cases hi : i = idx
    · rw [hi, Function.update_self, Function.update_self]
    · rw [Function.update_of_ne hi, Function.update_of_ne hi]
  rw [hupd, Finset.sum_update_of_mem (Finset.mem_univ idx),
    ← Finset.add_sum_erase Finset.univ (fun i => (pool.jobs i).work) (Finset.mem_univ idx),
    Finset.sdiff_singleton_eq_erase]
  omega

/-- A job that still has to be served has work ahead. -/
theorem work_pos {job : PoolJob} (h : job.Live) : 1 ≤ job.work := by
  refine le_trans ?_ job.rank_le_work
  obtain ⟨hinv, hcomp⟩ := h
  revert hinv hcomp
  cases job.state <;> decide

/-- **A call that serves the head takes the pool closer to the completion of its
jobs**, unless it reports that a step of a rekeying or an extension was not the
last one. -/
theorem Change.work_of_serving (h : Change pool a pool') (hserve : pool.Serving a)
    (hun : pool.Unresumed a) : pool'.totalWork + 1 ≤ pool.totalWork + a.further := by
  have hnone : ∀ op, a.submits ≠ [op] := by
    intro op heq
    cases a with
    | submit => exact hserve
    | _ => exact absurd heq (by simp [PoolAction.submits])
  cases h with
  | admitted ha _ _ _ _ _ => exact absurd ha (hnone _)
  | advanced _ _ hadv hjobs _ =>
    have := totalWork_update hjobs
    have := hadv.work
    omega
  | @finished idx job _ hlive hjob hjobs _ =>
    have := totalWork_update hjobs
    have := work_pos hlive
    have : job.work = 0 := by
      rcases hjob with rfl | ⟨hs, _⟩
      · rfl
      · rw [PoolJob.work_of_plain (by rw [hs]; rfl), hs]
        rfl
    omega
  | @preponed idx passed rest _ hstate hne _ hmax hjobs _ _ =>
    have hwork := totalWork_update hjobs
    have hpos := List.length_pos_iff.mpr hne
    have hbefore : (pool.jobs idx).work = 5 + (maxNrOfRequestsPreponedAtATime
        - (pool.jobs idx).nrOfRequestsPreponed) := by
      unfold PoolJob.work
      rw [hstate]
      rfl
    have hafter : ((pool.jobs idx).letPass passed.length).work
        = 5 + (maxNrOfRequestsPreponedAtATime
          - ((pool.jobs idx).nrOfRequestsPreponed + passed.length)) := by
      unfold PoolJob.work
      rw [show ((pool.jobs idx).letPass passed.length).state = .preponeRequestsPending
        from hstate]
      rfl
    omega
  | @blocked idx rest _ hstate _ hjobs _ _ =>
    have hwork := totalWork_update hjobs
    have hbefore := (pool.jobs idx).rank_le_work
    rw [hstate] at hbefore
    have hafter : ((pool.jobs idx).goto .preponeRequestsComplete).work = 4 :=
      PoolJob.work_of_plain rfl
    have : PoolJobState.preponeRequestsPending.rank = 5 := rfl
    omega
  | @resumed idx _ ha hhead hstate hsb _ _ _ _ =>
    exact absurd ⟨idx, hhead, hstate, hsb⟩ (hun ha)
  | @dropped idx ha _ _ _ =>
    obtain ⟨req, rfl⟩ := ha
    exact hserve.elim

/-- **As many calls serve the pool as there is work ahead**, and thirteen more
for each step that was not the last one. -/
theorem length_le_work {acts : List PoolAction} (hcoh : pool.Coherent)
    (h : Runs.Trace step (fun pool a => pool.Serving a ∧ pool.Unresumed a) pool acts pool') :
    acts.length + pool'.totalWork ≤ pool.totalWork + (acts.map PoolAction.further).sum := by
  induction h with
  | nil => simp
  | cons a acts hC hstep _ ih =>
    rcases step_change hcoh hstep with ⟨_, _, hidle⟩ | hchange
    · exact absurd hC.1 hidle
    · have hwork := hchange.work_of_serving hC.1 hC.2
      have := ih (hchange.coherent hcoh)
      rw [List.length_cons, List.map_cons, List.sum_cons]
      omega

/-! ## The head can be served

There is a lemma for each family of operations: reads and writes, requests that
are one primitive of the superblock control, the initialization, the
deinitialization, and requests in steps. Each goes through the states of its
family. -/

/-- `Execute` raises: a primitive of a rekeying, an extension, an initialization
or a deinitialization has failed, or the initialization has found no valid
superblock. -/
def HeadFailed (pool : RequestPool) : Prop :=
  ∃ idx, pool.indices.items.head? = some idx ∧
    ((pool.jobs idx).state ∈ [.rekeyInitComplete, .rekeyVbaComplete,
        .vbdExtensionStepComplete, .ftExtensionStepComplete, .initializeSbCtrlComplete,
        .deinitializeSbCtrlComplete] ∧ (pool.jobs idx).prim.success = false ∨
      (pool.jobs idx).state = .initializeSbCtrlComplete ∧ (pool.jobs idx).sbState = .invalid)

/-- Something can be done for the job at the head. -/
def Serviceable (pool : RequestPool) : Prop :=
  ∃ a, pool.Serving a ∧ (pool.step a).isSome

section Serviceable

variable {idx : PoolIndex} {rest : List PoolIndex}

/-- `Execute` does something for the head. -/
theorem serviceable_of_execute (hitems : pool.indices.items = idx :: rest)
    (h : ∃ pool', pool.executeJob idx = some (pool', true)) : pool.Serviceable := by
  obtain ⟨pool', h⟩ := h
  have hexec : pool.execute = some (pool', true) := by
    rw [execute_of_head (by rw [hitems]; rfl), h]
  refine ⟨.execute, ⟨pool', hexec⟩, ?_⟩
  show (pool.execute.map Prod.fst).isSome
  rw [hexec]
  rfl

/-- The primitive of the head waits to be taken. -/
theorem serviceable_of_dropped (hitems : pool.indices.items = idx :: rest)
    (h : (pool.jobs idx).state.dropped.isSome) : pool.Serviceable := by
  refine ⟨.dropGenerated idx, trivial, ?_⟩
  show (pool.dropGeneratedPrimitive idx).isSome
  unfold dropGeneratedPrimitive
  rw [IndexQueue.headItem_eq, hitems, List.head?_cons, if_pos rfl, Option.isSome_map]
  exact h

/-- A job at the head can be completed. -/
theorem finish_of_head (hitems : pool.indices.items = idx :: rest) (job : PoolJob) :
    ∃ pool', pool.finish idx job = some (pool', true) := by
  obtain ⟨indices, hdeq, _⟩ := IndexQueue.dequeue_spec (q := (pool.setJob idx job).indices) hitems
  refine ⟨{ pool.setJob idx job with indices := indices }, ?_⟩
  unfold finish dequeue
  rw [hdeq]
  rfl

/-- A job of the superblock control that completes or raises. -/
theorem stepCompleted_of_head (hitems : pool.indices.items = idx :: rest)
    (hsucc : (pool.jobs idx).prim.success ≠ false) :
    ∃ pool', pool.stepCompleted idx = some (pool', true) := by
  unfold stepCompleted
  dsimp only
  rw [if_neg hsucc]
  split_ifs
  · exact finish_of_head hitems _
  · exact ⟨_, rfl⟩

/-- **A request of the client's data at the head.** Its next primitive waits to
be taken, or is on its way and comes back. -/
theorem serviceable_of_access (hitems : pool.indices.items = idx :: rest)
    (hop : (pool.jobs idx).req.operation = .read ∨ (pool.jobs idx).req.operation = .write)
    (hin : (pool.jobs idx).state ∈ (pool.jobs idx).req.operation.states)
    (hlive : (pool.jobs idx).state ≠ .complete) : pool.Serviceable := by
  have hhead : pool.indices.items.head? = some idx := by rw [hitems]; rfl
  have hstates : (pool.jobs idx).state ∈ [PoolJobState.pending, .inProgress, .complete] := by
    rcases hop with hop | hop
    all_goals
      rw [hop] at hin
      exact hin
  simp only [List.mem_cons, List.not_mem_nil, or_false] at hstates
  rcases hstates with hs | hs | hs
  · -- pending
    exact serviceable_of_dropped hitems (by rw [hs]; rfl)
  · -- in progress: the last primitive takes the request out of the queue
    refine ⟨.markComplete idx true, trivial, ?_⟩
    show (pool.markGeneratedPrimitiveComplete idx true).isSome
    unfold markGeneratedPrimitiveComplete
    rw [IndexQueue.headItem_eq, hhead, if_neg (not_not.mpr rfl)]
    obtain ⟨pool', hfin⟩ := finish_of_head hitems
      (((pool.jobs idx).countPrim true).goto .complete)
    obtain ⟨pool'', hdeq, -⟩ := Option.map_eq_some_iff.mp hfin
    rcases hop with hop | hop
    all_goals
      simp only [hop, hs]
      split_ifs
      · rfl
      · rw [hdeq]
        rfl
  · exact absurd hs hlive

/-- **A request that is one primitive of the superblock control**, and completes
with it, successful or not. -/
theorem serviceable_of_sbCtrl (hitems : pool.indices.items = idx :: rest)
    (hop : (pool.jobs idx).req.operation ∈
      [RequestOperation.sync, .createSnapshot, .discardSnapshot])
    (hin : (pool.jobs idx).state ∈ (pool.jobs idx).req.operation.states)
    (hlive : (pool.jobs idx).state ≠ .complete) : pool.Serviceable := by
  have hhead : pool.indices.items.head? = some idx := by rw [hitems]; rfl
  simp only [List.mem_cons, List.not_mem_nil, or_false] at hop
  rcases hop with hop | hop | hop
  all_goals
    simp only [hop, RequestOperation.states, List.mem_cons, List.not_mem_nil, or_false] at hin
    rcases hin with hs | hs | hs | hs | hs
    · -- submitted
      refine serviceable_of_execute hitems ?_
      simp only [executeJob, hop, executeSync, executeCreateSnapshot, executeDiscardSnapshot, hs]
      exact ⟨_, rfl⟩
    · -- pending
      exact serviceable_of_dropped hitems (by rw [hs]; rfl)
    · -- in progress
      refine ⟨if (pool.jobs idx).req.operation = .createSnapshot
        then .markCompleteGen idx true 0 else .markComplete idx true, ?_, ?_⟩
      · rw [hop]
        trivial
      · rw [hop]
        simp [step, markGeneratedPrimitiveComplete, markGeneratedPrimitiveCompleteGen,
          IndexQueue.headItem_eq, hhead, hop, hs]
    · -- complete at the superblock control
      refine serviceable_of_execute hitems ?_
      simp only [executeJob, hop, executeSync, executeCreateSnapshot, executeDiscardSnapshot, hs]
      first
        | exact finish_of_head hitems _
        | split_ifs <;> exact finish_of_head hitems _
    · exact absurd hs hlive

/-- **The initialization at the head**, when its primitive is successful and
finds a superblock in which nothing is to be resumed. -/
theorem serviceable_of_initialize (hitems : pool.indices.items = idx :: rest)
    (hop : (pool.jobs idx).req.operation = .initializeRequest)
    (hin : (pool.jobs idx).state ∈ (pool.jobs idx).req.operation.states)
    (hun : ¬ pool.Resumes) (hok : ¬ pool.HeadFailed) : pool.Serviceable := by
  have hhead : pool.indices.items.head? = some idx := by rw [hitems]; rfl
  simp only [hop, RequestOperation.states, List.mem_cons, List.not_mem_nil, or_false] at hin
  rcases hin with hs | hs | hs | hs
  · -- submitted
    refine serviceable_of_execute hitems ?_
    simp only [executeJob, hop, executeInitialize, hs]
    exact ⟨_, rfl⟩
  · -- pending
    exact serviceable_of_dropped hitems (by rw [hs]; rfl)
  · -- in progress
    refine ⟨.markCompleteSbState idx true .normal, trivial, ?_⟩
    simp [step, markGeneratedPrimitiveCompleteSbState, IndexQueue.headItem_eq, hhead, hop, hs]
  · -- complete
    have hsucc : (pool.jobs idx).prim.success ≠ false := fun hsucc =>
      hok ⟨idx, hhead, Or.inl ⟨by rw [hs]; decide, hsucc⟩⟩
    refine serviceable_of_execute hitems ?_
    simp only [executeJob, hop, executeInitialize, hs]
    rw [if_neg hsucc]
    cases hsb : (pool.jobs idx).sbState with
    | invalid => exact absurd ⟨idx, hhead, Or.inr ⟨hs, hsb⟩⟩ hok
    | normal => exact finish_of_head hitems _
    | rekeying | extendingVbd | extendingFt =>
      exact absurd ⟨idx, hhead, hs, by rw [hsb]; decide⟩ hun

/-- **The deinitialization at the head**, when its primitive is successful. -/
theorem serviceable_of_deinitialize (hitems : pool.indices.items = idx :: rest)
    (hop : (pool.jobs idx).req.operation = .deinitializeRequest)
    (hin : (pool.jobs idx).state ∈ (pool.jobs idx).req.operation.states)
    (hlive : (pool.jobs idx).state ≠ .complete) (hok : ¬ pool.HeadFailed) :
    pool.Serviceable := by
  have hhead : pool.indices.items.head? = some idx := by rw [hitems]; rfl
  simp only [hop, RequestOperation.states, List.mem_cons, List.not_mem_nil, or_false] at hin
  rcases hin with hs | hs | hs | hs | hs
  · -- submitted
    refine serviceable_of_execute hitems ?_
    simp only [executeJob, hop, executeDeinitialize, hs]
    exact ⟨_, rfl⟩
  · -- pending
    exact serviceable_of_dropped hitems (by rw [hs]; rfl)
  · -- in progress
    refine ⟨.markComplete idx true, trivial, ?_⟩
    simp [step, markGeneratedPrimitiveComplete, IndexQueue.headItem_eq, hhead, hop, hs]
  · -- complete at the superblock control
    have hsucc : (pool.jobs idx).prim.success ≠ false := fun hsucc =>
      hok ⟨idx, hhead, Or.inl ⟨by rw [hs]; decide, hsucc⟩⟩
    refine serviceable_of_execute hitems ?_
    simp only [executeJob, hop, executeDeinitialize, hs]
    rw [if_neg hsucc]
    exact finish_of_head hitems _
  · exact absurd hs hlive

/-- **A request in steps at the head**, when its primitives are successful. A
step begins behind the requests that overtake it, and the last one completes the
request. -/
theorem serviceable_of_inSteps (hitems : pool.indices.items = idx :: rest)
    (hop : (pool.jobs idx).req.operation.InSteps)
    (hin : (pool.jobs idx).state ∈ (pool.jobs idx).req.operation.states)
    (hlive : (pool.jobs idx).state ≠ .complete) (hok : ¬ pool.HeadFailed) :
    pool.Serviceable := by
  have hhead : pool.indices.items.head? = some idx := by rw [hitems]; rfl
  have hsucc : (pool.jobs idx).state ∈ [PoolJobState.rekeyInitComplete, .rekeyVbaComplete,
      .vbdExtensionStepComplete, .ftExtensionStepComplete] →
      (pool.jobs idx).prim.success ≠ false := fun hmem hsucc =>
    hok ⟨idx, hhead, Or.inl ⟨List.mem_append_left [_, _] hmem, hsucc⟩⟩
  have hprepone : (pool.jobs idx).state = .preponeRequestsPending →
      ∃ pool', pool.preponeRequests idx = some (pool', true) := fun hs => by
    obtain ⟨pool', h, -⟩ := preponeRequests_change (a := .execute) rfl hitems hs hop
    exact ⟨pool', h⟩
  cases hop' : (pool.jobs idx).req.operation with
  | rekey =>
    simp only [hop', RequestOperation.states, List.mem_cons, List.not_mem_nil, or_false] at hin
    rcases hin with hs | hs | hs | hs | hs | hs | hs | hs | hs | hs | hs
    · -- submitted
      refine serviceable_of_execute hitems ?_
      simp only [executeJob, hop', executeRekey, hs]
      exact ⟨_, rfl⟩
    · -- submitted to be resumed
      refine serviceable_of_execute hitems ?_
      simp only [executeJob, hop', executeRekey, hs]
      exact ⟨_, rfl⟩
    · -- the rekeying is to be initialized
      exact serviceable_of_dropped hitems (by rw [hs]; rfl)
    · refine ⟨.markComplete idx true, trivial, ?_⟩
      simp [step, markGeneratedPrimitiveComplete, IndexQueue.headItem_eq, hhead, hop', hs]
    · refine serviceable_of_execute hitems ?_
      simp only [executeJob, hop', executeRekey, hs]
      rw [if_neg (hsucc (by rw [hs]; decide))]
      exact ⟨_, rfl⟩
    · -- requests may overtake the next step
      refine serviceable_of_execute hitems ?_
      simp only [executeJob, hop', executeRekey, hs]
      exact hprepone hs
    · refine serviceable_of_execute hitems ?_
      simp only [executeJob, hop', executeRekey, hs]
      exact ⟨_, rfl⟩
    · -- the step itself
      exact serviceable_of_dropped hitems (by rw [hs]; rfl)
    · refine ⟨.markCompleteReqFin idx true true, trivial, ?_⟩
      simp [step, markGeneratedPrimitiveCompleteReqFin, IndexQueue.headItem_eq, hhead, hop', hs]
    · refine serviceable_of_execute hitems ?_
      simp only [executeJob, hop', executeRekey, hs]
      exact stepCompleted_of_head hitems (hsucc (by rw [hs]; decide))
    · exact absurd hs hlive
  | extendVbd | extendFt =>
    simp only [hop', RequestOperation.states, List.mem_cons, List.not_mem_nil, or_false] at hin
    rcases hin with hs | hs | hs | hs | hs | hs | hs
    · -- submitted
      refine serviceable_of_execute hitems ?_
      simp only [executeJob, hop', executeExtendVbd, executeExtendFt, hs]
      exact ⟨_, rfl⟩
    · -- requests may overtake the next step
      refine serviceable_of_execute hitems ?_
      simp only [executeJob, hop', executeExtendVbd, executeExtendFt, hs]
      exact hprepone hs
    · refine serviceable_of_execute hitems ?_
      simp only [executeJob, hop', executeExtendVbd, executeExtendFt, hs]
      exact ⟨_, rfl⟩
    · -- the step itself
      exact serviceable_of_dropped hitems (by rw [hs]; rfl)
    · refine ⟨.markCompleteReqFin idx true true, trivial, ?_⟩
      simp [step, markGeneratedPrimitiveCompleteReqFin, IndexQueue.headItem_eq, hhead, hop', hs]
    · refine serviceable_of_execute hitems ?_
      simp only [executeJob, hop', executeExtendVbd, executeExtendFt, hs]
      exact stepCompleted_of_head hitems (hsucc (by rw [hs]; decide))
    · exact absurd hs hlive
  | _ =>
    rw [hop'] at hop
    exact hop.elim

/-- What the head needs is one of the calls that serve it. -/
theorem Disciplined.serviceable (hdis : pool.Disciplined) (hcoh : pool.Coherent)
    (hun : ¬ pool.Resumes) (hok : ¬ pool.HeadFailed)
    (hne : pool.indices.items ≠ []) : pool.Serviceable := by
  obtain ⟨idx, rest, hitems⟩ := List.exists_cons_of_ne_nil hne
  have hhead : pool.indices.items.head? = some idx := by rw [hitems]; rfl
  have hlive := (hdis.mem_iff idx).mp (mem_of_head hhead)
  have hin := (hcoh idx).resolve_left hlive.1
  cases hop : (pool.jobs idx).req.operation with
  | read => exact serviceable_of_access hitems (Or.inl hop) hin hlive.2
  | write => exact serviceable_of_access hitems (Or.inr hop) hin hlive.2
  | sync | createSnapshot | discardSnapshot =>
    exact serviceable_of_sbCtrl hitems (by rw [hop]; decide) hin hlive.2
  | initializeRequest => exact serviceable_of_initialize hitems hop hin hun hok
  | deinitializeRequest => exact serviceable_of_deinitialize hitems hop hin hlive.2 hok
  | rekey | extendVbd | extendFt =>
    exact serviceable_of_inSteps hitems (by rw [hop]; trivial) hin hlive.2 hok
  | resumeRekeying =>
    rw [hop] at hin
    exact absurd hin List.not_mem_nil

end Serviceable

/-- **The pool serves its requests to their end.** Unless a primitive has failed,
something can be done for the head of the queue, and what is done is bounded by
the work ahead and the steps that were not the last ones: once nothing more can
be done, the queue is empty. -/
structure Drains (pool : RequestPool) : Prop where
  /-- Something can be done for the head of the queue. -/
  serviceable : pool.indices.items ≠ [] → ¬ pool.Resumes → ¬ pool.HeadFailed →
    pool.Serviceable
  /-- No run of such calls is longer than the work ahead. -/
  bounded : ∀ acts pool',
    Runs.Trace step (fun pool a => pool.Serving a ∧ pool.Unresumed a) pool acts pool' →
    acts.length ≤ pool.totalWork + (acts.map PoolAction.further).sum

/-- Nothing more is asked of a pool for that. -/
theorem Ready.drains (h : pool.Ready) : pool.Drains where
  serviceable hne hun hok := h.disciplined.serviceable h.coherent hun hok hne
  bounded acts pool' htrace := by
    have := length_le_work h.coherent htrace
    omega

/-- **The discipline over every run.** As long as nothing is resumed, the index
queue holds the live slots, each once, and serves them to their end; the first
`Execute` that resumes something puts a slot into the queue twice. -/
theorem indexQueue_of_run (h : Runs.Run step Unresumed initializedObject pool) :
    pool.Disciplined ∧ pool.Drains ∧
      (pool.Resumes → ∀ pool', pool.step .execute = some pool' → ¬ pool'.Disciplined) := by
  have hready := ready_of_run h
  exact ⟨hready.disciplined, hready.drains,
    fun hres _ hstep => not_disciplined_of_resumes hready.coherent hres hstep⟩

/-- A read of one block. -/
def sampleRead : Request := { Request.ownObject .read with count := 1 }

/-- A start on a superblock in the state `Normal`, then a read. -/
def sampleCalls : List PoolAction :=
  [.execute, .dropGenerated 0, .markCompleteSbState 0 true .normal, .execute,
    .submit sampleRead 0]

/-- A read after a start. -/
theorem indexQueue_of_run_sample :
    ∃ pool, Runs.Run step Unresumed initializedObject pool ∧ pool.indices.items = [0] ∧
      pool.Disciplined ∧ pool.Drains := by
  have hrun : Runs.Run step Unresumed initializedObject
      (Runs.after step Unresumed initializedObject sampleCalls) := Runs.Run.after (by decide)
  exact ⟨_, hrun, by decide, (indexQueue_of_run hrun).1, (indexQueue_of_run hrun).2.1⟩

/-- A start on a superblock in the state `Rekeying`. -/
def sampleResumption : List PoolAction :=
  [.execute, .dropGenerated 0, .markCompleteSbState 0 true .rekeying, .execute]

/-- **A start on a superblock in the state `Rekeying` breaks the discipline**: the
slot of the initialization, now that of the resumed rekeying, is in the queue
twice. -/
theorem not_disciplined_resumed_rekeying :
    ¬ ∀ pool, Runs.Run step (fun _ _ => True) initializedObject pool → pool.Disciplined := by
  intro h
  have hdis := h (Runs.after step (fun _ _ => True) initializedObject sampleResumption)
    (Runs.Run.after (by decide))
  exact absurd hdis.nodup (by decide)

/-! ## Admission

What the pool says and what it does are stated together, for every pool. -/

/-- **Admission is honest**: when the pool says that it can take a request, it
stores it in a free slot and enqueues the slot. -/
def AdmissionHonest (pool : RequestPool) (req : Request) (snapId : ℕ) : Prop :=
  pool.RequestAcceptable → ∃ idx pool',
    pool.submitRequest req snapId = some pool' ∧
    (pool.jobs idx).state = .invalid ∧ (pool'.jobs idx).Holds req snapId ∧
    pool'.indices.items = pool.indices.items ++ [idx] ∧
    ∀ i, i ≠ idx → pool'.jobs i = pool.jobs i

/-- There is a first free slot when there is a free slot. -/
theorem firstInvalid_of_invalid {idx : PoolIndex} (h : (pool.jobs idx).state = .invalid) :
    ∃ idx, pool.firstInvalid = some idx ∧ (pool.jobs idx).state = .invalid := by
  have hsome : pool.firstInvalid.isSome := by
    unfold firstInvalid
    rw [List.find?_isSome]
    exact ⟨idx, List.mem_finRange idx, decide_eq_true h⟩
  obtain ⟨i, hi⟩ := Option.isSome_iff_exists.mp hsome
  have hfree := List.find?_some hi
  exact ⟨i, hi, of_decide_eq_true hfree⟩

/-- **When admission is honest**: exactly when the request is not an
initialization and a slot is free, whenever the queue is not full. -/
theorem admissionHonest_iff (pool : RequestPool) (req : Request) (snapId : ℕ) :
    pool.AdmissionHonest req snapId ↔
      (pool.RequestAcceptable →
        req.operation ≠ .initializeRequest ∧ ∃ idx, (pool.jobs idx).state = .invalid) := by
  constructor
  · intro h hacc
    obtain ⟨idx, pool', hsub, hfree, _⟩ := h hacc
    refine ⟨fun hop => ?_, idx, hfree⟩
    obtain ⟨i, hi, _⟩ := firstInvalid_of_invalid hfree
    unfold submitRequest at hsub
    rw [hi] at hsub
    simp only [hop] at hsub
    exact absurd hsub (by simp)
  · intro h hacc
    obtain ⟨hop, idx, hidx⟩ := h hacc
    obtain ⟨idx, hfirst, hfree⟩ := firstInvalid_of_invalid hidx
    have hroom : pool.indices.items.length < maxNumberOfRequestsInPool := by
      rw [IndexQueue.length_items]
      exact lt_of_le_of_ne pool.indices.used_le hacc
    have hadmit : ∀ job : PoolJob, job.Holds req snapId →
        ∃ pool', (pool.setJob idx job).enqueue idx = some pool' ∧
          (pool.jobs idx).state = .invalid ∧ (pool'.jobs idx).Holds req snapId ∧
          pool'.indices.items = pool.indices.items ++ [idx] ∧
          ∀ i, i ≠ idx → pool'.jobs i = pool.jobs i := by
      intro job hholds
      obtain ⟨indices, henq, hitems⟩ := IndexQueue.enqueue_spec hroom idx
      refine ⟨{ pool.setJob idx job with indices := indices }, ?_, hfree, ?_, hitems,
        fun i hi => setJob_jobs_of_ne _ _ hi⟩
      · unfold enqueue
        rw [setJob_indices, henq]
        rfl
      · show ((pool.setJob idx job).jobs idx).Holds req snapId
        rwa [setJob_jobs_self]
    refine ⟨idx, ?_⟩
    unfold submitRequest
    rw [hfirst]
    dsimp only
    cases hreq : req.operation with
    | initializeRequest => exact absurd hreq hop
    | resumeRekeying =>
      refine hadmit _ ?_
      unfold PoolJob.Holds
      rw [hreq]
      exact ⟨rfl, rfl⟩
    | _ =>
      refine hadmit _ ?_
      unfold PoolJob.Holds
      rw [hreq]
      exact ⟨⟨PoolJobState.noConfusion, PoolJobState.noConfusion⟩, by rw [← hreq], rfl⟩

/-- A read in every slot, completed by the device and not yet dropped by the
client. -/
def sampleUndropped : List PoolAction :=
  [.execute, .dropGenerated 0, .markCompleteSbState 0 true .normal, .execute] ++
    (List.finRange maxNumberOfRequestsInPool).flatMap fun idx =>
      [.submit sampleRead 0, .dropGenerated idx, .markComplete idx true]

/-- **Admission is not honest** after sixteen reads that have completed and that
the client has not dropped: the queue is empty, and no slot is free. -/
theorem not_admissionHonest_undropped :
    ¬ ∀ pool, Runs.Run step (fun _ _ => True) initializedObject pool →
      ∀ req snapId, pool.AdmissionHonest req snapId := by
  intro h
  have hhonest := h (Runs.after step (fun _ _ => True) initializedObject sampleUndropped)
    (Runs.Run.after (by decide)) sampleRead 0
  obtain ⟨idx, hfree⟩ := ((admissionHonest_iff _ _ _).mp hhonest (by decide)).2
  revert hfree
  revert idx
  decide

end RequestPool

end Cbe
