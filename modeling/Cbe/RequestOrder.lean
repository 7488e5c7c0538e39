import Cbe.RequestDiscipline
import Cbe.Support.Overtaking

/-!
# The order of the requests

A history records, beside the pool, the requests in the order in which they were
submitted. Each has a number, its ticket; the slots of the pool hold the tickets
of their requests. The line is the tickets of the completed requests in the
order of their completion, followed by those of the queue.

A call leaves the line as it is, or appends to it, or lets requests overtake the
one at the head, which must be a rekeying or an extension between two of its
steps (`History.Serves`). Over a run the line is a permutation of all tickets in
which only such pairs are out of order (`History.InOrder`).

The history is computed from the pool before and after a call. It is not part of
the code, and no call depends on it; so what it records of a run is a fact about
the code's own queue and jobs.

The invariant is about the slots of the queue (`Behind`, `Kept`). Its step lemma
goes through the changes of a call: a job changes in its place, a request
completes, one is admitted, or some overtake the one at the head. Each of these
has a lemma `record_eq_of_…`, which says what is recorded, and one
`Kept.record_of_…`, which says that the invariant is kept. Resuming a rekeying
or an extension is excluded, as it breaks the order (`not_inOrder_resumed`).
-/

namespace Cbe

open RequestPool

/-- The pool with the history of its requests. -/
structure History where
  pool : RequestPool
  /-- The operations of the requests in the order of their submission. -/
  log : List RequestOperation
  /-- The number of the request that a slot holds. -/
  ticket : PoolIndex → ℕ
  /-- The numbers of the completed requests in the order of their completion. -/
  completed : List ℕ
  /-- How many requests have overtaken a request since its last step. -/
  overtaken : ℕ → ℕ
  /-- How many requests had been submitted when the last step of a request
  ended. -/
  seen : ℕ → ℕ

namespace History

/-- The numbers of the requests in the queue. -/
def pending (h : History) : List ℕ := h.pool.indices.items.map h.ticket

/-- **The line**: the completed requests, then the ones in the queue. -/
def line (h : History) : List ℕ := h.completed ++ h.pending

/-- The operation of a request. -/
def op (h : History) (t : ℕ) : RequestOperation := h.log.getD t .initializeRequest

/-- A phase begins in which others may overtake the request of a slot: a step of
it has ended. -/
def Begins (pool pool' : RequestPool) (i : PoolIndex) : Prop :=
  (pool.jobs i).state ≠ .preponeRequestsPending ∧
    (pool'.jobs i).state = .preponeRequestsPending

instance (pool pool' : RequestPool) (i : PoolIndex) : Decidable (Begins pool pool' i) :=
  inferInstanceAs (Decidable (_ ∧ _))

/-- A step of the request with a number has ended. -/
def StepEnds (h : History) (pool' : RequestPool) (t : ℕ) : Prop :=
  ∃ i, h.ticket i = t ∧ Begins h.pool pool' i

instance (h : History) (pool' : RequestPool) (t : ℕ) : Decidable (h.StepEnds pool' t) :=
  inferInstanceAs (Decidable (∃ _, _ ∧ _))

/-- The tickets after a call: a slot that is filled gets the next one. -/
def ticketAfter (h : History) (pool' : RequestPool) (i : PoolIndex) : ℕ :=
  if ¬ (h.pool.jobs i).Live ∧ (pool'.jobs i).Live then h.log.length else h.ticket i

/-- The completed requests after a call: those whose job was live and is not. -/
def completedAfter (h : History) (pool' : RequestPool) : List ℕ :=
  h.completed ++ ((List.finRange maxNumberOfRequestsInPool).filter fun i =>
    decide ((h.pool.jobs i).Live ∧ ¬ (pool'.jobs i).Live)).map h.ticket

/-- **The history goes on** with a call that has led to a pool. -/
def record (h : History) (a : PoolAction) (pool' : RequestPool) : History where
  pool := pool'
  log := h.log ++ a.submits
  ticket := h.ticketAfter pool'
  completed := h.completedAfter pool'
  overtaken t :=
    if h.StepEnds pool' t then 0
    else h.overtaken t + Overtaking.moveBack h.line
      (h.completedAfter pool' ++ pool'.indices.items.map (h.ticketAfter pool')) t
  seen t := if h.StepEnds pool' t then h.log.length else h.seen t

/-- One call, with its record. -/
def step (h : History) (a : PoolAction) : Option History :=
  (h.pool.step a).map (h.record a)

/-- The history of a pool that starts. -/
def initial : History where
  pool := initializedObject
  log := [.initializeRequest]
  ticket _ := 0
  completed := []
  overtaken _ := 0
  seen _ := 0

/-- A call that resumes nothing. -/
def Unresumed (h : History) (a : PoolAction) : Prop := h.pool.Unresumed a

instance (h : History) (a : PoolAction) : Decidable (h.Unresumed a) :=
  inferInstanceAs (Decidable (h.pool.Unresumed a))

/-! ## What is to hold

Two statements: one about a state, that the line is in order, and one about a
call, what it may do to the line. Between two steps a request may be overtaken
by eight others; in a step nothing may go before it. -/

end History

/-- The states of a rekeying or an extension from the end of a phase of
overtaking to the end of its next step. -/
def PoolJobState.inStep : PoolJobState → Bool
  | .preponeRequestsComplete | .rekeyVbaPending | .rekeyVbaInProgress | .rekeyVbaComplete
  | .vbdExtensionStepPending | .vbdExtensionStepInProgress | .vbdExtensionStepComplete
  | .ftExtensionStepPending | .ftExtensionStepInProgress | .ftExtensionStepComplete => true
  | _ => false

/-- The states of a job that waits behind another one. -/
def PoolJobState.waits : PoolJobState → Bool
  | .pending | .submitted | .submittedResumeRekeying | .preponeRequestsPending => true
  | _ => false

/-- What waits is not in a step. -/
theorem PoolJobState.not_inStep_of_waits {s : PoolJobState} (h : s.waits = true) :
    s.inStep ≠ true := by
  revert h
  cases s <;> decide

/-- A request that was just admitted waits. -/
theorem PoolJobState.waits_of_entry {s : PoolJobState}
    (h : s ∈ [.pending, .submitted, .submittedResumeRekeying]) : s.waits = true := by
  revert h
  cases s <;> decide

namespace History

/-- **The requests are in order**: each submitted one is in the line once; two of
them are out of order only if a read, write, sync or discard has overtaken a
rekeying or an extension; no more than eight have overtaken one since its last
step; and a request that was behind one when its last step ended does not wait
for a further step unless eight others have gone, or one that may not overtake
is before it. -/
structure InOrder (h : History) : Prop where
  /-- Each request that was submitted is in the line once. -/
  once : h.line.Perm (List.range h.log.length)
  /-- Two requests change places only by an overtaking. -/
  order : h.line.Pairwise fun b a => a < b → (h.op a).InSteps ∧ (h.op b).MayBePreponed
  /-- No more than eight have overtaken one since its last step. -/
  overtaken_le : ∀ t, h.overtaken t ≤ maxNrOfRequestsPreponedAtATime
  /-- A request that was behind when the last step ended waits for a further step
  for a reason. -/
  waits : ∀ i b, h.pool.indices.items.head? = some i →
    (h.pool.jobs i).state.inStep = true → b ∈ h.pending.tail → b < h.seen (h.ticket i) →
    h.overtaken (h.ticket i) = maxNrOfRequestsPreponedAtATime ∨
      ∃ c ∈ h.pending.tail, c ≤ b ∧ ¬ (h.op c).MayBePreponed

/-- **What one call does to the order**: it works on the request at the head; it
leaves the line as it is or appends to it, or it lets reads, writes, syncs and
discards overtake the request at the head while that is between two steps; and
a request is between two steps after a step of it has completed, or when it is
resumed. -/
structure Serves (h h' : History) : Prop where
  /-- Only the job at the head changes. -/
  front : ∀ i, (h.pool.jobs i).Live → h'.pool.jobs i ≠ h.pool.jobs i →
    h.pool.indices.items.head? = some i
  /-- The line is the same, or longer by a new request, or some have overtaken its
  head. -/
  line : h'.line = h.line ∨ h'.line = h.line ++ [h.log.length] ∨
    ∃ i passed rest, h.pool.indices.items.head? = some i ∧
      (h.pool.jobs i).state = .preponeRequestsPending ∧
      (∀ b ∈ passed, (h.op b).MayBePreponed) ∧
      h.line = h.completed ++ h.ticket i :: (passed ++ rest) ∧
      h'.line = h.completed ++ (passed ++ h.ticket i :: rest)
  /-- A phase of overtaking begins from one of these states. -/
  between : ∀ i, Begins h.pool h'.pool i →
    (h.pool.jobs i).state ∈ [.submittedResumeRekeying, .rekeyInitComplete,
      .vbdExtensionStepComplete, .ftExtensionStepComplete, .rekeyVbaComplete]

/-! ## The invariant

The order of two requests can be read off the queue: the one behind waits, and
if it is the older one it has been overtaken. -/

/-- What holds of two slots of the queue, the first one before the second one:
the second one waits; if it is between two steps, the first one has overtaken
it; and only then may it be the older one. -/
structure Behind (h : History) (i j : PoolIndex) : Prop where
  /-- The second one waits. -/
  waits : (h.pool.jobs j).state.waits = true
  /-- Between its steps it lets only those pass that may. -/
  passed : (h.pool.jobs j).state = .preponeRequestsPending →
    (h.pool.jobs i).req.operation.MayBePreponed
  /-- It may be the older one only then. -/
  older : h.ticket j < h.ticket i → (h.pool.jobs j).state = .preponeRequestsPending

/-- The invariant of the histories without a resumption. -/
structure Kept (h : History) : Prop where
  /-- The pool is in order. -/
  ready : h.pool.Ready
  /-- Each live job belongs to a request of the log. -/
  ticket_lt : ∀ i, (h.pool.jobs i).Live → h.ticket i < h.log.length
  /-- Two live jobs belong to two requests. -/
  ticket_inj : ∀ i j, (h.pool.jobs i).Live → (h.pool.jobs j).Live →
    h.ticket i = h.ticket j → i = j
  /-- A job is of the operation that its request is of. -/
  op_eq : ∀ i, (h.pool.jobs i).Live → h.op (h.ticket i) = (h.pool.jobs i).req.operation
  /-- Each request that was submitted is in the line once. -/
  once : h.line.Perm (List.range h.log.length)
  /-- Two requests change places only by an overtaking. -/
  order : h.line.Pairwise fun b a => a < b → (h.op a).InSteps ∧ (h.op b).MayBePreponed
  /-- Any two jobs of the queue are as they should be. -/
  behind : h.pool.indices.items.Pairwise h.Behind
  /-- No request was overtaken more often than the source allows. -/
  overtaken_le : ∀ t, h.overtaken t ≤ maxNrOfRequestsPreponedAtATime
  /-- Nothing is counted for a request that was not submitted yet. -/
  unsubmitted : ∀ t, h.log.length ≤ t → h.overtaken t = 0 ∧ h.seen t = 0
  /-- A request that was not begun has seen none behind it. -/
  unstarted : ∀ i, (h.pool.jobs i).state = .submitted → h.seen (h.ticket i) = 0
  /-- The job counts the requests that have overtaken it. -/
  counted : ∀ i, (h.pool.jobs i).state = .preponeRequestsPending →
    h.overtaken (h.ticket i) = (h.pool.jobs i).nrOfRequestsPreponed
  /-- A request has seen no more than were submitted. -/
  seen_le : ∀ t, h.seen t ≤ h.log.length
  /-- A request that was behind when the last step ended still waits for a reason.
  -/
  next : ∀ i j rest, h.pool.indices.items = i :: j :: rest →
    (h.pool.jobs i).state.inStep = true → h.ticket j < h.seen (h.ticket i) →
    h.overtaken (h.ticket i) = maxNrOfRequestsPreponedAtATime ∨
      ¬ (h.pool.jobs j).req.operation.MayBePreponed

/-- At the start the queue has the initialization alone. -/
theorem kept_initial : initial.Kept where
  ready := ready_initializedObject
  ticket_lt := by decide
  ticket_inj := by decide
  op_eq := by decide
  once := by decide
  order := by decide
  behind := by
    show (([0] : List PoolIndex)).Pairwise _
    exact List.pairwise_singleton _ _
  overtaken_le _ := Nat.zero_le _
  unsubmitted _ _ := ⟨rfl, rfl⟩
  unstarted _ _ := rfl
  counted := by decide
  seen_le _ := Nat.zero_le _
  next i j rest hitems _ _ := by
    have : ([0] : List PoolIndex) = i :: j :: rest := hitems
    exact absurd this (by simp)

/-! ## The record of a change of one job

What is recorded depends on whether the job that changes was live before and is
live afterwards. -/

section Record

variable {h : History} {a : PoolAction} {pool' : RequestPool} {idx : PoolIndex} {job : PoolJob}

/-- A job that does not begin to live gets no ticket. -/
theorem ticketAfter_of_update (hjobs : pool'.jobs = Function.update h.pool.jobs idx job)
    (hlive : job.Live → (h.pool.jobs idx).Live) : h.ticketAfter pool' = h.ticket := by
  funext i
  unfold ticketAfter
  rw [if_neg]
  rw [hjobs]
  rintro ⟨hnot, hafter⟩
  by_cases hi : i = idx
  · rw [hi, Function.update_self] at hafter
    exact hnot (hi ▸ hlive hafter)
  · rw [Function.update_of_ne hi] at hafter
    exact hnot hafter

/-- A slot that is filled gets the next number. -/
theorem ticketAfter_of_admitted (hjobs : pool'.jobs = Function.update h.pool.jobs idx job)
    (hfree : ¬ (h.pool.jobs idx).Live) (hlive : job.Live) :
    h.ticketAfter pool' = Function.update h.ticket idx h.log.length := by
  funext i
  unfold ticketAfter
  rw [hjobs]
  by_cases hi : i = idx
  · rw [hi, Function.update_self, Function.update_self, if_pos ⟨hfree, hlive⟩]
  · rw [Function.update_of_ne hi, Function.update_of_ne hi, if_neg]
    exact fun hboth => hboth.1 hboth.2

/-- A job that does not cease to live completes nothing. -/
theorem completedAfter_of_update (hjobs : pool'.jobs = Function.update h.pool.jobs idx job)
    (hlive : (h.pool.jobs idx).Live → job.Live) : h.completedAfter pool' = h.completed := by
  unfold completedAfter
  rw [List.filter_eq_nil_iff.mpr]
  · exact List.append_nil _
  · intro i _
    rw [hjobs, decide_eq_true_iff]
    rintro ⟨hbefore, hnot⟩
    by_cases hi : i = idx
    · rw [hi, Function.update_self] at hnot
      exact hnot (hlive (hi ▸ hbefore))
    · rw [Function.update_of_ne hi] at hnot
      exact hnot hbefore

/-- The one job that ends is completed. -/
theorem completedAfter_of_finished (hjobs : pool'.jobs = Function.update h.pool.jobs idx job)
    (hlive : (h.pool.jobs idx).Live) (hnot : ¬ job.Live) :
    h.completedAfter pool' = h.completed ++ [h.ticket idx] := by
  have hfilter : ((List.finRange maxNumberOfRequestsInPool).filter fun i =>
      decide ((h.pool.jobs i).Live ∧ ¬ (pool'.jobs i).Live)) = [idx] := by
    have hpred : (fun i => decide ((h.pool.jobs i).Live ∧ ¬ (pool'.jobs i).Live))
        = fun i => decide (i = idx) := by
      funext i
      refine decide_eq_decide.mpr ?_
      rw [hjobs]
      by_cases hi : i = idx
      · rw [hi, Function.update_self]
        exact ⟨fun _ => rfl, fun _ => ⟨hlive, hnot⟩⟩
      · rw [Function.update_of_ne hi]
        exact ⟨fun hboth => absurd hboth.1 hboth.2, fun heq => absurd heq hi⟩
    rw [hpred, List.filter_eq, List.count_eq_one_of_mem (List.nodup_finRange _)
      (List.mem_finRange idx)]
    rfl
  unfold completedAfter
  rw [hfilter]
  rfl

/-- Only the step of the changed job can end. -/
theorem stepEnds_iff (hjobs : pool'.jobs = Function.update h.pool.jobs idx job) (t : ℕ) :
    h.StepEnds pool' t ↔ h.ticket idx = t ∧
      (h.pool.jobs idx).state ≠ .preponeRequestsPending ∧
      job.state = .preponeRequestsPending := by
  unfold StepEnds Begins
  rw [hjobs]
  constructor
  · rintro ⟨i, hi, hne, heq⟩
    by_cases hidx : i = idx
    · rw [hidx, Function.update_self] at heq
      exact ⟨hidx ▸ hi, hidx ▸ hne, heq⟩
    · rw [Function.update_of_ne hidx] at heq
      exact absurd heq hne
  · rintro ⟨hi, hne, heq⟩
    exact ⟨idx, hi, hne, by rwa [Function.update_self]⟩

end Record

/-! ## Changes that leave the line as it is

The most frequent kind: the job at the head goes to its next state, or a
completed job is dropped. -/

/-- Each pair of a list has its second element in the tail. -/
theorem pairwise_mem_tail {α : Type*} (l : List α) : l.Pairwise fun _ b => b ∈ l.tail := by
  cases l with
  | nil => exact List.Pairwise.nil
  | cons x l =>
    rw [List.pairwise_cons]
    exact ⟨fun b hb => hb, List.pairwise_of_forall_mem_list fun _ _ b hb => hb⟩

section Same

variable {h : History} {a : PoolAction} {pool' : RequestPool} {idx : PoolIndex} {job : PoolJob}

/-- A job that changes while it stays as live as it was, in a queue that stays
as it is, changes nothing in the record but what a step that ends resets. -/
theorem record_eq_of_same (ha : a.submits = [])
    (hjobs : pool'.jobs = Function.update h.pool.jobs idx job)
    (hlive : job.Live ↔ (h.pool.jobs idx).Live)
    (hitems : pool'.indices.items = h.pool.indices.items) :
    h.record a pool' =
      { h with
        pool := pool'
        overtaken := fun t => if h.StepEnds pool' t then 0 else h.overtaken t
        seen := fun t => if h.StepEnds pool' t then h.log.length else h.seen t } := by
  have hticket := ticketAfter_of_update hjobs hlive.mp
  have hcomp := completedAfter_of_update hjobs hlive.mpr
  unfold record
  rw [hticket, hcomp, ha, List.append_nil, hitems]
  congr 1
  funext t
  show (if _ then 0 else h.overtaken t + Overtaking.moveBack h.line h.line t) = _
  rw [Overtaking.moveBack_self, Nat.add_zero]

/-- **A job changes in its place**: it stays as live as it was, in a queue that
stays as it is, and is the one at the head or not in the queue. It enters a
phase of overtaking only with its count at zero, and a step only from one of the
states that `steps` lists. -/
structure InPlace (h : History) (pool' : RequestPool) (idx : PoolIndex) (job : PoolJob) :
    Prop where
  /-- One job has changed. -/
  jobs : pool'.jobs = Function.update h.pool.jobs idx job
  /-- It is live if it was. -/
  live : job.Live ↔ (h.pool.jobs idx).Live
  /-- It is of the operation that it was of. -/
  operation : job.Live → job.req.operation = (h.pool.jobs idx).req.operation
  /-- The queue is the same. -/
  items : pool'.indices.items = h.pool.indices.items
  /-- The job does not wait behind another one. -/
  place : idx ∉ h.pool.indices.items.tail
  /-- A phase of overtaking begins with a count of zero. -/
  begins : job.state = .preponeRequestsPending →
    (h.pool.jobs idx).state ≠ .preponeRequestsPending ∧ job.nrOfRequestsPreponed = 0
  /-- It is not a job that was just submitted. -/
  state_ne : job.state ≠ .submitted
  /-- A step begins in one of these ways. -/
  steps : job.state.inStep = true → (h.pool.jobs idx).state.inStep = true ∨
    (h.pool.jobs idx).state = .submitted ∨
    ∀ rest, h.pool.indices.items = idx :: rest →
      (h.pool.jobs idx).state = .preponeRequestsPending ∧ h.pool.Blocked idx rest

namespace InPlace

variable {i j : PoolIndex} {t : ℕ}

/-- The job that changes. -/
theorem job_self (hin : InPlace h pool' idx job) : pool'.jobs idx = job := by
  rw [hin.jobs, Function.update_self]

/-- The other jobs stay. -/
theorem job_of_ne (hin : InPlace h pool' idx job) (hi : i ≠ idx) :
    pool'.jobs i = h.pool.jobs i := by
  rw [hin.jobs, Function.update_of_ne hi]

/-- The same slots are live. -/
theorem live_iff (hin : InPlace h pool' idx job) (i : PoolIndex) :
    (pool'.jobs i).Live ↔ (h.pool.jobs i).Live := by
  by_cases hi : i = idx
  · subst hi
    rw [hin.job_self]
    exact hin.live
  · rw [hin.job_of_ne hi]

/-- They hold the same requests. -/
theorem operation_eq (hin : InPlace h pool' idx job) (hi : (pool'.jobs i).Live) :
    (pool'.jobs i).req.operation = (h.pool.jobs i).req.operation := by
  by_cases hidx : i = idx
  · subst hidx
    rw [hin.job_self] at hi ⊢
    exact hin.operation hi
  · rw [hin.job_of_ne hidx]

/-- A step ends only of the request whose job changes, and then the job is in a
phase of overtaking. -/
theorem live_of_stepEnds (hin : InPlace h pool' idx job) (hends : h.StepEnds pool' t) :
    h.ticket idx = t ∧ job.state = .preponeRequestsPending ∧ (h.pool.jobs idx).Live := by
  obtain ⟨heq, -, hnew⟩ := (stepEnds_iff hin.jobs t).mp hends
  have hlive : job.Live := live_of_states (l := [.preponeRequestsPending]) (by simp [hnew])
    (by decide)
  exact ⟨heq, hnew, hin.live.mp hlive⟩

/-- No step of the other requests ends. -/
theorem not_stepEnds (hin : InPlace h pool' idx job) (hk : h.Kept)
    (hlive : (h.pool.jobs i).Live) (hi : i ≠ idx) : ¬ h.StepEnds pool' (h.ticket i) := by
  intro hends
  obtain ⟨heq, -, hidx⟩ := hin.live_of_stepEnds hends
  exact hi (hk.ticket_inj i idx hlive hidx heq.symm)

/-- The slots behind the head are as before. -/
theorem behind (hin : InPlace h pool' idx job) (hk : h.Kept) :
    pool'.indices.items.Pairwise (h.record a pool').Behind := by
  have hrecord : ∀ i, (h.record a pool').ticket i = h.ticket i :=
    congrFun (ticketAfter_of_update hin.jobs hin.live.mp)
  rw [hin.items]
  refine List.Pairwise.imp_of_mem (fun {i j} hi _ hij => ?_)
    (hk.behind.and (pairwise_mem_tail _))
  have hj : pool'.jobs j = h.pool.jobs j := hin.job_of_ne fun heq => hin.place (heq ▸ hij.2)
  have hlive : (pool'.jobs i).Live :=
    (hin.live_iff i).mpr ((hk.ready.disciplined.mem_iff i).mp hi)
  refine ⟨?_, fun hs => ?_, fun hlt => ?_⟩
  · show (pool'.jobs j).state.waits = true
    rw [hj]
    exact hij.1.waits
  · have hs : (pool'.jobs j).state = .preponeRequestsPending := hs
    rw [hj] at hs
    show (pool'.jobs i).req.operation.MayBePreponed
    rw [hin.operation_eq hlive]
    exact hij.1.passed hs
  · show (pool'.jobs j).state = _
    rw [hj]
    rw [hrecord, hrecord] at hlt
    exact hij.1.older hlt

/-- A request that was not submitted has no step that could end. -/
theorem not_stepEnds_of_unsubmitted (hin : InPlace h pool' idx job) (hk : h.Kept)
    (ht : h.log.length ≤ t) : ¬ h.StepEnds pool' t := by
  intro hends
  obtain ⟨rfl, -, hidx⟩ := hin.live_of_stepEnds hends
  exact absurd (hk.ticket_lt idx hidx) (not_lt.mpr ht)

/-- **The second of the queue waits no longer than it has to**, also when the
first one enters its next step. -/
theorem next (hin : InPlace h pool' idx job) (hk : h.Kept) {rest : List PoolIndex}
    (hij : h.pool.indices.items = i :: j :: rest) (hstep : (pool'.jobs i).state.inStep = true)
    (hlt : h.ticket j < h.seen (h.ticket i)) :
    h.overtaken (h.ticket i) = maxNrOfRequestsPreponedAtATime ∨
      ¬ (h.pool.jobs j).req.operation.MayBePreponed := by
  by_cases hi : i = idx
  · subst hi
    rw [hin.job_self] at hstep
    rcases hin.steps hstep with hold | hold | hblocked
    · exact hk.next i j rest hij hold hlt
    · rw [hk.unstarted i hold] at hlt
      exact absurd hlt (Nat.not_lt_zero _)
    · obtain ⟨hold, hmax | hlast | ⟨b, hb, hmay⟩⟩ := hblocked (j :: rest) hij
      · left
        have := hk.overtaken_le (h.ticket i)
        have := hk.counted i hold
        omega
      · -- the head is not the last one
        exfalso
        have hnodup := hk.ready.disciplined.nodup
        rw [hij, List.nodup_cons] at hnodup
        rw [List.getLast?_cons_cons] at hlast
        exact hnodup.1 (List.mem_of_getLast? hlast)
      · right
        obtain rfl := Option.some.inj hb
        exact hmay
  · rw [hin.job_of_ne hi] at hstep
    exact hk.next i j rest hij hstep hlt

end InPlace

/-- **What such a change keeps.** The clauses of the invariant are those of
before, but for the request whose step ends, and for the second of the queue
when the first enters a step. -/
theorem Kept.record_of_same (hk : h.Kept) (ha : a.submits = []) (hready : pool'.Ready)
    (hin : InPlace h pool' idx job) : (h.record a pool').Kept := by
  have hbehind := hin.behind (a := a) hk
  rw [record_eq_of_same ha hin.jobs hin.live hin.items] at hbehind ⊢
  refine
    { ready := hready
      ticket_lt := fun i hi => hk.ticket_lt i ((hin.live_iff i).mp hi)
      ticket_inj := fun i j hi hj =>
        hk.ticket_inj i j ((hin.live_iff i).mp hi) ((hin.live_iff j).mp hj)
      op_eq := fun i hi =>
        (hk.op_eq i ((hin.live_iff i).mp hi)).trans (hin.operation_eq hi).symm
      once := ?once
      order := ?order
      behind := hbehind
      overtaken_le := fun t => ?overtaken_le
      unsubmitted := fun t ht => ?unsubmitted
      unstarted := fun i hi => ?unstarted
      counted := fun i hi => ?counted
      seen_le := fun t => ?seen_le
      next := fun i j rest hij hstep hlt => ?next }
  case once =>
    show (h.completed ++ pool'.indices.items.map h.ticket).Perm _
    rw [hin.items]
    exact hk.once
  case order =>
    show (h.completed ++ pool'.indices.items.map h.ticket).Pairwise _
    rw [hin.items]
    exact hk.order
  case overtaken_le =>
    show (if h.StepEnds pool' t then 0 else h.overtaken t) ≤ _
    split_ifs
    · exact Nat.zero_le _
    · exact hk.overtaken_le t
  case unsubmitted =>
    have hnot := hin.not_stepEnds_of_unsubmitted hk ht
    show (if h.StepEnds pool' t then 0 else h.overtaken t) = 0 ∧
      (if h.StepEnds pool' t then h.log.length else h.seen t) = 0
    rw [if_neg hnot, if_neg hnot]
    exact hk.unsubmitted t ht
  case unstarted =>
    have hi : (pool'.jobs i).state = .submitted := hi
    have hne : i ≠ idx := by
      rintro rfl
      rw [hin.job_self] at hi
      exact hin.state_ne hi
    rw [hin.job_of_ne hne] at hi
    show (if h.StepEnds pool' (h.ticket i) then _ else h.seen (h.ticket i)) = 0
    rw [if_neg (hin.not_stepEnds hk (live_of_state hi (by decide)) hne)]
    exact hk.unstarted i hi
  case counted =>
    have hi : (pool'.jobs i).state = .preponeRequestsPending := hi
    show (if h.StepEnds pool' (h.ticket i) then 0 else h.overtaken (h.ticket i))
      = (pool'.jobs i).nrOfRequestsPreponed
    by_cases hne : i = idx
    · subst hne
      rw [hin.job_self] at hi ⊢
      obtain ⟨hold, hnr⟩ := hin.begins hi
      rw [if_pos ((stepEnds_iff hin.jobs _).mpr ⟨rfl, hold, hi⟩), hnr]
    · rw [hin.job_of_ne hne] at hi ⊢
      rw [if_neg (hin.not_stepEnds hk (live_of_state hi (by decide)) hne)]
      exact hk.counted i hi
  case seen_le =>
    show (if h.StepEnds pool' t then h.log.length else h.seen t) ≤ h.log.length
    split_ifs
    · exact Nat.le_refl _
    · exact hk.seen_le t
  case next =>
    have hij : h.pool.indices.items = i :: j :: rest := hin.items.symm.trans hij
    have hstep : (pool'.jobs i).state.inStep = true := hstep
    -- the request at the head goes on with its step, so none of it ends
    have hnot : ¬ h.StepEnds pool' (h.ticket i) := by
      intro hends
      have hlive := (hk.ready.disciplined.mem_iff i).mp (hij ▸ List.mem_cons_self)
      by_cases hne : i = idx
      · subst hne
        rw [hin.job_self, (hin.live_of_stepEnds hends).2.1] at hstep
        exact absurd hstep (by decide)
      · exact hin.not_stepEnds hk hlive hne hends
    have hlt : h.ticket j < if h.StepEnds pool' (h.ticket i) then h.log.length
      else h.seen (h.ticket i) := hlt
    rw [if_neg hnot] at hlt
    have hj : j ≠ idx := by
      rintro rfl
      exact hin.place (by rw [hij]; exact List.mem_cons_self)
    show (if h.StepEnds pool' (h.ticket i) then 0 else h.overtaken (h.ticket i)) = _ ∨
      ¬ (pool'.jobs j).req.operation.MayBePreponed
    rw [if_neg hnot, hin.job_of_ne hj]
    exact hin.next hk hij hstep hlt

end Same

/-! ## A request completes

The job at the head leaves the queue. What was behind it moves up, and the line
does not change, since its ticket goes from the one part to the other. -/

section Finished

variable {h : History} {a : PoolAction} {pool' : RequestPool} {idx : PoolIndex} {job : PoolJob}

/-- The request at the head moves from the queue to the completed ones. -/
theorem record_eq_of_finished (ha : a.submits = []) (hlive : (h.pool.jobs idx).Live)
    (hnot : ¬ job.Live) (hjobs : pool'.jobs = Function.update h.pool.jobs idx job)
    (hitems : h.pool.indices.items = idx :: pool'.indices.items) :
    h.record a pool' =
      { h with
        pool := pool'
        completed := h.completed ++ [h.ticket idx] } := by
  have hticket := ticketAfter_of_update hjobs (fun hl => absurd hl hnot)
  have hcomp := completedAfter_of_finished hjobs hlive hnot
  have hline : (h.completed ++ [h.ticket idx]) ++ pool'.indices.items.map h.ticket = h.line := by
    unfold line pending
    rw [hitems, List.append_assoc]
    rfl
  have hends : ∀ t, ¬ h.StepEnds pool' t := by
    intro t ht
    obtain ⟨_, _, hnew⟩ := (stepEnds_iff hjobs t).mp ht
    refine hnot ?_
    unfold PoolJob.Live
    rw [hnew]
    decide
  unfold record
  rw [hticket, hcomp, ha, List.append_nil, hline]
  congr 1
  · funext t
    rw [if_neg (hends t), Overtaking.moveBack_self, Nat.add_zero]
  · funext t
    rw [if_neg (hends t)]

/-- **What the completion of a request keeps.** -/
theorem Kept.record_of_finished (hk : h.Kept) (ha : a.submits = [])
    (hready : pool'.Ready) (hlive : (h.pool.jobs idx).Live)
    (hnot : ¬ job.Live) (hjobs : pool'.jobs = Function.update h.pool.jobs idx job)
    (hitems : h.pool.indices.items = idx :: pool'.indices.items) :
    (h.record a pool').Kept := by
  have hne : ∀ i, (pool'.jobs i).Live → i ≠ idx := by
    rintro i hi rfl
    rw [hjobs, Function.update_self] at hi
    exact hnot hi
  have hpool : ∀ i, i ≠ idx → pool'.jobs i = h.pool.jobs i := by
    intro i hi
    rw [hjobs, Function.update_of_ne hi]
  have hold : ∀ i, (pool'.jobs i).Live → (h.pool.jobs i).Live := by
    intro i hi
    rw [← hpool i (hne i hi)]
    exact hi
  have hmem : ∀ i ∈ pool'.indices.items, pool'.jobs i = h.pool.jobs i :=
    fun i hi => hpool i (hne i ((hready.disciplined.mem_iff i).mp hi))
  have hline : (h.completed ++ [h.ticket idx]) ++ pool'.indices.items.map h.ticket = h.line := by
    unfold line pending
    rw [hitems, List.append_assoc]
    rfl
  have hpair := hk.behind
  rw [hitems, List.pairwise_cons] at hpair
  rw [record_eq_of_finished ha hlive hnot hjobs hitems]
  refine
    { ready := hready
      ticket_lt := fun i hi => hk.ticket_lt i (hold i hi)
      ticket_inj := fun i j hi hj => hk.ticket_inj i j (hold i hi) (hold j hj)
      op_eq := fun i hi => ?_
      once := ?_
      order := ?_
      behind := ?_
      overtaken_le := hk.overtaken_le
      unsubmitted := hk.unsubmitted
      unstarted := fun i hi => ?_
      counted := fun i hi => ?_
      seen_le := hk.seen_le
      next := fun i j rest hij hin _ => ?_ }
  · show h.op (h.ticket i) = (pool'.jobs i).req.operation
    rw [hpool i (hne i hi)]
    exact hk.op_eq i (hold i hi)
  · show ((h.completed ++ [h.ticket idx]) ++ pool'.indices.items.map h.ticket).Perm _
    rw [hline]
    exact hk.once
  · show ((h.completed ++ [h.ticket idx]) ++ pool'.indices.items.map h.ticket).Pairwise _
    rw [hline]
    exact hk.order
  · refine List.Pairwise.imp_of_mem (fun {i j} hi hj hij => ?_) hpair.2
    refine ⟨?_, ?_, ?_⟩
    · show (pool'.jobs j).state.waits = true
      rw [hmem j hj]
      exact hij.waits
    · show (pool'.jobs j).state = _ → (pool'.jobs i).req.operation.MayBePreponed
      rw [hmem j hj, hmem i hi]
      exact hij.passed
    · show _ → (pool'.jobs j).state = _
      rw [hmem j hj]
      exact hij.older
  · have hi : (pool'.jobs i).state = .submitted := hi
    have hpi := hpool i (hne i (live_of_state hi (by decide)))
    rw [hpi] at hi
    exact hk.unstarted i hi
  · have hi : (pool'.jobs i).state = .preponeRequestsPending := hi
    have hpi := hpool i (hne i (live_of_state hi (by decide)))
    show h.overtaken (h.ticket i) = (pool'.jobs i).nrOfRequestsPreponed
    rw [hpi] at hi ⊢
    exact hk.counted i hi
  · -- the new head has waited, so it is not in a step
    have hij : pool'.indices.items = i :: j :: rest := hij
    have hi : i ∈ pool'.indices.items := by rw [hij]; exact List.mem_cons_self
    have hwaits := (hpair.1 i hi).waits
    have hin : (pool'.jobs i).state.inStep = true := hin
    rw [hmem i hi] at hin
    exact absurd hin (PoolJobState.not_inStep_of_waits hwaits)

end Finished

/-! ## A request is admitted

The line gets longer by one. The new request has the greatest ticket, so it is
out of order with none of the others. -/

section Admitted

variable {h : History} {a : PoolAction} {pool' : RequestPool} {idx : PoolIndex} {job : PoolJob}

/-- **A request is admitted**: its job goes to a free slot and to the end of the
queue. -/
structure Admission (h : History) (pool' : RequestPool) (idx : PoolIndex) (job : PoolJob) :
    Prop where
  /-- The slot was free. -/
  free : (h.pool.jobs idx).state = .invalid
  /-- The job starts in one of these states. -/
  entry : job.state ∈ [.pending, .submitted, .submittedResumeRekeying]
  /-- No other job has changed. -/
  jobs : pool'.jobs = Function.update h.pool.jobs idx job
  /-- The job is the last one of the queue. -/
  items : pool'.indices.items = h.pool.indices.items ++ [idx]

/-- The history with the request, which has the next number. -/
def admitted (h : History) (pool' : RequestPool) (idx : PoolIndex) (job : PoolJob) : History :=
  { h with
    pool := pool'
    log := h.log ++ [job.req.operation]
    ticket := Function.update h.ticket idx h.log.length }

/-- The slot has the new ticket. -/
theorem admitted_ticket_self (h : History) (pool' : RequestPool) (idx : PoolIndex)
    (job : PoolJob) : (h.admitted pool' idx job).ticket idx = h.log.length :=
  Function.update_self ..

/-- The other slots keep theirs. -/
theorem admitted_ticket_of_ne {i : PoolIndex} (hi : i ≠ idx) :
    (h.admitted pool' idx job).ticket i = h.ticket i :=
  Function.update_of_ne hi ..

/-- One request was added. -/
theorem admitted_log_length (h : History) (pool' : RequestPool) (idx : PoolIndex)
    (job : PoolJob) : (h.admitted pool' idx job).log.length = h.log.length + 1 :=
  List.length_append

/-- The requests of before have their operations. -/
theorem admitted_op {t : ℕ} (ht : t < h.log.length) :
    (h.admitted pool' idx job).op t = h.op t := by
  show (h.log ++ [job.req.operation]).getD t _ = h.log.getD t _
  rw [List.getD_eq_getElem?_getD, List.getD_eq_getElem?_getD, List.getElem?_append_left ht]

/-- So has the new one. -/
theorem admitted_op_self (h : History) (pool' : RequestPool) (idx : PoolIndex) (job : PoolJob) :
    (h.admitted pool' idx job).op h.log.length = job.req.operation := by
  show (h.log ++ [job.req.operation]).getD h.log.length _ = _
  rw [List.getD_eq_getElem?_getD, List.getElem?_append_right (Nat.le_refl _), Nat.sub_self]
  rfl

namespace Admission

variable {i j : PoolIndex}

/-- The new job lives. -/
theorem live (had : Admission h pool' idx job) : job.Live := live_of_states had.entry (by decide)

/-- The slot was free. -/
theorem not_live (had : Admission h pool' idx job) : ¬ (h.pool.jobs idx).Live :=
  fun hl => hl.1 had.free

/-- The new request waits. -/
theorem waits (had : Admission h pool' idx job) : job.state.waits = true :=
  PoolJobState.waits_of_entry had.entry

/-- Nothing may overtake the request yet. -/
theorem state_ne (had : Admission h pool' idx job) : job.state ≠ .preponeRequestsPending := by
  intro heq
  have hentry := had.entry
  rw [heq] at hentry
  exact absurd hentry (by decide)

/-- The new job is in its slot. -/
theorem job_self (had : Admission h pool' idx job) : pool'.jobs idx = job := by
  rw [had.jobs, Function.update_self]

/-- The other jobs stay. -/
theorem job_of_ne (had : Admission h pool' idx job) (hi : i ≠ idx) :
    pool'.jobs i = h.pool.jobs i := by
  rw [had.jobs, Function.update_of_ne hi]

/-- What lives elsewhere has lived before. -/
theorem live_of_ne (had : Admission h pool' idx job) (hi : i ≠ idx) (hl : (pool'.jobs i).Live) :
    (h.pool.jobs i).Live := by
  rwa [had.job_of_ne hi] at hl

/-- The slot was not in the queue. -/
theorem ne_of_mem (had : Admission h pool' idx job) (hk : h.Kept)
    (hi : i ∈ h.pool.indices.items) : i ≠ idx := by
  rintro rfl
  exact had.not_live ((hk.ready.disciplined.mem_iff i).mp hi)

/-- **The new request is the last one of the line.** -/
theorem line_eq (had : Admission h pool' idx job) (hk : h.Kept) :
    (h.admitted pool' idx job).line = h.line ++ [h.log.length] := by
  unfold line pending
  show h.completed ++ pool'.indices.items.map _ = _
  rw [had.items, List.map_append, List.append_assoc, List.map_singleton, admitted_ticket_self]
  congr 2
  exact List.map_congr_left fun i hi => admitted_ticket_of_ne (had.ne_of_mem hk hi)

/-- Every ticket is one of the requests. -/
theorem ticket_lt (had : Admission h pool' idx job) (hk : h.Kept) (hi : (pool'.jobs i).Live) :
    (h.admitted pool' idx job).ticket i < (h.admitted pool' idx job).log.length := by
  rw [admitted_log_length]
  by_cases hidx : i = idx
  · rw [hidx, admitted_ticket_self]
    exact Nat.lt_succ_self _
  · rw [admitted_ticket_of_ne hidx]
    exact Nat.lt_succ_of_lt (hk.ticket_lt i (had.live_of_ne hidx hi))

/-- The number is a new one. -/
theorem ticket_ne (had : Admission h pool' idx job) (hk : h.Kept) (hi : i ≠ idx)
    (hl : (pool'.jobs i).Live) :
    (h.admitted pool' idx job).ticket i ≠ (h.admitted pool' idx job).ticket idx := by
  rw [admitted_ticket_of_ne hi, admitted_ticket_self]
  exact (hk.ticket_lt i (had.live_of_ne hi hl)).ne

/-- No two live jobs have one ticket. -/
theorem ticket_inj (had : Admission h pool' idx job) (hk : h.Kept) (hi : (pool'.jobs i).Live)
    (hj : (pool'.jobs j).Live)
    (heq : (h.admitted pool' idx job).ticket i = (h.admitted pool' idx job).ticket j) :
    i = j := by
  by_cases hi' : i = idx
  · by_cases hj' : j = idx
    · rw [hi', hj']
    · rw [hi'] at heq
      exact absurd heq.symm (had.ticket_ne hk hj' hj)
  · by_cases hj' : j = idx
    · rw [hj'] at heq
      exact absurd heq (had.ticket_ne hk hi' hi)
    · rw [admitted_ticket_of_ne hi', admitted_ticket_of_ne hj'] at heq
      exact hk.ticket_inj i j (had.live_of_ne hi' hi) (had.live_of_ne hj' hj) heq

/-- The tickets name the operations of the jobs. -/
theorem op_eq (had : Admission h pool' idx job) (hk : h.Kept) (hi : (pool'.jobs i).Live) :
    (h.admitted pool' idx job).op ((h.admitted pool' idx job).ticket i)
      = (pool'.jobs i).req.operation := by
  by_cases hidx : i = idx
  · rw [hidx, admitted_ticket_self, had.job_self]
    exact admitted_op_self h pool' idx job
  · have hlive := had.live_of_ne hidx hi
    rw [admitted_ticket_of_ne hidx, had.job_of_ne hidx, admitted_op (hk.ticket_lt i hlive)]
    exact hk.op_eq i hlive

/-- The new request is out of order with none. -/
theorem order (had : Admission h pool' idx job) (hk : h.Kept) :
    (h.admitted pool' idx job).line.Pairwise fun b a => a < b →
      ((h.admitted pool' idx job).op a).InSteps ∧
        ((h.admitted pool' idx job).op b).MayBePreponed := by
  have hline_lt : ∀ t ∈ h.line, t < h.log.length :=
    fun t ht => List.mem_range.mp (hk.once.mem_iff.mp ht)
  rw [had.line_eq hk, List.pairwise_append]
  refine ⟨?_, List.pairwise_singleton _ _, fun b hb x hx hlt => ?_⟩
  · refine List.Pairwise.imp_of_mem (fun {b x} hb hx hbx hlt => ?_) hk.order
    rw [admitted_op (hline_lt b hb), admitted_op (hline_lt x hx)]
    exact hbx hlt
  · obtain rfl := List.mem_singleton.mp hx
    exact absurd (hline_lt b hb) (not_lt.mpr hlt.le)

/-- **The new request waits behind all others.** -/
theorem behind (had : Admission h pool' idx job) (hk : h.Kept) :
    pool'.indices.items.Pairwise (h.admitted pool' idx job).Behind := by
  rw [had.items, List.pairwise_append]
  refine ⟨?_, List.pairwise_singleton _ _, fun i hi j hj => ?_⟩
  · refine List.Pairwise.imp_of_mem (fun {i j} hi hj hij => ?_) hk.behind
    have hjobi := had.job_of_ne (had.ne_of_mem hk hi)
    have hjobj := had.job_of_ne (had.ne_of_mem hk hj)
    refine ⟨?_, ?_, fun hlt => ?_⟩
    · show (pool'.jobs j).state.waits = true
      rw [hjobj]
      exact hij.waits
    · show (pool'.jobs j).state = _ → (pool'.jobs i).req.operation.MayBePreponed
      rw [hjobj, hjobi]
      exact hij.passed
    · rw [admitted_ticket_of_ne (had.ne_of_mem hk hj),
        admitted_ticket_of_ne (had.ne_of_mem hk hi)] at hlt
      show (pool'.jobs j).state = _
      rw [hjobj]
      exact hij.older hlt
  · obtain rfl := List.mem_singleton.mp hj
    refine ⟨?_, fun hs => ?_, fun hlt => ?_⟩
    · show (pool'.jobs j).state.waits = true
      rw [had.job_self]
      exact had.waits
    · have hs : (pool'.jobs j).state = .preponeRequestsPending := hs
      rw [had.job_self] at hs
      exact absurd hs had.state_ne
    · rw [admitted_ticket_self, admitted_ticket_of_ne (had.ne_of_mem hk hi)] at hlt
      have := hk.ticket_lt i ((hk.ready.disciplined.mem_iff i).mp hi)
      omega

/-- The two at the front of the queue were there before, when the second one is
older than the last step of the first one. -/
theorem next (had : Admission h pool' idx job) (hk : h.Kept) {rest : List PoolIndex}
    (hij : pool'.indices.items = i :: j :: rest) (hstep : (pool'.jobs i).state.inStep = true)
    (hlt : (h.admitted pool' idx job).ticket j
      < h.seen ((h.admitted pool' idx job).ticket i)) :
    h.overtaken ((h.admitted pool' idx job).ticket i) = maxNrOfRequestsPreponedAtATime ∨
      ¬ (pool'.jobs j).req.operation.MayBePreponed := by
  have hi : i ≠ idx := by
    rintro rfl
    rw [had.job_self] at hstep
    exact PoolJobState.not_inStep_of_waits had.waits hstep
  have hj : j ≠ idx := by
    rintro rfl
    rw [admitted_ticket_self] at hlt
    exact absurd (hk.seen_le _) (not_le.mpr hlt)
  rw [admitted_ticket_of_ne hi, admitted_ticket_of_ne hj] at hlt
  rw [had.job_of_ne hi] at hstep
  rw [admitted_ticket_of_ne hi, had.job_of_ne hj]
  obtain ⟨rest', hrest⟩ : ∃ rest', h.pool.indices.items = i :: j :: rest' := by
    have hitems := had.items.symm.trans hij
    match h.pool.indices.items, hitems with
    | [], hitems => exact absurd (List.cons.inj hitems).2 (by simp)
    | [x], hitems => exact absurd (List.cons.inj (List.cons.inj hitems).2).1.symm hj
    | x :: y :: l, hitems =>
      obtain ⟨rfl, htail⟩ := List.cons.inj hitems
      obtain ⟨rfl, -⟩ := List.cons.inj htail
      exact ⟨l, rfl⟩
  exact hk.next i j rest' hrest hstep hlt

end Admission

/-- The record is that of the admission. -/
theorem record_eq_of_admitted (hk : h.Kept) (ha : a.submits = [job.req.operation])
    (had : Admission h pool' idx job) : h.record a pool' = h.admitted pool' idx job := by
  have hends : ∀ t, ¬ h.StepEnds pool' t := by
    intro t ht
    obtain ⟨-, -, hnew⟩ := (stepEnds_iff had.jobs t).mp ht
    exact had.state_ne hnew
  have hline : h.completed ++ pool'.indices.items.map
      (Function.update h.ticket idx h.log.length) = h.line ++ [h.log.length] := had.line_eq hk
  unfold record admitted
  rw [ticketAfter_of_admitted had.jobs had.not_live had.live,
    completedAfter_of_update had.jobs (fun hl => absurd hl had.not_live), ha, hline]
  congr 1
  · funext t
    rw [if_neg (hends t), Overtaking.moveBack_append, Nat.add_zero]
  · funext t
    rw [if_neg (hends t)]

/-- **What the admission of a request keeps.** -/
theorem Kept.record_of_admitted (hk : h.Kept) (ha : a.submits = [job.req.operation])
    (hready : pool'.Ready) (had : Admission h pool' idx job) : (h.record a pool').Kept := by
  rw [record_eq_of_admitted hk ha had]
  refine
    { ready := hready
      ticket_lt := fun i hi => had.ticket_lt hk hi
      ticket_inj := fun i j hi hj => had.ticket_inj hk hi hj
      op_eq := fun i hi => had.op_eq hk hi
      once := ?once
      order := had.order hk
      behind := had.behind hk
      overtaken_le := hk.overtaken_le
      unsubmitted := fun t ht => ?unsubmitted
      unstarted := fun i hi => ?unstarted
      counted := fun i hi => ?counted
      seen_le := fun t => ?seen_le
      next := fun i j rest hij hstep hlt => had.next hk hij hstep hlt }
  case once =>
    rw [had.line_eq hk, admitted_log_length, List.range_succ]
    exact hk.once.append_right _
  case unsubmitted =>
    rw [admitted_log_length] at ht
    exact hk.unsubmitted t (Nat.le_of_succ_le ht)
  case unstarted =>
    have hi : (pool'.jobs i).state = .submitted := hi
    show h.seen ((h.admitted pool' idx job).ticket i) = 0
    by_cases hidx : i = idx
    · rw [hidx, admitted_ticket_self]
      exact (hk.unsubmitted _ (Nat.le_refl _)).2
    · rw [had.job_of_ne hidx] at hi
      rw [admitted_ticket_of_ne hidx]
      exact hk.unstarted i hi
  case counted =>
    have hi : (pool'.jobs i).state = .preponeRequestsPending := hi
    have hidx : i ≠ idx := by
      intro heq
      rw [heq, had.job_self] at hi
      exact had.state_ne hi
    show h.overtaken ((h.admitted pool' idx job).ticket i)
      = (pool'.jobs i).nrOfRequestsPreponed
    rw [had.job_of_ne hidx] at hi ⊢
    rw [admitted_ticket_of_ne hidx]
    exact hk.counted i hi
  case seen_le =>
    rw [admitted_log_length]
    exact Nat.le_succ_of_le (hk.seen_le t)

end Admitted

/-! ## Requests overtake the one at the head

Some requests move before the one at the head, which must have waited for that.
They were behind it in the queue, so their tickets are greater, unless they had
been overtaken themselves, which only a rekeying or an extension can be. -/

section Preponed

variable {h : History} {a : PoolAction} {pool' : RequestPool} {idx : PoolIndex}
  {passed rest : List PoolIndex}

/-- The line before and after. -/
theorem line_of_preponed (hitems : h.pool.indices.items = idx :: (passed ++ rest)) :
    h.line = h.completed ++ h.ticket idx :: (passed.map h.ticket ++ rest.map h.ticket) := by
  unfold line pending
  rw [hitems, List.map_cons, List.map_append]

/-- The tickets of the queue after it. -/
theorem map_of_preponed {items : List PoolIndex} (hitems' : items = passed ++ idx :: rest) :
    items.map h.ticket
      = passed.map h.ticket ++ h.ticket idx :: rest.map h.ticket := by
  rw [hitems', List.map_append, List.map_cons]

/-- Only the count of the overtaken request changes, by the number of those that
have overtaken it. -/
theorem record_eq_of_preponed (hk : h.Kept) (ha : a.submits = [])
    (hstate : (h.pool.jobs idx).state = .preponeRequestsPending)
    (hjobs : pool'.jobs
      = Function.update h.pool.jobs idx ((h.pool.jobs idx).letPass passed.length))
    (hitems : h.pool.indices.items = idx :: (passed ++ rest))
    (hitems' : pool'.indices.items = passed ++ idx :: rest) :
    h.record a pool' =
      { h with
        pool := pool'
        overtaken := fun t => h.overtaken t + if t = h.ticket idx then passed.length else 0 } := by
  have hticket := ticketAfter_of_update (h := h) hjobs (fun hl => hl)
  have hcomp := completedAfter_of_update (h := h) hjobs (fun hl => hl)
  have hends : ∀ t, ¬ h.StepEnds pool' t := by
    intro t ht
    obtain ⟨_, hold, _⟩ := (stepEnds_iff hjobs t).mp ht
    exact hold hstate
  have hline := line_of_preponed hitems
  have hnodup : h.line.Nodup := hk.once.nodup_iff.mpr List.nodup_range
  rw [hline, List.nodup_append, List.nodup_cons] at hnodup
  obtain ⟨_, ⟨hnotin, _⟩, hdisj⟩ := hnodup
  unfold record
  rw [hticket, hcomp, ha, List.append_nil, map_of_preponed hitems']
  congr 1
  · funext t
    rw [if_neg (hends t), hline]
    by_cases ht : t = h.ticket idx
    · rw [if_pos ht, ht, Overtaking.moveBack_overtaken, List.length_map]
      · exact fun hmem => hdisj _ hmem _ List.mem_cons_self rfl
      · exact fun hmem => hnotin (List.mem_append_left _ hmem)
    · rw [if_neg ht, Overtaking.moveBack_other ht]
  · funext t
    rw [if_neg (hends t)]

/-- **What overtaking keeps.** The requests that go first are reads, writes,
syncs and discards, and the one that lets them is a rekeying or an extension, so
the pairs that get out of order are of the allowed kind. -/
theorem Kept.record_of_preponed (hk : h.Kept) (ha : a.submits = [])
    (hready : pool'.Ready)
    (hstate : (h.pool.jobs idx).state = .preponeRequestsPending)
    (hne : passed ≠ [])
    (hmay : ∀ b ∈ passed, (h.pool.jobs b).req.operation.MayBePreponed)
    (hmax : (h.pool.jobs idx).nrOfRequestsPreponed + passed.length
      ≤ maxNrOfRequestsPreponedAtATime)
    (hjobs : pool'.jobs
      = Function.update h.pool.jobs idx ((h.pool.jobs idx).letPass passed.length))
    (hitems : h.pool.indices.items = idx :: (passed ++ rest))
    (hitems' : pool'.indices.items = passed ++ idx :: rest) :
    (h.record a pool').Kept := by
  have hlive : (h.pool.jobs idx).Live := live_of_state hstate (by decide)
  have hop : (h.pool.jobs idx).req.operation.InSteps := by
    refine RequestOperation.inSteps_of_preponing ?_
    have hin := (hk.ready.coherent idx).resolve_left hlive.1
    rwa [hstate] at hin
  -- the changed job differs in its count only
  have hsame : ∀ i, (pool'.jobs i).state = (h.pool.jobs i).state ∧
      (pool'.jobs i).req = (h.pool.jobs i).req := by
    intro i
    rw [hjobs]
    by_cases hi : i = idx
    · rw [hi, Function.update_self]
      exact ⟨rfl, rfl⟩
    · rw [Function.update_of_ne hi]
      exact ⟨rfl, rfl⟩
  have hlive' : ∀ i, (pool'.jobs i).Live → (h.pool.jobs i).Live := by
    intro i hi
    unfold PoolJob.Live at hi ⊢
    rwa [(hsame i).1] at hi
  have hcount := hk.counted idx hstate
  have hline := line_of_preponed hitems
  have hbehind : pool'.indices.items.Pairwise h.Behind := by
    rw [hitems']
    have hpair := hk.behind
    rw [hitems] at hpair
    refine @Overtaking.pairwise_overtake _ idx [] passed rest h.Behind hpair
      fun b hb => ⟨?_, ?_, ?_⟩
    · rw [hstate]
      rfl
    · exact fun _ => hmay b hb
    · exact fun _ => hstate
  rw [record_eq_of_preponed hk ha hstate hjobs hitems hitems']
  refine
    { ready := hready
      ticket_lt := fun i hi => hk.ticket_lt i (hlive' i hi)
      ticket_inj := fun i j hi hj => hk.ticket_inj i j (hlive' i hi) (hlive' j hj)
      op_eq := fun i hi => ?_
      once := ?_
      order := ?_
      behind := ?_
      overtaken_le := fun t => ?_
      unsubmitted := fun t ht => ?_
      unstarted := fun i hi => ?_
      counted := fun i hi => ?_
      seen_le := hk.seen_le
      next := fun i j rest' hij hin _ => ?_ }
  · show h.op (h.ticket i) = (pool'.jobs i).req.operation
    rw [(hsame i).2]
    exact hk.op_eq i (hlive' i hi)
  · show (h.completed ++ pool'.indices.items.map h.ticket).Perm _
    rw [map_of_preponed hitems']
    refine Overtaking.perm_overtake.trans ?_
    rw [← hline]
    exact hk.once
  · show (h.completed ++ pool'.indices.items.map h.ticket).Pairwise _
    rw [map_of_preponed hitems']
    refine Overtaking.pairwise_overtake (hline ▸ hk.order) fun t ht _ => ?_
    obtain ⟨b, hb, rfl⟩ := List.mem_map.mp ht
    have hbmem : b ∈ h.pool.indices.items := by
      rw [hitems]
      exact List.mem_cons_of_mem _ (List.mem_append_left _ hb)
    show (h.op (h.ticket idx)).InSteps ∧ (h.op (h.ticket b)).MayBePreponed
    rw [hk.op_eq idx hlive, hk.op_eq b ((hk.ready.disciplined.mem_iff b).mp hbmem)]
    exact ⟨hop, hmay b hb⟩
  · refine hbehind.imp fun {i j} hij => ⟨?_, ?_, ?_⟩
    · show (pool'.jobs j).state.waits = true
      rw [(hsame j).1]
      exact hij.waits
    · show (pool'.jobs j).state = _ → (pool'.jobs i).req.operation.MayBePreponed
      rw [(hsame j).1, (hsame i).2]
      exact hij.passed
    · show _ → (pool'.jobs j).state = _
      rw [(hsame j).1]
      exact hij.older
  · show h.overtaken t + (if t = h.ticket idx then passed.length else 0) ≤ _
    split_ifs with ht
    · rw [ht, hcount]
      exact hmax
    · exact hk.overtaken_le t
  · show h.overtaken t + (if t = h.ticket idx then passed.length else 0) = 0 ∧ h.seen t = 0
    have hlt := hk.ticket_lt idx hlive
    have ht : h.log.length ≤ t := ht
    rw [if_neg (by omega)]
    exact hk.unsubmitted t ht
  · have hi : (pool'.jobs i).state = .submitted := hi
    rw [(hsame i).1] at hi
    exact hk.unstarted i hi
  · have hi : (pool'.jobs i).state = .preponeRequestsPending := hi
    rw [(hsame i).1] at hi
    show h.overtaken (h.ticket i) + (if h.ticket i = h.ticket idx then passed.length else 0)
      = (pool'.jobs i).nrOfRequestsPreponed
    by_cases hne' : i = idx
    · rw [hne', if_pos rfl, hcount, hjobs, Function.update_self]
      rfl
    · have : h.ticket i ≠ h.ticket idx := fun heq =>
        hne' (hk.ticket_inj i idx (live_of_state hi (by decide)) hlive heq)
      rw [if_neg this, hjobs, Function.update_of_ne hne']
      exact hk.counted i hi
  · -- the new head has overtaken: it has waited, so it is not in a step
    have hij : pool'.indices.items = i :: j :: rest' := hij
    have hin : (h.pool.jobs i).state.inStep = true := by
      rw [← (hsame i).1]
      exact hin
    obtain ⟨b, l, hpassed⟩ := List.exists_cons_of_ne_nil hne
    rw [hitems', hpassed] at hij
    have hpair := hk.behind
    rw [hitems, hpassed, List.pairwise_cons] at hpair
    rw [← (List.cons.inj hij).1] at hin
    have hwaits := (hpair.1 b List.mem_cons_self).waits
    exact absurd hin (PoolJobState.not_inStep_of_waits hwaits)

end Preponed

/-! ## The order over a run

The changes are put together, and the invariant gives the order in every state.
That a request completes at all is the draining of the pool, which was shown of
the queue alone. -/

variable {h h' : History} {a : PoolAction}

/-- A call without a change records nothing. -/
theorem record_eq_self (ha : a.submits = []) : h.record a h.pool = h := by
  have hjobs : h.pool.jobs = Function.update h.pool.jobs 0 (h.pool.jobs 0) :=
    (Function.update_eq_self _ _).symm
  rw [record_eq_of_same ha hjobs Iff.rfl rfl]
  have hends : ∀ t, ¬ h.StepEnds h.pool t := by
    rintro t ⟨i, _, hne, heq⟩
    exact hne heq
  cases h
  congr 1
  · funext t
    rw [if_neg (hends t)]
  · funext t
    rw [if_neg (hends t)]

/-- The index at the head is not in the tail. -/
theorem Kept.head_notMem_tail (hk : h.Kept) {idx : PoolIndex}
    (hhead : h.pool.indices.items.head? = some idx) : idx ∉ h.pool.indices.items.tail := by
  obtain ⟨l, hl⟩ := List.head?_eq_some_iff.mp hhead
  have hnodup := hk.ready.disciplined.nodup
  rw [hl, List.nodup_cons] at hnodup
  rw [hl]
  exact hnodup.1

/-- **A call that resumes nothing keeps the order.** -/
theorem Kept.change (hk : h.Kept) (hun : h.Unresumed a) {pool' : RequestPool}
    (hready : pool'.Ready) (hchange : h.pool.Change a pool') : (h.record a pool').Kept := by
  cases hchange with
  | admitted ha hfree _ hentry hjobs hitems =>
    exact hk.record_of_admitted ha hready ⟨hfree, hentry, hjobs, hitems⟩
  | @advanced idx job ha hhead hadv hjobs hitems =>
    have hlive := (hk.ready.disciplined.mem_iff idx).mp (mem_of_head hhead)
    refine hk.record_of_same ha hready ⟨hjobs,
      ⟨fun _ => hlive, fun _ => PoolJobState.live_of_moves _ hadv.moves⟩,
      fun _ => hadv.operation, hitems, hk.head_notMem_tail hhead, ?_, ?_, ?_⟩
    · intro hs
      refine ⟨fun hold => ?_, ?_⟩
      · have hmoves := hadv.moves
        rw [hold] at hmoves
        exact absurd hmoves List.not_mem_nil
      · have := hadv.preponed
        rwa [if_pos hs] at this
    · intro hs
      have hmoves := hadv.moves
      rw [hs] at hmoves
      revert hmoves
      cases (h.pool.jobs idx).state <;> decide
    · intro hin
      have hmoves := hadv.moves
      rcases hold : (h.pool.jobs idx).state.inStep with _ | _
      · right
        left
        revert hmoves hin hold
        cases (h.pool.jobs idx).state <;> intro hmoves hin hold <;> first
          | rfl
          | exact absurd hold (by decide)
          | (exfalso; revert hmoves hin; cases job.state <;> decide)
      · exact Or.inl rfl
  | finished ha hlive hjob hjobs hitems =>
    refine hk.record_of_finished ha hready hlive (fun hl => ?_) hjobs hitems
    rcases hjob with rfl | ⟨hs, _⟩
    · exact hl.1 rfl
    · exact hl.2 hs
  | preponed ha hstate hne hmay hmax hjobs hitems hitems' =>
    exact hk.record_of_preponed ha hready hstate hne hmay hmax hjobs hitems hitems'
  | @blocked idx rest ha hstate hblocked hjobs hitems hitems' =>
    have hlive : (h.pool.jobs idx).Live := live_of_state hstate (by decide)
    refine hk.record_of_same ha hready ⟨hjobs, ⟨fun _ => hlive, fun _ => ?_⟩, fun _ => rfl,
      hitems'.trans hitems.symm, hk.head_notMem_tail (by rw [hitems]; rfl), ?_, ?_, ?_⟩
    · exact ⟨PoolJobState.noConfusion, PoolJobState.noConfusion⟩
    · exact fun hs => PoolJobState.noConfusion hs
    · exact PoolJobState.noConfusion
    · intro _
      refine Or.inr (Or.inr fun rest' hrest => ⟨hstate, ?_⟩)
      obtain rfl := (List.cons.inj (hitems.symm.trans hrest)).2
      exact hblocked
  | @resumed idx _ ha hhead hstate hsb _ _ _ _ =>
    exact absurd ⟨idx, hhead, hstate, hsb⟩ (hun ha)
  | @dropped idx ha hstate hjobs hitems =>
    obtain ⟨req, rfl⟩ := ha
    have hnot : ¬ (h.pool.jobs idx).Live := fun hl => hl.2 hstate
    exact hk.record_of_same rfl hready ⟨hjobs,
      ⟨fun hl => absurd rfl hl.1, fun hl => absurd hl hnot⟩, fun hl => absurd rfl hl.1, hitems,
      fun hmem => hnot ((hk.ready.disciplined.mem_iff idx).mp (List.mem_of_mem_tail hmem)),
      PoolJobState.noConfusion, PoolJobState.noConfusion, fun hin => absurd hin (by decide)⟩

/-- **The step lemma of the order.** -/
theorem Kept.step (hk : h.Kept) (hun : h.Unresumed a) (hstep : h.step a = some h') :
    h'.Kept := by
  obtain ⟨pool', hpool, rfl⟩ := Option.map_eq_some_iff.mp hstep
  have hready := hk.ready.step hun hpool
  rcases step_change hk.ready.coherent hpool with ⟨rfl, ha, _⟩ | hchange
  · rw [record_eq_self ha]
    exact hk
  · exact hk.change hun hready hchange

/-- **The run lemma of the order.** -/
theorem kept_of_run (hrun : Runs.Run step Unresumed initial h) : h.Kept :=
  hrun.invariant (fun _ _ _ hk hun hstep => hk.step hun hstep) kept_initial

/-- What is in a step is a rekeying or an extension. -/
theorem inSteps_of_inStep {job : PoolJob} (hcoh : job.Coherent) (hin : job.state.inStep = true) :
    job.req.operation.InSteps := by
  have hne : job.state ≠ .invalid := by
    intro hs
    rw [hs] at hin
    exact absurd hin (by decide)
  have hmem := hcoh.resolve_left hne
  revert hmem hin
  cases job.req.operation <;> first
    | exact fun _ _ => trivial
    | (cases job.state <;> decide)

/-- **The invariant gives the order.** -/
theorem Kept.inOrder (hk : h.Kept) : h.InOrder where
  once := hk.once
  order := hk.order
  overtaken_le := hk.overtaken_le
  waits i b hhead hin hb hlt := by
    obtain ⟨l, hl⟩ := List.head?_eq_some_iff.mp hhead
    have htail : h.pending.tail = l.map h.ticket := by
      unfold pending
      rw [hl]
      rfl
    rw [htail] at hb ⊢
    obtain ⟨k, hk', rfl⟩ := List.mem_map.mp hb
    obtain ⟨j, rest, rfl⟩ := List.exists_cons_of_ne_nil (List.ne_nil_of_mem hk')
    have hmem : ∀ x ∈ h.pool.indices.items, (h.pool.jobs x).Live :=
      fun x hx => (hk.ready.disciplined.mem_iff x).mp hx
    have hpair := hk.behind
    rw [hl, List.pairwise_cons, List.pairwise_cons] at hpair
    -- behind a request in a step the tickets are in order
    have hle : h.ticket j ≤ h.ticket k := by
      rcases List.mem_cons.mp hk' with rfl | hrest
      · exact Nat.le_refl _
      · by_contra hgt
        have hold := (hpair.2.1 k hrest).older (by omega)
        have hmay := (hpair.1 k hk').passed hold
        exact (inSteps_of_inStep (hk.ready.coherent i) hin).not_mayBePreponed hmay
    rcases hk.next i j rest hl hin (by omega) with hmax | hnot
    · exact Or.inl hmax
    · refine Or.inr ⟨h.ticket j, List.mem_map_of_mem List.mem_cons_self, hle, ?_⟩
      rwa [hk.op_eq j (hmem j (by rw [hl]; simp))]

/-- The slot of a job that has changed is the one of the change. -/
theorem eq_of_update_ne {pool' : RequestPool} {idx i : PoolIndex} {job : PoolJob}
    (hjobs : pool'.jobs = Function.update h.pool.jobs idx job)
    (hne : pool'.jobs i ≠ h.pool.jobs i) : i = idx := by
  by_contra hi
  rw [hjobs, Function.update_of_ne hi] at hne
  exact hne rfl

/-- The line stays when the queue and the liveness of the job do. -/
theorem line_record_of_same {pool' : RequestPool} {idx : PoolIndex} {job : PoolJob}
    (ha : a.submits = []) (hjobs : pool'.jobs = Function.update h.pool.jobs idx job)
    (hlive : job.Live ↔ (h.pool.jobs idx).Live)
    (hitems : pool'.indices.items = h.pool.indices.items) :
    (h.record a pool').line = h.line := by
  rw [record_eq_of_same ha hjobs hlive hitems]
  show h.completed ++ pool'.indices.items.map h.ticket = _
  rw [hitems]
  rfl

/-- **What a change does to the order.** -/
theorem Kept.serves (hk : h.Kept) (hun : h.Unresumed a) {pool' : RequestPool}
    (hchange : h.pool.Change a pool') : h.Serves (h.record a pool') := by
  have hbetween : ∀ {idx : PoolIndex} {job : PoolJob},
      pool'.jobs = Function.update h.pool.jobs idx job →
      (job.state = .preponeRequestsPending → (h.pool.jobs idx).state = job.state ∨
        (h.pool.jobs idx).state ∈ [.submittedResumeRekeying, .rekeyInitComplete,
          .vbdExtensionStepComplete, .ftExtensionStepComplete, .rekeyVbaComplete]) →
      ∀ i, Begins h.pool pool' i →
        (h.pool.jobs i).state ∈ [.submittedResumeRekeying, .rekeyInitComplete,
          .vbdExtensionStepComplete, .ftExtensionStepComplete, .rekeyVbaComplete] := by
    rintro idx job hjobs hfrom i ⟨hold, hnew⟩
    have hi : i = idx := by
      refine eq_of_update_ne (h := h) hjobs fun heq => hold ?_
      rw [← heq]
      exact hnew
    subst hi
    rw [hjobs, Function.update_self] at hnew
    rcases hfrom hnew with hsame | hmem
    · exact absurd (hsame.trans hnew) hold
    · exact hmem
  cases hchange with
  | @admitted idx job ha hfree _ hentry hjobs hitems =>
    have had : Admission h pool' idx job := ⟨hfree, hentry, hjobs, hitems⟩
    refine ⟨fun i hi hne => ?_, Or.inr (Or.inl ?_),
      hbetween hjobs fun hs => absurd hs had.state_ne⟩
    · obtain rfl := eq_of_update_ne (h := h) hjobs hne
      exact absurd hfree hi.1
    · rw [record_eq_of_admitted hk ha had]
      exact had.line_eq hk
  | @advanced idx job ha hhead hadv hjobs hitems =>
    have hlive := (hk.ready.disciplined.mem_iff idx).mp (mem_of_head hhead)
    refine ⟨fun i _ hne => ?_, Or.inl ?_, hbetween hjobs fun hs => Or.inr ?_⟩
    · rw [eq_of_update_ne (h := h) hjobs hne]
      exact hhead
    · exact line_record_of_same ha hjobs
        ⟨fun _ => hlive, fun _ => PoolJobState.live_of_moves _ hadv.moves⟩ hitems
    · have hmoves := hadv.moves
      rw [hs] at hmoves
      revert hmoves
      cases (h.pool.jobs idx).state <;> decide
  | @finished idx job ha hlive hjob hjobs hitems =>
    have hnot : ¬ job.Live := by
      intro hl
      rcases hjob with rfl | ⟨hs, _⟩
      · exact hl.1 rfl
      · exact hl.2 hs
    refine ⟨fun i _ hne => ?_, Or.inl ?_, hbetween hjobs fun hs => ?_⟩
    · rw [eq_of_update_ne (h := h) hjobs hne, hitems]
      rfl
    · rw [record_eq_of_finished ha hlive hnot hjobs hitems]
      show (h.completed ++ [h.ticket idx]) ++ pool'.indices.items.map h.ticket = _
      unfold line pending
      rw [hitems, List.append_assoc]
      rfl
    · exact absurd (live_of_states (l := [.preponeRequestsPending]) (by rw [hs]; simp)
        (by decide)) hnot
  | @preponed idx passed rest ha hstate hne hmay hmax hjobs hitems hitems' =>
    refine ⟨fun i _ hne' => ?_, Or.inr (Or.inr ⟨idx, passed.map h.ticket, rest.map h.ticket,
      by rw [hitems]; rfl, hstate, fun t ht => ?_, line_of_preponed hitems, ?_⟩),
      hbetween hjobs fun hs => Or.inl (hstate.trans hs.symm)⟩
    · rw [eq_of_update_ne (h := h) hjobs hne', hitems]
      rfl
    · obtain ⟨b, hb, rfl⟩ := List.mem_map.mp ht
      have hbmem : b ∈ h.pool.indices.items := by
        rw [hitems]
        exact List.mem_cons_of_mem _ (List.mem_append_left _ hb)
      rw [hk.op_eq b ((hk.ready.disciplined.mem_iff b).mp hbmem)]
      exact hmay b hb
    · rw [record_eq_of_preponed hk ha hstate hjobs hitems hitems']
      show h.completed ++ pool'.indices.items.map h.ticket = _
      rw [map_of_preponed hitems']
  | @blocked idx rest ha hstate hblocked hjobs hitems hitems' =>
    have hlive : (h.pool.jobs idx).Live := live_of_state hstate (by decide)
    refine ⟨fun i _ hne => ?_, Or.inl ?_, hbetween hjobs fun hs => PoolJobState.noConfusion hs⟩
    · rw [eq_of_update_ne (h := h) hjobs hne, hitems]
      rfl
    · exact line_record_of_same ha hjobs
        ⟨fun _ => hlive, fun _ => ⟨PoolJobState.noConfusion, PoolJobState.noConfusion⟩⟩
        (hitems'.trans hitems.symm)
  | @resumed idx _ ha hhead hstate hsb _ _ _ _ =>
    exact absurd ⟨idx, hhead, hstate, hsb⟩ (hun ha)
  | @dropped idx ha hstate hjobs hitems =>
    obtain ⟨req, rfl⟩ := ha
    have hnot : ¬ (h.pool.jobs idx).Live := fun hl => hl.2 hstate
    refine ⟨fun i hi hne => ?_, Or.inl ?_, hbetween hjobs fun hs => PoolJobState.noConfusion hs⟩
    · obtain rfl := eq_of_update_ne (h := h) hjobs hne
      exact absurd hi hnot
    · exact line_record_of_same rfl hjobs
        ⟨fun hl => absurd rfl hl.1, fun hl => absurd hl hnot⟩ hitems

/-- A call that changes nothing. -/
theorem serves_self (h : History) : h.Serves h where
  front _ _ hne := absurd rfl hne
  line := Or.inl rfl
  between _ hbegins := absurd hbegins.2 hbegins.1

/-- **Requests are served in order.** In every run that resumes nothing, of any
requests and any completions of their primitives, the requests are in order in
every state; every call works on the request at the head, and changes the order
only where requests may overtake; and every request is served to its end. -/
theorem inOrder_of_run (hrun : Runs.Run step Unresumed initial h) :
    h.InOrder ∧ h.pool.Drains ∧
      ∀ a h', h.Unresumed a → h.step a = some h' → h.Serves h' := by
  have hk := kept_of_run hrun
  refine ⟨hk.inOrder, hk.ready.drains, fun a h' hun hstep => ?_⟩
  obtain ⟨pool', hpool, rfl⟩ := Option.map_eq_some_iff.mp hstep
  rcases step_change hk.ready.coherent hpool with ⟨rfl, ha, _⟩ | hchange
  · rw [record_eq_self ha]
    exact serves_self h
  · exact hk.serves hun hchange

/-- An extension and a read: after the first step of the extension the read
overtakes it. -/
def sampleOvertaking : List PoolAction :=
  [.execute, .dropGenerated 0, .markCompleteSbState 0 true .normal, .execute,
    .submit (Request.ownObject .extendVbd) 0, .submit sampleRead 0,
    .execute, .dropGenerated 0, .markCompleteReqFin 0 true false, .execute, .execute]

/-- The read is completed before the extension, which was submitted before it.
-/
theorem inOrder_of_run_sample :
    ∃ h, Runs.Run step Unresumed initial h ∧ h.line = [0, 2, 1] ∧ h.InOrder := by
  have hrun : Runs.Run step Unresumed initial
      (Runs.after step Unresumed initial sampleOvertaking) := Runs.Run.after (by decide)
  exact ⟨_, hrun, by decide, (inOrder_of_run hrun).1⟩

/-- A start on a superblock in the state `Rekeying`, with one read behind the
resumed rekeying and one after it. -/
def sampleResumedReads : List PoolAction :=
  sampleResumption ++
    [.submit sampleRead 0, .execute, .execute, .execute, .dropGenerated 0,
      .markCompleteReqFin 0 true true, .execute, .dropCompleted (Request.ownObject .rekey),
      .submit sampleRead 0, .dropGenerated 0, .markComplete 0 true]

/-- **Two reads change their order** after a resumed rekeying: the stale entry of
its slot lets the second read, in the same slot, complete before the first. -/
theorem not_inOrder_resumed :
    ¬ ∀ h, Runs.Run step (fun _ _ => True) initial h → h.InOrder := by
  intro hall
  have horder := (hall (Runs.after step (fun _ _ => True) initial sampleResumedReads)
    (Runs.Run.after (by decide))).order
  have hline : (Runs.after step (fun _ _ => True) initial sampleResumedReads).line.take 3
      = [0, 2, 1] := by decide
  have hpair := horder.sublist (List.take_sublist 3 _)
  rw [hline, List.pairwise_cons, List.pairwise_cons] at hpair
  have := (hpair.2.1 1 (List.mem_singleton_self 1) (by decide)).1
  exact absurd this (by decide)

end History

end Cbe
