import Cbe.Cache
import Cbe.Support.Runs

/-!
# The cache refines a plain store

The content of the store is what the acknowledged writes have left on the disk
that the cache started with: a write counts, with the data that the module
handed over, from the moment its job completes. A slot with data has the
content of its block, a block is on the disk with its content unless a slot has
data for it that the device does not have, and no two slots have the same block
(`Consistent`). Every call of a job is one of the six cases of `Executed`, and
each of them keeps this; so does each move of the block device, since a
primitive in flight belongs to a slot that no job touches (`InFlight`).

What a call does to the slots is put into words by the access that it completes
on them. That this is what the module gets acknowledged is a fact of its own
(`Executed.acknowledged`): the job is still the one that was asked for, and the
buffer of a write has the data that was handed over (`CacheRequest.Taken`).
-/

namespace Cbe

open StoreHistory

variable {β : Type}

/-- The slot has the data of its block. -/
def CacheSlotState.HasData (s : CacheSlotState) : Prop :=
  s = .clean ∨ s.Unwritten

/-- A slot whose primitive is at the block device. -/
def CacheSlotState.Busy (s : CacheSlotState) : Prop :=
  s = .readInProgress ∨ s = .writeInProgress

instance (s : CacheSlotState) : Decidable s.HasData := inferInstanceAs (Decidable (_ ∨ _))

instance (s : CacheSlotState) : Decidable s.Busy := inferInstanceAs (Decidable (_ ∨ _))

/-- A dirty slot has data that the device does not have. -/
theorem CacheSlotState.unwritten_dirty : CacheSlotState.dirty.Unwritten := by decide

/-- A slot that is free or clean has no data that the device does not have. -/
theorem CacheSlotState.not_unwritten {s : CacheSlotState} (h : s = .invalid ∨ s = .clean) :
    ¬ s.Unwritten := by
  rcases h with rfl | rfl <;> decide

/-- A slot with unwritten data is in use. -/
theorem CacheSlotState.Unwritten.ne_invalid {s : CacheSlotState} (h : s.Unwritten) :
    s ≠ .invalid := by
  rintro rfl
  revert h
  decide

/-- A slot with data is in use. -/
theorem CacheSlotState.HasData.ne_invalid {s : CacheSlotState} (h : s.HasData) :
    s ≠ .invalid := by
  rcases h with rfl | h
  · decide
  · exact h.ne_invalid

/-- A slot whose primitive is at the device is in use. -/
theorem CacheSlotState.Busy.ne_invalid {s : CacheSlotState} (h : s.Busy) : s ≠ .invalid := by
  rcases h with rfl | rfl <;> decide

namespace Cache

variable {cache cache' : Cache β} {idx : CacheJobsIndex} {accesses : List (Access ℕ β)}

/-- The slot that is set. -/
@[simp] theorem setSlot_slots_self (i : CacheSlotsIndex) (slot : CacheSlot) :
    (cache.setSlot i slot).slots i = slot := Function.update_self _ _ _

/-- The other slots stay. -/
theorem setSlot_slots_of_ne {i j : CacheSlotsIndex} (slot : CacheSlot) (h : j ≠ i) :
    (cache.setSlot i slot).slots j = cache.slots j := Function.update_of_ne h _ _

/-- Completing a job changes no slot. -/
@[simp] theorem completeJob_slots : (cache.completeJob idx).slots = cache.slots := rfl

/-- Nor does it change the data of one. -/
@[simp] theorem completeJob_slotsData : (cache.completeJob idx).slotsData = cache.slotsData := rfl

/-! ## What a call of a job does

A job looks for the slot of its block. If there is none it takes one that is
free or clean, or, without one, has a dirty slot written back and waits. A sync
writes all dirty slots back and completes when none is left. -/

/-- No slot in use has the block. -/
def Absent (cache : Cache β) (pba : ℕ) : Prop :=
  ∀ i, (cache.slots i).state ≠ .invalid → (cache.slots i).pba ≠ pba

/-- **What one call of a job does**, with the access that it completes: nothing;
it lets a dirty slot be written back; it is a sync; it reads a slot with its
block; it takes a slot for its block; or it writes a slot. -/
inductive Executed (cache : Cache β) (idx : CacheJobsIndex) :
    Cache β → List (Access ℕ β) → Prop
  | waits : Executed cache idx cache []
  | makesRoom (i : CacheSlotsIndex) (hi : (cache.slots i).state = .dirty) :
      Executed cache idx (cache.generateWrite i) []
  | syncs (hst : (cache.jobs idx).state = .submitted)
      (hop : (cache.jobs idx).prim.operation = .sync) :
      Executed cache idx (cache.jobExecuteSync idx) []
  | reads (i : CacheSlotsIndex) (hst : (cache.jobs idx).state = .submitted)
      (hop : (cache.jobs idx).prim.operation = .read)
      (hi : (cache.slots i).state.HasData) (hpba : (cache.slots i).pba = (cache.jobs idx).pba) :
      Executed cache idx
        (completeJob
          { cache with jobsData := Function.update cache.jobsData idx (cache.slotsData i) } idx)
        [.read (cache.jobs idx).pba (cache.slotsData i)]
  | takes (i : CacheSlotsIndex)
      (hi : (cache.slots i).state = .invalid ∨ (cache.slots i).state = .clean)
      (habsent : cache.Absent (cache.jobs idx).pba) :
      Executed cache idx
        (cache.setSlot i
          { state := .readGenerated
            prim := slotPrim .read (cache.jobs idx).pba i
            pba := (cache.jobs idx).pba }) []
  | writes (i : CacheSlotsIndex) (hst : (cache.jobs idx).state = .submitted)
      (hop : (cache.jobs idx).prim.operation = .write)
      (hi : (cache.slots i).state ∈ [.clean, .dirty] ∧ (cache.slots i).pba = (cache.jobs idx).pba
        ∨ (cache.slots i).state ∈ [.invalid, .clean] ∧ cache.Absent (cache.jobs idx).pba) :
      Executed cache idx (cache.putData idx i)
        [.write (cache.jobs idx).pba (cache.jobsData idx)]

/-- A slot that is found has the block. -/
theorem findMatchingSlot_eq_some {pba : ℕ} {i : CacheSlotsIndex}
    (h : cache.findMatchingSlot pba = some i) :
    (cache.slots i).state ≠ .invalid ∧ (cache.slots i).pba = pba := by
  simpa using List.find?_some h

/-- When none is found no slot has it. -/
theorem findMatchingSlot_eq_none {pba : ℕ} (h : cache.findMatchingSlot pba = none) :
    cache.Absent pba := by
  intro i hi
  simpa [hi] using List.find?_eq_none.mp h i (List.mem_finRange i)

/-- A slot that may be taken has no unwritten data. -/
theorem findEvictableSlot_eq_some {i : CacheSlotsIndex} (h : cache.findEvictableSlot = some i) :
    (cache.slots i).state = .invalid ∨ (cache.slots i).state = .clean := by
  have hi := List.find?_some h
  simp only [decide_eq_true_eq] at hi
  exact hi.imp_right And.left

/-- Making room is waiting or writing one dirty slot back. -/
theorem makeRoom_executed (h : cache.makeRoom = some cache') : Executed cache idx cache' [] := by
  unfold makeRoom at h
  split_ifs at h
  · obtain rfl := Option.some.inj h
    exact .waits
  · obtain ⟨i, hi, rfl⟩ := Option.map_eq_some_iff.mp h
    exact .makesRoom i (by simpa using List.find?_some hi)

/-- A call of a read is one of the cases. -/
theorem jobExecuteRead_executed (hst : (cache.jobs idx).state = .submitted)
    (hop : (cache.jobs idx).prim.operation = .read) (h : cache.jobExecuteRead idx = some cache') :
    ∃ accesses, Executed cache idx cache' accesses := by
  unfold jobExecuteRead at h
  dsimp only at h
  cases hmatch : cache.findMatchingSlot (cache.jobs idx).pba with
  | some i =>
    rw [hmatch] at h
    obtain ⟨hused, hpba⟩ := findMatchingSlot_eq_some hmatch
    dsimp only at h
    split at h
    case h_1 hi | h_2 hi | h_3 hi | h_4 hi =>
      obtain rfl := Option.some.inj h
      exact ⟨_, .reads i hst hop (by rw [hi]; decide) hpba⟩
    case h_5 =>
      obtain rfl := Option.some.inj h
      exact ⟨_, .waits⟩
  | none =>
    rw [hmatch] at h
    dsimp only at h
    split at h
    · next i hi =>
      obtain rfl := Option.some.inj h
      exact ⟨_, .takes i (findEvictableSlot_eq_some hi) (findMatchingSlot_eq_none hmatch)⟩
    · exact ⟨_, makeRoom_executed h⟩

/-- A call of a write is one of the cases. -/
theorem jobExecuteWrite_executed (hst : (cache.jobs idx).state = .submitted)
    (hop : (cache.jobs idx).prim.operation = .write) (h : cache.jobExecuteWrite idx = some cache') :
    ∃ accesses, Executed cache idx cache' accesses := by
  unfold jobExecuteWrite at h
  cases hmatch : cache.findMatchingSlot (cache.jobs idx).pba with
  | some i =>
    rw [hmatch] at h
    obtain ⟨-, hpba⟩ := findMatchingSlot_eq_some hmatch
    dsimp only at h
    split at h
    case h_1 hi | h_2 hi =>
      obtain rfl := Option.some.inj h
      exact ⟨_, .writes i hst hop (.inl ⟨by simp [hi], hpba⟩)⟩
    case h_3 =>
      obtain rfl := Option.some.inj h
      exact ⟨_, .waits⟩
  | none =>
    rw [hmatch] at h
    dsimp only at h
    split at h
    · next i hi =>
      obtain rfl := Option.some.inj h
      refine ⟨_, .writes i hst hop (.inr ⟨?_, findMatchingSlot_eq_none hmatch⟩)⟩
      simpa using findEvictableSlot_eq_some hi
    · exact ⟨_, makeRoom_executed h⟩

/-- **Every call of a job is one of the cases.** -/
theorem jobExecute_executed (h : cache.jobExecute idx = some cache') :
    ∃ accesses, Executed cache idx cache' accesses := by
  unfold jobExecute at h
  split at h
  · next hst =>
    split at h
    · next hop =>
      obtain rfl := Option.some.inj h
      exact ⟨_, .syncs hst hop⟩
    · next hop => exact jobExecuteRead_executed hst hop h
    · next hop => exact jobExecuteWrite_executed hst hop h
  · obtain rfl := Option.some.inj h
    exact ⟨_, .waits⟩

end Cache

/-! ## What the modules see

The log of the accesses is kept by the slots' side. Here it is tied to the jobs:
the request that a module has submitted, the data it has handed over, and what
it finds in the buffer when its job has completed. -/

/-- **The job is the one that the module has asked for**, and the buffer of a
write has the data that the module has handed over. -/
structure CacheRequest.Taken (r : CacheRequest β) (job : CacheJob) (buffer : β) : Prop where
  /-- The operation is the one that was asked for. -/
  operation : r.prim.operation = job.prim.operation
  /-- So is the block. -/
  pba : r.prim.blockNumber = job.pba
  /-- The buffer of a write has the data that was handed over. -/
  data : job.prim.operation = .write → r.data = buffer

/-- A job that completes is still the one that was asked for; only the buffer of
a read may have changed. -/
theorem CacheRequest.Taken.complete {r : CacheRequest β} {job : CacheJob} {buffer buffer' : β}
    (h : r.Taken job buffer) (hbuffer : job.prim.operation = .write → buffer' = buffer) :
    r.Taken { job with
      state := .completed
      prim := { job.prim with success := true } } buffer' where
  operation := h.operation
  pba := h.pba
  data hop := (h.data hop).trans (hbuffer hop).symm

namespace Cache

variable {cache cache' : Cache β} {idx : CacheJobsIndex} {accesses : List (Access ℕ β)}

/-- A sync completes its own job at most. -/
theorem jobExecuteSync_jobs (j : CacheJobsIndex) :
    (cache.jobExecuteSync idx).jobs j = cache.jobs j
      ∨ j = idx ∧ (cache.jobExecuteSync idx).jobs j
        = { cache.jobs j with
            state := .completed
            prim := { (cache.jobs j).prim with success := true } } := by
  unfold jobExecuteSync
  dsimp only
  split
  · exact .inl rfl
  · by_cases hj : j = idx
    · subst hj
      exact .inr ⟨rfl, Function.update_self _ _ _⟩
    · exact .inl (Function.update_of_ne hj _ _)

/-- A sync has no data. -/
theorem jobExecuteSync_jobsData : (cache.jobExecuteSync idx).jobsData = cache.jobsData := by
  unfold jobExecuteSync
  dsimp only
  split <;> rfl

/-- A submitted job has not completed. -/
theorem not_completes (h : cache'.jobs idx = cache.jobs idx) :
    ¬ ((cache.jobs idx).state = .submitted ∧ (cache'.jobs idx).state = .completed) := by
  rintro ⟨hsub, hdone⟩
  rw [h, hsub] at hdone
  exact absurd hdone (by decide)

/-- **What a call completes on the slots is what the module gets acknowledged**:
the block is the one that was asked for, what was written is what was handed
over, and what was read is what the module finds in the buffer. -/
theorem Executed.acknowledged (hx : Executed cache idx cache' accesses) {r : CacheRequest β}
    (hr : (cache.jobs idx).state ≠ .invalid → r.Taken (cache.jobs idx) (cache.jobsData idx)) :
    accesses = if (cache.jobs idx).state = .submitted ∧ (cache'.jobs idx).state = .completed then
        r.acknowledged (cache'.jobsData idx)
      else [] := by
  cases hx with
  | waits | makesRoom | takes =>
    rw [if_neg]
    exact not_completes rfl
  | syncs hst hop =>
    have htaken := hr (by simp [hst])
    unfold CacheRequest.acknowledged
    rw [htaken.operation, hop]
    exact (ite_self _).symm
  | reads i hst hop hi hpba =>
    have htaken := hr (by simp [hst])
    have hdone : ((Function.update cache.jobs idx { cache.jobs idx with
        state := .completed
        prim := { (cache.jobs idx).prim with success := true } }) idx).state = .completed := by
      rw [Function.update_self]
    rw [if_pos ⟨hst, hdone⟩]
    unfold CacheRequest.acknowledged completeJob
    rw [htaken.operation, hop, htaken.pba]
    dsimp only
    rw [Function.update_self]
  | writes i hst hop hi =>
    have htaken := hr (by simp [hst])
    have hdone : ((Function.update cache.jobs idx { cache.jobs idx with
        state := .completed
        prim := { (cache.jobs idx).prim with success := true } }) idx).state = .completed := by
      rw [Function.update_self]
    rw [if_pos ⟨hst, hdone⟩]
    unfold CacheRequest.acknowledged
    rw [htaken.operation, hop, htaken.pba, htaken.data hop]

/-- A sync leaves the other jobs alone. -/
theorem jobExecuteSync_jobs_of_ne {j : CacheJobsIndex} (hj : j ≠ idx) :
    (cache.jobExecuteSync idx).jobs j = cache.jobs j :=
  (jobExecuteSync_jobs j).resolve_right fun h => hj h.1

/-- A call of a job leaves the other jobs alone. -/
theorem Executed.jobs_of_ne (hx : Executed cache idx cache' accesses) {j : CacheJobsIndex}
    (hj : j ≠ idx) : cache'.jobs j = cache.jobs j := by
  cases hx with
  | waits | makesRoom | takes => rfl
  | syncs => exact jobExecuteSync_jobs_of_ne hj
  | reads | writes => exact Function.update_of_ne hj _ _

/-- A call of a job leaves the jobs as they were asked for. -/
theorem Executed.taken (hx : Executed cache idx cache' accesses) {r : CacheRequest β}
    {j : CacheJobsIndex}
    (hr : (cache.jobs j).state ≠ .invalid → r.Taken (cache.jobs j) (cache.jobsData j)) :
    (cache'.jobs j).state ≠ .invalid → r.Taken (cache'.jobs j) (cache'.jobsData j) := by
  cases hx with
  | waits | makesRoom | takes => exact hr
  | syncs hst hop =>
    rw [jobExecuteSync_jobsData]
    obtain hj | ⟨rfl, hj⟩ : (cache.jobExecuteSync idx).jobs j = cache.jobs j ∨ j = idx ∧ _ :=
      jobExecuteSync_jobs j
    · rw [hj]
      exact hr
    · rw [hj]
      exact fun _ => (hr (by simp [hst])).complete fun _ => rfl
  | reads i hst hop hi hpba =>
    unfold completeJob
    dsimp only
    by_cases hj : j = idx
    · subst hj
      rw [Function.update_self]
      refine fun _ => (hr (by simp [hst])).complete fun hwrite => ?_
      exact absurd (hop.symm.trans hwrite) (by decide)
    · rw [Function.update_of_ne hj, Function.update_of_ne hj]
      exact hr
  | writes i hst hop hi =>
    unfold putData completeJob setSlot
    dsimp only
    by_cases hj : j = idx
    · subst hj
      rw [Function.update_self]
      exact fun _ => (hr (by simp [hst])).complete fun _ => rfl
    · rw [Function.update_of_ne hj]
      exact hr

end Cache

/-! ## The slots and the content of the store

The agreement is a statement about three functions: the content of the store,
the disk, and the slots with their data. A change of a slot keeps it under
conditions that name only that slot (`SlotChange`), which is what the cases of a
call are checked against. -/

/-- **The slots agree with a content**: no two slots have one block; a slot with
data has the content of its block; and a block is on the disk with its content
unless a slot has unwritten data for it. A primitive that a slot generates is
for its block. -/
structure SlotsConsistent (content disk : ℕ → β) (slots : CacheSlotsIndex → CacheSlot)
    (slotsData : CacheSlotsIndex → β) : Prop where
  /-- No block is in two slots. -/
  unique : ∀ i j, (slots i).state ≠ .invalid → (slots j).state ≠ .invalid →
    (slots i).pba = (slots j).pba → i = j
  /-- A slot with data has the content of its block. -/
  data : ∀ i, (slots i).state.HasData → slotsData i = content (slots i).pba
  /-- A block without unwritten data in a slot is on the disk. -/
  disk : ∀ pba, (∀ i, (slots i).state.Unwritten → (slots i).pba ≠ pba) → disk pba = content pba
  /-- A slot that is to be read generates the read of its block. -/
  readPrim : ∀ i, (slots i).state = .readGenerated →
    (slots i).prim = Cache.slotPrim .read (slots i).pba i
  /-- A slot that is to be written generates the write of its block. -/
  writePrim : ∀ i, (slots i).state = .writeGenerated →
    (slots i).prim = Cache.slotPrim .write (slots i).pba i

/-- A slot changes as the content and the disk allow it. -/
structure SlotChange (content content' disk : ℕ → β) (slots : CacheSlotsIndex → CacheSlot)
    (i : CacheSlotsIndex) (slot : CacheSlot) (data : β) : Prop where
  /-- No other slot has the block. -/
  unique : ∀ j, j ≠ i → (slots j).state ≠ .invalid → slot.state ≠ .invalid →
    (slots j).pba ≠ slot.pba
  /-- The slot has the new content of its block, if it has data. -/
  data : slot.state.HasData → data = content' slot.pba
  /-- The content changes only where the slot has unwritten data. -/
  content : ∀ pba, content' pba = content pba ∨ pba = slot.pba ∧ slot.state.Unwritten
  /-- Unwritten data stays in the slot until the device has it. -/
  keeps : (slots i).state.Unwritten →
    slot.state.Unwritten ∧ slot.pba = (slots i).pba ∨ disk (slots i).pba = content' (slots i).pba
  /-- A slot that is to be read generates the read of its block. -/
  readPrim : slot.state = .readGenerated → slot.prim = Cache.slotPrim .read slot.pba i
  /-- A slot that is to be written generates the write of its block. -/
  writePrim : slot.state = .writeGenerated → slot.prim = Cache.slotPrim .write slot.pba i

section Slots

variable {content content' disk : ℕ → β} {slots : CacheSlotsIndex → CacheSlot}
  {slotsData : CacheSlotsIndex → β} {i : CacheSlotsIndex} {slot : CacheSlot} {data : β}

/-- **A slot change keeps the slots consistent.** -/
theorem SlotsConsistent.update (h : SlotsConsistent content disk slots slotsData)
    (hc : SlotChange content content' disk slots i slot data) :
    SlotsConsistent content' disk (Function.update slots i slot)
      (Function.update slotsData i data) where
  unique a b ha hb hab := by
    by_cases hai : a = i <;> by_cases hbi : b = i
    · exact hai.trans hbi.symm
    · subst hai
      rw [Function.update_self] at ha hab
      rw [Function.update_of_ne hbi] at hb hab
      exact absurd hab.symm (hc.unique b hbi hb ha)
    · subst hbi
      rw [Function.update_self] at hb hab
      rw [Function.update_of_ne hai] at ha hab
      exact absurd hab (hc.unique a hai ha hb)
    · rw [Function.update_of_ne hai] at ha hab
      rw [Function.update_of_ne hbi] at hb hab
      exact h.unique a b ha hb hab
  data a ha := by
    by_cases hai : a = i
    · subst hai
      rw [Function.update_self] at ha ⊢
      rw [Function.update_self]
      exact hc.data ha
    · rw [Function.update_of_ne hai] at ha ⊢
      rw [Function.update_of_ne hai, h.data a ha]
      rcases hc.content (slots a).pba with heq | ⟨hpba, hunwritten⟩
      · exact heq.symm
      · exact absurd hpba (hc.unique a hai ha.ne_invalid hunwritten.ne_invalid)
  disk pba hpba := by
    have hself : slot.state.Unwritten → slot.pba ≠ pba := by
      have hi := hpba i
      rwa [Function.update_self] at hi
    have hother : ∀ j, j ≠ i → (slots j).state.Unwritten → (slots j).pba ≠ pba := by
      intro j hj
      have hj' := hpba j
      rwa [Function.update_of_ne hj] at hj'
    rcases hc.content pba with heq | ⟨heq, hunwritten⟩
    · by_cases hi : (slots i).state.Unwritten ∧ (slots i).pba = pba
      · -- the block of the slot: its data has reached the disk
        obtain ⟨hunwritten, rfl⟩ := hi
        rcases hc.keeps hunwritten with ⟨hslot, hsame⟩ | hdisk
        · exact absurd hsame (hself hslot)
        · exact hdisk
      · rw [heq]
        refine h.disk pba fun j hj => ?_
        by_cases hji : j = i
        · subst hji
          exact fun hjp => hi ⟨hj, hjp⟩
        · exact hother j hji hj
    · exact absurd heq.symm (hself hunwritten)
  readPrim a ha := by
    by_cases hai : a = i
    · subst hai
      rw [Function.update_self] at ha ⊢
      exact hc.readPrim ha
    · rw [Function.update_of_ne hai] at ha ⊢
      exact h.readPrim a ha
  writePrim a ha := by
    by_cases hai : a = i
    · subst hai
      rw [Function.update_self] at ha ⊢
      exact hc.writePrim ha
    · rw [Function.update_of_ne hai] at ha ⊢
      exact h.writePrim a ha

/-- A slot that keeps its block and does not get other data. -/
theorem SlotsConsistent.setState (h : SlotsConsistent content disk slots slotsData)
    (hpba : slot.pba = (slots i).pba)
    (hused : slot.state ≠ .invalid → (slots i).state ≠ .invalid)
    (hdata : slot.state.HasData → (slots i).state.HasData)
    (hkeeps : (slots i).state.Unwritten →
      slot.state.Unwritten ∨ disk (slots i).pba = content (slots i).pba)
    (hread : slot.state = .readGenerated → slot.prim = Cache.slotPrim .read slot.pba i)
    (hwrite : slot.state = .writeGenerated → slot.prim = Cache.slotPrim .write slot.pba i) :
    SlotsConsistent content disk (Function.update slots i slot) slotsData := by
  rw [show slotsData = Function.update slotsData i (slotsData i) from
    (Function.update_eq_self i slotsData).symm]
  refine h.update ⟨fun j hj hused' hslot heq => ?_, fun hs => ?_, fun _ => .inl rfl, fun hu => ?_,
    hread, hwrite⟩
  · exact hj (h.unique j i hused' (hused hslot) (heq.trans hpba))
  · rw [hpba]
    exact h.data i (hdata hs)
  · exact (hkeeps hu).imp_left fun hs => ⟨hs, hpba⟩

end Slots

/-- **The jobs agree with a content**: a write has its block for itself, and a
completed read has the content of its block in its buffer. -/
structure JobsConsistent (content : ℕ → β) (jobs : CacheJobsIndex → CacheJob)
    (jobsData : CacheJobsIndex → β) : Prop where
  /-- No other job has the block of a write. -/
  alone : ∀ a b, a ≠ b → (jobs a).state ≠ .invalid → (jobs b).state ≠ .invalid →
    (jobs a).prim.operation = .write → (jobs b).prim.operation ≠ .sync →
    (jobs a).pba ≠ (jobs b).pba
  /-- What a completed read has in its buffer is the content. -/
  returned : ∀ a, (jobs a).state = .completed → (jobs a).prim.operation = .read →
    jobsData a = content (jobs a).pba

/-- A job in progress completes; no completed read notices. -/
theorem JobsConsistent.complete {content content' : ℕ → β} {jobs : CacheJobsIndex → CacheJob}
    {jobsData jobsData' : CacheJobsIndex → β} {idx : CacheJobsIndex}
    (h : JobsConsistent content jobs jobsData) (hst : (jobs idx).state = .submitted)
    (hother : ∀ a, a ≠ idx → (jobs a).state = .completed → (jobs a).prim.operation = .read →
      jobsData' a = jobsData a ∧ content' (jobs a).pba = content (jobs a).pba)
    (hidx : (jobs idx).prim.operation = .read → jobsData' idx = content' (jobs idx).pba) :
    JobsConsistent content'
      (Function.update jobs idx { jobs idx with
        state := .completed
        prim := { (jobs idx).prim with success := true } }) jobsData' where
  alone a b hab := by
    by_cases ha : a = idx <;> by_cases hb : b = idx
    · exact absurd (ha.trans hb.symm) hab
    · subst ha
      rw [Function.update_self, Function.update_of_ne hb]
      intro _ hlive
      exact h.alone a b hab (by simp [hst]) hlive
    · subst hb
      rw [Function.update_self, Function.update_of_ne ha]
      intro hlive _
      exact h.alone a b hab hlive (by simp [hst])
    · rw [Function.update_of_ne ha, Function.update_of_ne hb]
      exact h.alone a b hab
  returned a := by
    by_cases ha : a = idx
    · subst ha
      rw [Function.update_self]
      exact fun _ => hidx
    · rw [Function.update_of_ne ha]
      intro hcompleted hread
      obtain ⟨hdata, hcontent⟩ := hother a ha hcompleted hread
      rw [hdata, hcontent]
      exact h.returned a hcompleted hread

namespace Cache

/-- **The cache agrees with a content.** -/
structure Consistent (content disk : ℕ → β) (cache : Cache β) : Prop where
  /-- The slots agree with the content. -/
  slots : SlotsConsistent content disk cache.slots cache.slotsData
  /-- So do the jobs. -/
  jobs : JobsConsistent content cache.jobs cache.jobsData

section Executed

variable {content disk : ℕ → β} {cache cache' : Cache β} {idx : CacheJobsIndex}
  {accesses : List (Access ℕ β)}

/-- A sync changes the states of the slots alone, and none but that of a dirty
slot. -/
theorem jobExecuteSync_slots (i : CacheSlotsIndex) :
    (cache.jobExecuteSync idx).slots i =
      if (cache.slots i).state = .dirty then
        { cache.slots i with
          state := .writeGenerated
          prim := slotPrim .write (cache.slots i).pba i }
      else cache.slots i := by
  unfold jobExecuteSync
  dsimp only
  split <;> rfl

/-- A sync moves no slot to another block. -/
theorem jobExecuteSync_pba (i : CacheSlotsIndex) :
    ((cache.jobExecuteSync idx).slots i).pba = (cache.slots i).pba := by
  rw [jobExecuteSync_slots]
  split <;> rfl

/-- A sync has every dirty slot written back. -/
theorem jobExecuteSync_state (i : CacheSlotsIndex) :
    ((cache.jobExecuteSync idx).slots i).state =
      if (cache.slots i).state = .dirty then .writeGenerated else (cache.slots i).state := by
  rw [jobExecuteSync_slots]
  split <;> rfl

/-- What is unwritten or has data before a sync is so after it, and nothing
else is. -/
theorem jobExecuteSync_unwritten (i : CacheSlotsIndex) :
    ((cache.jobExecuteSync idx).slots i).state.Unwritten ↔ (cache.slots i).state.Unwritten := by
  rw [jobExecuteSync_state]
  cases (cache.slots i).state <;> decide

/-- What has data before a sync has data after it. -/
theorem jobExecuteSync_hasData (i : CacheSlotsIndex) :
    ((cache.jobExecuteSync idx).slots i).state.HasData ↔ (cache.slots i).state.HasData := by
  rw [jobExecuteSync_state]
  unfold CacheSlotState.HasData
  cases (cache.slots i).state <;> decide

/-- A sync changes no data. -/
theorem jobExecuteSync_slotsData : (cache.jobExecuteSync idx).slotsData = cache.slotsData := by
  unfold jobExecuteSync
  dsimp only
  split <;> rfl

/-- A sync keeps the slots consistent. -/
theorem SlotsConsistent.jobExecuteSync
    (h : SlotsConsistent content disk cache.slots cache.slotsData) :
    SlotsConsistent content disk (cache.jobExecuteSync idx).slots
      (cache.jobExecuteSync idx).slotsData where
  unique a b ha hb hab := by
    rw [jobExecuteSync_pba, jobExecuteSync_pba] at hab
    have hused : ∀ i, ((cache.jobExecuteSync idx).slots i).state ≠ .invalid →
        (cache.slots i).state ≠ .invalid := by
      intro i hi heq
      rw [jobExecuteSync_state, heq] at hi
      exact hi rfl
    exact h.unique a b (hused a ha) (hused b hb) hab
  data a ha := by
    rw [jobExecuteSync_pba, jobExecuteSync_slotsData]
    exact h.data a ((jobExecuteSync_hasData a).mp ha)
  disk pba hpba := by
    refine h.disk pba fun i hi => ?_
    have hi' := hpba i ((jobExecuteSync_unwritten i).mpr hi)
    rwa [jobExecuteSync_pba] at hi'
  readPrim a ha := by
    rw [jobExecuteSync_slots] at ha ⊢
    split at ha
    · exact absurd ha (by simp)
    · next hd =>
      rw [if_neg hd]
      exact h.readPrim a ha
  writePrim a ha := by
    rw [jobExecuteSync_slots] at ha ⊢
    split at ha
    · next hd =>
      rw [if_pos hd]
    · next hd =>
      rw [if_neg hd]
      exact h.writePrim a ha

/-- A sync completes no read. -/
theorem JobsConsistent.jobExecuteSync (h : JobsConsistent content cache.jobs cache.jobsData)
    (hst : (cache.jobs idx).state = .submitted)
    (hop : (cache.jobs idx).prim.operation = .sync) :
    JobsConsistent content (cache.jobExecuteSync idx).jobs (cache.jobExecuteSync idx).jobsData := by
  rw [jobExecuteSync_jobsData]
  unfold Cache.jobExecuteSync
  dsimp only
  split
  · exact h
  · exact h.complete hst (fun _ _ _ _ => ⟨rfl, rfl⟩) (fun hread => by simp [hop] at hread)

/-- **The data of a write goes into a slot** that has its block already, or into
one without data of its own for a block that no slot has. -/
theorem Consistent.putData (h : cache.Consistent content disk) {i : CacheSlotsIndex}
    (hst : (cache.jobs idx).state = .submitted)
    (hop : (cache.jobs idx).prim.operation = .write)
    (hi : (cache.slots i).state ∈ [.clean, .dirty] ∧ (cache.slots i).pba = (cache.jobs idx).pba
      ∨ (cache.slots i).state ∈ [.invalid, .clean] ∧ cache.Absent (cache.jobs idx).pba) :
    (cache.putData idx i).Consistent
      (Function.update content (cache.jobs idx).pba (cache.jobsData idx)) disk where
  slots := by
    have hcontent : ∀ pba, Function.update content (cache.jobs idx).pba (cache.jobsData idx) pba
          = content pba
        ∨ pba = (cache.jobs idx).pba ∧ CacheSlotState.dirty.Unwritten := by
      intro pba
      by_cases hpba : pba = (cache.jobs idx).pba
      · exact .inr ⟨hpba, CacheSlotState.unwritten_dirty⟩
      · exact .inl (Function.update_of_ne hpba _ _)
    refine h.slots.update ⟨fun j hj hused _ heq => ?_, fun _ => ?_, hcontent, fun hu => ?_,
      CacheSlotState.noConfusion, CacheSlotState.noConfusion⟩
    · rcases hi with ⟨hstate, hpba⟩ | ⟨-, habsent⟩
      · refine hj (h.slots.unique j i hused ?_ (heq.trans hpba.symm))
        rintro hinvalid
        simp [hinvalid] at hstate
      · exact habsent j hused heq
    · show cache.jobsData idx = Function.update content (cache.jobs idx).pba _ (cache.jobs idx).pba
      rw [Function.update_self]
    · rcases hi with ⟨-, hpba⟩ | ⟨hstate, -⟩
      · exact .inl ⟨CacheSlotState.unwritten_dirty, hpba.symm⟩
      · exact absurd hu (CacheSlotState.not_unwritten (List.mem_pair.mp hstate))
  jobs := by
    refine h.jobs.complete hst (fun a ha hcompleted hread => ⟨rfl, ?_⟩)
      (fun hread => by simp [hop] at hread)
    -- a write has its block for itself
    refine Function.update_of_ne ?_ _ _
    exact (h.jobs.alone idx a ha.symm (by simp [hst]) (by simp [hcompleted]) hop
      (by simp [hread])).symm

/-- **Every call of a job keeps the cache consistent** with the content that its
access leaves. -/
theorem Consistent.executed (h : cache.Consistent content disk)
    (hx : Executed cache idx cache' accesses) :
    cache'.Consistent (contentAfter content accesses) disk := by
  cases hx with
  | waits => exact h
  | makesRoom i hi =>
    refine ⟨h.slots.setState rfl (fun _ => by simp [hi]) (fun _ => ?_) (fun _ => .inl ?_)
      CacheSlotState.noConfusion (fun _ => rfl), h.jobs⟩
    · rw [hi]
      exact .inr CacheSlotState.unwritten_dirty
    · show CacheSlotState.writeGenerated.Unwritten
      decide
  | syncs hst hop =>
    exact ⟨SlotsConsistent.jobExecuteSync h.slots, JobsConsistent.jobExecuteSync h.jobs hst hop⟩
  | reads i hst _ hi hpba =>
    refine ⟨h.slots, h.jobs.complete hst (fun a ha _ _ => ⟨?_, rfl⟩) (fun _ => ?_)⟩
    · show Function.update cache.jobsData idx (cache.slotsData i) a = cache.jobsData a
      exact Function.update_of_ne ha _ _
    · show Function.update cache.jobsData idx (cache.slotsData i) idx = content (cache.jobs idx).pba
      rw [Function.update_self, h.slots.data i hi, hpba]
  | takes i hi habsent =>
    refine ⟨?_, h.jobs⟩
    show SlotsConsistent content disk _ cache.slotsData
    rw [show cache.slotsData = Function.update cache.slotsData i (cache.slotsData i) from
      (Function.update_eq_self i cache.slotsData).symm]
    refine h.slots.update ⟨fun j _ hused _ => habsent j hused, fun hdata => ?_, fun _ => .inl rfl,
      fun hu => ?_, fun _ => rfl, CacheSlotState.noConfusion⟩
    · exact absurd hdata (show ¬ CacheSlotState.readGenerated.HasData by decide)
    · exact absurd hu (CacheSlotState.not_unwritten hi)
  | writes i hst hop hi => exact h.putData hst hop hi

/-- **A slot whose primitive is at the block device is left alone** by every
call of a job, and so is the content of its block. -/
theorem Executed.busy (hx : Executed cache idx cache' accesses)
    (h : cache.Consistent content disk) {i : CacheSlotsIndex} (hi : (cache.slots i).state.Busy) :
    cache'.slots i = cache.slots i
      ∧ contentAfter content accesses (cache.slots i).pba = content (cache.slots i).pba := by
  have hne : ∀ {j}, ¬ (cache.slots j).state.Busy → i ≠ j := by
    rintro j hj rfl
    exact hj hi
  cases hx with
  | waits => exact ⟨rfl, rfl⟩
  | makesRoom j hj =>
    refine ⟨setSlot_slots_of_ne _ (hne ?_), rfl⟩
    rw [hj]
    decide
  | syncs =>
    refine ⟨?_, rfl⟩
    rw [jobExecuteSync_slots, if_neg]
    rintro hdirty
    rw [hdirty] at hi
    exact absurd hi (by decide)
  | reads => exact ⟨rfl, rfl⟩
  | takes j hj habsent =>
    refine ⟨setSlot_slots_of_ne _ (hne ?_), rfl⟩
    rcases hj with hs | hs <;> rw [hs] <;> decide
  | writes j hst hop hj =>
    have hij : i ≠ j := by
      refine hne ?_
      rcases hj with ⟨hs, -⟩ | ⟨hs, -⟩ <;>
        rcases List.mem_pair.mp hs with hs | hs <;> rw [hs] <;> decide
    refine ⟨Function.update_of_ne hij _ _, Function.update_of_ne ?_ _ _⟩
    rcases hj with ⟨hs, hpba⟩ | ⟨-, habsent⟩
    · rintro heq
      refine hij (h.slots.unique i j hi.ne_invalid ?_ (heq.trans hpba.symm))
      rintro hinvalid
      simp [hinvalid] at hs
    · exact habsent i hi.ne_invalid

/-- **Unwritten data stays in its slot** in every call of a job. -/
theorem Executed.unwritten (hx : Executed cache idx cache' accesses) {i : CacheSlotsIndex}
    (hi : (cache.slots i).state.Unwritten) :
    (cache'.slots i).state.Unwritten ∧ (cache'.slots i).pba = (cache.slots i).pba := by
  cases hx with
  | waits => exact ⟨hi, rfl⟩
  | makesRoom j hj =>
    by_cases hij : i = j
    · subst hij
      unfold generateWrite
      rw [setSlot_slots_self]
      exact ⟨by show CacheSlotState.writeGenerated.Unwritten; decide, rfl⟩
    · unfold generateWrite
      rw [setSlot_slots_of_ne _ hij]
      exact ⟨hi, rfl⟩
  | syncs => exact ⟨(jobExecuteSync_unwritten i).mpr hi, jobExecuteSync_pba i⟩
  | reads => exact ⟨hi, rfl⟩
  | takes j hj =>
    have hij : i ≠ j := by
      rintro rfl
      exact CacheSlotState.not_unwritten hj hi
    rw [setSlot_slots_of_ne _ hij]
    exact ⟨hi, rfl⟩
  | writes j hst hop hj =>
    by_cases hij : i = j
    · subst hij
      have hslot : (cache.putData idx i).slots i
          = { cache.slots i with state := .dirty, pba := (cache.jobs idx).pba } :=
        Function.update_self _ _ _
      rw [hslot]
      refine ⟨CacheSlotState.unwritten_dirty, ?_⟩
      rcases hj with ⟨-, hpba⟩ | ⟨hs, -⟩
      · exact hpba.symm
      · exact absurd hi (CacheSlotState.not_unwritten (List.mem_pair.mp hs))
    · have hslot : (cache.putData idx j).slots i = cache.slots i :=
        Function.update_of_ne hij _ _
      rw [hslot]
      exact ⟨hi, rfl⟩

end Executed

end Cache

/-! ## The primitives in flight

Between the moment a slot hands its primitive over and the moment it is
completed, the device may serve it at any time. A job may change other slots
meanwhile, but not this one, so the data of the primitive is still the content.
-/

/-- **A primitive at the block device** belongs to a slot that waits for it, is
for the block of the slot and, for a write, has its data; a served one has read
the content, or has put it on the disk. -/
structure InFlight (content disk : ℕ → β) (slots : CacheSlotsIndex → CacheSlot)
    (e : IoEntry β) : Prop where
  /-- It is for the block of its slot. -/
  block : e.prim.blockNumber = (slots e.prim.index).pba
  /-- A read that was served has brought the content. -/
  read : (slots e.prim.index).state = .readInProgress →
    e.prim.operation = .read
      ∧ (e.served = true → e.data = content (slots e.prim.index).pba)
  /-- A write that was served has put the content on the disk. -/
  write : (slots e.prim.index).state = .writeInProgress →
    e.prim.operation = .write ∧ e.data = content (slots e.prim.index).pba
      ∧ (e.served = true → disk (slots e.prim.index).pba = content (slots e.prim.index).pba)
  /-- The slot waits for it. -/
  busy : (slots e.prim.index).state.Busy

/-- A primitive in flight does not care about other slots. -/
theorem InFlight.congr {content content' disk : ℕ → β} {slots slots' : CacheSlotsIndex → CacheSlot}
    {e : IoEntry β} (h : InFlight content disk slots e)
    (hslot : slots' e.prim.index = slots e.prim.index)
    (hcontent : content' (slots e.prim.index).pba = content (slots e.prim.index).pba) :
    InFlight content' disk slots' e where
  block := by
    rw [hslot]
    exact h.block
  read := by
    rw [hslot, hcontent]
    exact h.read
  write := by
    rw [hslot, hcontent]
    exact h.write
  busy := by
    rw [hslot]
    exact h.busy

/-- A block that the device is reading is on the disk with its content. -/
theorem SlotsConsistent.disk_of_reading {content disk : ℕ → β}
    {slots : CacheSlotsIndex → CacheSlot} {slotsData : CacheSlotsIndex → β}
    (h : SlotsConsistent content disk slots slotsData) {i : CacheSlotsIndex}
    (hi : (slots i).state = .readInProgress) : disk (slots i).pba = content (slots i).pba := by
  refine h.disk _ fun j hj heq => ?_
  obtain rfl := h.unique j i hj.ne_invalid (by simp [hi]) heq
  rw [hi] at hj
  exact absurd hj (by decide)

/-- The device puts the content of a block on the disk. -/
theorem SlotsConsistent.updateDisk {content disk : ℕ → β} {slots : CacheSlotsIndex → CacheSlot}
    {slotsData : CacheSlotsIndex → β} (h : SlotsConsistent content disk slots slotsData) (pba : ℕ) :
    SlotsConsistent content (Function.update disk pba (content pba)) slots slotsData where
  unique := h.unique
  data := h.data
  disk pba' hpba' := by
    by_cases heq : pba' = pba
    · rw [heq, Function.update_self]
    · rw [Function.update_of_ne heq]
      exact h.disk pba' hpba'
  readPrim := h.readPrim
  writePrim := h.writePrim

/-- Serving one primitive leaves the others in flight. -/
theorem InFlight.updateDisk {content disk : ℕ → β} {slots : CacheSlotsIndex → CacheSlot}
    {e : IoEntry β} (h : InFlight content disk slots e) (pba : ℕ) :
    InFlight content (Function.update disk pba (content pba)) slots e where
  block := h.block
  read := h.read
  write hwrite := by
    obtain ⟨hop, hdata, hserved⟩ := h.write hwrite
    refine ⟨hop, hdata, fun hs => ?_⟩
    by_cases heq : (slots e.prim.index).pba = pba
    · rw [heq, Function.update_self]
    · rw [Function.update_of_ne heq]
      exact hserved hs
  busy := h.busy

namespace CacheWorld

variable {disk₀ : ℕ → β} {w w' : CacheWorld β}

/-- **The invariant of the cache on its block device**: the slots and the jobs
agree with the content that the acknowledged accesses have left, every job in
use is the one that was asked for, and each primitive at the device belongs to
a slot of its own. -/
structure Kept (disk₀ : ℕ → β) (w : CacheWorld β) : Prop where
  /-- The slots and the jobs agree with what the acknowledged accesses have left.
  -/
  consistent : w.cache.Consistent (contentAfter disk₀ w.log) w.disk
  /-- A job in use is the one that was asked for. -/
  taken : ∀ idx, (w.cache.jobs idx).state ≠ .invalid →
    (w.requests idx).Taken (w.cache.jobs idx) (w.cache.jobsData idx)
  /-- Each acknowledged read has returned the content at its place in the log. -/
  faithful : Faithful disk₀ w.log
  /-- No slot has two primitives at the device. -/
  nodup : (w.io.map fun e => e.prim.index).Nodup
  /-- Each primitive at the device belongs to its slot. -/
  inFlight : ∀ e ∈ w.io, InFlight (contentAfter disk₀ w.log) w.disk w.cache.slots e

/-- The empty cache agrees with the disk it starts with. -/
theorem kept_initial (zero : β) : Kept disk₀ (initial zero disk₀) where
  consistent := by
    refine ⟨⟨fun i j hi => absurd rfl hi, fun i hi => absurd hi ?_, fun _ _ => rfl,
      fun _ => CacheSlotState.noConfusion, fun _ => CacheSlotState.noConfusion⟩,
      ⟨fun a b _ ha => absurd rfl ha, fun _ => CacheJobState.noConfusion⟩⟩
    show ¬ CacheSlotState.invalid.HasData
    decide
  taken idx h := absurd rfl h
  faithful := Faithful.nil
  nodup := List.nodup_nil
  inFlight e he := absurd he (by simp [initial])

/-- The assertions of a submission exclude a job that writes the block. -/
theorem notWritten_of_assertions {cache : Cache β} {prim : CachePrim}
    (h : cache.SubmitPrimitiveAssertions prim) : cache.PbaNotWrittenByAnyJob prim.blockNumber := by
  obtain ⟨-, -, h⟩ := h
  cases hop : prim.operation with
  | write =>
    rw [hop] at h
    exact fun idx hlive _ => (h idx hlive).2
  | read | sync =>
    rw [hop] at h
    exact h

/-- Those of a write exclude a job that reads it, too. -/
theorem notAffected_of_assertions {cache : Cache β} {prim : CachePrim}
    (h : cache.SubmitPrimitiveAssertions prim) (hop : prim.operation = .write) :
    cache.PbaNotAffectedByAnyJob prim.blockNumber := by
  obtain ⟨-, -, h⟩ := h
  rw [hop] at h
  exact h

/-- The data of a submission goes into the buffer of its own job. -/
theorem buffer_of_ne (prim : CachePrim) (data : β) {jobsData : CacheJobsIndex → β}
    {idx a : CacheJobsIndex} (ha : a ≠ idx) :
    (if prim.operation = .write then Function.update jobsData idx data else jobsData) a
      = jobsData a := by
  split
  · exact Function.update_of_ne ha _ _
  · rfl

/-- A submitted job that passed the assertions disturbs no other. -/
theorem Kept.submit (h : Kept disk₀ w) {prim : CachePrim} {data : β} {cache' : Cache β}
    {idx : CacheJobsIndex} (hsubmit : w.cache.submitPrimitive prim data = some (cache', idx)) :
    Kept disk₀ { w with
      cache := cache'
      requests := Function.update w.requests idx { prim := prim, data := data } } := by
  obtain ⟨hassert, hfind⟩ := Option.ite_none_right_eq_some.mp hsubmit
  obtain ⟨idx, hidx, heq⟩ := Option.map_eq_some_iff.mp hfind
  obtain ⟨rfl, rfl⟩ := Prod.mk.inj heq
  have hfree : (w.cache.jobs idx).state = .invalid := by simpa using List.find?_some hidx
  have hjobs := h.consistent.jobs
  refine ⟨⟨h.consistent.slots, ⟨fun a b hab => ?_, fun a => ?_⟩⟩, fun a => ?_, h.faithful,
    h.nodup, h.inFlight⟩
  · dsimp only
    by_cases ha : a = idx <;> by_cases hb : b = idx
    · exact absurd (ha.trans hb.symm) hab
    · rw [ha, Function.update_self, Function.update_of_ne hb]
      intro _ hlive hop _
      exact ((notAffected_of_assertions hassert hop b hlive).2).symm
    · rw [hb, Function.update_self, Function.update_of_ne ha]
      intro hlive _ hop _
      exact notWritten_of_assertions hassert a hlive hop
    · rw [Function.update_of_ne ha, Function.update_of_ne hb]
      exact hjobs.alone a b hab
  · dsimp only
    by_cases ha : a = idx
    · rw [ha, Function.update_self]
      exact fun hcompleted => absurd hcompleted (by simp)
    · rw [Function.update_of_ne ha, buffer_of_ne prim data ha]
      exact hjobs.returned a
  · dsimp only
    by_cases ha : a = idx
    · subst ha
      rw [Function.update_self, Function.update_self]
      refine fun _ => ⟨rfl, rfl, fun hop => ?_⟩
      rw [if_pos hop, Function.update_self]
    · rw [Function.update_of_ne ha, Function.update_of_ne ha, buffer_of_ne prim data ha]
      exact h.taken a

/-- **A call of a job appends what it completes to the history** of the
acknowledged accesses. -/
theorem Kept.executed_eq (h : Kept disk₀ w) {idx : CacheJobsIndex} {cache' : Cache β}
    {accesses : List (Access ℕ β)} (hx : Cache.Executed w.cache idx cache' accesses) :
    w.executed idx cache' = { w with cache := cache', log := w.log ++ accesses } := by
  unfold CacheWorld.executed
  rw [hx.acknowledged (h.taken idx)]
  split
  · rfl
  · rw [List.append_nil]

/-- **The step lemma of a job.** -/
theorem Kept.jobExecute (h : Kept disk₀ w) {idx : CacheJobsIndex} {cache' : Cache β}
    (hex : w.cache.jobExecute idx = some cache') : Kept disk₀ (w.executed idx cache') := by
  obtain ⟨accesses, hx⟩ := Cache.jobExecute_executed hex
  rw [h.executed_eq hx]
  have hcontent : contentAfter disk₀ (w.log ++ accesses)
      = contentAfter (contentAfter disk₀ w.log) accesses := List.foldl_append
  refine ⟨?_, fun j => hx.taken (h.taken j), ?_, h.nodup, fun e he => ?_⟩
  · show cache'.Consistent (contentAfter disk₀ (w.log ++ accesses)) w.disk
    rw [hcontent]
    exact h.consistent.executed hx
  · show Faithful disk₀ (w.log ++ accesses)
    cases hx with
    | reads i _ _ hi hpba =>
      refine h.faithful.append_read ?_
      rw [h.consistent.slots.data i hi, hpba]
    | writes => exact h.faithful.append_write
    | waits | makesRoom | syncs | takes =>
      rw [List.append_nil]
      exact h.faithful
  · obtain ⟨hslot, hpba⟩ := hx.busy h.consistent (h.inFlight e he).busy
    refine (h.inFlight e he).congr hslot ?_
    rw [hcontent]
    exact hpba

/-- The result of a job is taken. -/
theorem Kept.dropCompleted (h : Kept disk₀ w) {idx : CacheJobsIndex} {cache' : Cache β}
    (hdrop : w.cache.dropCompletedPrimitive idx = some cache') :
    Kept disk₀ { w with cache := cache' } := by
  obtain ⟨hst, hcache⟩ := Option.ite_none_right_eq_some.mp hdrop
  obtain rfl := Option.some.inj hcache
  have hjobs := h.consistent.jobs
  have hlive : ∀ a, (Function.update w.cache.jobs idx
        { w.cache.jobs idx with state := .invalid } a).state ≠ .invalid →
      Function.update w.cache.jobs idx { w.cache.jobs idx with state := .invalid } a
        = w.cache.jobs a := by
    intro a ha
    by_cases hidx : a = idx
    · rw [hidx, Function.update_self] at ha
      exact absurd rfl ha
    · exact Function.update_of_ne hidx _ _
  refine ⟨⟨h.consistent.slots, ⟨fun a b hab ha hb => ?_, fun a hcompleted => ?_⟩⟩, fun a ha => ?_,
    h.faithful, h.nodup, h.inFlight⟩
  · dsimp only at ha hb ⊢
    have hlivea := ha
    have hliveb := hb
    rw [hlive a ha] at hlivea ⊢
    rw [hlive b hb] at hliveb ⊢
    exact hjobs.alone a b hab hlivea hliveb
  · dsimp only at hcompleted ⊢
    have heq := hlive a (by simp [hcompleted])
    rw [heq] at hcompleted ⊢
    exact hjobs.returned a hcompleted
  · dsimp only at ha ⊢
    have heq := hlive a ha
    rw [heq] at ha ⊢
    exact h.taken a ha

/-- The entries of slots other than the one that changes. -/
theorem Kept.inFlight_setSlot (h : Kept disk₀ w) {i : CacheSlotsIndex} (slot : CacheSlot)
    {e : IoEntry β} (he : e ∈ w.io) (hne : e.prim.index ≠ i) :
    InFlight (contentAfter disk₀ w.log) w.disk (Function.update w.cache.slots i slot) e :=
  (h.inFlight e he).congr (Function.update_of_ne hne _ _) rfl

/-- **A primitive is handed to the block device.** Its slot has none there
yet. -/
theorem Kept.dropGenerated (h : Kept disk₀ w) {i : CacheSlotsIndex} {cache' : Cache β}
    (buffer : β) (hdrop : w.cache.dropGeneratedPrimitive i = some cache') :
    Kept disk₀ { w with
      cache := cache'
      io := w.io ++ [{
        prim := (w.cache.slots i).prim
        data := if (w.cache.slots i).prim.operation = .write then w.cache.slotsData i else buffer
        served := false }] } := by
  obtain ⟨st, hst, rfl⟩ := Option.map_eq_some_iff.mp hdrop
  have hslots := h.consistent.slots
  have hcases : (w.cache.slots i).state = .readGenerated ∧ st = .readInProgress
        ∧ (w.cache.slots i).prim = Cache.slotPrim .read (w.cache.slots i).pba i
      ∨ (w.cache.slots i).state = .writeGenerated ∧ st = .writeInProgress
        ∧ (w.cache.slots i).prim = Cache.slotPrim .write (w.cache.slots i).pba i := by
    cases hi : (w.cache.slots i).state <;> rw [hi] at hst <;>
      simp [CacheSlotState.dropGenerated] at hst
    · exact .inl ⟨rfl, hst.symm, hslots.readPrim i hi⟩
    · exact .inr ⟨rfl, hst.symm, hslots.writePrim i hi⟩
  have hidle : ¬ (w.cache.slots i).state.Busy := by
    rcases hcases with ⟨hi, -⟩ | ⟨hi, -⟩ <;> rw [hi] <;> decide
  have hindex : (w.cache.slots i).prim.index = i := by
    rcases hcases with ⟨-, -, hprim⟩ | ⟨-, -, hprim⟩ <;> rw [hprim] <;> rfl
  have hother : ∀ e ∈ w.io, e.prim.index ≠ i := by
    rintro e he rfl
    exact hidle (h.inFlight e he).busy
  refine ⟨⟨?_, h.consistent.jobs⟩, h.taken, h.faithful, ?_, fun e he => ?_⟩
  · refine hslots.setState rfl (fun _ => ?_) (fun hdata => ?_) (fun hunwritten => .inl ?_)
      (fun hread => ?_) (fun hwrite => ?_)
    · rcases hcases with ⟨hi, -⟩ | ⟨hi, -⟩ <;> simp [hi]
    · rcases hcases with ⟨-, rfl, -⟩ | ⟨hi, -, -⟩
      · exact absurd hdata (by show ¬ CacheSlotState.readInProgress.HasData; decide)
      · rw [hi]
        decide
    · rcases hcases with ⟨hi, -, -⟩ | ⟨-, rfl, -⟩
      · rw [hi] at hunwritten
        exact absurd hunwritten (by decide)
      · show CacheSlotState.writeInProgress.Unwritten
        decide
    · rcases hcases with ⟨-, rfl, -⟩ | ⟨-, rfl, -⟩ <;> exact absurd hread (by simp)
    · rcases hcases with ⟨-, rfl, -⟩ | ⟨-, rfl, -⟩ <;> exact absurd hwrite (by simp)
  · show (List.map _ (w.io ++ [_])).Nodup
    rw [List.map_append, List.map_singleton]
    refine h.nodup.append (List.nodup_singleton _) ?_
    rw [List.disjoint_singleton]
    intro hmem
    obtain ⟨e, he, heq⟩ := List.mem_map.mp hmem
    exact hother e he (heq.trans hindex)
  · rcases List.mem_append.mp he with he | he
    · exact h.inFlight_setSlot _ he (hother e he)
    · obtain rfl := List.mem_singleton.mp he
      have hslot : (w.cache.setSlot i { w.cache.slots i with state := st }).slots
            (w.cache.slots i).prim.index = { w.cache.slots i with state := st } := by
        rw [hindex]
        exact Cache.setSlot_slots_self _ _
      refine ⟨?_, ?_, ?_, ?_⟩ <;> dsimp only <;> rw [hslot] <;> dsimp only
      · rcases hcases with ⟨-, -, hprim⟩ | ⟨-, -, hprim⟩ <;> rw [hprim] <;> rfl
      · intro hread
        rcases hcases with ⟨-, -, hprim⟩ | ⟨-, rfl, -⟩
        · rw [hprim]
          exact ⟨rfl, fun hserved => absurd hserved (by simp)⟩
        · exact absurd hread (by simp)
      · intro hwrite
        rcases hcases with ⟨-, rfl, -⟩ | ⟨hi, -, hprim⟩
        · exact absurd hwrite (by simp)
        · refine ⟨by rw [hprim]; rfl, ?_, fun hserved => absurd hserved (by simp)⟩
          rw [if_pos (by rw [hprim]; rfl)]
          exact hslots.data i (by rw [hi]; decide)
      · rcases hcases with ⟨-, rfl, -⟩ | ⟨-, rfl, -⟩ <;> decide

/-- An entry gives way to one with the same primitive. -/
theorem map_index_set {io : List (IoEntry β)} {k : ℕ} {e e' : IoEntry β} (hk : io[k]? = some e)
    (hprim : e'.prim = e.prim) :
    (io.set k e').map (fun e => e.prim.index) = io.map fun e => e.prim.index := by
  obtain ⟨hlt, rfl⟩ := List.getElem?_eq_some_iff.mp hk
  rw [List.map_set, hprim, ← List.getElem_map (fun e : IoEntry β => e.prim.index) (h := by simpa)]
  exact List.set_getElem_self _

/-- **The block device serves a primitive**: it reads the content, or puts it on
the disk. -/
theorem Kept.serve (h : Kept disk₀ w) {k : ℕ} {e : IoEntry β} (hk : w.io[k]? = some e) :
    Kept disk₀ (w.serve k e) := by
  have hflight := h.inFlight e (List.mem_of_getElem? hk)
  have hslots := h.consistent.slots
  unfold CacheWorld.serve
  split
  · next hop =>
    have hreading : (w.cache.slots e.prim.index).state = .readInProgress := by
      refine hflight.busy.resolve_right fun hwriting => ?_
      simp [(hflight.write hwriting).1] at hop
    refine ⟨h.consistent, h.taken, h.faithful, ?_, fun e' he' => ?_⟩
    · show (List.map _ (w.io.set k _)).Nodup
      rw [map_index_set hk]
      · exact h.nodup
      · rfl
    · rcases List.mem_or_eq_of_mem_set he' with he' | rfl
      · exact h.inFlight e' he'
      · refine ⟨hflight.block, fun _ => ⟨hop, fun _ => ?_⟩, fun hwriting => ?_, hflight.busy⟩
        · show w.disk e.prim.blockNumber = _
          rw [hflight.block]
          exact hslots.disk_of_reading hreading
        · exact absurd (hreading.symm.trans hwriting) (by simp)
  · next hop =>
    have hwriting : (w.cache.slots e.prim.index).state = .writeInProgress :=
      hflight.busy.resolve_left fun hreading => hop (hflight.read hreading).1
    obtain ⟨hwrite, hdata, -⟩ := hflight.write hwriting
    have hdisk : Function.update w.disk e.prim.blockNumber e.data
        = Function.update w.disk (w.cache.slots e.prim.index).pba
          (contentAfter disk₀ w.log (w.cache.slots e.prim.index).pba) := by
      rw [hflight.block, hdata]
    refine ⟨⟨?_, h.consistent.jobs⟩, h.taken, h.faithful, ?_, fun e' he' => ?_⟩
    · dsimp only
      rw [hdisk]
      exact hslots.updateDisk _
    · show (List.map _ (w.io.set k _)).Nodup
      rw [map_index_set hk]
      · exact h.nodup
      · rfl
    · dsimp only
      rw [hdisk]
      rcases List.mem_or_eq_of_mem_set he' with he' | rfl
      · exact (h.inFlight e' he').updateDisk _
      · refine ⟨hflight.block, fun hreading => ?_, fun _ => ⟨hwrite, hdata, fun _ => ?_⟩,
          hflight.busy⟩
        · exact absurd (hwriting.symm.trans hreading) (by simp)
        · exact Function.update_self _ _ _

/-- The other entries belong to other slots. -/
theorem Kept.index_ne (h : Kept disk₀ w) {k : ℕ} {e e' : IoEntry β} (hk : w.io[k]? = some e)
    (he' : e' ∈ w.io.eraseIdx k) : e' ∈ w.io ∧ e'.prim.index ≠ e.prim.index := by
  obtain ⟨j, hj, hne, rfl⟩ := List.mem_eraseIdx_iff_getElem.mp he'
  obtain ⟨hlt, rfl⟩ := List.getElem?_eq_some_iff.mp hk
  refine ⟨List.getElem_mem hj, fun heq => hne ?_⟩
  have hinjective := List.nodup_iff_injective_get.mp h.nodup
  have hfin := @hinjective ⟨j, by simpa using hj⟩ ⟨k, by simpa using hlt⟩ (by simpa using heq)
  exact congrArg Fin.val hfin

/-- A completed primitive leaves its slot clean, with the content of its block
from the device or with what it had. -/
theorem complete_slot {content disk : ℕ → β} {cache : Cache β} {e : IoEntry β}
    (h : SlotsConsistent content disk cache.slots cache.slotsData)
    (hflight : InFlight content disk cache.slots e) (hserved : e.served = true) (prim : CachePrim) :
    SlotsConsistent content disk
      (Function.update cache.slots e.prim.index
        { cache.slots e.prim.index with state := .clean, prim := prim })
      (if e.prim.operation = .read then Function.update cache.slotsData e.prim.index e.data
        else cache.slotsData)
    ∧ disk (cache.slots e.prim.index).pba = content (cache.slots e.prim.index).pba := by
  have hdisk : disk (cache.slots e.prim.index).pba = content (cache.slots e.prim.index).pba := by
    rcases hflight.busy with hreading | hwriting
    · exact h.disk_of_reading hreading
    · exact (hflight.write hwriting).2.2 hserved
  have hdata : (if e.prim.operation = .read then
        Function.update cache.slotsData e.prim.index e.data else cache.slotsData)
      = Function.update cache.slotsData e.prim.index
        (content (cache.slots e.prim.index).pba) := by
    rcases hflight.busy with hreading | hwriting
    · obtain ⟨hop, hread⟩ := hflight.read hreading
      rw [if_pos hop, hread hserved]
    · obtain ⟨hop, -, -⟩ := hflight.write hwriting
      rw [if_neg (by simp [hop]), ← h.data e.prim.index (by rw [hwriting]; decide),
        Function.update_eq_self]
  rw [hdata]
  refine ⟨h.update ⟨fun j hj hused _ heq => ?_, fun _ => rfl, fun _ => .inl rfl,
    fun _ => .inr hdisk, CacheSlotState.noConfusion, CacheSlotState.noConfusion⟩, hdisk⟩
  exact hj (h.unique j e.prim.index hused hflight.busy.ne_invalid heq)

/-- **A served primitive is marked complete**: its slot has the content of its
block, and so does the disk. -/
theorem Kept.complete (h : Kept disk₀ w) {k : ℕ} {e : IoEntry β} {success : Bool}
    (hk : w.io[k]? = some e) (hserved : e.served = true)
    (hcomplete : w.complete k e success = some w') :
    Kept disk₀ w' ∧ ∃ prim slotsData, w' = { w with
      cache := { w.cache with
        slots := Function.update w.cache.slots e.prim.index
          { w.cache.slots e.prim.index with state := .clean, prim := prim }
        slotsData := slotsData }
      io := w.io.eraseIdx k } := by
  have hflight := h.inFlight e (List.mem_of_getElem? hk)
  obtain ⟨cache', hmark, rfl⟩ := Option.map_eq_some_iff.mp hcomplete
  obtain ⟨-, hmark⟩ := Option.ite_none_left_eq_some.mp hmark
  obtain ⟨st, hst, rfl⟩ := Option.map_eq_some_iff.mp hmark
  have hslots : (if e.prim.operation = .read then
        { w.cache with slotsData := Function.update w.cache.slotsData e.prim.index e.data }
      else w.cache).slots = w.cache.slots := by
    split <;> rfl
  rw [hslots] at hst ⊢
  obtain rfl : st = .clean := by
    rcases hflight.busy with hbusy | hbusy <;> rw [hbusy] at hst <;>
      exact (Option.some.inj hst).symm
  have hcache : ∀ slot, (if e.prim.operation = .read then
        { w.cache with slotsData := Function.update w.cache.slotsData e.prim.index e.data }
      else w.cache).setSlot e.prim.index slot
      = { w.cache with
          slots := Function.update w.cache.slots e.prim.index slot
          slotsData := if e.prim.operation = .read then
              Function.update w.cache.slotsData e.prim.index e.data
            else w.cache.slotsData } := by
    intro slot
    split <;> rfl
  rw [hcache]
  obtain ⟨hclean, -⟩ := complete_slot h.consistent.slots hflight hserved
    { (w.cache.slots e.prim.index).prim with success := true }
  refine ⟨⟨⟨hclean, h.consistent.jobs⟩, h.taken, h.faithful, ?_, fun e' he' => ?_⟩, _, _, rfl⟩
  · exact h.nodup.sublist ((List.eraseIdx_sublist _ _).map _)
  · obtain ⟨hmem, hne⟩ := h.index_ne hk he'
    exact h.inFlight_setSlot _ hmem hne

/-! ## Every run

An action is a submission, a call of a job, the taking of a result, or a move of
the block device. The store is determined by the log, the log by the jobs that
complete. -/

/-- **Unwritten data stays in its slot until the device has it**: after the
step the slot still has unwritten data of its block, or it is clean and its
data is on the disk. -/
def WrittenBack (w w' : CacheWorld β) : Prop :=
  ∀ i, (w.cache.slots i).state.Unwritten →
    (w'.cache.slots i).pba = (w.cache.slots i).pba
      ∧ ((w'.cache.slots i).state.Unwritten
        ∨ (w'.cache.slots i).state = .clean
          ∧ w'.disk (w.cache.slots i).pba = w.cache.slotsData i)

/-- **A step completes a job by acknowledging it**: the job completes with what
was asked of it, and the log gets the block that was asked for, with the data
that was handed over for a write or that a read finds in its buffer. Nothing
else gets into the log. -/
structure Acknowledges (w w' : CacheWorld β) : Prop where
  /-- A job that completes adds what was asked of it to the log. -/
  completes : ∀ idx, (w.cache.jobs idx).state = .submitted →
    (w'.cache.jobs idx).state = .completed →
    w'.log = w.log ++ (w.requests idx).acknowledged (w'.cache.jobsData idx)
  /-- Without a job that completes the log stays. -/
  waits : (∀ idx, (w.cache.jobs idx).state = .submitted →
    (w'.cache.jobs idx).state ≠ .completed) → w'.log = w.log

/-- **The cache refines the plain store** that the acknowledged accesses
describe, which begins with a disk. A read has returned the data of the latest
acknowledged write of its block, and its result is still that when it is taken;
no two slots in use have one block; and no acknowledged write is lost, since the
data that was handed over for it is in the slot of its block or, when no slot
has unwritten data for the block, on the disk. A job in use is the one that was
asked for. -/
structure RefinesStore (disk₀ : ℕ → β) (w : CacheWorld β) : Prop where
  /-- A read in the log has returned the data of the latest write of its block
  before it. -/
  reads : ∀ pre pba data post, w.log = pre ++ .read pba data :: post → Latest disk₀ pre pba data
  /-- The buffer of a completed read still has the content. -/
  returned : ∀ idx, (w.cache.jobs idx).state = .completed →
    (w.requests idx).prim.operation = .read →
    w.cache.jobsData idx = contentAfter disk₀ w.log (w.requests idx).prim.blockNumber
  /-- A job in use is the one that was asked for. -/
  taken : ∀ idx, (w.cache.jobs idx).state ≠ .invalid →
    (w.requests idx).Taken (w.cache.jobs idx) (w.cache.jobsData idx)
  /-- No block is in two slots. -/
  unique : ∀ i j, (w.cache.slots i).state ≠ .invalid → (w.cache.slots j).state ≠ .invalid →
    (w.cache.slots i).pba = (w.cache.slots j).pba → i = j
  /-- A slot with data has the content of its block. -/
  cached : ∀ i, (w.cache.slots i).state.HasData →
    w.cache.slotsData i = contentAfter disk₀ w.log (w.cache.slots i).pba
  /-- A block without unwritten data in a slot is on the disk with its content. -/
  stored : ∀ pba, (∀ i, (w.cache.slots i).state.Unwritten → (w.cache.slots i).pba ≠ pba) →
    w.disk pba = contentAfter disk₀ w.log pba

/-- What the invariant says of the store. -/
theorem Kept.refinesStore (h : Kept disk₀ w) : RefinesStore disk₀ w where
  reads pre pba data post hlog := by
    rw [h.faithful pre pba data post hlog]
    exact latest_contentAfter
  returned idx hdone hop := by
    have htaken := h.taken idx (by simp [hdone])
    rw [htaken.pba]
    exact h.consistent.jobs.returned idx hdone (htaken.operation.symm.trans hop)
  taken := h.taken
  unique := h.consistent.slots.unique
  cached := h.consistent.slots.data
  stored := h.consistent.slots.disk

/-- **When no slot has unwritten data the disk is the store**: this is what a
completed sync leaves. -/
theorem Kept.disk_eq (h : Kept disk₀ w) (hclean : ∀ i, ¬ (w.cache.slots i).state.Unwritten) :
    w.disk = contentAfter disk₀ w.log :=
  funext fun pba => h.consistent.slots.disk pba fun i hi => absurd hi (hclean i)

/-- A step that leaves the slots with unwritten data alone. -/
theorem writtenBack_of_slots (h : ∀ i, (w.cache.slots i).state.Unwritten →
    w'.cache.slots i = w.cache.slots i) : WrittenBack w w' := by
  intro i hi
  rw [h i hi]
  exact ⟨rfl, .inl hi⟩

/-- **Every action keeps the invariant, and unwritten data in its slot.** -/
theorem Kept.step (h : Kept disk₀ w) {a : CacheAction β} (hstep : w.step a = some w') :
    Kept disk₀ w' ∧ WrittenBack w w' := by
  cases a with
  | submit prim data =>
    obtain ⟨⟨cache', idx⟩, hsubmit, rfl⟩ := Option.map_eq_some_iff.mp hstep
    refine ⟨h.submit hsubmit, writtenBack_of_slots fun i _ => ?_⟩
    obtain ⟨-, hfind⟩ := Option.ite_none_right_eq_some.mp hsubmit
    obtain ⟨idx, -, heq⟩ := Option.map_eq_some_iff.mp hfind
    obtain ⟨rfl, rfl⟩ := Prod.mk.inj heq
    rfl
  | jobExecute idx =>
    obtain ⟨cache', hex, rfl⟩ := Option.map_eq_some_iff.mp hstep
    obtain ⟨accesses, hx⟩ := Cache.jobExecute_executed hex
    refine ⟨h.jobExecute hex, fun i hi => ?_⟩
    obtain ⟨hunwritten, hpba⟩ := hx.unwritten hi
    exact ⟨hpba, .inl hunwritten⟩
  | dropGenerated buffer =>
    obtain ⟨i, -, hstep⟩ := Option.bind_eq_some_iff.mp hstep
    obtain ⟨cache', hdrop, rfl⟩ := Option.map_eq_some_iff.mp hstep
    refine ⟨h.dropGenerated buffer hdrop, fun j hj => ?_⟩
    obtain ⟨st, hst, rfl⟩ := Option.map_eq_some_iff.mp hdrop
    by_cases hji : j = i
    · subst hji
      dsimp only
      rw [Cache.setSlot_slots_self]
      refine ⟨rfl, .inl ?_⟩
      cases hs : (w.cache.slots j).state <;> rw [hs] at hst hj <;>
        simp [CacheSlotState.dropGenerated] at hst
      · exact absurd hj (by decide)
      · rw [← hst]
        exact (show CacheSlotState.writeInProgress.Unwritten by decide)
    · dsimp only
      rw [Cache.setSlot_slots_of_ne _ hji]
      exact ⟨rfl, .inl hj⟩
  | serve k =>
    obtain ⟨e, hk, hstep⟩ := Option.bind_eq_some_iff.mp hstep
    obtain ⟨-, hstep⟩ := Option.ite_none_left_eq_some.mp hstep
    obtain rfl := Option.some.inj hstep
    refine ⟨h.serve hk, writtenBack_of_slots fun i _ => ?_⟩
    unfold CacheWorld.serve
    split <;> rfl
  | complete k success =>
    obtain ⟨e, hk, hstep⟩ := Option.bind_eq_some_iff.mp hstep
    obtain ⟨hserved, hstep⟩ := Option.ite_none_right_eq_some.mp hstep
    obtain ⟨hkept, prim, slotsData, rfl⟩ := h.complete hk hserved hstep
    refine ⟨hkept, fun i hi => ?_⟩
    by_cases hie : i = e.prim.index
    · -- the slot of the primitive: its data has reached the disk
      subst hie
      have hslots := h.consistent.slots
      obtain ⟨-, hdisk⟩ := complete_slot hslots (h.inFlight e (List.mem_of_getElem? hk))
        hserved prim
      have hslot : Function.update w.cache.slots e.prim.index
            { w.cache.slots e.prim.index with state := .clean, prim := prim } e.prim.index
          = { w.cache.slots e.prim.index with state := .clean, prim := prim } :=
        Function.update_self _ _ _
      dsimp only
      rw [hslot, hslots.data e.prim.index (.inr hi)]
      exact ⟨rfl, .inr ⟨rfl, hdisk⟩⟩
    · have hslot : Function.update w.cache.slots e.prim.index
            { w.cache.slots e.prim.index with state := .clean, prim := prim } i
          = w.cache.slots i := Function.update_of_ne hie _ _
      dsimp only
      rw [hslot]
      exact ⟨rfl, .inl hi⟩
  | dropCompleted idx =>
    obtain ⟨cache', hdrop, rfl⟩ := Option.map_eq_some_iff.mp hstep
    refine ⟨h.dropCompleted hdrop, writtenBack_of_slots fun i _ => ?_⟩
    obtain ⟨-, hcache⟩ := Option.ite_none_right_eq_some.mp hdrop
    obtain rfl := Option.some.inj hcache
    rfl

/-- `Execute`: every job executes once, in their order. -/
def execute (w : CacheWorld β) : Option (CacheWorld β) :=
  ((List.finRange nrOfCacheJobs).map CacheAction.jobExecute).foldlM step w

/-- A call of `Execute` is a run. -/
theorem execute_run (h : w.execute = some w') :
    Runs.Run step (fun _ _ => True) w w' := Runs.Run.of_foldlM _ h

/-- **A submitted job stays** until it executes. -/
theorem jobs_of_step {a : CacheAction β} (hstep : w.step a = some w') {idx : CacheJobsIndex}
    (hsub : (w.cache.jobs idx).state = .submitted) (ha : a ≠ .jobExecute idx) :
    w'.cache.jobs idx = w.cache.jobs idx := by
  have hne : ∀ {j : CacheJobsIndex}, (w.cache.jobs j).state ≠ .submitted → idx ≠ j := by
    rintro j hj rfl
    exact hj hsub
  cases a with
  | submit prim data =>
    obtain ⟨⟨cache', j⟩, hsubmit, rfl⟩ := Option.map_eq_some_iff.mp hstep
    obtain ⟨-, hfind⟩ := Option.ite_none_right_eq_some.mp hsubmit
    obtain ⟨j, hj, heq⟩ := Option.map_eq_some_iff.mp hfind
    obtain ⟨rfl, rfl⟩ := Prod.mk.inj heq
    have hfree : (w.cache.jobs j).state = .invalid := by simpa using List.find?_some hj
    exact Function.update_of_ne (hne (by rw [hfree]; decide)) _ _
  | jobExecute j =>
    obtain ⟨cache', hex, rfl⟩ := Option.map_eq_some_iff.mp hstep
    obtain ⟨accesses, hx⟩ := Cache.jobExecute_executed hex
    refine hx.jobs_of_ne ?_
    rintro rfl
    exact ha rfl
  | dropGenerated buffer =>
    obtain ⟨i, -, hstep⟩ := Option.bind_eq_some_iff.mp hstep
    obtain ⟨cache', hdrop, rfl⟩ := Option.map_eq_some_iff.mp hstep
    obtain ⟨st, -, rfl⟩ := Option.map_eq_some_iff.mp hdrop
    rfl
  | serve k =>
    obtain ⟨e, -, hstep⟩ := Option.bind_eq_some_iff.mp hstep
    obtain ⟨-, hstep⟩ := Option.ite_none_left_eq_some.mp hstep
    obtain rfl := Option.some.inj hstep
    unfold CacheWorld.serve
    split <;> rfl
  | complete k success =>
    obtain ⟨e, -, hstep⟩ := Option.bind_eq_some_iff.mp hstep
    obtain ⟨-, hstep⟩ := Option.ite_none_right_eq_some.mp hstep
    obtain ⟨cache', hmark, rfl⟩ := Option.map_eq_some_iff.mp hstep
    obtain ⟨-, hmark⟩ := Option.ite_none_left_eq_some.mp hmark
    obtain ⟨st, -, rfl⟩ := Option.map_eq_some_iff.mp hmark
    show (if _ then _ else w.cache).jobs idx = _
    split <;> rfl
  | dropCompleted j =>
    obtain ⟨cache', hdrop, rfl⟩ := Option.map_eq_some_iff.mp hstep
    obtain ⟨hst, hcache⟩ := Option.ite_none_right_eq_some.mp hdrop
    obtain rfl := Option.some.inj hcache
    exact Function.update_of_ne (hne (by rw [hst]; decide)) _ _

/-- Only a call of a job has an access acknowledged. -/
theorem log_of_step {a : CacheAction β} (hstep : w.step a = some w')
    (ha : ∀ idx, a ≠ .jobExecute idx) : w'.log = w.log := by
  cases a with
  | submit prim data =>
    obtain ⟨_, -, rfl⟩ := Option.map_eq_some_iff.mp hstep
    rfl
  | jobExecute idx => exact absurd rfl (ha idx)
  | dropGenerated buffer =>
    obtain ⟨i, -, hstep⟩ := Option.bind_eq_some_iff.mp hstep
    obtain ⟨_, -, rfl⟩ := Option.map_eq_some_iff.mp hstep
    rfl
  | serve k =>
    obtain ⟨e, -, hstep⟩ := Option.bind_eq_some_iff.mp hstep
    obtain ⟨-, hstep⟩ := Option.ite_none_left_eq_some.mp hstep
    obtain rfl := Option.some.inj hstep
    unfold CacheWorld.serve
    split <;> rfl
  | complete k success =>
    obtain ⟨e, -, hstep⟩ := Option.bind_eq_some_iff.mp hstep
    obtain ⟨-, hstep⟩ := Option.ite_none_right_eq_some.mp hstep
    obtain ⟨_, -, rfl⟩ := Option.map_eq_some_iff.mp hstep
    rfl
  | dropCompleted idx =>
    obtain ⟨_, -, rfl⟩ := Option.map_eq_some_iff.mp hstep
    rfl

/-- **Every action acknowledges the jobs that it completes.** -/
theorem acknowledges_of_step {a : CacheAction β} (hstep : w.step a = some w') :
    Acknowledges w w' := by
  have hstays : ∀ idx, a ≠ .jobExecute idx → (w.cache.jobs idx).state = .submitted →
      (w'.cache.jobs idx).state ≠ .completed := by
    intro idx ha hsub
    rw [jobs_of_step hstep hsub ha, hsub]
    decide
  by_cases ha : ∃ j, a = .jobExecute j
  · obtain ⟨j, rfl⟩ := ha
    obtain ⟨cache', -, rfl⟩ := Option.map_eq_some_iff.mp hstep
    refine ⟨fun idx hsub hdone => ?_, fun hwaits => ?_⟩
    · by_cases hidx : idx = j
      · subst hidx
        exact if_pos ⟨hsub, hdone⟩
      · refine absurd hdone (hstays idx ?_ hsub)
        intro heq
        exact hidx (CacheAction.jobExecute.inj heq).symm
    · exact if_neg fun hdone => hwaits j hdone.1 hdone.2
  · have hne : ∀ idx, a ≠ .jobExecute idx := fun idx heq => ha ⟨idx, heq⟩
    refine ⟨fun idx hsub hdone => absurd hdone (hstays idx (hne idx) hsub), fun _ => ?_⟩
    exact log_of_step hstep hne

/-- **Any interleaving refines the plain store** of the acknowledged accesses.
Every further step acknowledges the jobs that it completes, and keeps unwritten
data in its slot until the device has it. -/
theorem refinesStore_of_run {zero : β}
    (h : Runs.Run step (fun _ _ => True) (initial zero disk₀) w) :
    RefinesStore disk₀ w
      ∧ ∀ a w', w.step a = some w' → Acknowledges w w' ∧ WrittenBack w w' := by
  have hkept : Kept disk₀ w :=
    h.invariant (fun _ _ _ hs _ hstep => (hs.step hstep).1) (kept_initial zero)
  exact ⟨hkept.refinesStore, fun _ _ hstep => ⟨acknowledges_of_step hstep, (hkept.step hstep).2⟩⟩

/-- A submitted primitive. -/
def samplePrimitive (operation : PrimitiveOperation) (pba : ℕ) : CachePrim where
  valid := true
  operation := operation
  success := false
  blockNumber := pba
  index := 0

/-- The block 5 is written and read, and brought to the disk by a sync; the
block 6 is read from the disk. -/
def sampleAccesses : List (CacheAction ℕ) :=
  [.submit (samplePrimitive .write 5) 7, .jobExecute 0, .dropCompleted 0,
    .submit (samplePrimitive .read 5) 0, .submit (samplePrimitive .read 6) 0,
    .jobExecute 0, .jobExecute 1, .dropGenerated 0, .serve 0, .complete 0 true, .jobExecute 1,
    .dropCompleted 0, .submit (samplePrimitive .sync 0) 0, .jobExecute 0, .dropGenerated 0,
    .serve 0, .complete 0 true, .jobExecute 0]

/-- The world after the sample accesses of a disk that has its addresses. -/
theorem refinesStore_of_run_sample :
    let w := Runs.after step (fun _ _ => True) (initial 0 id) sampleAccesses
    RefinesStore id w ∧ ∀ a w', w.step a = some w' → Acknowledges w w' ∧ WrittenBack w w' :=
  refinesStore_of_run (Runs.Run.after (by decide))

end CacheWorld

end Cbe
