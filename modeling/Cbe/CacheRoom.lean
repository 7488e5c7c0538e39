import Cbe.CacheRefinement

/-!
# The cache always finds room

A read or write whose block is in no slot takes a slot that is free or clean, or
lets a dirty one be written back. It raises when there is none of them and no
write-back is in progress. Then every slot is being read, or is clean and kept
because a job has its block. A slot that is being read is so for a job that
still waits for it (`Awaited`), so every slot has a job with its block; but no
two slots have one block, and there are more slots than jobs.

A sync completes when no slot has data that the device does not have. What it
finds on the device is then what all completed writes have left.

The counting is the point of the argument (`Awaited.exists_dirty`): if no slot
could be taken and none were dirty, the slots would map into the jobs without
two of them meeting. So a dirty slot exists in the state at hand, which says
that a call has something to write back; that the call does write it back is a
fact about `Write_Back_One_Dirty_Slot` alone.
-/

namespace Cbe

open StoreHistory

variable {β : Type}

/-- A slot whose data is being read. -/
def CacheSlotState.Reading (s : CacheSlotState) : Prop :=
  s = .readGenerated ∨ s = .readInProgress

instance (s : CacheSlotState) : Decidable s.Reading := inferInstanceAs (Decidable (_ ∨ _))

/-- A slot that is being read is in use. -/
theorem CacheSlotState.Reading.ne_invalid {s : CacheSlotState} (h : s.Reading) :
    s ≠ .invalid := by
  rcases h with rfl | rfl <;> decide

/-- A slot that is read after its primitive was handed over was read before. -/
theorem CacheSlotState.reading_of_dropGenerated {s s' : CacheSlotState}
    (h : s.dropGenerated = some s') (hread : s'.Reading) : s.Reading := by
  revert h hread
  cases s <;> cases s' <;> decide

namespace Cache

variable {cache cache' : Cache β} {idx : CacheJobsIndex} {accesses : List (Access ℕ β)}

/-- **The slots that are being read are awaited**: a read or write that has not
completed has the block. -/
def Awaited (cache : Cache β) : Prop :=
  ∀ i, (cache.slots i).state.Reading →
    ∃ idx, (cache.jobs idx).state = .submitted ∧ (cache.jobs idx).prim.operation ≠ .sync
      ∧ (cache.jobs idx).pba = (cache.slots i).pba

/-! ## Room

The state of the cache at a call that finds no slot to take. -/

/-- When there is no room and nothing to write back, every slot is in use and a
job has its block. -/
theorem Awaited.exists_job (h : cache.Awaited) (hroom : cache.findEvictableSlot = none)
    (hclean : ∀ i, ¬ (cache.slots i).state.Unwritten) (i : CacheSlotsIndex) :
    (cache.slots i).state ≠ .invalid ∧ ∃ idx, (cache.jobs idx).pba = (cache.slots i).pba := by
  have hkept := List.find?_eq_none.mp hroom i (List.mem_finRange i)
  rw [decide_eq_true_eq, not_or] at hkept
  obtain ⟨hused, hkept⟩ := hkept
  refine ⟨hused, ?_⟩
  by_cases hread : (cache.slots i).state.Reading
  · obtain ⟨idx, -, -, hpba⟩ := h i hread
    exact ⟨idx, hpba⟩
  · have hstate : (cache.slots i).state = .clean := by
      have hi := hclean i
      revert hused hread hi
      cases (cache.slots i).state <;> decide
    by_contra hno
    exact hkept ⟨hstate, fun idx _ hpba => hno ⟨idx, hpba⟩⟩

/-- **A dirty slot is found** when no slot can be taken and no write-back is in
progress. -/
theorem Awaited.exists_dirty (h : cache.Awaited)
    (hunique : ∀ i j, (cache.slots i).state ≠ .invalid → (cache.slots j).state ≠ .invalid →
      (cache.slots i).pba = (cache.slots j).pba → i = j)
    (hroom : cache.findEvictableSlot = none)
    (hidle : ¬ ∃ i, (cache.slots i).state = .writeGenerated
      ∨ (cache.slots i).state = .writeInProgress) :
    ∃ i, (cache.slots i).state = .dirty := by
  by_contra hnone
  have hclean : ∀ i, ¬ (cache.slots i).state.Unwritten := by
    rintro i (hi | hi | hi)
    · exact hnone ⟨i, hi⟩
    · exact hidle ⟨i, .inl hi⟩
    · exact hidle ⟨i, .inr hi⟩
  choose hused job hjob using h.exists_job hroom hclean
  have hinj : Function.Injective job := by
    intro i j hij
    refine hunique i j (hused i) (hused j) ?_
    rw [← hjob i, ← hjob j, hij]
  have hcard : nrOfCacheSlots ≤ nrOfCacheJobs := by
    have := Fintype.card_le_of_injective job hinj
    rwa [Fintype.card_fin, Fintype.card_fin] at this
  exact absurd hcard (by decide)

/-- A dirty slot is written back when there is one. -/
theorem writeBackOneDirtySlot_isSome (h : ∃ i, (cache.slots i).state = .dirty) :
    cache.writeBackOneDirtySlot.isSome := by
  obtain ⟨i, hi⟩ := h
  unfold writeBackOneDirtySlot
  rw [Option.isSome_map, List.find?_isSome]
  exact ⟨i, List.mem_finRange i, decide_eq_true hi⟩

/-- Making room does not raise where a dirty slot is found. -/
theorem makeRoom_isSome (h : (¬ ∃ i, (cache.slots i).state = .writeGenerated
      ∨ (cache.slots i).state = .writeInProgress) → ∃ i, (cache.slots i).state = .dirty) :
    cache.makeRoom.isSome := by
  unfold makeRoom
  split
  · rfl
  · next hidle => exact writeBackOneDirtySlot_isSome (h hidle)

/-- **A job raises only for want of a dirty slot.** -/
theorem jobExecute_isSome (h : cache.findEvictableSlot = none → cache.makeRoom.isSome) :
    (cache.jobExecute idx).isSome := by
  unfold jobExecute
  split
  · split
    · rfl
    · unfold jobExecuteRead
      dsimp only
      split
      · split <;> rfl
      · split
        · rfl
        · next hroom => exact h hroom
    · unfold jobExecuteWrite
      split
      · split <;> rfl
      · split
        · rfl
        · next hroom => exact h hroom
  · rfl

/-! ## What a step does to the jobs and to the slots that are read

`Awaited` is kept by every step: a slot begins to be read in a call of a job
that has its block, and this job does not complete before the slot was read. -/

/-- **The step lemma of a read or write**: it takes a slot and then waits for it,
or it completes with another slot than those that are read. -/
theorem Awaited.executed (h : cache.Awaited)
    (hunique : ∀ i j, (cache.slots i).state ≠ .invalid → (cache.slots j).state ≠ .invalid →
      (cache.slots i).pba = (cache.slots j).pba → i = j)
    (hst : (cache.jobs idx).state = .submitted) (hop : (cache.jobs idx).prim.operation ≠ .sync)
    (hx : Executed cache idx cache' accesses) : cache'.Awaited := by
  -- the job that awaits a slot is another one when the slot of this one has data
  have hother : ∀ i j, (cache.slots i).state.HasData → (cache.slots i).pba = (cache.jobs idx).pba →
      (cache.slots j).state.Reading → (cache.slots j).pba ≠ (cache.jobs idx).pba := by
    intro i j hi hpba hj heq
    obtain rfl := hunique i j hi.ne_invalid hj.ne_invalid (hpba.trans heq.symm)
    revert hi hj
    unfold CacheSlotState.HasData
    cases (cache.slots i).state <;> decide
  -- a slot that does not become one that is read
  have hfrom : ∀ (i : CacheSlotsIndex) (slot : CacheSlot) (j : CacheSlotsIndex),
      ¬ slot.state.Reading → (Function.update cache.slots i slot j).state.Reading →
      (cache.slots j).state.Reading ∧ Function.update cache.slots i slot j = cache.slots j := by
    intro i slot j hslot hj
    by_cases hji : j = i
    · rw [hji, Function.update_self] at hj
      exact absurd hj hslot
    · rw [Function.update_of_ne hji] at hj ⊢
      exact ⟨hj, rfl⟩
  have hjobs := fun job (hne : job ≠ idx) => hx.jobs_of_ne hne
  cases hx with
  | waits => exact h
  | syncs _ hsync => exact absurd hsync hop
  | makesRoom i hi =>
    intro j hj
    obtain ⟨hread, heq⟩ := hfrom i _ j
      (show ¬ CacheSlotState.writeGenerated.Reading by decide) hj
    obtain ⟨job, hsub, hnot, hpba⟩ := h j hread
    exact ⟨job, hsub, hnot, hpba.trans (congrArg CacheSlot.pba heq.symm)⟩
  | reads i _ _ hi hpba =>
    intro j hj
    obtain ⟨job, hsub, hnot, hjob⟩ := h j hj
    have hne : job ≠ idx := by
      rintro rfl
      exact hother i j hi hpba hj hjob.symm
    refine ⟨job, ?_⟩
    rw [hjobs job hne]
    exact ⟨hsub, hnot, hjob⟩
  | takes i _ _ =>
    intro j hj
    by_cases hji : j = i
    · rw [hji, setSlot_slots_self]
      exact ⟨idx, hst, hop, rfl⟩
    · rw [setSlot_slots_of_ne _ hji] at hj ⊢
      exact h j hj
  | writes i _ _ hi =>
    intro j hj
    obtain ⟨hread, heq⟩ := hfrom i _ j (show ¬ CacheSlotState.dirty.Reading by decide) hj
    obtain ⟨job, hsub, hnot, hjob⟩ := h j hread
    have hne : job ≠ idx := by
      rintro rfl
      rcases hi with ⟨hstate, hpba⟩ | ⟨-, habsent⟩
      · refine hother i j ?_ hpba hread hjob.symm
        revert hstate
        unfold CacheSlotState.HasData
        cases (cache.slots i).state <;> decide
      · exact habsent j hread.ne_invalid hjob.symm
    refine ⟨job, ?_⟩
    rw [hjobs job hne]
    exact ⟨hsub, hnot, hjob.trans (congrArg CacheSlot.pba heq.symm)⟩

/-- A sync takes no slot. -/
theorem Awaited.jobExecuteSync (h : cache.Awaited)
    (hop : (cache.jobs idx).prim.operation = .sync) : (cache.jobExecuteSync idx).Awaited := by
  intro i hi
  have hread : (cache.slots i).state.Reading := by
    rw [jobExecuteSync_state] at hi
    split at hi
    · exact absurd hi (by decide)
    · exact hi
  obtain ⟨job, hsub, hnot, hpba⟩ := h i hread
  have hne : job ≠ idx := by
    rintro rfl
    exact hnot hop
  refine ⟨job, ?_⟩
  rw [jobExecuteSync_jobs_of_ne hne, jobExecuteSync_pba]
  exact ⟨hsub, hnot, hpba⟩

/-- A sync that completes has found nothing to write back. -/
theorem not_unwritten_of_jobExecuteSync (hsub : (cache.jobs idx).state = .submitted)
    (hdone : ((cache.jobExecuteSync idx).jobs idx).state = .completed) (i : CacheSlotsIndex) :
    ¬ (cache.slots i).state.Unwritten := by
  intro hi
  have hdirty : ∃ i, (cache.slots i).state.Unwritten := ⟨i, hi⟩
  unfold Cache.jobExecuteSync at hdone
  dsimp only at hdone
  rw [if_pos hdirty, hsub] at hdone
  exact absurd hdone (by decide)

/-- The step lemma of a job. -/
theorem Awaited.jobExecute (h : cache.Awaited)
    (hunique : ∀ i j, (cache.slots i).state ≠ .invalid → (cache.slots j).state ≠ .invalid →
      (cache.slots i).pba = (cache.slots j).pba → i = j)
    (hex : cache.jobExecute idx = some cache') : cache'.Awaited := by
  obtain ⟨accesses, hx⟩ := jobExecute_executed hex
  by_cases hst : (cache.jobs idx).state = .submitted
  · by_cases hop : (cache.jobs idx).prim.operation = .sync
    · unfold Cache.jobExecute at hex
      rw [hst] at hex
      dsimp only at hex
      rw [hop] at hex
      obtain rfl := Option.some.inj hex
      exact h.jobExecuteSync hop
    · exact h.executed hunique hst hop hx
  · unfold Cache.jobExecute at hex
    split at hex
    · next hsub => exact absurd hsub hst
    · obtain rfl := Option.some.inj hex
      exact h

/-- Other slots and jobs serve as well. -/
theorem Awaited.congr (h : cache.Awaited)
    (hslots : ∀ i, (cache'.slots i).state.Reading →
      (cache.slots i).state.Reading ∧ (cache'.slots i).pba = (cache.slots i).pba)
    (hjobs : ∀ idx, (cache.jobs idx).state = .submitted → cache'.jobs idx = cache.jobs idx) :
    cache'.Awaited := by
  intro i hi
  obtain ⟨hread, hpba⟩ := hslots i hi
  obtain ⟨idx, hsub, hnot, hjob⟩ := h i hread
  refine ⟨idx, ?_⟩
  rw [hjobs idx hsub, hpba]
  exact ⟨hsub, hnot, hjob⟩

end Cache

namespace CacheWorld

variable {disk₀ : ℕ → β} {w w' : CacheWorld β} {a : CacheAction β}

/-- **The step lemma of the slots that are read.** -/
theorem awaited_of_step (hkept : Kept disk₀ w) (h : w.cache.Awaited)
    (hstep : w.step a = some w') : w'.cache.Awaited := by
  have hjobs : (∀ idx, a ≠ .jobExecute idx) → ∀ idx, (w.cache.jobs idx).state = .submitted →
      w'.cache.jobs idx = w.cache.jobs idx :=
    fun ha idx hsub => jobs_of_step hstep hsub (ha idx)
  cases a with
  | submit prim data =>
    obtain ⟨⟨cache', j⟩, hsubmit, rfl⟩ := Option.map_eq_some_iff.mp hstep
    obtain ⟨-, hfind⟩ := Option.ite_none_right_eq_some.mp hsubmit
    obtain ⟨j, -, heq⟩ := Option.map_eq_some_iff.mp hfind
    obtain ⟨rfl, rfl⟩ := Prod.mk.inj heq
    exact h.congr (fun i hi => ⟨hi, rfl⟩) (hjobs fun _ => by simp)
  | jobExecute idx =>
    obtain ⟨cache', hex, rfl⟩ := Option.map_eq_some_iff.mp hstep
    exact h.jobExecute hkept.consistent.slots.unique hex
  | dropGenerated buffer =>
    obtain ⟨i, -, hmap⟩ := Option.bind_eq_some_iff.mp hstep
    obtain ⟨cache', hdrop, rfl⟩ := Option.map_eq_some_iff.mp hmap
    obtain ⟨st, hst, rfl⟩ := Option.map_eq_some_iff.mp hdrop
    refine h.congr (fun j hj => ?_) (hjobs fun _ => by simp)
    by_cases hji : j = i
    · subst hji
      dsimp only at hj ⊢
      rw [Cache.setSlot_slots_self] at hj ⊢
      exact ⟨CacheSlotState.reading_of_dropGenerated hst hj, rfl⟩
    · dsimp only at hj ⊢
      rw [Cache.setSlot_slots_of_ne _ hji] at hj ⊢
      exact ⟨hj, rfl⟩
  | serve k =>
    obtain ⟨e, -, hserve⟩ := Option.bind_eq_some_iff.mp hstep
    obtain ⟨-, hserve⟩ := Option.ite_none_left_eq_some.mp hserve
    obtain rfl := Option.some.inj hserve
    have hcache : (w.serve k e).cache = w.cache := by
      unfold CacheWorld.serve
      split <;> rfl
    rw [hcache]
    exact h
  | complete k success =>
    obtain ⟨e, hk, hcomplete⟩ := Option.bind_eq_some_iff.mp hstep
    obtain ⟨hserved, hcomplete⟩ := Option.ite_none_right_eq_some.mp hcomplete
    obtain ⟨-, prim, slotsData, rfl⟩ := hkept.complete hk hserved hcomplete
    refine h.congr (fun j hj => ?_) (hjobs fun _ => by simp)
    dsimp only at hj ⊢
    by_cases hje : j = e.prim.index
    · rw [hje, Function.update_self] at hj
      exact absurd hj (show ¬ CacheSlotState.clean.Reading by decide)
    · rw [Function.update_of_ne hje] at hj ⊢
      exact ⟨hj, rfl⟩
  | dropCompleted j =>
    obtain ⟨cache', hdrop, rfl⟩ := Option.map_eq_some_iff.mp hstep
    obtain ⟨-, hcache⟩ := Option.ite_none_right_eq_some.mp hdrop
    obtain rfl := Option.some.inj hcache
    exact h.congr (fun i hi => ⟨hi, rfl⟩) (hjobs fun _ => by simp)

/-- **The cache serves its jobs**: where a read or write can take no slot and no
write-back is in progress there is a dirty slot to write back, so that no call
of a job raises; and a step that completes a sync leaves no slot that is dirty
or being written back, and on the device what all the writes have left that
have been acknowledged until then. A write is acknowledged by the step that
completes it. -/
structure Serves (disk₀ : ℕ → β) (w : CacheWorld β) : Prop where
  /-- Where no slot can be taken and none is being written back, one is dirty. -/
  findsDirty : w.cache.findEvictableSlot = none →
    (¬ ∃ i, (w.cache.slots i).state = .writeGenerated
      ∨ (w.cache.slots i).state = .writeInProgress) →
    ∃ i, (w.cache.slots i).state = .dirty
  /-- No call of a job raises. -/
  executes : ∀ idx, (w.cache.jobExecute idx).isSome
  /-- A sync that completes has left nothing unwritten. -/
  syncs : ∀ a w' idx, w.step a = some w' → (w.cache.jobs idx).state = .submitted →
    (w.cache.jobs idx).prim.operation = .sync → (w'.cache.jobs idx).state = .completed →
    (∀ i, (w'.cache.slots i).state ≠ .dirty ∧ (w'.cache.slots i).state ≠ .writeGenerated
      ∧ (w'.cache.slots i).state ≠ .writeInProgress)
    ∧ w'.disk = contentAfter disk₀ w.log
  /-- A job that completes adds what was asked of it to the log. -/
  acknowledges : ∀ a w', w.step a = some w' → Acknowledges w w'

/-- A step that completes a sync is the call of its job. -/
theorem completes_of_step (hstep : w.step a = some w') {idx : CacheJobsIndex}
    (hsub : (w.cache.jobs idx).state = .submitted)
    (hop : (w.cache.jobs idx).prim.operation = .sync)
    (hdone : (w'.cache.jobs idx).state = .completed) :
    w' = w.executed idx (w.cache.jobExecuteSync idx) := by
  by_cases ha : a = .jobExecute idx
  · rw [ha] at hstep
    obtain ⟨cache', hex, rfl⟩ := Option.map_eq_some_iff.mp hstep
    unfold Cache.jobExecute at hex
    rw [hsub] at hex
    dsimp only at hex
    rw [hop] at hex
    obtain rfl := Option.some.inj hex
    rfl
  · rw [jobs_of_step hstep hsub ha, hsub] at hdone
    exact absurd hdone (by decide)

/-- What the invariant says of the jobs. -/
theorem Kept.serves (h : Kept disk₀ w) (hawaited : w.cache.Awaited) : Serves disk₀ w where
  findsDirty hroom hidle := hawaited.exists_dirty h.consistent.slots.unique hroom hidle
  executes _ := Cache.jobExecute_isSome fun hroom =>
    Cache.makeRoom_isSome (hawaited.exists_dirty h.consistent.slots.unique hroom)
  syncs a w' idx hstep hsub hop hdone := by
    obtain rfl := completes_of_step hstep hsub hop hdone
    have hclean := Cache.not_unwritten_of_jobExecuteSync hsub hdone
    refine ⟨fun i => ?_, h.disk_eq hclean⟩
    have hi : ¬ ((w.cache.jobExecuteSync idx).slots i).state.Unwritten := by
      rw [Cache.jobExecuteSync_unwritten]
      exact hclean i
    refine ⟨fun hs => hi ?_, fun hs => hi ?_, fun hs => hi ?_⟩
    all_goals
      rw [show ((w.cache.jobExecuteSync idx).slots i).state = _ from hs]
      decide
  acknowledges _ _ hstep := acknowledges_of_step hstep

/-- No slot is read at the start. -/
theorem awaited_initial (zero : β) : (Cache.initialObject zero).Awaited :=
  fun _ hi => absurd rfl hi.ne_invalid

/-- **In every run the cache serves its jobs**, whatever their interleaving. -/
theorem serves_of_run {zero : β} (h : Runs.Run step (fun _ _ => True) (initial zero disk₀) w) :
    Serves disk₀ w := by
  have hinv : Kept disk₀ w ∧ w.cache.Awaited :=
    h.invariant (I := fun w => Kept disk₀ w ∧ w.cache.Awaited)
      (fun _ _ _ hs _ hstep => ⟨(hs.1.step hstep).1, awaited_of_step hs.1 hs.2 hstep⟩)
      ⟨kept_initial zero, awaited_initial zero⟩
  exact hinv.1.serves hinv.2

/-- The cache after the sample accesses. -/
theorem serves_of_run_sample :
    Serves id (Runs.after step (fun _ _ => True) (initial 0 id) sampleAccesses) :=
  serves_of_run (Runs.Run.after (by decide))

end CacheWorld

end Cbe
