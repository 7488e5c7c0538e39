import Cbe.Device

/-!
# A securing job that may be interrupted

`Device.secure` is the securing chain run to its end. A chain takes time,
though: the block of the superblock is handed to the block device and
acknowledged, the block device is synced, the slot index and the generation
move on, the hash goes to the trust anchor and is accepted, and only then the
job completes. The machine may be switched off after any of these, and while
the block is being written its slot may hold anything. `Ring` is the device
together with the securing job at work and how far that one has come, and a
`RingEvent` is one of these moves, or a restart, which is possible in every
state.

The two coarser models are this one seen from further away. An action of the
device is a stretch of events (`Ring.run_of_step`), and every step of any party
of a securing job in its chain is one event or none (`Chain.ring_step`).
-/

namespace Cbe

variable {P : Platform}

/-- **How far a securing job has come** in its chain: the superblock is
prepared; its block is being written; the block is written; the block device is
synced, and the slot index and the generation have moved on; the trust anchor
has accepted the hash. -/
inductive SecuringStage
  | prepared
  | writing
  | written
  | synced
  | secured
  deriving DecidableEq

/-- A securing job in its chain, with the control that it has prepared. -/
structure SecuringJob where
  /-- How far it has come. -/
  stage : SecuringStage
  /-- Whether the previous key is left out. -/
  skipPrevKey : Bool
  /-- The control that it has prepared. -/
  ctl : Control

/-- The block that the job writes. -/
def SecuringJob.ciphertext (P : Platform) (job : SecuringJob) : SuperblockCiphertext :=
  cipherSuperblock P job.skipPrevKey job.ctl.sb

/-- **The device and the securing job at work.** Two things are recorded that no
code reads: the block of the superblock whose hash the trust anchor accepted
last, and whether the library was started again after it had accepted one. -/
structure Ring (P : Platform) where
  /-- The device. -/
  dev : Device P
  /-- The securing job at work, if there is one. -/
  job : Option SecuringJob
  /-- The block whose hash the trust anchor has accepted last. -/
  trusted : Option SuperblockCiphertext
  /-- Whether the library was started again since. -/
  resumed : Bool

/-- The events of the device: a write of a block, what a securing job goes
through, and a restart. In `tear` the slot that is being written takes some
content; a write that is cut off leaves it there. -/
inductive RingEvent (P : Platform) where
  | write (vba : ℕ) (data : P.Block) (mt : MetaTree)
  | prepare (a : Action P)
  | writeSb
  | tear (ct : SuperblockCiphertext)
  | sbWritten
  | blkIoSynced
  | sbSecured
  | complete
  | restart (store : Store P) (free : FtNode)

namespace Ring

/-- A device between two requests, on which nothing was secured yet. -/
def start (d : Device P) : Ring P where
  dev := d
  job := none
  trusted := none
  resumed := false

/-- The job at work, if it is at the stage. -/
def jobAt (r : Ring P) (stage : SecuringStage) : Option SecuringJob :=
  r.job.filter fun job => job.stage = stage

/-- The job goes on to a stage. -/
def goOn (r : Ring P) (job : SecuringJob) (stage : SecuringStage) : Ring P :=
  { r with job := some { job with stage := stage } }

/-- A slot takes some content. -/
def putSlot (r : Ring P) (i : SuperblocksIndex) (ct : SuperblockCiphertext) : Ring P :=
  { r with dev := { r.dev with slots := Function.update r.dev.slots i ct } }

/-- **One event.** It is `none` where the event does not fit the job at work and
where the library raises or waits for ever. A restart loses the memory, the job
included, but neither the slots nor what the trust anchor knows. -/
def step (r : Ring P) : RingEvent P → Option (Ring P)
  | .write vba data mt =>
    if r.job.isSome = true then none
    else (r.dev.write vba data mt).map fun d => { r with dev := d }
  | .prepare a =>
    if r.job.isSome = true then none
    else
      (r.dev.prepare a).map fun p =>
        { r with
          dev := { p.dev with ctl := p.ctl }
          job := some { stage := .prepared, skipPrevKey := p.skipPrevKey, ctl := p.ctl } }
  | .writeSb => (r.jobAt .prepared).map fun job => r.goOn job .writing
  | .tear ct => (r.jobAt .writing).map fun job => r.putSlot job.ctl.sbIdx ct
  | .sbWritten => (r.jobAt .writing).map fun job =>
      (r.putSlot job.ctl.sbIdx (job.ciphertext P)).goOn job .written
  | .blkIoSynced => (r.jobAt .written).map fun job =>
      { r with dev := { r.dev with ctl := job.ctl.next } }.goOn job .synced
  | .sbSecured => (r.jobAt .synced).map fun job =>
      { r with
        dev := { r.dev with securedSlot := some job.ctl.sbIdx }
        trusted := some (job.ciphertext P) }.goOn job .secured
  | .complete => (r.jobAt .secured).map fun job =>
      { r with
        dev := { r.dev with ctl := job.ctl.secured }
        job := none }
  | .restart store free => (r.dev.restart store free).map fun d =>
      { r with dev := d, job := none, resumed := d.securedSlot.isSome }

/-- **A run of events** that all meet a condition in the state before them. -/
abbrev Run (C : Ring P → RingEvent P → Prop) : Ring P → Ring P → Prop :=
  Runs.Run step C

/-- A job that has come to a stage. -/
theorem jobAt_eq_some_iff {r : Ring P} {stage : SecuringStage} {job : SecuringJob} :
    r.jobAt stage = some job ↔ r.job = some job ∧ job.stage = stage := by
  unfold jobAt
  rw [Option.filter_eq_some_iff, decide_eq_true_eq]

/-- **What an event does**, one case for each of them. -/
inductive Moves (r : Ring P) : RingEvent P → Ring P → Prop
  | write {vba : ℕ} {data : P.Block} {mt : MetaTree} {d : Device P} (hidle : r.job = none)
      (h : r.dev.write vba data mt = some d) : Moves r (.write vba data mt) { r with dev := d }
  | prepare {a : Action P} {p : Preparation P} (hidle : r.job = none)
      (h : r.dev.prepare a = some p) :
      Moves r (.prepare a) { r with
        dev := { p.dev with ctl := p.ctl }
        job := some { stage := .prepared, skipPrevKey := p.skipPrevKey, ctl := p.ctl } }
  | writeSb {job : SecuringJob} (hjob : r.job = some job) (hst : job.stage = .prepared) :
      Moves r .writeSb (r.goOn job .writing)
  | tear {job : SecuringJob} (ct : SuperblockCiphertext) (hjob : r.job = some job)
      (hst : job.stage = .writing) : Moves r (.tear ct) (r.putSlot job.ctl.sbIdx ct)
  | sbWritten {job : SecuringJob} (hjob : r.job = some job) (hst : job.stage = .writing) :
      Moves r .sbWritten ((r.putSlot job.ctl.sbIdx (job.ciphertext P)).goOn job .written)
  | blkIoSynced {job : SecuringJob} (hjob : r.job = some job) (hst : job.stage = .written) :
      Moves r .blkIoSynced
        ({ r with dev := { r.dev with ctl := job.ctl.next } }.goOn job .synced)
  | sbSecured {job : SecuringJob} (hjob : r.job = some job) (hst : job.stage = .synced) :
      Moves r .sbSecured
        ({ r with
          dev := { r.dev with securedSlot := some job.ctl.sbIdx }
          trusted := some (job.ciphertext P) }.goOn job .secured)
  | complete {job : SecuringJob} (hjob : r.job = some job) (hst : job.stage = .secured) :
      Moves r .complete
        { r with
          dev := { r.dev with ctl := job.ctl.secured }
          job := none }
  | restart {store : Store P} {free : FtNode} {d : Device P}
      (h : r.dev.restart store free = some d) :
      Moves r (.restart store free)
        { r with dev := d, job := none, resumed := d.securedSlot.isSome }

/-- **Every event is one of these cases.** -/
theorem moves_of_step {r r' : Ring P} {e : RingEvent P} (h : r.step e = some r') :
    r.Moves e r' := by
  cases e with
  | write vba data mt =>
    unfold step at h
    dsimp only at h
    split_ifs at h with hidle
    obtain ⟨d, hd, rfl⟩ := Option.map_eq_some_iff.mp h
    exact .write (Option.not_isSome_iff_eq_none.mp hidle) hd
  | prepare a =>
    unfold step at h
    dsimp only at h
    split_ifs at h with hidle
    obtain ⟨p, hp, rfl⟩ := Option.map_eq_some_iff.mp h
    exact .prepare (Option.not_isSome_iff_eq_none.mp hidle) hp
  | restart store free =>
    obtain ⟨d, hd, rfl⟩ := Option.map_eq_some_iff.mp h
    exact .restart hd
  | writeSb =>
    obtain ⟨job, hjob, rfl⟩ := Option.map_eq_some_iff.mp h
    obtain ⟨hjob, hst⟩ := jobAt_eq_some_iff.mp hjob
    exact .writeSb hjob hst
  | tear ct =>
    obtain ⟨job, hjob, rfl⟩ := Option.map_eq_some_iff.mp h
    obtain ⟨hjob, hst⟩ := jobAt_eq_some_iff.mp hjob
    exact .tear ct hjob hst
  | sbWritten =>
    obtain ⟨job, hjob, rfl⟩ := Option.map_eq_some_iff.mp h
    obtain ⟨hjob, hst⟩ := jobAt_eq_some_iff.mp hjob
    exact .sbWritten hjob hst
  | blkIoSynced =>
    obtain ⟨job, hjob, rfl⟩ := Option.map_eq_some_iff.mp h
    obtain ⟨hjob, hst⟩ := jobAt_eq_some_iff.mp hjob
    exact .blkIoSynced hjob hst
  | sbSecured =>
    obtain ⟨job, hjob, rfl⟩ := Option.map_eq_some_iff.mp h
    obtain ⟨hjob, hst⟩ := jobAt_eq_some_iff.mp hjob
    exact .sbSecured hjob hst
  | complete =>
    obtain ⟨job, hjob, rfl⟩ := Option.map_eq_some_iff.mp h
    obtain ⟨hjob, hst⟩ := jobAt_eq_some_iff.mp hjob
    exact .complete hjob hst

/-! ## An action is a stretch of events

The events of the job one after the other, without a restart. -/

/-- **A prepared job that nothing interrupts** leaves the device that the action
leaves, and the trust anchor with its block. -/
theorem run_of_prepare {r : Ring P} {a : Action P} {p : Preparation P} (hidle : r.job = none)
    (hp : r.dev.prepare a = some p) :
    Run (fun _ _ => True) r
      { r with
        dev := p.secured
        trusted := some (cipherSuperblock P p.skipPrevKey p.ctl.sb) } := by
  let job : SecuringJob := { stage := .prepared, skipPrevKey := p.skipPrevKey, ctl := p.ctl }
  have hprepare : r.step (.prepare a)
      = some { r with dev := { p.dev with ctl := p.ctl }, job := some job } := by
    refine (if_neg (Option.not_isSome_iff_eq_none.mpr hidle)).trans ?_
    rw [hp]
    rfl
  refine .tail .complete (.tail .sbSecured (.tail .blkIoSynced (.tail .sbWritten
    (.tail .writeSb (.single (.prepare a) trivial hprepare) trivial rfl) trivial rfl)
    trivial rfl) trivial rfl) trivial ?_
  obtain ⟨dev, job, trusted, resumed⟩ := r
  obtain rfl : job = none := hidle
  rfl

/-- **Every action of the device is a stretch of events** that begins and ends
without a job at work. -/
theorem run_of_step {r : Ring P} {a : Action P} {d' : Device P} (hidle : r.job = none)
    (h : r.dev.step a = some d') :
    ∃ r', Run (fun _ _ => True) r r' ∧ r'.dev = d' ∧ r'.job = none := by
  -- a securing action runs its prepared job to the end
  have hsecures : ∀ p, r.dev.prepare a = some p → p.secured = d' →
      ∃ r', Run (fun _ _ => True) r r' ∧ r'.dev = d' ∧ r'.job = none := by
    intro p hp hd
    exact ⟨_, run_of_prepare hidle hp, hd, hidle⟩
  cases a with
  | write vba data mt =>
    refine ⟨{ r with dev := d' }, .single (.write vba data mt) trivial ?_, rfl, hidle⟩
    refine (if_neg (Option.not_isSome_iff_eq_none.mpr hidle)).trans ?_
    exact Option.map_eq_some_iff.mpr ⟨d', h, rfl⟩
  | restart store free =>
    refine ⟨{ r with dev := d', job := none, resumed := d'.securedSlot.isSome },
      .single (.restart store free) trivial ?_, rfl, rfl⟩
    exact Option.map_eq_some_iff.mpr ⟨d', h, rfl⟩
  | sync | createSnapshot => exact hsecures _ rfl (Option.some.inj h)
  | discardSnapshot gen =>
    unfold Device.step at h
    dsimp only at h
    split at h
    · next c hc =>
      exact hsecures _ (Option.map_eq_some_iff.mpr ⟨c, hc, rfl⟩) (Option.some.inj h)
    · exact ⟨r, .refl r, Option.some.inj h, hidle⟩
  | initializeRekeying | rekeyVba | vbdExtensionStep | ftExtensionStep =>
    obtain ⟨p, hp, hd⟩ := Option.map_eq_some_iff.mp h
    exact hsecures p hp hd

end Ring

/-! ## A step of a securing job is an event

For the other model, the one of the parties, the same. -/

/-- The stage of a job in its chain. -/
def JobState.stage : JobState → SecuringStage
  | .inProgress .writeSb | .primCompleted .writeSb false => .writing
  | .primCompleted .writeSb true | .pending .syncBlkIo | .inProgress .syncBlkIo
  | .primCompleted .syncBlkIo _ => .written
  | .pending .secureSb | .inProgress .secureSb | .primCompleted .secureSb false => .synced
  | .primCompleted .secureSb true | .completed => .secured
  | _ => .prepared

/-- **The device shows a securing job among its parties**: they agree on the
control in memory and on how far the job has come. -/
structure Ring.Shows {n : ℕ} (r : Ring P) (skipPrevKey : Bool) (c : Control) (w : World P n) :
    Prop where
  /-- They agree on the control. -/
  ctl : r.dev.ctl = w.ctl
  /-- They agree on the stage of the job. -/
  job : r.job = if w.job.state = .completed then none
    else some { stage := w.job.state.stage, skipPrevKey := skipPrevKey, ctl := c }

namespace Ring.Shows

variable {n : ℕ} {r : Ring P} {skipPrevKey : Bool} {c : Control} {w w' : World P n}

/-- A step that moves neither the control nor the stage is not an event. -/
theorem stutter (h : r.Shows skipPrevKey c w) (hctl : w'.ctl = w.ctl)
    (hdone : w'.job.state = .completed ↔ w.job.state = .completed)
    (hstage : w'.job.state.stage = w.job.state.stage) : r.Shows skipPrevKey c w' where
  ctl := h.ctl.trans hctl.symm
  job := by rw [h.job, hstage, if_congr hdone rfl rfl]

/-- The job at work. -/
theorem jobAt (h : r.Shows skipPrevKey c w) (hdone : w.job.state ≠ .completed) :
    r.jobAt w.job.state.stage
      = some { stage := w.job.state.stage, skipPrevKey := skipPrevKey, ctl := c } :=
  Ring.jobAt_eq_some_iff.mpr ⟨h.job.trans (if_neg hdone), rfl⟩

end Ring.Shows

/-- **The executing job** moves the device on after the sync of the block device
and at its end; in between it only decides what comes next. -/
theorem Chain.ring_execute {n : ℕ} {skipPrevKey : Bool} {early : List (Event P)}
    {c c' : Control} {job' : Job} {w : World P n} {r : Ring P}
    (h : Chain P skipPrevKey early c w) (hexec : Cbe.execute P w.ctl w.job = some (c', job'))
    (hr : r.Shows skipPrevKey c w) :
    r.Shows skipPrevKey c (w.executed c' job')
      ∨ ∃ e r', r.step e = some r' ∧ r'.Shows skipPrevKey c (w.executed c' job') := by
  have hctl' : c' = controlAt c job'.state := (h.execute hexec).ctl
  have hchain := h.inChain
  have hctl := h.ctl
  rw [execute_eq_executeSecuringChain h.inChain h.skip] at hexec
  unfold executeSecuringChain at hexec
  -- a state that waits for another party is left as it is
  have hwait : some (w.ctl, w.job) = some (c', job') →
      r.Shows skipPrevKey c (w.executed c' job') := by
    intro heq
    obtain ⟨rfl, rfl⟩ := Prod.mk.inj (Option.some.inj heq)
    exact hr.stutter rfl Iff.rfl rfl
  cases hst : w.job.state with
  | submitted => simp [hst, JobState.InChain, JobState.IsAt] at hchain
  | completed | pending | inProgress =>
    rw [hst] at hexec
    exact .inl (hwait hexec)
  | primCompleted prim ok =>
    rw [hst] at hexec hchain hctl
    have hjob := hr.jobAt (by rw [hst]; exact JobState.noConfusion)
    rw [hst] at hjob
    cases ok with
    | false =>
      cases prim <;> simp [JobState.InChain, JobState.IsAt] at hexec hchain
    | true =>
      cases prim with
      | syncBlkIo =>
        simp only [Bool.true_eq_false, if_false, Option.some.injEq, Prod.mk.injEq] at hexec
        obtain ⟨-, rfl⟩ := hexec
        refine .inr ⟨.blkIoSynced, _, congrArg (Option.map _) hjob, ?_⟩
        exact ⟨hctl'.symm, rfl⟩
      | secureSb =>
        simp only [Bool.true_eq_false, if_false, Option.some.injEq, Prod.mk.injEq] at hexec
        obtain ⟨-, rfl⟩ := hexec
        refine .inr ⟨.complete, _, congrArg (Option.map _) hjob, ?_⟩
        exact ⟨hctl'.symm, rfl⟩
      | encryptCurrentKey =>
        simp only [Bool.true_eq_false, if_false] at hexec
        split_ifs at hexec <;>
        · obtain ⟨rfl, rfl⟩ := Prod.mk.inj (Option.some.inj hexec)
          exact .inl (hr.stutter rfl (by simp [World.executed, hst]) (by rw [hst]; rfl))
      | encryptPreviousKey | syncCache | writeSb =>
        simp only [Bool.true_eq_false, if_false, Option.some.injEq, Prod.mk.injEq] at hexec
        obtain ⟨rfl, rfl⟩ := hexec
        exact .inl (hr.stutter rfl (by simp [World.executed, hst]) (by rw [hst]; rfl))
      | _ => simp [JobState.InChain, JobState.IsAt] at hchain

/-- **Every step of a party of a securing job in its chain is one event or
none.** -/
theorem Chain.ring_step {n : ℕ} {skipPrevKey : Bool} {early : List (Event P)} {c : Control}
    {w w' : World P n} {r : Ring P} (h : Chain P skipPrevKey early c w) (hstep : Step w w')
    (hr : r.Shows skipPrevKey c w) :
    r.Shows skipPrevKey c w' ∨ ∃ e r', r.step e = some r' ∧ r'.Shows skipPrevKey c w' := by
  cases hstep with
  | execute hexec => exact h.ring_execute hexec hr
  | @generate prim hst =>
    have hjob := hr.jobAt (by rw [hst]; exact JobState.noConfusion)
    rw [hst] at hjob
    -- only the block of the superblock matters to the slots
    cases prim with
    | writeSb =>
      refine .inr ⟨.writeSb, _, congrArg (Option.map _) hjob, ?_⟩
      exact ⟨hr.ctl, rfl⟩
    | _ => exact .inl (hr.stutter rfl (by simp [hst]) (by rw [hst]; rfl))
  | @complete prim ok res hst hsync =>
    have hjob := hr.jobAt (by rw [hst]; exact JobState.noConfusion)
    rw [hst] at hjob
    have hdone : ∀ st : JobState, st = .primCompleted prim ok →
        (st = .completed ↔ w.job.state = .completed) := by
      rintro st rfl
      simp [hst]
    cases prim with
    | writeSb =>
      cases ok with
      | true =>
        refine .inr ⟨.sbWritten, _, congrArg (Option.map _) hjob, ?_⟩
        exact ⟨hr.ctl, rfl⟩
      | false => exact .inl (hr.stutter rfl (hdone _ rfl) (by rw [hst]; rfl))
    | secureSb =>
      cases ok with
      | true =>
        refine .inr ⟨.sbSecured, _, congrArg (Option.map _) hjob, ?_⟩
        exact ⟨hr.ctl, rfl⟩
      | false => exact .inl (hr.stutter rfl (hdone _ rfl) (by rw [hst]; rfl))
    | _ => exact .inl (hr.stutter rfl (hdone _ rfl) (by rw [hst]; rfl))
  | cacheSync | cacheDropGenerated | cacheMarkCompleted =>
    exact .inl (hr.stutter rfl Iff.rfl rfl)
  | modulesWork slots roots hst hprim =>
    have hin := h.inChain
    rw [hst] at hin
    rcases hprim with rfl | rfl | rfl <;> simp [JobState.InChain, JobState.IsAt] at hin

end Cbe
