import Cbe.CurrentSnapshot
import Cbe.InterruptedSecuring

/-!
# The ring of superblock slots

Superblocks are written to the eight slots in turn, so that the one secured
last survives a torn write of the next, and startup tells the slots apart by
their generations (`Ring.Safe`). As long as the library runs, the index moves
on with every secured superblock and so does the current generation. A restart
breaks this: it takes up the ring at the slot with the smallest generation,
with the generation after that one. If this is the slot secured last, the next
superblock hits it – whether no other slot is valid, or the only other one was
written but not secured. If it is not, the next superblock gets a generation
that another slot has already.

So the ring is safe as long as a restart finds a slot older than the one
secured last, and no superblock is written to its end after such a restart
(`Ring.KeepsRing`, `ringSafe_of_run`). The states are those of
`Cbe.InterruptedSecuring`: a restart may come at any point of a securing job,
and whatever a write that is cut off leaves behind is in the slot after it.
-/

namespace Cbe

variable {P : Platform}

/-- The two superblocks have the same snapshot table. -/
def Superblock.SharesTable (sb sb' : Superblock) : Prop :=
  sb'.snapshots = sb.snapshots ∧ sb'.currSnap = sb.currSnap

instance (sb sb' : Superblock) : Decidable (sb.SharesTable sb') :=
  inferInstanceAs (Decidable (_ ∧ _))

/-- **The ring is safe**: the next superblock does not hit the slot that holds
the most recently secured one; the valid slots differ in the generations that
startup compares; the slot secured last still holds what the trust anchor has
accepted; and startup can order the slots. -/
structure Ring.Safe (r : Ring P) : Prop where
  /-- The slot secured last is not the next one. -/
  spared : ∀ i, r.dev.securedSlot = some i → r.dev.ctl.sbIdx ≠ i
  /-- Valid slots have different generations. -/
  distinct : ∀ i j, i ≠ j → (r.dev.slots i).Valid → (r.dev.slots j).Valid →
    sbGeneration (r.dev.slots i) ≠ sbGeneration (r.dev.slots j)
  /-- The slot secured last has what the trust anchor knows. -/
  kept : ∀ i, r.dev.securedSlot = some i → r.trusted = some (r.dev.slots i)
  /-- The startup finds one among the valid slots. -/
  ordered : (∃ i, (r.dev.slots i).Valid) → (loadedSlot r.dev.slots).isSome = true

/-- **The condition on an event** in the state before it. The library is
restarted only if nothing was secured yet or if some valid slot is older than
the one secured last; no superblock is written to its end after such a restart;
what a torn write leaves in its slot is no valid superblock or has the snapshot
table of the block before or, unless there was such a restart, of the one being
written; and the requests keep the current snapshot alive. -/
def Ring.KeepsRing (r : Ring P) (e : RingEvent P) : Prop :=
  match e with
  | .prepare a => r.resumed = false → r.dev.KeepsCurrent a
  | .tear ct => ct.Valid → ∀ job ∈ r.job,
      ((r.dev.slots job.ctl.sbIdx).Valid ∧ (r.dev.slots job.ctl.sbIdx).SharesTable ct)
        ∨ (r.resumed = false ∧ (job.ciphertext P).SharesTable ct)
  | .sbWritten => r.resumed = false
  | .restart _ _ => ∀ i, r.dev.securedSlot = some i →
      ∃ j, (r.dev.slots j).Valid ∧ (r.dev.slots j).curr.gen < (r.dev.slots i).curr.gen
  | _ => True

instance (r : Ring P) (e : RingEvent P) : Decidable (r.KeepsRing e) :=
  match e with
  | .prepare a => inferInstanceAs (Decidable (r.resumed = false → r.dev.KeepsCurrent a))
  | .tear ct => inferInstanceAs (Decidable (ct.Valid → ∀ job ∈ r.job,
      ((r.dev.slots job.ctl.sbIdx).Valid ∧ (r.dev.slots job.ctl.sbIdx).SharesTable ct)
        ∨ (r.resumed = false ∧ (job.ciphertext P).SharesTable ct)))
  | .sbWritten => inferInstanceAs (Decidable (r.resumed = false))
  | .restart _ _ => inferInstanceAs (Decidable (∀ i, r.dev.securedSlot = some i →
      ∃ j, (r.dev.slots j).Valid ∧ (r.dev.slots j).curr.gen < (r.dev.slots i).curr.gen))
  | .write _ _ _ | .writeSb | .blkIoSynced | .sbSecured | .complete => isTrue trivial

/-! ## The invariant

The invariant says where the newest superblocks are and how far the generations
have come, for each stage of a securing job. -/

/-- **Where the ring goes on**: the control has the slot after the one secured
last. Before the first securing it has the first slot, and no other is valid. -/
structure Control.Follows (c : Control) (slots : SuperblocksIndex → SuperblockCiphertext)
    (secured : Option SuperblocksIndex) : Prop where
  /-- The next slot is the one after that secured last. -/
  after : ∀ i, secured = some i → c.sbIdx = nextSbIdx i
  /-- Before, it is the first one, and no other is valid. -/
  image : secured = none → c.sbIdx = 0 ∧ ∀ j, j ≠ 0 → ¬ (slots j).Valid

/-- Between two securing jobs: the current generation is above all slots. -/
structure Control.Ahead (c : Control) (slots : SuperblocksIndex → SuperblockCiphertext) :
    Prop where
  /-- The current snapshot is the newest one, not newer than the generation at
  hand. -/
  memory : c.sb.CurrentNewest c.currGen
  /-- Every valid slot is older than it. -/
  newer : ∀ j, (slots j).Valid → (slots j).curr.gen < c.currGen

/-- In a securing job: the current generation is that of the superblock
prepared, and above all slots but the one that is being written. -/
structure Control.Writes (c : Control) (slots : SuperblocksIndex → SuperblockCiphertext) :
    Prop where
  /-- The current snapshot is the newest one. -/
  memory : c.sb.CurrentNewest c.currGen
  /-- It has the generation at hand. -/
  stamped : c.sb.curr.gen = c.currGen
  /-- This generation is not the last one. -/
  left : c.currGen < generationLast
  /-- Every other valid slot is older. -/
  newer : ∀ j, j ≠ c.sbIdx → (slots j).Valid → (slots j).curr.gen < c.currGen
  /-- The slot that is being written is not newer. -/
  own : (slots c.sbIdx).Valid → (slots c.sbIdx).curr.gen ≤ c.currGen

namespace Ring

/-- **Where the device stands**: between two jobs, in a job whose hash the trust
anchor has not accepted yet, in one whose hash it has accepted, or started again
after something was secured. -/
inductive Standing (r : Ring P) : Prop
  | idle (hjob : r.job = none) (hnew : r.resumed = false) (h : r.dev.ctl.Ahead r.dev.slots)
      (hpos : r.dev.ctl.Follows r.dev.slots r.dev.securedSlot)
  | working {job : SecuringJob} (hjob : r.job = some job) (hnew : r.resumed = false)
      (h : job.ctl.Writes r.dev.slots) (hpos : job.ctl.Follows r.dev.slots r.dev.securedSlot)
      (hst : job.stage ≠ .secured)
      (hctl : r.dev.ctl = if job.stage = .synced then job.ctl.next else job.ctl)
      (hslot : job.stage = .written ∨ job.stage = .synced →
        r.dev.slots job.ctl.sbIdx = job.ciphertext P)
  | secured {job : SecuringJob} (hjob : r.job = some job) (hnew : r.resumed = false)
      (h : job.ctl.secured.Ahead r.dev.slots)
      (hpos : job.ctl.secured.Follows r.dev.slots r.dev.securedSlot)
      (hst : job.stage = .secured) (hctl : r.dev.ctl = job.ctl.next)
  | resumed (hold : r.resumed = true) (hsecured : r.dev.securedSlot ≠ none)
      (hjob : ∀ job, r.job = some job →
        (job.stage = .prepared ∨ job.stage = .writing) ∧ r.dev.ctl = job.ctl)

/-- **The invariant of the ring.** -/
structure Inv (r : Ring P) : Prop where
  /-- The slot secured last is not the next one. -/
  spared : ∀ i, r.dev.securedSlot = some i → r.dev.ctl.sbIdx ≠ i
  /-- Valid slots have different generations. -/
  distinct : ∀ i j, i ≠ j → (r.dev.slots i).Valid → (r.dev.slots j).Valid →
    (r.dev.slots i).curr.gen ≠ (r.dev.slots j).curr.gen
  /-- The slot secured last has what the trust anchor knows. -/
  kept : ∀ i, r.dev.securedSlot = some i → r.trusted = some (r.dev.slots i)
  /-- In every valid slot the current snapshot is the newest one. -/
  slots : ∀ j, (r.dev.slots j).Valid → (r.dev.slots j).CurrentNewest (generationLast - 1)
  /-- Where the ring goes on fits the stage of the securing job. -/
  standing : r.Standing

end Ring

/-- The generation of a slot whose current snapshot is the newest one. -/
theorem Superblock.CurrentNewest.sbGeneration_eq {ct : SuperblockCiphertext} {b : ℕ}
    (h : ct.CurrentNewest b) : sbGeneration ct = some ct.curr.gen := by
  unfold sbGeneration
  rw [h.newestSnapshotIdx_eq]
  rfl

/-- **Under the invariant the ring is safe.** -/
theorem Ring.Inv.safe {r : Ring P} (h : r.Inv) : r.Safe := by
  have hgen : ∀ i, (r.dev.slots i).Valid →
      sbGeneration (r.dev.slots i) = some (r.dev.slots i).curr.gen :=
    fun i hi => (h.slots i hi).sbGeneration_eq
  have hdistinct : ∀ i j, i ≠ j → (r.dev.slots i).Valid → (r.dev.slots j).Valid →
      sbGeneration (r.dev.slots i) ≠ sbGeneration (r.dev.slots j) := by
    intro i j hij hi hj heq
    rw [hgen i hi, hgen j hj] at heq
    exact h.distinct i j hij hi hj (Option.some.inj heq)
  refine ⟨h.spared, hdistinct, h.kept, fun hvalid => loadedSlot_isSome (fun i hi => ?_)
    hdistinct hvalid⟩
  rw [hgen i hi]
  rfl

/-! ## Indices and generations

The index moves around the ring, the generation only up. -/

/-- The index moves on, and not back to where it was two superblocks ago. -/
theorem nextSbIdx_ne (i : SuperblocksIndex) :
    nextSbIdx i ≠ i ∧ nextSbIdx (nextSbIdx i) ≠ i := by
  unfold nextSbIdx
  revert i
  decide

/-- What is prepared is stamped with the current generation. -/
theorem TablePrepared.curr_gen {c : Control} {a : Action P} {sb : Superblock}
    (h : TablePrepared c a sb) : sb.curr.gen = c.currGen := by
  cases h with
  | sync => simp [prepareSync, purgeAndStamp]
  | createSnapshot => simp [prepareCreateSnapshot]
  | discardSnapshot => simp [purgeAndStamp]
  | _ => simp

/-- Only the securing actions prepare a superblock. -/
theorem TablePrepared.operation_ne_none {c : Control} {a : Action P} {sb : Superblock}
    (h : TablePrepared c a sb) : a.operation ≠ none := by
  cases h <;> simp [Action.operation]

/-- A table that is the newest in one superblock is so in one that shares it. -/
theorem Superblock.CurrentNewest.sharesTable {sb sb' : Superblock} {b : ℕ}
    (h : sb.CurrentNewest b) (hs : sb.SharesTable sb') :
    sb'.CurrentNewest b ∧ sb'.curr.gen = sb.curr.gen := by
  refine ⟨h.of_snapshots hs.1 hs.2, ?_⟩
  unfold Superblock.curr
  rw [hs.1, hs.2]

/-- **After the trust anchor has accepted the hash** the control is ahead of all
slots again. -/
theorem Control.Writes.secured {c : Control} {slots : SuperblocksIndex → SuperblockCiphertext}
    (h : c.Writes slots) : c.secured.Ahead slots := by
  have hgen : c.secured.currGen = c.currGen + 1 := nextGeneration_of_lt h.left
  constructor
  · rw [hgen]
    exact (h.memory.of_snapshots rfl rfl : c.secured.sb.CurrentNewest c.currGen).mono
      (Nat.le_succ _)
  · intro j hj
    rw [hgen, Nat.lt_succ_iff]
    by_cases hjc : j = c.sbIdx
    · rw [hjc] at hj ⊢
      exact h.own hj
    · exact (h.newer j hjc hj).le

namespace Ring.Inv

variable {r r' : Ring P}

/-! ## The events keep the invariant

One lemma for each kind of event; the only one with a condition is the restart.
-/

/-- A write of a block changes the snapshots in memory only. -/
theorem write {vba : ℕ} {data : P.Block} {mt : MetaTree} {d : Device P} (h : r.Inv)
    (hidle : r.job = none) (hd : r.dev.write vba data mt = some d) :
    ({ r with dev := d } : Ring P).Inv := by
  have hstep : r.dev.step (.write vba data mt) = some d := hd
  cases Device.effect_of_step hstep with
  | secured hprep => exact absurd rfl hprep.operation_ne_none
  | write hslot hsnaps hcurr hlast hgen hidx hslots hsecured =>
    refine ⟨?_, ?_, ?_, ?_, ?_⟩
    · dsimp only
      rw [hsecured, hidx]
      exact h.spared
    · dsimp only
      rw [hslots]
      exact h.distinct
    · dsimp only
      rw [hslots, hsecured]
      exact h.kept
    · dsimp only
      rw [hslots]
      exact h.slots
    · cases h.standing with
      | idle _ hnew hahead hpos =>
        refine .idle hidle hnew ⟨?_, ?_⟩ ⟨?_, ?_⟩
        · dsimp only
          rw [hgen]
          exact hahead.memory.write hslot hsnaps hcurr
        · dsimp only
          rw [hslots, hgen]
          exact hahead.newer
        · dsimp only
          rw [hsecured, hidx]
          exact hpos.after
        · dsimp only
          rw [hsecured, hidx, hslots]
          exact hpos.image
      | working hjob | secured hjob => exact absurd (hidle.symm.trans hjob) (by simp)
      | resumed hold hsec hjob =>
        refine .resumed hold ?_ ?_
        · dsimp only
          rw [hsecured]
          exact hsec
        · intro job hj
          exact absurd (hidle.symm.trans hj) (by simp)

/-- **A prepared superblock** touches neither the slots nor the index. -/
theorem prepare {a : Action P} {p : Preparation P} (h : r.Inv) (hidle : r.job = none)
    (hp : r.dev.prepare a = some p) (hkeep : r.resumed = false → r.dev.KeepsCurrent a) :
    ({ r with
      dev := { p.dev with ctl := p.ctl }
      job := some { stage := .prepared, skipPrevKey := p.skipPrevKey, ctl := p.ctl } } :
      Ring P).Inv := by
  obtain ⟨sb, hctl, hprep, hslots, hsecured⟩ := Device.tablePrepared_of_prepare hp
  have hidx : p.ctl.sbIdx = r.dev.ctl.sbIdx := by rw [hctl]
  refine ⟨?_, ?_, ?_, ?_, ?_⟩
  · dsimp only
    rw [hsecured, hidx]
    exact h.spared
  · dsimp only
    rw [hslots]
    exact h.distinct
  · dsimp only
    rw [hslots, hsecured]
    exact h.kept
  · dsimp only
    rw [hslots]
    exact h.slots
  · cases h.standing with
    | idle _ hnew hahead hpos =>
      refine .working rfl hnew ?_ ?_ SecuringStage.noConfusion rfl ?_
      · dsimp only
        rw [hslots, hctl]
        exact ⟨hprep.currentNewest hahead.memory (hkeep hnew), hprep.curr_gen, (hkeep hnew).2,
          fun j _ hj => hahead.newer j hj, fun hj => (hahead.newer _ hj).le⟩
      · dsimp only
        rw [hslots, hsecured, hctl]
        exact ⟨hpos.after, hpos.image⟩
      · rintro (hst | hst) <;> exact SecuringStage.noConfusion hst
    | working hjob | secured hjob => exact absurd (hidle.symm.trans hjob) (by simp)
    | resumed hold hsec hjob =>
      refine .resumed hold ?_ ?_
      · dsimp only
        rw [hsecured]
        exact hsec
      · intro job hj
        obtain rfl := Option.some.inj hj
        exact ⟨Or.inl rfl, rfl⟩

/-- The block device begins to write the slot. -/
theorem writeSb {job : SecuringJob} (h : r.Inv) (hjob : r.job = some job)
    (hst : job.stage = .prepared) : (r.goOn job .writing).Inv := by
  refine ⟨h.spared, h.distinct, h.kept, h.slots, ?_⟩
  cases h.standing with
  | idle hidle => exact absurd (hidle.symm.trans hjob) (by simp)
  | working hj hnew hwrites hpos _ hctl hslot =>
    obtain rfl := Option.some.inj (hj.symm.trans hjob)
    rw [if_neg (by rw [hst]; decide)] at hctl
    refine .working rfl hnew hwrites hpos SecuringStage.noConfusion hctl ?_
    rintro (heq | heq) <;> exact SecuringStage.noConfusion heq
  | secured hj _ _ _ hsecured =>
    obtain rfl := Option.some.inj (hj.symm.trans hjob)
    exact absurd (hst.symm.trans hsecured) SecuringStage.noConfusion
  | resumed hold hsec hcond =>
    refine .resumed hold hsec fun job' hj => ?_
    obtain rfl := Option.some.inj hj
    exact ⟨Or.inr rfl, (hcond job hjob).2⟩

/-- The slot that is being written is the one the control has, and not the one
secured last. -/
theorem writing {job : SecuringJob} (h : r.Inv) (hjob : r.job = some job)
    (hst : job.stage = .writing) : r.dev.ctl = job.ctl := by
  cases h.standing with
  | idle hidle => exact absurd (hidle.symm.trans hjob) (by simp)
  | working hj _ _ _ _ hctl =>
    obtain rfl := Option.some.inj (hj.symm.trans hjob)
    rw [hctl, if_neg (by rw [hst]; decide)]
  | secured hj _ _ _ hsecured =>
    obtain rfl := Option.some.inj (hj.symm.trans hjob)
    exact absurd (hst.symm.trans hsecured) SecuringStage.noConfusion
  | resumed _ _ hcond => exact (hcond job hjob).2

/-- What a torn write may leave: its table is the newest one of its superblock,
and no other slot has its generation. -/
theorem torn {job : SecuringJob} {ct : SuperblockCiphertext} (h : r.Inv)
    (hjob : r.job = some job) (hst : job.stage = .writing) (hv : ct.Valid)
    (hkeep : r.KeepsRing (.tear ct)) :
    ct.CurrentNewest (generationLast - 1)
      ∧ (∀ j, j ≠ job.ctl.sbIdx → (r.dev.slots j).Valid →
        (r.dev.slots j).curr.gen ≠ ct.curr.gen)
      ∧ (r.resumed = false → ct.curr.gen ≤ job.ctl.currGen) := by
  -- the superblock being prepared, as long as there was no such restart
  have hwrites : r.resumed = false → job.ctl.Writes r.dev.slots := by
    intro hnew
    cases h.standing with
    | idle hidle => exact absurd (hidle.symm.trans hjob) (by simp)
    | working hj _ hwrites =>
      obtain rfl := Option.some.inj (hj.symm.trans hjob)
      exact hwrites
    | secured hj _ _ _ hsecured =>
      obtain rfl := Option.some.inj (hj.symm.trans hjob)
      exact absurd (hst.symm.trans hsecured) SecuringStage.noConfusion
    | resumed hold => exact absurd (hold.symm.trans hnew) (by decide)
  rcases hkeep hv job hjob with ⟨hvalid, htable⟩ | ⟨hnew, htable⟩
  · -- the block before
    obtain ⟨hnewest, hgen⟩ := (h.slots _ hvalid).sharesTable htable
    refine ⟨hnewest, fun j hj hvj => ?_, fun hnew => ?_⟩
    · rw [hgen]
      exact h.distinct j _ hj hvj hvalid
    · rw [hgen]
      exact (hwrites hnew).own hvalid
  · -- the block being written
    have hw := hwrites hnew
    have hcipher : (job.ciphertext P).CurrentNewest job.ctl.currGen :=
      hw.memory.of_snapshots rfl rfl
    obtain ⟨hnewest, hgen⟩ := hcipher.sharesTable htable
    have hgen : ct.curr.gen = job.ctl.currGen := hgen.trans hw.stamped
    refine ⟨hnewest.mono (Nat.le_sub_one_of_lt hw.left), fun j hj hvj => ?_,
      fun _ => hgen.le⟩
    rw [hgen]
    exact (hw.newer j hj hvj).ne

/-- **A torn write** spares the slot secured last and leaves the slots in
order. -/
theorem tear {job : SecuringJob} {ct : SuperblockCiphertext} (h : r.Inv)
    (hjob : r.job = some job) (hst : job.stage = .writing) (hkeep : r.KeepsRing (.tear ct)) :
    (r.putSlot job.ctl.sbIdx ct).Inv := by
  have hctl := h.writing hjob hst
  have hself : (r.putSlot job.ctl.sbIdx ct).dev.slots job.ctl.sbIdx = ct :=
    Function.update_self ..
  have hother : ∀ j, j ≠ job.ctl.sbIdx →
      (r.putSlot job.ctl.sbIdx ct).dev.slots j = r.dev.slots j :=
    fun j hj => Function.update_of_ne hj ..
  refine ⟨h.spared, ?_, ?_, ?_, ?_⟩
  · intro i j hij hi hj
    by_cases his : i = job.ctl.sbIdx
    · have hjs : j ≠ job.ctl.sbIdx := by rw [← his]; exact Ne.symm hij
      rw [his, hself] at hi ⊢
      rw [hother j hjs] at hj ⊢
      exact Ne.symm ((h.torn hjob hst hi hkeep).2.1 j hjs hj)
    · by_cases hjs : j = job.ctl.sbIdx
      · rw [hjs, hself] at hj ⊢
        rw [hother i his] at hi ⊢
        exact (h.torn hjob hst hj hkeep).2.1 i his hi
      · rw [hother i his] at hi ⊢
        rw [hother j hjs] at hj ⊢
        exact h.distinct i j hij hi hj
  · intro i hi
    have hne : i ≠ job.ctl.sbIdx := by
      rw [← hctl]
      exact Ne.symm (h.spared i hi)
    rw [hother i hne]
    exact h.kept i hi
  · intro j hj
    by_cases hjs : j = job.ctl.sbIdx
    · rw [hjs, hself] at hj ⊢
      exact (h.torn hjob hst hj hkeep).1
    · rw [hother j hjs] at hj ⊢
      exact h.slots j hj
  · cases h.standing with
    | idle hidle => exact absurd (hidle.symm.trans hjob) (by simp)
    | working hj hnew hwrites hpos hne hctl' hslot =>
      obtain rfl := Option.some.inj (hj.symm.trans hjob)
      refine .working hjob hnew ⟨hwrites.memory, hwrites.stamped, hwrites.left, ?_, ?_⟩
        ⟨hpos.after, ?_⟩ hne hctl' ?_
      · intro j hjs hv
        rw [hother j hjs] at hv ⊢
        exact hwrites.newer j hjs hv
      · intro hv
        rw [hself] at hv ⊢
        exact (h.torn hjob hst hv hkeep).2.2 hnew
      · intro hnone
        obtain ⟨hzero, hinvalid⟩ := hpos.image hnone
        refine ⟨hzero, fun j hjz => ?_⟩
        rw [hother j (by rw [hzero]; exact hjz)]
        exact hinvalid j hjz
      · rw [hst]
        rintro (heq | heq) <;> exact SecuringStage.noConfusion heq
    | secured hj _ _ _ hsecured =>
      obtain rfl := Option.some.inj (hj.symm.trans hjob)
      exact absurd (hst.symm.trans hsecured) SecuringStage.noConfusion
    | resumed hold hsec hcond => exact .resumed hold hsec hcond

/-- **A superblock written to its end**: the slot has its block. -/
theorem sbWritten {job : SecuringJob} (h : r.Inv) (hjob : r.job = some job)
    (hst : job.stage = .writing) (hnew : r.resumed = false) :
    ((r.putSlot job.ctl.sbIdx (job.ciphertext P)).goOn job .written).Inv := by
  have hkeep : r.KeepsRing (.tear (job.ciphertext P)) := by
    intro _ job' hj
    obtain rfl := Option.some.inj (hjob.symm.trans hj)
    exact Or.inr ⟨hnew, rfl, rfl⟩
  have htear := h.tear hjob hst hkeep
  refine ⟨htear.spared, htear.distinct, htear.kept, htear.slots, ?_⟩
  cases htear.standing with
  | idle hidle => exact absurd (hidle.symm.trans hjob) (by simp)
  | working hj _ hwrites hpos _ hctl =>
    obtain rfl := Option.some.inj (hj.symm.trans hjob)
    rw [if_neg (by rw [hst]; decide)] at hctl
    exact .working rfl hnew hwrites hpos SecuringStage.noConfusion hctl
      fun _ => Function.update_self ..
  | secured hj _ _ _ hsecured =>
    obtain rfl := Option.some.inj (hj.symm.trans hjob)
    exact absurd (hst.symm.trans hsecured) SecuringStage.noConfusion
  | resumed hold => exact absurd (hold.symm.trans hnew) (by decide)

/-- The job that is past the write of its slot stands as such. -/
theorem past {job : SecuringJob} (h : r.Inv) (hjob : r.job = some job)
    (hst : job.stage = .written ∨ job.stage = .synced) :
    r.resumed = false ∧ job.ctl.Writes r.dev.slots
      ∧ job.ctl.Follows r.dev.slots r.dev.securedSlot
      ∧ r.dev.slots job.ctl.sbIdx = job.ciphertext P
      ∧ (job.stage = .synced → r.dev.ctl = job.ctl.next) := by
  cases h.standing with
  | idle hidle => exact absurd (hidle.symm.trans hjob) (by simp)
  | working hj hnew hwrites hpos _ hctl hslot =>
    obtain rfl := Option.some.inj (hj.symm.trans hjob)
    exact ⟨hnew, hwrites, hpos, hslot hst, fun hs => by rw [hctl, if_pos hs]⟩
  | secured hj _ _ _ hsecured =>
    obtain rfl := Option.some.inj (hj.symm.trans hjob)
    rcases hst with hst | hst <;>
      exact absurd (hst.symm.trans hsecured) SecuringStage.noConfusion
  | resumed _ _ hcond =>
    rcases (hcond job hjob).1 with heq | heq <;> rcases hst with hst | hst <;>
      exact absurd (hst.symm.trans heq) SecuringStage.noConfusion

/-- **The block device is synced**: the index moves past the slot written, and
that is still not the one secured last. -/
theorem blkIoSynced {job : SecuringJob} (h : r.Inv) (hjob : r.job = some job)
    (hst : job.stage = .written) :
    ({ r with dev := { r.dev with ctl := job.ctl.next } }.goOn job .synced).Inv := by
  obtain ⟨hnew, hwrites, hpos, hslot, -⟩ := h.past hjob (Or.inl hst)
  refine ⟨fun i hi => ?_, h.distinct, h.kept, h.slots,
    .working rfl hnew hwrites hpos SecuringStage.noConfusion rfl fun _ => hslot⟩
  show nextSbIdx job.ctl.sbIdx ≠ i
  rw [hpos.after i hi]
  exact (nextSbIdx_ne i).2

/-- **The trust anchor accepts the hash**: the slot just written is the one
secured last. -/
theorem sbSecured {job : SecuringJob} (h : r.Inv) (hjob : r.job = some job)
    (hst : job.stage = .synced) :
    ({ r with
      dev := { r.dev with securedSlot := some job.ctl.sbIdx }
      trusted := some (job.ciphertext P) }.goOn job .secured).Inv := by
  obtain ⟨hnew, hwrites, hpos, hslot, hctl⟩ := h.past hjob (Or.inr hst)
  refine ⟨fun i hi => ?_, h.distinct, fun i hi => ?_, h.slots, ?_⟩
  · obtain rfl := Option.some.inj hi
    show r.dev.ctl.sbIdx ≠ job.ctl.sbIdx
    rw [hctl hst]
    exact (nextSbIdx_ne _).1
  · obtain rfl := Option.some.inj hi
    exact congrArg some hslot.symm
  · refine .secured rfl hnew hwrites.secured ⟨fun i hi => ?_, fun hnone => ?_⟩ rfl (hctl hst)
    · obtain rfl := Option.some.inj hi
      rfl
    · exact absurd hnone (by simp [goOn])

/-- The job completes. -/
theorem complete {job : SecuringJob} (h : r.Inv) (hjob : r.job = some job)
    (hst : job.stage = .secured) :
    ({ r with
      dev := { r.dev with ctl := job.ctl.secured }
      job := none } : Ring P).Inv := by
  cases h.standing with
  | idle hidle => exact absurd (hidle.symm.trans hjob) (by simp)
  | working hj _ _ _ hne =>
    obtain rfl := Option.some.inj (hj.symm.trans hjob)
    exact absurd hst hne
  | secured hj hnew hahead hpos _ hctl =>
    obtain rfl := Option.some.inj (hj.symm.trans hjob)
    refine ⟨fun i hi => ?_, h.distinct, h.kept, h.slots, .idle rfl hnew hahead hpos⟩
    have hspared := h.spared i hi
    rw [hctl] at hspared
    exact hspared
  | resumed _ _ hcond =>
    rcases (hcond job hjob).1 with heq | heq <;>
      exact absurd (hst.symm.trans heq) SecuringStage.noConfusion

/-- Before the first securing only the first slot can be valid. -/
theorem image (h : r.Inv) (hnone : r.dev.securedSlot = none) :
    ∀ j, j ≠ 0 → ¬ (r.dev.slots j).Valid := by
  cases h.standing with
  | idle _ _ _ hpos => exact (hpos.image hnone).2
  | working _ _ _ hpos => exact (hpos.image hnone).2
  | secured _ _ _ hpos => exact (hpos.image hnone).2
  | resumed _ hsec => exact absurd hnone hsec

/-- **A restart** loads the oldest slot, which is not the one secured last if
some valid slot is older. -/
theorem restart {store : Store P} {free : FtNode} {d : Device P} (h : r.Inv)
    (hd : r.dev.restart store free = some d) (hkeep : r.KeepsRing (.restart store free)) :
    ({ r with dev := d, job := none, resumed := d.securedSlot.isSome } : Ring P).Inv := by
  obtain ⟨c, hc, rfl⟩ := Device.restart_spec hd
  have hload := executeInitialize_sbIdx hc
  obtain ⟨g, hv, hg, hleast⟩ := loadedSlot_spec hload
  obtain ⟨job, hjob, -, hidx, hgen⟩ := executeInitialize_spec hc
  rw [(h.slots _ hv).sbGeneration_eq] at hg
  obtain rfl := Option.some.inj hg
  have hmemory : c.sb.CurrentNewest c.currGen := Superblock.CurrentNewest.restart h.slots hc
  refine ⟨fun i hi heq => ?_, h.distinct, h.kept, h.slots, ?_⟩
  · -- a valid slot is older than the one secured last, so the oldest one is, too
    have heq : c.sbIdx = i := heq
    obtain ⟨j, hj, hlt⟩ := hkeep i hi
    have hne : j ≠ c.sbIdx := by
      rintro rfl
      rw [heq] at hlt
      exact lt_irrefl _ hlt
    obtain ⟨g', hg', hgg⟩ := hleast j hj hne
    rw [(h.slots j hj).sbGeneration_eq] at hg'
    obtain rfl := Option.some.inj hg'
    rw [heq] at hgg
    exact absurd hlt (not_lt.mpr hgg.le)
  · cases hsec : r.dev.securedSlot with
    | some i =>
      exact .resumed rfl (Option.some_ne_none i) fun job hj => absurd hj (by simp)
    | none =>
      have himage := h.image hsec
      have hzero : c.sbIdx = 0 := by
        by_contra hne
        exact himage _ hne hv
      refine .idle rfl rfl ⟨hmemory, fun j hj => ?_⟩ ⟨fun i hi => ?_, fun _ => ⟨hzero, himage⟩⟩
      · obtain rfl : j = 0 := by
          by_contra hne
          exact himage j hne hj
        have hbound := (h.slots 0 hj).gen_le
        obtain ⟨hf, hinv⟩ := selectSuperblock_spec hjob
        have hfound := (hinv.found hf).2.2
        rw [← hidx, hzero, (h.slots 0 hj).sbGeneration_eq] at hfound
        have hfound : (r.dev.slots 0).curr.gen = job.generation := Option.some.inj hfound
        show (r.dev.slots 0).curr.gen < c.currGen
        have hlast : job.generation < generationLast := by
          rw [← hfound]
          unfold generationLast at hbound ⊢
          omega
        rw [hgen, nextGeneration_of_lt hlast, hfound]
        exact Nat.lt_succ_self _
      · exact absurd hi (by simp)

/-- **Every event under the condition keeps the invariant.** -/
theorem step {e : RingEvent P} (h : r.Inv) (hkeep : r.KeepsRing e)
    (hstep : r.step e = some r') : r'.Inv := by
  cases Ring.moves_of_step hstep with
  | write hidle hd => exact h.write hidle hd
  | prepare hidle hp => exact h.prepare hidle hp hkeep
  | writeSb hjob hst => exact h.writeSb hjob hst
  | tear ct hjob hst => exact h.tear hjob hst hkeep
  | sbWritten hjob hst => exact h.sbWritten hjob hst hkeep
  | blkIoSynced hjob hst => exact h.blkIoSynced hjob hst
  | sbSecured hjob hst => exact h.sbSecured hjob hst
  | complete hjob hst => exact h.complete hjob hst
  | restart hd => exact h.restart hd hkeep

/-- The invariant holds on a fresh device. -/
theorem start {d : Device P} (hfresh : d.Fresh) : (Ring.start d).Inv := by
  have hcurrent := hfresh.currentInv
  have hzero : ∀ i, (d.slots i).Valid → i = 0 := by
    intro i hi
    by_contra hne
    exact hfresh.slots.other i hne hi
  have hsec : ∀ i, d.securedSlot ≠ some i := by
    intro i
    rw [hfresh.secured]
    exact (Option.some_ne_none i).symm
  obtain ⟨job, hjob, -, hidx, hgen⟩ := executeInitialize_spec hfresh.ctl
  obtain ⟨hf, hinv⟩ := selectSuperblock_spec hjob
  obtain ⟨-, hv, hfound⟩ := hinv.found hf
  have hjz := hzero _ hv
  rw [hjz, (hcurrent.slots 0 (hjz ▸ hv)).sbGeneration_eq] at hfound
  have hgz : job.generation = 0 :=
    (Option.some.inj hfound).symm.trans hfresh.slots.first.curr_gen
  refine ⟨fun i hi => absurd hi (hsec i), fun i j hij hi hj => ?_,
    fun i hi => absurd hi (hsec i), hcurrent.slots, .idle rfl rfl ⟨hcurrent.memory, ?_⟩ ⟨?_, ?_⟩⟩
  · exact absurd ((hzero i hi).trans (hzero j hj).symm) hij
  · intro j hj
    rw [hzero j hj]
    show (d.slots 0).curr.gen < d.ctl.currGen
    rw [hgen, hgz, hfresh.slots.first.curr_gen]
    decide
  · exact fun i hi => absurd hi (hsec i)
  · exact fun _ => ⟨hidx.trans hjz, hfresh.slots.other⟩

end Ring.Inv

/-- **The ring is safe in every state of every run** from a fresh device whose
events meet the condition – in the midst of a securing job, after a torn write
and after a restart. -/
theorem ringSafe_of_run {d : Device P} {r : Ring P} (hfresh : d.Fresh)
    (hrun : Ring.Run Ring.KeepsRing (Ring.start d) r) : r.Safe :=
  (hrun.invariant (fun _ _ _ hI hC hstep => hI.step hC hstep) (Ring.Inv.start hfresh)).safe

/-- **The condition on a restart is exact**: without an older valid slot the next
superblock hits the slot secured last. -/
theorem Ring.Inv.not_safe_of_restart {r r' : Ring P} {i : SuperblocksIndex} {store : Store P}
    {free : FtNode} (h : r.Inv) (hi : r.dev.securedSlot = some i) (hv : (r.dev.slots i).Valid)
    (hold : ¬ r.KeepsRing (.restart store free))
    (hstep : r.step (.restart store free) = some r') : ¬ r'.Safe := by
  obtain ⟨d, hd, rfl⟩ := Option.map_eq_some_iff.mp hstep
  obtain ⟨c, hc, rfl⟩ := Device.restart_spec hd
  obtain ⟨g, hvc, hg, hleast⟩ := loadedSlot_spec (executeInitialize_sbIdx hc)
  rw [(h.slots _ hvc).sbGeneration_eq] at hg
  obtain rfl := Option.some.inj hg
  -- the oldest slot is not older than the one secured last, so it is that one
  have heq : c.sbIdx = i := by
    by_contra hne
    obtain ⟨g', hg', hlt⟩ := hleast i hv (Ne.symm hne)
    rw [(h.slots i hv).sbGeneration_eq] at hg'
    obtain rfl := Option.some.inj hg'
    refine hold fun j hj => ?_
    obtain rfl := Option.some.inj (hi.symm.trans hj)
    exact ⟨c.sbIdx, hvc, hlt⟩
  exact fun hsafe => hsafe.spared i hi heq

/-- A sync that nothing interrupts. -/
def syncEvents : List (RingEvent Platform.sample) :=
  [.prepare .sync, .writeSb, .sbWritten, .blkIoSynced, .sbSecured, .complete]

/-- What a torn write leaves of the sample superblock. -/
def tornSuperblock : SuperblockCiphertext := { Superblock.sample 0 with state := .invalid }

/-- Two syncs, a third one whose write is torn, and a restart. -/
def tornSync : List (RingEvent Platform.sample) :=
  syncEvents ++ syncEvents
    ++ [.prepare .sync, .writeSb, .tear tornSuperblock, .restart sampleStore sampleFree]

/-- **A torn write and a restart** after two syncs: the slot secured last is 1,
and the library takes up the ring at slot 0. -/
theorem ringSafe_sample_sync :
    ∃ r : Ring Platform.sample, r.dev.securedSlot = some 1 ∧ r.dev.ctl.sbIdx = 0 ∧ r.Safe :=
  ⟨Runs.after Ring.step Ring.KeepsRing (Ring.start Device.sample) tornSync, by decide, by decide,
    ringSafe_of_run Device.sample_fresh (Runs.Run.after (by decide))⟩

/-- The sample device after some events, on which no condition is put. -/
def Ring.sampleAfter (l : List (RingEvent Platform.sample)) : Ring Platform.sample :=
  Runs.after Ring.step (fun _ _ => True) (Ring.start Device.sample) l

/-- **A restart breaks the ring in four ways.** After one sync it aims at the
slot secured last, and a torn write then leaves no valid slot at all. It does
so, too, when a second sync has written its superblock and not secured it. And
after two syncs the next one repeats a generation. -/
theorem not_ringSafe_sample_restart :
    Device.sample.Fresh
      ∧ (∃ r, Ring.Run (fun _ _ => True) (Ring.start Device.sample) r
        ∧ r.dev.securedSlot = some 0 ∧ r.dev.ctl.sbIdx = 0 ∧ ¬ r.Safe)
      ∧ (∃ r, Ring.Run (fun _ _ => True) (Ring.start Device.sample) r
        ∧ r.dev.securedSlot = some 0 ∧ (∀ i, ¬ (r.dev.slots i).Valid) ∧ ¬ r.Safe)
      ∧ (∃ r, Ring.Run (fun _ _ => True) (Ring.start Device.sample) r
        ∧ r.dev.securedSlot = some 0 ∧ (r.dev.slots 1).Valid ∧ r.dev.ctl.sbIdx = 0 ∧ ¬ r.Safe)
      ∧ ∃ r, Ring.Run (fun _ _ => True) (Ring.start Device.sample) r
        ∧ sbGeneration (r.dev.slots 0) = some 2 ∧ sbGeneration (r.dev.slots 1) = some 2
        ∧ ¬ r.Safe := by
  refine ⟨Device.sample_fresh,
    ⟨Ring.sampleAfter (syncEvents ++ [.restart sampleStore sampleFree]),
      Runs.Run.after (by decide), by decide, by decide, fun h => ?_⟩,
    ⟨Ring.sampleAfter (syncEvents ++ [.restart sampleStore sampleFree, .prepare .sync, .writeSb,
        .tear tornSuperblock]),
      Runs.Run.after (by decide), by decide, by decide, fun h => ?_⟩,
    ⟨Ring.sampleAfter (syncEvents ++ [.prepare .sync, .writeSb, .sbWritten,
        .restart sampleStore sampleFree]),
      Runs.Run.after (by decide), by decide, by decide, by decide, fun h => ?_⟩,
    ⟨Ring.sampleAfter (syncEvents ++ syncEvents ++ .restart sampleStore sampleFree :: syncEvents),
      Runs.Run.after (by decide), by decide, by decide, fun h => ?_⟩⟩
  · exact absurd (h.spared 0 (by decide)) (by decide)
  · exact absurd (h.spared 0 (by decide)) (by decide)
  · exact absurd (h.spared 0 (by decide)) (by decide)
  · exact absurd (h.distinct 0 1 (by decide) (by decide) (by decide)) (by decide)

end Cbe
