import Cbe.Device

/-!
# The current snapshot

Every request without a snapshot id goes to the current snapshot, so it has to
be valid and the newest one (`Superblock.CurrentAlive`). The operations agree
on more: it is strictly newer than every other valid snapshot and not newer
than the current generation (`Superblock.CurrentNewest`).

Two things break it. A discard may name the current snapshot, which has the
generation of a kept snapshot as long as nothing was written after its
creation. And a purge spares the current snapshot only if it is kept or of one
of the two generations that the purge is given; after a restart from a
superblock whose last secured generation is older than its newest snapshot it
may be neither. In a run without these (`Device.KeepsCurrent`) the current
snapshot stays alive (`currentAlive_of_run`).
-/

namespace Cbe

variable {P : Platform}

/-- **The current snapshot is alive**: it is valid and no valid snapshot has a
greater generation. -/
def Superblock.CurrentAlive (sb : Superblock) : Prop :=
  sb.curr.valid = true
    ∧ ∀ i, (sb.snapshots i).valid = true → (sb.snapshots i).gen ≤ sb.curr.gen

/-- **The current snapshot is the newest one**: it is valid and strictly newer
than every other valid snapshot. The number bounds its generation. -/
structure Superblock.CurrentNewest (sb : Superblock) (bound : ℕ) : Prop where
  /-- There is a current snapshot. -/
  valid : sb.curr.valid = true
  /-- All other valid ones are older. -/
  gen_lt : ∀ i, i ≠ sb.currSnap → (sb.snapshots i).valid = true →
    (sb.snapshots i).gen < sb.curr.gen
  /-- It is not newer than the bound. -/
  gen_le : sb.curr.gen ≤ bound

namespace Superblock.CurrentNewest

variable {sb sb' : Superblock} {b g : ℕ}

/-- Every valid snapshot is at most as new as the current one. -/
theorem gen_le_curr (h : sb.CurrentNewest b) {i : SnapshotsIndex}
    (hi : (sb.snapshots i).valid = true) : (sb.snapshots i).gen ≤ sb.curr.gen := by
  by_cases hc : i = sb.currSnap
  · rw [hc]
    exact le_rfl
  · exact (h.gen_lt i hc hi).le

/-- Newer than all others, it is alive. -/
theorem currentAlive (h : sb.CurrentNewest b) : sb.CurrentAlive :=
  ⟨h.valid, fun _ hi => h.gen_le_curr hi⟩

/-- The current snapshot is the one that the search for the newest finds. -/
theorem newestSnapshotIdx_eq (h : sb.CurrentNewest b) :
    newestSnapshotIdx sb.snapshots = some sb.currSnap :=
  newestSnapshotIdx_eq_some h.valid fun i hi hne => h.gen_lt i hne hi

/-- It is not newer than a later generation either. -/
theorem mono (h : sb.CurrentNewest b) (hb : b ≤ g) : sb.CurrentNewest g :=
  ⟨h.valid, h.gen_lt, h.gen_le.trans hb⟩

/-- **A table with the same generations** in which no slot became valid and the
current one stayed valid. -/
theorem of_table (h : sb.CurrentNewest b) (hcurr : sb'.currSnap = sb.currSnap)
    (hgen : ∀ i, (sb'.snapshots i).gen = (sb.snapshots i).gen)
    (hvalid : ∀ i, (sb'.snapshots i).valid = true → (sb.snapshots i).valid = true)
    (hv : sb'.curr.valid = true) : sb'.CurrentNewest b := by
  have hcg : sb'.curr.gen = sb.curr.gen := by
    unfold Superblock.curr
    rw [hcurr, hgen]
  refine ⟨hv, fun i hi hiv => ?_, hcg.trans_le h.gen_le⟩
  rw [hgen, hcg]
  exact h.gen_lt i (by rw [← hcurr]; exact hi) (hvalid i hiv)

/-- A valid snapshot that is not older may take the place of the current one. -/
theorem setCurr {snap : Snapshot} (h : sb.CurrentNewest b) (hvalid : snap.valid = true)
    (hgen : sb.curr.gen ≤ snap.gen) (hb : snap.gen ≤ g) : (sb.setCurr snap).CurrentNewest g where
  valid := by rw [setCurr_curr, hvalid]
  gen_lt i hi hv := by
    rw [setCurr_currSnap] at hi
    rw [setCurr_snapshots_of_ne sb snap hi] at hv ⊢
    rw [setCurr_curr]
    exact (h.gen_lt i hi hv).trans_le hgen
  gen_le := by rw [setCurr_curr]; exact hb

/-- Stamping the current snapshot with a generation that is not older. -/
theorem setCurrGen (h : sb.CurrentNewest b) (hb : b ≤ g) :
    (sb.setCurrGen g).CurrentNewest g :=
  h.setCurr h.valid (h.gen_le.trans hb) le_rfl

/-- The current snapshot may be kept. -/
theorem keep (h : sb.CurrentNewest b) :
    (sb.setCurr { sb.curr with keep := true }).CurrentNewest b :=
  h.setCurr h.valid le_rfl h.gen_le

/-- Another snapshot than the current one may become invalid. -/
theorem invalidate {i : SnapshotsIndex} (h : sb.CurrentNewest b) (hi : i ≠ sb.currSnap) :
    ({ sb with
      snapshots := Function.update sb.snapshots i
        { sb.snapshots i with valid := false } } : Superblock).CurrentNewest b := by
  refine h.of_table rfl (fun j => invalidated_gen _ _ _)
    (fun j hj => ((invalidated_valid_iff _ _ _).mp hj).2) ?_
  exact (invalidated_valid_iff _ _ _).mpr ⟨Ne.symm hi, h.valid⟩

/-- The same table. -/
theorem of_snapshots (h : sb.CurrentNewest b) (hsnaps : sb'.snapshots = sb.snapshots)
    (hcurr : sb'.currSnap = sb.currSnap) : sb'.CurrentNewest b := by
  refine h.of_table hcurr (fun i => by rw [hsnaps]) (fun i => by rw [hsnaps]; exact id) ?_
  unfold Superblock.curr
  rw [hsnaps, hcurr]
  exact h.valid

/-- What the table does not change is kept. -/
theorem of_sameTable (h : sb.CurrentNewest b) (hs : SameTable sb sb') :
    sb'.CurrentNewest b := h.of_snapshots hs.snapshots hs.currSnap

end Superblock.CurrentNewest

/-! ## Purges

A purge spares every snapshot that is kept, and those of two generations that it
is given. -/

/-- **A purge spares the current snapshot**: it is kept, or of one of the two
generations that a purge is given. -/
def Superblock.SparesCurrent (sb : Superblock) (currGen : ℕ) : Prop :=
  sb.curr.keep = true ∨ sb.curr.gen = currGen ∨ sb.curr.gen = sb.lastSecuredGeneration

instance (sb : Superblock) (currGen : ℕ) : Decidable (sb.SparesCurrent currGen) :=
  inferInstanceAs (Decidable (_ ∨ _ ∨ _))

/-- What the purge leaves of the table when it spares the current snapshot. -/
theorem Superblock.CurrentNewest.purge {sb sb' : Superblock} {b currGen : ℕ}
    (h : sb.CurrentNewest b) (hspare : sb.SparesCurrent currGen)
    (hcurr : sb'.currSnap = sb.currSnap)
    (hsnaps : Relocated
      (discardDisposableSnapshots sb.snapshots currGen sb.lastSecuredGeneration)
      sb'.snapshots) :
    sb'.CurrentNewest b := by
  refine h.of_table hcurr (fun i => ?_) (fun i hi => ?_) ?_
  · rw [hsnaps.gen, discardDisposableSnapshots_gen]
  · rw [hsnaps.valid] at hi
    exact discardDisposableSnapshots_valid hi
  · unfold Superblock.curr
    rw [hcurr, hsnaps.valid, discardDisposableSnapshots_valid_iff]
    exact ⟨h.valid, hspare⟩

/-- The purge and the stamp that sync and discard share. -/
theorem Superblock.CurrentNewest.purgeAndStamp {sb : Superblock} {b currGen : ℕ}
    (h : sb.CurrentNewest b) (hspare : sb.SparesCurrent currGen) (hb : b ≤ currGen) :
    (Cbe.purgeAndStamp sb currGen).CurrentNewest currGen := by
  unfold Cbe.purgeAndStamp
  refine Superblock.CurrentNewest.setCurrGen (h.purge hspare rfl ?_) hb
  dsimp only
  rw [discardDisposableSnapshots_comm]
  exact Relocated.refl _

/-! ## The invariant

It is kept by every action that keeps the current snapshot; a restart takes it
from the slot. -/

/-- **The condition on an action** in the state before it: a discard does not
name the current snapshot, a purge spares it, and the generations are not used
up. -/
def Device.KeepsCurrent (d : Device P) (a : Action P) : Prop :=
  (match a with
    | .sync | .createSnapshot | .rekeyVba _ => d.sb.SparesCurrent d.ctl.currGen
    | .discardSnapshot gen => ∀ i, keptSlotForGen d.sb.snapshots gen = some i →
        i ≠ d.sb.currSnap ∧ d.sb.SparesCurrent d.ctl.currGen
    | _ => True)
    ∧ d.ctl.currGen < generationLast

instance (d : Device P) (a : Action P) : Decidable (d.KeepsCurrent a) :=
  match a with
  | .sync | .createSnapshot | .rekeyVba _ =>
    inferInstanceAs (Decidable (d.sb.SparesCurrent d.ctl.currGen ∧ d.ctl.currGen < generationLast))
  | .discardSnapshot gen =>
    inferInstanceAs (Decidable ((∀ i, keptSlotForGen d.sb.snapshots gen = some i →
      i ≠ d.sb.currSnap ∧ d.sb.SparesCurrent d.ctl.currGen) ∧ d.ctl.currGen < generationLast))
  | .write _ _ _ | .initializeRekeying _ | .vbdExtensionStep _ _ | .ftExtensionStep _ _
  | .restart _ _ => inferInstanceAs (Decidable (True ∧ d.ctl.currGen < generationLast))

/-- The current snapshot is the newest one, in memory and in every valid slot. -/
structure Device.CurrentInv (d : Device P) : Prop where
  /-- In memory it is not newer than the generation at hand. -/
  memory : d.sb.CurrentNewest d.ctl.currGen
  /-- In a slot it is not of the last generation. -/
  slots : ∀ j, (d.slots j).Valid → (d.slots j).CurrentNewest (generationLast - 1)

/-- **What every action prepares has its current snapshot as the newest
one.** -/
theorem TablePrepared.currentNewest {d : Device P} {a : Action P} {sb : Superblock}
    (h : TablePrepared d.ctl a sb) (hd : d.sb.CurrentNewest d.ctl.currGen)
    (hkeep : d.KeepsCurrent a) : sb.CurrentNewest d.ctl.currGen := by
  cases h with
  | sync => exact hd.purgeAndStamp hkeep.1 le_rfl
  | createSnapshot =>
    have hpurge : ({ d.sb with
        snapshots := discardDisposableSnapshots d.sb.snapshots d.sb.lastSecuredGeneration
          d.ctl.currGen
        lastSecuredGeneration := d.ctl.currGen } : Superblock).CurrentNewest d.ctl.currGen := by
      refine hd.purge hkeep.1 rfl ?_
      dsimp only
      rw [discardDisposableSnapshots_comm]
      exact Relocated.refl _
    exact hpurge.keep.setCurrGen le_rfl
  | @discardSnapshot gen i hi =>
    obtain ⟨hne, hspare⟩ := hkeep.1 i hi
    refine (hd.invalidate hne).purgeAndStamp ?_ le_rfl
    have hcurr : ({ d.sb with
        snapshots := Function.update d.sb.snapshots i
          { d.sb.snapshots i with valid := false } } : Superblock).curr = d.sb.curr :=
      Function.update_of_ne (Ne.symm hne) _ _
    unfold Superblock.SparesCurrent at hspare ⊢
    rw [hcurr]
    exact hspare
  | initializeRekeying h => exact (hd.of_sameTable h).setCurrGen le_rfl
  | rekeyVba hsnaps hcurr hlast => exact (hd.purge hkeep.1 hcurr hsnaps).setCurrGen le_rfl
  | enterVbdExtension h => exact (hd.of_sameTable h).setCurrGen le_rfl
  | ftExtensionStep h => exact (hd.of_sameTable h).setCurrGen le_rfl
  | @vbdExtensionStep nrOfBlks mt sb newest slot hnewest hslot hput hcurr hlast =>
    -- the slot written is the only one of the current generation
    have hother : ∀ i, i ≠ slot → (sb.snapshots i).valid = true →
        (sb.snapshots i).gen < d.ctl.currGen := by
      intro i hi hv
      rw [hput.other i hi] at hv ⊢
      rw [purgedSnapshots, discardDisposableSnapshots_gen]
      have hvd := discardDisposableSnapshots_valid hv
      obtain ⟨hnv, hnle⟩ := newestSnapshotIdx_spec hnewest
      unfold extendedSlot at hslot
      split_ifs at hslot with hlt
      · have hle := hnle i hv
        rw [purgedSnapshots, discardDisposableSnapshots_gen,
          discardDisposableSnapshots_gen] at hle
        rw [purgedSnapshots, discardDisposableSnapshots_gen] at hlt
        exact hle.trans_lt hlt
      · obtain rfl := Option.some.inj hslot
        have hge : d.ctl.currGen ≤ (d.sb.snapshots newest).gen := by
          rw [purgedSnapshots, discardDisposableSnapshots_gen] at hlt
          exact not_lt.mp hlt
        -- the snapshot extended is as new as the current one, so it is the current one
        have hcur : newest = d.sb.currSnap := by
          by_contra hne
          exact absurd (hd.gen_lt newest hne (discardDisposableSnapshots_valid hnv))
            (not_lt.mpr (hd.gen_le.trans hge))
        exact (hd.gen_lt i (by rw [← hcur]; exact hi) hvd).trans_le hd.gen_le
    have hslotcurr : sb.currSnap = slot := by
      have hfound := newestSnapshotIdx_eq_some hput.valid
        (fun i hv hi => (hother i hi hv).trans_eq hput.gen.symm)
      rw [hcurr] at hfound
      exact Option.some.inj hfound
    refine Superblock.CurrentNewest.setCurrGen (b := d.ctl.currGen) ⟨?_, ?_, ?_⟩ le_rfl
    · unfold Superblock.curr
      rw [hslotcurr, hput.valid]
    · intro i hi hv
      unfold Superblock.curr
      rw [hslotcurr, hput.gen]
      exact hother i (by rw [← hslotcurr]; exact hi) hv
    · unfold Superblock.curr
      rw [hslotcurr, hput.gen]

/-- A write leaves the current snapshot the newest one. -/
theorem Superblock.CurrentNewest.write {sb sb' : Superblock} {currGen pba : ℕ} {hash : Hash}
    {slot : SnapshotsIndex} (h : sb.CurrentNewest currGen)
    (hslot : writtenSlot sb currGen = some slot)
    (hsnaps : sb'.snapshots = Function.update sb.snapshots slot
      (writtenSnapshot sb currGen pba hash))
    (hcurr : sb'.currSnap = slot) : sb'.CurrentNewest currGen := by
  have hc : sb'.curr = writtenSnapshot sb currGen pba hash := by
    unfold Superblock.curr
    rw [hcurr, hsnaps, Function.update_self]
  refine ⟨by rw [hc]; exact h.valid, fun i hi hv => ?_, by rw [hc]; exact le_rfl⟩
  rw [hcurr] at hi
  rw [hsnaps, Function.update_of_ne hi] at hv ⊢
  rw [hc]
  show (sb.snapshots i).gen < currGen
  unfold writtenSlot at hslot
  split_ifs at hslot with hlt
  · exact (h.gen_le_curr hv).trans_lt hlt
  · obtain rfl := Option.some.inj hslot
    exact (h.gen_lt i hi hv).trans_le h.gen_le

/-- A restart finds its current snapshot as the newest one. -/
theorem Superblock.CurrentNewest.restart {d : Device P} {c : Control}
    (hd : ∀ j, (d.slots j).Valid → (d.slots j).CurrentNewest (generationLast - 1))
    (h : executeInitialize P d.slots = some c) : c.sb.CurrentNewest c.currGen := by
  obtain ⟨job, hjob, hsb, -, hgen⟩ := executeInitialize_spec h
  obtain ⟨hf, hinv⟩ := selectSuperblock_spec hjob
  obtain ⟨-, hv, hg⟩ := hinv.found hf
  have hslot := hd job.sbIdx hv
  unfold sbGeneration at hg
  rw [hslot.newestSnapshotIdx_eq] at hg
  have hjg : (d.slots job.sbIdx).curr.gen = job.generation := Option.some.inj hg
  have hlt : job.generation < generationLast := by
    have := hslot.gen_le
    unfold generationLast at *
    omega
  obtain ⟨hsnaps, hcurr, hlast, -⟩ := adoptSuperblock_snapshots hsb
  rw [hgen, nextGeneration_of_lt hlt]
  have hsb := hslot.of_sameTable ⟨hsnaps, hcurr, hlast⟩
  refine ⟨hsb.valid, hsb.gen_lt, ?_⟩
  unfold Superblock.curr at hjg ⊢
  rw [hsnaps, hcurr, hjg]
  omega

/-- **Every action under the condition keeps the invariant.** -/
theorem Device.CurrentInv.step {d d' : Device P} {a : Action P} (h : d.CurrentInv)
    (hkeep : d.KeepsCurrent a) (hstep : d.step a = some d') : d'.CurrentInv := by
  cases Device.effect_of_step hstep with
  | write hslot hsnaps hcurr hlast hgen hidx hslots hsecured =>
    refine ⟨?_, by rw [hslots]; exact h.slots⟩
    rw [hgen]
    exact h.memory.write hslot hsnaps hcurr
  | notFound => exact h
  | restart hctl hslots hsecured =>
    exact ⟨Superblock.CurrentNewest.restart h.slots hctl, by rw [hslots]; exact h.slots⟩
  | @secured _ _ sb skipPrevKey hprep hctl hslots hsecured =>
    have hnew := hprep.currentNewest h.memory hkeep
    have hlt := hkeep.2
    constructor
    · unfold Device.sb
      rw [hctl]
      have hmem : ({ d.ctl with sb := sb } : Control).secured.sb.CurrentNewest d.ctl.currGen :=
        hnew.of_snapshots rfl rfl
      refine hmem.mono ?_
      show d.ctl.currGen ≤ nextGeneration d.ctl.currGen
      rw [nextGeneration_of_lt hlt]
      exact Nat.le_succ _
    · intro j hj
      rw [hslots] at hj ⊢
      by_cases hji : j = d.ctl.sbIdx
      · subst hji
        rw [Function.update_self]
        have hslot : (cipherSuperblock P skipPrevKey sb).CurrentNewest d.ctl.currGen :=
          hnew.of_snapshots rfl rfl
        exact hslot.mono (Nat.le_sub_one_of_lt hlt)
      · rw [Function.update_of_ne hji] at hj ⊢
        exact h.slots j hj

/-- The initializer's superblock has its only snapshot as the newest one. -/
theorem InitialSuperblock.currentNewest {ct : SuperblockCiphertext}
    (h : InitialSuperblock ct) (b : ℕ) : ct.CurrentNewest b where
  valid := h.curr_valid
  gen_lt i hi hv := absurd hv (by simp [h.other_invalid i hi])
  gen_le := by rw [h.curr_gen]; exact Nat.zero_le b

/-- The invariant holds on a fresh device. -/
theorem Device.Fresh.currentInv {d : Device P} (h : d.Fresh) : d.CurrentInv := by
  have hslots : ∀ j, (d.slots j).Valid → (d.slots j).CurrentNewest (generationLast - 1) := by
    intro j hj
    by_cases hj0 : j = 0
    · rw [hj0]
      exact h.slots.first.currentNewest _
    · exact absurd hj (h.slots.other j hj0)
  exact ⟨Superblock.CurrentNewest.restart hslots h.ctl, hslots⟩

/-- **The current snapshot is always alive**, in every state of every run from
a fresh device in which no discard names the current snapshot, every purge
spares it and the generations are not used up. -/
theorem currentAlive_of_run {d d' : Device P} (hfresh : d.Fresh)
    (hrun : Device.Run Device.KeepsCurrent d d') : d'.sb.CurrentAlive :=
  (hrun.invariant (fun _ _ _ hI hC hstep => hI.step hC hstep)
    hfresh.currentInv).memory.currentAlive

/-- A purge that does not spare the current snapshot makes it invalid. -/
theorem Superblock.valid_of_not_sparesCurrent {sb : Superblock} {currGen : ℕ}
    (hspare : ¬ sb.SparesCurrent currGen) :
    (discardDisposableSnapshots sb.snapshots currGen sb.lastSecuredGeneration sb.currSnap).valid
      = false := by
  rw [Bool.eq_false_iff, ne_eq, discardDisposableSnapshots_valid_iff]
  exact fun hv => hspare hv.2

/-- The current snapshot after a purge and a stamp. -/
theorem purgeAndStamp_curr_valid (sb : Superblock) (currGen : ℕ) :
    (purgeAndStamp sb currGen).curr.valid
      = (discardDisposableSnapshots sb.snapshots currGen sb.lastSecuredGeneration
          sb.currSnap).valid := by
  unfold purgeAndStamp
  rw [Superblock.setCurrGen_curr, discardDisposableSnapshots_comm]
  rfl

/-- **The condition is exact**: as long as there are generations left, an
action that does not meet it kills the current snapshot. -/
theorem Device.not_currentAlive_of_not_keepsCurrent {d d' : Device P} {a : Action P}
    (hlt : d.ctl.currGen < generationLast) (hkeep : ¬ d.KeepsCurrent a)
    (hstep : d.step a = some d') : ¬ d'.sb.CurrentAlive := by
  unfold Device.KeepsCurrent at hkeep
  cases Device.effect_of_step hstep with
  | write | restart => exact absurd ⟨trivial, hlt⟩ hkeep
  | notFound hnone =>
    refine absurd ⟨fun i hi => ?_, hlt⟩ hkeep
    rw [hnone] at hi
    exact absurd hi (by simp)
  | @secured _ _ sb skipPrevKey hprep hctl hslots hsecured =>
    have hcurr : d'.sb.curr = sb.curr := by
      unfold Device.sb
      rw [hctl]
      rfl
    rintro ⟨hv, -⟩
    rw [hcurr] at hv
    refine absurd hv ?_
    cases hprep with
    | sync =>
      have hspare := Superblock.valid_of_not_sparesCurrent fun hs => hkeep ⟨hs, hlt⟩
      rw [prepareSync, purgeAndStamp_curr_valid]
      exact Bool.eq_false_iff.mp hspare
    | createSnapshot =>
      have hspare := Superblock.valid_of_not_sparesCurrent fun hs => hkeep ⟨hs, hlt⟩
      have heq : (prepareCreateSnapshot d.ctl).sb.curr.valid
          = (discardDisposableSnapshots d.sb.snapshots d.sb.lastSecuredGeneration d.ctl.currGen
              d.sb.currSnap).valid := by
        unfold prepareCreateSnapshot
        rw [Superblock.setCurrGen_curr, Superblock.setCurr_curr]
        rfl
      rw [heq, discardDisposableSnapshots_comm, hspare]
      exact Bool.false_ne_true
    | @discardSnapshot gen i hi =>
      intro hv
      rw [purgeAndStamp_curr_valid] at hv
      obtain ⟨hv, hs⟩ := (discardDisposableSnapshots_valid_iff _ _ _ _).mp hv
      obtain ⟨hne, -⟩ := (invalidated_valid_iff _ _ _).mp hv
      refine hkeep ⟨fun j hj => ?_, hlt⟩
      obtain rfl : i = j := Option.some.inj (hi.symm.trans hj)
      refine ⟨Ne.symm hne, ?_⟩
      have hold : Function.update d.ctl.sb.snapshots i
          { d.ctl.sb.snapshots i with valid := false } d.ctl.sb.currSnap = d.sb.curr :=
        Function.update_of_ne hne _ _
      dsimp only at hs
      rw [hold] at hs
      exact hs
    | rekeyVba hsnaps hc hlast =>
      have hspare := Superblock.valid_of_not_sparesCurrent fun hs => hkeep ⟨hs, hlt⟩
      rw [Superblock.setCurrGen_curr]
      unfold Superblock.curr
      dsimp only
      rw [hc, hsnaps.valid]
      exact Bool.eq_false_iff.mp hspare
    | initializeRekeying | enterVbdExtension | vbdExtensionStep | ftExtensionStep =>
      exact absurd ⟨trivial, hlt⟩ hkeep

/-- A run that creates a snapshot and writes nothing else. -/
theorem currentAlive_sample_create :
    ∃ d, Device.sample.step .createSnapshot = some d ∧ d.sb.CurrentAlive := by
  refine ⟨_, rfl, currentAlive_of_run Device.sample_fresh (.single .createSnapshot ?_ rfl)⟩
  exact ⟨by decide, by decide⟩

/-- **Discarding the snapshot just created discards the current one.** -/
theorem not_currentAlive_sample_discard :
    Device.sample.Fresh
      ∧ ∃ d', Device.Run (fun _ _ => True) Device.sample d' ∧ ¬ d'.sb.CurrentAlive := by
  refine ⟨Device.sample_fresh, Device.sample.after [.createSnapshot, .discardSnapshot 1],
    Device.run_after (by decide), fun h => ?_⟩
  exact absurd h.1 (by decide)

end Cbe
