import Cbe.SuperblockRing
import Cbe.ExtensionAccounting

/-!
# The slots that the internal snapshots take

Every secured superblock moves the current generation on, and the first write
of a generation takes a slot of the snapshot table for it. A slot comes free
when a purge discards the snapshots that are neither kept nor of the current or
the last secured generation.

The snapshots of a table have different generations (`Superblock.Stamped`), so
a purge leaves at most two internal ones. Synchronizing, creating or discarding
a snapshot, rekeying a block and extending the virtual block device by a step
all purge; the calls that begin a rekeying or such an extension do not, but a
step follows them before the next one (`Superblock.agedBound`). The calls of an
extension of the free tree never purge. Each of them that follows a write leaks
a slot (`Device.aged_of_leaksSlot`), and after 47 of them the table is full
(`not_slotsFree_sample`). Without such leaks there are never more than four
internal snapshots (`slotsFree_of_run`).
-/

namespace Cbe

variable {P : Platform}

/-! ## Internal and kept snapshots

A snapshot is kept once its creation was asked for; every other valid one is
internal. -/

/-- The internal snapshots: the valid ones without the `Keep` flag. -/
def internalSnaps (snaps : Snapshots) : Finset SnapshotsIndex :=
  Finset.univ.filter fun i => (snaps i).valid = true ∧ (snaps i).keep = false

/-- The kept snapshots: the valid ones with the `Keep` flag. -/
def keptSnaps (snaps : Snapshots) : Finset SnapshotsIndex :=
  Finset.univ.filter fun i => (snaps i).valid = true ∧ (snaps i).keep = true

/-- The internal snapshots from before a generation. -/
def agedSnaps (snaps : Snapshots) (currGen : ℕ) : Finset SnapshotsIndex :=
  (internalSnaps snaps).filter fun i => (snaps i).gen < currGen

section Tables

variable {snaps snaps' : Snapshots} {currGen lastSecuredGen : ℕ} {i : SnapshotsIndex}

/-- Valid, and not kept. -/
theorem mem_internalSnaps :
    i ∈ internalSnaps snaps ↔ (snaps i).valid = true ∧ (snaps i).keep = false := by
  rw [internalSnaps, Finset.mem_filter]
  exact and_iff_right (Finset.mem_univ i)

/-- Valid, and kept. -/
theorem mem_keptSnaps :
    i ∈ keptSnaps snaps ↔ (snaps i).valid = true ∧ (snaps i).keep = true := by
  rw [keptSnaps, Finset.mem_filter]
  exact and_iff_right (Finset.mem_univ i)

/-- Internal, and older than the current generation. -/
theorem mem_agedSnaps :
    i ∈ agedSnaps snaps currGen ↔ i ∈ internalSnaps snaps ∧ (snaps i).gen < currGen :=
  Finset.mem_filter

theorem agedSnaps_subset : agedSnaps snaps currGen ⊆ internalSnaps snaps :=
  Finset.filter_subset _ _

/-- The internal snapshots depend only on the two flags of the slots. -/
theorem internalSnaps_congr (hvalid : ∀ i, (snaps' i).valid = (snaps i).valid)
    (hkeep : ∀ i, (snaps' i).keep = (snaps i).keep) :
    internalSnaps snaps' = internalSnaps snaps := by
  ext i
  rw [mem_internalSnaps, mem_internalSnaps, hvalid, hkeep]

/-- **Where not all slots are taken, the search for a free one succeeds.** -/
theorem exists_idxOfAnyInvalidSnap
    (h : (internalSnaps snaps).card + (keptSnaps snaps).card < superblockNrOfSnapshots) :
    ∃ i, idxOfAnyInvalidSnap snaps = some i := by
  rw [← Option.isSome_iff_exists, idxOfAnyInvalidSnap, List.find?_isSome]
  by_contra hall
  push Not at hall
  have hcover : (Finset.univ : Finset SnapshotsIndex) ⊆ internalSnaps snaps ∪ keptSnaps snaps := by
    intro i _
    have hvalid : (snaps i).valid = true := by simpa using hall i (List.mem_finRange i)
    rw [Finset.mem_union, mem_internalSnaps, mem_keptSnaps]
    cases (snaps i).keep <;> simp [hvalid]
  have hcard := (Finset.card_le_card hcover).trans (Finset.card_union_le _ _)
  rw [Finset.card_univ, Fintype.card_fin] at hcard
  exact absurd hcard (not_le.mpr h)

/-- **Nothing is left to discard**: all internal snapshots are of one of the two
generations that a purge spares. -/
def Purged (snaps : Snapshots) (currGen lastSecuredGen : ℕ) : Prop :=
  ∀ i ∈ internalSnaps snaps, (snaps i).gen = currGen ∨ (snaps i).gen = lastSecuredGen

instance : Decidable (Purged snaps currGen lastSecuredGen) :=
  inferInstanceAs (Decidable (∀ i ∈ internalSnaps snaps, _))

/-- A purge discards what there is to discard. -/
theorem discardDisposableSnapshots_purged (snaps : Snapshots) (currGen lastSecuredGen : ℕ) :
    Purged (discardDisposableSnapshots snaps currGen lastSecuredGen) currGen lastSecuredGen := by
  intro i hi
  obtain ⟨hv, hk⟩ := mem_internalSnaps.mp hi
  obtain ⟨-, hkeep | hgen⟩ := (discardDisposableSnapshots_valid_iff _ _ _ _).mp hv
  · rw [discardDisposableSnapshots_keep] at hk
    exact absurd hkeep (by rw [hk]; exact Bool.false_ne_true)
  · rw [discardDisposableSnapshots_gen]
    exact hgen

/-- The same snapshots under new roots. -/
theorem Purged.relocated (h : Purged snaps currGen lastSecuredGen) (hr : Relocated snaps snaps') :
    Purged snaps' currGen lastSecuredGen := by
  intro i hi
  rw [internalSnaps_congr hr.valid hr.keep] at hi
  rw [hr.gen]
  exact h i hi

/-- A snapshot of the current generation may take any slot. -/
theorem Purged.put (h : Purged snaps currGen lastSecuredGen) (hgen : (snaps' i).gen = currGen)
    (hother : ∀ j, j ≠ i → snaps' j = snaps j) : Purged snaps' currGen lastSecuredGen := by
  intro j hj
  by_cases hji : j = i
  · rw [hji]
    exact .inl hgen
  · obtain ⟨hv, hk⟩ := mem_internalSnaps.mp hj
    rw [hother j hji] at hv hk ⊢
    exact h j (mem_internalSnaps.mpr ⟨hv, hk⟩)

end Tables

/-! ## Generations as stamps

No two valid snapshots have the same generation. -/

/-- **The stamps of a table**: no valid snapshot is newer than a generation,
only the current one may be of it, and no two valid ones have the same
generation. -/
structure Superblock.Stamped (sb : Superblock) (currGen : ℕ) : Prop where
  /-- No valid snapshot is newer than the generation at hand. -/
  gen_le : ∀ i, (sb.snapshots i).valid = true → (sb.snapshots i).gen ≤ currGen
  /-- Only the current one may be of that generation. -/
  current : ∀ i, (sb.snapshots i).valid = true → (sb.snapshots i).gen = currGen → i = sb.currSnap
  /-- No two have one generation. -/
  inj : ∀ i j, (sb.snapshots i).valid = true → (sb.snapshots j).valid = true →
    (sb.snapshots i).gen = (sb.snapshots j).gen → i = j

namespace Superblock.Stamped

variable {sb sb' : Superblock} {currGen : ℕ}

/-- Fewer snapshots, of the same generations. -/
theorem of_table (h : sb.Stamped currGen) (hcurr : sb'.currSnap = sb.currSnap)
    (hgen : ∀ i, (sb'.snapshots i).gen = (sb.snapshots i).gen)
    (hvalid : ∀ i, (sb'.snapshots i).valid = true → (sb.snapshots i).valid = true) :
    sb'.Stamped currGen where
  gen_le i hi := by
    rw [hgen]
    exact h.gen_le i (hvalid i hi)
  current i hi hg := by
    rw [hgen] at hg
    rw [hcurr]
    exact h.current i (hvalid i hi) hg
  inj i j hi hj hij := by
    rw [hgen, hgen] at hij
    exact h.inj i j (hvalid i hi) (hvalid j hj) hij

/-- The same table. -/
theorem of_snapshots (h : sb.Stamped currGen) (hsnaps : sb'.snapshots = sb.snapshots)
    (hcurr : sb'.currSnap = sb.currSnap) : sb'.Stamped currGen :=
  h.of_table hcurr (fun i => by rw [hsnaps]) fun i hi => by
    rw [← hsnaps]
    exact hi

/-- The same table is as well stamped. -/
theorem of_sameTable (h : sb.Stamped currGen) (hs : SameTable sb sb') : sb'.Stamped currGen :=
  h.of_snapshots hs.snapshots hs.currSnap

/-- What a purge leaves. -/
theorem purge (h : sb.Stamped currGen) {a b : ℕ} (hcurr : sb'.currSnap = sb.currSnap)
    (hsnaps : Relocated (discardDisposableSnapshots sb.snapshots a b) sb'.snapshots) :
    sb'.Stamped currGen := by
  refine h.of_table hcurr (fun i => ?_) (fun i hi => ?_)
  · rw [hsnaps.gen, discardDisposableSnapshots_gen]
  · rw [hsnaps.valid] at hi
    exact discardDisposableSnapshots_valid hi

/-- Only the current slot has the current generation, so another snapshot of it
may take its place. -/
theorem setCurr (h : sb.Stamped currGen) {snap : Snapshot} (hgen : snap.gen = currGen) :
    (sb.setCurr snap).Stamped currGen := by
  have hself : (sb.setCurr snap).snapshots sb.currSnap = snap := Function.update_self _ _ _
  have hother : ∀ i, i ≠ sb.currSnap → (sb.setCurr snap).snapshots i = sb.snapshots i :=
    fun i hi => Superblock.setCurr_snapshots_of_ne sb snap hi
  have hcur : ∀ i, ((sb.setCurr snap).snapshots i).valid = true →
      ((sb.setCurr snap).snapshots i).gen = currGen → i = sb.currSnap := by
    intro i hi hg
    by_contra hne
    rw [hother i hne] at hi hg
    exact hne (h.current i hi hg)
  refine ⟨fun i hi => ?_, hcur, fun i j hi hj hij => ?_⟩
  · by_cases hne : i = sb.currSnap
    · rw [hne, hself, hgen]
    · rw [hother i hne] at hi ⊢
      exact h.gen_le i hi
  · by_cases hic : i = sb.currSnap
    · have hjg : ((sb.setCurr snap).snapshots j).gen = currGen := by
        rw [← hij, hic, hself, hgen]
      rw [hic, hcur j hj hjg]
    · by_cases hjc : j = sb.currSnap
      · have hig : ((sb.setCurr snap).snapshots i).gen = currGen := by
          rw [hij, hjc, hself, hgen]
        exact absurd (hcur i hi hig) hic
      · rw [hother i hic] at hi hij
        rw [hother j hjc] at hj hij
        exact h.inj i j hi hj hij

theorem setCurrGen (h : sb.Stamped currGen) : (sb.setCurrGen currGen).Stamped currGen :=
  h.setCurr rfl

/-- A snapshot of the current generation in a slot, when no other slot has a
valid one. -/
theorem put (h : sb.Stamped currGen) {slot : SnapshotsIndex}
    (hcurr : sb'.currSnap = slot) (hgen : (sb'.snapshots slot).gen = currGen)
    (hother : ∀ i, i ≠ slot → sb'.snapshots i = sb.snapshots i)
    (hnew : ∀ i, i ≠ slot → (sb.snapshots i).valid = true → (sb.snapshots i).gen ≠ currGen) :
    sb'.Stamped currGen := by
  have hcur : ∀ i, (sb'.snapshots i).valid = true → (sb'.snapshots i).gen = currGen →
      i = slot := by
    intro i hi hg
    by_contra hne
    rw [hother i hne] at hi hg
    exact hnew i hne hi hg
  refine ⟨fun i hi => ?_, fun i hi hg => ?_, fun i j hi hj hij => ?_⟩
  · by_cases hne : i = slot
    · rw [hne, hgen]
    · rw [hother i hne] at hi ⊢
      exact h.gen_le i hi
  · rw [hcurr]
    exact hcur i hi hg
  · by_cases hic : i = slot
    · rw [hic, hcur j hj (by rw [← hij, hic, hgen])]
    · by_cases hjc : j = slot
      · exact absurd (hcur i hi (by rw [hij, hjc, hgen])) hic
      · rw [hother i hic] at hi hij
        rw [hother j hjc] at hj hij
        exact h.inj i j hi hj hij

/-- The current generation moves on. -/
theorem tick (h : sb.Stamped currGen) {g : ℕ} (hg : currGen < g) : sb.Stamped g where
  gen_le i hi := (h.gen_le i hi).trans hg.le
  current i hi heq := absurd (h.gen_le i hi) (by rw [heq]; exact not_le.mpr hg)
  inj := h.inj

end Superblock.Stamped

/-! ## How many internal snapshots there are

After a purge one for each of two generations, and then those that are added
until the next one. -/

/-- Different generations: of two generations there are at most two snapshots. -/
theorem Superblock.Stamped.card_le_two {sb : Superblock} {g currGen lastSecuredGen : ℕ}
    (h : sb.Stamped g) (hpurged : Purged sb.snapshots currGen lastSecuredGen) :
    (internalSnaps sb.snapshots).card ≤ 2 := by
  refine (Finset.card_le_card_of_injOn (fun i => (sb.snapshots i).gen)
    (t := {currGen, lastSecuredGen}) (fun i hi => ?_) (fun i hi j hj hij => ?_)).trans
      Finset.card_le_two
  · rw [Finset.coe_insert, Finset.coe_singleton]
    exact hpurged i hi
  · exact h.inj i j (mem_internalSnaps.mp hi).1 (mem_internalSnaps.mp hj).1 hij

/-- Only the current snapshot is not from before the current generation. -/
theorem Superblock.Stamped.card_le_aged {sb : Superblock} {currGen : ℕ} (h : sb.Stamped currGen) :
    (internalSnaps sb.snapshots).card ≤ (agedSnaps sb.snapshots currGen).card + 1 := by
  have hcover : internalSnaps sb.snapshots
      ⊆ insert sb.currSnap (agedSnaps sb.snapshots currGen) := by
    intro i hi
    rw [Finset.mem_insert, mem_agedSnaps]
    have hv := (mem_internalSnaps.mp hi).1
    by_cases hg : (sb.snapshots i).gen = currGen
    · exact .inl (h.current i hv hg)
    · exact .inr ⟨hi, lt_of_le_of_ne (h.gen_le i hv) hg⟩
  exact (Finset.card_le_card hcover).trans (Finset.card_insert_le _ _)

/-- With the current snapshot an internal one of the current generation, it is
one more than those from before. -/
theorem Superblock.Stamped.card_eq_aged {sb : Superblock} {currGen : ℕ} (h : sb.Stamped currGen)
    (hc : sb.currSnap ∈ internalSnaps sb.snapshots) (hg : sb.curr.gen = currGen) :
    (internalSnaps sb.snapshots).card = (agedSnaps sb.snapshots currGen).card + 1 := by
  have hnot : sb.currSnap ∉ agedSnaps sb.snapshots currGen := fun hmem =>
    absurd (mem_agedSnaps.mp hmem).2 (not_lt.mpr (Eq.ge hg))
  refine le_antisymm h.card_le_aged ?_
  rw [← Finset.card_insert_of_notMem hnot]
  exact Finset.card_le_card (Finset.insert_subset hc agedSnaps_subset)

/-- A generation later all internal snapshots are from before. -/
theorem Superblock.Stamped.aged_tick {sb : Superblock} {currGen g : ℕ} (h : sb.Stamped currGen)
    (hg : currGen < g) : agedSnaps sb.snapshots g = internalSnaps sb.snapshots := by
  refine Finset.Subset.antisymm agedSnaps_subset fun i hi => ?_
  rw [mem_agedSnaps]
  exact ⟨hi, (h.gen_le i (mem_internalSnaps.mp hi).1).trans_lt hg⟩

/-! ## What the actions prepare

Whether a superblock is purged when it is secured. -/

/-- A stamp changes the generation of the current snapshot and nothing else. -/
theorem Superblock.setCurrGen_snapshots (sb : Superblock) (gen : ℕ) (i : SnapshotsIndex) :
    (sb.setCurrGen gen).snapshots i
      = { sb.snapshots i with gen := if i = sb.currSnap then gen else (sb.snapshots i).gen } := by
  by_cases hi : i = sb.currSnap
  · rw [if_pos hi, hi]
    exact Function.update_self _ _ _
  · rw [if_neg hi]
    exact Superblock.setCurrGen_snapshots_of_ne sb gen hi

/-- Putting a snapshot in the current slot and stamping it. -/
theorem Superblock.setCurr_setCurrGen (sb : Superblock) (snap : Snapshot) (gen : ℕ) :
    (sb.setCurr snap).setCurrGen gen = sb.setCurr { snap with gen := gen } := by
  unfold Superblock.setCurrGen
  rw [Superblock.setCurr_curr]
  unfold Superblock.setCurr
  rw [Function.update_idem]

/-- The internal snapshots after the current one was stamped. -/
theorem internalSnaps_setCurrGen (sb : Superblock) (gen : ℕ) :
    internalSnaps (sb.setCurrGen gen).snapshots = internalSnaps sb.snapshots :=
  internalSnaps_congr (fun i => by rw [Superblock.setCurrGen_snapshots])
    fun i => by rw [Superblock.setCurrGen_snapshots]

theorem Purged.setCurr {sb : Superblock} {snap : Snapshot} {currGen lastSecuredGen : ℕ}
    (h : Purged sb.snapshots currGen lastSecuredGen) (hgen : snap.gen = currGen) :
    Purged (sb.setCurr snap).snapshots currGen lastSecuredGen := by
  refine h.put (i := sb.currSnap) ?_ fun j hj => Superblock.setCurr_snapshots_of_ne sb snap hj
  exact (congrArg Snapshot.gen (Superblock.setCurr_curr sb snap)).trans hgen

theorem Purged.setCurrGen {sb : Superblock} {currGen lastSecuredGen : ℕ}
    (h : Purged sb.snapshots currGen lastSecuredGen) :
    Purged (sb.setCurrGen currGen).snapshots currGen lastSecuredGen := h.setCurr rfl

/-- The purge and the stamp that sync and discard share. -/
theorem purgeAndStamp_purged (sb : Superblock) (currGen : ℕ) :
    Purged (purgeAndStamp sb currGen).snapshots currGen sb.lastSecuredGeneration := by
  refine Purged.setCurrGen ?_
  dsimp only
  rw [discardDisposableSnapshots_comm]
  exact discardDisposableSnapshots_purged _ _ _

/-- The purge and the stamp keep the stamps apart. -/
theorem Superblock.Stamped.purgeAndStamp {sb : Superblock} {currGen : ℕ} (h : sb.Stamped currGen) :
    (Cbe.purgeAndStamp sb currGen).Stamped currGen :=
  Superblock.Stamped.setCurrGen (h.purge rfl (Relocated.refl _))

/-- **The table that a step of an extension of the virtual block device leaves
is stamped.** The slot it takes is the only one of the current generation. -/
theorem Superblock.Stamped.put_vbdExtension {c : Control} {sb : Superblock}
    {newest slot : SnapshotsIndex} (h : c.sb.Stamped c.currGen)
    (hnewest : newestSnapshotIdx (purgedSnapshots c) = some newest)
    (hslot : extendedSlot (purgedSnapshots c) newest c.currGen c.sb.lastSecuredGeneration
      = some slot)
    (hput : PutInto (purgedSnapshots c) sb.snapshots slot c.currGen)
    (hcurr : newestSnapshotIdx sb.snapshots = some sb.currSnap) : sb.Stamped c.currGen := by
  have hp : ({ c.sb with snapshots := purgedSnapshots c } : Superblock).Stamped c.currGen :=
    h.purge rfl (Relocated.refl _)
  obtain ⟨hnv, hnle⟩ := newestSnapshotIdx_spec hnewest
  have hnew : ∀ i, i ≠ slot → (purgedSnapshots c i).valid = true →
      (purgedSnapshots c i).gen ≠ c.currGen := by
    intro i hi hv hg
    unfold extendedSlot at hslot
    split_ifs at hslot with hlt
    · exact absurd (hnle i hv) (by rw [hg]; exact not_le.mpr hlt)
    · obtain rfl := Option.some.inj hslot
      have hng : (purgedSnapshots c newest).gen = c.currGen :=
        le_antisymm (hp.gen_le newest hnv) (not_lt.mp hlt)
      exact hi (hp.inj i newest hv hnv (hg.trans hng.symm))
  have hcs : sb.currSnap = slot := by
    have hfound : newestSnapshotIdx sb.snapshots = some slot := by
      refine newestSnapshotIdx_eq_some hput.valid fun i hv hi => ?_
      rw [hput.other i hi] at hv ⊢
      rw [hput.gen]
      exact lt_of_le_of_ne (hp.gen_le i hv) (hnew i hi hv)
    exact Option.some.inj (hcurr.symm.trans hfound)
  exact hp.put hcs hput.gen hput.other hnew

/-- **What every action prepares is stamped.** -/
theorem TablePrepared.stamped {c : Control} {a : Action P} {sb : Superblock}
    (h : TablePrepared c a sb) (hc : c.sb.Stamped c.currGen) : sb.Stamped c.currGen := by
  cases h with
  | sync => exact hc.purgeAndStamp
  | createSnapshot =>
    have hpurge : ({ c.sb with
        snapshots := discardDisposableSnapshots c.sb.snapshots c.sb.lastSecuredGeneration
          c.currGen
        lastSecuredGeneration := c.currGen } : Superblock).Stamped c.currGen :=
      hc.purge rfl (Relocated.refl _)
    rw [prepareCreateSnapshot, Superblock.setCurr_setCurrGen]
    exact hpurge.setCurr rfl
  | @discardSnapshot gen i hi =>
    refine Superblock.Stamped.purgeAndStamp (hc.of_table rfl (fun j => ?_) fun j hj => ?_)
    · exact invalidated_gen _ _ _
    · exact ((invalidated_valid_iff _ _ _).mp hj).2
  | initializeRekeying h => exact (hc.of_sameTable h).setCurrGen
  | rekeyVba hsnaps hcurr _ => exact (hc.purge hcurr hsnaps).setCurrGen
  | enterVbdExtension h => exact (hc.of_sameTable h).setCurrGen
  | ftExtensionStep h => exact (hc.of_sameTable h).setCurrGen
  | vbdExtensionStep hnewest hslot hput hcurr _ =>
    exact (hc.put_vbdExtension hnewest hslot hput hcurr).setCurrGen

/-- An action that purges the table before it secures the superblock: all but
the call that begins a rekeying and those of the extensions, of which the
virtual block device's purges when it does a step. -/
def Action.Purges : Action P → Prop
  | .sync | .createSnapshot | .discardSnapshot _ | .rekeyVba _ => True
  | _ => False

/-- **What the purging actions prepare is purged.** -/
theorem TablePrepared.purged {c : Control} {a : Action P} {sb : Superblock}
    (h : TablePrepared c a sb) (ha : a.Purges) :
    Purged sb.snapshots c.currGen c.sb.lastSecuredGeneration := by
  cases h with
  | sync => exact purgeAndStamp_purged _ _
  | createSnapshot =>
    rw [prepareCreateSnapshot, Superblock.setCurr_setCurrGen]
    refine Purged.setCurr ?_ rfl
    dsimp only
    rw [discardDisposableSnapshots_comm]
    exact discardDisposableSnapshots_purged _ _ _
  | discardSnapshot => exact purgeAndStamp_purged _ _
  | rekeyVba hsnaps _ _ =>
    exact ((discardDisposableSnapshots_purged _ _ _).relocated hsnaps).setCurrGen
  | _ => exact absurd ha id

/-- A step of an extension of the virtual block device purges. -/
theorem purged_vbdExtensionStep {c : Control} {sb : Superblock} {slot : SnapshotsIndex}
    (hput : PutInto (purgedSnapshots c) sb.snapshots slot c.currGen) :
    Purged (sb.setCurrGen c.currGen).snapshots c.currGen c.sb.lastSecuredGeneration := by
  have hpurged := discardDisposableSnapshots_purged c.sb.snapshots c.currGen
    c.sb.lastSecuredGeneration
  exact (hpurged.put hput.gen hput.other).setCurrGen

/-- **What a securing action does about the internal snapshots**: it purges the
table, it begins a rekeying or an extension of the virtual block device without
that, or it is a call of an extension of the free tree. -/
inductive Device.Upkeep (d d' : Device P) : Action P → Prop
  | purged {a : Action P}
      (h : Purged d'.sb.snapshots d.ctl.currGen d.sb.lastSecuredGeneration) : Upkeep d d' a
  | begun {a : Action P} (hsame : internalSnaps d'.sb.snapshots = internalSnaps d.sb.snapshots)
      (hst : d.sb.state = .normal)
      (hst' : d'.sb.state = .rekeying ∨ d'.sb.state = .extendingVbd) : Upkeep d d' a
  | ftExtension {nrOfBlks : ℕ} {mt : MetaTree}
      (hsame : internalSnaps d'.sb.snapshots = internalSnaps d.sb.snapshots)
      (hst : d.sb.state = .normal ∨ d.sb.state = .extendingFt) :
      Upkeep d d' (.ftExtensionStep nrOfBlks mt)

/-- The snapshots of a superblock that was stamped and secured. -/
theorem internalSnaps_of_stamped {sb sb' : Superblock} (gen : ℕ)
    (h : sb'.snapshots = sb.snapshots) :
    internalSnaps (sb'.setCurrGen gen).snapshots = internalSnaps sb.snapshots := by
  rw [internalSnaps_setCurrGen, h]

/-- **A call of an extension of the free tree does not purge.** -/
theorem Device.internalSnaps_ftExtensionStep {d d' : Device P} {nrOfBlks : ℕ} {mt : MetaTree}
    (h : d.step (.ftExtensionStep nrOfBlks mt) = some d') :
    internalSnaps d'.sb.snapshots = internalSnaps d.sb.snapshots
      ∧ (d.sb.state = .normal ∨ d.sb.state = .extendingFt) := by
  rcases ftExtensionStep_spec h with
    ⟨hst, sb, hsb, rfl⟩ | ⟨hst, -, res, sb, finished, -, hsb, rfl⟩
  · obtain ⟨-, rfl⟩ := enterExtending_spec hsb
    exact ⟨internalSnaps_of_stamped _ rfl, .inl hst⟩
  · obtain ⟨-, hsnaps, -⟩ := ftExtStepInFtCompleted_spec hsb
    exact ⟨internalSnaps_of_stamped _ hsnaps, .inr hst⟩

/-- **Every securing action is of one of the three kinds.** -/
theorem Device.upkeep_of_step {d d' : Device P} {a : Action P} {sb : Superblock}
    (h : d.step a = some d') (hprep : TablePrepared d.ctl a sb)
    (hctl : d'.ctl = { d.ctl with sb := sb }.secured) : d.Upkeep d' a := by
  have hsnaps : d'.sb.snapshots = sb.snapshots := by
    show d'.ctl.sb.snapshots = _
    rw [hctl]
    rfl
  cases a with
  | write | restart => exact absurd rfl hprep.operation_ne_none
  | sync | createSnapshot | discardSnapshot | rekeyVba =>
    refine .purged ?_
    rw [hsnaps]
    exact hprep.purged trivial
  | initializeRekeying value =>
    obtain ⟨sb₁, hsb, rfl⟩ := initializeRekeying_spec h
    obtain ⟨hst, -, rfl⟩ := superblockEnterRekeyingState_spec hsb
    exact .begun (internalSnaps_of_stamped _ rfl) hst (.inl rfl)
  | vbdExtensionStep nrOfBlks mt =>
    rcases vbdExtensionStep_spec h with
      ⟨hst, sb₁, hsb, rfl⟩ | ⟨-, -, ws, job, sb₁, finished, hrun, hsb, rfl⟩
    · obtain ⟨-, rfl⟩ := enterExtending_spec hsb
      exact .begun (internalSnaps_of_stamped _ rfl) hst (.inr rfl)
    · obtain ⟨newest, -, -, hsnaps, -⟩ := vbdExtStepInVbdCompleted_spec hsb
      obtain ⟨old, slot, -, -, hput⟩ := executeVbdExtensionStepInVbd_snapshots hrun
      rw [← hsnaps] at hput
      exact .purged (purged_vbdExtensionStep hput)
  | ftExtensionStep nrOfBlks mt =>
    obtain ⟨hsame, hst⟩ := internalSnaps_ftExtensionStep h
    exact .ftExtension hsame hst

/-! ## The invariant

In memory and in every slot that a restart may adopt. -/

/-- The internal snapshots from before the current generation: a purge leaves
two, and the call that begins a rekeying or an extension of the virtual block
device may add one. -/
def Superblock.agedBound (sb : Superblock) : ℕ :=
  if sb.state = .rekeying ∨ sb.state = .extendingVbd then 3 else 2

/-- Two aged snapshots are always admitted. -/
theorem Superblock.two_le_agedBound (sb : Superblock) : 2 ≤ sb.agedBound := by
  unfold Superblock.agedBound
  split_ifs <;> decide

/-- Never more than three. -/
theorem Superblock.agedBound_le_three (sb : Superblock) : sb.agedBound ≤ 3 := by
  unfold Superblock.agedBound
  split_ifs <;> decide

/-- **A slot is leaked** by securing the superblock now without a purge: the
current snapshot is an internal one that was written since the last securing,
and a purge would have something to discard. -/
def Device.LeaksSlot (d : Device P) : Prop :=
  d.sb.currSnap ∈ internalSnaps d.sb.snapshots ∧ d.sb.curr.gen = d.ctl.currGen
    ∧ ¬ Purged d.sb.snapshots d.ctl.currGen d.sb.lastSecuredGeneration

instance (d : Device P) : Decidable d.LeaksSlot := by
  unfold Device.LeaksSlot
  infer_instance

/-- **The condition on an action** in the state before it: a call of an
extension of the free tree does not leak a slot, and the generations are not
used up. -/
def Device.SparesSlots (d : Device P) (a : Action P) : Prop :=
  (match a with
    | .ftExtensionStep _ _ => ¬ d.LeaksSlot
    | _ => True)
    ∧ d.ctl.currGen < generationLast

instance (d : Device P) (a : Action P) : Decidable (d.SparesSlots a) :=
  match a with
  | .ftExtensionStep _ _ =>
    inferInstanceAs (Decidable (¬ d.LeaksSlot ∧ d.ctl.currGen < generationLast))
  | .write _ _ _ | .sync | .createSnapshot | .discardSnapshot _ | .initializeRekeying _
  | .rekeyVba _ | .vbdExtensionStep _ _ | .restart _ _ =>
    inferInstanceAs (Decidable (True ∧ d.ctl.currGen < generationLast))

/-- What holds of the table of a secured superblock. -/
structure Superblock.TableSecured (ct : Superblock) : Prop where
  /-- The table is stamped, below the last generation. -/
  stamped : ∃ g < generationLast, ct.Stamped g
  /-- Its internal snapshots are bounded. -/
  card_le : (internalSnaps ct.snapshots).card ≤ ct.agedBound

/-- **The invariant**, of the superblock in memory and of those in the slots. -/
structure Device.SlotsInv (d : Device P) : Prop where
  /-- The table in memory is stamped. -/
  memory : d.sb.Stamped d.ctl.currGen
  /-- The internal snapshots of earlier generations are bounded. -/
  aged : (agedSnaps d.sb.snapshots d.ctl.currGen).card ≤ d.sb.agedBound
  /-- The tables in the valid slots are such that a restart may adopt them. -/
  slots : ∀ j, (d.slots j).Valid → (d.slots j).TableSecured

/-- What was secured is stamped, and the current generation has moved on. -/
theorem Device.stamped_of_secured {d d' : Device P} {a : Action P} {sb : Superblock}
    (hprep : TablePrepared d.ctl a sb) (hctl : d'.ctl = { d.ctl with sb := sb }.secured)
    (h : d.sb.Stamped d.ctl.currGen) (hlt : d.ctl.currGen < generationLast) :
    d'.sb.Stamped d.ctl.currGen ∧ d.ctl.currGen < d'.ctl.currGen := by
  unfold Device.sb
  rw [hctl]
  refine ⟨(hprep.stamped h).of_snapshots rfl rfl, ?_⟩
  show d.ctl.currGen < nextGeneration d.ctl.currGen
  rw [nextGeneration_of_lt hlt]
  exact Nat.lt_succ_self _

/-- **What is secured keeps within the bound.** -/
theorem Device.SlotsInv.card_secured {d d' : Device P} {a : Action P} (h : d.SlotsInv)
    (hC : d.SparesSlots a) (hupkeep : d.Upkeep d' a) (hstamped : d'.sb.Stamped d.ctl.currGen) :
    (internalSnaps d'.sb.snapshots).card ≤ d'.sb.agedBound := by
  cases hupkeep with
  | purged hpurged => exact (hstamped.card_le_two hpurged).trans d'.sb.two_le_agedBound
  | begun hsame hst hst' =>
    have hbound : d.sb.agedBound = 2 := by rw [Superblock.agedBound, hst]; rfl
    have hbound' : d'.sb.agedBound = 3 := if_pos hst'
    rw [hsame, hbound']
    exact h.memory.card_le_aged.trans (Nat.succ_le_succ (h.aged.trans_eq hbound))
  | ftExtension hsame hst =>
    have hbound : d.sb.agedBound = 2 := by
      rw [Superblock.agedBound]
      rcases hst with hst | hst <;> rw [hst] <;> rfl
    rw [hsame]
    refine le_trans ?_ d'.sb.two_le_agedBound
    by_cases hpurged : Purged d.sb.snapshots d.ctl.currGen d.sb.lastSecuredGeneration
    · exact h.memory.card_le_two hpurged
    · -- nothing was written since the last securing
      refine (Finset.card_le_card fun i hi => ?_).trans (h.aged.trans_eq hbound)
      rw [mem_agedSnaps]
      refine ⟨hi, ?_⟩
      have hv := (mem_internalSnaps.mp hi).1
      refine lt_of_le_of_ne (h.memory.gen_le i hv) fun hg => hC.1 ?_
      obtain rfl := h.memory.current i hv hg
      exact ⟨hi, hg, hpurged⟩

/-- A write takes the only slot of its generation. -/
theorem Superblock.Stamped.write {sb sb' : Superblock} {currGen pba : ℕ} {hash : Hash}
    {slot : SnapshotsIndex} (h : sb.Stamped currGen)
    (hslot : writtenSlot sb currGen = some slot)
    (hsnaps : sb'.snapshots = Function.update sb.snapshots slot
      (writtenSnapshot sb currGen pba hash))
    (hcurr : sb'.currSnap = slot) : sb'.Stamped currGen := by
  refine h.put hcurr (by rw [hsnaps, Function.update_self]; rfl)
    (fun i hi => by rw [hsnaps, Function.update_of_ne hi]) fun i hi hv hg => hi ?_
  obtain rfl := h.current i hv hg
  have hnot : ¬ sb.curr.gen < currGen := not_lt.mpr (Eq.ge hg)
  unfold writtenSlot at hslot
  rw [if_neg hnot] at hslot
  exact Option.some.inj hslot

/-- What a write puts into the table is not from before the current
generation. -/
theorem agedSnaps_write {sb sb' : Superblock} {currGen pba : ℕ} {hash : Hash}
    {slot : SnapshotsIndex}
    (hsnaps : sb'.snapshots = Function.update sb.snapshots slot
      (writtenSnapshot sb currGen pba hash)) :
    agedSnaps sb'.snapshots currGen ⊆ agedSnaps sb.snapshots currGen := by
  intro i hi
  rw [mem_agedSnaps, mem_internalSnaps, hsnaps] at hi
  rw [mem_agedSnaps, mem_internalSnaps]
  by_cases hs : i = slot
  · rw [hs, Function.update_self] at hi
    exact absurd hi.2 (lt_irrefl currGen)
  · rw [Function.update_of_ne hs] at hi
    exact hi

/-- A write leaves the state alone. -/
theorem Device.state_of_write {d d' : Device P} {vba : ℕ} {data : P.Block} {mt : MetaTree}
    (h : d.step (.write vba data mt) = some d') : d'.sb.state = d.sb.state := by
  obtain ⟨res, hres, rfl⟩ := write_spec h
  obtain ⟨walk, alloc, s', hash, slot, -, -, -, -, -, rfl⟩ := writeVba_spec hres
  rfl

/-- **A restart takes up the table of a slot**, with a generation after all of
its snapshots. -/
theorem Device.slotsInv_of_restart {d d' : Device P}
    (h : ∀ j, (d.slots j).Valid → (d.slots j).TableSecured)
    (hctl : executeInitialize P d.slots = some d'.ctl) (hslots : d'.slots = d.slots) :
    d'.SlotsInv := by
  obtain ⟨job, hjob, hsb, hidx, hgen⟩ := executeInitialize_spec hctl
  obtain ⟨hf, hinv⟩ := selectSuperblock_spec hjob
  obtain ⟨-, hv, hg⟩ := hinv.found hf
  obtain ⟨hsnaps, hcurr, -, hstate⟩ := adoptSuperblock_snapshots hsb
  obtain ⟨⟨g, hlt, hslot⟩, hcard⟩ := h job.sbIdx hv
  obtain ⟨newest, hnewest, hng⟩ := Option.map_eq_some_iff.mp hg
  obtain ⟨hnv, hnle⟩ := newestSnapshotIdx_spec hnewest
  rw [hng] at hnle
  have hjg : job.generation ≤ g := by
    rw [← hng]
    exact hslot.gen_le newest hnv
  have hnext : job.generation < d'.ctl.currGen := by
    rw [hgen, nextGeneration_of_lt (hjg.trans_lt hlt)]
    exact Nat.lt_succ_self _
  have hmem : (d.slots job.sbIdx).Stamped d'.ctl.currGen :=
    ⟨fun i hi => (hnle i hi).trans hnext.le,
      fun i hi heq => absurd (hnle i hi) (by rw [heq]; exact not_le.mpr hnext), hslot.inj⟩
  refine ⟨hmem.of_snapshots hsnaps hcurr, ?_, by rw [hslots]; exact h⟩
  have hbound : d'.sb.agedBound = (d.slots job.sbIdx).agedBound := by
    unfold Superblock.agedBound Device.sb
    rw [hstate]
  rw [← hsnaps, ← hbound] at hcard
  exact (Finset.card_le_card agedSnaps_subset).trans hcard

/-- **Every action under the condition keeps the invariant.** -/
theorem Device.SlotsInv.step {d d' : Device P} {a : Action P} (h : d.SlotsInv)
    (hC : d.SparesSlots a) (hstep : d.step a = some d') : d'.SlotsInv := by
  cases Device.effect_of_step hstep with
  | write hslot hsnaps hcurr hlast hgen hidx hslots hsecured =>
    have hbound : d'.sb.agedBound = d.sb.agedBound := by
      unfold Superblock.agedBound
      rw [Device.state_of_write hstep]
    refine ⟨?_, ?_, by rw [hslots]; exact h.slots⟩
    · rw [hgen]
      exact h.memory.write hslot hsnaps hcurr
    · rw [hgen, hbound]
      exact (Finset.card_le_card (agedSnaps_write hsnaps)).trans h.aged
  | notFound => exact h
  | restart hctl hslots hsecured => exact Device.slotsInv_of_restart h.slots hctl hslots
  | @secured _ _ sb skipPrevKey hprep hctl hslots hsecured =>
    obtain ⟨hstamped, hnext⟩ := Device.stamped_of_secured hprep hctl h.memory hC.2
    have hcard := h.card_secured hC (Device.upkeep_of_step hstep hprep hctl) hstamped
    refine ⟨hstamped.tick hnext, ?_, fun j hj => ?_⟩
    · rw [hstamped.aged_tick hnext]
      exact hcard
    · rw [hslots] at hj ⊢
      by_cases hji : j = d.ctl.sbIdx
      · rw [hji, Function.update_self]
        unfold Device.sb at hcard
        rw [hctl] at hcard
        exact ⟨⟨_, hC.2, (hprep.stamped h.memory).of_snapshots rfl rfl⟩, hcard⟩
      · rw [Function.update_of_ne hji] at hj ⊢
        exact h.slots j hj

/-- The initializer's superblock has one snapshot. -/
theorem InitialSuperblock.eq_currSnap {ct : SuperblockCiphertext} (h : InitialSuperblock ct)
    {i : SnapshotsIndex} (hi : (ct.snapshots i).valid = true) : i = ct.currSnap := by
  by_contra hne
  exact absurd hi (by simp [h.other_invalid i hne])

/-- The table of a new image. -/
theorem InitialSuperblock.tableSecured {ct : SuperblockCiphertext} (h : InitialSuperblock ct) :
    ct.TableSecured where
  stamped :=
    ⟨0, by decide, fun i hi => by rw [h.eq_currSnap hi]; exact h.curr_gen.le,
      fun i hi _ => h.eq_currSnap hi,
      fun i j hi hj _ => (h.eq_currSnap hi).trans (h.eq_currSnap hj).symm⟩
  card_le := by
    have hone : internalSnaps ct.snapshots ⊆ {ct.currSnap} := fun i hi =>
      Finset.mem_singleton.mpr (h.eq_currSnap (mem_internalSnaps.mp hi).1)
    exact (Finset.card_le_card hone).trans (one_le_two.trans ct.two_le_agedBound)

/-- The invariant holds on a fresh device. -/
theorem Device.Fresh.slotsInv {d : Device P} (h : d.Fresh) : d.SlotsInv := by
  refine Device.slotsInv_of_restart (d := d) (fun j hj => ?_) h.ctl rfl
  by_cases hj0 : j = 0
  · rw [hj0]
    exact h.slots.first.tableSecured
  · exact absurd hj (h.slots.other j hj0)

/-! ## Runs

From the bound of the invariant to the slots that are free. -/

/-- **The table does not overflow from internal snapshots**: there are fewer
than a bound, so as long as the kept ones leave that many slots, the search of
the write path for an invalid slot succeeds. -/
structure Device.SlotsFree (d : Device P) (bound : ℕ) : Prop where
  /-- There are less internal snapshots than the bound. -/
  internal_lt : (internalSnaps d.sb.snapshots).card < bound
  /-- A write finds a slot, if the kept ones leave as many. -/
  found : (keptSnaps d.sb.snapshots).card + bound ≤ superblockNrOfSnapshots →
    ∃ i, idxOfAnyInvalidSnap d.sb.snapshots = some i

/-- There are less than five internal snapshots, the current one among them. -/
theorem Device.SlotsInv.slotsFree {d : Device P} (h : d.SlotsInv) : d.SlotsFree 5 := by
  have hcard : (internalSnaps d.sb.snapshots).card < 5 := by
    have hle := h.memory.card_le_aged.trans (Nat.succ_le_succ
      (h.aged.trans d.sb.agedBound_le_three))
    exact Nat.lt_succ_of_le hle
  refine ⟨hcard, fun hkept => exists_idxOfAnyInvalidSnap ?_⟩
  rw [Nat.add_comm]
  exact lt_of_lt_of_le (Nat.add_lt_add_left hcard _) hkept

/-- **The snapshot table does not overflow**, in every state of every run from a
fresh device in which no call of an extension of the free tree leaks a slot and
the generations are not used up. -/
theorem slotsFree_of_run {d d' : Device P} (hfresh : d.Fresh)
    (hrun : Device.Run Device.SparesSlots d d') : d'.SlotsFree 5 :=
  (hrun.invariant (fun _ _ _ hI hC hstep => hI.step hC hstep) hfresh.slotsInv).slotsFree

/-- A run that begins an extension of the free tree after a write. -/
theorem slotsFree_sample :
    (Runs.after Device.step Device.SparesSlots Device.sample
      [.write 0 Platform.sample.zero TrackedDevice.sampleMetaTree,
        .ftExtensionStep 8 TrackedDevice.sampleMetaTree]).SlotsFree 5 :=
  slotsFree_of_run Device.sample_fresh (Runs.Run.after (by decide))

/-- **A call that leaks a slot adds an internal snapshot from before the current
generation**, where any of the purging actions would have left two at most. -/
theorem Device.aged_of_leaksSlot {d d' : Device P} {nrOfBlks : ℕ} {mt : MetaTree}
    (h : d.sb.Stamped d.ctl.currGen) (hlt : d.ctl.currGen < generationLast)
    (hleak : d.LeaksSlot) (hstep : d.step (.ftExtensionStep nrOfBlks mt) = some d') :
    (agedSnaps d'.sb.snapshots d'.ctl.currGen).card
      = (agedSnaps d.sb.snapshots d.ctl.currGen).card + 1 := by
  have hsame := (internalSnaps_ftExtensionStep hstep).1
  cases effect_of_step hstep with
  | secured hprep hctl =>
    obtain ⟨hstamped, hnext⟩ := stamped_of_secured hprep hctl h hlt
    rw [hstamped.aged_tick hnext, hsame]
    exact h.card_eq_aged hleak.1 hleak.2.1

/-- A write raises when it needs a slot and all are taken. -/
theorem Device.write_eq_none {d : Device P} (hgen : d.sb.curr.gen < d.ctl.currGen)
    (hfull : ∀ i, (d.sb.snapshots i).valid = true) (vba : ℕ) (data : P.Block) (mt : MetaTree) :
    d.step (.write vba data mt) = none := by
  refine Option.eq_none_iff_forall_ne_some.mpr fun d' h => ?_
  cases effect_of_step h with
  | secured hprep => exact absurd rfl hprep.operation_ne_none
  | @write _ _ _ _ slot _ _ hslot =>
    rw [writtenSlot, if_pos hgen] at hslot
    have hinvalid := idxOfAnyInvalidSnap_spec hslot
    rw [hfull] at hinvalid
    exact absurd hinvalid (by decide)

/-- A write, and a call of an extension of the free tree by some blocks. -/
def sampleLeak (nrOfBlks : ℕ) : List (Action Platform.sample) :=
  [.write 0 Platform.sample.zero TrackedDevice.sampleMetaTree,
    .ftExtensionStep nrOfBlks TrackedDevice.sampleMetaTree]

/-- 47 writes to the same block, with a call of an extension of the free tree
after each: every two calls are a request by 8 or 9 blocks. -/
def sampleLeaks : List (Action Platform.sample) :=
  (List.replicate 11 (sampleLeak 8 ++ sampleLeak 8 ++ sampleLeak 9 ++ sampleLeak 9)).flatten
    ++ (sampleLeak 8 ++ sampleLeak 8 ++ sampleLeak 9)

/-- They leave a table full of internal snapshots. -/
theorem sampleLeaks_full :
    ((sampleLeaks.foldlM Device.step Device.sample).any fun d => decide
      ((∀ i, (d.sb.snapshots i).valid = true ∧ (d.sb.snapshots i).keep = false)
        ∧ d.sb.curr.gen < d.ctl.currGen)) = true := by
  decide +kernel

/-- **The table overflows**: a run reaches a state without a kept snapshot in
which every write raises, so no bound that leaves a slot holds in all states. -/
theorem not_slotsFree_sample :
    Device.sample.Fresh
      ∧ (∃ d', Device.Run (fun _ _ => True) Device.sample d' ∧ keptSnaps d'.sb.snapshots = ∅
        ∧ ∀ vba data mt, d'.step (.write vba data mt) = none)
      ∧ ¬ ∃ bound ≤ superblockNrOfSnapshots,
          ∀ d', Device.Run (fun _ _ => True) Device.sample d' → d'.SlotsFree bound := by
  obtain ⟨d', hd', hfull⟩ := (Option.any_eq_true _ _).mp sampleLeaks_full
  obtain ⟨hfull, hgen⟩ := of_decide_eq_true hfull
  have hrun : Device.Run (fun _ _ => True) Device.sample d' := Runs.Run.of_foldlM sampleLeaks hd'
  have hkept : keptSnaps d'.sb.snapshots = ∅ := by
    refine Finset.eq_empty_of_forall_notMem fun i hi => ?_
    exact Bool.false_ne_true ((hfull i).2.symm.trans (mem_keptSnaps.mp hi).2)
  refine ⟨Device.sample_fresh, ⟨d', hrun, hkept, fun vba data mt =>
    Device.write_eq_none hgen (fun i => (hfull i).1) vba data mt⟩, ?_⟩
  rintro ⟨bound, hbound, hfree⟩
  obtain ⟨i, hi⟩ := (hfree d' hrun).found (by rw [hkept]; simpa using hbound)
  exact Bool.false_ne_true ((idxOfAnyInvalidSnap_spec hi).symm.trans (hfull i).1)

end Cbe
