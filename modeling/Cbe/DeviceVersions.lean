import Cbe.IntactDevice
import Cbe.Support.VersionedStore

/-!
# The device is a store with versions

What a user sees of the device is what reads return: through the current snapshot its
current content, and through the id of another snapshot the content that this snapshot
stands for (`Device.versions`). As long as the device is intact it behaves as a store with
versions: a write changes the current content at its address, no other action changes a
content, and a snapshot is put aside with the content of its time (`Device.versions_step`,
`Device.versions_run`). The current snapshot has an id, too. What is read through it is the
current content, and settled only when the snapshot is of an earlier generation than the one
that is written now, as it is after a request that secures: then the next write leaves it
behind, and its id keeps the content (`Device.read_snapshot`).

A write in the course of a rekeying has to stay below the address that is next. What one
at that address or above leaves is not the data (`Device.read_write_ahead`).
-/

namespace Cbe

open StoreHistory

variable {P : Platform}

/-- The accesses of an action. -/
def Action.log : Action P → List (Access ℕ (Option P.Block))
  | .write vba data _ => [.write vba (some data)]
  | _ => []

/-- The slot of the only valid snapshot of a generation. -/
theorem snapSlotForId_eq_some {snaps : Snapshots} {i : SnapshotsIndex}
    (hv : (snaps i).valid = true)
    (h : ∀ j, (snaps j).valid = true → (snaps j).gen = (snaps i).gen → j = i) :
    snapSlotForId snaps (snaps i).gen = some i := by
  unfold snapSlotForId
  cases hfind : (List.finRange superblockNrOfSnapshots).find?
      fun j => (snaps j).valid && (snaps j).gen == (snaps i).gen with
  | none =>
    have := List.find?_eq_none.mp hfind i (List.mem_finRange i)
    exact absurd hv (by simpa using this)
  | some j =>
    have hj := List.find?_some hfind
    rw [Bool.and_eq_true, beq_iff_eq] at hj
    rw [h j hj.1 hj.2]

/-- A slot for an id holds a valid snapshot with it. -/
theorem snapSlotForId_spec {snaps : Snapshots} {id : ℕ} {i : SnapshotsIndex}
    (h : snapSlotForId snaps id = some i) : (snaps i).valid = true ∧ (snaps i).gen = id := by
  have := List.find?_some h
  simpa using this

namespace Device

variable {d d' : Device P} {v g : ℕ} {i : SnapshotsIndex}

/-- **What reads of the device return**, through the current snapshot and through the ids
of the others. The current snapshot has the stamp of its generation, and the clock shows the
generation that is written now. -/
def versions (d : Device P) : VersionedStore ℕ (Option P.Block) ℕ where
  current v := readVba d.store d.sb 0 v
  stamp := d.sb.curr.gen
  clock := d.ctl.currGen
  past g := (snapSlotForId d.sb.snapshots g).bind fun i =>
    if i ≠ d.sb.currSnap ∧ g ≠ 0 then some fun v => readVba d.store d.sb g v else none

namespace Intact

/-- The snapshots have different generations. -/
theorem gen_injOn (h : d.Intact) {i j : SnapshotsIndex} (hi : (d.sb.snapshots i).valid = true)
    (hj : (d.sb.snapshots j).valid = true)
    (heq : (d.sb.snapshots i).gen = (d.sb.snapshots j).gen) : i = j :=
  h.sound.ordered.gen_injOn i j hi hj heq

/-- **A read through the current snapshot** returns what its tree stores. -/
theorem read_current (h : d.Intact) (v : ℕ) :
    readVba d.store d.sb 0 v = d.stored d.sb.currSnap v :=
  readVba_eq h.sound h.addressed (if_pos rfl) h.sound.tracked_cur

/-- **A read through another snapshot** returns what the tree of that one stores. -/
theorem read_gen (h : d.Intact) (htr : (d.sb.trees d.store).Tracked i)
    (hgen : (d.sb.snapshots i).gen = g) (h0 : g ≠ 0) (v : ℕ) :
    readVba d.store d.sb g v = d.stored i v := by
  refine readVba_eq h.sound h.addressed ?_ htr
  unfold snapSlotIdx
  rw [if_neg h0, ← hgen]
  exact snapSlotForId_eq_some htr.1 fun j hj heq => h.gen_injOn hj htr.1 heq

/-- **A read succeeds** at every address of the snapshot. -/
theorem read_isSome (h : d.Intact) {snapId : ℕ} (hslot : snapSlotIdx d.sb snapId = some i)
    (htr : (d.sb.trees d.store).Tracked i) :
    (readVba d.store d.sb snapId v).isSome ↔ v < (d.sb.snapshots i).nrOfLeafs := by
  rw [readVba_eq h.sound h.addressed hslot htr]
  exact Trees.stored_isSome

/-- **The versions** are what the trees of the snapshots other than the current one store. -/
theorem past_iff (h : d.Intact) {c : ℕ → Option P.Block} :
    d.versions.past g = some c ↔ ∃ i, i ≠ d.sb.currSnap ∧ (d.sb.trees d.store).Tracked i
      ∧ (d.sb.snapshots i).gen = g ∧ c = d.stored i := by
  constructor
  · intro hpast
    obtain ⟨i, hslot, hpast⟩ := Option.bind_eq_some_iff.mp hpast
    obtain ⟨⟨hi, h0⟩, hc⟩ := Option.ite_none_right_eq_some.mp hpast
    obtain ⟨hv, hgen⟩ := snapSlotForId_spec hslot
    have htr : (d.sb.trees d.store).Tracked i := ⟨hv, Or.inr (hgen.trans_ne h0)⟩
    refine ⟨i, hi, htr, hgen, ?_⟩
    rw [← Option.some.inj hc]
    funext v
    exact h.read_gen htr hgen h0 v
  · rintro ⟨i, hi, htr, hgen, rfl⟩
    have h0 : g ≠ 0 := hgen ▸ htr.2.resolve_left hi
    refine Option.bind_eq_some_iff.mpr ⟨i, ?_, ?_⟩
    · rw [← hgen]
      exact snapSlotForId_eq_some htr.1 fun j hj heq => h.gen_injOn hj htr.1 heq
    · rw [if_pos ⟨hi, h0⟩]
      exact congrArg some (funext fun v => h.read_gen htr hgen h0 v)

/-- What was put aside is older than what is current. -/
theorem dated (h : d.Intact) : d.versions.Dated := by
  intro g c hg
  obtain ⟨i, hi, htr, rfl, -⟩ := h.past_iff.mp hg
  exact h.sound.ordered.gen_lt i hi htr.1

end Intact

/-! ## One action

An action changes the content at the address that it writes, and puts snapshots
aside. -/

/-- **What keeps what is stored keeps the versions**, or loses some. -/
theorem Keeps.versions (hk : d.Keeps d') (h : d.Intact) (h' : d'.Intact)
    (hgen : d.ctl.currGen ≤ d'.ctl.currGen) : VersionedStore.Step d.versions [] d'.versions where
  current := by
    funext v
    show readVba d'.store d'.sb 0 v = readVba d.store d.sb 0 v
    rw [h'.read_current, h.read_current, ← hk.currSnap]
    exact hk.stored _ v h'.sound.tracked_cur
  stamp_le := hk.gen_le
  clock_le := hgen
  written := Or.inl rfl
  past g c hg := by
    obtain ⟨i, hi, htr, hgen, rfl⟩ := h'.past_iff.mp hg
    rw [hk.currSnap] at hi
    obtain ⟨htr', hgen'⟩ := hk.other i hi htr
    refine Or.inl (h.past_iff.mpr ⟨i, hi, htr', hgen'.symm.trans hgen, ?_⟩)
    exact funext fun v => hk.stored i v htr

/-- **A write stores the data** at its address in the current snapshot, and nothing
elsewhere. -/
theorem Intact.write_stored (h : d.Intact) (hlast : d.ctl.currGen < generationLast) {vba : ℕ}
    {data : P.Block} {mt : MetaTree}
    (hfront : d.sb.state = .rekeying → d.sb.rekeyingVba = 0 ∨ vba < d.sb.rekeyingVba)
    (hd : d.write vba data mt = some d') (v : ℕ) :
    (d'.stored d'.sb.currSnap v = if v = vba then
        some (P.decrypt (selectedKeyId d.sb vba) (P.encrypt d.sb.currentKey.id data))
      else d.stored d.sb.currSnap v)
      ∧ ∀ i, i ≠ d'.sb.currSnap → (d'.sb.trees d'.store).Tracked i →
        (d.sb.trees d.store).Tracked i ∧ d'.sb.snapshots i = d.sb.snapshots i
          ∧ d'.stored i v = d.stored i v := by
  obtain ⟨slot, hw⟩ := wrote hd
  obtain ⟨hvba, walk, newPbas, hpath, hleaf⟩ := h.write_path hlast hfront hd
  have hf := h.sound.forest
  have hcomp := h.sound.complete
  have htr' : (d'.sb.trees d'.store).Tracked d'.sb.currSnap :=
    ⟨hw.valid.trans h.curr_valid, Or.inl rfl⟩
  refine ⟨?_, fun i hi htr => ?_⟩
  · unfold stored
    rw [hw.keyState]
    split_ifs with hv
    · rw [hv]
      have hon := hpath.stored_on hf hw.nrOfLeafs hvba h.order.currGen_ne_zero
      rw [d.sb.keyId_keyState] at hon
      rw [← hleaf]
      exact hon
    · rw [hpath.stored_off hf hcomp hw.nrOfLeafs htr' fun hon => hv hon.2.2]
      exact congrArg (fun i => Trees.stored _ _ i v) CurrentPath.source_cur
  · obtain ⟨htr₀, hsnap⟩ := hpath.snaps i hi htr
    refine ⟨htr₀, hsnap, ?_⟩
    unfold stored
    rw [hw.keyState, hpath.stored_off hf hcomp hw.nrOfLeafs htr fun hon => hi hon.1,
      CurrentPath.source_of_ne hi]

/-- **A write is one of the versioned store**, if it does not overtake a rekeying. -/
theorem Intact.write_versions (h : d.Intact) (hlast : d.ctl.currGen < generationLast) {vba : ℕ}
    {data : P.Block} {mt : MetaTree}
    (hfront : d.sb.state = .rekeying → vba < d.sb.rekeyingVba)
    (hd : d.write vba data mt = some d') :
    VersionedStore.Step d.versions [.write vba (some data)] d'.versions := by
  have hfront' := fun hst => Or.inr (a := d.sb.rekeyingVba = 0) (hfront hst)
  have h' := h.write hlast hfront' hd
  obtain ⟨slot, hw⟩ := wrote hd
  have hkey : selectedKeyId d.sb vba = d.sb.currentKey.id := by
    unfold selectedKeyId
    rw [if_neg]
    rintro ⟨hst, hle⟩
    have := hfront hst
    omega
  have hstored := fun v => h.write_stored hlast hfront' hd v
  rw [hkey, P.decrypt_encrypt] at hstored
  exact {
    current := by
      funext v
      show readVba d'.store d'.sb 0 v
        = Function.update (fun v => readVba d.store d.sb 0 v) vba (some data) v
      rw [h'.read_current, (hstored v).1, Function.update_apply, h.read_current]
    stamp_le := h.curr_gen_le.trans_eq hw.gen.symm
    clock_le := hw.currGen.ge
    written := Or.inr hw.gen
    past := fun g c hg => by
      obtain ⟨i, hi, htr, hgen, rfl⟩ := h'.past_iff.mp hg
      have hsame := fun v => (hstored v).2 i hi htr
      obtain ⟨htr₀, hsnap, -⟩ := hsame 0
      have hgen' : (d.sb.snapshots i).gen = g := by rw [← hsnap, hgen]
      by_cases hic : i = d.sb.currSnap
      · refine Or.inr ⟨?_, ?_, ?_⟩
        · rw [← hgen', hic]
          rfl
        · rw [← hgen]
          refine (hw.gen_lt h ?_ htr.1).trans_eq hw.gen.symm
          rw [← hw.currSnap]
          exact hi
        · funext v
          show d'.stored i v = readVba d.store d.sb 0 v
          rw [(hsame v).2.2, h.read_current, hic]
      · refine Or.inl (h.past_iff.mpr ⟨i, hic, htr₀, hgen', ?_⟩)
        exact funext fun v => (hsame v).2.2 }

/-- **A write at the front of a rekeying that has not begun** takes the new key, and reads
take the old one there until the rekeying gets to the address: what they return is not the
data. -/
theorem read_write_ahead (h : d.Intact) (hlast : d.ctl.currGen < generationLast) {vba : ℕ}
    {data : P.Block} {mt : MetaTree} (hst : d.sb.state = .rekeying)
    (hfront : d.sb.rekeyingVba = 0) (hd : d.write vba data mt = some d') (v : ℕ) :
    readVba d'.store d'.sb 0 v = if v = vba then
        some (P.decrypt d.sb.previousKey.id (P.encrypt d.sb.currentKey.id data))
      else readVba d.store d.sb 0 v := by
  have hfront' := fun _ : d.sb.state = .rekeying => Or.inl (b := vba < d.sb.rekeyingVba) hfront
  have h' := h.write hlast hfront' hd
  have hkey : selectedKeyId d.sb vba = d.sb.previousKey.id := by
    unfold selectedKeyId
    rw [if_pos ⟨hst, hfront ▸ Nat.zero_le vba⟩]
  rw [h'.read_current, h.read_current, (h.write_stored hlast hfront' hd v).1, hkey]

/-- The sample device at the beginning of a rekeying. -/
theorem read_write_ahead_sample :
    let d := Runs.after Device.step InPlace sample [.sync, .initializeRekeying 3]
    ∃ d', d.write 1 (sampleBlock 7) sampleMeta = some d'
      ∧ ∀ v, readVba d'.store d'.sb 0 v = if v = 1 then
          some (Platform.sample.decrypt 1 (Platform.sample.encrypt 2 (sampleBlock 7)))
        else readVba d.store d.sb 0 v := by
  intro d
  have hsome : (d.write 1 (sampleBlock 7) sampleMeta).isSome = true := by decide +kernel
  obtain ⟨d', hd'⟩ := Option.isSome_iff_exists.mp hsome
  have hd : d.Intact := sample_intact.run (Runs.Run.after (by decide +kernel))
  exact ⟨d', hd', read_write_ahead hd (by decide +kernel) (by decide +kernel)
    (by decide +kernel) hd'⟩

/-! ## Runs

The steps of the two stores go side by side. -/

/-- **The condition on an action** for the data: it is in place, and a write while the
device is rekeyed stays below the address that is next. -/
def Orderly (d : Device P) (a : Action P) : Prop :=
  (match a with
    | .write vba _ _ => d.sb.state = .rekeying → vba < d.sb.rekeyingVba
    | _ => True)
    ∧ d.InPlace a

instance (d : Device P) : (a : Action P) → Decidable (d.Orderly a)
  | .write _ _ _ => inferInstanceAs (Decidable ((_ → _) ∧ d.InPlace _))
  | .sync | .createSnapshot | .discardSnapshot _ | .initializeRekeying _ | .rekeyVba _
  | .vbdExtensionStep _ _ | .ftExtensionStep _ _ | .restart _ _ =>
    inferInstanceAs (Decidable (True ∧ d.InPlace _))

/-- No action but a restart takes the generation back. -/
theorem currGen_le_of_step {a : Action P} (hlast : d.ctl.currGen < generationLast)
    (ha : ∀ store free, a ≠ .restart store free) (hstep : d.step a = some d') :
    d.ctl.currGen ≤ d'.ctl.currGen := by
  cases Device.effect_of_step hstep with
  | write _ _ _ _ hgen => exact hgen.ge
  | notFound => exact le_rfl
  | restart => exact absurd rfl (ha _ _)
  | @secured _ _ sb _ _ hctl =>
    rw [hctl]
    show d.ctl.currGen ≤ nextGeneration d.ctl.currGen
    rw [nextGeneration_of_lt hlast]
    exact Nat.le_succ _

/-- **Every orderly action is one of the versioned store.** -/
theorem Intact.versions_step (h : d.Intact) {a : Action P} (hC : d.Orderly a)
    (hstep : d.step a = some d') : VersionedStore.Step d.versions a.log d'.versions := by
  cases a with
  | write vba data mt => exact h.write_versions hC.2.2 hC.1 hstep
  | restart => exact hC.2.1.elim
  | _ =>
    obtain ⟨h', hk⟩ := h.step_other hC.2 (by simp) hstep
    exact hk.versions h h' (currGen_le_of_step hC.2.2 (by simp) hstep)

/-- A run of orderly actions is a run of the versioned store. -/
theorem versions_run {l : List (Action P)} (htrace : Runs.Trace Device.step Orderly d l d')
    (h : d.Intact) : VersionedStore.Run d.versions (l.flatMap Action.log) d'.versions := by
  induction htrace with
  | nil => exact .nil _
  | cons a l hC hstep _ ih =>
    rw [List.flatMap_cons]
    exact .cons (h.versions_step hC hstep) (ih (h.step hC.2 hstep))

/-- **An intact device is a store with versions**: a run of orderly actions keeps it intact
and is a run of the versioned store, with the writes of it. -/
theorem refines_versions {l : List (Action P)}
    (htrace : Runs.Trace Device.step Orderly d l d') (h : d.Intact) :
    d'.Intact ∧ VersionedStore.Run d.versions (l.flatMap Action.log) d'.versions :=
  ⟨h.run (htrace.run.mono fun _ _ hC => hC.2), versions_run htrace h⟩

/-- A rekeying of the sample device, with a write in between. -/
theorem refines_versions_sample :
    let d := Runs.after Device.step Orderly sample sampleRekeying
    d.Intact ∧ VersionedStore.Run sample.versions (sampleRekeying.flatMap Action.log) d.versions :=
  refines_versions (Runs.Trace.after (by decide +kernel)) sample_intact

/-- **A read returns what was written last** in the run, and what was read before it where
nothing was written. -/
theorem read_latest {l : List (Action P)} (htrace : Runs.Trace Device.step Orderly d l d')
    (h : d.Intact) (vba : ℕ) :
    Latest (fun v => readVba d.store d.sb 0 v) (l.flatMap Action.log) vba
      (readVba d'.store d'.sb 0 vba) := by
  have hcurr := (versions_run htrace h).current
  have heq : readVba d'.store d'.sb 0 vba
      = contentAfter (fun v => readVba d.store d.sb 0 v) (l.flatMap Action.log) vba :=
    congrFun hcurr vba
  rw [heq]
  exact latest_contentAfter

/-- What is read after it. -/
theorem read_latest_sample :
    let d := Runs.after Device.step Orderly sample sampleRekeying
    Latest (fun v => readVba sample.store sample.sb 0 v) (sampleRekeying.flatMap Action.log) 0
      (readVba d.store d.sb 0 0) :=
  read_latest (Runs.Trace.after (by decide +kernel)) sample_intact 0

/-- **What is read through the id of a snapshot** is the content under its generation, be the
snapshot the current one or another. -/
theorem Intact.has_of_slot (h : d.Intact) (hslot : snapSlotForId d.sb.snapshots g = some i)
    (h0 : g ≠ 0) : d.versions.Has g fun v => readVba d.store d.sb g v := by
  obtain ⟨hv, hgen⟩ := snapSlotForId_spec hslot
  by_cases hi : i = d.sb.currSnap
  · refine Or.inr ⟨?_, funext fun v => ?_⟩
    · rw [← hgen, hi]
      rfl
    · show readVba d.store d.sb g v = readVba d.store d.sb 0 v
      rw [h.read_gen ⟨hv, Or.inl hi⟩ hgen h0, h.read_current, hi]
  · refine Or.inl ?_
    show (snapSlotForId d.sb.snapshots g).bind _ = _
    rw [hslot, Option.bind_some, if_pos ⟨hi, h0⟩]

/-- **A snapshot does not change**: what is read through its id stays the same, whatever is
written, discarded or rekeyed in between. The current snapshot is among them unless it is of
the generation that is written now. -/
theorem read_snapshot {l : List (Action P)} (htrace : Runs.Trace Device.step Orderly d l d')
    (h : d.Intact) {i j : SnapshotsIndex} (h0 : g ≠ 0)
    (hslot : snapSlotForId d.sb.snapshots g = some i)
    (hslot' : snapSlotForId d'.sb.snapshots g = some j)
    (hsettled : i = d.sb.currSnap → d.sb.curr.gen < d.ctl.currGen) (vba : ℕ) :
    readVba d'.store d'.sb g vba = readVba d.store d.sb g vba := by
  obtain ⟨h', hrun⟩ := refines_versions htrace h
  refine congrFun (hrun.has_eq h.dated (h.has_of_slot hslot h0) (fun hstamp => ?_)
    (h'.has_of_slot hslot' h0)) vba
  have hcur : d.sb.curr.gen = g := hstamp.symm
  obtain ⟨hv, hgen⟩ := snapSlotForId_spec hslot
  have hi : i = d.sb.currSnap := h.gen_injOn hv h.curr_valid (hgen.trans hcur.symm)
  exact hcur.symm.trans_lt (hsettled hi)

/-- The snapshot that the sample device keeps is the current one at first. It is read before
and after the rekeying. -/
theorem read_snapshot_sample :
    let d := Runs.after Device.step Orderly sample (sampleRekeying.take 3)
    let d' := Runs.after Device.step Orderly d ((sampleRekeying.drop 3).take 5)
    ∀ vba, readVba d'.store d'.sb 2 vba = readVba d.store d.sb 2 vba := by
  intro d d'
  have hrun : Runs.Run Device.step Orderly sample d := Runs.Run.after (by decide +kernel)
  have hd : d.Intact := sample_intact.run (hrun.mono fun _ _ hC => hC.2)
  exact read_snapshot (i := 1) (j := 1) (Runs.Trace.after (by decide +kernel)) hd (by decide)
    (by decide +kernel) (by decide +kernel) (by decide +kernel)

/-- **A snapshot is the content of its time**: what is read through an id that was not that
of a version before the run is what the current snapshot had after a first part of its
writes; after all of them, if it is the current one at the end. -/
theorem read_snapshot_origin {l : List (Action P)}
    (htrace : Runs.Trace Device.step Orderly d l d') (h : d.Intact) {i : SnapshotsIndex}
    (h0 : g ≠ 0) (hg : d.versions.past g = none)
    (hslot : snapSlotForId d'.sb.snapshots g = some i) :
    d.sb.curr.gen ≤ g ∧ ∃ pre, pre <+: l.flatMap Action.log
      ∧ (fun v => readVba d'.store d'.sb g v)
        = contentAfter (fun v => readVba d.store d.sb 0 v) pre := by
  obtain ⟨h', hrun⟩ := refines_versions htrace h
  rcases hrun.has (h'.has_of_slot hslot h0) with hold | hnew
  · exact absurd (hg.symm.trans hold) (by simp)
  · exact hnew

/-- The snapshot that the sample device has made. -/
theorem read_snapshot_origin_sample :
    let l := sampleRekeying.take 8
    let d := Runs.after Device.step Orderly sample l
    sample.sb.curr.gen ≤ 2 ∧ ∃ pre, pre <+: l.flatMap Action.log
      ∧ (fun v => readVba d.store d.sb 2 v)
        = contentAfter (fun v => readVba sample.store sample.sb 0 v) pre := by
  intro l d
  have hnone : snapSlotForId sample.sb.snapshots 2 = none := by decide +kernel
  have hpast : sample.versions.past 2 = none := by
    unfold versions
    dsimp only
    rw [hnone]
    rfl
  exact read_snapshot_origin (i := 1) (Runs.Trace.after (by decide +kernel)) sample_intact
    (by decide) hpast (by decide +kernel)

end Device

end Cbe
