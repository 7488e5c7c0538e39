import Cbe.CurrentSnapshot

/-!
# What a restart restores

A securing job writes a copy of the superblock that it takes before its end, and
a restart adopts that copy with the keys decrypted. All fields come back as they
were copied (`adoptSuperblock_cipherSuperblock`): the value of the previous key
is not read outside of a rekeying, but it is zero then
(`Superblock.PreviousKeyCleared`). Two things change after the copy was taken,
or are computed from it. The last secured generation advances at the end of the
job, so the copy has it only if the preparation has set it already. And the
current generation of a restart follows the newest snapshot of the copy, which
is the current one only if that is valid. `restores_iff_of_run` says that these
are all.
-/

namespace Cbe

variable {P : Platform}

/-! ## One superblock

The copy is encoded by the trust anchor, and a restart decodes it. -/

/-- Outside of a rekeying the previous key has no value. -/
def Superblock.PreviousKeyCleared (sb : Superblock) : Prop :=
  sb.state ≠ .rekeying → sb.previousKey.value = 0

/-- Outside of a rekeying the previous key is adopted without its value. -/
theorem adoptSuperblock_of_ne_rekeying {ct : SuperblockCiphertext} {sb : Superblock}
    (hst : ct.state ≠ .rekeying) (h : adoptSuperblock P ct = some sb) :
    sb = { initSbWithoutKeyValues ct with
      currentKey := { ct.currentKey with value := P.decryptKey ct.currentKey.value } } := by
  unfold adoptSuperblock at h
  split at h
  · exact absurd h (by simp)
  · next hrekeying => exact absurd hrekeying hst
  · exact (Option.some.inj h).symm

/-- **A superblock is adopted as it was written.** -/
theorem adoptSuperblock_cipherSuperblock {sb sb' : Superblock} {skipPrevKey : Bool}
    (hprev : sb.PreviousKeyCleared) (hskip : skipPrevKey = true → sb.state ≠ .rekeying)
    (h : adoptSuperblock P (cipherSuperblock P skipPrevKey sb) = some sb') : sb' = sb := by
  have hkey : ∀ key : Key, { key with value := P.decryptKey (P.encryptKey key.value) } = key := by
    intro key
    rw [P.decryptKey_encryptKey]
  by_cases hst : sb.state = .rekeying
  · have hfull : skipPrevKey = false := Bool.eq_false_iff.mpr fun hs => hskip hs hst
    unfold adoptSuperblock at h
    rw [show (cipherSuperblock P skipPrevKey sb).state = sb.state from rfl, hst, hfull] at h
    obtain rfl := Option.some.inj h
    show { sb with
      previousKey := { sb.previousKey with
        value := P.decryptKey (P.encryptKey sb.previousKey.value) }
      currentKey := { sb.currentKey with
        value := P.decryptKey (P.encryptKey sb.currentKey.value) } } = sb
    rw [hkey, hkey]
  · have hcleared : { sb.previousKey with value := 0 } = sb.previousKey := by
      rw [← hprev hst]
    have hct : (cipherSuperblock P skipPrevKey sb).state ≠ .rekeying := hst
    rw [adoptSuperblock_of_ne_rekeying hct h]
    show { sb with
      previousKey := { sb.previousKey with value := 0 }
      currentKey := { sb.currentKey with
        value := P.decryptKey (P.encryptKey sb.currentKey.value) } } = sb
    rw [hcleared, hkey]

namespace Prepared

variable {c c' : Control} {op : Operation} {gen : ℕ} {skipPrevKey : Bool}

/-- A preparation leaves the generation and the slot alone. -/
theorem ctl_eq (h : Prepared c op gen skipPrevKey c') :
    c'.currGen = c.currGen ∧ c'.sbIdx = c.sbIdx := by
  cases h with
  | discardSnapshot h =>
    obtain ⟨i, -, rfl⟩ := Option.map_eq_some_iff.mp h
    exact ⟨rfl, rfl⟩
  | _ => exact ⟨rfl, rfl⟩

/-- **A preparation clears the previous key when the rekeying ends**, and the
chain skips the key only then. -/
theorem previousKeyCleared (h : Prepared c op gen skipPrevKey c')
    (hprev : c.sb.PreviousKeyCleared) :
    c'.sb.PreviousKeyCleared ∧ (skipPrevKey = true → c'.sb.state ≠ .rekeying) := by
  have hskip : false = true → c'.sb.state ≠ .rekeying := fun hf => absurd hf (by decide)
  cases h with
  | sync | createSnapshot => exact ⟨hprev, hskip⟩
  | discardSnapshot h =>
    obtain ⟨i, -, rfl⟩ := Option.map_eq_some_iff.mp h
    exact ⟨hprev, hskip⟩
  | initializeRekeying value h =>
    obtain ⟨-, -, rfl⟩ := superblockEnterRekeyingState_spec h
    exact ⟨fun hst => absurd rfl hst, hskip⟩
  | rekeyVba r snaps hst h =>
    obtain ⟨-, rfl⟩ := rekeyVbaInVbdCompleted_spec h
    exact ⟨fun hnot => absurd hst hnot, hskip⟩
  | rekeyLastVba r snaps hst h =>
    exact ⟨fun _ => rfl, fun _ => show SuperblockState.normal ≠ .rekeying by decide⟩
  | enterVbdExtension n hst h | enterFtExtension n hst h =>
    obtain ⟨-, rfl⟩ := enterExtending_spec h
    exact ⟨fun _ => hprev (by rw [hst]; decide), hskip⟩
  | vbdExtensionStep r snaps res hst _ h =>
    obtain ⟨-, -, -, -, -, -, -, -, hkey, -⟩ := vbdExtStepInVbdCompleted_spec h
    refine ⟨fun _ => ?_, hskip⟩
    show _ = (0 : KeyValue)
    rw [show (Superblock.setCurrGen _ _).previousKey = _ from hkey]
    exact hprev (by rw [hst]; decide)
  | ftExtensionStep r root m l res hst _ h =>
    obtain ⟨-, -, -, -, -, -, hkey, -⟩ := ftExtStepInFtCompleted_spec h
    refine ⟨fun _ => ?_, hskip⟩
    rw [show (Superblock.setCurrGen _ _).previousKey = _ from hkey]
    exact hprev (by rw [hst]; decide)

end Prepared

/-- Other slots than the current one are only purged by a sync and a discard. -/
theorem purgeAndStamp_snapshots_of_ne (sb : Superblock) (currGen : ℕ) {i : SnapshotsIndex}
    (hi : i ≠ sb.currSnap) : (purgeAndStamp sb currGen).snapshots i
      = discardDisposableSnapshots sb.snapshots sb.lastSecuredGeneration currGen i :=
  Superblock.setCurrGen_snapshots_of_ne _ _ (show i ≠ Superblock.currSnap _ from hi)

/-- The same for the creation of a snapshot. -/
theorem prepareCreateSnapshot_snapshots_of_ne (c : Control) {i : SnapshotsIndex}
    (hi : i ≠ c.sb.currSnap) : (prepareCreateSnapshot c).sb.snapshots i
      = discardDisposableSnapshots c.sb.snapshots c.sb.lastSecuredGeneration c.currGen i := by
  unfold prepareCreateSnapshot
  rw [Superblock.setCurrGen_snapshots_of_ne (i := i), Superblock.setCurr_snapshots_of_ne (i := i)]
  · exact hi
  · exact hi

/-! ## The device

From one superblock to the actions of a run: an action secures what its job has
prepared, and the control that a restart finds is compared with the device that
the action has left. -/

namespace Device

variable {d₀ d d' : Device P} {a : Action P} {c : Control}

/-- The action secures a superblock: it is neither a write nor a restart, nor a
discard that finds no snapshot. -/
def Secures (d : Device P) : Action P → Prop
  | .write _ _ _ | .restart _ _ => False
  | .discardSnapshot gen => (keptSlotForGen d.sb.snapshots gen).isSome
  | _ => True

/-- **The control restores the device**: it has its superblock, in every field,
and its current generation. -/
structure Restores (c : Control) (d : Device P) : Prop where
  /-- It has the superblock. -/
  sb : c.sb = d.sb
  /-- It has the current generation. -/
  currGen : c.currGen = d.ctl.currGen

/-- **The condition on a securing action** in the state before it: the last
secured generation is set before the superblock is copied or is right already,
and the action keeps the current snapshot alive. -/
def KeepsAll (d : Device P) (a : Action P) : Prop :=
  (∀ op, a.operation = some op → op.AdvancesLate →
    d.sb.lastSecuredGeneration = d.ctl.currGen) ∧ d.KeepsCurrent a

/-- What a securing action does. -/
theorem Secures.prepared (h : d.Secures a) (hstep : d.step a = some d') :
    ∃ op gen skipPrevKey c, a.operation = some op ∧ Prepared d.ctl op gen skipPrevKey c
      ∧ d'.ctl = c.secured
      ∧ d'.slots = Function.update d.slots c.sbIdx (cipherSuperblock P skipPrevKey c.sb) := by
  obtain ⟨op, hop⟩ : ∃ op, a.operation = some op := by
    cases a with
    | write | restart => exact absurd h id
    | _ => exact ⟨_, rfl⟩
  rcases Device.prepared_of_step hstep hop with heq | ⟨gen, skip, c, hprep, hctl, hslots, -⟩
  · -- only a discard that finds nothing leaves the device as it is
    exfalso
    cases Device.effect_of_step hstep with
    | write | restart => exact absurd h id
    | notFound hnone =>
      rw [show d.Secures _ = ((keptSlotForGen _ _).isSome = true) from rfl, hnone] at h
      exact absurd h (by decide)
    | @secured _ _ sb skip hprep hctl _ _ =>
      have hidx : d.ctl.sbIdx + 1 = d.ctl.sbIdx := by
        have hnext := congrArg Control.sbIdx hctl
        rw [heq] at hnext
        exact hnext.symm
      revert hidx
      generalize d.ctl.sbIdx = i
      revert i
      decide
  · exact ⟨op, gen, skip, c, hop, hprep, hctl, hslots⟩

/-- **The step lemma of the previous key.** -/
theorem previousKeyCleared_of_step (h : d.sb.PreviousKeyCleared) (hstep : d.step a = some d') :
    d'.sb.PreviousKeyCleared := by
  by_cases hsec : d.Secures a
  · obtain ⟨op, gen, skip, c, -, hprep, hctl, -⟩ := hsec.prepared hstep
    unfold Device.sb
    rw [hctl]
    exact (hprep.previousKeyCleared h).1
  · cases a with
    | write vba data mt =>
      obtain ⟨res, hres, rfl⟩ := write_spec hstep
      obtain ⟨walk, alloc, s', hash, slot, -, -, -, -, -, rfl⟩ := writeVba_spec hres
      exact h
    | restart store free =>
      obtain ⟨c, hc, rfl⟩ := restart_spec hstep
      obtain ⟨job, -, hsb, -, -⟩ := executeInitialize_spec hc
      intro hst
      have hct : (d.slots job.sbIdx).state ≠ .rekeying := by
        rw [← (adoptSuperblock_snapshots hsb).2.2.2]
        exact hst
      show c.sb.previousKey.value = 0
      rw [adoptSuperblock_of_ne_rekeying hct hsb]
      rfl
    | discardSnapshot gen =>
      have hnone : keptSlotForGen d.sb.snapshots gen = none :=
        Option.not_isSome_iff_eq_none.mp hsec
      have hprep : prepareDiscardSnapshot d.ctl gen = none := by
        unfold prepareDiscardSnapshot
        rw [show keptSlotForGen d.ctl.sb.snapshots gen = none from hnone]
        rfl
      unfold Device.step at hstep
      dsimp only at hstep
      rw [hprep] at hstep
      obtain rfl := Option.some.inj hstep
      exact h
    | _ => exact absurd trivial hsec

/-- A fresh device has no previous key. -/
theorem Fresh.previousKeyCleared (h : d.Fresh) : d.sb.PreviousKeyCleared := by
  obtain ⟨job, hjob, hsb, -, -⟩ := executeInitialize_spec h.ctl
  intro hst
  have hct : (d.slots job.sbIdx).state ≠ .rekeying := by
    rw [← (adoptSuperblock_snapshots hsb).2.2.2]
    exact hst
  show d.ctl.sb.previousKey.value = 0
  rw [adoptSuperblock_of_ne_rekeying hct hsb]
  rfl

/-- **An action that kills the current snapshot leaves only older ones**. -/
theorem gen_lt_of_not_keepsCurrent (hcurr : d.sb.CurrentNewest d.ctl.currGen)
    (hlt : d.ctl.currGen < generationLast) (hkeep : ¬ d.KeepsCurrent a)
    (hstep : d.step a = some d') {i : SnapshotsIndex} (hi : i ≠ d'.sb.currSnap)
    (hv : (d'.sb.snapshots i).valid = true) : (d'.sb.snapshots i).gen < d.ctl.currGen := by
  -- a table in which only the current slot was stamped and no slot became valid
  have hold : ∀ {sb : Superblock}, d'.ctl = { d.ctl with sb := sb }.secured →
      sb.currSnap = d.sb.currSnap →
      (∀ j, j ≠ d.sb.currSnap → (sb.snapshots j).gen = (d.sb.snapshots j).gen
        ∧ ((sb.snapshots j).valid = true → (d.sb.snapshots j).valid = true)) →
      (d'.sb.snapshots i).gen < d.ctl.currGen := by
    intro sb hctl hsnap hsame
    have hsb : d'.sb.snapshots = sb.snapshots ∧ d'.sb.currSnap = sb.currSnap := by
      unfold Device.sb
      rw [hctl]
      exact ⟨rfl, rfl⟩
    rw [hsb.2, hsnap] at hi
    rw [hsb.1] at hv ⊢
    obtain ⟨hgen, hvalid⟩ := hsame i hi
    rw [hgen]
    exact (hcurr.gen_lt i hi (hvalid hv)).trans_le hcurr.gen_le
  unfold KeepsCurrent at hkeep
  cases Device.effect_of_step hstep with
  | write | restart => exact absurd ⟨trivial, hlt⟩ hkeep
  | notFound hnone =>
    refine absurd ⟨fun j hj => ?_, hlt⟩ hkeep
    rw [hnone] at hj
    exact absurd hj (by simp)
  | @secured _ _ sb skipPrevKey hprep hctl hslots hsecured =>
    cases hprep with
    | sync =>
      refine hold hctl rfl fun j hj => ?_
      rw [show (prepareSync d.ctl).sb.snapshots j = _ from
        purgeAndStamp_snapshots_of_ne d.sb d.ctl.currGen hj]
      exact ⟨discardDisposableSnapshots_gen _ _ _ _, discardDisposableSnapshots_valid⟩
    | createSnapshot =>
      refine hold hctl rfl fun j hj => ?_
      rw [prepareCreateSnapshot_snapshots_of_ne d.ctl hj]
      exact ⟨discardDisposableSnapshots_gen _ _ _ _, discardDisposableSnapshots_valid⟩
    | @discardSnapshot gen k hk =>
      refine hold hctl rfl fun j hj => ?_
      rw [purgeAndStamp_snapshots_of_ne (i := j)]
      · refine ⟨?_, fun hjv => ?_⟩
        · rw [discardDisposableSnapshots_gen]
          exact invalidated_gen _ _ _
        · exact ((invalidated_valid_iff _ _ _).mp (discardDisposableSnapshots_valid hjv)).2
      · exact hj
    | rekeyVba hsnaps hsnap hlast =>
      refine hold hctl hsnap fun j hj => ?_
      rw [Superblock.setCurrGen_snapshots_of_ne _ _ (by rw [hsnap]; exact hj), hsnaps.gen,
        hsnaps.valid]
      exact ⟨discardDisposableSnapshots_gen _ _ _ _, discardDisposableSnapshots_valid⟩
    | initializeRekeying | enterVbdExtension | vbdExtensionStep | ftExtensionStep =>
      exact absurd ⟨trivial, hlt⟩ hkeep

/-- An action that keeps the current snapshot leaves it the newest one. -/
theorem Secures.currentNewest (h : d.Secures a) (hcurr : d.sb.CurrentNewest d.ctl.currGen)
    (hkeep : d.KeepsCurrent a) (hstep : d.step a = some d') :
    d'.sb.CurrentNewest d.ctl.currGen := by
  cases Device.effect_of_step hstep with
  | write | restart => exact absurd h id
  | notFound => exact hcurr
  | @secured _ _ sb skipPrevKey hprep hctl hslots hsecured =>
    refine (hprep.currentNewest hcurr hkeep).of_snapshots ?_ ?_
    all_goals
      unfold Device.sb
      rw [hctl]
      rfl

/-- **The restart after a securing action** restores the device exactly under
the condition, if it selects the slot that the action wrote. -/
theorem restores_iff (hprev : d.sb.PreviousKeyCleared)
    (hcurr : d.sb.CurrentNewest d.ctl.currGen) (hlt : d.ctl.currGen < generationLast)
    (hsec : d.Secures a) (hstep : d.step a = some d')
    (hinit : executeInitialize P d'.slots = some c) (hsel : c.sbIdx = d.ctl.sbIdx) :
    Restores c d' ↔ d.KeepsAll a := by
  obtain ⟨op, gen, skip, c', hop, hprep, hctl, hslots⟩ := hsec.prepared hstep
  obtain ⟨hgen', hidx'⟩ := hprep.ctl_eq
  obtain ⟨hcleared, hskip⟩ := hprep.previousKeyCleared hprev
  obtain ⟨job, hjob, hsb, hidx, hgen⟩ := executeInitialize_spec hinit
  have hslot : d'.slots job.sbIdx = cipherSuperblock P skip c'.sb := by
    rw [hslots, ← hidx, hsel, ← hidx', Function.update_self]
  rw [hslot] at hsb
  have hadopt : c.sb = c'.sb := adoptSuperblock_cipherSuperblock hcleared hskip hsb
  have hmem : d'.sb = { c'.sb with lastSecuredGeneration := d.ctl.currGen } := by
    unfold Device.sb
    rw [hctl, ← hgen']
    rfl
  have hnext : d'.ctl.currGen = d.ctl.currGen + 1 := by
    rw [hctl, ← nextGeneration_of_lt hlt, ← hgen']
    rfl
  -- the fields of the superblock
  have hfields : c.sb = d'.sb ↔
      (op.AdvancesLate → d.sb.lastSecuredGeneration = d.ctl.currGen) := by
    have hlast := hprep.lastSecured
    rw [hadopt, hmem]
    constructor
    · intro heq hlate
      rw [if_pos hlate] at hlast
      exact hlast.symm.trans (congrArg Superblock.lastSecuredGeneration heq)
    · intro hlate
      have hset : c'.sb.lastSecuredGeneration = d.ctl.currGen := by
        by_cases h : op.AdvancesLate
        · rw [hlast, if_pos h]
          exact hlate h
        · rw [hlast, if_neg h]
      rw [← hset]
  -- the generation of the slot
  obtain ⟨n, hn, hng⟩ : ∃ n, newestSnapshotIdx d'.sb.snapshots = some n
      ∧ (d'.sb.snapshots n).gen = job.generation := by
    obtain ⟨hfound, hscan⟩ := selectSuperblock_spec hjob
    obtain ⟨-, -, hg⟩ := hscan.found hfound
    rw [hslot] at hg
    rw [hmem]
    exact Option.map_eq_some_iff.mp hg
  have hcurrGen : d'.sb.curr.gen = d.ctl.currGen := by
    rw [hmem, ← hgen']
    exact hprep.curr_gen
  have hiff : (∀ op', a.operation = some op' → op'.AdvancesLate →
      d.sb.lastSecuredGeneration = d.ctl.currGen)
        ↔ (op.AdvancesLate → d.sb.lastSecuredGeneration = d.ctl.currGen) := by
    constructor
    · exact fun h => h op hop
    · intro h op' hop'
      obtain rfl := Option.some.inj (hop.symm.trans hop')
      exact h
  constructor
  · rintro ⟨hs, hg⟩
    refine ⟨hiff.mpr (hfields.mp hs), ?_⟩
    by_contra hkeep
    rw [hgen, hnext] at hg
    obtain ⟨hnv, hnle⟩ := newestSnapshotIdx_spec hn
    by_cases hne : n = d'.sb.currSnap
    · rw [hne] at hnv hnle
      exact Device.not_currentAlive_of_not_keepsCurrent hlt hkeep hstep ⟨hnv, hnle⟩
    · have hold := gen_lt_of_not_keepsCurrent hcurr hlt hkeep hstep hne hnv
      rw [hng] at hold
      rw [nextGeneration_of_lt (hold.trans hlt)] at hg
      omega
  · rintro ⟨hlate, hkeep⟩
    refine ⟨hfields.mpr (hiff.mp hlate), ?_⟩
    have hnewest := (hsec.currentNewest hcurr hkeep hstep).newestSnapshotIdx_eq
    rw [hn] at hnewest
    obtain rfl := Option.some.inj hnewest
    rw [hgen, ← hng, hnext, ← nextGeneration_of_lt hlt]
    exact congrArg nextGeneration hcurrGen

/-- **What a restart restores**, for every securing action from every state
that a run from a fresh device reaches: as long as the current snapshot is the
newest one and the generations are not used up, the adopted superblock is the
one in memory after the action, in every field, and the current generation is
the running one, exactly when the action sets the last secured generation
before it copies the superblock, and keeps the current snapshot alive. -/
theorem restores_iff_of_run (hfresh : d₀.Fresh) (hrun : Device.Run (fun _ _ => True) d₀ d)
    (hcurr : d.sb.CurrentNewest d.ctl.currGen) (hlt : d.ctl.currGen < generationLast)
    (hsec : d.Secures a) (hstep : d.step a = some d')
    (hinit : executeInitialize P d'.slots = some c) (hsel : c.sbIdx = d.ctl.sbIdx) :
    Restores c d' ↔ d.KeepsAll a := by
  have hprev : d.sb.PreviousKeyCleared :=
    hrun.invariant (fun _ _ _ h _ hst => previousKeyCleared_of_step h hst)
      hfresh.previousKeyCleared
  exact restores_iff hprev hcurr hlt hsec hstep hinit hsel

/-- A restart of the sample device after its first securing action selects the
slot that the action wrote. -/
theorem sample_restart {a : Action Platform.sample}
    (hselect : selectSuperblock (Device.sample.after [a]).slots
      = some { sbFound := true, generation := 1, sbIdx := 0 })
    (hadopt : ∃ sb, adoptSuperblock Platform.sample ((Device.sample.after [a]).slots 0) = some sb
      ∧ sb.freeMaxLevel = 2) :
    ∃ c, executeInitialize Platform.sample (Device.sample.after [a]).slots = some c
      ∧ c.sbIdx = 0 := by
  obtain ⟨sb, hsb, hlevel⟩ := hadopt
  unfold executeInitialize
  rw [hselect, Option.bind_some, hsb, Option.bind_some, hlevel]
  exact ⟨_, rfl, rfl⟩

/-- The sample device is restored after a sync. -/
theorem restores_iff_of_run_sample :
    ∃ c, executeInitialize Platform.sample (Device.sample.after [.sync]).slots = some c
      ∧ Restores c (Device.sample.after [.sync]) := by
  obtain ⟨c, hinit, hsel⟩ := sample_restart (a := .sync) (by decide) ⟨_, rfl, rfl⟩
  refine ⟨c, hinit, ?_⟩
  refine (restores_iff_of_run (a := .sync) Device.sample_fresh (.refl _)
    Device.sample_fresh.currentInv.memory (by decide) trivial rfl hinit hsel).mpr ⟨?_, ?_, ?_⟩
  · rintro op hop hlate
    obtain rfl := Option.some.inj hop
    exact absurd hlate (by decide)
  · exact Or.inr (Or.inr rfl)
  · decide

/-- **After the start of a rekeying the last secured generation is lost.** -/
theorem not_restores_sample_rekeying :
    (∃ c, executeInitialize Platform.sample (Device.sample.after [.initializeRekeying 5]).slots
        = some c ∧ c.sbIdx = Device.sample.ctl.sbIdx
      ∧ c.sb.lastSecuredGeneration = 0
      ∧ (Device.sample.after [.initializeRekeying 5]).sb.lastSecuredGeneration = 1)
    ∧ ¬ ∀ (d₀ d d' : Device Platform.sample) (a : Action Platform.sample) (c : Control),
      d₀.Fresh → Device.Run (fun _ _ => True) d₀ d → d.Secures a → d.step a = some d' →
      executeInitialize Platform.sample d'.slots = some c → c.sbIdx = d.ctl.sbIdx →
      Restores c d' := by
  obtain ⟨c, hinit, hsel⟩ := sample_restart (a := .initializeRekeying 5) (by decide)
    ⟨_, rfl, rfl⟩
  have hlast : c.sb.lastSecuredGeneration = 0 := by
    obtain ⟨job, -, hsb, hidx, -⟩ := executeInitialize_spec hinit
    rw [(adoptSuperblock_snapshots hsb).2.2.1, ← hidx, hsel]
    rfl
  have hmem : (Device.sample.after [.initializeRekeying 5]).sb.lastSecuredGeneration = 1 := rfl
  refine ⟨⟨c, hinit, hsel, hlast, hmem⟩, fun h => ?_⟩
  have hrestored := h Device.sample Device.sample _ (.initializeRekeying 5) c Device.sample_fresh
    (.refl _) trivial rfl hinit hsel
  have heq := congrArg Superblock.lastSecuredGeneration hrestored.sb
  rw [hlast] at heq
  exact absurd (heq.trans hmem) (by decide)

end Device

end Cbe
