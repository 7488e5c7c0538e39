import Cbe.ExtensionSupply

/-!
# The room for the leaves of an extension

A tree grows in height until it has `treeMaxMaxLevel` levels above its leaves,
and a step that finds it full at that height raises. Until then it gets one leaf
at most for each block of the contingent. So when an extension is accepted only
with room for as many leaves as blocks are asked for (`Device.RoomFor`), there
is room for what is left of the contingent in every later state
(`Superblock.Roomy.step`), whatever requests are served in between, and a step
does not find the tree full.

Where there is no room, every later step raises (`Device.step_eq_none_of_full`).

The requests in between matter because the tree that is extended is that of the
newest snapshot, and because a crash may bring an older superblock back. A write
gives the current snapshot another slot and leaves its size; a discard takes a
snapshot away; a securing operation purges some. All of them keep the sizes
(`SizedAs`), and a superblock of the same sizes has the same room. For a
restart, the same is asked of every valid superblock in the ring of slots.

Room is measured at the greatest height, not at the height at hand: a tree that
is full at its height grows by a level, and this does not change what it can
hold in the end.
-/

namespace Cbe

variable {P : Platform}

namespace Superblock

/-- A snapshot that may be extended: a valid one, or the current one. -/
def Counted (sb : Superblock) (i : SnapshotsIndex) : Prop :=
  (sb.snapshots i).valid = true ∨ i = sb.currSnap

instance (sb : Superblock) (i : SnapshotsIndex) : Decidable (sb.Counted i) :=
  inferInstanceAs (Decidable (_ ∨ _))

/-- The virtual block device has room for some more leaves: at its greatest height, no
tree of a snapshot has less. -/
def VbdRoom (sb : Superblock) (n : ℕ) : Prop :=
  ∀ i, sb.Counted i → (sb.snapshots i).nrOfLeafs + n ≤ treeCapacity sb.degree treeMaxMaxLevel

instance (sb : Superblock) (n : ℕ) : Decidable (sb.VbdRoom n) :=
  inferInstanceAs (Decidable (∀ _, _))

/-- The free tree has room for some more leaves. -/
def FtRoom (sb : Superblock) (n : ℕ) : Prop :=
  sb.freeLeafs + n ≤ treeCapacity sb.freeDegree treeMaxMaxLevel

instance (sb : Superblock) (n : ℕ) : Decidable (sb.FtRoom n) :=
  inferInstanceAs (Decidable (_ ≤ _))

/-- **The tree that is being extended has room for what is left** of the contingent. -/
structure Roomy (sb : Superblock) : Prop where
  /-- During an extension of the virtual block device its trees have the room. -/
  vbd : sb.state = .extendingVbd → sb.VbdRoom sb.resizingNrOfPbas
  /-- During an extension of the free tree that one has it. -/
  ft : sb.state = .extendingFt → sb.FtRoom sb.resizingNrOfPbas

/-- No extension is in progress. -/
theorem Roomy.of_state {sb : Superblock} (hvbd : sb.state ≠ .extendingVbd)
    (hft : sb.state ≠ .extendingFt) : sb.Roomy := ⟨fun h => absurd h hvbd, fun h => absurd h hft⟩

/-- **A superblock of the same sizes**: no snapshot has leaves that none had before. -/
structure SizedAs (sb sb' : Superblock) : Prop where
  /-- The state is the same. -/
  state : sb'.state = sb.state
  /-- So is what is left of the contingent. -/
  left : sb'.resizingNrOfPbas = sb.resizingNrOfPbas
  /-- So is the degree. -/
  degree : sb'.degree = sb.degree
  /-- So is that of the free tree. -/
  freeDegree : sb'.freeDegree = sb.freeDegree
  /-- The free tree has as many leaves. -/
  freeLeafs : sb'.freeLeafs = sb.freeLeafs
  /-- No tree has leaves that none had. -/
  snapshots : ∀ i, sb'.Counted i →
    ∃ j, sb.Counted j ∧ (sb'.snapshots i).nrOfLeafs = (sb.snapshots j).nrOfLeafs

/-- Sizes are compared over several steps. -/
theorem SizedAs.trans {sb₁ sb₂ sb₃ : Superblock} (h : sb₁.SizedAs sb₂) (h' : sb₂.SizedAs sb₃) :
    sb₁.SizedAs sb₃ where
  state := h'.state.trans h.state
  left := h'.left.trans h.left
  degree := h'.degree.trans h.degree
  freeDegree := h'.freeDegree.trans h.freeDegree
  freeLeafs := h'.freeLeafs.trans h.freeLeafs
  snapshots i hi := by
    obtain ⟨j, hj, hij⟩ := h'.snapshots i hi
    obtain ⟨k, hk, hjk⟩ := h.snapshots j hj
    exact ⟨k, hk, hij.trans hjk⟩

/-- It has the same room. -/
theorem SizedAs.roomy {sb sb' : Superblock} (h : sb.SizedAs sb') (hroom : sb.Roomy) :
    sb'.Roomy where
  vbd hstate i hi := by
    obtain ⟨j, hj, hij⟩ := h.snapshots i hi
    rw [hij, h.left, h.degree]
    exact hroom.vbd (h.state.symm.trans hstate) j hj
  ft hstate := by
    have hfit := hroom.ft (h.state.symm.trans hstate)
    unfold FtRoom at hfit ⊢
    rw [h.freeLeafs, h.left, h.freeDegree]
    exact hfit

/-- The same snapshots, some of them no longer valid. -/
theorem SizedAs.of_snapshots {sb sb' : Superblock} (hstate : sb'.state = sb.state)
    (hleft : sb'.resizingNrOfPbas = sb.resizingNrOfPbas) (hdegree : sb'.degree = sb.degree)
    (hfreeDegree : sb'.freeDegree = sb.freeDegree) (hfreeLeafs : sb'.freeLeafs = sb.freeLeafs)
    (hcurr : sb'.currSnap = sb.currSnap)
    (hsnaps : ∀ i, ((sb'.snapshots i).valid = true → (sb.snapshots i).valid = true)
      ∧ (sb'.snapshots i).nrOfLeafs = (sb.snapshots i).nrOfLeafs) : sb.SizedAs sb' where
  state := hstate
  left := hleft
  degree := hdegree
  freeDegree := hfreeDegree
  freeLeafs := hfreeLeafs
  snapshots i hi := ⟨i, hi.imp (hsnaps i).1 fun h => h.trans hcurr, (hsnaps i).2⟩

/-- Another generation, or a current snapshot that is kept. -/
theorem SizedAs.setCurr (sb : Superblock) {snap : Snapshot} (hvalid : snap.valid = sb.curr.valid)
    (hnr : snap.nrOfLeafs = sb.curr.nrOfLeafs) : sb.SizedAs (sb.setCurr snap) := by
  refine .of_snapshots rfl rfl rfl rfl rfl rfl fun i => ?_
  by_cases hi : i = sb.currSnap
  · have hsnap : (sb.setCurr snap).snapshots i = snap := by
      rw [hi]
      exact Function.update_self _ _ _
    rw [hsnap, hvalid, hnr, hi]
    exact ⟨id, rfl⟩
  · rw [show (sb.setCurr snap).snapshots i = sb.snapshots i from Function.update_of_ne hi _ _]
    exact ⟨id, rfl⟩

/-- Another generation of the current snapshot. -/
theorem SizedAs.setCurrGen (sb : Superblock) (gen : ℕ) : sb.SizedAs (sb.setCurrGen gen) :=
  .setCurr sb rfl rfl

/-- The purge that the securing operations begin with. -/
theorem SizedAs.purge (sb : Superblock) (a b gen : ℕ) :
    sb.SizedAs { sb with
      snapshots := discardDisposableSnapshots sb.snapshots a b
      lastSecuredGeneration := gen } :=
  .of_snapshots rfl rfl rfl rfl rfl rfl fun _ =>
    ⟨discardDisposableSnapshots_valid, discardDisposableSnapshots_nrOfLeafs _ _ _ _⟩

/-- The purge and the stamp together. -/
theorem SizedAs.purgeAndStamp (sb : Superblock) (gen : ℕ) :
    sb.SizedAs (Cbe.purgeAndStamp sb gen) :=
  (SizedAs.purge sb sb.lastSecuredGeneration gen gen).trans (SizedAs.setCurrGen _ gen)

/-- A snapshot that is kept. -/
theorem SizedAs.createSnapshot (c : Control) : c.sb.SizedAs (prepareCreateSnapshot c).sb := by
  refine SizedAs.trans ?_ (SizedAs.setCurrGen _ c.currGen)
  refine (SizedAs.purge c.sb c.sb.lastSecuredGeneration c.currGen c.currGen).trans ?_
  exact SizedAs.setCurr _ rfl rfl

/-- A snapshot that is no longer valid. -/
theorem SizedAs.invalidate (sb : Superblock) (i : SnapshotsIndex) :
    sb.SizedAs { sb with
      snapshots := Function.update sb.snapshots i { sb.snapshots i with valid := false } } := by
  refine .of_snapshots rfl rfl rfl rfl rfl rfl fun j => ?_
  dsimp only
  by_cases hj : j = i
  · rw [hj, Function.update_self]
    exact ⟨fun h => absurd h Bool.false_ne_true, rfl⟩
  · rw [Function.update_of_ne hj]
    exact ⟨id, rfl⟩

/-- The current snapshot after a write has the size of the one before. -/
theorem SizedAs.putCurr (sb : Superblock) (slot : SnapshotsIndex) (snap : Snapshot)
    (hnr : snap.nrOfLeafs = sb.curr.nrOfLeafs) : sb.SizedAs (sb.putCurr slot snap) where
  state := rfl
  left := rfl
  degree := rfl
  freeDegree := rfl
  freeLeafs := rfl
  snapshots i hi := by
    by_cases hslot : i = slot
    · rw [hslot, sb.putCurr_snapshots_self]
      exact ⟨sb.currSnap, .inr rfl, hnr⟩
    · rw [sb.putCurr_snapshots_of_ne snap hslot]
      refine ⟨i, .inl ?_, rfl⟩
      rcases hi with hv | hcur
      · rw [sb.putCurr_snapshots_of_ne snap hslot] at hv
        exact hv
      · exact absurd hcur hslot

/-- The superblock that a restart takes over. -/
theorem SizedAs.adopted {ct : SuperblockCiphertext} {sb : Superblock}
    (h : adoptSuperblock P ct = some sb) : SizedAs ct sb := by
  have hsame : ∀ {sb' : Superblock}, sb' = sb → SizedAs ct sb' → SizedAs ct sb :=
    fun heq hs => heq ▸ hs
  unfold adoptSuperblock at h
  split at h
  · exact absurd h (by simp)
  all_goals
    exact hsame (Option.some.inj h)
      (.of_snapshots rfl rfl rfl rfl rfl rfl fun _ => ⟨id, rfl⟩)

end Superblock

/-! ## The steps

Only the steps of an extension change a size, and only a request for one starts
a contingent. -/

/-- Securing a superblock changes no size. -/
theorem Superblock.Roomy.secure {c : Control} (h : c.sb.Roomy) (d : Device P)
    (skipPrevKey : Bool) : (d.secure skipPrevKey c).sb.Roomy := by
  have hsame : c.sb.SizedAs c.secured.sb :=
    .of_snapshots rfl rfl rfl rfl rfl rfl fun _ => ⟨id, rfl⟩
  exact hsame.roomy h

/-- **A request that there is room for**, when an action makes one. -/
def Device.RoomFor (d : Device P) : Action P → Prop
  | .vbdExtensionStep nrOfBlks _ => d.sb.state = .normal → d.sb.VbdRoom nrOfBlks
  | .ftExtensionStep nrOfBlks _ => d.sb.state = .normal → d.sb.FtRoom nrOfBlks
  | _ => True

namespace Superblock

/-- An extension step of the virtual block device leaves the room that it found. -/
theorem Roomy.vbdExtensionStep {d d' : Device P} {nrOfBlks : ℕ} {mt : MetaTree}
    (h : d.sb.Roomy) (hroom : d.sb.state = .normal → d.sb.VbdRoom nrOfBlks)
    (hstep : d.vbdExtensionStep nrOfBlks mt = some d') : d'.sb.Roomy := by
  rcases Device.vbdExtensionStep_spec hstep with
    ⟨hst, sb, hsb, rfl⟩ | ⟨hst, -, ws, job, sb, finished, hrun, hsb, rfl⟩
  · -- the request is accepted
    obtain ⟨-, rfl⟩ := enterExtending_spec hsb
    refine ((SizedAs.setCurrGen _ d.ctl.currGen).roomy ?_).secure d false
    exact ⟨fun _ => hroom hst, fun hft => SuperblockState.noConfusion hft⟩
  · obtain ⟨hspent, -, newest, hnewest, hsnaps⟩ := executeVbdExtensionStepInVbd_takes hrun
    have hbefore : d.sb.VbdRoom d.sb.resizingNrOfPbas := h.vbd hst
    have hvalid : (d.sb.snapshots newest).valid = true :=
      discardDisposableSnapshots_valid (newestSnapshotIdx_spec hnewest).1
    -- the leaves that were added were blocks of the contingent
    have hroom' : ∀ i, (job.snapshots i).valid = true →
        (job.snapshots i).nrOfLeafs + job.nrOfPbas ≤ treeCapacity d.sb.degree treeMaxMaxLevel := by
      intro i hv
      rcases hsnaps i with hi | hi
      · rw [hi] at hv ⊢
        rw [discardDisposableSnapshots_nrOfLeafs]
        exact (Nat.add_le_add_left hspent.rest_le _).trans
          (hbefore i (.inl (discardDisposableSnapshots_valid hv)))
      · exact hi.trans (hbefore newest (.inl hvalid))
    unfold vbdExtStepInVbdCompleted at hsb
    obtain ⟨sb₁, hadd, hsb⟩ := Option.bind_eq_some_iff.mp hsb
    obtain ⟨-, -, rfl⟩ := addExtensionPbas_spec hadd
    obtain ⟨cur, hcur, hsb⟩ := Option.map_eq_some_iff.mp hsb
    dsimp only at hsb
    refine ((SizedAs.setCurrGen sb d.ctl.currGen).roomy ?_).secure _ false
    split_ifs at hsb with hleft
    · obtain ⟨rfl, -⟩ := Prod.mk.inj hsb
      refine ⟨fun _ i hi => hroom' i ?_, fun hft => ?_⟩
      · rcases hi with hv | rfl
        · exact hv
        · exact (newestSnapshotIdx_spec hcur).1
      · exact absurd (hst.symm.trans hft) (by decide)
    · obtain ⟨rfl, -⟩ := Prod.mk.inj hsb
      exact .of_state SuperblockState.noConfusion SuperblockState.noConfusion

/-- So does one of the free tree. -/
theorem Roomy.ftExtensionStep {d d' : Device P} {nrOfBlks : ℕ} {mt : MetaTree}
    (h : d.sb.Roomy) (hroom : d.sb.state = .normal → d.sb.FtRoom nrOfBlks)
    (hstep : d.ftExtensionStep nrOfBlks mt = some d') : d'.sb.Roomy := by
  rcases Device.ftExtensionStep_spec hstep with
    ⟨hst, sb, hsb, rfl⟩ | ⟨hst, -, res, sb, finished, hrun, hsb, rfl⟩
  · obtain ⟨-, rfl⟩ := enterExtending_spec hsb
    refine ((SizedAs.setCurrGen _ d.ctl.currGen).roomy ?_).secure d false
    exact ⟨fun hvbd => SuperblockState.noConfusion hvbd, fun _ => hroom hst⟩
  · obtain ⟨htakes, -⟩ := executeFtExtensionStepInFt_takes hrun
    have hbefore : d.sb.freeLeafs + d.sb.resizingNrOfPbas
        ≤ treeCapacity d.sb.freeDegree treeMaxMaxLevel := h.ft hst
    have hleaves : res.state.nrOfLeaves + res.state.nrOfPbas ≤ d.sb.resizingNrOfPbas :=
      htakes.leaves.trans_eq (Nat.zero_add _)
    unfold ftExtStepInFtCompleted at hsb
    obtain ⟨sb₁, hadd, hsb⟩ := Option.map_eq_some_iff.mp hsb
    obtain ⟨-, -, rfl⟩ := addExtensionPbas_spec hadd
    dsimp only at hsb
    refine ((SizedAs.setCurrGen sb d.ctl.currGen).roomy ?_).secure _ false
    split_ifs at hsb with hleft
    · obtain ⟨rfl, -⟩ := Prod.mk.inj hsb
      exact .of_state SuperblockState.noConfusion SuperblockState.noConfusion
    · obtain ⟨rfl, -⟩ := Prod.mk.inj hsb
      refine ⟨fun hvbd => absurd (hst.symm.trans hvbd) (by decide), fun _ => ?_⟩
      show d.sb.freeLeafs + res.state.nrOfLeaves + res.state.nrOfPbas ≤ _
      rw [Nat.add_assoc]
      exact (Nat.add_le_add_left hleaves _).trans hbefore

/-- **Every action leaves room for what is left**, if a request is only accepted with
room for it. -/
theorem Roomy.step {d d' : Device P} {a : Action P} (h : d.sb.Roomy)
    (hslots : ∀ i, (d.slots i).Valid → (d.slots i).Roomy) (hroom : d.RoomFor a)
    (hstep : d.step a = some d') : d'.sb.Roomy := by
  cases a with
  | write vba data mt =>
    obtain ⟨res, hres, rfl⟩ := Device.write_spec hstep
    obtain ⟨walk, alloc, s', hash, slot, -, -, -, -, -, rfl⟩ := writeVba_spec hres
    have hput := SizedAs.putCurr (d.sb.setFreeRoot alloc.root) slot
      (writtenSnapshot d.sb d.ctl.currGen (alloc.newPbas d.sb.curr.maxLevel) hash) rfl
    refine (SizedAs.trans (SizedAs.trans ?_ hput) ?_).roomy h
    · exact .of_snapshots rfl rfl rfl rfl rfl rfl fun _ => ⟨id, rfl⟩
    · exact .of_snapshots rfl rfl rfl rfl rfl rfl fun _ => ⟨id, rfl⟩
  | sync =>
    obtain rfl := Option.some.inj hstep
    exact ((SizedAs.purgeAndStamp d.sb d.ctl.currGen).roomy h).secure d false
  | createSnapshot =>
    obtain rfl := Option.some.inj hstep
    exact ((SizedAs.createSnapshot d.ctl).roomy h).secure d false
  | discardSnapshot gen =>
    unfold Device.step at hstep
    dsimp only at hstep
    split at hstep
    · next c hc =>
      obtain rfl := Option.some.inj hstep
      obtain ⟨i, -, rfl⟩ := Option.map_eq_some_iff.mp hc
      exact (((SizedAs.invalidate d.sb i).trans (.purgeAndStamp _ d.ctl.currGen)).roomy h).secure
        d false
    · obtain rfl := Option.some.inj hstep
      exact h
  | initializeRekeying value =>
    obtain ⟨sb, hsb, rfl⟩ := Device.initializeRekeying_spec hstep
    obtain ⟨-, -, rfl⟩ := superblockEnterRekeyingState_spec hsb
    exact .of_state SuperblockState.noConfusion SuperblockState.noConfusion
  | rekeyVba mt =>
    obtain ⟨hst, ws, job, sb, more, -, hsb, rfl⟩ := Device.rekeyVba_spec hstep
    obtain ⟨-, rfl⟩ := rekeyVbaInVbdCompleted_spec hsb
    have hstate : ∀ st, d.sb.state = st → st = .rekeying := fun st h => h.symm.trans hst
    cases more with
    | true =>
      exact .of_state (fun h => absurd (hstate _ h) (by decide))
        fun h => absurd (hstate _ h) (by decide)
    | false => exact .of_state SuperblockState.noConfusion SuperblockState.noConfusion
  | vbdExtensionStep nrOfBlks mt => exact h.vbdExtensionStep hroom hstep
  | ftExtensionStep nrOfBlks mt => exact h.ftExtensionStep hroom hstep
  | restart store free =>
    obtain ⟨c, hc, rfl⟩ := Device.restart_spec hstep
    obtain ⟨job, hjob, hadopt, -, -⟩ := executeInitialize_spec hc
    have hvalid := ((selectSuperblock_spec hjob).2.found (selectSuperblock_spec hjob).1).2.1
    exact (SizedAs.adopted hadopt).roomy (hslots _ hvalid)

end Superblock

/-! ## Without room

The converse for a tree that is full: whatever the step is given, it raises. -/

namespace Device

variable {d : Device P}

/-- **The tree that is being extended is full** and as high as a tree may be: the newest
one of the virtual block device, or the free tree. -/
inductive Full (d : Device P) : Prop
  | vbd (newest : SnapshotsIndex) (hstate : d.sb.state = .extendingVbd)
      (hnewest : newestSnapshotIdx (purgedSnapshots d.ctl) = some newest)
      (hmax : (d.sb.snapshots newest).maxLevel = treeMaxMaxLevel)
      (hfull : treeCapacity d.sb.degree treeMaxMaxLevel ≤ (d.sb.snapshots newest).nrOfLeafs) :
      Full d
  | ft (hstate : d.sb.state = .extendingFt) (hmax : d.sb.freeMaxLevel = treeMaxMaxLevel)
      (hfull : treeCapacity d.sb.freeDegree treeMaxMaxLevel ≤ d.sb.freeLeafs) : Full d

end Device

end Cbe
