import Cbe.VbdExtension
import Cbe.FtResizing
import Cbe.Support.Contingent

/-!
# What an extension uses up of its contingent

A step of an extension takes its blocks from a contingent of new addresses, one
after the other. It goes on until the branch that it has begun is full or the
contingent is used up, so it takes one block at least
(`executeVbdExtensionStepInVbd_takes`, `executeFtExtensionStepInFt_takes`). The
inner nodes of the branch take blocks, too, so the tree does not get more leaves
than blocks were taken (`RekeyingJob.Takes`, `FtExtState.Takes`): a tree that
has room for as many leaves as there are blocks in the contingent has room for
all steps.

This is the half of the accounting that is about one step. That a step is
possible as long as there is room is shown where the room is, and that the
blocks which a run of steps takes are those of the request is shown from the
two.

Every procedure of the source that may take a block has its lemma here, and they
compose: `Takes` is transitive, it does not look at the other fields of the job,
and a procedure that takes nothing satisfies it too. The virtual block device
and the free tree are extended by two separate modules of the source, so the
lemmas come in two groups; what a contingent is they share.
-/

namespace Cbe

variable {P : Platform}

/-! ## The virtual block device

If the tree is full it gets a new root level first, which takes a block. Then
the step follows the way to the first leaf that is missing, down to the node
where the way ends, and begins the new branch there. -/

/-- What a job of the rekeying module has left to extend the tree. -/
def RekeyingJob.contingent (job : RekeyingJob P) : Contingent where
  first := job.pba
  rest := job.nrOfPbas

namespace RekeyingJob

/-- **A job that took blocks** of its contingent, one at least for each new
leaf. -/
structure Takes (job job' : RekeyingJob P) : Prop where
  /-- The blocks are from its contingent. -/
  spent : job.contingent.Spent job'.contingent
  /-- There is one for each new leaf. -/
  leaves : job'.nrOfLeaves + job'.nrOfPbas ≤ job.nrOfLeaves + job.nrOfPbas

/-- A procedure that does nothing takes nothing. -/
theorem Takes.refl (job : RekeyingJob P) : job.Takes job := ⟨Contingent.Spent.refl _, le_rfl⟩

/-- Two procedures take their blocks one after the other. -/
theorem Takes.trans {job₁ job₂ job₃ : RekeyingJob P} (h : job₁.Takes job₂)
    (h' : job₂.Takes job₃) : job₁.Takes job₃ :=
  ⟨h.spent.trans h'.spent, h'.leaves.trans h.leaves⟩

/-- No procedure gives blocks back to the contingent. -/
theorem Takes.left_le {job job' : RekeyingJob P} (h : job.Takes job') :
    job'.nrOfPbas ≤ job.nrOfPbas := h.spent.rest_le

/-- The other fields of a job do not matter. -/
theorem Takes.congr {job job' : RekeyingJob P} (hpba : job'.pba = job.pba)
    (hleft : job'.nrOfPbas = job.nrOfPbas) (hleaves : job'.nrOfLeaves = job.nrOfLeaves) :
    job.Takes job' where
  spent := by
    unfold contingent
    rw [hpba, hleft]
    exact Contingent.Spent.refl _
  leaves := by rw [hleft, hleaves]

/-- A block that is taken. -/
theorem allocPba_takes {job job' : RekeyingJob P} {pba : ℕ}
    (h : job.allocPba = some (pba, job')) :
    job.Takes job' ∧ job'.nrOfPbas + 1 = job.nrOfPbas ∧ job'.nrOfLeaves = job.nrOfLeaves := by
  unfold allocPba at h
  split_ifs at h with hzero
  obtain ⟨-, rfl⟩ := Prod.mk.inj (Option.some.inj h)
  have hpos : 0 < job.nrOfPbas := Nat.pos_of_ne_zero hzero
  exact ⟨⟨Contingent.Spent.next hpos, Nat.add_le_add_left (Nat.sub_le _ _) _⟩,
    Nat.sub_add_cancel hpos, rfl⟩

/-- A block is refused only when the contingent is used up. -/
theorem allocPba_eq_none {job : RekeyingJob P} (h : job.allocPba = none) : job.nrOfPbas = 0 := by
  unfold allocPba at h
  by_contra hpos
  rw [if_neg hpos] at h
  exact absurd h (by simp)

/-- The leaves of a node take a block each, as long as there are any. -/
theorem addLeafs_takes (n i : ℕ) (job : RekeyingJob P) :
    job.Takes (addLeafs n i job)
      ∧ (0 < n → 0 < job.nrOfPbas → (addLeafs n i job).nrOfPbas < job.nrOfPbas) := by
  induction n generalizing i job with
  | zero => exact ⟨Takes.refl _, fun hpos => absurd hpos (lt_irrefl 0)⟩
  | succ n ih =>
    unfold addLeafs
    split
    · next hnone =>
      exact ⟨Takes.refl _, fun _ hpos => absurd (allocPba_eq_none hnone) (Nat.ne_of_gt hpos)⟩
    · next pba job₁ halloc =>
      obtain ⟨htakes, hleft, hleaves⟩ := allocPba_takes halloc
      obtain ⟨hrest, -⟩ := ih (i + 1) { job₁.setEntry 1 (Fin.ofNat nodesPerBlock i) (newChild pba)
        with nrOfLeaves := job₁.nrOfLeaves + 1 }
      refine ⟨⟨htakes.spent.trans hrest.spent, hrest.leaves.trans ?_⟩, fun _ _ => ?_⟩
      · -- the block that was taken is the new leaf
        show job₁.nrOfLeaves + 1 + job₁.nrOfPbas ≤ job.nrOfLeaves + job.nrOfPbas
        rw [hleaves, ← hleft, Nat.add_assoc, Nat.add_comm 1]
      · exact lt_of_le_of_lt hrest.left_le (lt_of_lt_of_eq (Nat.lt_succ_self _) hleft)

/-- Below the node at which it is begun the branch takes a block for each node,
and then for the leaves of the lowest one. -/
theorem addBranchLvls_takes (mountLvl mountChildIdx lvl : ℕ) (job : RekeyingJob P) :
    job.Takes (addBranchLvls mountLvl mountChildIdx lvl job)
      ∧ (0 < lvl → mountChildIdx < job.snapshotsDegree → 0 < job.nrOfPbas →
        (addBranchLvls mountLvl mountChildIdx lvl job).nrOfPbas < job.nrOfPbas) := by
  fun_induction addBranchLvls mountLvl mountChildIdx lvl job with
  | case1 => exact ⟨Takes.refl _, fun hpos => absurd hpos (lt_irrefl 0)⟩
  | case2 job first =>
    obtain ⟨htakes, hlt⟩ := addLeafs_takes (job.snapshotsDegree - first) first
      { job with t1BlkIdx := 1 }
    refine ⟨⟨htakes.spent, htakes.leaves⟩, fun _ hidx hpos => hlt (Nat.sub_pos_of_lt ?_) hpos⟩
    show (if 1 = mountLvl then mountChildIdx else 0) < job.snapshotsDegree
    split
    · exact hidx
    · exact lt_of_le_of_lt (Nat.zero_le _) hidx
  | case3 lvl job job₁ hnone =>
    exact ⟨Takes.congr rfl rfl rfl, fun _ _ hpos => absurd (allocPba_eq_none hnone)
      (Nat.ne_of_gt hpos)⟩
  | case4 lvl job job₁ pba job₂ halloc ih =>
    obtain ⟨htakes, hleft, -⟩ := allocPba_takes halloc
    refine ⟨⟨htakes.spent.trans ih.1.spent, ih.1.leaves.trans htakes.leaves⟩, fun _ _ _ => ?_⟩
    exact lt_of_le_of_lt ih.1.left_le (lt_of_lt_of_eq (Nat.lt_succ_self _) hleft)

/-- **A new branch takes a block if there is one.** -/
theorem addNewBranch_takes (job : RekeyingJob P) (mountLvl mountChildIdx : ℕ) :
    job.Takes (job.addNewBranch mountLvl mountChildIdx)
      ∧ (0 < mountLvl → mountChildIdx < job.snapshotsDegree → 0 < job.nrOfPbas →
        (job.addNewBranch mountLvl mountChildIdx).nrOfPbas < job.nrOfPbas) := by
  unfold addNewBranch
  dsimp only
  split_ifs with hpos
  · obtain ⟨htakes, hlt⟩ := addBranchLvls_takes mountLvl mountChildIdx mountLvl { job with
      nrOfLeaves := 0
      t1BlkIdx := mountLvl
      t1Blks := fun lvl =>
        if 1 ≤ lvl ∧ lvl < mountLvl then fun _ => type1NodeInvalid else job.t1Blks lvl }
    exact ⟨⟨htakes.spent, htakes.leaves.trans (Nat.add_le_add_right (Nat.zero_le _) _)⟩, hlt⟩
  · exact ⟨⟨Contingent.Spent.refl _, Nat.add_le_add_right (Nat.zero_le _) _⟩,
      fun _ _ hpos' => absurd hpos' hpos⟩

/-- A new root level takes one. -/
theorem addNewRootLvl_takes {job job' : RekeyingJob P} (h : job.addNewRootLvl = some job') :
    job.Takes job' ∧ job'.nrOfPbas < job.nrOfPbas
      ∧ job'.snapshot.nrOfLeafs = job.snapshot.nrOfLeafs := by
  unfold addNewRootLvl at h
  split_ifs at h
  all_goals
    obtain ⟨i, -, h⟩ := Option.bind_eq_some_iff.mp h
    obtain ⟨⟨pba, job₁⟩, halloc, rfl⟩ := Option.map_eq_some_iff.mp h
    obtain ⟨htakes, hleft, -⟩ := allocPba_takes halloc
    refine ⟨htakes.trans (Takes.congr rfl rfl rfl), ?_, ?_⟩
    · exact lt_of_lt_of_eq (Nat.lt_succ_self _) hleft
    · have hsame := congrArg Snapshot.nrOfLeafs (allocPba_frame halloc).snapshot
      unfold snapshot at hsame ⊢
      dsimp only
      rw [Function.update_self]
      exact hsame

end RekeyingJob

/-- The nodes above it get their blocks from the free tree, not from the
contingent. -/
theorem extAlloc_takes {ctx : AllocContext} {ws ws' : Workspace P}
    {job job' : RekeyingJob P} {minLvl : ℕ}
    (h : extAlloc ctx ws job minLvl = some (ws', job')) : job.Takes job' := by
  unfold extAlloc at h
  split_ifs at h
  obtain ⟨⟨newPbas, ws₁⟩, -, h⟩ := Option.map_eq_some_iff.mp h
  obtain ⟨-, rfl⟩ := Prod.mk.inj h
  exact .congr rfl rfl rfl

/-- Writing the branch takes nothing. -/
theorem extWriteBack_takes (s : Store P) (job : RekeyingJob P) :
    job.Takes (extWriteBack s job).2 := by
  have hclimb : ∀ (n : ℕ) (s : Store P) (job : RekeyingJob P), job.Takes (extClimb n s job).2 := by
    intro n
    induction n with
    | zero => exact fun s job => .refl _
    | succ n ih =>
      intro s job
      have hrest := ih (rekeyWriteInnerNodeCompleted s job).1 (rekeyWriteInnerNodeCompleted s job).2
      exact ⟨hrest.spent, hrest.leaves⟩
  exact hclimb _ _ _

/-- The snapshot with the new root has the new leaves. -/
theorem extSetRoot_takes {job job' : RekeyingJob P} (h : extSetRoot job = some job') :
    job.Takes job' ∧ ∀ i, job'.snapshots i = job.snapshots i
      ∨ (job'.snapshots i).nrOfLeafs = job.snapshot.nrOfLeafs + job.nrOfLeaves := by
  obtain ⟨slot, -, rfl⟩ := Option.map_eq_some_iff.mp h
  refine ⟨.congr rfl rfl rfl, fun i => ?_⟩
  dsimp only
  by_cases hi : i = slot
  · rw [hi, Function.update_self]
    exact .inr rfl
  · exact .inl (Function.update_of_ne hi _ _)

/-- A child index is below the degree. -/
theorem childIdxForVba_lt {degree : ℕ} (h : 0 < degree) (vba lvl : ℕ) :
    (childIdxForVba vba lvl degree).val < degree := by
  have hlog : 2 ^ Nat.log2 degree ≤ degree := Nat.log2_self_le (Nat.ne_of_gt h)
  have hmask : (vba >>> (Nat.log2 degree * (lvl - 1))) &&& ((1 <<< Nat.log2 degree) - 1)
      < 2 ^ Nat.log2 degree := by
    rw [Nat.shiftLeft_eq, one_mul, Nat.and_two_pow_sub_one_eq_mod]
    exact Nat.mod_lt _ (Nat.two_pow_pos _)
  exact lt_of_le_of_lt (Nat.mod_le _ _) (lt_of_lt_of_le hmask hlog)

/-- **The descent takes a block of the contingent if there is one.** -/
theorem extDescend_takes {s : Store P} {lvl minLvl : ℕ} {job job' : RekeyingJob P}
    (h : extDescend s lvl job = some (minLvl, job')) :
    job.Takes job'
      ∧ (0 < job.snapshotsDegree → 0 < job.nrOfPbas → job'.nrOfPbas < job.nrOfPbas) := by
  induction lvl generalizing job with
  | zero => exact absurd h (by simp [extDescend])
  | succ lvl ih =>
    unfold extDescend at h
    split_ifs at h
    · obtain ⟨-, rfl⟩ := Prod.mk.inj (Option.some.inj h)
      obtain ⟨htakes, hlt⟩ := job.addNewBranch_takes (lvl + 1) (job.childIdx (lvl + 1))
      exact ⟨htakes, fun hdegree hpos =>
        hlt (Nat.succ_pos lvl) (childIdxForVba_lt hdegree _ _) hpos⟩
    · obtain ⟨htakes, hlt⟩ := ih h
      exact ⟨⟨htakes.spent, htakes.leaves⟩, hlt⟩

/-- The descent begins above the leaves. -/
theorem extDescend_lvl_pos {s : Store P} {lvl minLvl : ℕ} {job job' : RekeyingJob P}
    (h : extDescend s lvl job = some (minLvl, job')) : 0 < lvl := by
  cases lvl with
  | zero => exact absurd h (by simp [extDescend])
  | succ lvl => exact Nat.succ_pos lvl

/-- A tree of degree 0 has no room. -/
theorem degree_pos_of_lt_treeCapacity {vba degree lvl : ℕ} (h : vba < treeCapacity degree lvl)
    (hlvl : 0 < lvl) : 0 < degree := by
  refine Nat.pos_of_ne_zero fun hzero => ?_
  rw [treeCapacity, hzero, Nat.zero_pow hlvl] at h
  exact Nat.not_lt_zero _ h

/-- **What an extension step of the virtual block device takes**: a block at
least, if there is one, and no snapshot has more new leaves than blocks were
taken. -/
theorem executeVbdExtensionStepInVbd_takes {ctx : AllocContext} {ws ws' : Workspace P}
    {job job' : RekeyingJob P}
    (h : executeVbdExtensionStepInVbd ctx ws job = some (ws', job')) :
    job.contingent.Spent job'.contingent
      ∧ (0 < job.nrOfPbas → job'.nrOfPbas < job.nrOfPbas)
      ∧ ∃ newest,
        newestSnapshotIdx
            (discardDisposableSnapshots job.snapshots job.currGen job.lastSecuredGen) = some newest
          ∧ ∀ i, job'.snapshots i
                = discardDisposableSnapshots job.snapshots job.currGen job.lastSecuredGen i
              ∨ (job'.snapshots i).nrOfLeafs + job'.nrOfPbas
                ≤ (job.snapshots newest).nrOfLeafs + job.nrOfPbas := by
  unfold executeVbdExtensionStepInVbd at h
  obtain ⟨newest, hnewest, h⟩ := Option.bind_eq_some_iff.mp h
  dsimp only at h
  set start : RekeyingJob P := { job with
    snapshots := discardDisposableSnapshots job.snapshots job.currGen job.lastSecuredGen
    nrOfLeaves := 0
    snapshotIdx := newest
    vba := (discardDisposableSnapshots job.snapshots job.currGen job.lastSecuredGen
      newest).nrOfLeafs } with hstart
  have hnr : start.snapshot.nrOfLeafs = (job.snapshots newest).nrOfLeafs :=
    discardDisposableSnapshots_nrOfLeafs _ _ _ _
  split_ifs at h with hroom
  · -- a new branch in the tree
    obtain ⟨⟨minLvl, job₁⟩, hdesc, h⟩ := Option.bind_eq_some_iff.mp h
    obtain ⟨⟨ws₂, job₂⟩, halloc, h⟩ := Option.bind_eq_some_iff.mp h
    obtain ⟨job₃, hroot, h⟩ := Option.map_eq_some_iff.mp h
    obtain ⟨-, rfl⟩ := Prod.mk.inj h
    obtain ⟨hdown, hlt⟩ := extDescend_takes hdesc
    have hup := (extAlloc_takes halloc).trans (extWriteBack_takes ws₂.store job₂)
    obtain ⟨hlast, hsnaps⟩ := extSetRoot_takes hroot
    have hbefore : start.Takes (extWriteBack ws₂.store job₂).2 :=
      ⟨(hdown.trans hup).spent, (hdown.trans hup).leaves⟩
    have hframe : RekeyingJob.Frame start (extWriteBack ws₂.store job₂).2 :=
      ((RekeyingJob.Frame.readNode start _ _ _).trans (extDescend_frame hdesc)).trans
        ((extAlloc_frame halloc).trans (extWriteBack_frame ws₂.store job₂))
    refine ⟨(hbefore.trans hlast).spent, fun hpos => ?_, newest, hnewest, fun i => ?_⟩
    · exact lt_of_le_of_lt (hup.trans hlast).left_le
        (hlt (degree_pos_of_lt_treeCapacity hroom (extDescend_lvl_pos hdesc)) hpos)
    · refine (hsnaps i).imp (fun hi => hi.trans (congrFun hframe.snapshots i)) fun hi => ?_
      rw [hi, hframe.snapshot, hnr, Nat.add_assoc]
      refine Nat.add_le_add_left ((Nat.add_le_add_left hlast.left_le _).trans ?_) _
      exact hbefore.leaves.trans_eq (Nat.zero_add _)
  · -- a new root level
    obtain ⟨job₁, hadd, h⟩ := Option.bind_eq_some_iff.mp h
    obtain ⟨job₃, hroot, h⟩ := Option.map_eq_some_iff.mp h
    obtain ⟨-, rfl⟩ := Prod.mk.inj h
    obtain ⟨slot, -, hput, hidx, -⟩ := addNewRootLvl_snapshots hadd
    obtain ⟨htop, hlt, hnr₁⟩ := RekeyingJob.addNewRootLvl_takes hadd
    set branch := job₁.addNewBranch job₁.snapshot.maxLevel 1 with hbranch
    obtain ⟨hbelow, -⟩ := job₁.addNewBranch_takes job₁.snapshot.maxLevel 1
    have hback := extWriteBack_takes ws.store
      { branch with newPbas := newPbasForNewRootBranch branch }
    have hup : job₁.Takes
        (extWriteBack ws.store { branch with newPbas := newPbasForNewRootBranch branch }).2 :=
      hbelow.trans ⟨hback.spent, hback.leaves⟩
    obtain ⟨hlast, hsnaps⟩ := extSetRoot_takes hroot
    have hframe : RekeyingJob.Frame job₁
        (extWriteBack ws.store { branch with newPbas := newPbasForNewRootBranch branch }).2 := by
      refine (addNewBranch_frame job₁ job₁.snapshot.maxLevel 1).trans
        (RekeyingJob.Frame.trans ?_ (extWriteBack_frame ws.store _))
      exact ⟨rfl, rfl, rfl, rfl, rfl, rfl, rfl, rfl, rfl⟩
    have hleft : job₃.nrOfPbas < job.nrOfPbas := lt_of_le_of_lt (hup.trans hlast).left_le hlt
    have hall := htop.trans (hup.trans hlast)
    refine ⟨hall.spent, fun _ => hleft, newest, hnewest, fun i => ?_⟩
    rcases hsnaps i with hi | hi
    · rw [hi, congrFun hframe.snapshots i]
      by_cases hslot : i = slot
      · -- the snapshot with the new root has the leaves of the old one
        have hsame : (job₁.snapshots i).nrOfLeafs = (job.snapshots newest).nrOfLeafs := by
          rw [hslot, ← hidx]
          exact hnr₁.trans hnr
        rw [hsame]
        exact .inr (Nat.add_le_add_left hleft.le _)
      · exact .inl (hput.other i hslot)
    · refine .inr ?_
      rw [hi, hframe.snapshot, hnr₁.trans hnr, Nat.add_assoc]
      refine Nat.add_le_add_left ((Nat.add_le_add_left hlast.left_le _).trans ?_) _
      exact (htop.trans hup).leaves.trans_eq (Nat.zero_add _)

/-! ## The free tree

The same step in the free tree, whose entries are leaves of their own kind. The
blocks of the nodes that are there already are exchanged through the meta tree
and are no part of the contingent. -/

/-- What an extension of the free tree has left. -/
def FtExtState.contingent (st : FtExtState P) : Contingent where
  first := st.pba
  rest := st.nrOfPbas

namespace FtExtState

/-- **An extension that took blocks** of its contingent, one at least for each
new leaf. -/
structure Takes (st st' : FtExtState P) : Prop where
  /-- The blocks are from its contingent. -/
  spent : st.contingent.Spent st'.contingent
  /-- There is one for each new leaf. -/
  leaves : st'.nrOfLeaves + st'.nrOfPbas ≤ st.nrOfLeaves + st.nrOfPbas

/-- A procedure that does nothing takes nothing. -/
theorem Takes.refl (st : FtExtState P) : st.Takes st := ⟨Contingent.Spent.refl _, le_rfl⟩

/-- Two procedures take their blocks one after the other. -/
theorem Takes.trans {st₁ st₂ st₃ : FtExtState P} (h : st₁.Takes st₂) (h' : st₂.Takes st₃) :
    st₁.Takes st₃ := ⟨h.spent.trans h'.spent, h'.leaves.trans h.leaves⟩

/-- No procedure gives blocks back to the contingent. -/
theorem Takes.left_le {st st' : FtExtState P} (h : st.Takes st') : st'.nrOfPbas ≤ st.nrOfPbas :=
  h.spent.rest_le

/-- A block that is taken. -/
theorem allocPba_takes {st st' : FtExtState P} {pba : ℕ} (h : st.allocPba = some (pba, st')) :
    st.Takes st' ∧ st'.nrOfPbas + 1 = st.nrOfPbas ∧ st'.nrOfLeaves = st.nrOfLeaves
      ∧ st'.metaPbas = st.metaPbas := by
  unfold allocPba at h
  split_ifs at h with hzero
  obtain ⟨-, rfl⟩ := Prod.mk.inj (Option.some.inj h)
  have hpos : 0 < st.nrOfPbas := Nat.pos_of_ne_zero hzero
  exact ⟨⟨Contingent.Spent.next hpos, Nat.add_le_add_left (Nat.sub_le _ _) _⟩,
    Nat.sub_add_cancel hpos, rfl, rfl⟩

/-- A block is refused only when the contingent is used up. -/
theorem allocPba_eq_none {st : FtExtState P} (h : st.allocPba = none) : st.nrOfPbas = 0 := by
  unfold allocPba at h
  by_contra hpos
  rw [if_neg hpos] at h
  exact absurd h (by simp)

/-- A block of the meta tree leaves the contingent alone. -/
theorem allocNodePba_takes {st st' : FtExtState P} {inPlace : Bool} {pba pba' : ℕ}
    (h : st.allocNodePba inPlace pba = some (pba', st')) : st.Takes st' := by
  unfold allocNodePba at h
  split at h
  · obtain ⟨-, rfl⟩ := Prod.mk.inj (Option.some.inj h)
    exact .refl _
  · split at h
    · exact absurd h (by simp)
    · obtain ⟨-, rfl⟩ := Prod.mk.inj (Option.some.inj h)
      exact ⟨Contingent.Spent.refl _, le_rfl⟩

end FtExtState

/-- The entries of a level-1 node take a block each, as long as there are any.
-/
theorem addFtLeafs_takes (n i : ℕ) (entries : Type2NodeBlock) (st : FtExtState P) :
    st.Takes (addFtLeafs n i entries st).2
      ∧ (0 < n → 0 < st.nrOfPbas → (addFtLeafs n i entries st).2.nrOfPbas < st.nrOfPbas)
      ∧ (addFtLeafs n i entries st).2.metaPbas = st.metaPbas := by
  induction n generalizing i entries st with
  | zero => exact ⟨.refl _, fun hpos => absurd hpos (lt_irrefl 0), rfl⟩
  | succ n ih =>
    unfold addFtLeafs
    split
    · next hnone =>
      exact ⟨.refl _, fun _ hpos => absurd (FtExtState.allocPba_eq_none hnone)
        (Nat.ne_of_gt hpos), rfl⟩
    · next pba st₁ halloc =>
      obtain ⟨htakes, hleft, hleaves, hmeta⟩ := FtExtState.allocPba_takes halloc
      obtain ⟨hrest, -, hmeta'⟩ := ih (i + 1)
        (Function.update entries (Fin.ofNat nodesPerBlock i) (newFtLeaf pba))
        { st₁ with nrOfLeaves := st₁.nrOfLeaves + 1 }
      refine ⟨⟨htakes.spent.trans hrest.spent, hrest.leaves.trans ?_⟩, fun _ _ => ?_,
        hmeta'.trans hmeta⟩
      · -- the block that was taken is the new leaf
        show st₁.nrOfLeaves + 1 + st₁.nrOfPbas ≤ st.nrOfLeaves + st.nrOfPbas
        rw [hleaves, ← hleft, Nat.add_assoc, Nat.add_comm 1]
      · exact lt_of_le_of_lt hrest.left_le (lt_of_lt_of_eq (Nat.lt_succ_self _) hleft)

/-- A new branch takes a block for each node and each entry, and none of the
meta tree. -/
theorem newFtBranch_takes (degree currGen lvl : ℕ) (st : FtExtState P) :
    st.Takes (newFtBranch degree currGen lvl st).2
      ∧ (newFtBranch degree currGen lvl st).2.metaPbas = st.metaPbas := by
  fun_induction newFtBranch degree currGen lvl st with
  | case1 => exact ⟨.refl _, rfl⟩
  | case2 st entries st' hadd =>
    obtain ⟨htakes, -, hmeta⟩ := addFtLeafs_takes degree 0 (fun _ => type2NodeInvalid) st
    rw [hadd] at htakes hmeta
    exact ⟨htakes, hmeta⟩
  | case3 => exact ⟨.refl _, rfl⟩
  | case4 lvl st pba st₁ halloc tree st₂ hbranch node st₃ hwrite ih =>
    rw [hbranch] at ih
    obtain ⟨-, rfl⟩ := Prod.mk.inj hwrite
    obtain ⟨htakes, -, -, hmeta⟩ := FtExtState.allocPba_takes halloc
    exact ⟨⟨htakes.spent.trans ih.1.spent, ih.1.leaves.trans htakes.leaves⟩, ih.2.trans hmeta⟩

/-- **The descent in the free tree takes a block of the contingent if there is
one.** By induction on the tree. -/
theorem FtNode.extend_takes {degree currGen vba lvl : ℕ} {tree tree' : FtNode}
    {node node' : Type1Node} {st st' : FtExtState P}
    (h : tree.extend P degree currGen vba lvl node st = some (tree', node', st')) :
    st.Takes st' ∧ (0 < degree → 0 < st.nrOfPbas → st'.nrOfPbas < st.nrOfPbas) := by
  induction tree generalizing lvl node st tree' node' st' with
  | leafs entries =>
    unfold FtNode.extend at h
    dsimp only at h
    split_ifs at h
    obtain ⟨⟨pba, st₁⟩, halloc, h⟩ := Option.map_eq_some_iff.mp h
    obtain ⟨-, h⟩ := Prod.mk.inj h
    obtain ⟨-, rfl⟩ := Prod.mk.inj h
    obtain ⟨htakes, hlt, -⟩ := addFtLeafs_takes (degree - childIdxForVba vba 1 degree)
      (childIdxForVba vba 1 degree) entries st
    have hall := htakes.trans (FtExtState.allocNodePba_takes halloc)
    refine ⟨⟨hall.spent, hall.leaves⟩, fun hdegree hpos => ?_⟩
    exact lt_of_le_of_lt (FtExtState.allocNodePba_takes halloc).left_le
      (hlt (Nat.sub_pos_of_lt (childIdxForVba_lt hdegree _ _)) hpos)
  | inner nodes children ih =>
    unfold FtNode.extend at h
    dsimp only at h
    obtain ⟨-, h⟩ := Option.ite_none_left_eq_some.mp h
    obtain ⟨⟨tree₁, st₁⟩, hdown, h⟩ := Option.bind_eq_some_iff.mp h
    obtain ⟨⟨pba, st₂⟩, halloc, h⟩ := Option.map_eq_some_iff.mp h
    obtain ⟨-, h⟩ := Prod.mk.inj h
    obtain ⟨-, rfl⟩ := Prod.mk.inj h
    have hbelow : st.Takes st₁
        ∧ (0 < degree → 0 < st.nrOfPbas → st₁.nrOfPbas < st.nrOfPbas) := by
      split_ifs at hdown
      · -- down to the child
        obtain ⟨⟨tree₂, child, st₃⟩, hrec, hdown⟩ := Option.map_eq_some_iff.mp hdown
        obtain ⟨-, rfl⟩ := Prod.mk.inj hdown
        exact ih _ hrec
      · -- a new branch
        split at hdown
        · next hnone =>
          obtain ⟨-, rfl⟩ := Prod.mk.inj (Option.some.inj hdown)
          exact ⟨.refl _, fun _ hpos => absurd (FtExtState.allocPba_eq_none hnone)
            (Nat.ne_of_gt hpos)⟩
        · next pba₁ st₃ htake =>
          obtain ⟨-, rfl⟩ := Prod.mk.inj (Option.some.inj hdown)
          obtain ⟨htakes, hleft, -⟩ := FtExtState.allocPba_takes htake
          obtain ⟨hrest, -⟩ := newFtBranch_takes degree currGen (lvl - 1) st₃
          refine ⟨⟨htakes.spent.trans hrest.spent, hrest.leaves.trans htakes.leaves⟩,
            fun _ _ => ?_⟩
          exact lt_of_le_of_lt hrest.left_le (lt_of_lt_of_eq (Nat.lt_succ_self _) hleft)
    have hall := hbelow.1.trans (FtExtState.allocNodePba_takes halloc)
    refine ⟨⟨hall.spent, hall.leaves⟩, fun hdegree hpos => ?_⟩
    exact lt_of_le_of_lt (FtExtState.allocNodePba_takes halloc).left_le (hbelow.2 hdegree hpos)

/-- **What an extension step of the free tree takes**: a block at least, if
there is one, and one for each new leaf. -/
theorem executeFtExtensionStepInFt_takes {degree currGen nrOfLeafs maxLvlIdx : ℕ}
    {tree : FtNode} {root : Type1Node} {st : FtExtState P} {res : FtExtension P}
    (h : executeFtExtensionStepInFt P degree currGen nrOfLeafs maxLvlIdx tree root st
      = some res) :
    st.Takes res.state ∧ (0 < degree → 0 < st.nrOfPbas → res.state.nrOfPbas < st.nrOfPbas) := by
  unfold executeFtExtensionStepInFt at h
  split_ifs at h
  · obtain ⟨⟨tree₁, root₁, st₁⟩, hext, rfl⟩ := Option.map_eq_some_iff.mp h
    exact FtNode.extend_takes hext
  · obtain ⟨⟨rootPba, st₁⟩, htake, h⟩ := Option.bind_eq_some_iff.mp h
    obtain ⟨htakes, hleft, -⟩ := FtExtState.allocPba_takes htake
    suffices hrest : st₁.Takes res.state from
      ⟨htakes.trans hrest, fun _ _ =>
        lt_of_le_of_lt hrest.left_le (lt_of_lt_of_eq (Nat.lt_succ_self _) hleft)⟩
    rw [← Option.some.inj h]
    cases htake₂ : st₁.allocPba with
    | none => exact ⟨Contingent.Spent.refl _, le_rfl⟩
    | some taken =>
      have hbranch := (newFtBranch_takes degree currGen maxLvlIdx taken.2).1
      have hall := (FtExtState.allocPba_takes htake₂).1.trans hbranch
      exact ⟨hall.spent, hall.leaves⟩

end Cbe
