import Cbe.VbdRekeying

/-!
# Extending the virtual block device

`Execute_VBD_Extension_Step` of the rekeying module adds leaves to the newest
snapshot from a contingent of new physical blocks. When the tree has room, the
step descends to the place of the first new address, hangs a new branch in there
and rewrites the branch above it with blocks from the free tree; when the tree
is full, it puts a new root level on top, all from the contingent. New leaves
have the initial generation and stay unwritten.

A new branch may be shorter than a path to a leaf: it begins at the level where
the tree has no node yet for the address, and takes as many leaves with it as
its lowest node has places left and the contingent has blocks left. So a step
adds leaves under one level-1 node, and an extension takes many of them.

The job of the module keeps the walk, the blocks and the new addresses of all
levels, as for a rekeying. Which of its fields a procedure of the extension
leaves alone is `Frame`.
-/

namespace Cbe

variable {P : Platform}

/-- `Idx_Of_Invalid_Or_Lowest_Gen_Evictable_Snap`: the first invalid slot, or
else the first of the disposable ones with the lowest generation. -/
def idxOfInvalidOrLowestGenEvictableSnap (snaps : Snapshots) (currGen lastSecuredGen : ℕ) :
    Option SnapshotsIndex :=
  match idxOfAnyInvalidSnap snaps with
  | some i => some i
  | none =>
    (List.finRange superblockNrOfSnapshots).foldl (fun best i =>
      if (snaps i).keep = false ∧ (snaps i).gen ≠ currGen ∧ (snaps i).gen ≠ lastSecuredGen then
        match best with
        | none => some i
        | some j => if (snaps i).gen < (snaps j).gen then some i else some j
      else best) none

namespace RekeyingJob

/-- `Alloc_PBA_From_Resizing_Contingent`. -/
def allocPba (job : RekeyingJob P) : Option (ℕ × RekeyingJob P) :=
  if job.nrOfPbas = 0 then none
  else some (job.pba, { job with pba := job.pba + 1, nrOfPbas := job.nrOfPbas - 1 })

/-- Put an entry into the block of a level. -/
def setEntry (job : RekeyingJob P) (lvl : ℕ) (i : Fin nodesPerBlock) (node : Type1Node) :
    RekeyingJob P :=
  { job with
    t1Blks := Function.update job.t1Blks lvl (Function.update (job.t1Blks lvl) i node) }

/-- The entry of a new block: the initial generation and no hash yet. -/
def newChild (pba : ℕ) : Type1Node := { pba := pba, gen := 0, hash := 0 }

/-- The children of the new level-1 node, from an index on, while blocks are
left. -/
def addLeafs : ℕ → ℕ → RekeyingJob P → RekeyingJob P
  | 0, _, job => job
  | n + 1, i, job =>
    match job.allocPba with
    | none => job
    | some (pba, job) =>
      addLeafs n (i + 1)
        { job.setEntry 1 (Fin.ofNat nodesPerBlock i) (newChild pba) with
          nrOfLeaves := job.nrOfLeaves + 1 }

/-- `Set_Child_PBAs_In_New_Branch`, from a level downwards: one child on every
inner level and all leaves of the level-1 node, as long as blocks are left.
The level it stops at becomes the level at hand. -/
def addBranchLvls (mountLvl : ℕ) (mountChildIdx : ℕ) : ℕ → RekeyingJob P → RekeyingJob P
  | 0, job => job
  | 1, job =>
    let first := if 1 = mountLvl then mountChildIdx else 0
    addLeafs (job.snapshotsDegree - first) first { job with t1BlkIdx := 1 }
  | lvl + 2, job =>
    let job := { job with t1BlkIdx := lvl + 2 }
    match job.allocPba with
    | none => job
    | some (pba, job) =>
      addBranchLvls mountLvl mountChildIdx (lvl + 1)
        (job.setEntry (lvl + 2)
          (Fin.ofNat nodesPerBlock (if lvl + 2 = mountLvl then mountChildIdx else 0))
          (newChild pba))

/-- **`Add_New_Branch_To_Snap_Using_PBA_Contingent`.** -/
def addNewBranch (job : RekeyingJob P) (mountLvl mountChildIdx : ℕ) : RekeyingJob P :=
  let job := { job with
    nrOfLeaves := 0
    t1BlkIdx := mountLvl
    t1Blks := fun lvl =>
      if 1 ≤ lvl ∧ lvl < mountLvl then fun _ => type1NodeInvalid else job.t1Blks lvl }
  if 0 < job.nrOfPbas then addBranchLvls mountLvl mountChildIdx mountLvl job else job

/-- **`Add_New_Root_Lvl_To_Snap_Using_PBA_Contingent`**: the old root becomes
the first child of a new one. A snapshot of an older generation stays, and the
new root goes to another slot. -/
def addNewRootLvl (job : RekeyingJob P) : Option (RekeyingJob P) :=
  if job.snapshot.maxLevel = treeMaxMaxLevel then none
  else
    (if job.snapshot.gen < job.currGen then
      idxOfInvalidOrLowestGenEvictableSnap job.snapshots job.currGen job.lastSecuredGen
    else some job.snapshotIdx).bind fun i =>
      job.allocPba.map fun (pba, job) =>
        { job with
          t1Blks := Function.update job.t1Blks (job.snapshot.maxLevel + 1)
            (fun j => if j = 0 then job.snapshot.root else type1NodeInvalid)
          snapshots := Function.update job.snapshots i
            { pba := pba
              gen := job.currGen
              hash := 0
              nrOfLeafs := job.snapshot.nrOfLeafs
              maxLevel := job.snapshot.maxLevel + 1
              valid := true
              id := 0
              keep := false }
          snapshotIdx := i }

end RekeyingJob

/-! ## The tree has room

The descent goes down as long as the entries are in use, and stops at the first
one that is not. -/

/-- **`Execute_VBD_Ext_Step_Read_Inner_Node_Completed`** and the reads that it
leads to, from a level downwards: down to the level at which the address has no
child yet, where the new branch is mounted. -/
def extDescend (s : Store P) : ℕ → RekeyingJob P → Option (ℕ × RekeyingJob P)
  | 0, _ => none
  | lvl + 1, job =>
    if job.hashOfT1Blk (lvl + 1) ≠ job.recordedHash (lvl + 1) then none
    else if (job.child (lvl + 1)).pba = 0 then
      some (lvl + 1, job.addNewBranch (lvl + 1) (job.childIdx (lvl + 1)))
    else if lvl = 0 then none
    else extDescend s lvl (job.readNode s lvl (job.child (lvl + 1)).pba)

/-- `Set_Args_For_Alloc_Of_New_PBAs_For_Resizing`: the new blocks. Below the
mount point they are those of the new branch. -/
def newPbasForResizing (job : RekeyingJob P) (minLvl : ℕ) : NewPbas := fun lvl =>
  if lvl > job.snapshot.maxLevel then 0
  else if lvl = job.snapshot.maxLevel then 0
  else if lvl ≥ minLvl then 0
  else if (job.child (lvl + 1)).pba = 0 then pbaInvalid
  else (job.child (lvl + 1)).pba

/-- `Set_Args_For_Alloc_Of_New_PBAs_For_Resizing`: the walk. -/
def walkForResizing (job : RekeyingJob P) (minLvl : ℕ) : Type1NodeWalk := fun lvl =>
  if lvl > job.snapshot.maxLevel then type1NodeInvalid
  else if lvl = job.snapshot.maxLevel then job.snapshot.root
  else if lvl ≥ minLvl then job.child (lvl + 1)
  else if (job.child (lvl + 1)).pba = 0 then { job.child (lvl + 1) with pba := pbaInvalid }
  else job.child (lvl + 1)

/-- The request of the extension for blocks. The key ids are those of the last
rekeying job. -/
def resizingRequest (ctx : AllocContext) (job : RekeyingJob P) (minLvl : ℕ) :
    AllocRequest where
  currentGen := job.currGen
  freeGen := job.currGen
  requestedBlocks := job.snapshot.maxLevel - minLvl + 1
  oldBlocks := walkForResizing job minLvl
  maxLevel := job.snapshot.maxLevel
  tag := .forNonRkg
  vba := job.vba
  vbdDegree := job.snapshotsDegree
  vbdHighestVba := ctx.vbdHighestVba
  rekeying := ctx.rekeying
  previousKeyId := job.oldKeyId
  currentKeyId := job.newKeyId
  rekeyingVba := job.vba
  activeSnaps := ctx.activeSnaps
  lastSecuredGen := ctx.lastSecuredGen

/-- `Alloc_PBAs_At_Lowest_Inner_Lvl_Pending` to `…_Completed`. -/
def extAlloc (ctx : AllocContext) (ws : Workspace P) (job : RekeyingJob P) (minLvl : ℕ) :
    Option (Workspace P × RekeyingJob P) :=
  if minLvl > job.snapshot.maxLevel then none
  else
    (ws.allocate (resizingRequest ctx job minLvl) (newPbasForResizing job minLvl)).map
      fun (newPbas, ws) => (ws, { job with newPbas := newPbas })

/-! ## The tree is full

One level more, with the old root as the first child of the new one. -/

/-- `Set_New_PBAs_For_Write_Back_Of_New_Root_Branch`. -/
def newPbasForNewRootBranch (job : RekeyingJob P) : NewPbas := fun lvl =>
  if lvl > job.snapshot.maxLevel then 0
  else if lvl = job.snapshot.maxLevel then job.snapshot.pba
  else (job.child (lvl + 1)).pba

/-! ## Writing

From the lowest level that was changed to the root, each with the hash of the
one below. -/

/-- `Write_Inner_Node_Completed` until the root is written. -/
def extClimb : ℕ → Store P → RekeyingJob P → Store P × RekeyingJob P
  | 0, s, job => (s, job)
  | n + 1, s, job =>
    let (s, job) := rekeyWriteInnerNodeCompleted s job
    extClimb n s job

/-- **`Write_Root_Node_Completed`**: the snapshot of the current generation
with the new root and the new leaves, in a new slot when the one extended is
older. -/
def extSetRoot (job : RekeyingJob P) : Option (RekeyingJob P) :=
  (if job.snapshot.gen < job.currGen then
    idxOfInvalidOrLowestGenEvictableSnap job.snapshots job.currGen job.lastSecuredGen
  else some job.snapshotIdx).map fun i =>
    { job with
      snapshots := Function.update job.snapshots i
        { pba := job.newPbas job.t1BlkIdx
          gen := job.currGen
          hash := job.hashOfT1Blk job.t1BlkIdx
          nrOfLeafs := job.snapshot.nrOfLeafs + job.nrOfLeaves
          maxLevel := job.snapshot.maxLevel
          valid := true
          id := 0
          keep := false }
      snapshotIdx := i }

/-- Write the branch from the level at hand to the root. -/
def extWriteBack (s : Store P) (job : RekeyingJob P) : Store P × RekeyingJob P :=
  extClimb (job.snapshot.maxLevel - job.t1BlkIdx) (job.writeNode s job.t1BlkIdx) job

/-! ### What a branch leaves alone

The fields that tell which snapshot and which address the step is about. -/

/-- A block of the contingent. -/
theorem allocPba_frame {job job' : RekeyingJob P} {pba : ℕ}
    (h : job.allocPba = some (pba, job')) : RekeyingJob.Frame job job' := by
  unfold RekeyingJob.allocPba at h
  split_ifs at h
  obtain ⟨-, rfl⟩ := Prod.mk.inj (Option.some.inj h)
  exact ⟨rfl, rfl, rfl, rfl, rfl, rfl, rfl, rfl, rfl⟩

/-- New leaves. -/
theorem addLeafs_frame (n i : ℕ) (job : RekeyingJob P) :
    RekeyingJob.Frame job (RekeyingJob.addLeafs n i job) := by
  induction n generalizing i job with
  | zero => exact RekeyingJob.Frame.refl job
  | succ n ih =>
    unfold RekeyingJob.addLeafs
    split
    · exact RekeyingJob.Frame.refl job
    · next pba job₁ halloc =>
      refine (allocPba_frame halloc).trans (RekeyingJob.Frame.trans ?_ (ih _ _))
      exact ⟨rfl, rfl, rfl, rfl, rfl, rfl, rfl, rfl, rfl⟩

/-- New inner nodes. -/
theorem addBranchLvls_frame (mountLvl mountChildIdx lvl : ℕ) (job : RekeyingJob P) :
    RekeyingJob.Frame job (RekeyingJob.addBranchLvls mountLvl mountChildIdx lvl job) := by
  fun_induction RekeyingJob.addBranchLvls mountLvl mountChildIdx lvl job with
  | case1 => exact RekeyingJob.Frame.refl _
  | case2 job =>
    refine RekeyingJob.Frame.trans ?_ (addLeafs_frame _ _ _)
    exact ⟨rfl, rfl, rfl, rfl, rfl, rfl, rfl, rfl, rfl⟩
  | case3 => exact ⟨rfl, rfl, rfl, rfl, rfl, rfl, rfl, rfl, rfl⟩
  | case4 lvl job₁ job₂ pba job₃ halloc ih =>
    have hstart : RekeyingJob.Frame job₁ job₂ := ⟨rfl, rfl, rfl, rfl, rfl, rfl, rfl, rfl, rfl⟩
    refine hstart.trans ((allocPba_frame halloc).trans (RekeyingJob.Frame.trans ?_ ih))
    exact ⟨rfl, rfl, rfl, rfl, rfl, rfl, rfl, rfl, rfl⟩

/-- A new branch. -/
theorem addNewBranch_frame (job : RekeyingJob P) (mountLvl mountChildIdx : ℕ) :
    RekeyingJob.Frame job (job.addNewBranch mountLvl mountChildIdx) := by
  unfold RekeyingJob.addNewBranch
  dsimp only
  split_ifs
  · refine RekeyingJob.Frame.trans ?_ (addBranchLvls_frame _ _ _ _)
    exact ⟨rfl, rfl, rfl, rfl, rfl, rfl, rfl, rfl, rfl⟩
  · exact ⟨rfl, rfl, rfl, rfl, rfl, rfl, rfl, rfl, rfl⟩

/-- The descent. -/
theorem extDescend_frame {s : Store P} {lvl minLvl : ℕ} {job job' : RekeyingJob P}
    (h : extDescend s lvl job = some (minLvl, job')) : RekeyingJob.Frame job job' := by
  induction lvl generalizing job with
  | zero => exact absurd h (by simp [extDescend])
  | succ lvl ih =>
    unfold extDescend at h
    split_ifs at h
    · obtain ⟨-, rfl⟩ := Prod.mk.inj (Option.some.inj h)
      exact addNewBranch_frame _ _ _
    · exact (RekeyingJob.Frame.readNode job s _ _).trans (ih h)

/-- The request to the free tree. -/
theorem extAlloc_frame {ctx : AllocContext} {ws ws' : Workspace P}
    {job job' : RekeyingJob P} {minLvl : ℕ}
    (h : extAlloc ctx ws job minLvl = some (ws', job')) : RekeyingJob.Frame job job' := by
  unfold extAlloc at h
  split_ifs at h
  obtain ⟨⟨newPbas, ws₁⟩, -, h⟩ := Option.map_eq_some_iff.mp h
  obtain ⟨-, rfl⟩ := Prod.mk.inj h
  exact ⟨rfl, rfl, rfl, rfl, rfl, rfl, rfl, rfl, rfl⟩

/-- The writes. -/
theorem extWriteBack_frame (s : Store P) (job : RekeyingJob P) :
    RekeyingJob.Frame job (extWriteBack s job).2 := by
  have hclimb : ∀ (n : ℕ) (s : Store P) (job : RekeyingJob P),
      RekeyingJob.Frame job (extClimb n s job).2 := by
    intro n
    induction n with
    | zero => exact fun s job => RekeyingJob.Frame.refl job
    | succ n ih => exact fun s job => (rekeyWriteInnerNodeCompleted_frame s job).trans (ih _ _)
  exact hclimb _ _ _

/-- `Submit_Primitive_Resizing`. -/
def submitResizing (job : RekeyingJob P) (sb : Superblock) (currGen firstPba nrOfPbas : ℕ) :
    RekeyingJob P :=
  { job with
    currGen := currGen
    lastSecuredGen := sb.lastSecuredGeneration
    snapshots := sb.snapshots
    snapshotsDegree := sb.degree
    pba := firstPba
    nrOfPbas := nrOfPbas }

/-- **`Execute_VBD_Extension_Step`**, from `Submitted` to `Completed`. -/
def executeVbdExtensionStepInVbd (ctx : AllocContext) (ws : Workspace P)
    (job : RekeyingJob P) : Option (Workspace P × RekeyingJob P) :=
  let job := { job with
    snapshots := discardDisposableSnapshots job.snapshots job.currGen job.lastSecuredGen
    nrOfLeaves := 0 }
  (newestSnapshotIdx job.snapshots).bind fun i =>
    let job := { job with snapshotIdx := i, vba := (job.snapshots i).nrOfLeafs }
    if job.vba < treeCapacity job.snapshotsDegree job.snapshot.maxLevel then
      (extDescend ws.store job.snapshot.maxLevel
          (job.readNode ws.store job.snapshot.maxLevel job.snapshot.pba)).bind
        fun (minLvl, job) => (extAlloc ctx ws job minLvl).bind fun (ws, job) =>
          let (s, job) := extWriteBack ws.store job
          (extSetRoot job).map fun job => ({ ws with store := s }, job)
    else
      let job := { job with
        t1BlksOldPbas :=
          Function.update job.t1BlksOldPbas job.snapshot.maxLevel job.snapshot.pba }
      job.addNewRootLvl.bind fun job =>
        let job := job.addNewBranch job.snapshot.maxLevel 1
        let job := { job with newPbas := newPbasForNewRootBranch job }
        let (s, job) := extWriteBack ws.store job
        (extSetRoot job).map fun job => ({ ws with store := s }, job)

/-! ### What an extension step does to the snapshots

The newest one is replaced, or is put into another slot if it is of an earlier
generation. -/

/-- The slot of the snapshot that an extension leaves: the one of the snapshot
extended if that is of the current generation, else another one. -/
def extendedSlot (snaps : Snapshots) (newest : SnapshotsIndex) (currGen lastSecuredGen : ℕ) :
    Option SnapshotsIndex :=
  if (snaps newest).gen < currGen then
    idxOfInvalidOrLowestGenEvictableSnap snaps currGen lastSecuredGen
  else some newest

/-- **The table with one snapshot of the current generation put into a slot**:
valid, not kept, and everything else as before. -/
structure PutInto (snaps snaps' : Snapshots) (slot : SnapshotsIndex) (currGen : ℕ) : Prop where
  gen : (snaps' slot).gen = currGen
  valid : (snaps' slot).valid = true
  keep : (snaps' slot).keep = false
  other : ∀ i, i ≠ slot → snaps' i = snaps i

/-- A snapshot is put into a slot. -/
theorem PutInto.update {snaps : Snapshots} {slot : SnapshotsIndex} {snap : Snapshot}
    (hvalid : snap.valid = true) (hkeep : snap.keep = false) :
    PutInto snaps (Function.update snaps slot snap) slot snap.gen where
  gen := by rw [Function.update_self]
  valid := by rw [Function.update_self, hvalid]
  keep := by rw [Function.update_self, hkeep]
  other i hi := Function.update_of_ne hi _ _

/-- The slot may be written once more. -/
theorem PutInto.again {snaps snaps' : Snapshots} {slot : SnapshotsIndex} {currGen : ℕ}
    {snap : Snapshot} (h : PutInto snaps snaps' slot currGen) (hgen : snap.gen = currGen)
    (hvalid : snap.valid = true) (hkeep : snap.keep = false) :
    PutInto snaps (Function.update snaps' slot snap) slot currGen where
  gen := by rw [Function.update_self, hgen]
  valid := by rw [Function.update_self, hvalid]
  keep := by rw [Function.update_self, hkeep]
  other i hi := (Function.update_of_ne hi _ _).trans (h.other i hi)

/-- A new root level puts a snapshot of the current generation into the
table. -/
theorem addNewRootLvl_snapshots {job job' : RekeyingJob P}
    (h : job.addNewRootLvl = some job') :
    ∃ slot, extendedSlot job.snapshots job.snapshotIdx job.currGen job.lastSecuredGen
          = some slot
      ∧ PutInto job.snapshots job'.snapshots slot job.currGen
      ∧ job'.snapshotIdx = slot ∧ job'.currGen = job.currGen := by
  unfold RekeyingJob.addNewRootLvl at h
  by_cases hmax : job.snapshot.maxLevel = treeMaxMaxLevel
  · rw [if_pos hmax] at h
    exact absurd h (by simp)
  · rw [if_neg hmax] at h
    obtain ⟨slot, hslot, h⟩ := Option.bind_eq_some_iff.mp h
    obtain ⟨⟨pba, job₁⟩, halloc, rfl⟩ := Option.map_eq_some_iff.mp h
    have hframe := allocPba_frame halloc
    refine ⟨slot, hslot, ?_, rfl, hframe.currGen⟩
    rw [← hframe.snapshots, ← hframe.currGen]
    exact PutInto.update rfl rfl

/-- **An extension step purges the table and puts one snapshot of the current
generation into it.** -/
theorem executeVbdExtensionStepInVbd_snapshots {ctx : AllocContext} {ws ws' : Workspace P}
    {job job' : RekeyingJob P}
    (h : executeVbdExtensionStepInVbd ctx ws job = some (ws', job')) :
    ∃ newest slot,
      newestSnapshotIdx
          (discardDisposableSnapshots job.snapshots job.currGen job.lastSecuredGen) = some newest
        ∧ extendedSlot
            (discardDisposableSnapshots job.snapshots job.currGen job.lastSecuredGen) newest
            job.currGen job.lastSecuredGen = some slot
        ∧ PutInto (discardDisposableSnapshots job.snapshots job.currGen job.lastSecuredGen)
            job'.snapshots slot job.currGen := by
  unfold executeVbdExtensionStepInVbd at h
  obtain ⟨newest, hnewest, h⟩ := Option.bind_eq_some_iff.mp h
  dsimp only at h
  split_ifs at h
  · -- a new branch in the tree
    obtain ⟨⟨minLvl, job₁⟩, hdesc, h⟩ := Option.bind_eq_some_iff.mp h
    obtain ⟨⟨ws₂, job₂⟩, halloc, h⟩ := Option.bind_eq_some_iff.mp h
    obtain ⟨job₃, hroot, h⟩ := Option.map_eq_some_iff.mp h
    obtain ⟨-, rfl⟩ := Prod.mk.inj h
    have hframe := ((RekeyingJob.Frame.readNode _ _ _ _).trans (extDescend_frame hdesc)).trans
      ((extAlloc_frame halloc).trans (extWriteBack_frame ws₂.store job₂))
    obtain ⟨slot, hslot, rfl⟩ := Option.map_eq_some_iff.mp hroot
    rw [hframe.snapshot, hframe.snapshots, hframe.currGen, hframe.lastSecuredGen,
      hframe.snapshotIdx] at hslot
    refine ⟨newest, slot, hnewest, hslot, ?_⟩
    dsimp only
    rw [hframe.snapshots, hframe.currGen]
    exact PutInto.update rfl rfl
  · -- a new root level
    obtain ⟨job₁, hadd, h⟩ := Option.bind_eq_some_iff.mp h
    obtain ⟨job₃, hroot, h⟩ := Option.map_eq_some_iff.mp h
    obtain ⟨-, rfl⟩ := Prod.mk.inj h
    obtain ⟨slot, hslot, hput, hidx, hcurr⟩ := addNewRootLvl_snapshots hadd
    have hframe : RekeyingJob.Frame job₁ (extWriteBack ws.store
        { job₁.addNewBranch job₁.snapshot.maxLevel 1 with
          newPbas := newPbasForNewRootBranch
            (job₁.addNewBranch job₁.snapshot.maxLevel 1) }).2 := by
      refine (addNewBranch_frame job₁ job₁.snapshot.maxLevel 1).trans
        (RekeyingJob.Frame.trans ?_ (extWriteBack_frame ws.store _))
      exact ⟨rfl, rfl, rfl, rfl, rfl, rfl, rfl, rfl, rfl⟩
    obtain ⟨slot', hslot', rfl⟩ := Option.map_eq_some_iff.mp hroot
    have hgen : job₁.snapshot.gen = job₁.currGen := by
      unfold RekeyingJob.snapshot
      rw [hidx, hput.gen, hcurr]
    -- the snapshot of the new root is of the current generation, so it keeps its slot
    rw [hframe.snapshot, hframe.currGen, hgen, if_neg (lt_irrefl _), hframe.snapshotIdx,
      hidx] at hslot'
    obtain rfl := Option.some.inj hslot'
    refine ⟨newest, slot, hnewest, hslot, ?_⟩
    dsimp only
    rw [hframe.snapshots]
    exact hput.again (hframe.currGen.trans hcurr) rfl rfl

end Cbe
