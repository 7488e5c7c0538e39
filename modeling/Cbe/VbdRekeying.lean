import Cbe.VirtualBlockDevice

/-!
# Rekeying one virtual block

`Execute_Rekey_VBA` re-encrypts the data block of one virtual block address in
all snapshots. It goes from the newest snapshot to the oldest one that
contains the address. In each it descends to the leaf, comparing every child
with the block it met on the way of the snapshot before: from a shared child
on, the new blocks of that snapshot are shared again. The blocks of the branch
that are not shared are exchanged at the free tree, and the branch is written
from the bottom up.

The job is a state machine; a function here is the stretch of states that its
name or its docstring gives. `Option` is `none` where the source raises. The
arrays of the job keep their content from one job to the next, and so does the
address of the data block read last, so the job is part of the state of the
device.
-/

namespace Cbe

variable {P : Platform}

/-- **`Job_Type`** of the rekeying module, without the states and the
primitives. The last three fields belong to extension jobs. -/
structure RekeyingJob (P : Platform) where
  /-- The table of the snapshots, whose roots are replaced one by one. -/
  snapshots : Snapshots
  /-- The degree of their trees. -/
  snapshotsDegree : ℕ
  /-- The snapshot at hand. -/
  snapshotIdx : SnapshotsIndex
  /-- Whether it is the first one, which shares nothing with one before. -/
  firstSnapshot : Bool
  /-- The key that the data was encrypted with. -/
  oldKeyId : ℕ
  /-- The key that it is encrypted with from now on. -/
  newKeyId : ℕ
  /-- The node block of each level, as read and then as it is to be written. -/
  t1Blks : ℕ → Type1NodeBlock
  /-- The address that the node block of each level was read from. -/
  t1BlksOldPbas : ℕ → ℕ
  /-- The level at hand. -/
  t1BlkIdx : ℕ
  /-- The data block. -/
  dataBlk : P.Block
  /-- The address that it was read from. -/
  dataBlkOldPba : ℕ
  /-- The virtual block address. -/
  vba : ℕ
  /-- The new address of each level. -/
  newPbas : NewPbas
  /-- The generation that is written. -/
  currGen : ℕ
  /-- The generation that was secured last. -/
  lastSecuredGen : ℕ
  /-- The first block that is left of the contingent. -/
  pba : ℕ
  /-- How many blocks are left of it. -/
  nrOfPbas : ℕ
  /-- How many leaves were added. -/
  nrOfLeaves : ℕ

/-- What the job works on besides itself: the blocks of the device, the free
tree and the blocks that the meta tree will hand out. -/
structure Workspace (P : Platform) where
  /-- The blocks of the device. -/
  store : Store P
  /-- The free tree with its root, and what the meta tree has for it. -/
  pools : Pools
  /-- What the free tree has written to its own blocks. -/
  freeWrites : List (ℕ × P.Block)

/-- What the library adds to a request of the module for the free tree. -/
structure AllocContext where
  /-- The last virtual block address. -/
  vbdHighestVba : ℕ
  /-- Whether a rekeying is in progress. -/
  rekeying : Bool
  /-- The snapshots that may need a block. -/
  activeSnaps : Snapshots
  /-- The generation that was secured last. -/
  lastSecuredGen : ℕ

namespace RekeyingJob

/-- `Initialize_Rekeying`, for the one job of the module. -/
def initial (P : Platform) : RekeyingJob P where
  snapshots _ := snapshotInvalid
  snapshotsDegree := 1
  snapshotIdx := 0
  firstSnapshot := false
  oldKeyId := 0
  newKeyId := 0
  t1Blks _ _ := type1NodeInvalid
  t1BlksOldPbas _ := 0
  t1BlkIdx := 1
  dataBlk := P.zero
  dataBlkOldPba := 0
  vba := 0
  newPbas _ := 0
  currGen := 0
  lastSecuredGen := 0
  pba := 0
  nrOfPbas := 0
  nrOfLeaves := 0

/-- The snapshot at hand. -/
def snapshot (job : RekeyingJob P) : Snapshot := job.snapshots job.snapshotIdx

/-- The child index of the address at a level. -/
def childIdx (job : RekeyingJob P) (lvl : ℕ) : Fin nodesPerBlock :=
  childIdxForVba job.vba lvl job.snapshotsDegree

/-- The entry of the child on the way to the address, in the block of a
level. -/
def child (job : RekeyingJob P) (lvl : ℕ) : Type1Node := job.t1Blks lvl (job.childIdx lvl)

/-- `Hash_Of_T1_Node_Blk`, for the block of a level. -/
def hashOfT1Blk (job : RekeyingJob P) (lvl : ℕ) : Hash :=
  P.hash (P.blockDataFromType1NodeBlock (job.t1Blks lvl))

/-- Read the node of a level: remember its address and take its block. -/
def readNode (job : RekeyingJob P) (s : Store P) (lvl pba : ℕ) : RekeyingJob P :=
  { job with
    t1BlkIdx := lvl
    t1BlksOldPbas := Function.update job.t1BlksOldPbas lvl pba
    t1Blks := Function.update job.t1Blks lvl (s.type1NodeBlock pba) }

/-- The hash that the parent of a level, or the snapshot, records for it. -/
def recordedHash (job : RekeyingJob P) (lvl : ℕ) : Hash :=
  if lvl = job.snapshot.maxLevel then job.snapshot.hash else (job.child (lvl + 1)).hash

end RekeyingJob

/-! ## Descending

From the root of a snapshot to the leaf, with the hash of each node checked. -/

/-- Where a descent ends: at a child shared with the snapshot before, at a
leaf that needs no encryption, or at a leaf that was decrypted. The number is
the lowest level that needs a new block. -/
inductive RekeyingStop where
  | higherInnerLvl (minLvl : ℕ)
  | lowestInnerLvl (minLvl : ℕ)
  | leafLvl
  deriving DecidableEq

/-- **`Execute_Rekey_VBA_Read_Inner_Node_Completed`** and the reads that it
leads to, from a level downwards, up to the state that asks the free tree for
blocks. -/
def rekeyDescend (s : Store P) : ℕ → RekeyingJob P → Option (RekeyingStop × RekeyingJob P)
  | 0, _ => none
  | 1, job =>
    if job.hashOfT1Blk 1 ≠ job.recordedHash 1 then none
    else if job.firstSnapshot = false ∧ job.dataBlkOldPba = (job.child 1).pba then
      some (.lowestInnerLvl 1, job)
    else if (job.child 1).gen = 0 then some (.lowestInnerLvl 0, job)
    else
      let blk := s.blocks (job.child 1).pba
      if P.hash blk ≠ (job.child 1).hash then none
      else
        some (.leafLvl, { job with
          dataBlkOldPba := (job.child 1).pba
          dataBlk := P.decrypt job.oldKeyId blk })
  | lvl + 2, job =>
    if job.hashOfT1Blk (lvl + 2) ≠ job.recordedHash (lvl + 2) then none
    else if job.firstSnapshot = false
        ∧ job.t1BlksOldPbas (lvl + 1) = (job.child (lvl + 2)).pba then
      some (.higherInnerLvl (lvl + 2), { job with t1BlkIdx := lvl + 1 })
    else
      rekeyDescend s (lvl + 1) (job.readNode s (lvl + 1) (job.child (lvl + 2)).pba)

/-! ## Allocating

The blocks of the branch that are not shared, in exchange for the old ones. -/

/-- The lowest level that needs a new block. -/
def RekeyingStop.minLvl : RekeyingStop → ℕ
  | .higherInnerLvl lvl | .lowestInnerLvl lvl => lvl
  | .leafLvl => 0

/-- `Set_Args_For_Alloc_Of_New_PBAs_For_Rekeying`: the new blocks, 0 where one
is needed. -/
def newPbasForRekeying (job : RekeyingJob P) (minLvl : ℕ) : NewPbas := fun lvl =>
  if lvl > job.snapshot.maxLevel then 0
  else if lvl = job.snapshot.maxLevel then 0
  else if lvl ≥ minLvl then 0
  else job.newPbas lvl

/-- `Set_Args_For_Alloc_Of_New_PBAs_For_Rekeying`: the walk. -/
def walkForRekeying (job : RekeyingJob P) (minLvl : ℕ) : Type1NodeWalk := fun lvl =>
  if lvl > job.snapshot.maxLevel then type1NodeInvalid
  else if lvl = job.snapshot.maxLevel then job.snapshot.root
  else if lvl ≥ minLvl then job.child (lvl + 1)
  else { job.child (lvl + 1) with pba := job.newPbas lvl }

/-- The request of the rekeying for blocks, as the library passes it on: the
blocks of the newest snapshot go to the current generation, those of an older
one to the generation after it. -/
def rekeyingRequest (ctx : AllocContext) (job : RekeyingJob P) (minLvl : ℕ) :
    AllocRequest where
  currentGen := job.currGen
  freeGen := if job.firstSnapshot = true then job.currGen else nextGeneration job.snapshot.gen
  requestedBlocks := job.snapshot.maxLevel - minLvl + 1
  oldBlocks := walkForRekeying job minLvl
  maxLevel := job.snapshot.maxLevel
  tag := if job.firstSnapshot = true then .forRkgCurrGenBlks else .forRkgOldGenBlks
  vba := job.vba
  vbdDegree := job.snapshotsDegree
  vbdHighestVba := ctx.vbdHighestVba
  rekeying := ctx.rekeying
  previousKeyId := job.oldKeyId
  currentKeyId := job.newKeyId
  rekeyingVba := job.vba
  activeSnaps := ctx.activeSnaps
  lastSecuredGen := ctx.lastSecuredGen

/-- The free tree serves a request of a job; its root goes to the superblock. -/
def Workspace.allocate (ws : Workspace P) (req : AllocRequest) (newPbas : NewPbas) :
    Option (NewPbas × Workspace P) :=
  (Cbe.allocate P req newPbas ws.pools.freeRoot ws.pools.freeTree ws.pools.metaPbas).map
    fun res =>
      (res.newPbas, { ws with
        pools := { freeRoot := res.root, freeTree := res.tree, metaPbas := res.metaPbas }
        freeWrites := ws.freeWrites ++ res.writes })

/-- `Alloc_PBAs_At_…_Pending` to `…_Completed`. -/
def rekeyAlloc (ctx : AllocContext) (ws : Workspace P) (job : RekeyingJob P) (minLvl : ℕ) :
    Option (Workspace P × RekeyingJob P) :=
  if minLvl > job.snapshot.maxLevel then none
  else
    (ws.allocate (rekeyingRequest ctx job minLvl) (newPbasForRekeying job minLvl)).map
      fun (newPbas, ws) => (ws, { job with newPbas := newPbas })

/-! ## Writing

The data first, then the nodes from the lowest one up. -/

/-- Write the block of a level to its new address. -/
def RekeyingJob.writeNode (job : RekeyingJob P) (s : Store P) (lvl : ℕ) : Store P :=
  s.write (job.newPbas lvl) (P.blockDataFromType1NodeBlock (job.t1Blks lvl))

/-- The entry of a level takes over the new address and the new hash of the
child. Its generation stays. -/
def RekeyingJob.setChild (job : RekeyingJob P) (lvl pba : ℕ) (hash : Hash) : RekeyingJob P :=
  { job with
    t1Blks := Function.update job.t1Blks lvl
      (Function.update (job.t1Blks lvl) (job.childIdx lvl)
        { job.child lvl with pba := pba, hash := hash }) }

/-- `Alloc_PBAs_At_Leaf_Lvl_Completed` to `Write_Leaf_Node_Completed`: encrypt
the data under the new key and write it. -/
def rekeyWriteLeaf (s : Store P) (job : RekeyingJob P) : Store P × RekeyingJob P :=
  let blk := P.encrypt job.newKeyId job.dataBlk
  (s.write (job.newPbas 0) blk, { job with dataBlk := blk })

/-- `Write_Leaf_Node_Completed`: update the leaf's entry and write the level-1
node. -/
def rekeyWriteLeafCompleted (s : Store P) (job : RekeyingJob P) : Store P × RekeyingJob P :=
  let job := job.setChild 1 (job.newPbas 0) (P.hash job.dataBlk)
  (job.writeNode s 1, job)

/-- **`Write_Inner_Node_Completed`**: update the entry of the node in its
parent and write the parent. -/
def rekeyWriteInnerNodeCompleted (s : Store P) (job : RekeyingJob P) :
    Store P × RekeyingJob P :=
  let lvl := job.t1BlkIdx
  let job := { job.setChild (lvl + 1) (job.newPbas lvl) (job.hashOfT1Blk lvl) with
    t1BlkIdx := lvl + 1 }
  (job.writeNode s (lvl + 1), job)

/-- The climb to the root: `Write_Inner_Node_Completed` until the node written
is the root, where `n` is the number of inner levels left above the parent. -/
def rekeyClimb : ℕ → Store P → RekeyingJob P → Store P × RekeyingJob P
  | 0, s, job => rekeyWriteInnerNodeCompleted s job
  | n + 1, s, job =>
    let (s, job) := rekeyWriteInnerNodeCompleted s job
    rekeyClimb n s job

/-- The stretch between the allocation and the climb: the data block and the
level-1 node, unless a higher child was shared. -/
def rekeyLeaf (stop : RekeyingStop) (s : Store P) (job : RekeyingJob P) :
    Store P × RekeyingJob P :=
  match stop with
  | .leafLvl =>
    let (s, job) := rekeyWriteLeaf s job
    rekeyWriteLeafCompleted s job
  | .lowestInnerLvl _ => rekeyWriteLeafCompleted s job
  | .higherInnerLvl _ => (s, job)

/-- **One branch**, from the read of the root to the write of the root. -/
def rekeyBranch (ctx : AllocContext) (ws : Workspace P) (job : RekeyingJob P) :
    Option (Workspace P × RekeyingJob P) :=
  let job := job.readNode ws.store job.snapshot.maxLevel job.snapshot.pba
  (rekeyDescend ws.store job.snapshot.maxLevel job).bind fun (stop, job) =>
    (rekeyAlloc ctx ws job stop.minLvl).map fun (ws, job) =>
      let (s, job) := rekeyLeaf stop ws.store job
      let (s, job) := rekeyClimb (job.snapshot.maxLevel - (job.t1BlkIdx + 1)) s job
      ({ ws with store := s }, job)

/-! ### What a branch leaves alone

The address, the keys and the snapshots that are to come. -/

/-- The snapshots and the arguments of the job are the same. -/
structure RekeyingJob.Frame (job job' : RekeyingJob P) : Prop where
  /-- The snapshots are the same. -/
  snapshots : job'.snapshots = job.snapshots
  /-- Their degree is the same. -/
  snapshotsDegree : job'.snapshotsDegree = job.snapshotsDegree
  /-- The snapshot at hand is the same. -/
  snapshotIdx : job'.snapshotIdx = job.snapshotIdx
  /-- It is the first one if it was. -/
  firstSnapshot : job'.firstSnapshot = job.firstSnapshot
  /-- The old key is the same. -/
  oldKeyId : job'.oldKeyId = job.oldKeyId
  /-- The new key is the same. -/
  newKeyId : job'.newKeyId = job.newKeyId
  /-- The address is the same. -/
  vba : job'.vba = job.vba
  /-- The current generation is the same. -/
  currGen : job'.currGen = job.currGen
  /-- The last secured generation is the same. -/
  lastSecuredGen : job'.lastSecuredGen = job.lastSecuredGen

namespace RekeyingJob.Frame

/-- Nothing was done. -/
theorem refl (job : RekeyingJob P) : Frame job job := ⟨rfl, rfl, rfl, rfl, rfl, rfl, rfl, rfl, rfl⟩

/-- Two procedures one after the other. -/
theorem trans {job₁ job₂ job₃ : RekeyingJob P} (h : Frame job₁ job₂) (h' : Frame job₂ job₃) :
    Frame job₁ job₃ where
  snapshots := h'.snapshots.trans h.snapshots
  snapshotsDegree := h'.snapshotsDegree.trans h.snapshotsDegree
  snapshotIdx := h'.snapshotIdx.trans h.snapshotIdx
  firstSnapshot := h'.firstSnapshot.trans h.firstSnapshot
  oldKeyId := h'.oldKeyId.trans h.oldKeyId
  newKeyId := h'.newKeyId.trans h.newKeyId
  vba := h'.vba.trans h.vba
  currGen := h'.currGen.trans h.currGen
  lastSecuredGen := h'.lastSecuredGen.trans h.lastSecuredGen

/-- The snapshot at hand is the same. -/
theorem snapshot {job job' : RekeyingJob P} (h : Frame job job') :
    job'.snapshot = job.snapshot := by
  unfold RekeyingJob.snapshot
  rw [h.snapshots, h.snapshotIdx]

theorem readNode (job : RekeyingJob P) (s : Store P) (lvl pba : ℕ) :
    Frame job (job.readNode s lvl pba) := ⟨rfl, rfl, rfl, rfl, rfl, rfl, rfl, rfl, rfl⟩

theorem setChild (job : RekeyingJob P) (lvl pba : ℕ) (hash : Hash) :
    Frame job (job.setChild lvl pba hash) := ⟨rfl, rfl, rfl, rfl, rfl, rfl, rfl, rfl, rfl⟩

end RekeyingJob.Frame

/-- A descent reads nodes and a leaf. -/
theorem rekeyDescend_frame {s : Store P} {lvl : ℕ} {job job' : RekeyingJob P}
    {stop : RekeyingStop} (h : rekeyDescend s lvl job = some (stop, job')) :
    RekeyingJob.Frame job job' := by
  fun_induction rekeyDescend s lvl job with
  | case1 => exact absurd h (by simp)
  | case2 | case5 | case7 => exact absurd h (by simp)
  | case3 | case4 | case6 | case8 =>
    obtain ⟨-, rfl⟩ := Prod.mk.inj (Option.some.inj h)
    exact ⟨rfl, rfl, rfl, rfl, rfl, rfl, rfl, rfl, rfl⟩
  | case9 lvl job _ _ ih => exact (RekeyingJob.Frame.readNode job s _ _).trans (ih h)

/-- An allocation gives new blocks. -/
theorem rekeyAlloc_frame {ctx : AllocContext} {ws ws' : Workspace P}
    {job job' : RekeyingJob P} {minLvl : ℕ}
    (h : rekeyAlloc ctx ws job minLvl = some (ws', job')) : RekeyingJob.Frame job job' := by
  unfold rekeyAlloc at h
  split_ifs at h
  obtain ⟨⟨newPbas, ws₁⟩, -, h⟩ := Option.map_eq_some_iff.mp h
  obtain ⟨-, rfl⟩ := Prod.mk.inj h
  exact ⟨rfl, rfl, rfl, rfl, rfl, rfl, rfl, rfl, rfl⟩

/-- The write of a node. -/
theorem rekeyWriteInnerNodeCompleted_frame (s : Store P) (job : RekeyingJob P) :
    RekeyingJob.Frame job (rekeyWriteInnerNodeCompleted s job).2 :=
  ⟨rfl, rfl, rfl, rfl, rfl, rfl, rfl, rfl, rfl⟩

/-- The writes of all nodes. -/
theorem rekeyClimb_frame (n : ℕ) (s : Store P) (job : RekeyingJob P) :
    RekeyingJob.Frame job (rekeyClimb n s job).2 := by
  induction n generalizing s job with
  | zero => exact rekeyWriteInnerNodeCompleted_frame s job
  | succ n ih => exact (rekeyWriteInnerNodeCompleted_frame s job).trans (ih _ _)

/-- **A branch leaves the snapshots and the arguments alone.** -/
theorem rekeyBranch_frame {ctx : AllocContext} {ws ws' : Workspace P}
    {job job' : RekeyingJob P} (h : rekeyBranch ctx ws job = some (ws', job')) :
    RekeyingJob.Frame job job' := by
  unfold rekeyBranch at h
  obtain ⟨⟨stop, job₁⟩, hdesc, h⟩ := Option.bind_eq_some_iff.mp h
  obtain ⟨⟨ws₂, job₂⟩, halloc, h⟩ := Option.map_eq_some_iff.mp h
  obtain ⟨-, rfl⟩ := Prod.mk.inj h
  have hread := (RekeyingJob.Frame.readNode job ws.store job.snapshot.maxLevel
    job.snapshot.pba).trans (rekeyDescend_frame hdesc)
  refine (hread.trans (rekeyAlloc_frame halloc)).trans ?_
  cases stop with
  | higherInnerLvl => exact rekeyClimb_frame _ _ _
  | lowestInnerLvl => exact (RekeyingJob.Frame.setChild job₂ _ _ _).trans (rekeyClimb_frame _ _ _)
  | leafLvl =>
    refine RekeyingJob.Frame.trans ?_ (rekeyClimb_frame _ _ _)
    exact ⟨rfl, rfl, rfl, rfl, rfl, rfl, rfl, rfl, rfl⟩

/-! ## The snapshots

The loop over the snapshots, from the newest one on. -/

/-- `Snapshot_Contains_VBA`. A snapshot without leaves has no last address and the
conversion raises: `Leafless`. -/
def snapshotContainsVba (snap : Snapshot) (vba : ℕ) : Prop := vba ≤ snap.nrOfLeafs - 1

instance (snap : Snapshot) (vba : ℕ) : Decidable (snapshotContainsVba snap vba) :=
  inferInstanceAs (Decidable (_ ≤ _))

/-- Some valid snapshot has no leaves. The search for the next snapshot asks each
of the valid ones for its last address, so it raises then. -/
def Leafless (snaps : Snapshots) : Prop :=
  ∃ i, (snaps i).valid = true ∧ (snaps i).nrOfLeafs = 0

instance (snaps : Snapshots) : Decidable (Leafless snaps) :=
  inferInstanceAs (Decidable (∃ _, _))

/-- `Find_Next_Snapshot`: the first of the newest valid snapshots that contain
the address and are older than the one at hand. -/
def nextSnapshotIdx (job : RekeyingJob P) : Option SnapshotsIndex :=
  Selection.firstMax
    (fun i => (job.snapshots i).valid = true
      ∧ snapshotContainsVba (job.snapshots i) job.vba
      ∧ (job.snapshots i).gen < job.snapshot.gen)
    (fun i => (job.snapshots i).gen) (List.finRange superblockNrOfSnapshots)

/-- `Write_Root_Node_Completed`: the snapshot takes over the new root. -/
def rekeySetRoot (job : RekeyingJob P) : RekeyingJob P :=
  { job with
    snapshots := Function.update job.snapshots job.snapshotIdx { job.snapshot with
      pba := job.newPbas job.t1BlkIdx
      hash := job.hashOfT1Blk job.t1BlkIdx } }

/-- **The snapshots that are left**, from `Write_Root_Node_Completed` on. A
snapshot with the old root of the one before takes over the new root, too. The
number bounds the snapshots; each is older than the one before, so 48 are
enough. -/
def rekeySnapshots (ctx : AllocContext) :
    ℕ → Workspace P → RekeyingJob P → Option (Workspace P × RekeyingJob P)
  | 0, _, _ => none
  | n + 1, ws, job =>
    let job := rekeySetRoot job
    if Leafless job.snapshots then none
    else
      match nextSnapshotIdx job with
      | none => some (ws, job)
      | some i =>
        let job := { job with
          snapshotIdx := i
          firstSnapshot := false
          t1BlkIdx := (job.snapshots i).maxLevel }
        if job.t1BlksOldPbas job.t1BlkIdx = job.snapshot.pba then
          rekeySnapshots ctx n ws job
        else
          (rekeyBranch ctx ws job).bind fun (ws, job) => rekeySnapshots ctx n ws job

/-- `Submit_Primitive_Rekeying`. -/
def submitRekeying (job : RekeyingJob P) (sb : Superblock) (currGen : ℕ) : RekeyingJob P :=
  { job with
    currGen := currGen
    lastSecuredGen := sb.lastSecuredGeneration
    vba := sb.rekeyingVba
    snapshots := sb.snapshots
    snapshotsDegree := sb.degree
    oldKeyId := sb.previousKey.id
    newKeyId := sb.currentKey.id }

/-- **`Execute_Rekey_VBA`**, from `Submitted` to `Completed`: discard the
disposable snapshots and begin with the newest one. -/
def executeRekeyVbaInVbd (ctx : AllocContext) (ws : Workspace P) (job : RekeyingJob P) :
    Option (Workspace P × RekeyingJob P) :=
  let job := { job with
    snapshots := discardDisposableSnapshots job.snapshots job.currGen job.lastSecuredGen }
  (newestSnapshotIdx job.snapshots).bind fun i =>
    let job := { job with snapshotIdx := i, firstSnapshot := true }
    (rekeyBranch ctx ws job).bind fun (ws, job) =>
      rekeySnapshots ctx superblockNrOfSnapshots ws job

/-! ### What a rekeying step does to the snapshots

Each gets a new root, and is otherwise as it was. -/

/-- Taking over a root changes nothing else about a snapshot. -/
theorem rekeySetRoot_relocated (job : RekeyingJob P) :
    Relocated job.snapshots (rekeySetRoot job).snapshots :=
  Relocated.update job.snapshots job.snapshotIdx _ _

/-- The loop over the snapshots. -/
theorem rekeySnapshots_relocated {ctx : AllocContext} {n : ℕ} {ws ws' : Workspace P}
    {job job' : RekeyingJob P} (h : rekeySnapshots ctx n ws job = some (ws', job')) :
    Relocated job.snapshots job'.snapshots := by
  induction n generalizing ws job with
  | zero => exact absurd h (by simp [rekeySnapshots])
  | succ n ih =>
    unfold rekeySnapshots at h
    refine (rekeySetRoot_relocated job).trans ?_
    dsimp only at h
    obtain ⟨-, h⟩ := Option.ite_none_left_eq_some.mp h
    split at h
    · obtain ⟨-, rfl⟩ := Prod.mk.inj (Option.some.inj h)
      exact Relocated.refl _
    · split_ifs at h
      · have := ih h
        exact this
      · obtain ⟨⟨ws₁, job₁⟩, hbranch, h⟩ := Option.bind_eq_some_iff.mp h
        have hframe := (rekeyBranch_frame hbranch).snapshots
        have := ih h
        rw [hframe] at this
        exact this

/-- **A rekeying step purges the table and moves roots**, nothing else. -/
theorem executeRekeyVbaInVbd_relocated {ctx : AllocContext} {ws ws' : Workspace P}
    {job job' : RekeyingJob P} (h : executeRekeyVbaInVbd ctx ws job = some (ws', job')) :
    Relocated (discardDisposableSnapshots job.snapshots job.currGen job.lastSecuredGen)
      job'.snapshots := by
  unfold executeRekeyVbaInVbd at h
  obtain ⟨i, -, h⟩ := Option.bind_eq_some_iff.mp h
  obtain ⟨⟨ws₁, job₁⟩, hbranch, h⟩ := Option.bind_eq_some_iff.mp h
  have hframe := (rekeyBranch_frame hbranch).snapshots
  have := rekeySnapshots_relocated h
  rw [hframe] at this
  exact this

end Cbe
