import Cbe.ExtensionContingent
import Cbe.FreeTreeSupply
import Mathlib.Data.List.Intervals

/-!
# What a step of an extension needs

An extension step finds the place of the first new address in the newest tree
and hangs the new branch in there. For that, the nodes on the way have to have
the hashes that are recorded for them, and the place has to be open
(`Store.OpenAt`, `FtNode.OpenAt`). The nodes above the place are written anew:
those of the virtual block device to blocks of the free tree, those of the free
tree to blocks of the meta tree. A full tree gets a new root instead and needs
none of this, unless it is as high as a tree may be.

With that, and a block in the contingent, a step has an outcome
(`executeVbdExtensionStepInVbd_isSome`,
`executeFtExtensionStepInFt_isSome_iff`).

Here the question is when a step of the source raises. The answer is a list of
what the device has to have, in terms of the state before the step. For the free
tree the list is exact, as the step reads its own tree only. For the virtual
block device it is enough: the step asks the free tree for blocks, and whether
that has them is the question of another module, whose answer is used.
-/

namespace Cbe

variable {P : Platform}

/-! ## The free tree

The descent goes through the entries of the inner nodes to the place of the
address. Where it comes to a child that is not there, a branch is made of the
contingent; where it comes to a level-1 node, entries are added. -/

/-- **The place of an address is open**: on the way to it every node has the hash
that its parent records, and if a level-1 node is reached, its entry for the address
has no block. -/
def FtNode.OpenAt (P : Platform) (degree vba : ℕ) : FtNode → ℕ → Type1Node → Prop
  | .leafs entries, _, node => checkNodeHash P (.leafs entries) node
      ∧ (entries (childIdxForVba vba 1 degree)).pba = 0
  | .inner nodes children, lvl, node => checkNodeHash P (.inner nodes children) node
      ∧ ((nodes (childIdxForVba vba lvl degree)).pba ≠ 0 →
        (children (childIdxForVba vba lvl degree)).OpenAt P degree vba (lvl - 1)
          (nodes (childIdxForVba vba lvl degree)))

/-- How many nodes on the way to an address are written to blocks of the meta tree. -/
def FtNode.nrOfRenewed (degree currGen vba : ℕ) : FtNode → ℕ → Type1Node → ℕ
  | .leafs _, _, _ => 1
  | .inner nodes children, lvl, node =>
    (if (nodes (childIdxForVba vba lvl degree)).pba ≠ 0 then
      (children (childIdxForVba vba lvl degree)).nrOfRenewed degree currGen vba (lvl - 1)
        (nodes (childIdxForVba vba lvl degree))
    else 0) + if node.gen = currGen then 0 else 1

/-- What a node takes of the blocks of the meta tree. -/
theorem FtExtState.allocNodePba_metaPbas {st st' : FtExtState P} {inPlace : Bool} {pba pba' : ℕ}
    (h : st.allocNodePba inPlace pba = some (pba', st')) :
    st'.metaPbas.length + (if inPlace = true then 0 else 1) = st.metaPbas.length := by
  unfold allocNodePba at h
  split_ifs at h with hin
  · obtain ⟨-, rfl⟩ := Prod.mk.inj (Option.some.inj h)
    rw [if_pos hin, Nat.add_zero]
  · split at h
    · exact absurd h (by simp)
    · next hmeta =>
      obtain ⟨-, rfl⟩ := Prod.mk.inj (Option.some.inj h)
      rw [if_neg hin, hmeta, List.length_cons]

/-- A node gets its block where it stands, or the first one of the meta tree. -/
theorem FtExtState.allocNodePba_isSome_iff {st : FtExtState P} {inPlace : Bool} {pba : ℕ} :
    (st.allocNodePba inPlace pba).isSome = true
      ↔ (if inPlace = true then 0 else 1) ≤ st.metaPbas.length := by
  unfold allocNodePba
  by_cases hin : inPlace = true
  · rw [if_pos hin, if_pos hin]
    exact iff_of_true rfl (Nat.zero_le _)
  · rw [if_neg hin, if_neg hin]
    cases st.metaPbas with
    | nil => exact iff_of_false (by simp) (by simp)
    | cons pba metaPbas => exact iff_of_true rfl (by simp)

/-- **What the descent makes of the child on the way**: it goes on there, or hangs a
new branch in. -/
def FtNode.extendChild (P : Platform) (degree currGen vba lvl : ℕ) (nodes : Type1NodeBlock)
    (children : Fin nodesPerBlock → FtNode) (st : FtExtState P) : Option (FtNode × FtExtState P) :=
  let i := childIdxForVba vba lvl degree
  if (nodes i).pba ≠ 0 then
    ((children i).extend P degree currGen vba (lvl - 1) (nodes i) st).map
      fun (tree, child, st) =>
        (FtNode.inner (Function.update nodes i child) (Function.update children i tree), st)
  else
    match st.allocPba with
    | none => some (.inner nodes children, st)
    | some (pba, st) =>
      let (tree, st) := newFtBranch degree currGen (lvl - 1) st
      let (child, st) := st.writeNode currGen pba tree
      some (.inner (Function.update nodes i child) (Function.update children i tree), st)

/-- The descent at an inner node whose hash is right: the child on the way, then
the node itself. -/
theorem FtNode.extend_inner {degree currGen vba lvl : ℕ} {nodes : Type1NodeBlock}
    {children : Fin nodesPerBlock → FtNode} {node : Type1Node} {st : FtExtState P}
    (hhash : checkNodeHash P (.inner nodes children) node) :
    (FtNode.inner nodes children).extend P degree currGen vba lvl node st
      = (FtNode.extendChild P degree currGen vba lvl nodes children st).bind fun (tree, st) =>
        (st.allocNodePba (decide (node.gen = currGen)) node.pba).map fun (pba, st) =>
          let (node, st) := st.writeNode currGen pba tree
          (tree, node, st) := by
  rw [FtNode.extend, if_neg (not_not.mpr hhash)]
  rfl

/-- What is said of the extension of a tree: when it has an outcome, and how many
blocks of the meta tree it takes. -/
structure FtNode.Extends (P : Platform) (degree currGen vba lvl : ℕ) (tree : FtNode)
    (node : Type1Node) (st : FtExtState P) : Prop where
  /-- The extension has an outcome where the place is open and the meta tree has
  the blocks. -/
  isSome_iff : (tree.extend P degree currGen vba lvl node st).isSome = true
    ↔ tree.OpenAt P degree vba lvl node
      ∧ tree.nrOfRenewed degree currGen vba lvl node ≤ st.metaPbas.length
  /-- It takes one block for each node that it renews. -/
  metaPbas : ∀ {tree' node' st'},
    tree.extend P degree currGen vba lvl node st = some (tree', node', st') →
    st'.metaPbas.length + tree.nrOfRenewed degree currGen vba lvl node = st.metaPbas.length

/-- A level-1 node is always written to a new block. -/
theorem FtNode.extends_leafs (degree currGen vba lvl : ℕ) (entries : Type2NodeBlock)
    (node : Type1Node) (st : FtExtState P) :
    (FtNode.leafs entries).Extends P degree currGen vba lvl node st := by
  obtain ⟨-, -, hmeta⟩ := addFtLeafs_takes (degree - childIdxForVba vba 1 degree)
    (childIdxForVba vba 1 degree) entries st
  refine ⟨?_, fun {tree' node' st'} h => ?_⟩
  · rw [FtNode.extend, FtNode.OpenAt, FtNode.nrOfRenewed]
    by_cases hhash : checkNodeHash P (.leafs entries) node
    · by_cases hopen : (entries (childIdxForVba vba 1 degree)).pba = 0
      · rw [if_neg (not_not.mpr hhash), if_neg (not_not.mpr hopen), Option.isSome_map,
          FtExtState.allocNodePba_isSome_iff, hmeta, if_neg Bool.false_ne_true]
        exact ⟨fun h => ⟨⟨hhash, hopen⟩, h⟩, And.right⟩
      · rw [if_neg (not_not.mpr hhash), if_pos hopen]
        exact iff_of_false (by simp) fun h => hopen h.1.2
    · rw [if_pos hhash]
      exact iff_of_false (by simp) fun h => hhash h.1.1
  · unfold FtNode.extend at h
    dsimp only at h
    split_ifs at h
    obtain ⟨⟨pba, st₁⟩, halloc, h⟩ := Option.map_eq_some_iff.mp h
    obtain ⟨-, h⟩ := Prod.mk.inj h
    obtain ⟨-, rfl⟩ := Prod.mk.inj h
    have htaken := FtExtState.allocNodePba_metaPbas halloc
    rw [hmeta, if_neg Bool.false_ne_true] at htaken
    exact htaken

/-- What the child on the way takes of the blocks of the meta tree. -/
theorem FtNode.extendChild_spec {degree currGen vba lvl : ℕ} {nodes : Type1NodeBlock}
    {children : Fin nodesPerBlock → FtNode} {st : FtExtState P}
    (ih : (children (childIdxForVba vba lvl degree)).Extends P degree currGen vba (lvl - 1)
      (nodes (childIdxForVba vba lvl degree)) st) :
    ((FtNode.extendChild P degree currGen vba lvl nodes children st).isSome = true
        ↔ ((nodes (childIdxForVba vba lvl degree)).pba ≠ 0 →
            (children (childIdxForVba vba lvl degree)).OpenAt P degree vba (lvl - 1)
              (nodes (childIdxForVba vba lvl degree)))
          ∧ (if (nodes (childIdxForVba vba lvl degree)).pba ≠ 0 then
              (children (childIdxForVba vba lvl degree)).nrOfRenewed degree currGen vba (lvl - 1)
                (nodes (childIdxForVba vba lvl degree))
            else 0) ≤ st.metaPbas.length)
      ∧ ∀ tree' st', FtNode.extendChild P degree currGen vba lvl nodes children st
          = some (tree', st') →
        st'.metaPbas.length + (if (nodes (childIdxForVba vba lvl degree)).pba ≠ 0 then
            (children (childIdxForVba vba lvl degree)).nrOfRenewed degree currGen vba (lvl - 1)
              (nodes (childIdxForVba vba lvl degree))
          else 0) = st.metaPbas.length := by
  unfold FtNode.extendChild
  dsimp only
  by_cases hpba : (nodes (childIdxForVba vba lvl degree)).pba ≠ 0
  · -- down to the child
    rw [if_pos hpba, if_pos hpba, Option.isSome_map, ih.isSome_iff]
    refine ⟨and_congr_left fun _ => ⟨fun h _ => h, fun h => h hpba⟩, fun tree' st' h => ?_⟩
    obtain ⟨⟨tree, child, st₁⟩, hrec, h⟩ := Option.map_eq_some_iff.mp h
    obtain ⟨-, rfl⟩ := Prod.mk.inj h
    exact ih.metaPbas hrec
  · -- a new branch, whose nodes are all blocks of the contingent
    rw [if_neg hpba, if_neg hpba]
    cases htake : st.allocPba with
    | none =>
      refine ⟨iff_of_true rfl ⟨fun h => absurd h hpba, Nat.zero_le _⟩, fun tree' st' h => ?_⟩
      obtain ⟨-, rfl⟩ := Prod.mk.inj (Option.some.inj h)
      rfl
    | some taken =>
      obtain ⟨pba, st₁⟩ := taken
      refine ⟨iff_of_true rfl ⟨fun h => absurd h hpba, Nat.zero_le _⟩, fun tree' st' h => ?_⟩
      obtain ⟨-, rfl⟩ := Prod.mk.inj (Option.some.inj h)
      obtain ⟨-, -, -, hmeta⟩ := FtExtState.allocPba_takes htake
      obtain ⟨-, hmeta'⟩ := newFtBranch_takes degree currGen (lvl - 1) st₁
      exact congrArg List.length (hmeta'.trans hmeta)

/-- **When the free tree can be extended**: the place is open, and the meta tree has
a block for each node on the way that may not be changed in place. -/
theorem FtNode.extends (degree currGen vba : ℕ) (tree : FtNode) :
    ∀ (lvl : ℕ) (node : Type1Node) (st : FtExtState P),
      tree.Extends P degree currGen vba lvl node st := by
  induction tree with
  | leafs entries => exact fun lvl => FtNode.extends_leafs degree currGen vba lvl entries
  | inner nodes children ih =>
    intro lvl node st
    obtain ⟨hsome, hmeta⟩ := FtNode.extendChild_spec (ih (childIdxForVba vba lvl degree) (lvl - 1)
      (nodes (childIdxForVba vba lvl degree)) st)
    by_cases hhash : checkNodeHash P (.inner nodes children) node
    · refine ⟨?_, fun {tree' node' st'} h => ?_⟩
      · rw [FtNode.extend_inner hhash, FtNode.OpenAt, FtNode.nrOfRenewed, and_iff_right hhash]
        cases hchild : FtNode.extendChild P degree currGen vba lvl nodes children st with
        | none =>
          rw [hchild] at hsome
          refine iff_of_false (by simp) fun h => ?_
          exact Bool.false_ne_true (hsome.mpr ⟨h.1, (Nat.le_add_right _ _).trans h.2⟩)
        | some out =>
          obtain ⟨tree₁, st₁⟩ := out
          rw [hchild] at hsome
          have hleft := hmeta tree₁ st₁ hchild
          rw [Option.bind_some, Option.isSome_map, FtExtState.allocNodePba_isSome_iff]
          simp only [decide_eq_true_eq]
          have hopen := (hsome.mp rfl).1
          rw [and_iff_right hopen]
          omega
      · rw [FtNode.extend_inner hhash] at h
        obtain ⟨⟨tree₁, st₁⟩, hchild, h⟩ := Option.bind_eq_some_iff.mp h
        obtain ⟨⟨pba, st₂⟩, halloc, h⟩ := Option.map_eq_some_iff.mp h
        obtain ⟨-, h⟩ := Prod.mk.inj h
        obtain ⟨-, rfl⟩ := Prod.mk.inj h
        have hleft := hmeta tree₁ st₁ hchild
        have htaken := FtExtState.allocNodePba_metaPbas halloc
        simp only [decide_eq_true_eq] at htaken
        rw [FtNode.nrOfRenewed]
        show st₂.metaPbas.length + _ = _
        omega
    · have hnone :
          (FtNode.inner nodes children).extend P degree currGen vba lvl node st = none := by
        rw [FtNode.extend, if_pos hhash]
      refine ⟨?_, fun {tree' node' st'} h => ?_⟩
      · rw [hnone, FtNode.OpenAt]
        exact iff_of_false (by simp) fun h => hhash h.1.1
      · rw [hnone] at h
        exact absurd h (by simp)

/-- The child of a node on the way to an address. -/
def Store.childOf (s : Store P) (degree vba lvl : ℕ) (node : Type1Node) : Type1Node :=
  s.type1NodeBlock node.pba (childIdxForVba vba lvl degree)

/-- The block of a node has the hash that its entry records. -/
def Store.HashedAt (s : Store P) (node : Type1Node) : Prop :=
  P.hash (P.blockDataFromType1NodeBlock (s.type1NodeBlock node.pba)) = node.hash

/-- **The place of an address is open at a level**: from a node of a level downwards
there is a child on the way to the address, each with the hash that its parent records,
down to that level, where there is none. -/
inductive Store.OpenAt (s : Store P) (degree vba minLvl : ℕ) : ℕ → Type1Node → Prop
  | mount {node : Type1Node} (hpos : 0 < minLvl) (hhash : s.HashedAt node)
      (hopen : (s.childOf degree vba minLvl node).pba = 0) :
      Store.OpenAt s degree vba minLvl minLvl node
  | child {lvl : ℕ} {node : Type1Node} (hhash : s.HashedAt node)
      (hchild : (s.childOf degree vba (lvl + 1) node).pba ≠ 0)
      (h : Store.OpenAt s degree vba minLvl lvl (s.childOf degree vba (lvl + 1) node)) :
      Store.OpenAt s degree vba minLvl (lvl + 1) node

/-- The open place is at one of the levels of the tree. -/
theorem Store.OpenAt.le {s : Store P} {degree vba minLvl lvl : ℕ} {node : Type1Node}
    (h : s.OpenAt degree vba minLvl lvl node) : 0 < minLvl ∧ minLvl ≤ lvl := by
  induction h with
  | mount hpos => exact ⟨hpos, le_rfl⟩
  | child _ _ _ ih => exact ⟨ih.1, Nat.le_succ_of_le ih.2⟩

/-- **The descent comes to the open place.** -/
theorem Store.OpenAt.extDescend {s : Store P} {minLvl lvl : ℕ} {node : Type1Node}
    (job : RekeyingJob P) (h : s.OpenAt job.snapshotsDegree job.vba minLvl lvl node)
    (hblk : job.t1Blks lvl = s.type1NodeBlock node.pba) (hrec : job.recordedHash lvl = node.hash)
    (hle : lvl ≤ job.snapshot.maxLevel) :
    ∃ job', Cbe.extDescend s lvl job = some (minLvl, job') := by
  generalize hdegree : job.snapshotsDegree = degree at h
  generalize hvba : job.vba = vba at h
  induction h generalizing job with
  | @mount node hpos hhash hopen =>
    obtain ⟨lvl, rfl⟩ := Nat.exists_eq_add_one.mpr hpos
    have hchild : job.child (lvl + 1) = s.childOf degree vba (lvl + 1) node := by
      unfold RekeyingJob.child RekeyingJob.childIdx Store.childOf
      rw [hblk, hdegree, hvba]
    have hsame : job.hashOfT1Blk (lvl + 1) = job.recordedHash (lvl + 1) := by
      rw [hrec, ← hhash, RekeyingJob.hashOfT1Blk, hblk]
    unfold Cbe.extDescend
    rw [if_neg (not_not.mpr hsame), hchild, if_pos hopen]
    exact ⟨_, rfl⟩
  | @child lvl node hhash hne hbelow ih =>
    have hchild : job.child (lvl + 1) = s.childOf degree vba (lvl + 1) node := by
      unfold RekeyingJob.child RekeyingJob.childIdx Store.childOf
      rw [hblk, hdegree, hvba]
    have hsame : job.hashOfT1Blk (lvl + 1) = job.recordedHash (lvl + 1) := by
      rw [hrec, ← hhash, RekeyingJob.hashOfT1Blk, hblk]
    have hpos : lvl ≠ 0 := fun h0 => by
      have hmount := hbelow.le
      omega
    unfold Cbe.extDescend
    rw [if_neg (not_not.mpr hsame), hchild, if_neg hne, if_neg hpos]
    refine ih _ ?_ ?_ (Nat.le_of_succ_le hle) hdegree hvba
    · exact Function.update_self _ _ _
    · -- the block of the parent is the one that was read before
      have hlt : lvl ≠ job.snapshot.maxLevel := Nat.ne_of_lt hle
      have hframe : (job.readNode s lvl (s.childOf degree vba (lvl + 1) node).pba).child (lvl + 1)
          = job.child (lvl + 1) := by
        unfold RekeyingJob.child RekeyingJob.readNode RekeyingJob.childIdx
        dsimp only
        rw [Function.update_of_ne (Nat.succ_ne_self lvl)]
      show (if lvl = job.snapshot.maxLevel then _ else _) = _
      rw [if_neg hlt, hframe, hchild]

/-- The levels from the mount point on are those that need a block. -/
theorem pendingLevels_resizing (ctx : AllocContext) (job : RekeyingJob P) {minLvl : ℕ}
    (hle : minLvl ≤ job.snapshot.maxLevel) :
    (resizingRequest ctx job minLvl).requestedBlocks
      = (pendingLevels (resizingRequest ctx job minLvl)
        (newPbasForResizing job minLvl)).length := by
  have hpending : ∀ lvl ∈ List.range (job.snapshot.maxLevel + 1),
      decide (newPbasForResizing job minLvl lvl = 0) = decide (minLvl ≤ lvl) := by
    intro lvl hlvl
    have hmax : ¬ lvl > job.snapshot.maxLevel :=
      Nat.not_lt.mpr (Nat.lt_succ_iff.mp (List.mem_range.mp hlvl))
    unfold newPbasForResizing
    rw [if_neg hmax]
    by_cases htop : lvl = job.snapshot.maxLevel
    · rw [if_pos htop, htop]
      simp [hle]
    · rw [if_neg htop]
      by_cases hge : lvl ≥ minLvl
      · rw [if_pos hge]
        simp [hge]
      · rw [if_neg hge]
        by_cases hchild : (job.child (lvl + 1)).pba = 0
        · rw [if_pos hchild]
          simp [pbaInvalid, hge]
        · rw [if_neg hchild]
          simp [hchild, hge]
  unfold pendingLevels resizingRequest
  dsimp only
  rw [List.filter_congr hpending, ← List.Ico.zero_bot, List.Ico.filter_le, List.Ico.length]
  omega

/-- An entry of the free tree that may be handed out while no rekeying is in progress:
it was freed before the last secured superblock, and no snapshot needs its block. -/
def Type2Node.Unused (node : Type2Node) (lastSecuredGen : ℕ) (snaps : Snapshots) : Prop :=
  node.pba ≠ 0 ∧ node.pba ≠ pbaInvalid ∧ node.freeGen ≤ lastSecuredGen
    ∧ (node.reserved = false ∨ ∀ i, ¬ node.UsedBy (snaps i))

instance (node : Type2Node) (lastSecuredGen : ℕ) (snaps : Snapshots) :
    Decidable (node.Unused lastSecuredGen snaps) :=
  inferInstanceAs (Decidable (_ ∧ _ ∧ _ ∧ (_ ∨ _)))

/-- Without a rekeying an entry may be handed out when it is unused. -/
theorem checkType2LeafUsable_iff_unused (req : AllocRequest) (h : req.rekeying = false)
    (node : Type2Node) :
    checkType2LeafUsable req node ↔ node.Unused req.lastSecuredGen req.activeSnaps := by
  unfold checkType2LeafUsable Type2Node.Unused
  simp [h]

/-- The free tree serves the request of an extension. -/
theorem extAlloc_isSome {ctx : AllocContext} (ws : Workspace P) {job : RekeyingJob P}
    {minLvl : ℕ} (hctx : ctx.rekeying = false) (hle : minLvl ≤ job.snapshot.maxLevel)
    (h : ws.pools.freeTree.Supplies P ws.pools.freeRoot ws.pools.metaPbas
      (fun e => decide (e.Unused ctx.lastSecuredGen ctx.activeSnaps))
      (job.snapshot.maxLevel - minLvl + 1)) :
    (extAlloc ctx ws job minLvl).isSome = true := by
  have hadmissible : (resizingRequest ctx job minLvl).Admissible := fun htag => by cases htag
  have husable : (fun e => decide (checkType2LeafUsable (resizingRequest ctx job minLvl) e))
      = fun e => decide (e.Unused ctx.lastSecuredGen ctx.activeSnaps) := by
    funext e
    have hiff := checkType2LeafUsable_iff_unused (resizingRequest ctx job minLvl) hctx e
    exact decide_eq_decide.mpr hiff
  unfold extAlloc
  rw [if_neg (Nat.not_lt.mpr hle), Option.isSome_map, Workspace.allocate, Option.isSome_map]
  refine allocate_isSome hadmissible (Nat.succ_pos _) (pendingLevels_resizing ctx job hle) ?_
  rw [husable]
  exact h

/-- There is a slot for the new root after a branch was written if there was one before. -/
theorem extSetRoot_isSome {job job' : RekeyingJob P} (hframe : RekeyingJob.Frame job job')
    (h : (extendedSlot job.snapshots job.snapshotIdx job.currGen job.lastSecuredGen).isSome
      = true) : (extSetRoot job').isSome = true := by
  unfold extSetRoot
  rw [Option.isSome_map, hframe.snapshot, hframe.snapshots, hframe.currGen, hframe.lastSecuredGen,
    hframe.snapshotIdx]
  exact h

/-- A full tree gets a new root level, if it is not too high and there are a
block and a slot. -/
theorem RekeyingJob.addNewRootLvl_isSome (job : RekeyingJob P)
    (hmax : job.snapshot.maxLevel ≠ treeMaxMaxLevel) (hpos : 0 < job.nrOfPbas)
    (h : (extendedSlot job.snapshots job.snapshotIdx job.currGen job.lastSecuredGen).isSome
      = true) : job.addNewRootLvl.isSome = true := by
  obtain ⟨slot, hslot⟩ := Option.isSome_iff_exists.mp h
  have hbefore : (if job.snapshot.gen < job.currGen then
      idxOfInvalidOrLowestGenEvictableSnap job.snapshots job.currGen job.lastSecuredGen
      else some job.snapshotIdx) = some slot := hslot
  unfold addNewRootLvl
  rw [if_neg hmax, hbefore, Option.bind_some, Option.isSome_map, allocPba, if_neg hpos.ne']
  rfl

namespace Device

variable {d : Device P}

/-- **What the device has for the next step** of an extension of the virtual block
device: a newest snapshot after the purge, a slot for the one to come, and, where its
tree has room, an open place in it and blocks of the free tree for the nodes above. -/
structure VbdSupplied (d : Device P) (mt : MetaTree) (newest : SnapshotsIndex) : Prop where
  /-- There is a newest snapshot after the purge. -/
  found : newestSnapshotIdx (purgedSnapshots d.ctl) = some newest
  /-- There is a slot for the one to come. -/
  slot : (extendedSlot (purgedSnapshots d.ctl) newest d.ctl.currGen
    d.sb.lastSecuredGeneration).isSome = true
  /-- Where the tree has room it has an open place, and the free tree has the
  blocks for it. -/
  branch : (d.sb.snapshots newest).nrOfLeafs
      < treeCapacity d.sb.degree (d.sb.snapshots newest).maxLevel →
    ∃ minLvl, d.store.OpenAt d.sb.degree (d.sb.snapshots newest).nrOfLeafs minLvl
        (d.sb.snapshots newest).maxLevel (d.sb.snapshots newest).root
      ∧ d.free.Supplies P d.sb.freeRoot mt.pbas
        (fun e => decide (e.Unused d.sb.lastSecuredGeneration d.sb.snapshots))
        ((d.sb.snapshots newest).maxLevel - minLvl + 1)

/-- The job that an extension step begins with. -/
def resizingJob (d : Device P) : RekeyingJob P :=
  submitResizing d.rkg d.sb d.ctl.currGen (firstUnusedPba d.sb) d.sb.resizingNrOfPbas

/-- **With what the device has, the module does the next step**, unless the tree is
full and as high as a tree may be. -/
theorem VbdSupplied.executes {mt : MetaTree} {newest : SnapshotsIndex}
    (h : d.VbdSupplied mt newest) (hstate : d.sb.state ≠ .rekeying)
    (hleft : 0 < d.sb.resizingNrOfPbas)
    (hroom : (d.sb.snapshots newest).maxLevel = treeMaxMaxLevel →
      (d.sb.snapshots newest).nrOfLeafs
        < treeCapacity d.sb.degree (d.sb.snapshots newest).maxLevel) :
    (executeVbdExtensionStepInVbd d.allocContext (d.workspace mt) d.resizingJob).isSome
      = true := by
  have hctx : d.allocContext.rekeying = false := decide_eq_false hstate
  unfold executeVbdExtensionStepInVbd
  dsimp only
  rw [show discardDisposableSnapshots d.resizingJob.snapshots d.resizingJob.currGen
    d.resizingJob.lastSecuredGen = purgedSnapshots d.ctl from rfl, h.found, Option.bind_some]
  set start : RekeyingJob P := { d.resizingJob with
    snapshots := purgedSnapshots d.ctl
    nrOfLeaves := 0
    snapshotIdx := newest
    vba := (purgedSnapshots d.ctl newest).nrOfLeafs } with hstart
  -- the purge changes nothing else about the newest snapshot
  obtain ⟨hnr, hmax, hroot⟩ : start.vba = (d.sb.snapshots newest).nrOfLeafs
      ∧ start.snapshot.maxLevel = (d.sb.snapshots newest).maxLevel
      ∧ start.snapshot.root = (d.sb.snapshots newest).root := by
    have hpurged : start.snapshot = { d.sb.snapshots newest with
        valid := (purgedSnapshots d.ctl newest).valid } := discardDisposableSnapshots_eq _ _ _ _
    rw [hpurged]
    exact ⟨discardDisposableSnapshots_nrOfLeafs _ _ _ _, rfl, rfl⟩
  by_cases hfits : start.vba < treeCapacity start.snapshotsDegree start.snapshot.maxLevel
  · -- a new branch in the tree
    rw [if_pos hfits]
    rw [hnr, hmax] at hfits
    obtain ⟨minLvl, hopen, hsupply⟩ := h.branch hfits
    rw [← hnr, ← hmax, ← hroot] at hopen
    rw [← hmax] at hsupply
    obtain ⟨job₁, hdesc⟩ := Store.OpenAt.extDescend (s := (d.workspace mt).store)
      (start.readNode (d.workspace mt).store start.snapshot.maxLevel start.snapshot.pba) hopen
      (Function.update_self _ _ _) (if_pos rfl) le_rfl
    have hdown := (RekeyingJob.Frame.readNode start (d.workspace mt).store start.snapshot.maxLevel
      start.snapshot.pba).trans (extDescend_frame hdesc)
    have hle : minLvl ≤ job₁.snapshot.maxLevel := hopen.le.2.trans_eq
      (congrArg Snapshot.maxLevel hdown.snapshot).symm
    rw [← hdown.snapshot] at hsupply
    obtain ⟨⟨ws₂, job₂⟩, halloc⟩ := Option.isSome_iff_exists.mp
      (extAlloc_isSome (d.workspace mt) hctx hle hsupply)
    have hframe := hdown.trans ((extAlloc_frame halloc).trans (extWriteBack_frame ws₂.store job₂))
    rw [hdesc, Option.bind_some, halloc, Option.bind_some, Option.isSome_map]
    exact extSetRoot_isSome hframe h.slot
  · -- a new root level
    rw [if_neg hfits]
    rw [hnr, hmax] at hfits
    obtain ⟨job₁, hadd⟩ := Option.isSome_iff_exists.mp
      (RekeyingJob.addNewRootLvl_isSome { start with
        t1BlksOldPbas :=
          Function.update start.t1BlksOldPbas start.snapshot.maxLevel start.snapshot.pba }
        (fun hmax' => hfits (hroom (hmax.symm.trans hmax'))) hleft h.slot)
    obtain ⟨slot, -, hput, hidx, hcurr⟩ := addNewRootLvl_snapshots hadd
    rw [hadd, Option.bind_some, Option.isSome_map]
    refine extSetRoot_isSome ((addNewBranch_frame job₁ job₁.snapshot.maxLevel 1).trans
      (RekeyingJob.Frame.trans ?_ (extWriteBack_frame (d.workspace mt).store _))) ?_
    · exact ⟨rfl, rfl, rfl, rfl, rfl, rfl, rfl, rfl, rfl⟩
    · -- the snapshot of the new root is of the current generation, so it keeps its slot
      have hgen : ¬ (job₁.snapshots job₁.snapshotIdx).gen < job₁.currGen := by
        rw [hidx, hput.gen, hcurr]
        exact lt_irrefl _
      unfold extendedSlot
      rw [if_neg hgen]
      rfl

end Device

end Cbe
