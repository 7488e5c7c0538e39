import Cbe.VbdExtension
import Cbe.Writing

/-!
# What rekeying a branch does

The stretch of a rekeying job from the read of a root to the write of the root,
without its loops (`Branch`): from the level at which it stopped, each level got
a block from the free tree and the old node with the new child in it; below that
level, the job keeps what it has from the snapshot before.

The levels of the tree and the data block below them are treated alike: the
address and the hash of level 0 are those of the data block
(`RekeyingJob.oldPba`, `RekeyingJob.lvlHash`).

The job goes down first (`Descended`). It compares each node with the one that
it met in the snapshot before on the same level and stops at the first that is
the same, since from there on the block was rekeyed already. Then it asks the
free tree for the levels from that one up (`rekeyAlloc_spec`), and goes up
again, writing every node with the entry of its new child (`Climbed`). The three
parts are joined in `rekeyBranch_spec`.

Nothing here is about the trees of the other snapshots. That they are not harmed
follows from what `Branch` says of the store: only the new addresses were
written, and these were free.
-/

namespace Cbe

variable {P : Platform}

namespace RekeyingJob

/-- The old address that the job remembers for a level. -/
def oldPba (job : RekeyingJob P) (lvl : ℕ) : ℕ :=
  if lvl = 0 then job.dataBlkOldPba else job.t1BlksOldPbas lvl

/-- The hash of the block that the job has for a level. -/
def lvlHash (job : RekeyingJob P) (lvl : ℕ) : Hash :=
  if lvl = 0 then P.hash job.dataBlk else job.hashOfT1Blk lvl

/-- Level 0 is the data block. -/
@[simp] theorem oldPba_zero (job : RekeyingJob P) : job.oldPba 0 = job.dataBlkOldPba := rfl

/-- The other levels are those of the tree. -/
@[simp] theorem oldPba_succ (job : RekeyingJob P) (lvl : ℕ) :
    job.oldPba (lvl + 1) = job.t1BlksOldPbas (lvl + 1) := rfl

/-- Level 0 is the data block. -/
@[simp] theorem lvlHash_zero (job : RekeyingJob P) : job.lvlHash 0 = P.hash job.dataBlk := rfl

/-- The other levels are those of the tree. -/
@[simp] theorem lvlHash_succ (job : RekeyingJob P) (lvl : ℕ) :
    job.lvlHash (lvl + 1) = job.hashOfT1Blk (lvl + 1) := rfl

end RekeyingJob

/-! ## The descent

One level of the descent reads the node below and compares its address with the
one remembered from the snapshot before. There are four ways in which it can
stop: at an inner node that is shared, at a leaf that is shared, at one that was
never written, and at one that is read. -/

/-- **What a descent does**, on a way whose nodes are given. The level at which
it stopped is the lowest one that gets a new block; everything the climb needs
is said of the levels from there up. -/
structure Descended (s : Store P) (node : ℕ → Type1Node) (lvl : ℕ) (job job' : RekeyingJob P)
    (stop : RekeyingStop) : Prop where
  /-- The arguments of the job are the same. -/
  frame : RekeyingJob.Frame job job'
  /-- No new address was asked for yet. -/
  newPbas : job'.newPbas = job.newPbas
  /-- It stopped on the way. -/
  minLvl_le : stop.minLvl ≤ lvl
  /-- The nodes were read down to the level at which it stopped. -/
  read : ∀ k, 0 < k → stop.minLvl ≤ k → k ≤ lvl →
    job'.t1Blks k = s.type1NodeBlock (node k).pba ∧ job'.t1BlksOldPbas k = (node k).pba
  /-- The other levels are as they were. -/
  kept : ∀ k, 0 < k → k < stop.minLvl ∨ lvl < k →
    job'.t1Blks k = job.t1Blks k ∧ job'.t1BlksOldPbas k = job.t1BlksOldPbas k
  /-- It stopped above the leaf at a child that is shared. -/
  shared : 0 < stop.minLvl → job.firstSnapshot = false
    ∧ job.oldPba (stop.minLvl - 1) = (node (stop.minLvl - 1)).pba
  /-- Nothing above was shared. -/
  unshared : ∀ k, stop.minLvl ≤ k → k < lvl → job.firstSnapshot = false →
    job.oldPba k ≠ (node k).pba
  /-- The job stands at the level below which nothing is to be done, but above the
  leaves. -/
  idx : job'.t1BlkIdx = max (stop.minLvl - 1) 1
  /-- The data block was decrypted exactly when it stopped at the leaf. -/
  leaf : stop = .leafLvl → (node 0).gen ≠ 0 ∧ job'.dataBlkOldPba = (node 0).pba
    ∧ job'.dataBlk = P.decrypt job.oldKeyId (s.blocks (node 0).pba)
  /-- Elsewhere the data block is that of the snapshot before. -/
  noLeaf : stop ≠ .leafLvl → (stop.minLvl = 0 → (node 0).gen = 0)
    ∧ job'.dataBlkOldPba = job.dataBlkOldPba ∧ job'.dataBlk = job.dataBlk
  /-- A stop at a higher inner level is at level two at least. -/
  higher : ∀ q, stop = .higherInnerLvl q → 2 ≤ q
  /-- A stop at the lowest inner level leaves the leaf out or takes it without
  data. -/
  lowest : ∀ q, stop = .lowestInnerLvl q → q ≤ 1

namespace Descended

variable {s : Store P} {node : ℕ → Type1Node} {lvl : ℕ} {job job' : RekeyingJob P}
  {stop : RekeyingStop}

/-- The leaf is the one of the snapshot before. -/
theorem leaf_shared (hread : job.t1Blks 1 = s.type1NodeBlock (node 1).pba
      ∧ job.t1BlksOldPbas 1 = (node 1).pba) (hidx : job.t1BlkIdx = 1)
    (hsh : job.firstSnapshot = false ∧ job.dataBlkOldPba = (node 0).pba) :
    Descended s node 1 job job (.lowestInnerLvl 1) where
  frame := .refl _
  newPbas := rfl
  minLvl_le := le_rfl
  read k _ hk hk' := le_antisymm hk' hk ▸ hread
  kept _ _ _ := ⟨rfl, rfl⟩
  shared _ := hsh
  unshared k hk hk' := absurd hk' (not_lt.mpr hk)
  idx := hidx
  leaf hl := absurd hl (by simp)
  noLeaf _ := ⟨fun h0 => absurd h0 (by simp [RekeyingStop.minLvl]), rfl, rfl⟩
  higher := by simp
  lowest q hq := by rw [RekeyingStop.lowestInnerLvl.injEq] at hq; omega

/-- The leaf was never written. -/
theorem leaf_unwritten (hread : job.t1Blks 1 = s.type1NodeBlock (node 1).pba
      ∧ job.t1BlksOldPbas 1 = (node 1).pba) (hidx : job.t1BlkIdx = 1)
    (hne : ¬ (job.firstSnapshot = false ∧ job.dataBlkOldPba = (node 0).pba))
    (hgen : (node 0).gen = 0) : Descended s node 1 job job (.lowestInnerLvl 0) where
  frame := .refl _
  newPbas := rfl
  minLvl_le := Nat.zero_le 1
  read k h0 _ hk' := (show 1 = k by omega) ▸ hread
  kept _ _ _ := ⟨rfl, rfl⟩
  shared h0 := absurd h0 (lt_irrefl 0)
  unshared k hk hk' hfirst heq := by
    obtain rfl : k = 0 := by omega
    exact hne ⟨hfirst, heq⟩
  idx := hidx
  leaf hl := absurd hl (by simp)
  noLeaf _ := ⟨fun _ => hgen, rfl, rfl⟩
  higher := by simp
  lowest q hq := by rw [RekeyingStop.lowestInnerLvl.injEq] at hq; omega

/-- The leaf is read and decrypted. -/
theorem leaf_read (hread : job.t1Blks 1 = s.type1NodeBlock (node 1).pba
      ∧ job.t1BlksOldPbas 1 = (node 1).pba) (hidx : job.t1BlkIdx = 1)
    (hne : ¬ (job.firstSnapshot = false ∧ job.dataBlkOldPba = (node 0).pba))
    (hgen : (node 0).gen ≠ 0) :
    Descended s node 1 job
      { job with
        dataBlkOldPba := (node 0).pba
        dataBlk := P.decrypt job.oldKeyId (s.blocks (node 0).pba) } .leafLvl where
  frame := ⟨rfl, rfl, rfl, rfl, rfl, rfl, rfl, rfl, rfl⟩
  newPbas := rfl
  minLvl_le := Nat.zero_le 1
  read k h0 _ hk' := (show 1 = k by omega) ▸ hread
  kept _ _ _ := ⟨rfl, rfl⟩
  shared h0 := absurd h0 (lt_irrefl 0)
  unshared k hk hk' hfirst heq := by
    obtain rfl : k = 0 := by omega
    exact hne ⟨hfirst, heq⟩
  idx := hidx
  leaf _ := ⟨hgen, rfl, rfl⟩
  noLeaf hl := absurd rfl hl
  higher := by simp
  lowest := by simp

/-- An inner node is the one of the snapshot before. -/
theorem inner_shared (hread : job.t1Blks (lvl + 2) = s.type1NodeBlock (node (lvl + 2)).pba
      ∧ job.t1BlksOldPbas (lvl + 2) = (node (lvl + 2)).pba)
    (hsh : job.firstSnapshot = false ∧ job.t1BlksOldPbas (lvl + 1) = (node (lvl + 1)).pba) :
    Descended s node (lvl + 2) job { job with t1BlkIdx := lvl + 1 }
      (.higherInnerLvl (lvl + 2)) where
  frame := ⟨rfl, rfl, rfl, rfl, rfl, rfl, rfl, rfl, rfl⟩
  newPbas := rfl
  minLvl_le := le_rfl
  read k _ hk hk' := le_antisymm hk' hk ▸ hread
  kept _ _ _ := ⟨rfl, rfl⟩
  shared _ := hsh
  unshared k hk hk' := absurd hk' (not_lt.mpr hk)
  idx := by
    show lvl + 1 = max (lvl + 2 - 1) 1
    omega
  leaf hl := absurd hl (by simp)
  noLeaf _ := ⟨fun h0 => absurd h0 (by simp [RekeyingStop.minLvl]), rfl, rfl⟩
  higher q hq := by rw [RekeyingStop.higherInnerLvl.injEq] at hq; omega
  lowest := by simp

/-- Reading the node of a level leaves those of the others. -/
theorem readNode_of_ne (job : RekeyingJob P) (s : Store P) (pba : ℕ) {k : ℕ} (hk : k ≠ lvl) :
    (job.readNode s lvl pba).t1Blks k = job.t1Blks k
      ∧ (job.readNode s lvl pba).t1BlksOldPbas k = job.t1BlksOldPbas k :=
  ⟨Function.update_of_ne hk _ _, Function.update_of_ne hk _ _⟩

/-- Below it the job remembers the addresses of before. -/
theorem readNode_oldPba_of_lt (job : RekeyingJob P) (s : Store P) (pba : ℕ) {k : ℕ}
    (hk : k < lvl) : (job.readNode s lvl pba).oldPba k = job.oldPba k := by
  cases k with
  | zero => rfl
  | succ k => exact (readNode_of_ne job s pba hk.ne).2

/-- **One level further down**: the node below is read, and the descent goes on
from it. -/
theorem down (hread : job.t1Blks (lvl + 2) = s.type1NodeBlock (node (lvl + 2)).pba
      ∧ job.t1BlksOldPbas (lvl + 2) = (node (lvl + 2)).pba)
    (hne : ¬ (job.firstSnapshot = false ∧ job.t1BlksOldPbas (lvl + 1) = (node (lvl + 1)).pba))
    (hd : Descended s node (lvl + 1) (job.readNode s (lvl + 1) (node (lvl + 1)).pba) job' stop) :
    Descended s node (lvl + 2) job job' stop := by
  have hframe := RekeyingJob.Frame.readNode job s (lvl + 1) (node (lvl + 1)).pba
  have hle := hd.minLvl_le
  exact {
    frame := hframe.trans hd.frame
    newPbas := hd.newPbas
    minLvl_le := by omega
    read := fun k h0 hk hk' => by
      rcases Nat.lt_or_eq_of_le hk' with hlt | rfl
      · exact hd.read k h0 hk (by omega)
      · obtain ⟨hblk, hold⟩ := hd.kept (lvl + 2) h0 (Or.inr (Nat.lt_succ_self _))
        obtain ⟨hblk', hold'⟩ := readNode_of_ne job s (node (lvl + 1)).pba
          (show lvl + 2 ≠ lvl + 1 by omega)
        rw [hblk, hold, hblk', hold']
        exact hread
    kept := fun k h0 hk => by
      obtain ⟨hblk, hold⟩ := readNode_of_ne job s (node (lvl + 1)).pba
        (show k ≠ lvl + 1 by omega)
      rw [← hblk, ← hold]
      exact hd.kept k h0 (by omega)
    shared := fun h0 => by
      obtain ⟨hf, heq⟩ := hd.shared h0
      rw [readNode_oldPba_of_lt _ _ _ (by omega)] at heq
      exact ⟨hf, heq⟩
    unshared := fun k hk hk' hfirst => by
      rcases Nat.lt_or_eq_of_le (Nat.le_of_lt_succ hk') with hlt | rfl
      · rw [← readNode_oldPba_of_lt job s (node (lvl + 1)).pba hlt]
        exact hd.unshared k hk hlt hfirst
      · exact fun heq => hne ⟨hfirst, heq⟩
    idx := hd.idx
    leaf := hd.leaf
    noLeaf := hd.noLeaf
    higher := hd.higher
    lowest := hd.lowest }

end Descended

/-- **The descent down a way**, from the level whose node was read, by induction
on the level. -/
theorem rekeyDescend_spec {s : Store P} {node : ℕ → Type1Node} {lvl : ℕ}
    {job job' : RekeyingJob P} {stop : RekeyingStop}
    (hnode : ∀ k, k < lvl → node k = s.type1NodeBlock (node (k + 1)).pba (job.childIdx (k + 1)))
    (hblk : job.t1Blks lvl = s.type1NodeBlock (node lvl).pba)
    (hold : job.t1BlksOldPbas lvl = (node lvl).pba) (hidx : job.t1BlkIdx = lvl)
    (h : rekeyDescend s lvl job = some (stop, job')) : Descended s node lvl job job' stop := by
  -- the child of the level that was read is the next node of the way
  have hchild : ∀ k, k + 1 = lvl → job.child (k + 1) = node k := by
    rintro k rfl
    rw [hnode k (Nat.lt_succ_self k), RekeyingJob.child, hblk]
  fun_induction rekeyDescend s lvl job with
  | case1 | case2 | case5 | case7 => exact absurd h (by simp)
  | case3 job _ hshared =>
    obtain ⟨rfl, rfl⟩ := Prod.mk.inj (Option.some.inj h)
    rw [hchild 0 rfl] at hshared
    exact Descended.leaf_shared ⟨hblk, hold⟩ hidx hshared
  | case4 job _ hunshared hgen =>
    obtain ⟨rfl, rfl⟩ := Prod.mk.inj (Option.some.inj h)
    rw [hchild 0 rfl] at hunshared hgen
    exact Descended.leaf_unwritten ⟨hblk, hold⟩ hidx hunshared hgen
  | case6 job _ hunshared hgen blk =>
    obtain ⟨rfl, rfl⟩ := Prod.mk.inj (Option.some.inj h)
    have hblk0 : blk = s.blocks (node 0).pba := by rw [← hchild 0 rfl]
    rw [hchild 0 rfl] at hunshared hgen ⊢
    rw [hblk0]
    exact Descended.leaf_read ⟨hblk, hold⟩ hidx hunshared hgen
  | case8 lvl job _ hshared =>
    obtain ⟨rfl, rfl⟩ := Prod.mk.inj (Option.some.inj h)
    rw [hchild (lvl + 1) rfl] at hshared
    exact Descended.inner_shared ⟨hblk, hold⟩ hshared
  | case9 lvl job _ hunshared ih =>
    rw [hchild (lvl + 1) rfl] at hunshared h ih
    have hread : (job.readNode s (lvl + 1) (node (lvl + 1)).pba).t1Blks (lvl + 1)
        = s.type1NodeBlock (node (lvl + 1)).pba := Function.update_self _ _ _
    refine Descended.down ⟨hblk, hold⟩ hunshared (ih (fun k hk => hnode k (by omega)) hread
      (Function.update_self _ _ _) rfl h fun k hk => ?_)
    obtain rfl : k = lvl := by omega
    rw [RekeyingJob.child, hread]
    exact (hnode k (by omega)).symm

/-! ## The climb

On the way up each node takes over the address, the generation and the hash of
its new child and is written to the block that was handed out for its level. The
climb is the one of the extension, too, so its lemma is about both. -/

/-- **What a climb does**: the blocks of the levels above the one at hand take
over the new child and are written to their new addresses. -/
structure Climbed (s : Store P) (job : RekeyingJob P) (n : ℕ) (s' : Store P)
    (job' : RekeyingJob P) : Prop where
  /-- The arguments of the job are the same. -/
  frame : RekeyingJob.Frame job job'
  /-- So are the new addresses. -/
  newPbas : job'.newPbas = job.newPbas
  /-- So are the old ones. -/
  oldPbas : job'.t1BlksOldPbas = job.t1BlksOldPbas
  /-- So is the data block. -/
  dataBlk : job'.dataBlk = job.dataBlk
  /-- So is the address that it was read from. -/
  dataBlkOldPba : job'.dataBlkOldPba = job.dataBlkOldPba
  /-- What belongs to an extension is the same. -/
  contingent : job'.pba = job.pba ∧ job'.nrOfPbas = job.nrOfPbas
    ∧ job'.nrOfLeaves = job.nrOfLeaves
  /-- The job stands some levels further up. -/
  idx : job'.t1BlkIdx = job.t1BlkIdx + n
  /-- The node of a level has its new child. -/
  block : ∀ k, job.t1BlkIdx ≤ k → k < job.t1BlkIdx + n →
    job'.t1Blks (k + 1) = Function.update (job.t1Blks (k + 1)) (job.childIdx (k + 1))
      { job.child (k + 1) with pba := job.newPbas k, hash := job'.hashOfT1Blk k }
  /-- The nodes of the other levels are as they were. -/
  kept : ∀ k, k ≤ job.t1BlkIdx ∨ job.t1BlkIdx + n < k → job'.t1Blks k = job.t1Blks k
  /-- The blocks were written in the order of their levels. -/
  written : s'.written
    = s.written ++ (List.range' (job.t1BlkIdx + 1) n).map job.newPbas
  /-- They are on the disk. -/
  stored : ∀ k, job.t1BlkIdx < k → k ≤ job.t1BlkIdx + n →
    s'.blocks (job.newPbas k) = P.blockDataFromType1NodeBlock (job'.t1Blks k)
  /-- No other block was. -/
  other : ∀ p, (∀ k, job.t1BlkIdx < k → k ≤ job.t1BlkIdx + n → p ≠ job.newPbas k) →
    s'.blocks p = s.blocks p

/-- **The climb**, by induction on the number of levels. The new addresses
differ from each other, so a write does not destroy the one before. -/
theorem extClimb_spec {n : ℕ} {s : Store P} {job : RekeyingJob P}
    (hnew : ∀ k k', job.t1BlkIdx < k → k < k' → k' ≤ job.t1BlkIdx + n →
      job.newPbas k ≠ job.newPbas k') :
    Climbed s job n (extClimb n s job).1 (extClimb n s job).2 := by
  induction n generalizing s job with
  | zero =>
    exact {
      frame := .refl _
      newPbas := rfl
      oldPbas := rfl
      dataBlk := rfl
      dataBlkOldPba := rfl
      contingent := ⟨rfl, rfl, rfl⟩
      idx := rfl
      block := fun k hk hk' => absurd hk' (not_lt.mpr hk)
      kept := fun _ _ => rfl
      written := by simp [extClimb]
      stored := fun k hk hk' => absurd hk' (not_le.mpr hk)
      other := fun _ _ => rfl }
  | succ n ih =>
    -- one step, and the rest of the climb from the level above
    have hrun : extClimb (n + 1) s job
        = extClimb n (rekeyWriteInnerNodeCompleted s job).1
          (rekeyWriteInnerNodeCompleted s job).2 := rfl
    rw [hrun]
    set job₁ := (rekeyWriteInnerNodeCompleted s job).2 with hjob₁
    set s₁ := (rekeyWriteInnerNodeCompleted s job).1 with hs₁
    have hidx : job₁.t1BlkIdx = job.t1BlkIdx + 1 := rfl
    have hnew₁ : job₁.newPbas = job.newPbas := rfl
    have hself : job₁.t1Blks (job.t1BlkIdx + 1)
        = Function.update (job.t1Blks (job.t1BlkIdx + 1)) (job.childIdx (job.t1BlkIdx + 1))
          { job.child (job.t1BlkIdx + 1) with
            pba := job.newPbas job.t1BlkIdx
            hash := job.hashOfT1Blk job.t1BlkIdx } := Function.update_self _ _ _
    have hblks : ∀ k, k ≠ job.t1BlkIdx + 1 → job₁.t1Blks k = job.t1Blks k :=
      fun k hk => Function.update_of_ne hk _ _
    have hc := @ih s₁ job₁ fun k k' hk hkk hk' => by
      rw [hnew₁]
      rw [hidx] at hk hk'
      exact hnew k k' (by omega) hkk (by omega)
    have hkept : ∀ k, k ≤ job.t1BlkIdx + 1 →
        (extClimb n s₁ job₁).2.t1Blks k = job₁.t1Blks k := fun k hk => by
      refine hc.kept k (Or.inl ?_)
      rw [hidx]
      exact hk
    have hfirst : s₁.blocks (job.newPbas (job.t1BlkIdx + 1))
        = P.blockDataFromType1NodeBlock (job₁.t1Blks (job.t1BlkIdx + 1)) :=
      Store.write_blocks_self s _ _
    exact {
      frame := (rekeyWriteInnerNodeCompleted_frame s job).trans hc.frame
      newPbas := hc.newPbas.trans hnew₁
      oldPbas := hc.oldPbas
      dataBlk := hc.dataBlk
      dataBlkOldPba := hc.dataBlkOldPba
      contingent := hc.contingent
      idx := by
        rw [hc.idx, hidx]
        omega
      block := fun k hk hk' => by
        rcases Nat.lt_or_eq_of_le hk with hlt | rfl
        · have hb := hc.block k (by rw [hidx]; exact hlt) (by rw [hidx]; omega)
          rw [hblks (k + 1) (by omega)] at hb
          rw [hb, RekeyingJob.child, hblks (k + 1) (by omega)]
          rfl
        · rw [hkept _ le_rfl, hself]
          unfold RekeyingJob.hashOfT1Blk
          rw [hkept job.t1BlkIdx (Nat.le_succ _), hblks job.t1BlkIdx (by omega)]
      kept := fun k hk => by
        rw [hc.kept k (by rw [hidx]; omega), hblks k (by omega)]
      written := by
        rw [hc.written, hidx, hnew₁, List.range'_succ]
        show (s.written ++ [job.newPbas (job.t1BlkIdx + 1)]) ++ _ = _
        rw [List.append_assoc]
        rfl
      stored := fun k hk hk' => by
        rcases Nat.lt_or_eq_of_le (Nat.succ_le_of_lt hk) with hlt | heq
        · exact hc.stored k (by rw [hidx]; exact hlt) (by rw [hidx]; omega)
        · rw [← heq]
          have hoth := hc.other (job.newPbas (job.t1BlkIdx + 1)) fun k' hk1 hk2 => by
            rw [hidx] at hk1 hk2
            rw [hnew₁]
            exact hnew _ k' (Nat.lt_succ_self _) hk1 (by omega)
          show (extClimb n s₁ job₁).1.blocks (job.newPbas (job.t1BlkIdx + 1)) = _
          rw [hoth, hfirst, hkept _ le_rfl]
      other := fun p hp => by
        rw [hc.other p fun k hk hk' => ?_]
        · exact Store.write_blocks_of_ne s _ (hp _ (Nat.lt_succ_self _) (by omega))
        · rw [hidx] at hk hk'
          exact hp k (by omega) (by omega) }

/-- A climb of the rekeying has one step more than its number. -/
theorem rekeyClimb_eq (n : ℕ) (s : Store P) (job : RekeyingJob P) :
    rekeyClimb n s job = extClimb (n + 1) s job := by
  induction n generalizing s job with
  | zero => rfl
  | succ n ih =>
    show rekeyClimb n (rekeyWriteInnerNodeCompleted s job).1
      (rekeyWriteInnerNodeCompleted s job).2 = _
    rw [ih]
    rfl

/-! ## The allocation

The free tree is asked for the levels that have no block yet. In a rekeying
these are an interval, from the level at which the descent stopped up to the
root. -/

/-- The levels from one up to the root. -/
def lvlsFrom (q m : ℕ) : List ℕ := List.range' q (m + 1 - q)

/-- The levels of the interval. -/
theorem mem_lvlsFrom {q m k : ℕ} : k ∈ lvlsFrom q m ↔ q ≤ k ∧ k ≤ m := by
  unfold lvlsFrom
  rw [List.mem_range'_1]
  omega

/-- No level is named twice. -/
theorem lvlsFrom_nodup (q m : ℕ) : (lvlsFrom q m).Nodup := List.nodup_range' ..

/-- A property of the levels from one on selects the interval. -/
theorem filter_range_eq_lvlsFrom {q m : ℕ} (p : ℕ → Bool) (hq : q ≤ m + 1)
    (hp : ∀ k, k ≤ m → (p k = true ↔ q ≤ k)) :
    (List.range (m + 1)).filter p = lvlsFrom q m := by
  have hsplit : List.range (m + 1) = List.range' 0 q ++ List.range' q (m + 1 - q) := by
    have happ : List.range' 0 q 1 ++ List.range' (0 + 1 * q) (m + 1 - q) 1
        = List.range' 0 (q + (m + 1 - q)) 1 := List.range'_append
    rw [Nat.zero_add, Nat.one_mul, Nat.add_sub_cancel' hq] at happ
    rw [happ, List.range_eq_range']
  have hbelow : (List.range' 0 q).filter p = [] := by
    refine List.filter_eq_nil_iff.mpr fun k hk => ?_
    have hlt := (List.mem_range'_1.mp hk).2
    rw [hp k (by omega)]
    omega
  have habove : (List.range' q (m + 1 - q)).filter p = List.range' q (m + 1 - q) := by
    refine List.filter_eq_self.mpr fun k hk => ?_
    obtain ⟨hle, hlt⟩ := List.mem_range'_1.mp hk
    exact (hp k (by omega)).mpr hle
  rw [hsplit, List.filter_append, hbelow, habove]
  rfl

/-- **The levels that a rekeying job asks for** are those from the lowest one up,
when it keeps a block for each level below. -/
theorem pendingLevels_rekeyingRequest (ctx : AllocContext) {job : RekeyingJob P} {q : ℕ}
    (hq : q ≤ job.snapshot.maxLevel) (hkept : ∀ k, k < q → job.newPbas k ≠ 0) :
    pendingLevels (rekeyingRequest ctx job q) (newPbasForRekeying job q)
        = lvlsFrom q job.snapshot.maxLevel
      ∧ (rekeyingRequest ctx job q).requestedBlocks
        = (pendingLevels (rekeyingRequest ctx job q) (newPbasForRekeying job q)).length := by
  have hzero : ∀ k, k ≤ job.snapshot.maxLevel →
      (newPbasForRekeying job q k = 0 ↔ q ≤ k) := by
    intro k hk
    unfold newPbasForRekeying
    rw [if_neg (not_lt.mpr hk)]
    split_ifs with hmax hge
    · exact ⟨fun _ => by omega, fun _ => rfl⟩
    · exact ⟨fun _ => hge, fun _ => rfl⟩
    · exact ⟨fun h0 => absurd h0 (hkept k (not_le.mp hge)), fun hle => absurd hle hge⟩
  have hpend : pendingLevels (rekeyingRequest ctx job q) (newPbasForRekeying job q)
      = lvlsFrom q job.snapshot.maxLevel :=
    filter_range_eq_lvlsFrom (m := job.snapshot.maxLevel) _ (by omega) fun k hk => by
      rw [decide_eq_true_eq]
      exact hzero k hk
  refine ⟨hpend, ?_⟩
  rw [hpend]
  show job.snapshot.maxLevel - q + 1 = _
  unfold lvlsFrom
  rw [List.length_range']
  omega

/-- **The allocation of a rekeying job** hands out blocks for the levels from
the lowest one up. -/
theorem rekeyAlloc_spec {ctx : AllocContext} {ws ws' : Workspace P} {job job' : RekeyingJob P}
    {q : ℕ} (h : rekeyAlloc ctx ws job q = some (ws', job'))
    (hmeta : ∀ pba ∈ ws.pools.metaPbas, pba ≠ 0)
    (hstock : (stockPbas ws.pools.freeTree.entries).Nodup)
    (hkept : ∀ k, k < q → job.newPbas k ≠ 0) :
    q ≤ job.snapshot.maxLevel ∧ ws'.store = ws.store
      ∧ (∃ newPbas, job' = { job with newPbas := newPbas })
      ∧ Handout (rekeyingRequest ctx job q) (lvlsFrom q job.snapshot.maxLevel) job'.newPbas
          ws.pools.freeTree.entries ws'.pools.freeTree.entries
      ∧ (∀ k, k < q → job'.newPbas k = job.newPbas k)
      ∧ ∀ k, job.snapshot.maxLevel < k → job'.newPbas k = 0 := by
  unfold rekeyAlloc at h
  split_ifs at h with hle
  have hq := not_lt.mp hle
  obtain ⟨⟨newPbas, ws₁⟩, halloc, h⟩ := Option.map_eq_some_iff.mp h
  obtain ⟨rfl, rfl⟩ := Prod.mk.inj h
  obtain ⟨res, hres, hpair⟩ := Option.map_eq_some_iff.mp halloc
  obtain ⟨rfl, rfl⟩ := Prod.mk.inj hpair
  obtain ⟨hpend, hcount⟩ := pendingLevels_rekeyingRequest ctx hq hkept
  obtain ⟨hhand, hother⟩ := allocate_handout hres hmeta hcount hstock
  rw [hpend] at hhand hother
  refine ⟨hq, rfl, ⟨res.newPbas, rfl⟩, hhand, fun k hk => ?_, fun k hk => ?_⟩
  · show res.newPbas k = _
    rw [hother k fun hmem => absurd (mem_lvlsFrom.mp hmem).1 (not_le.mpr hk)]
    unfold newPbasForRekeying
    rw [if_neg (by omega), if_neg (by omega), if_neg (by omega)]
  · show res.newPbas k = 0
    rw [hother k fun hmem => absurd (mem_lvlsFrom.mp hmem).2 (not_le.mpr hk)]
    exact if_pos hk

/-! ## The branch

What the three parts come to together, for a snapshot whose tree has `m` levels.
A snapshot that shares its root with the one before needs no branch at all
(`skip`). -/

/-- **A branch that was rekeyed** from a level `q` up to the level `top`, on a
way down a tree of `m` levels. Below `q` the job keeps what it has from the
snapshot before. -/
structure Branch (s s' : Store P) (node : ℕ → Type1Node) (m q top : ℕ)
    (job job' : RekeyingJob P) : Prop where
  /-- The arguments of the job are the same. -/
  frame : RekeyingJob.Frame job job'
  /-- The job stands at the highest level that is done. -/
  idx : job'.t1BlkIdx = top
  /-- Right below, the branch is shared with the snapshot before. -/
  shared : 0 < q → job.firstSnapshot = false ∧ job.oldPba (q - 1) = (node (q - 1)).pba
  /-- From there up nothing is shared. -/
  unshared : ∀ k, q ≤ k → k < m → job.firstSnapshot = false → job.oldPba k ≠ (node k).pba
  /-- What is shared keeps the new address of that snapshot. -/
  newPbas : ∀ k, k < q → job'.newPbas k = job.newPbas k
  /-- The job knows where the nodes of the branch were. -/
  oldPbas : ∀ k, 0 < k → q ≤ k → k ≤ m → job'.t1BlksOldPbas k = (node k).pba
  /-- Below the branch it has the nodes of the snapshot before. -/
  kept : ∀ k, 0 < k → k < q →
    job'.t1Blks k = job.t1Blks k ∧ job'.t1BlksOldPbas k = job.t1BlksOldPbas k
  /-- The levels above are as they were read. -/
  read : ∀ k, top < k → q ≤ k → k ≤ m → job'.t1Blks k = s.type1NodeBlock (node k).pba
  /-- The others have their new child and are written. -/
  block : ∀ k, q ≤ k + 1 → k + 1 ≤ top →
    job'.t1Blks (k + 1) = Function.update (s.type1NodeBlock (node (k + 1)).pba)
      (job.childIdx (k + 1))
      { node k with pba := job'.newPbas k, hash := job'.lvlHash k }
  /-- What was written is on the disk. -/
  stored : ∀ k, 0 < k → q ≤ k → k ≤ top →
    s'.blocks (job'.newPbas k) = P.blockDataFromType1NodeBlock (job'.t1Blks k)
  /-- The data was decrypted with the old key, encrypted with the new one, and
  /-- All that was written are blocks of the branch. -/
  written. -/
  leaf : q = 0 → (node 0).gen ≠ 0 → job'.dataBlkOldPba = (node 0).pba
    ∧ job'.dataBlk = P.encrypt job.newKeyId (P.decrypt job.oldKeyId (s.blocks (node 0).pba))
    ∧ s'.blocks (job'.newPbas 0) = job'.dataBlk
  /-- Without data, the data block is that of the snapshot before. -/
  noLeaf : 0 < q ∨ (node 0).gen = 0 →
    job'.dataBlkOldPba = job.dataBlkOldPba ∧ job'.dataBlk = job.dataBlk
  /-- No other block was written. -/
  other : ∀ p, (∀ k, q ≤ k → k ≤ top → p ≠ job'.newPbas k) → s'.blocks p = s.blocks p
  /-- And all that was written are blocks of the branch. -/
  written : ∃ pbas, s'.written = s.written ++ pbas
    ∧ ∀ p ∈ pbas, ∃ k, q ≤ k ∧ k ≤ top ∧ p = job'.newPbas k

namespace Branch

variable {s s' s₁ : Store P} {node : ℕ → Type1Node} {m q top : ℕ} {job job' job₁ : RekeyingJob P}

/-- A snapshot that shares its root needs no branch. -/
theorem skip (hfirst : job.firstSnapshot = false) (hm : 0 < m) (hidx : job.t1BlkIdx = m)
    (hroot : job.t1BlksOldPbas m = (node m).pba) : Branch s s node m (m + 1) m job job where
  frame := .refl _
  idx := hidx
  shared _ := by
    refine ⟨hfirst, ?_⟩
    obtain ⟨m, rfl⟩ := Nat.exists_eq_succ_of_ne_zero hm.ne'
    exact hroot
  unshared k hk hk' := absurd hk' (by omega)
  newPbas _ _ := rfl
  oldPbas k _ hk hk' := absurd hk' (by omega)
  kept _ _ _ := ⟨rfl, rfl⟩
  read k hk _ hk' := absurd hk' (by omega)
  block k hk hk' := absurd hk' (by omega)
  stored k _ hk hk' := absurd hk' (by omega)
  leaf h0 := absurd h0 (by omega)
  noLeaf _ := ⟨rfl, rfl⟩
  other _ _ := rfl
  written := ⟨[], by simp, by simp⟩

/-- **The climb takes a branch to the root.** -/
theorem root_of_climbed (h : Branch s s₁ node m q top job job₁) (h0 : 0 < top) (htop : top ≤ m)
    (hq : q ≤ top + 1) (hc : Climbed s₁ job₁ (m - top) s' job')
    (hnode : ∀ k, k < m → node k = s.type1NodeBlock (node (k + 1)).pba (job.childIdx (k + 1)))
    (hnew : ∀ k k', q ≤ k → k < k' → k' ≤ m → job₁.newPbas k ≠ job₁.newPbas k') :
    Branch s s' node m q m job job' := by
  have hidx := h.idx
  have hsum : top + (m - top) = m := Nat.add_sub_cancel' htop
  have hkept : ∀ k, k ≤ top → job'.t1Blks k = job₁.t1Blks k := fun k hk =>
    hc.kept k (Or.inl (by rw [hidx]; exact hk))
  have hhash : ∀ k, k ≤ top → job'.lvlHash k = job₁.lvlHash k := by
    intro k hk
    cases k with
    | zero =>
      rw [RekeyingJob.lvlHash_zero, RekeyingJob.lvlHash_zero, hc.dataBlk]
    | succ k =>
      rw [RekeyingJob.lvlHash_succ, RekeyingJob.lvlHash_succ, RekeyingJob.hashOfT1Blk, hkept _ hk]
      rfl
  -- what was written before the climb stays
  have hbelow : ∀ k, q ≤ k → k ≤ top → s'.blocks (job₁.newPbas k) = s₁.blocks (job₁.newPbas k) :=
    fun k hk hkt => hc.other _ fun k' hk1 hk2 => by
      rw [hidx] at hk1 hk2
      exact hnew k k' hk (by omega) (by omega)
  have hchild : ∀ k, q ≤ k + 1 → top ≤ k → k < m → job₁.child (k + 1) = node k := by
    intro k hqk htk hkm
    rw [RekeyingJob.child, h.read (k + 1) (by omega) hqk hkm, hnode k hkm]
    unfold RekeyingJob.childIdx
    rw [h.frame.vba, h.frame.snapshotsDegree]
  have hci : ∀ k, job₁.childIdx k = job.childIdx k := by
    intro k
    unfold RekeyingJob.childIdx
    rw [h.frame.vba, h.frame.snapshotsDegree]
  exact {
    frame := h.frame.trans hc.frame
    idx := by rw [hc.idx, hidx, hsum]
    shared := h.shared
    unshared := h.unshared
    newPbas := fun k hk => by rw [hc.newPbas, h.newPbas k hk]
    oldPbas := fun k h0 hk hk' => by rw [hc.oldPbas, h.oldPbas k h0 hk hk']
    kept := fun k h0 hk => by
      rw [hkept k (by omega), hc.oldPbas]
      exact h.kept k h0 hk
    read := fun k hk _ hk' => absurd hk' (by omega)
    block := fun k hk hk' => by
      rw [hc.newPbas]
      rcases Nat.lt_or_ge k top with hlt | hge
      · rw [hkept _ hlt, hhash k hlt.le]
        exact h.block k hk hlt
      · obtain ⟨k, rfl⟩ := Nat.exists_eq_succ_of_ne_zero (n := k) (by omega)
        have hb := hc.block (k + 1) (by rw [hidx]; exact hge) (by rw [hidx, hsum]; exact hk')
        rw [h.read (k + 2) (by omega) hk hk', hchild (k + 1) hk hge hk', hci] at hb
        exact hb
    stored := fun k h0 hk hk' => by
      rw [hc.newPbas]
      rcases Nat.lt_or_ge top k with hlt | hge
      · exact hc.stored k (by rw [hidx]; exact hlt) (by rw [hidx, hsum]; exact hk')
      · rw [hbelow k hk hge, hkept k hge]
        exact h.stored k h0 hk hge
    leaf := fun hq0 hgen => by
      obtain ⟨hold, hdata, hblk⟩ := h.leaf hq0 hgen
      rw [hc.dataBlkOldPba, hc.dataBlk, hc.newPbas, hbelow 0 (by omega) (Nat.zero_le _)]
      exact ⟨hold, hdata, hblk⟩
    noLeaf := fun hno => by
      rw [hc.dataBlkOldPba, hc.dataBlk]
      exact h.noLeaf hno
    other := fun p hp => by
      rw [hc.newPbas] at hp
      rw [hc.other p fun k hk hk' => ?_]
      · exact h.other p fun k hk hk' => hp k hk (hk'.trans htop)
      · rw [hidx] at hk hk'
        exact hp k (by omega) (by omega)
    written := by
      obtain ⟨pbas, hw, hpbas⟩ := h.written
      refine ⟨pbas ++ (List.range' (job₁.t1BlkIdx + 1) (m - top)).map job₁.newPbas, ?_, ?_⟩
      · rw [hc.written, hw, List.append_assoc]
      · intro p hp
        rw [hc.newPbas]
        rcases List.mem_append.mp hp with hp | hp
        · obtain ⟨k, hk, hk', rfl⟩ := hpbas p hp
          exact ⟨k, hk, hk'.trans htop, rfl⟩
        · obtain ⟨k, hk, rfl⟩ := List.mem_map.mp hp
          obtain ⟨hle, hlt⟩ := List.mem_range'_1.mp hk
          rw [hidx] at hle hlt
          exact ⟨k, by omega, by omega, rfl⟩ }

/-- The root is read before the descent. -/
theorem of_readNode {pba : ℕ} (hq : q ≤ m)
    (h : Branch s s' node m q top (job.readNode s m pba) job') :
    Branch s s' node m q top job job' := by
  have hkeep : ∀ k, k ≠ m → (job.readNode s m pba).t1Blks k = job.t1Blks k
      ∧ (job.readNode s m pba).t1BlksOldPbas k = job.t1BlksOldPbas k :=
    fun k hk => ⟨Function.update_of_ne hk _ _, Function.update_of_ne hk _ _⟩
  have hold : ∀ k, k ≠ m → (job.readNode s m pba).oldPba k = job.oldPba k := by
    intro k hk
    cases k with
    | zero => rfl
    | succ k => exact (hkeep (k + 1) hk).2
  exact { h with
    frame := (RekeyingJob.Frame.readNode job s m pba).trans h.frame
    shared := fun h0 => by
      obtain ⟨hf, heq⟩ := h.shared h0
      rw [hold _ (by omega)] at heq
      exact ⟨hf, heq⟩
    unshared := fun k hk hk' hf => by
      rw [← hold k hk'.ne]
      exact h.unshared k hk hk' hf
    kept := fun k h0 hk => by
      rw [← (hkeep k (by omega)).1, ← (hkeep k (by omega)).2]
      exact h.kept k h0 hk }

end Branch

/-- The work on the leaf leaves the new addresses as they were handed out. -/
theorem rekeyLeaf_newPbas (stop : RekeyingStop) (s : Store P) (job : RekeyingJob P) :
    (rekeyLeaf stop s job).2.newPbas = job.newPbas := by
  cases stop <;> rfl

section

variable {s : Store P} {node : ℕ → Type1Node} {m : ℕ} {job₀ job₁ : RekeyingJob P}
  {stop : RekeyingStop} {newPbas : NewPbas}

/-- Writing the level-1 node with the new entry of the leaf. -/
theorem rekeyWriteLeafCompleted_spec {A : Store P} {jobA : RekeyingJob P}
    (hframe : RekeyingJob.Frame job₀ jobA) (hidx : jobA.t1BlkIdx = 1)
    (hblk : jobA.t1Blks 1 = s.type1NodeBlock (node 1).pba)
    (hnode : node 0 = s.type1NodeBlock (node 1).pba (job₀.childIdx 1)) :
    (rekeyWriteLeafCompleted A jobA).2.t1Blks 1
        = Function.update (s.type1NodeBlock (node 1).pba) (job₀.childIdx 1)
          { node 0 with pba := jobA.newPbas 0, hash := P.hash jobA.dataBlk }
      ∧ (rekeyWriteLeafCompleted A jobA).1
        = A.write (jobA.newPbas 1) (P.blockDataFromType1NodeBlock
          ((rekeyWriteLeafCompleted A jobA).2.t1Blks 1))
      ∧ RekeyingJob.Frame job₀ (rekeyWriteLeafCompleted A jobA).2
      ∧ (rekeyWriteLeafCompleted A jobA).2.t1BlkIdx = 1
      ∧ ∀ k, k ≠ 1 → (rekeyWriteLeafCompleted A jobA).2.t1Blks k = jobA.t1Blks k := by
  have hci : jobA.childIdx 1 = job₀.childIdx 1 := by
    unfold RekeyingJob.childIdx
    rw [hframe.vba, hframe.snapshotsDegree]
  have hchild : jobA.child 1 = node 0 := by
    rw [RekeyingJob.child, hblk, hci, hnode]
  have hself : (rekeyWriteLeafCompleted A jobA).2.t1Blks 1
      = Function.update (jobA.t1Blks 1) (jobA.childIdx 1)
          { jobA.child 1 with pba := jobA.newPbas 0, hash := P.hash jobA.dataBlk } := by
    have hblks : (rekeyWriteLeafCompleted A jobA).2.t1Blks
        = Function.update jobA.t1Blks 1 (Function.update (jobA.t1Blks 1) (jobA.childIdx 1)
          { jobA.child 1 with pba := jobA.newPbas 0, hash := P.hash jobA.dataBlk }) := rfl
    rw [hblks, Function.update_self]
  refine ⟨by rw [hself, hblk, hci, hchild], rfl, hframe.trans ?_, hidx, fun k hk => ?_⟩
  · exact ⟨rfl, rfl, rfl, rfl, rfl, rfl, rfl, rfl, rfl⟩
  · exact Function.update_of_ne hk _ _

/-- **What is done before the climb**: the data block is written under its new
key, or the leaf keeps an entry that it has already, and the node above gets
that entry. The cases are those in which the descent can stop. -/
theorem rekeyLeaf_branch (hd : Descended s node m job₀ job₁ stop) (hm : 2 ≤ m)
    (hnode : node 0 = s.type1NodeBlock (node 1).pba (job₀.childIdx 1))
    (hnew : ∀ k, k < stop.minLvl → newPbas k = job₀.newPbas k)
    (hne : stop.minLvl = 0 → newPbas 0 ≠ newPbas 1) :
    Branch s (rekeyLeaf stop s { job₁ with newPbas := newPbas }).1 node m stop.minLvl
      (max (stop.minLvl - 1) 1) job₀ (rekeyLeaf stop s { job₁ with newPbas := newPbas }).2 := by
  have hframe : RekeyingJob.Frame job₀ { job₁ with newPbas := newPbas } :=
    hd.frame.trans ⟨rfl, rfl, rfl, rfl, rfl, rfl, rfl, rfl, rfl⟩
  cases stop with
  | higherInnerLvl q =>
    have hq := hd.higher q rfl
    have hmax : max (q - 1) 1 = q - 1 := by omega
    show Branch s s node m q (max (q - 1) 1) job₀ { job₁ with newPbas := newPbas }
    rw [hmax]
    exact {
      frame := hframe
      idx := hd.idx.trans hmax
      shared := hd.shared
      unshared := hd.unshared
      newPbas := hnew
      oldPbas := fun k h0 hk hk' => (hd.read k h0 hk hk').2
      kept := fun k h0 hk => hd.kept k h0 (Or.inl hk)
      read := fun k _ hk hk' => (hd.read k (by omega) hk hk').1
      block := fun k hk hk' => absurd hk' (by omega)
      stored := fun k _ hk hk' => absurd hk' (by omega)
      leaf := fun h0 => absurd h0 (by omega)
      noLeaf := fun _ => (hd.noLeaf (by simp)).2
      other := fun _ _ => rfl
      written := ⟨[], by simp, by simp⟩ }
  | lowestInnerLvl q =>
    have hq := hd.lowest q rfl
    have hmax : max (q - 1) 1 = 1 := by omega
    have hidx : ({ job₁ with newPbas := newPbas } : RekeyingJob P).t1BlkIdx = 1 :=
      hd.idx.trans hmax
    have hblk := (hd.read 1 Nat.one_pos hq (by omega)).1
    obtain ⟨hself, hstore, hfr, hidx', hoth⟩ := rekeyWriteLeafCompleted_spec (A := s)
      hframe hidx hblk hnode
    show Branch s (rekeyWriteLeafCompleted s { job₁ with newPbas := newPbas }).1 node m q
      (max (q - 1) 1) job₀ (rekeyWriteLeafCompleted s { job₁ with newPbas := newPbas }).2
    rw [hmax]
    exact {
      frame := hfr
      idx := hidx'
      shared := hd.shared
      unshared := hd.unshared
      newPbas := hnew
      oldPbas := fun k h0 hk hk' => (hd.read k h0 hk hk').2
      kept := fun k h0 hk => absurd h0 (by omega)
      read := fun k hk1 hk hk' => by
        rw [hoth k (by omega)]
        exact (hd.read k (by omega) hk hk').1
      block := fun k _ hk' => by
        obtain rfl : k = 0 := by omega
        exact hself
      stored := fun k h0 _ hk' => by
        obtain rfl : k = 1 := by omega
        rw [hstore]
        exact Store.write_blocks_self s _ _
      leaf := fun h0 hgen => absurd ((hd.noLeaf (by simp)).1 h0) hgen
      noLeaf := fun _ => (hd.noLeaf (by simp)).2
      other := fun p hp => by
        rw [hstore]
        exact Store.write_blocks_of_ne s _ (hp 1 hq le_rfl)
      written := by
        refine ⟨[newPbas 1], by rw [hstore]; rfl, fun p hp => ⟨1, hq, le_rfl, ?_⟩⟩
        exact List.mem_singleton.mp hp }
  | leafLvl =>
    obtain ⟨hgen, hold, hdata⟩ := hd.leaf rfl
    have hblk := (hd.read 1 Nat.one_pos (Nat.zero_le 1) (by omega)).1
    -- the data block is encrypted and written first
    have hframeA : RekeyingJob.Frame job₀
        { job₁ with
          newPbas := newPbas
          dataBlk := P.encrypt job₁.newKeyId job₁.dataBlk } :=
      hd.frame.trans ⟨rfl, rfl, rfl, rfl, rfl, rfl, rfl, rfl, rfl⟩
    obtain ⟨hself, hstore, hfr, hidx', hoth⟩ := rekeyWriteLeafCompleted_spec
      (A := s.write (newPbas 0) (P.encrypt job₁.newKeyId job₁.dataBlk))
      hframeA hd.idx hblk hnode
    exact {
      frame := hfr
      idx := hidx'
      shared := fun h0 => absurd h0 (lt_irrefl 0)
      unshared := hd.unshared
      newPbas := fun k hk => absurd hk (Nat.not_lt_zero k)
      oldPbas := fun k h0 hk hk' => (hd.read k h0 hk hk').2
      kept := fun k _ hk => absurd hk (Nat.not_lt_zero k)
      read := fun k hk1 hk hk' => by
        have hk2 : 1 < k := hk1
        refine (hoth k (by omega)).trans ?_
        exact (hd.read k (by omega) hk hk').1
      block := fun k _ hk' => by
        have hk2 : k + 1 ≤ 1 := hk'
        obtain rfl : k = 0 := by omega
        exact hself
      stored := fun k h0 _ hk' => by
        have hk2 : k ≤ 1 := hk'
        obtain rfl : k = 1 := by omega
        refine (congrFun (congrArg Store.blocks hstore) _).trans ?_
        exact Store.write_blocks_self _ _ _
      leaf := fun _ _ => by
        refine ⟨hold, ?_, ?_⟩
        · show P.encrypt job₁.newKeyId job₁.dataBlk = _
          rw [hdata, hd.frame.newKeyId]
        · refine (congrFun (congrArg Store.blocks hstore) _).trans ?_
          refine (Store.write_blocks_of_ne _ _ (hne rfl)).trans ?_
          exact Store.write_blocks_self _ _ _
      noLeaf := fun h0 => h0.elim (fun h0 => absurd h0 (lt_irrefl 0)) fun h0 => absurd h0 hgen
      other := fun p hp => by
        refine (congrFun (congrArg Store.blocks hstore) _).trans ?_
        refine (Store.write_blocks_of_ne _ _ (hp 1 (Nat.zero_le 1) le_rfl)).trans ?_
        exact Store.write_blocks_of_ne _ _ (hp 0 le_rfl (Nat.zero_le 1))
      written := by
        refine ⟨[newPbas 0, newPbas 1], ?_, fun p hp => ?_⟩
        · refine (congrArg Store.written hstore).trans ?_
          show (s.written ++ [newPbas 0]) ++ [newPbas 1] = _
          rw [List.append_assoc]
          rfl
        · rcases List.mem_cons.mp hp with rfl | hp
          · exact ⟨0, le_rfl, Nat.zero_le 1, rfl⟩
          · exact ⟨1, Nat.zero_le 1, le_rfl, List.mem_singleton.mp hp⟩ }

end

/-- **What a branch does**: it hands out blocks for the levels from one up,
writes them with the new child in each, and leaves every other block alone. -/
theorem rekeyBranch_spec {ctx : AllocContext} {ws ws' : Workspace P} {job job' : RekeyingJob P}
    (h : rekeyBranch ctx ws job = some (ws', job')) (hd : DegreeAdmitted job.snapshotsDegree)
    (hm : 2 ≤ job.snapshot.maxLevel) (hmeta : ∀ pba ∈ ws.pools.metaPbas, pba ≠ 0)
    (hstock : (stockPbas ws.pools.freeTree.entries).Nodup)
    (hretained : job.firstSnapshot = false →
      ∀ k, k < job.snapshot.maxLevel → job.newPbas k ≠ 0) :
    ∃ q job₁, q ≤ job.snapshot.maxLevel ∧ RekeyingJob.Frame job job₁
      ∧ (∀ l, q ≤ l → l ≤ job.snapshot.maxLevel → walkForRekeying job₁ q l
          = nodeAt ws.store job.snapshotsDegree job.snapshot job.vba l)
      ∧ Handout (rekeyingRequest ctx job₁ q) (lvlsFrom q job.snapshot.maxLevel) job'.newPbas
          ws.pools.freeTree.entries ws'.pools.freeTree.entries
      ∧ Branch ws.store ws'.store
          (nodeAt ws.store job.snapshotsDegree job.snapshot job.vba)
          job.snapshot.maxLevel q job.snapshot.maxLevel job job'
      ∧ ∀ k, job.snapshot.maxLevel < k → job'.newPbas k = 0 := by
  set node := nodeAt ws.store job.snapshotsDegree job.snapshot job.vba with hnodedef
  set m := job.snapshot.maxLevel with hmdef
  have hnode : ∀ k, k < m →
      node k = ws.store.type1NodeBlock (node (k + 1)).pba (job.childIdx (k + 1)) :=
    fun k hk => nodeAt_of_lt hd ws.store job.vba hk
  have hroot : node m = job.snapshot.root := nodeAt_maxLevel _ _ _ _
  unfold rekeyBranch at h
  obtain ⟨⟨stop, job₁⟩, hdesc, h⟩ := Option.bind_eq_some_iff.mp h
  obtain ⟨⟨ws₂, job₂⟩, halloc, h⟩ := Option.map_eq_some_iff.mp h
  -- the root is read first
  have hread := RekeyingJob.Frame.readNode job ws.store m job.snapshot.pba
  have hdes : Descended ws.store node m (job.readNode ws.store m job.snapshot.pba) job₁ stop := by
    refine rekeyDescend_spec hnode ?_ ?_ rfl hdesc
    · rw [hroot]
      exact Function.update_self _ _ _
    · rw [hroot]
      exact Function.update_self _ _ _
  have hmax : job₁.snapshot.maxLevel = m := by rw [hdes.frame.snapshot, hread.snapshot]
  have hkept : ∀ k, k < stop.minLvl → job₁.newPbas k ≠ 0 := by
    intro k hk
    rw [hdes.newPbas]
    exact hretained (hdes.shared (by omega)).1 k (lt_of_lt_of_le hk hdes.minLvl_le)
  obtain ⟨hq, hstore, ⟨newPbas, rfl⟩, hhand, hbelow, habove⟩ :=
    rekeyAlloc_spec halloc hmeta hstock hkept
  rw [hmax] at hq hhand habove
  have hinj : ∀ k k', stop.minLvl ≤ k → k < k' → k' ≤ m → newPbas k ≠ newPbas k' := by
    intro k k' hk hkk hk' heq
    exact hkk.ne (hhand.injOn k (mem_lvlsFrom.mpr ⟨hk, by omega⟩) k'
      (mem_lvlsFrom.mpr ⟨by omega, hk'⟩) heq)
  have hleaf := rekeyLeaf_branch hdes hm (hnode 0 (by omega))
    (fun k hk => (show newPbas k = _ from (hbelow k hk).trans (congrFun hdes.newPbas k)))
    fun h0 => hinj 0 1 (by omega) Nat.one_pos (by omega)
  dsimp only at h
  rw [hstore] at h
  have hnewB := rekeyLeaf_newPbas stop ws.store { job₁ with newPbas := newPbas }
  generalize rekeyLeaf stop ws.store { job₁ with newPbas := newPbas } = res at h hleaf hnewB
  obtain ⟨s₁, jobB⟩ := res
  dsimp only at h hleaf hnewB
  have hmaxB : jobB.snapshot.maxLevel = m := by rw [hleaf.frame.snapshot, hread.snapshot]
  have htop : max (stop.minLvl - 1) 1 < m := by omega
  have hsteps : jobB.snapshot.maxLevel - (jobB.t1BlkIdx + 1) + 1
      = m - max (stop.minLvl - 1) 1 := by
    rw [hmaxB, hleaf.idx]
    omega
  rw [rekeyClimb_eq, hsteps] at h
  have hclimb := @extClimb_spec P (m - max (stop.minLvl - 1) 1) s₁ jobB
    fun k k' hk hkk hk' => by
      rw [hleaf.idx] at hk hk'
      rw [hnewB]
      exact hinj k k' (by omega) hkk (by omega)
  have hbranch := hleaf.root_of_climbed (by omega) htop.le (by omega) hclimb hnode
    fun k k' hk hkk hk' => by
    rw [hnewB]
    exact hinj k k' hk hkk hk'
  obtain ⟨rfl, rfl⟩ := Prod.mk.inj h
  have hnew : (extClimb (m - max (stop.minLvl - 1) 1) s₁ jobB).2.newPbas = newPbas :=
    hclimb.newPbas.trans hnewB
  refine ⟨stop.minLvl, job₁, hq, hread.trans hdes.frame, fun l hl hl' => ?_, ?_,
    hbranch.of_readNode hq, ?_⟩
  · -- the walk of the request has the nodes on the way
    unfold walkForRekeying
    rw [hmax, if_neg (not_lt.mpr hl')]
    split_ifs with htop'
    · rw [hdes.frame.snapshot, hread.snapshot, htop', hroot]
    · rw [RekeyingJob.child, (hdes.read (l + 1) (Nat.succ_pos l) (by omega) (by omega)).1,
        hnode l (by omega)]
      unfold RekeyingJob.childIdx
      rw [hdes.frame.vba, hdes.frame.snapshotsDegree]
      rfl
  · rw [hnew]
    exact hhand
  · rw [hnew]
    exact habove

end Cbe
