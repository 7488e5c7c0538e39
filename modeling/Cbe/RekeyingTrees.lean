import Cbe.RekeyingBranch
import Cbe.Sound

/-!
# What a rekeying step does to the trees

A rekeying step begins with the trees `t₀` and goes from the newest snapshot
that contains the address `r` to the oldest one. What holds between two of its
branches is `Rekeyed`: the snapshots that are done have new paths to `r`, in
blocks drawn from the stock that the step began with, and all other blocks are
as they were at the beginning. What the job still knows of the snapshot that it
did last is `RekeyAt`; from a shared node on, the next snapshot takes over the
new nodes of that one.

The turn of a snapshot is given by `RekeyStep`, which says what its branch has
done. That this takes the snapshot to those that are done (`rekeyed`) is shown
clause by clause: the hashes of the new path, its leaf, what it shares with the
other new paths, where its blocks come from, and what was put back for them.

Sharing is the clause that needs the order of the snapshots. If two old paths
have a block in common on some level, so have the new ones, and only then. For
the snapshot at hand this is known of the one before it (`newPaths_below`); for
the ones before that it follows because blocks are shared without gaps.
-/

namespace Cbe

variable {P : Platform}

/-- The new node of a level: the old one with the address and the hash that the
job has for the level. -/
def rekeyedNode (job : RekeyingJob P) (node : ℕ → Type1Node) (l : ℕ) : Type1Node :=
  { pba := job.newPbas l, gen := (node l).gen, hash := job.lvlHash l }

/-- The entry of a block that an older snapshot has drawn guards it, also when
the rekeying has gone on. -/
structure RekeyGuard (t₀ : Trees P) (K : KeyState) (r : ℕ) (i : SnapshotsIndex) (l : ℕ)
    (x : Draw) : Prop where
  /-- The entry has stayed with the block. -/
  pba : x.entry.pba = x.pba
  /-- It is reserved. -/
  reserved : x.entry.reserved = true
  /-- It records that the block was given up after the generation of the snapshot.
  -/
  free : (t₀.snaps i).gen < x.entry.freeGen
  /-- It is for an address of the same node. -/
  lastVba : sameNode t₀.degree l x.entry.lastVba r
  /-- Its key is not newer than the current one. -/
  lastKey : x.entry.lastKeyId ≤ K.currentKeyId
  /-- If its key is the one that is replaced, its address comes after that of the
  step. -/
  front : x.entry.lastKeyId = K.previousKeyId → r < x.entry.lastVba

/-- **The trees between two branches** of a rekeying step. The draws `out` list,
for each block taken from the stock, its level and the entry that came back for
it. -/
structure Rekeyed (t₀ t : Trees P) (K : KeyState) (r : ℕ) (done : SnapshotsIndex → Prop)
    (new : SnapshotsIndex → ℕ → Type1Node) (out : List Draw) : Prop where
  /-- The degree is the same. -/
  degree : t.degree = t₀.degree
  /-- So is the slot of the current snapshot. -/
  cur : t.cur = t₀.cur
  /-- Those that are done count, and contain the address. -/
  tracked : ∀ i, done i → t₀.Tracked i ∧ r < (t₀.snaps i).nrOfLeafs
  /-- They have a new root, and are otherwise as before. -/
  relocated : ∀ i, done i → t.snaps i = { t₀.snaps i with
    pba := (new i (t₀.snaps i).maxLevel).pba
    hash := (new i (t₀.snaps i).maxLevel).hash }
  /-- The others are as before. -/
  undone : ∀ i, ¬ done i → t.snaps i = t₀.snaps i
  /-- Only blocks that were drawn have changed. -/
  frame : ∀ p, (∀ x ∈ out, p ≠ x.pba) → t.store.blocks p = t₀.store.blocks p
  /-- The trees of those that are done have a new path down to the leaf. -/
  path : ∀ i, done i → Trees.PathReplaced t₀ t i i r 0 (new i)
  /-- The new nodes have the generations of the old ones. -/
  gen : ∀ i l, done i → l ≤ (t₀.snaps i).maxLevel → (new i l).gen = (t₀.node i r l).gen
  /-- A new node has the hash of its block, where something is written. -/
  hash : ∀ i l, done i → l ≤ (t₀.snaps i).maxLevel → 0 < l ∨ (t₀.node i r l).gen ≠ 0 →
    P.hash (t.blockOf (new i l)) = (new i l).hash
  /-- The data is encrypted under the new key. -/
  data : ∀ i, done i → (t₀.node i r 0).gen ≠ 0 →
    t.blockOf (new i 0)
      = P.encrypt K.currentKeyId (P.decrypt K.previousKeyId (t₀.blockOf (t₀.node i r 0)))
  /-- What was shared is shared. -/
  shared : ∀ i j l, done i → done j → l ≤ (t₀.snaps i).maxLevel → l ≤ (t₀.snaps j).maxLevel →
    0 < l ∨ ((t₀.node i r l).gen ≠ 0 ∧ (t₀.node j r l).gen ≠ 0) →
    (t₀.node i r l).pba = (t₀.node j r l).pba → new i l = new j l
  /-- And nothing else is. -/
  apart : ∀ i j l, done i → done j → l ≤ (t₀.snaps i).maxLevel → l ≤ (t₀.snaps j).maxLevel →
    0 < l ∨ ((t₀.node i r l).gen ≠ 0 ∧ (t₀.node j r l).gen ≠ 0) →
    (new i l).pba = (new j l).pba → (t₀.node i r l).pba = (t₀.node j r l).pba
  /-- The new blocks were drawn. -/
  origin : ∀ i l, done i → l ≤ (t₀.snaps i).maxLevel → ∃ x ∈ out, x.pba = (new i l).pba
  /-- Those that are needed were drawn for the current tree or under guards. -/
  drawn : ∀ i l, done i → l ≤ (t₀.snaps i).maxLevel →
    0 < l ∨ (t₀.node i r l).gen ≠ 0 ∨ i = t₀.cur →
    ∃ x ∈ out, x.pba = (new i l).pba ∧ x.lvl = l ∧ x.entry.allocGen = (new i l).gen
      ∧ ((done t₀.cur ∧ l ≤ (t₀.snaps t₀.cur).maxLevel ∧ (new t₀.cur l).pba = x.pba)
        ∨ RekeyGuard t₀ K r i l x)
  /-- An entry has the block that the current tree gave up for the one drawn, or stays
  with that one, which the current tree does not have then. -/
  entry : ∀ x ∈ out, (done t₀.cur ∧ x.lvl ≤ (t₀.snaps t₀.cur).maxLevel
      ∧ x.pba = (new t₀.cur x.lvl).pba ∧ x.entry.pba = (t₀.node t₀.cur r x.lvl).pba)
    ∨ (done t₀.cur ∧ x.entry.pba = x.pba
      ∧ ∀ l, l ≤ (t₀.snaps t₀.cur).maxLevel → (new t₀.cur l).pba ≠ x.pba)

/-- **What the job knows of the snapshot that it did last.** -/
structure RekeyAt (t₀ t : Trees P) (r : ℕ) (i : SnapshotsIndex) (job : RekeyingJob P)
    (new : SnapshotsIndex → ℕ → Type1Node) : Prop where
  /-- The new nodes are what the job holds. -/
  path : ∀ l, l ≤ (t₀.snaps i).maxLevel → new i l = rekeyedNode job (t₀.node i r) l
  /-- The job knows where the old ones were. -/
  oldPbas : ∀ l, 0 < l → l ≤ (t₀.snaps i).maxLevel →
    job.t1BlksOldPbas l = (t₀.node i r l).pba
  /-- What it holds is on the disk. -/
  stored : ∀ l, 0 < l → l ≤ (t₀.snaps i).maxLevel →
    t.store.blocks (job.newPbas l) = P.blockDataFromType1NodeBlock (job.t1Blks l)
  /-- If there is data, the same holds of the data block. -/
  leaf : (t₀.node i r 0).gen ≠ 0 → job.dataBlkOldPba = (t₀.node i r 0).pba
    ∧ t.store.blocks (job.newPbas 0) = job.dataBlk

/-- Before the first branch nothing is done. -/
theorem Rekeyed.start (t₀ : Trees P) (K : KeyState) (r : ℕ)
    (new : SnapshotsIndex → ℕ → Type1Node) : Rekeyed t₀ t₀ K r (fun _ => False) new [] where
  degree := rfl
  cur := rfl
  tracked _ h := h.elim
  relocated _ h := h.elim
  undone _ _ := rfl
  frame _ _ := rfl
  path _ h := h.elim
  gen _ _ h := h.elim
  hash _ _ h := h.elim
  data _ h := h.elim
  shared _ _ _ h := h.elim
  apart _ _ _ h := h.elim
  origin _ _ h := h.elim
  drawn _ _ h := h.elim
  entry _ h := absurd h (List.not_mem_nil)

/-- A branch is about the nodes up to the root only. -/
theorem Branch.congr {s s' : Store P} {node node' : ℕ → Type1Node} {m q : ℕ}
    {job job' : RekeyingJob P} (h : Branch s s' node m q m job job') (hq : q ≤ m + 1)
    (hnode : ∀ k, k ≤ m → node k = node' k) : Branch s s' node' m q m job job' :=
  { h with
    shared := fun h0 => by
      rw [← hnode _ (by omega)]
      exact h.shared h0
    unshared := fun k hk hk' => by
      rw [← hnode k hk'.le]
      exact h.unshared k hk hk'
    oldPbas := fun k h0 hk hk' => by
      rw [← hnode k hk']
      exact h.oldPbas k h0 hk hk'
    read := fun k hk _ hk' => absurd hk' (not_le.mpr hk)
    block := fun k hk hk' => by
      rw [← hnode k (by omega), ← hnode (k + 1) hk']
      exact h.block k hk hk'
    leaf := by
      rw [← hnode 0 (Nat.zero_le m)]
      exact h.leaf
    noLeaf := by
      rw [← hnode 0 (Nat.zero_le m)]
      exact h.noLeaf }

namespace Rekeyed

variable {t₀ t : Trees P} {K : KeyState} {r g : ℕ} {done : SnapshotsIndex → Prop}
  {new : SnapshotsIndex → ℕ → Type1Node} {out : List Draw} {usable : Type2Node → Prop}
  {es es' : List Type2Node} {i : SnapshotsIndex} {v l : ℕ}

/-- A block that was drawn is none that a tree owned at the beginning. -/
theorem ne_draw (hu : ∀ e ∈ es, usable e → ∀ i v l, t₀.Owned i v l → (t₀.node i v l).pba ≠ e.pba)
    (hD : Drawn usable es es' out) (ho : t₀.Owned i v l) {x : Draw} (hx : x ∈ out) :
    (t₀.node i v l).pba ≠ x.pba := by
  obtain ⟨e, he, hue, hpba⟩ := hD.taken x hx
  rw [← hpba]
  exact hu e he hue i v l ho

/-- What a tree owned at the beginning has its block as it was. -/
theorem block_eq (h : Rekeyed t₀ t K r done new out)
    (hu : ∀ e ∈ es, usable e → ∀ i v l, t₀.Owned i v l → (t₀.node i v l).pba ≠ e.pba)
    (hD : Drawn usable es es' out) (ho : t₀.Owned i v l) :
    t.store.blocks (t₀.node i v l).pba = t₀.store.blocks (t₀.node i v l).pba :=
  h.frame _ fun _ hx => ne_draw hu hD ho hx

/-- A tree that is not done is left alone. -/
theorem leftAlone (h : Rekeyed t₀ t K r done new out)
    (hu : ∀ e ∈ es, usable e → ∀ i v l, t₀.Owned i v l → (t₀.node i v l).pba ≠ e.pba)
    (hD : Drawn usable es es' out) (hi : t₀.Tracked i) (hnd : ¬ done i) :
    Trees.LeftAlone t₀ t i i where
  degree := h.degree
  maxLevel := by rw [h.undone i hnd]
  root := by rw [h.undone i hnd]
  inner v l h0 hp := h.block_eq hu hD ⟨hi, hp, Or.inl h0⟩

end Rekeyed

/-- **One snapshot's turn** in a rekeying step: a branch of it was rekeyed from
the level `q` up, from where on it shares nothing with the snapshots that are
done; below, it shares the nodes of the one that was done last. -/
structure RekeyStep (t₀ t : Trees P) (K : KeyState) (r : ℕ) (done : SnapshotsIndex → Prop)
    (new : SnapshotsIndex → ℕ → Type1Node) (out' : List Draw) (i : SnapshotsIndex) (q : ℕ)
    (s' : Store P) (job job' : RekeyingJob P) : Prop where
  /-- The snapshot counts. -/
  tracked : t₀.Tracked i
  /-- It contains the address. -/
  contains : r < (t₀.snaps i).nrOfLeafs
  /-- It was not done before. -/
  undone : ¬ done i
  /-- The job is about the address. -/
  vba : job.vba = r
  /-- It has the degree of the trees. -/
  degree : job.snapshotsDegree = t₀.degree
  /-- It has the key that is replaced. -/
  oldKey : job.oldKeyId = K.previousKeyId
  /-- It has the new key. -/
  newKey : job.newKeyId = K.currentKeyId
  /-- The branch is one of the tree. -/
  minLvl_le : q ≤ (t₀.snaps i).maxLevel + 1
  /-- The root is above the leaves. -/
  maxLevel_pos : 0 < (t₀.snaps i).maxLevel
  /-- The branch was rekeyed. -/
  branch : Branch t.store s' (t₀.node i r) (t₀.snaps i).maxLevel q (t₀.snaps i).maxLevel job job'
  /-- Below the branch, the job has what it did for the snapshot before, which is
  not older. -/
  prev : 0 < q → ∃ p, done p ∧ RekeyAt t₀ t r p job new ∧ (t₀.snaps i).gen ≤ (t₀.snaps p).gen
  /-- The current snapshot is the first one. -/
  first : (i = t₀.cur ∧ q = 0 ∧ ∀ j, ¬ done j) ∨ (i ≠ t₀.cur ∧ done t₀.cur)
  /-- On it, no node is one of a snapshot that is done. -/
  apart : ∀ j l, done j → q ≤ l → l ≤ (t₀.snaps i).maxLevel → l ≤ (t₀.snaps j).maxLevel →
    0 < l ∨ ((t₀.node i r l).gen ≠ 0 ∧ (t₀.node j r l).gen ≠ 0) →
    (t₀.node i r l).pba ≠ (t₀.node j r l).pba
  /-- Each of its levels has drawn a block. -/
  draws : ∀ l, q ≤ l → l ≤ (t₀.snaps i).maxLevel → ∃ x ∈ out', x.pba = job'.newPbas l
    ∧ x.lvl = l ∧ x.entry.allocGen = (t₀.node i r l).gen ∧ (i = t₀.cur ∨ RekeyGuard t₀ K r i l x)
  /-- What came back is the old block of the current tree, or the block itself. -/
  entry : ∀ x ∈ out', if i = t₀.cur then x.lvl ≤ (t₀.snaps i).maxLevel
      ∧ x.pba = job'.newPbas x.lvl ∧ x.entry.pba = (t₀.node i r x.lvl).pba
    else x.entry.pba = x.pba

/-- The trees after the turn of a snapshot. -/
def rekeyedTrees (t : Trees P) (s' : Store P) (i : SnapshotsIndex) (job' : RekeyingJob P) :
    Trees P :=
  { t with
    store := s'
    snaps := Function.update t.snaps i { t.snaps i with
      pba := job'.newPbas (t.snaps i).maxLevel
      hash := job'.lvlHash (t.snaps i).maxLevel } }

namespace RekeyStep

variable {t₀ t : Trees P} {K K₀ : KeyState} {r g q : ℕ} {done : SnapshotsIndex → Prop}
  {new : SnapshotsIndex → ℕ → Type1Node} {out out' : List Draw} {usable : Type2Node → Prop}
  {es es' : List Type2Node} {i p : SnapshotsIndex} {s' : Store P} {job job' : RekeyingJob P}
  {l : ℕ}

/-- The way is in the tree. -/
theorem present (h : RekeyStep t₀ t K r done new out' i q s' job job') (hs : Sound t₀ K₀ es g)
    (hl : l ≤ (t₀.snaps i).maxLevel) : t₀.Present i r l := hs.present h.tracked h.contains hl

/-- Below the level at which the branch stopped, the way is the one of the
snapshot before. -/
theorem pba_below (h : RekeyStep t₀ t K r done new out' i q s' job job')
    (hs : Sound t₀ K₀ es g) (hp : RekeyAt t₀ t r p job new)
    (hmax : (t₀.snaps i).maxLevel ≤ (t₀.snaps p).maxLevel) (h0 : 0 < l) (hl : l < q) :
    (t₀.node i r l).pba = (t₀.node p r l).pba := by
  have hq := h.minLvl_le
  have hle : l ≤ q - 1 := by omega
  clear hl
  induction hle using Nat.decreasingInduction with
  | self =>
    obtain ⟨-, heq⟩ := h.branch.shared (by omega)
    obtain ⟨k, hk⟩ := Nat.exists_eq_succ_of_ne_zero h0.ne'
    rw [← heq, hk, RekeyingJob.oldPba_succ, hp.oldPbas (k + 1) (Nat.succ_pos k) (by omega)]
  | of_succ k hlt ih =>
    have hup := ih (Nat.succ_pos k)
    rw [Trees.node_of_lt hs.admitted (by omega), hup,
      ← Trees.node_of_lt hs.admitted (by omega)]

/-- Below that level the nodes are those of the snapshot before. -/
theorem node_below (h : RekeyStep t₀ t K r done new out' i q s' job job')
    (hs : Sound t₀ K₀ es g) (hp : RekeyAt t₀ t r p job new)
    (hmax : (t₀.snaps i).maxLevel ≤ (t₀.snaps p).maxLevel) (hl : l + 1 < q) :
    t₀.node i r l = t₀.node p r l := by
  have hq := h.minLvl_le
  rw [Trees.node_of_lt hs.admitted (by omega), h.pba_below hs hp hmax (Nat.succ_pos l) hl,
    ← Trees.node_of_lt hs.admitted (by omega)]

/-- The leaf is that of the snapshot before, too, if that was written. -/
theorem leaf_below (h : RekeyStep t₀ t K r done new out' i q s' job job')
    (hs : Sound t₀ K₀ es g) (hp : RekeyAt t₀ t r p job new)
    (hmax : (t₀.snaps i).maxLevel ≤ (t₀.snaps p).maxLevel) (hq : 0 < q)
    (hgen : (t₀.node p r 0).gen ≠ 0) : (t₀.node i r 0).pba = (t₀.node p r 0).pba := by
  rcases Nat.lt_or_eq_of_le (Nat.succ_le_of_lt hq) with hlt | heq
  · rw [h.node_below hs hp hmax hlt]
  · obtain ⟨-, hsh⟩ := h.branch.shared hq
    rw [← heq] at hsh
    rw [← (hp.leaf hgen).1]
    exact hsh.symm

/-- What the job has below that level it had before. -/
theorem lvlHash_below (h : RekeyStep t₀ t K r done new out' i q s' job job') (hl : l < q) :
    job'.lvlHash l = job.lvlHash l := by
  cases l with
  | zero =>
    rw [RekeyingJob.lvlHash_zero, RekeyingJob.lvlHash_zero, (h.branch.noLeaf (Or.inl hl)).2]
  | succ l =>
    rw [RekeyingJob.lvlHash_succ, RekeyingJob.lvlHash_succ, RekeyingJob.hashOfT1Blk,
      (h.branch.kept (l + 1) (Nat.succ_pos l) hl).1]
    rfl

/-- The new nodes below that level are those of the snapshot before. -/
theorem new_below (h : RekeyStep t₀ t K r done new out' i q s' job job')
    (hp : RekeyAt t₀ t r p job new)
    (hmax : (t₀.snaps i).maxLevel ≤ (t₀.snaps p).maxLevel) (hl : l < q)
    (hgen : (t₀.node i r l).gen = (t₀.node p r l).gen) :
    rekeyedNode job' (t₀.node i r) l = new p l := by
  have hq := h.minLvl_le
  rw [hp.path l (by omega)]
  unfold rekeyedNode
  rw [h.branch.newPbas l hl, h.lvlHash_below hl, hgen]

/-- Nodes with one address have one generation. -/
theorem gen_eq (hs : Sound t₀ K₀ es g) {i j : SnapshotsIndex} (hi : t₀.Tracked i)
    (hj : t₀.Tracked j) (hri : r < (t₀.snaps i).nrOfLeafs) (hrj : r < (t₀.snaps j).nrOfLeafs)
    (hli : l ≤ (t₀.snaps i).maxLevel) (hlj : l ≤ (t₀.snaps j).maxLevel)
    (hn : 0 < l ∨ ((t₀.node i r l).gen ≠ 0 ∧ (t₀.node j r l).gen ≠ 0))
    (heq : (t₀.node i r l).pba = (t₀.node j r l).pba) :
    (t₀.node i r l).gen = (t₀.node j r l).gen := by
  refine (hs.forest.injOn i r l j r l ⟨hi, hs.present hi hri hli, ?_⟩
    ⟨hj, hs.present hj hrj hlj, ?_⟩ heq).2.2
  · exact hn.imp id fun hg => Or.inl hg.1
  · exact hn.imp id fun hg => Or.inl hg.2

/-! ### Blocks

A branch writes the blocks that were drawn for it. Everything else is as at the
beginning of the step or as an earlier branch has left it. -/

/-- A block drawn before is none of those drawn now. -/
theorem ne_new (h : RekeyStep t₀ t K r done new out' i q s' job job')
    (hD : Drawn usable es es' (out ++ out')) {x : Draw} (hx : x ∈ out) (hq : q ≤ l)
    (hl : l ≤ (t₀.snaps i).maxLevel) : x.pba ≠ job'.newPbas l := by
  obtain ⟨y, hy, hpba, -⟩ := h.draws l hq hl
  rw [← hpba]
  have hnd := hD.nodup
  rw [List.map_append] at hnd
  exact (List.nodup_append.mp hnd).2.2 _ (List.mem_map_of_mem hx) _ (List.mem_map_of_mem hy)

/-- A block drawn before is as it was. -/
theorem blocks_out (h : RekeyStep t₀ t K r done new out' i q s' job job')
    (hD : Drawn usable es es' (out ++ out')) {x : Draw} (hx : x ∈ out) :
    s'.blocks x.pba = t.store.blocks x.pba :=
  h.branch.other _ fun _ hk hk' => h.ne_new hD hx hk hk'

/-- Only blocks that were drawn in the step have changed. -/
theorem blocks_frame (h : RekeyStep t₀ t K r done new out' i q s' job job')
    (hR : Rekeyed t₀ t K r done new out) {p : ℕ} (hp : ∀ x ∈ out ++ out', p ≠ x.pba) :
    s'.blocks p = t₀.store.blocks p := by
  rw [h.branch.other p fun k hk hk' => ?_, hR.frame p fun x hx => hp x (List.mem_append_left _ hx)]
  obtain ⟨y, hy, hpba, -⟩ := h.draws k hk hk'
  rw [← hpba]
  exact hp y (List.mem_append_right _ hy)

/-- The new blocks of the snapshots that are done are as they were written. -/
theorem blocks_done (h : RekeyStep t₀ t K r done new out' i q s' job job')
    (hR : Rekeyed t₀ t K r done new out) (hD : Drawn usable es es' (out ++ out'))
    {j : SnapshotsIndex} (hj : done j) (hl : l ≤ (t₀.snaps j).maxLevel)
    (hn : 0 < l ∨ (t₀.node j r l).gen ≠ 0 ∨ j = t₀.cur) :
    s'.blocks (new j l).pba = t.store.blocks (new j l).pba := by
  obtain ⟨x, hx, hpba, -⟩ := hR.drawn j l hj hl hn
  rw [← hpba]
  exact h.blocks_out hD hx

/-- What a tree owned at the beginning has its block as it was. -/
theorem blocks_owned (h : RekeyStep t₀ t K r done new out' i q s' job job')
    (hR : Rekeyed t₀ t K r done new out)
    (hu : ∀ e ∈ es, usable e → ∀ i v l, t₀.Owned i v l → (t₀.node i v l).pba ≠ e.pba)
    (hD : Drawn usable es es' (out ++ out')) {j : SnapshotsIndex} {v k : ℕ}
    (ho : t₀.Owned j v k) :
    s'.blocks (t₀.node j v k).pba = t₀.store.blocks (t₀.node j v k).pba :=
  h.blocks_frame hR fun _ hx => Rekeyed.ne_draw hu hD ho hx

/-- **The snapshots that are done keep their new paths.** -/
theorem path_done (h : RekeyStep t₀ t K r done new out' i q s' job job')
    (hR : Rekeyed t₀ t K r done new out)
    (hu : ∀ e ∈ es, usable e → ∀ i v l, t₀.Owned i v l → (t₀.node i v l).pba ≠ e.pba)
    (hD : Drawn usable es es' (out ++ out')) {j : SnapshotsIndex} (hj : done j) :
    Trees.PathReplaced t₀ (rekeyedTrees t s' i job') j j r 0 (new j) := by
  have hP := hR.path j hj
  have hsnap : (rekeyedTrees t s' i job').snaps j = t.snaps j :=
    Function.update_of_ne (fun hji => h.undone (by rw [← hji]; exact hj)) _ _
  exact { hP with
    maxLevel := by rw [hsnap]; exact hP.maxLevel
    root := by rw [hsnap]; exact hP.root
    inner := fun l hl hl' => by
      rw [← hP.inner l hl hl']
      show s'.type1NodeBlock _ = t.store.type1NodeBlock _
      unfold Store.type1NodeBlock
      rw [h.blocks_done hR hD hj hl' (Or.inl (Nat.succ_pos l))]
    copy := fun h0 => absurd h0 (lt_irrefl 0)
    other := fun w l h0 hp _ => by
      exact h.blocks_owned hR hu hD ⟨(hR.tracked j hj).1, hp, Or.inl h0⟩ }

/-- **The snapshot at hand gets a new path.** -/
theorem path_self (h : RekeyStep t₀ t K r done new out' i q s' job job')
    (hs : Sound t₀ K₀ es g) (hR : Rekeyed t₀ t K r done new out)
    (hu : ∀ e ∈ es, usable e → ∀ i v l, t₀.Owned i v l → (t₀.node i v l).pba ≠ e.pba)
    (hpos : ∀ e, usable e → e.pba ≠ 0) (hD : Drawn usable es es' (out ++ out')) :
    Trees.PathReplaced t₀ (rekeyedTrees t s' i job') i i r 0
      (rekeyedNode job' (t₀.node i r)) := by
  have hsnap : (rekeyedTrees t s' i job').snaps i = { t₀.snaps i with
      pba := job'.newPbas (t₀.snaps i).maxLevel
      hash := job'.lvlHash (t₀.snaps i).maxLevel } := by
    show Function.update t.snaps i _ i = _
    rw [Function.update_self, hR.undone i h.undone]
  have hq := h.minLvl_le
  have hblk : ∀ k, 0 < k → k ≤ (t₀.snaps i).maxLevel →
      t.store.type1NodeBlock (t₀.node i r k).pba = t₀.store.type1NodeBlock (t₀.node i r k).pba := by
    intro k h0 hk
    unfold Store.type1NodeBlock
    rw [hR.frame _ fun x hx => Rekeyed.ne_draw hu hD ⟨h.tracked, h.present hs hk, Or.inl h0⟩
      (List.mem_append_left _ hx)]
  have hci : ∀ k, job.childIdx k = childIdxForVba r k t₀.degree := by
    intro k
    unfold RekeyingJob.childIdx
    rw [h.vba, h.degree]
  exact {
    admitted := hs.admitted
    degree := hR.degree
    maxLevel := by rw [hsnap]
    root := by
      rw [hsnap]
      unfold rekeyedNode
      rw [Trees.node_maxLevel]
      rfl
    path := h.present hs (Nat.zero_le _)
    new_ne_zero := fun l _ hl => by
      show job'.newPbas l ≠ 0
      rcases Nat.lt_or_ge l q with hlt | hge
      · obtain ⟨p, hp, hat, hgen⟩ := h.prev (by omega)
        have hmax := (hs.growing i p h.tracked (hR.tracked p hp).1 hgen).1
        have hne := (hR.path p hp).new_ne_zero l (Nat.zero_le l) (hl.trans hmax)
        rw [hat.path l (hl.trans hmax)] at hne
        rw [h.branch.newPbas l hlt]
        exact hne
      · obtain ⟨x, hx, hpba, -⟩ := h.draws l hge hl
        obtain ⟨e, -, hue, he⟩ := hD.taken x (List.mem_append_right _ hx)
        rw [← hpba, ← he]
        exact hpos e hue
    inner := fun l _ hl => by
      show s'.type1NodeBlock (job'.newPbas (l + 1)) = _
      rcases Nat.lt_or_ge (l + 1) q with hlt | hge
      · -- the new node is the one of the snapshot before
        obtain ⟨p, hp, hat, hgen⟩ := h.prev (by omega)
        have hmax := (hs.growing i p h.tracked (hR.tracked p hp).1 hgen).1
        have hpath := (h.path_done hR hu hD hp).inner l (Nat.zero_le l) (hl.trans_le hmax)
        have hnew : (new p (l + 1)).pba = job'.newPbas (l + 1) := by
          rw [hat.path (l + 1) (by omega), h.branch.newPbas (l + 1) hlt]
          rfl
        rw [hnew, ← h.pba_below hs hat hmax (Nat.succ_pos l) hlt,
          ← h.new_below hat hmax (by omega) (by rw [h.node_below hs hat hmax hlt])] at hpath
        exact hpath
      · have hstored := h.branch.stored (l + 1) (Nat.succ_pos l) hge hl
        unfold Store.type1NodeBlock
        rw [hstored, P.type1_roundtrip, h.branch.block l hge hl, hci,
          hblk (l + 1) (Nat.succ_pos l) hl]
        rfl
    copy := fun h0 => absurd h0 (lt_irrefl 0)
    other := fun w l h0 hp _ => h.blocks_owned hR hu hD ⟨h.tracked, hp, Or.inl h0⟩ }

/-! ### The turn of a snapshot

The new paths after the turn: the one of the snapshot at hand is new, the others
stay. The level at which the branch stopped divides the new path: below it the
nodes are those of the snapshot before, from there up they are in blocks drawn
now. -/

/-- The new paths after the turn of a snapshot. -/
def newPaths (t₀ : Trees P) (r : ℕ) (new : SnapshotsIndex → ℕ → Type1Node) (i : SnapshotsIndex)
    (job' : RekeyingJob P) : SnapshotsIndex → ℕ → Type1Node :=
  Function.update new i (rekeyedNode job' (t₀.node i r))

/-- The new path of the snapshot at hand. -/
theorem newPaths_self : newPaths t₀ r new i job' i = rekeyedNode job' (t₀.node i r) :=
  Function.update_self _ _ _

/-- The others keep theirs. -/
theorem newPaths_of_ne {j : SnapshotsIndex} (hj : j ≠ i) : newPaths t₀ r new i job' j = new j :=
  Function.update_of_ne hj _ _

/-- A snapshot that is done is another one. -/
theorem ne_of_done (h : RekeyStep t₀ t K r done new out' i q s' job job') {j : SnapshotsIndex}
    (hj : done j) : j ≠ i := fun heq => h.undone (heq ▸ hj)

/-- The current snapshot shares nothing with one before. -/
theorem ne_cur (h : RekeyStep t₀ t K r done new out' i q s' job job') (hq : 0 < q) :
    i ≠ t₀.cur := by
  rcases h.first with ⟨-, hq0, -⟩ | ⟨hne, -⟩
  · exact absurd hq0 hq.ne'
  · exact hne

/-- **Below the level at which the branch stopped** the snapshot has the new nodes of the
one before, at a place that both need. -/
theorem newPaths_below (h : RekeyStep t₀ t K r done new out' i q s' job job')
    (hs : Sound t₀ K₀ es g) (hR : Rekeyed t₀ t K r done new out) (hl : l < q)
    (hn : 0 < l ∨ (t₀.node i r l).gen ≠ 0) :
    ∃ p, done p ∧ (t₀.snaps i).gen ≤ (t₀.snaps p).gen ∧ l ≤ (t₀.snaps p).maxLevel
      ∧ (0 < l ∨ (t₀.node p r l).gen ≠ 0) ∧ (t₀.node i r l).pba = (t₀.node p r l).pba
      ∧ (t₀.node i r l).gen = (t₀.node p r l).gen
      ∧ newPaths t₀ r new i job' i l = new p l := by
  have hq := h.minLvl_le
  obtain ⟨p, hp, hat, hgen⟩ := h.prev (by omega)
  obtain ⟨hmax, hnr, hwritten⟩ := hs.growing i p h.tracked (hR.tracked p hp).1 hgen
  have hnp : 0 < l ∨ (t₀.node p r l).gen ≠ 0 := by
    rcases Nat.eq_zero_or_pos l with rfl | hpos
    · exact Or.inr (hwritten r h.contains (hn.resolve_left (lt_irrefl 0)))
    · exact Or.inl hpos
  have hpba : (t₀.node i r l).pba = (t₀.node p r l).pba := by
    rcases Nat.eq_zero_or_pos l with rfl | hpos
    · exact h.leaf_below hs hat hmax hl (hnp.resolve_left (lt_irrefl 0))
    · exact h.pba_below hs hat hmax hpos hl
  have hboth : 0 < l ∨ ((t₀.node i r l).gen ≠ 0 ∧ (t₀.node p r l).gen ≠ 0) := by
    rcases Nat.eq_zero_or_pos l with rfl | hpos
    · exact Or.inr ⟨hn.resolve_left (lt_irrefl 0), hnp.resolve_left (lt_irrefl 0)⟩
    · exact Or.inl hpos
  have hgeneq := gen_eq hs h.tracked (hR.tracked p hp).1 h.contains (hR.tracked p hp).2
    (by omega) (by omega) hboth hpba
  refine ⟨p, hp, hgen, by omega, hnp, hpba, hgeneq, ?_⟩
  rw [newPaths_self]
  exact h.new_below hat hmax hl hgeneq

/-- From there up it has blocks that were drawn for it. -/
theorem newPaths_above (h : RekeyStep t₀ t K r done new out' i q s' job job') (hq : q ≤ l)
    (hl : l ≤ (t₀.snaps i).maxLevel) :
    ∃ x ∈ out', x.pba = (newPaths t₀ r new i job' i l).pba ∧ x.lvl = l
      ∧ x.entry.allocGen = (t₀.node i r l).gen ∧ (i = t₀.cur ∨ RekeyGuard t₀ K r i l x) := by
  obtain ⟨x, hx, hpba, hrest⟩ := h.draws l hq hl
  refine ⟨x, hx, ?_, hrest⟩
  rw [hpba, newPaths_self]
  rfl

/-- A block drawn now is none of a snapshot that is done. -/
theorem new_ne_of_draw
    (hR : Rekeyed t₀ t K r done new out) (hD : Drawn usable es es' (out ++ out'))
    {j : SnapshotsIndex} (hj : done j) (hl : l ≤ (t₀.snaps j).maxLevel)
    (hn : 0 < l ∨ (t₀.node j r l).gen ≠ 0 ∨ j = t₀.cur) {x : Draw} (hx : x ∈ out') :
    (new j l).pba ≠ x.pba := by
  obtain ⟨y, hy, hpba, -⟩ := hR.drawn j l hj hl hn
  rw [← hpba]
  have hnd := hD.nodup
  rw [List.map_append] at hnd
  exact (List.nodup_append.mp hnd).2.2 _ (List.mem_map_of_mem hy) _ (List.mem_map_of_mem hx)

/-- **The hashes of the new paths** are right. -/
theorem hash_newPaths (h : RekeyStep t₀ t K r done new out' i q s' job job')
    (hs : Sound t₀ K₀ es g) (hR : Rekeyed t₀ t K r done new out)
    (hD : Drawn usable es es' (out ++ out')) {j : SnapshotsIndex} (hj : done j ∨ j = i)
    (hl : l ≤ (t₀.snaps j).maxLevel) (hn : 0 < l ∨ (t₀.node j r l).gen ≠ 0) :
    P.hash (s'.blocks (newPaths t₀ r new i job' j l).pba)
      = (newPaths t₀ r new i job' j l).hash := by
  have hdone : ∀ j, done j → l ≤ (t₀.snaps j).maxLevel → 0 < l ∨ (t₀.node j r l).gen ≠ 0 →
      P.hash (s'.blocks (new j l).pba) = (new j l).hash := by
    intro j hj hl hn
    rw [h.blocks_done hR hD hj hl (hn.imp_right Or.inl)]
    exact hR.hash j l hj hl hn
  rcases hj with hj | rfl
  · rw [newPaths_of_ne (h.ne_of_done hj)]
    exact hdone j hj hl hn
  · rcases Nat.lt_or_ge l q with hlt | hge
    · obtain ⟨p, hp, -, hlp, hnp, -, -, heq⟩ := h.newPaths_below hs hR hlt hn
      rw [heq]
      exact hdone p hp hlp hnp
    · rw [newPaths_self]
      show P.hash (s'.blocks (job'.newPbas l)) = job'.lvlHash l
      rcases Nat.eq_zero_or_pos l with rfl | hpos
      · have hgen := hn.resolve_left (lt_irrefl 0)
        rw [(h.branch.leaf (Nat.le_zero.mp hge) hgen).2.2]
        rfl
      · obtain ⟨k, rfl⟩ := Nat.exists_eq_succ_of_ne_zero hpos.ne'
        rw [h.branch.stored (k + 1) hpos hge hl]
        rfl

/-- **The leaves of the new paths** have their data under the new key. -/
theorem data_newPaths (h : RekeyStep t₀ t K r done new out' i q s' job job')
    (hs : Sound t₀ K₀ es g) (hR : Rekeyed t₀ t K r done new out)
    (hu : ∀ e ∈ es, usable e → ∀ i v l, t₀.Owned i v l → (t₀.node i v l).pba ≠ e.pba)
    (hD : Drawn usable es es' (out ++ out')) {j : SnapshotsIndex} (hj : done j ∨ j = i)
    (hgen : (t₀.node j r 0).gen ≠ 0) :
    s'.blocks (newPaths t₀ r new i job' j 0).pba
      = P.encrypt K.currentKeyId (P.decrypt K.previousKeyId (t₀.blockOf (t₀.node j r 0))) := by
  have hdone : ∀ j, done j → (t₀.node j r 0).gen ≠ 0 → s'.blocks (new j 0).pba
      = P.encrypt K.currentKeyId (P.decrypt K.previousKeyId (t₀.blockOf (t₀.node j r 0))) := by
    intro j hj hgen
    rw [h.blocks_done hR hD hj (Nat.zero_le _) (Or.inr (Or.inl hgen))]
    exact hR.data j hj hgen
  rcases hj with hj | rfl
  · rw [newPaths_of_ne (h.ne_of_done hj)]
    exact hdone j hj hgen
  · rcases Nat.eq_zero_or_pos q with hq | hq
    · obtain ⟨-, hdata, hstored⟩ := h.branch.leaf hq hgen
      have ho : t₀.Owned j r 0 :=
        ⟨h.tracked, h.present hs (Nat.zero_le _), Or.inr (Or.inl hgen)⟩
      have hblk : t.store.blocks (t₀.node j r 0).pba = t₀.store.blocks (t₀.node j r 0).pba :=
        hR.frame _ fun x hx => Rekeyed.ne_draw hu hD ho (List.mem_append_left _ hx)
      rw [newPaths_self]
      show s'.blocks (job'.newPbas 0) = _
      rw [hstored, hdata, h.oldKey, h.newKey, hblk]
      rfl
    · obtain ⟨p, hp, -, -, hnp, hpba, -, heq⟩ := h.newPaths_below hs hR hq (Or.inr hgen)
      rw [heq, hdone p hp (hnp.resolve_left (lt_irrefl 0))]
      unfold Trees.blockOf
      rw [hpba]

/-- **The new paths share** what the old ones shared, and nothing else. -/
theorem shared_newPaths (h : RekeyStep t₀ t K r done new out' i q s' job job')
    (hs : Sound t₀ K₀ es g) (hR : Rekeyed t₀ t K r done new out)
    (hD : Drawn usable es es' (out ++ out')) {j : SnapshotsIndex} (hj : done j)
    (hli : l ≤ (t₀.snaps i).maxLevel) (hlj : l ≤ (t₀.snaps j).maxLevel)
    (hn : 0 < l ∨ ((t₀.node i r l).gen ≠ 0 ∧ (t₀.node j r l).gen ≠ 0)) :
    ((t₀.node i r l).pba = (t₀.node j r l).pba → newPaths t₀ r new i job' i l = new j l)
      ∧ ((newPaths t₀ r new i job' i l).pba = (new j l).pba →
        (t₀.node i r l).pba = (t₀.node j r l).pba) := by
  rcases Nat.lt_or_ge l q with hlt | hge
  · obtain ⟨p, hp, -, hlp, hnp, hpba, -, heq⟩ := h.newPaths_below hs hR hlt (hn.imp_right And.left)
    have hboth : 0 < l ∨ ((t₀.node p r l).gen ≠ 0 ∧ (t₀.node j r l).gen ≠ 0) := by
      rcases hn with hpos | ⟨-, hgen⟩
      · exact Or.inl hpos
      · exact hnp.imp_right fun hnp => ⟨hnp, hgen⟩
    rw [heq, hpba]
    exact ⟨hR.shared p j l hp hj hlp hlj hboth, hR.apart p j l hp hj hlp hlj hboth⟩
  · refine ⟨fun hpba => absurd hpba (h.apart j l hj hge hli hlj hn), fun hpba => ?_⟩
    obtain ⟨x, hx, hxpba, -⟩ := h.newPaths_above hge hli
    rw [← hxpba] at hpba
    refine absurd hpba.symm (new_ne_of_draw hR hD hj hlj ?_ hx)
    exact hn.imp_right fun hn => Or.inl hn.2

/-- The blocks of the new path were drawn, now or before. -/
theorem origin_newPaths (h : RekeyStep t₀ t K r done new out' i q s' job job')
    (hs : Sound t₀ K₀ es g) (hR : Rekeyed t₀ t K r done new out)
    (hl : l ≤ (t₀.snaps i).maxLevel) :
    ∃ x ∈ out ++ out', x.pba = (newPaths t₀ r new i job' i l).pba := by
  rw [newPaths_self]
  rcases Nat.lt_or_ge l q with hlt | hge
  · obtain ⟨p, hp, hat, hgen⟩ := h.prev (by omega)
    have hmax := (hs.growing i p h.tracked (hR.tracked p hp).1 hgen).1
    obtain ⟨x, hx, hpba⟩ := hR.origin p l hp (hl.trans hmax)
    refine ⟨x, List.mem_append_left _ hx, hpba.trans ?_⟩
    rw [hat.path l (hl.trans hmax)]
    exact (h.branch.newPbas l hlt).symm
  · obtain ⟨x, hx, hpba, -⟩ := h.draws l hge hl
    exact ⟨x, List.mem_append_right _ hx, hpba⟩

/-- **The blocks of the new paths** were drawn for them. -/
theorem drawn_newPaths (h : RekeyStep t₀ t K r done new out' i q s' job job')
    (hs : Sound t₀ K₀ es g) (hR : Rekeyed t₀ t K r done new out) {j : SnapshotsIndex}
    (hj : done j ∨ j = i) (hl : l ≤ (t₀.snaps j).maxLevel)
    (hn : 0 < l ∨ (t₀.node j r l).gen ≠ 0 ∨ j = t₀.cur) :
    ∃ x ∈ out ++ out', x.pba = (newPaths t₀ r new i job' j l).pba ∧ x.lvl = l
      ∧ x.entry.allocGen = (newPaths t₀ r new i job' j l).gen
      ∧ (((done t₀.cur ∨ t₀.cur = i) ∧ l ≤ (t₀.snaps t₀.cur).maxLevel
          ∧ (newPaths t₀ r new i job' t₀.cur l).pba = x.pba)
        ∨ RekeyGuard t₀ K r j l x) := by
  have hdone : ∀ j, done j → l ≤ (t₀.snaps j).maxLevel →
      0 < l ∨ (t₀.node j r l).gen ≠ 0 ∨ j = t₀.cur →
      ∃ x ∈ out ++ out', x.pba = (new j l).pba ∧ x.lvl = l ∧ x.entry.allocGen = (new j l).gen
        ∧ (((done t₀.cur ∨ t₀.cur = i) ∧ l ≤ (t₀.snaps t₀.cur).maxLevel
            ∧ (newPaths t₀ r new i job' t₀.cur l).pba = x.pba)
          ∨ RekeyGuard t₀ K r j l x) := by
    intro j hj hl hn
    obtain ⟨x, hx, hpba, hlvl, hgen, hrest⟩ := hR.drawn j l hj hl hn
    refine ⟨x, List.mem_append_left _ hx, hpba, hlvl, hgen, hrest.imp_left ?_⟩
    rintro ⟨hcur, hle, heq⟩
    refine ⟨Or.inl hcur, hle, ?_⟩
    rw [newPaths_of_ne (h.ne_of_done hcur)]
    exact heq
  rcases hj with hj | rfl
  · rw [newPaths_of_ne (h.ne_of_done hj)]
    exact hdone j hj hl hn
  · rcases Nat.lt_or_ge l q with hlt | hge
    · have hn' : 0 < l ∨ (t₀.node j r l).gen ≠ 0 :=
        hn.imp_right fun hn => hn.resolve_right (h.ne_cur (by omega))
      obtain ⟨p, hp, hgenle, hlp, hnp, -, -, heq⟩ := h.newPaths_below hs hR hlt hn'
      obtain ⟨x, hx, hpba, hlvl, hgen, hrest⟩ := hdone p hp hlp (hnp.imp_right Or.inl)
      rw [heq]
      refine ⟨x, hx, hpba, hlvl, hgen, hrest.imp_right fun hg => ?_⟩
      exact { hg with free := hgenle.trans_lt hg.free }
    · obtain ⟨x, hx, hpba, hlvl, hgen, hrest⟩ := h.newPaths_above hge hl
      refine ⟨x, List.mem_append_right _ hx, hpba, hlvl, ?_, hrest.imp_left ?_⟩
      · rw [newPaths_self]
        exact hgen
      · rintro rfl
        exact ⟨Or.inr rfl, hl, hpba.symm⟩

/-- **The entries that were put back.** -/
theorem entry_newPaths (h : RekeyStep t₀ t K r done new out' i q s' job job')
    (hR : Rekeyed t₀ t K r done new out) (hD : Drawn usable es es' (out ++ out')) {x : Draw}
    (hx : x ∈ out ++ out') :
    ((done t₀.cur ∨ t₀.cur = i) ∧ x.lvl ≤ (t₀.snaps t₀.cur).maxLevel
        ∧ x.pba = (newPaths t₀ r new i job' t₀.cur x.lvl).pba
        ∧ x.entry.pba = (t₀.node t₀.cur r x.lvl).pba)
      ∨ ((done t₀.cur ∨ t₀.cur = i) ∧ x.entry.pba = x.pba
        ∧ ∀ l, l ≤ (t₀.snaps t₀.cur).maxLevel →
          (newPaths t₀ r new i job' t₀.cur l).pba ≠ x.pba) := by
  rcases List.mem_append.mp hx with hx | hx
  · rcases hR.entry x hx with ⟨hcur, hlvl, hpba, hentry⟩ | ⟨hcur, hentry, hne⟩
    · refine Or.inl ⟨Or.inl hcur, hlvl, ?_, hentry⟩
      rw [newPaths_of_ne (h.ne_of_done hcur)]
      exact hpba
    · refine Or.inr ⟨Or.inl hcur, hentry, ?_⟩
      rw [newPaths_of_ne (h.ne_of_done hcur)]
      exact hne
  · have hentry := h.entry x hx
    rcases h.first with ⟨rfl, -, -⟩ | ⟨hne, hcur⟩
    · rw [if_pos rfl] at hentry
      obtain ⟨hlvl, hpba, hentry⟩ := hentry
      refine Or.inl ⟨Or.inr rfl, hlvl, ?_, hentry⟩
      rw [newPaths_self]
      exact hpba
    · rw [if_neg hne] at hentry
      refine Or.inr ⟨Or.inl hcur, hentry, fun l hl => ?_⟩
      rw [newPaths_of_ne (h.ne_of_done hcur)]
      exact new_ne_of_draw hR hD hcur hl (Or.inr (Or.inr rfl)) hx

/-- **The turn of a snapshot** takes it to those that are done. Every clause is
one of the lemmas above. -/
theorem rekeyed (h : RekeyStep t₀ t K r done new out' i q s' job job') (hs : Sound t₀ K₀ es g)
    (hR : Rekeyed t₀ t K r done new out)
    (hu : ∀ e ∈ es, usable e → ∀ i v l, t₀.Owned i v l → (t₀.node i v l).pba ≠ e.pba)
    (hpos : ∀ e, usable e → e.pba ≠ 0) (hD : Drawn usable es es' (out ++ out')) :
    Rekeyed t₀ (rekeyedTrees t s' i job') K r (fun j => done j ∨ j = i)
      (newPaths t₀ r new i job') (out ++ out') where
  degree := hR.degree
  cur := hR.cur
  tracked j hj := by
    rcases hj with hj | rfl
    · exact hR.tracked j hj
    · exact ⟨h.tracked, h.contains⟩
  relocated j hj := by
    show Function.update t.snaps i _ j = _
    rcases hj with hj | rfl
    · rw [Function.update_of_ne (h.ne_of_done hj), newPaths_of_ne (h.ne_of_done hj)]
      exact hR.relocated j hj
    · rw [Function.update_self, newPaths_self, hR.undone j h.undone]
      rfl
  undone j hj := by
    rw [not_or] at hj
    show Function.update t.snaps i _ j = _
    rw [Function.update_of_ne hj.2]
    exact hR.undone j hj.1
  frame p hp := h.blocks_frame hR hp
  path j hj := by
    rcases hj with hj | rfl
    · rw [newPaths_of_ne (h.ne_of_done hj)]
      exact h.path_done hR hu hD hj
    · rw [newPaths_self]
      exact h.path_self hs hR hu hpos hD
  gen j l hj hl := by
    rcases hj with hj | rfl
    · rw [newPaths_of_ne (h.ne_of_done hj)]
      exact hR.gen j l hj hl
    · rw [newPaths_self]
      rfl
  hash j l hj hl hn := h.hash_newPaths hs hR hD hj hl hn
  data j hj hgen := h.data_newPaths hs hR hu hD hj hgen
  shared j k l hj hk hlj hlk hn heq := by
    rcases hj with hj | rfl
    · rcases hk with hk | rfl
      · rw [newPaths_of_ne (h.ne_of_done hj), newPaths_of_ne (h.ne_of_done hk)]
        exact hR.shared j k l hj hk hlj hlk hn heq
      · rw [newPaths_of_ne (h.ne_of_done hj)]
        exact ((h.shared_newPaths hs hR hD hj hlk hlj (hn.imp_right And.symm)).1 heq.symm).symm
    · rcases hk with hk | rfl
      · rw [newPaths_of_ne (h.ne_of_done hk)]
        exact (h.shared_newPaths hs hR hD hk hlj hlk hn).1 heq
      · rfl
  apart j k l hj hk hlj hlk hn heq := by
    rcases hj with hj | rfl
    · rcases hk with hk | rfl
      · rw [newPaths_of_ne (h.ne_of_done hj), newPaths_of_ne (h.ne_of_done hk)] at heq
        exact hR.apart j k l hj hk hlj hlk hn heq
      · rw [newPaths_of_ne (h.ne_of_done hj)] at heq
        exact ((h.shared_newPaths hs hR hD hj hlk hlj (hn.imp_right And.symm)).2 heq.symm).symm
    · rcases hk with hk | rfl
      · rw [newPaths_of_ne (h.ne_of_done hk)] at heq
        exact (h.shared_newPaths hs hR hD hk hlj hlk hn).2 heq
      · rfl
  origin j l hj hl := by
    rcases hj with hj | rfl
    · rw [newPaths_of_ne (h.ne_of_done hj)]
      obtain ⟨x, hx, hpba⟩ := hR.origin j l hj hl
      exact ⟨x, List.mem_append_left _ hx, hpba⟩
    · exact h.origin_newPaths hs hR hl
  drawn j l hj hl hn := h.drawn_newPaths hs hR hj hl hn
  entry x hx := h.entry_newPaths hR hD hx

/-- **What the job knows** of the snapshot whose turn it was. -/
theorem rekeyAt (h : RekeyStep t₀ t K r done new out' i q s' job job') (hs : Sound t₀ K₀ es g)
    (hR : Rekeyed t₀ t K r done new out) (hD : Drawn usable es es' (out ++ out')) :
    RekeyAt t₀ (rekeyedTrees t s' i job') r i job' (newPaths t₀ r new i job') where
  path l _ := by rw [newPaths_self]
  oldPbas l h0 hl := by
    rcases Nat.lt_or_ge l q with hlt | hge
    · have hq := h.minLvl_le
      obtain ⟨p, hp, hat, hgen⟩ := h.prev (by omega)
      have hmax := (hs.growing i p h.tracked (hR.tracked p hp).1 hgen).1
      rw [(h.branch.kept l h0 hlt).2, hat.oldPbas l h0 (hl.trans hmax),
        h.pba_below hs hat hmax h0 hlt]
    · exact h.branch.oldPbas l h0 hge hl
  stored l h0 hl := by
    rcases Nat.lt_or_ge l q with hlt | hge
    · obtain ⟨p, hp, hat, hgen⟩ := h.prev (by omega)
      have hmax := (hs.growing i p h.tracked (hR.tracked p hp).1 hgen).1
      have hblk := h.blocks_done hR hD hp (hl.trans hmax) (Or.inl h0)
      rw [hat.path l (hl.trans hmax)] at hblk
      rw [(h.branch.kept l h0 hlt).1, ← hat.stored l h0 (hl.trans hmax), h.branch.newPbas l hlt]
      exact hblk
    · exact h.branch.stored l h0 hge hl
  leaf hgen := by
    rcases Nat.eq_zero_or_pos q with hq | hq
    · obtain ⟨hpba, -, hstored⟩ := h.branch.leaf hq hgen
      exact ⟨hpba, hstored⟩
    · obtain ⟨p, hp, hat, hge⟩ := h.prev hq
      obtain ⟨hmax, -, hwritten⟩ := hs.growing i p h.tracked (hR.tracked p hp).1 hge
      have hgenp := hwritten r h.contains hgen
      obtain ⟨hpba, hstored⟩ := hat.leaf hgenp
      obtain ⟨holdPba, hdata⟩ := h.branch.noLeaf (Or.inl hq)
      have hblk := h.blocks_done hR hD hp (Nat.zero_le _) (Or.inr (Or.inl hgenp))
      rw [hat.path 0 (Nat.zero_le _)] at hblk
      refine ⟨?_, ?_⟩
      · rw [holdPba, hpba, h.leaf_below hs hat hmax hq hgenp]
      · rw [hdata, ← hstored, h.branch.newPbas 0 hq]
        exact hblk

end RekeyStep

end Cbe
