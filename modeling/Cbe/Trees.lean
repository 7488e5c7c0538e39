import Cbe.TreeHelper
import Cbe.Snapshots

/-!
# The trees of the snapshots

The snapshots of the virtual block device are trees that share nodes in one
store of blocks. An operation changes them in one of two ways: it leaves a tree
alone, though it may give another slot or other blocks to the trees around it
(`Trees.LeftAlone`), or it gives a tree new nodes along a path and leaves the
old ones to the others (`Trees.PathReplaced`). Either way the places of the
tree stay and its nodes are known.

A tree *needs* the blocks of its inner nodes and of the leaves that were
written (`Trees.Needed`). It *owns* them, and the current tree owns its
unwritten leaves, too, because it writes them in place (`Trees.Owned`).
-/

namespace Cbe

variable {P : Platform}

/-- **The trees of a snapshot table** in the blocks of the device. -/
structure Trees (P : Platform) where
  /-- The blocks of the device. -/
  store : Store P
  /-- The degree of the trees. -/
  degree : ℕ
  /-- The snapshots. -/
  snaps : Snapshots
  /-- The slot of the current one. -/
  cur : SnapshotsIndex

/-- The trees of the snapshots of a superblock. -/
def Superblock.trees (sb : Superblock) (s : Store P) : Trees P where
  store := s
  degree := sb.degree
  snaps := sb.snapshots
  cur := sb.currSnap

namespace Trees

/-- The node of a snapshot's tree on the way to an address, at a level. -/
def node (t : Trees P) (i : SnapshotsIndex) (v l : ℕ) : Type1Node :=
  nodeAt t.store t.degree (t.snaps i) v l

/-- The content of the block of a node. -/
def blockOf (t : Trees P) (node : Type1Node) : P.Block := t.store.blocks node.pba

/-- The snapshots whose trees count. The one of generation 0 that the first
write leaves behind does not: its root is overwritten in place. -/
def Tracked (t : Trees P) (i : SnapshotsIndex) : Prop :=
  (t.snaps i).valid = true ∧ (i = t.cur ∨ (t.snaps i).gen ≠ 0)

/-- The tree has a node at a place: there is a child at every level down to
it. -/
def Present (t : Trees P) (i : SnapshotsIndex) (v l : ℕ) : Prop :=
  l ≤ (t.snaps i).maxLevel ∧ v < treeRadix t.degree ^ (t.snaps i).maxLevel
    ∧ ∀ j, l ≤ j → j ≤ (t.snaps i).maxLevel → (t.node i v j).pba ≠ 0

/-- **The tree needs the block at a place**: it is an inner node or a leaf that
was written. -/
def Needed (t : Trees P) (i : SnapshotsIndex) (v l : ℕ) : Prop :=
  t.Tracked i ∧ t.Present i v l ∧ (0 < l ∨ (t.node i v l).gen ≠ 0)

/-- **The tree owns the block at a place**: it needs it, or it may write it in
place. -/
def Owned (t : Trees P) (i : SnapshotsIndex) (v l : ℕ) : Prop :=
  t.Tracked i ∧ t.Present i v l ∧ (0 < l ∨ (t.node i v l).gen ≠ 0 ∨ i = t.cur)

variable {t : Trees P} {i j : SnapshotsIndex} {v w l k : ℕ}

@[simp] theorem node_maxLevel (t : Trees P) (i : SnapshotsIndex) (v : ℕ) :
    t.node i v (t.snaps i).maxLevel = (t.snaps i).root := nodeAt_maxLevel _ _ _ _

/-- A node does not depend on the address below it. -/
theorem node_congr (hl : l ≤ (t.snaps i).maxLevel) (h : sameNode t.degree l v w) :
    t.node i v l = t.node i w l := nodeAt_congr hl h

/-- A node is found in the block of the node above it. -/
theorem node_of_lt (hd : DegreeAdmitted t.degree) (hl : l < (t.snaps i).maxLevel) :
    t.node i v l = t.store.type1NodeBlock (t.node i v (l + 1)).pba
      (childIdxForVba v (l + 1) t.degree) := nodeAt_of_lt hd t.store v hl

/-- A place that is present has a block. -/
theorem Present.pba_ne_zero (h : t.Present i v l) : (t.node i v l).pba ≠ 0 :=
  h.2.2 l le_rfl h.1

/-- What is above a node is present, too. -/
theorem Present.mono (h : t.Present i v l) (hlk : l ≤ k) (hk : k ≤ (t.snaps i).maxLevel) :
    t.Present i v k :=
  ⟨hk, h.2.1, fun m hm => h.2.2 m (hlk.trans hm)⟩

/-- A node with an address below one that is present is present. -/
theorem Present.of_succ (h : t.Present i v (l + 1)) (hpba : (t.node i v l).pba ≠ 0) :
    t.Present i v l := by
  refine ⟨Nat.le_of_succ_le h.1, h.2.1, fun j hj hjm => ?_⟩
  rcases Nat.lt_or_eq_of_le hj with hlt | rfl
  · exact h.2.2 j hlt hjm
  · exact hpba

/-- The presence of a node does not depend on the address below it. -/
theorem Present.congr (h : t.Present i v l) (hvw : sameNode t.degree l v w) :
    t.Present i w l := by
  refine ⟨h.1, hvw.lt h.1 h.2.1, fun m hm hmt => ?_⟩
  rw [← node_congr hmt (hvw.mono hm)]
  exact h.2.2 m hm hmt

/-- All addresses under a node own it. -/
theorem Owned.congr (h : t.Owned i v l) (hvw : sameNode t.degree l v w) : t.Owned i w l :=
  ⟨h.1, h.2.1.congr hvw, by rw [← node_congr h.2.1.1 hvw]; exact h.2.2⟩

/-- What a tree needs it owns. -/
theorem Needed.owned (h : t.Needed i v l) : t.Owned i v l :=
  ⟨h.1, h.2.1, h.2.2.imp id Or.inl⟩

/-- A tree of another snapshot than the current one owns what it needs. -/
theorem Owned.needed (h : t.Owned i v l) (hi : i ≠ t.cur) : t.Needed i v l := by
  refine ⟨h.1, h.2.1, ?_⟩
  rcases h.2.2 with hl | hg | hc
  · exact Or.inl hl
  · exact Or.inr hg
  · exact absurd hc hi

/-- Whatever is present in the current tree is owned by it. -/
theorem Present.owned_cur (h : t.Present t.cur v l) (hv : (t.snaps t.cur).valid = true) :
    t.Owned t.cur v l := ⟨⟨hv, Or.inl rfl⟩, h, Or.inr (Or.inr rfl)⟩

/-- **Every needed block has the hash that its entry records.** -/
def Hashed (t : Trees P) : Prop :=
  ∀ i v l, t.Needed i v l → P.hash (t.blockOf (t.node i v l)) = (t.node i v l).hash

/-- **The snapshots are in the order of their generations**, the current one
last. -/
structure Ordered (t : Trees P) (currGen : ℕ) : Prop where
  /-- There is a current snapshot. -/
  valid : (t.snaps t.cur).valid = true
  /-- All others are older. -/
  gen_lt : ∀ i, i ≠ t.cur → (t.snaps i).valid = true → (t.snaps i).gen < (t.snaps t.cur).gen
  /-- It is not newer than what is written now. -/
  gen_le : (t.snaps t.cur).gen ≤ currGen
  /-- No two snapshots have one generation. -/
  gen_injOn : ∀ i j, (t.snaps i).valid = true → (t.snaps j).valid = true →
    (t.snaps i).gen = (t.snaps j).gen → i = j

/-- No valid snapshot is newer than the current one. -/
theorem Ordered.gen_le_cur {currGen : ℕ} (h : t.Ordered currGen)
    (hi : (t.snaps i).valid = true) : (t.snaps i).gen ≤ (t.snaps t.cur).gen := by
  by_cases hc : i = t.cur
  · rw [hc]
  · exact (h.gen_lt i hc hi).le

/-- **The trees have the leaves that their snapshots count**, at least one. -/
def Complete (t : Trees P) : Prop :=
  ∀ i, t.Tracked i → 0 < (t.snaps i).nrOfLeafs
    ∧ ∀ v, t.Present i v 0 ↔ v < (t.snaps i).nrOfLeafs

/-- **The snapshots grow**: a newer one is at least as high, has at least as
many leaves, and has written what an older one has written. -/
def Growing (t : Trees P) : Prop :=
  ∀ i j, t.Tracked i → t.Tracked j → (t.snaps i).gen ≤ (t.snaps j).gen →
    (t.snaps i).maxLevel ≤ (t.snaps j).maxLevel
      ∧ (t.snaps i).nrOfLeafs ≤ (t.snaps j).nrOfLeafs
      ∧ ∀ v, v < (t.snaps i).nrOfLeafs → (t.node i v 0).gen ≠ 0 → (t.node j v 0).gen ≠ 0

/-- **Blocks are shared without gaps**: what two snapshots have in common, those
between them have, too. -/
def Contiguous (t : Trees P) : Prop :=
  ∀ i j k v l, t.Needed i v l → t.Tracked j → t.Needed k v l →
    (t.snaps i).gen ≤ (t.snaps j).gen → (t.snaps j).gen ≤ (t.snaps k).gen →
    (t.node i v l).pba = (t.node k v l).pba →
    t.Needed j v l ∧ (t.node j v l).pba = (t.node i v l).pba

/-! ## Trees that are left alone

The slot of the snapshot may be another one, its root and its blocks are the
same. -/

section

variable {t t' : Trees P} {i i' : SnapshotsIndex} {v w l : ℕ}

/-- **A tree that is left alone**: the snapshot `i'` of `t'` has the root that
the snapshot `i` of `t` has, and the blocks of its inner nodes are as before. -/
structure LeftAlone (t t' : Trees P) (i i' : SnapshotsIndex) : Prop where
  /-- The degree is the same. -/
  degree : t'.degree = t.degree
  /-- So is the height. -/
  maxLevel : (t'.snaps i').maxLevel = (t.snaps i).maxLevel
  /-- So is the root. -/
  root : (t'.snaps i').root = (t.snaps i).root
  /-- The blocks of its inner nodes are as they were. -/
  inner : ∀ v l, 0 < l → t.Present i v l →
    t'.blockOf (t.node i v l) = t.blockOf (t.node i v l)

/-- A node is known as soon as the places above it are there. -/
theorem LeftAlone.node_of_present_above (h : LeftAlone t t' i i')
    (hl : l ≤ (t.snaps i).maxLevel)
    (habove : ∀ j, l < j → j ≤ (t.snaps i).maxLevel → t.Present i v j) :
    t'.node i' v l = t.node i v l := by
  have hmax := h.maxLevel
  unfold node
  rw [h.degree]
  have hsnap : nodeAt t'.store t.degree (t'.snaps i') v l
      = nodeAt t'.store t.degree (t.snaps i) v l := by
    unfold nodeAt
    rw [hmax, h.root]
  rw [hsnap]
  exact nodeAt_store_congr hl fun j hj hjm => h.inner v j (by omega) (habove j hj hjm)

/-- A place of the old tree is one of the new tree. -/
theorem LeftAlone.present_of_present (h : LeftAlone t t' i i') (hp : t.Present i v l) :
    t'.Present i' v l := by
  refine ⟨by rw [h.maxLevel]; exact hp.1, by rw [h.degree, h.maxLevel]; exact hp.2.1,
    fun j hlj hj => ?_⟩
  rw [h.maxLevel] at hj
  rw [h.node_of_present_above hj fun k hk hkm => hp.mono (hlj.trans hk.le) hkm]
  exact hp.2.2 j hlj hj

/-- A place of the new tree is one of the old tree. -/
theorem LeftAlone.present_of_present' (h : LeftAlone t t' i i') (hp : t'.Present i' v l) :
    t.Present i v l := by
  obtain ⟨hl, hw, hpba⟩ := hp
  rw [h.maxLevel] at hl hpba
  rw [h.degree, h.maxLevel] at hw
  induction hl using Nat.decreasingInduction with
  | self =>
    refine ⟨le_rfl, hw, fun j hj hjm => ?_⟩
    rw [← h.node_of_present_above hjm fun k hk hkm => absurd hk (by omega)]
    exact hpba j hj hjm
  | of_succ l hlt ih =>
    have hup := ih fun j hj => hpba j (by omega)
    refine hup.of_succ ?_
    rw [← h.node_of_present_above hlt.le fun k hk hkm => hup.mono hk hkm]
    exact hpba l le_rfl hlt.le

/-- It has the same places. -/
theorem LeftAlone.present_iff (h : LeftAlone t t' i i') :
    t'.Present i' v l ↔ t.Present i v l := ⟨h.present_of_present', h.present_of_present⟩

/-- And the same nodes. -/
theorem LeftAlone.node_eq (h : LeftAlone t t' i i') (hp : t.Present i v l) :
    t'.node i' v l = t.node i v l :=
  h.node_of_present_above hp.1 fun _ hk hkm => hp.mono hk.le hkm

end

/-! ## Copy-on-write along a path

The nodes on the path are new, the nodes off it hang in the new path as they did
in the old one. -/

section

variable {t t' : Trees P} {i i' : SnapshotsIndex} {v w lo l : ℕ} {new : ℕ → Type1Node}

/-- **A tree with a new path**: the snapshot `i'` of `t'` has the tree of the
snapshot `i` of `t` with the nodes on the way to `v` replaced, from the root
down to a level. Each new node is the old one with the child on the way
replaced by the next new entry, the lowest one a copy, and the blocks of the
other inner nodes are as before. -/
structure PathReplaced (t t' : Trees P) (i i' : SnapshotsIndex) (v lo : ℕ)
    (new : ℕ → Type1Node) : Prop where
  /-- The degree is one of the type. -/
  admitted : DegreeAdmitted t.degree
  /-- It is the same as before. -/
  degree : t'.degree = t.degree
  /-- So is the height. -/
  maxLevel : (t'.snaps i').maxLevel = (t.snaps i).maxLevel
  /-- The uppermost new node is the root. -/
  root : new (t.snaps i).maxLevel = (t'.snaps i').root
  /-- The old way went down to the lowest new level at least. -/
  path : t.Present i v lo
  /-- Every new node has a block. -/
  new_ne_zero : ∀ l, lo ≤ l → l ≤ (t.snaps i).maxLevel → (new l).pba ≠ 0
  /-- A new node is the old one with the next new node in the place of the child.
  -/
  inner : ∀ l, lo ≤ l → l < (t.snaps i).maxLevel →
    t'.store.type1NodeBlock (new (l + 1)).pba
      = Function.update (t.store.type1NodeBlock (t.node i v (l + 1)).pba)
          (childIdxForVba v (l + 1) t.degree) (new l)
  /-- The lowest new node is a copy, if it is not the leaf. -/
  copy : 0 < lo →
    t'.store.type1NodeBlock (new lo).pba = t.store.type1NodeBlock (t.node i v lo).pba
  /-- The blocks of the nodes off the path are as they were. -/
  other : ∀ w l, 0 < l → t.Present i w l → ¬ (lo ≤ l ∧ sameNode t.degree l w v) →
    t'.blockOf (t.node i w l) = t.blockOf (t.node i w l)

/-- Where the old tree is present above, the new one has its nodes off the path
and the new ones on it. -/
theorem PathReplaced.node_of_present_above (h : PathReplaced t t' i i' v lo new)
    (hl : l ≤ (t.snaps i).maxLevel) (hw : w < treeRadix t.degree ^ (t.snaps i).maxLevel)
    (habove : ∀ j, l < j → j ≤ (t.snaps i).maxLevel → t.Present i w j) :
    t'.node i' w l = if lo ≤ l ∧ sameNode t.degree l w v then new l else t.node i w l := by
  unfold node
  rw [h.degree]
  exact nodeAt_of_path h.admitted h.maxLevel h.root h.path.2.1 hw h.path.1 h.inner h.copy
    (fun j hlj hj hne => h.other w j (by omega) (habove j hlj hj) hne) hl

/-- A new path leaves the places of the tree as they are. -/
theorem PathReplaced.present_of_present (h : PathReplaced t t' i i' v lo new)
    (hp : t.Present i w l) : t'.Present i' w l := by
  refine ⟨by rw [h.maxLevel]; exact hp.1, by rw [h.degree, h.maxLevel]; exact hp.2.1,
    fun j hlj hj => ?_⟩
  rw [h.maxLevel] at hj
  rw [h.node_of_present_above hj hp.2.1 fun k hk hkm => hp.mono (hlj.trans hk.le) hkm]
  split_ifs with hon
  · exact h.new_ne_zero j hon.1 hj
  · exact hp.2.2 j hlj hj

/-- It adds none. -/
theorem PathReplaced.present_of_present' (h : PathReplaced t t' i i' v lo new)
    (hp : t'.Present i' w l) : t.Present i w l := by
  obtain ⟨hl, hw, hpba⟩ := hp
  rw [h.maxLevel] at hl hpba
  rw [h.degree, h.maxLevel] at hw
  induction hl using Nat.decreasingInduction with
  | self =>
    refine ⟨le_rfl, hw, fun j hj hjm => ?_⟩
    obtain rfl := le_antisymm hjm hj
    rw [node_maxLevel, ← node_maxLevel t i v]
    exact h.path.2.2 _ h.path.1 le_rfl
  | of_succ l hlt ih =>
    have hup := ih fun j hj => hpba j (by omega)
    have hnode := h.node_of_present_above hlt.le hw fun k hk hkm => hup.mono hk hkm
    refine hup.of_succ ?_
    by_cases hon : lo ≤ l ∧ sameNode t.degree l w v
    · rw [node_congr hlt.le hon.2]
      exact h.path.2.2 l hon.1 hlt.le
    · rw [if_neg hon] at hnode
      rw [← hnode]
      exact hpba l le_rfl hlt.le

/-- The places are the same. -/
theorem PathReplaced.present_iff (h : PathReplaced t t' i i' v lo new) :
    t'.Present i' w l ↔ t.Present i w l := ⟨h.present_of_present', h.present_of_present⟩

/-- **The nodes of a tree with a new path.** -/
theorem PathReplaced.node_eq (h : PathReplaced t t' i i' v lo new) (hp : t.Present i w l) :
    t'.node i' w l = if lo ≤ l ∧ sameNode t.degree l w v then new l else t.node i w l :=
  h.node_of_present_above hp.1 hp.2.1 fun _ hk hkm => hp.mono hk.le hkm

end

end Trees

end Cbe
