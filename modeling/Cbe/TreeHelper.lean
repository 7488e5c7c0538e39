import Cbe.Types
import Cbe.Support.RadixTree

/-!
# Trees on the block device

The geometry that all tree modules share – which child of a node a virtual
block address selects – and the tree under a snapshot, read off the blocks of
the device.

The source computes the child index by a shift and a mask in two places
(`Tree_Helper.Index` and `Child_Idx_For_VBA`), always with the logarithm of
the degree rounded down. So the radix of a tree is the greatest power of two
up to its degree (`treeRadix`), and a child index is a digit
(`childIdxForVba_val`). With that, the tree under a snapshot is a radix tree
in the store of blocks (`nodeAt`).
-/

namespace Cbe

/-- `Tree_Degree_Type`. -/
def DegreeAdmitted (degree : ℕ) : Prop := 1 ≤ degree ∧ degree ≤ nodesPerBlock

instance (degree : ℕ) : Decidable (DegreeAdmitted degree) := inferInstanceAs (Decidable (_ ∧ _))

/-- How many children a tree of a degree addresses in a node. -/
def treeRadix (degree : ℕ) : ℕ := 2 ^ Nat.log2 degree

/-- **`Child_Idx_For_VBA`** and `Tree_Helper.Index`: shift the address down to
the level and mask out the index. -/
def childIdxForVba (vba lvl degree : ℕ) : Fin nodesPerBlock :=
  Fin.ofNat nodesPerBlock
    ((vba >>> (Nat.log2 degree * (lvl - 1))) &&& ((1 <<< Nat.log2 degree) - 1))

/-- `Tree_Max_Max_VBA`, plus one: the virtual blocks a tree has room for. -/
def treeCapacity (degree maxLvl : ℕ) : ℕ := degree ^ maxLvl

/-- There is a digit. -/
theorem treeRadix_pos (degree : ℕ) : 0 < treeRadix degree := Nat.two_pow_pos _

/-- A node block has room for all children a tree addresses. -/
theorem treeRadix_le {degree : ℕ} (h : DegreeAdmitted degree) :
    treeRadix degree ≤ nodesPerBlock := by
  have hlog : 2 ^ Nat.log2 degree ≤ degree :=
    Nat.log2_self_le (Nat.one_le_iff_ne_zero.mp h.1)
  exact hlog.trans h.2

/-- **A child index is a digit of the address.** -/
theorem childIdxForVba_val {degree : ℕ} (h : DegreeAdmitted degree) (vba lvl : ℕ) :
    (childIdxForVba vba (lvl + 1) degree).val
      = vba / treeRadix degree ^ lvl % treeRadix degree := by
  have hmask : (vba >>> (Nat.log2 degree * (lvl + 1 - 1)))
      &&& ((1 <<< Nat.log2 degree) - 1)
      = vba / treeRadix degree ^ lvl % treeRadix degree := by
    rw [Nat.shiftLeft_eq, one_mul, Nat.and_two_pow_sub_one_eq_mod,
      Nat.shiftRight_eq_div_pow, Nat.add_sub_cancel, Nat.pow_mul]
    rfl
  unfold childIdxForVba
  rw [hmask]
  show _ % nodesPerBlock = _
  exact Nat.mod_eq_of_lt
    (lt_of_lt_of_le (Nat.mod_lt _ (treeRadix_pos degree)) (treeRadix_le h))

/-- Two addresses select the same child exactly when their digits agree. -/
theorem childIdxForVba_eq_iff {degree : ℕ} (h : DegreeAdmitted degree) {v w lvl : ℕ} :
    childIdxForVba v (lvl + 1) degree = childIdxForVba w (lvl + 1) degree
      ↔ v / treeRadix degree ^ lvl % treeRadix degree
        = w / treeRadix degree ^ lvl % treeRadix degree := by
  rw [Fin.ext_iff, childIdxForVba_val h, childIdxForVba_val h]

/-! ## The blocks

A store of blocks, with what was written to it in order. -/

/-- **The blocks of the device**, as seen through the cache, together with the
addresses written so far. -/
structure Store (P : Platform) where
  blocks : ℕ → P.Block
  written : List ℕ

variable {P : Platform}

/-- Write one block. -/
def Store.write (s : Store P) (pba : ℕ) (blk : P.Block) : Store P where
  blocks := Function.update s.blocks pba blk
  written := s.written ++ [pba]

@[simp] theorem Store.write_blocks_self (s : Store P) (pba : ℕ) (blk : P.Block) :
    (s.write pba blk).blocks pba = blk := Function.update_self _ _ _

theorem Store.write_blocks_of_ne (s : Store P) {pba q : ℕ} (blk : P.Block) (h : q ≠ pba) :
    (s.write pba blk).blocks q = s.blocks q := Function.update_of_ne h _ _

@[simp] theorem Store.write_written (s : Store P) (pba : ℕ) (blk : P.Block) :
    (s.write pba blk).written = s.written ++ [pba] := rfl

/-- A table indexed by the levels of a tree: `Type_1_Node_Walk_Type`. -/
abbrev Type1NodeWalk := ℕ → Type1Node

/-- `New_PBAs_Type`. -/
abbrev NewPbas := ℕ → ℕ

/-- The type-1 node block in a block of the device. -/
def Store.type1NodeBlock (s : Store P) (pba : ℕ) : Type1NodeBlock :=
  P.type1NodeBlockFromBlockData (s.blocks pba)

theorem Store.type1NodeBlock_write_self (s : Store P) (pba : ℕ) (nodes : Type1NodeBlock) :
    (s.write pba (P.blockDataFromType1NodeBlock nodes)).type1NodeBlock pba = nodes := by
  unfold Store.type1NodeBlock
  rw [Store.write_blocks_self, P.type1_roundtrip]

theorem Store.type1NodeBlock_write_of_ne (s : Store P) {pba q : ℕ} (blk : P.Block)
    (h : q ≠ pba) : (s.write pba blk).type1NodeBlock q = s.type1NodeBlock q := by
  unfold Store.type1NodeBlock
  rw [Store.write_blocks_of_ne s blk h]

/-! ## The tree under a snapshot

The node of a level on the way to a virtual block address. -/

/-- The entry of a snapshot's root node. -/
def Snapshot.root (snap : Snapshot) : Type1Node :=
  { pba := snap.pba, gen := snap.gen, hash := snap.hash }

/-- The child entries of the node in a block. -/
def Store.child (s : Store P) (pba i : ℕ) : Type1Node :=
  s.type1NodeBlock pba (Fin.ofNat nodesPerBlock i)

/-- **The node of a snapshot's tree** at a level, on the way to an address. -/
def nodeAt (s : Store P) (degree : ℕ) (snap : Snapshot) (vba lvl : ℕ) : Type1Node :=
  RadixTree.entryAt s.child Type1Node.pba (treeRadix degree) snap.root snap.maxLevel vba lvl

@[simp] theorem nodeAt_maxLevel (s : Store P) (degree : ℕ) (snap : Snapshot) (vba : ℕ) :
    nodeAt s degree snap vba snap.maxLevel = snap.root := RadixTree.entryAt_top

/-- The digit of an address as a child index. -/
theorem childIdxForVba_eq_ofNat {degree : ℕ} (h : DegreeAdmitted degree) (vba lvl : ℕ) :
    childIdxForVba vba (lvl + 1) degree
      = Fin.ofNat nodesPerBlock (vba / treeRadix degree ^ lvl % treeRadix degree) := by
  rw [Fin.ext_iff, childIdxForVba_val h]
  show _ = _ % nodesPerBlock
  exact (Nat.mod_eq_of_lt
    (lt_of_lt_of_le (Nat.mod_lt _ (treeRadix_pos degree)) (treeRadix_le h))).symm

/-- **A node is found in the block of the node above it**, under the child
index of the address. -/
theorem nodeAt_of_lt {degree : ℕ} (h : DegreeAdmitted degree) (s : Store P)
    {snap : Snapshot} (vba : ℕ) {lvl : ℕ} (hl : lvl < snap.maxLevel) :
    nodeAt s degree snap vba lvl
      = s.type1NodeBlock (nodeAt s degree snap vba (lvl + 1)).pba
          (childIdxForVba vba (lvl + 1) degree) := by
  rw [childIdxForVba_eq_ofNat h]
  exact RadixTree.entryAt_of_lt hl

/-- The addresses below one node at a level. -/
def sameNode (degree lvl v w : ℕ) : Prop :=
  v / treeRadix degree ^ lvl = w / treeRadix degree ^ lvl

instance (degree lvl v w : ℕ) : Decidable (sameNode degree lvl v w) :=
  inferInstanceAs (Decidable (_ = _))

theorem sameNode.refl {degree lvl v : ℕ} : sameNode degree lvl v v := rfl

theorem sameNode.symm {degree lvl v w : ℕ} (h : sameNode degree lvl v w) :
    sameNode degree lvl w v := Eq.symm h

theorem sameNode.trans {degree lvl u v w : ℕ} (h : sameNode degree lvl u v)
    (h' : sameNode degree lvl v w) : sameNode degree lvl u w := Eq.trans h h'

/-- Addresses below one node are below one node at every level above. -/
theorem sameNode.mono {degree l l' v w : ℕ} (hl : l ≤ l') (h : sameNode degree l v w) :
    sameNode degree l' v w := RadixTree.div_pow_congr hl h

/-- A leaf belongs to one address. -/
@[simp] theorem sameNode_zero {degree v w : ℕ} : sameNode degree 0 v w ↔ v = w := by
  unfold sameNode
  simp

/-- Addresses a tree has room for are below its root. -/
theorem sameNode_of_lt {degree lvl v w : ℕ} (hv : v < treeRadix degree ^ lvl)
    (hw : w < treeRadix degree ^ lvl) : sameNode degree lvl v w := by
  unfold sameNode
  rw [Nat.div_eq_of_lt hv, Nat.div_eq_of_lt hw]

/-- Addresses below one node have room in a tree together. -/
theorem sameNode.lt {degree l m v w : ℕ} (h : sameNode degree l v w) (hl : l ≤ m)
    (hv : v < treeRadix degree ^ m) : w < treeRadix degree ^ m := by
  have hm : v / treeRadix degree ^ m = w / treeRadix degree ^ m := h.mono hl
  rw [Nat.div_eq_of_lt hv] at hm
  exact (Nat.div_eq_zero_iff_lt (Nat.pow_pos (treeRadix_pos degree))).mp hm.symm

/-- **A node depends only on the addresses below it.** -/
theorem nodeAt_congr {s : Store P} {degree : ℕ} {snap : Snapshot} {v w lvl : ℕ}
    (hl : lvl ≤ snap.maxLevel) (h : sameNode degree lvl v w) :
    nodeAt s degree snap v lvl = nodeAt s degree snap w lvl := RadixTree.entryAt_congr hl h

/-- A store that agrees on the inner nodes of the way gives the same nodes. -/
theorem nodeAt_store_congr {s s' : Store P} {degree : ℕ} {snap : Snapshot} {v lvl : ℕ}
    (hl : lvl ≤ snap.maxLevel)
    (h : ∀ j, lvl < j → j ≤ snap.maxLevel →
      s'.blocks (nodeAt s degree snap v j).pba = s.blocks (nodeAt s degree snap v j).pba) :
    nodeAt s' degree snap v lvl = nodeAt s degree snap v lvl := by
  refine RadixTree.entryAt_store_congr (fun j hj hjt => ?_) hl
  funext i
  show s'.type1NodeBlock _ _ = s.type1NodeBlock _ _
  unfold Store.type1NodeBlock
  have hblk := h j hj hjt
  unfold nodeAt at hblk
  rw [hblk]

/-- **Copy-on-write along one path of a tree**, met on the way to one address.
The snapshot `snap'` has the new root; down to the level `lo`, the block of
every new node is the old one with the child on the path replaced, and the
lowest one is a copy; the other blocks that the way to the address `w` meets are
as before. -/
theorem nodeAt_of_path {s s' : Store P} {degree : ℕ} (hd : DegreeAdmitted degree)
    {snap snap' : Snapshot} {v w lo lvl : ℕ} {new : ℕ → Type1Node}
    (hmax : snap'.maxLevel = snap.maxLevel) (hroot : new snap.maxLevel = snap'.root)
    (hv : v < treeRadix degree ^ snap.maxLevel) (hw : w < treeRadix degree ^ snap.maxLevel)
    (hlo : lo ≤ snap.maxLevel)
    (hnode : ∀ j, lo ≤ j → j < snap.maxLevel →
      s'.type1NodeBlock (new (j + 1)).pba
        = Function.update (s.type1NodeBlock (nodeAt s degree snap v (j + 1)).pba)
            (childIdxForVba v (j + 1) degree) (new j))
    (hcopy : 0 < lo →
      s'.type1NodeBlock (new lo).pba = s.type1NodeBlock (nodeAt s degree snap v lo).pba)
    (hoff : ∀ j, lvl < j → j ≤ snap.maxLevel → ¬ (lo ≤ j ∧ sameNode degree j w v) →
      s'.blocks (nodeAt s degree snap w j).pba = s.blocks (nodeAt s degree snap w j).pba)
    (hl : lvl ≤ snap.maxLevel) :
    nodeAt s' degree snap' w lvl
      = if lo ≤ lvl ∧ sameNode degree lvl w v then new lvl else nodeAt s degree snap w lvl := by
  unfold nodeAt sameNode
  rw [hmax]
  refine RadixTree.entryAt_of_path hroot (sameNode_of_lt hw hv) hlo (fun j hj hjt => ?_)
    (fun j hj => ?_) (fun j hj hjt hne => ?_) hl
  · have hblk := hnode j hj hjt
    unfold nodeAt at hblk
    show s'.type1NodeBlock _ _ = _
    rw [hblk, ← childIdxForVba_eq_ofNat hd]
    by_cases hdigit : w / treeRadix degree ^ j % treeRadix degree
        = v / treeRadix degree ^ j % treeRadix degree
    · rw [if_pos hdigit, (childIdxForVba_eq_iff hd).mpr hdigit, Function.update_self]
    · rw [if_neg hdigit,
        Function.update_of_ne fun h => hdigit ((childIdxForVba_eq_iff hd).mp h),
        childIdxForVba_eq_ofNat hd]
      rfl
  · have hblk := hcopy (by omega)
    unfold nodeAt at hblk
    show s'.type1NodeBlock _ _ = s.type1NodeBlock _ _
    rw [hblk]
  · funext i
    have hblk := hoff j hj hjt hne
    unfold nodeAt at hblk
    show s'.type1NodeBlock _ _ = s.type1NodeBlock _ _
    unfold Store.type1NodeBlock
    rw [hblk]

end Cbe
