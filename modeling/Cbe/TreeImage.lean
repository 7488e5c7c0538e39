import Cbe.NodeCodec
import Cbe.Support.LevelScan

/-!
# Trees on the block device

The three trees of a device consist of node blocks on the block device. A tree
is given by its root, its maximum level and the largest index of a child; what
the virtual block device tree differs in from the other two is the type of its
lowest node blocks (`NodeKind`).

`leafs` lists the entries for the leaves of a tree in their order,
`EveryInner` says of all node blocks of a tree how they relate to the entries
that point to them, and `SoundTree` is what a tree on the block device has to
look like: the entries in use come first and are valid, the others are invalid,
and each node block hashes to the entry in its parent.
-/

namespace Cbe

open LevelScan

/-- The content of the block device. -/
abbrev Disk := ℕ → BlockData

/-- `Tree_Min_Max_Level`. -/
abbrev treeMinMaxLevel : ℕ := 1

/-- **A type of node blocks**: the entry that is not in use, when an entry is
valid, and the two directions of the codec. -/
structure NodeKind (α : Type) where
  /-- The entry that is not in use. -/
  invalid : α
  /-- When an entry is valid. -/
  Valid : α → Prop
  /-- The least maximum level of a tree whose lowest nodes are of this type. -/
  minMaxLevel : ℕ
  /-- The entries of a block. -/
  fromBlockData : BlockData → Option (Fin nodesPerBlock → α)
  /-- The block of some entries. -/
  blockData : (Fin nodesPerBlock → α) → Option BlockBuffer

/-- Node blocks of the first type. -/
def NodeKind.type1 : NodeKind Type1Node where
  invalid := type1NodeInvalid
  Valid := Type1Node.Valid
  minMaxLevel := treeMinMaxLevel
  fromBlockData := type1NodeBlockFromBlockData
  blockData := blockDataFromType1NodeBlock

/-- Node blocks of the second type. -/
def NodeKind.type2 : NodeKind Type2Node where
  invalid := type2NodeInvalid
  Valid := Type2Node.Valid
  minMaxLevel := freeTreeMinMaxLevel
  fromBlockData := type2NodeBlockFromBlockData
  blockData := blockDataFromType2NodeBlock

variable {α Leaf : Type}

/-- `Hash_Of_Type_1_Node_Block` and `Hash_Of_Type_2_Node_Block`: the hash of the
block that the entries are encoded as. -/
def NodeKind.hashOf (kind : NodeKind α) (sha : BlockData → Hash)
    (nodes : Fin nodesPerBlock → α) : Option Hash :=
  (kind.blockData nodes).map fun buf => sha buf.data

/-! ## The entries of a tree -/

/-- The number of leaves below a node of a level. -/
def leafCapacity (m lvl : ℕ) : ℕ := (childIdxs nodesPerBlock m).length ^ (lvl + 1)

/-- The entries for the leaves below a node, given those below a child. Below a
node that is not in use there are none. -/
def leafsBelow (kind : NodeKind α) (disk : Disk) (m : ℕ)
    (childLeafs : α → Option (List (Option Leaf))) (capacity : ℕ) (node : Type1Node) :
    Option (List (Option Leaf)) :=
  if node.Valid then
    (kind.fromBlockData (disk node.pba)).bind fun nodes =>
      ((childIdxs nodesPerBlock m).mapM fun i => childLeafs (nodes i)).map List.flatten
  else some (List.replicate capacity none)

/-- **The entries for the leaves below a node**, in their order. The lowest
nodes have level 0. -/
def leafs (kind : NodeKind Leaf) (disk : Disk) (m : ℕ) :
    ℕ → Type1Node → Option (List (Option Leaf))
  | 0 => leafsBelow kind disk m (fun leaf => some [some leaf]) (leafCapacity m 0)
  | lvl + 1 => leafsBelow NodeKind.type1 disk m (leafs kind disk m lvl) (leafCapacity m (lvl + 1))

/-- A property of a node block and its entry in the parent, of the block below
a node and of what is below its children. -/
def EveryInnerBelow (kind : NodeKind α) (sha : BlockData → Hash) (disk : Disk) (m : ℕ)
    (C : BlockData → Option Hash → Type1Node → Prop) (childOk : α → Prop) (node : Type1Node) :
    Prop :=
  node.Valid → ∀ nodes, kind.fromBlockData (disk node.pba) = some nodes →
    C (disk node.pba) (kind.hashOf sha nodes) node
      ∧ ∀ i ∈ childIdxs nodesPerBlock m, childOk (nodes i)

/-- **A property of all node blocks below a node**: of the block, of the hash of
what it decodes to, and of the entry that points to it. -/
def EveryInner (kind : NodeKind Leaf) (sha : BlockData → Hash) (disk : Disk) (m : ℕ)
    (C : BlockData → Option Hash → Type1Node → Prop) : ℕ → Type1Node → Prop
  | 0 => EveryInnerBelow kind sha disk m C fun _ => True
  | lvl + 1 => EveryInnerBelow NodeKind.type1 sha disk m C (EveryInner kind sha disk m C lvl)

/-- Where a tree is found: its root, its maximum level, the largest index of a
child and the number of leaves. -/
structure TreeRef where
  /-- The root entry. -/
  root : Type1Node
  /-- The level of the root. -/
  maxLvlIdx : ℕ
  /-- The largest index of a child. -/
  maxChildIdx : ℕ
  /-- How many leaves there are. -/
  nrOfLeafs : ℕ

/-- **A tree as it has to be**: the number of leaves that is recorded, in the
first places and valid, nothing but invalid entries in the others, and every
node block hashes to its entry in the parent. `dataOk` is what is asked for of
the data of a leaf. -/
structure SoundTree (kind : NodeKind Leaf) (sha : BlockData → Hash) (disk : Disk)
    (dataOk : Leaf → Prop) (ref : TreeRef) : Prop where
  /-- The tree has the levels that it needs. -/
  level : kind.minMaxLevel ≤ ref.maxLvlIdx
  /-- The leaves are in the first places, and nothing is in the others. -/
  entries : ∃ es, leafs kind disk ref.maxChildIdx (ref.maxLvlIdx - 1) ref.root = some es
    ∧ (∀ i < ref.nrOfLeafs, ∃ leaf, es[i]? = some (some leaf) ∧ kind.Valid leaf ∧ dataOk leaf)
    ∧ ∀ i ≥ ref.nrOfLeafs, ∀ leaf, es[i]? = some (some leaf) → leaf = kind.invalid
  /-- Every node block hashes to its entry. -/
  hashed : EveryInner kind sha disk ref.maxChildIdx
    (fun block _ node => sha block = node.hash) (ref.maxLvlIdx - 1) ref.root

/-- The data block of a leaf of the virtual block device, unless it was never
written. -/
def VbdDataOk (sha : BlockData → Hash) (disk : Disk) (leaf : Type1Node) : Prop :=
  leaf.gen ≠ 0 → sha (disk leaf.pba) = leaf.hash

instance (sha : BlockData → Hash) (disk : Disk) : DecidablePred (VbdDataOk sha disk) :=
  fun leaf => inferInstanceAs (Decidable (leaf.gen ≠ 0 → sha (disk leaf.pba) = leaf.hash))

end Cbe
