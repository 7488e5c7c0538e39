import Mathlib.Algebra.GroupWithZero.Nat
import Mathlib.Data.Fintype.Basic
import Mathlib.Data.Fintype.Pi
import Mathlib.Logic.Function.Basic

/-!
# The data types of the block encrypter

The records that live in the superblock and in the node blocks of the three
trees, under the source's own words. Addresses, generations and numbers are
natural numbers; where the source computes modulo `2^64` the operation says
so (`nextGeneration`). A table is a function on its index type, so that an
update of one slot is `Function.update`.

What the device is given from outside – the hash, the codecs of the blocks,
the crypto module and the trust anchor – is a `Platform`. It carries the laws
the device relies on as fields: decoding a node block undoes encoding it, and
decryption undoes encryption under the same key.
-/

namespace Cbe

/-- The 32 bytes of a hash. -/
abbrev Hash := BitVec 256

/-- The 32 bytes of a key value, in plain or encrypted form. -/
abbrev KeyValue := BitVec 256

/-- `Superblock_Nr_Of_Snapshots`. -/
abbrev superblockNrOfSnapshots : ℕ := 48

/-- `Nr_Of_Superblock_Slots`. -/
abbrev nrOfSuperblockSlots : ℕ := 8

/-- `Type_1_Nodes_Per_Block` and `Type_2_Nodes_Per_Block`. -/
abbrev nodesPerBlock : ℕ := 64

/-- `Tree_Max_Max_Level`. -/
abbrev treeMaxMaxLevel : ℕ := 6

/-- `Free_Tree_Min_Max_Level`. -/
abbrev freeTreeMinMaxLevel : ℕ := 2

abbrev SnapshotsIndex := Fin superblockNrOfSnapshots
abbrev SuperblocksIndex := Fin nrOfSuperblockSlots

instance : NeZero superblockNrOfSnapshots := ⟨by decide⟩
instance : NeZero nrOfSuperblockSlots := ⟨by decide⟩
instance : NeZero nodesPerBlock := ⟨by decide⟩

/-- `PBA_Invalid`, the last physical block address. -/
def pbaInvalid : ℕ := 2 ^ 64 - 1

/-- `Generation_Type'Last`. -/
def generationLast : ℕ := 2 ^ 64 - 1

/-- The successor of a generation, modulo `2^64`. -/
def nextGeneration (g : ℕ) : ℕ := (g + 1) % 2 ^ 64

/-- Below the last generation the successor is the plain one. -/
theorem nextGeneration_of_lt {g : ℕ} (h : g < generationLast) :
    nextGeneration g = g + 1 := by
  unfold nextGeneration generationLast at *
  exact Nat.mod_eq_of_lt (by omega)

/-- An entry of a type-1 node block: a child of an inner node of the virtual
block device tree, or of the upper levels of the free and the meta tree. -/
structure Type1Node where
  /-- The address of the block of the child. -/
  pba : ℕ
  /-- The generation in which it was written, zero for a leaf that never was. -/
  gen : ℕ
  /-- The hash of the block. -/
  hash : Hash
  deriving DecidableEq

/-- `Type_1_Node_Invalid`. -/
def type1NodeInvalid : Type1Node := { pba := 0, gen := 0, hash := 0 }

/-- An entry of a type-2 node block: a leaf of the free or the meta tree. -/
structure Type2Node where
  /-- The block of the pool that the entry is about. -/
  pba : ℕ
  /-- The virtual block address for which it was given up. -/
  lastVba : ℕ
  /-- The generation in which it was allocated. -/
  allocGen : ℕ
  /-- The generation in which it was given up. -/
  freeGen : ℕ
  /-- The key that its data was encrypted with. -/
  lastKeyId : ℕ
  /-- Whether it may still be needed by a snapshot. -/
  reserved : Bool
  deriving DecidableEq

/-- `Type_2_Node_Invalid`. -/
def type2NodeInvalid : Type2Node :=
  { pba := 0, lastVba := 0, allocGen := 0, freeGen := 0, lastKeyId := 0,
    reserved := false }

abbrev Type1NodeBlock := Fin nodesPerBlock → Type1Node
abbrev Type2NodeBlock := Fin nodesPerBlock → Type2Node

/-- `Snapshot_Type`. -/
structure Snapshot where
  /-- The hash of the root of the tree. -/
  hash : Hash
  /-- The address of the root. -/
  pba : ℕ
  /-- The generation of the snapshot, by which a client names it. -/
  gen : ℕ
  /-- The number of leaves, which is that of the virtual block addresses. -/
  nrOfLeafs : ℕ
  /-- The level of the root; the leaves have level zero. -/
  maxLevel : ℕ
  /-- Whether the slot is in use. -/
  valid : Bool
  /-- A number that is stored with it. -/
  id : ℕ
  /-- Whether the snapshot was asked for, or is an internal one. -/
  keep : Bool
  deriving DecidableEq

/-- `Snapshot_Invalid`. -/
def snapshotInvalid : Snapshot :=
  { hash := 0, pba := pbaInvalid, gen := generationLast, nrOfLeafs := 64 ^ 5,
    maxLevel := treeMaxMaxLevel, valid := false, id := 2 ^ 32 - 1, keep := false }

abbrev Snapshots := SnapshotsIndex → Snapshot

/-- A key with its value, plain or encrypted. -/
structure Key where
  value : KeyValue
  id : ℕ
  deriving DecidableEq

/-- `Key_Plaintext_Invalid`. -/
def keyInvalid : Key := { value := 0, id := 0 }

/-- `Superblock_State_Type`. -/
inductive SuperblockState where
  | invalid
  | normal
  | rekeying
  | extendingVbd
  | extendingFt
  deriving DecidableEq

/-- `Superblock_Type`. The type of an encrypted superblock has the same
fields and differs in what the bytes of the key values mean, so both are this
record. -/
structure Superblock where
  /-- What the library is in the middle of. -/
  state : SuperblockState
  /-- The address that a rekeying does next. -/
  rekeyingVba : ℕ
  /-- How many blocks are left of the contingent of an extension. -/
  resizingNrOfPbas : ℕ
  /-- How many leaves an extension has added. -/
  resizingNrOfLeaves : ℕ
  /-- The key that a rekeying replaces. -/
  previousKey : Key
  /-- The key for what is written. -/
  currentKey : Key
  /-- The table of the snapshots. -/
  snapshots : Snapshots
  /-- The generation of the superblock that was secured last. -/
  lastSecuredGeneration : ℕ
  /-- The slot of the current snapshot. -/
  currSnap : SnapshotsIndex
  /-- The degree of the trees of the virtual block device. -/
  degree : ℕ
  /-- The first block of the pool. -/
  firstPba : ℕ
  /-- The number of blocks of the pool. -/
  nrOfPbas : ℕ
  /-- The generation of the root of the free tree. -/
  freeGen : ℕ
  /-- The address of the root of the free tree. -/
  freeNumber : ℕ
  /-- The hash of the root of the free tree. -/
  freeHash : Hash
  /-- The level of the root of the free tree. -/
  freeMaxLevel : ℕ
  /-- The degree of the free tree. -/
  freeDegree : ℕ
  /-- The number of leaves of the free tree. -/
  freeLeafs : ℕ
  /-- The generation of the root of the meta tree. -/
  metaGen : ℕ
  /-- The address of the root of the meta tree. -/
  metaNumber : ℕ
  /-- The hash of the root of the meta tree. -/
  metaHash : Hash
  /-- The level of the root of the meta tree. -/
  metaMaxLevel : ℕ
  /-- The degree of the meta tree. -/
  metaDegree : ℕ
  /-- The number of leaves of the meta tree. -/
  metaLeafs : ℕ
  deriving DecidableEq

/-- `Superblock_Invalid`. -/
def superblockInvalid : Superblock where
  state := .invalid
  rekeyingVba := 0
  resizingNrOfPbas := 0
  resizingNrOfLeaves := 0
  previousKey := keyInvalid
  currentKey := keyInvalid
  snapshots _ := snapshotInvalid
  lastSecuredGeneration := 0
  currSnap := 0
  degree := 1
  firstPba := 0
  nrOfPbas := 0
  freeGen := 0
  freeNumber := 0
  freeHash := 0
  freeMaxLevel := 0
  freeDegree := 1
  freeLeafs := 0
  metaGen := 0
  metaNumber := 0
  metaHash := 0
  metaMaxLevel := 0
  metaDegree := 1
  metaLeafs := 0

abbrev SuperblockCiphertext := Superblock

namespace Superblock

/-- `Superblock_Valid` and `Superblock_Ciphertext_Valid`. -/
def Valid (sb : Superblock) : Prop := sb.state ≠ SuperblockState.invalid

instance (sb : Superblock) : Decidable sb.Valid :=
  inferInstanceAs (Decidable (sb.state ≠ SuperblockState.invalid))

/-- The current snapshot. -/
def curr (sb : Superblock) : Snapshot := sb.snapshots sb.currSnap

/-- `SB.Snapshots (SB.Curr_Snap) := Snap`. -/
def setCurr (sb : Superblock) (snap : Snapshot) : Superblock :=
  { sb with snapshots := Function.update sb.snapshots sb.currSnap snap }

/-- `SB.Snapshots (SB.Curr_Snap).Gen := Gen`. -/
def setCurrGen (sb : Superblock) (gen : ℕ) : Superblock :=
  sb.setCurr { sb.curr with gen := gen }

@[simp] theorem setCurr_currSnap (sb : Superblock) (snap : Snapshot) :
    (sb.setCurr snap).currSnap = sb.currSnap := rfl

@[simp] theorem setCurr_curr (sb : Superblock) (snap : Snapshot) :
    (sb.setCurr snap).curr = snap := by
  simp [setCurr, curr]

theorem setCurr_snapshots_of_ne (sb : Superblock) (snap : Snapshot) {i : SnapshotsIndex}
    (hi : i ≠ sb.currSnap) : (sb.setCurr snap).snapshots i = sb.snapshots i :=
  Function.update_of_ne hi _ _

@[simp] theorem setCurrGen_currSnap (sb : Superblock) (gen : ℕ) :
    (sb.setCurrGen gen).currSnap = sb.currSnap := rfl

@[simp] theorem setCurrGen_state (sb : Superblock) (gen : ℕ) :
    (sb.setCurrGen gen).state = sb.state := rfl

@[simp] theorem setCurrGen_curr (sb : Superblock) (gen : ℕ) :
    (sb.setCurrGen gen).curr = { sb.curr with gen := gen } := by
  simp [setCurrGen, setCurr, curr]

/-- The other slots keep what they hold. -/
theorem setCurrGen_snapshots_of_ne (sb : Superblock) (gen : ℕ)
    {i : SnapshotsIndex} (hi : i ≠ sb.currSnap) :
    (sb.setCurrGen gen).snapshots i = sb.snapshots i :=
  Function.update_of_ne hi _ _

end Superblock

/-- **What the device is given from outside**: the block type with its
codecs, the hash, the crypto module's two directions and the trust anchor's
two directions on key values.

The blocks of the real device are 4096 bytes. `Platform.ofBytes` has these
blocks, and the codec of `cbe.adb` on all node blocks whose values fit in their
fields; a node block with other values, which the types of the source exclude,
is a block of its own there. So the round trip below asks of that platform
nothing beyond what `nodeBlocks_roundTrip` proves of the codec. -/
structure Platform where
  /-- The content of a block. -/
  Block : Type
  /-- What an uninitialized block reads as: zeros. -/
  zero : Block
  /-- A node block of the tree, encoded. -/
  blockDataFromType1NodeBlock : Type1NodeBlock → Block
  /-- The same, decoded. -/
  type1NodeBlockFromBlockData : Block → Type1NodeBlock
  /-- A node block that was encoded is decoded as it was. -/
  type1_roundtrip : ∀ n, type1NodeBlockFromBlockData (blockDataFromType1NodeBlock n) = n
  /-- A lowest node block of the free tree, encoded. -/
  blockDataFromType2NodeBlock : Type2NodeBlock → Block
  /-- A superblock, encoded. -/
  blockDataFromSuperblock : Superblock → Block
  /-- The SHA-256 hash of a block. -/
  hash : Block → Hash
  /-- The crypto module: the cipher under the key of an id. -/
  encrypt : ℕ → Block → Block
  /-- The same, back. -/
  decrypt : ℕ → Block → Block
  /-- A block comes back under its own key. -/
  decrypt_encrypt : ∀ id x, decrypt id (encrypt id x) = x
  /-- The trust anchor: key values under its own secret. -/
  encryptKey : KeyValue → KeyValue
  /-- The same, back. -/
  decryptKey : KeyValue → KeyValue
  /-- A key value comes back. -/
  decryptKey_encryptKey : ∀ k, decryptKey (encryptKey k) = k

/-- The complement stands in for the encryption of a key value in the samples. -/
theorem keyValue_not_not (k : KeyValue) : ~~~(~~~k) = k := BitVec.not_not

/-- A platform to compute with. A block is a node block together with the
ids of the keys it was encrypted under, the last one first; decryption takes
the outermost layer off when the id is the one asked for. -/
def Platform.sample : Platform where
  Block := Type1NodeBlock × List ℕ
  zero := (fun _ => type1NodeInvalid, [])
  blockDataFromType1NodeBlock n := (n, [])
  type1NodeBlockFromBlockData b := b.1
  type1_roundtrip _ := rfl
  blockDataFromType2NodeBlock n := (fun i => ⟨(n i).pba, (n i).allocGen, 0⟩, [])
  blockDataFromSuperblock sb := (fun _ => ⟨0, 0, sb.currentKey.value⟩, [])
  hash b := (b.1 0).hash
  encrypt id b := (b.1, id :: b.2)
  decrypt id b := if b.2.head? = some id then (b.1, b.2.tail) else b
  decrypt_encrypt _ _ := by simp
  encryptKey k := ~~~k
  decryptKey k := ~~~k
  decryptKey_encryptKey := keyValue_not_not

/-- A superblock to compute with: a normal one with a single snapshot, of the
generation `gen`. -/
def Superblock.sample (gen : ℕ) : Superblock where
  state := .normal
  rekeyingVba := 0
  resizingNrOfPbas := 0
  resizingNrOfLeaves := 0
  previousKey := keyInvalid
  currentKey := { value := 0, id := 1 }
  snapshots i := if i = 0 then
    { hash := 0, pba := 8, gen := gen, nrOfLeafs := 2, maxLevel := 2, valid := true,
      id := 0, keep := false } else snapshotInvalid
  lastSecuredGeneration := gen
  currSnap := 0
  degree := 2
  firstPba := 8
  nrOfPbas := 32
  freeGen := 0
  freeNumber := 12
  freeHash := 0
  freeMaxLevel := 2
  freeDegree := 16
  freeLeafs := 16
  metaGen := 0
  metaNumber := 30
  metaHash := 0
  metaMaxLevel := 2
  metaDegree := 2
  metaLeafs := 4

end Cbe
