import Cbe.Types
import Cbe.Support.ByteWalk

/-!
# The superblock on disk

A superblock is put into a block by a walk over its fields, and taken out by
another one. The two walks exist twice, for the superblock in memory and for the
one with encrypted keys; they differ in the procedure for the keys only.

What a walk puts into a block the other one takes out again, for every value of
the type (`Superblock.InRange`) but one kind: the number of blocks of the pool
is converted to 32 bits, which raises for a pool of `2^32` blocks or more
(`roundTrips_iff`). The field has room for 64 bits.

Each procedure that writes a value is described by the interval that it fills
and by what is read there afterwards (`Writes`). Two such descriptions compose
when their intervals follow each other, so the walk over all fields has one, by
going through the fields in their order; that the intervals are disjoint needs
no argument of its own. The ranges of the types enter at the single fields: a
number is read back if it fits into the bytes it is given, and if the conversion
to the type of the field admits it.
-/

namespace Cbe

open ByteWalk

/-- `Block_Size_Bytes`. -/
abbrev blockSizeBytes : ℕ := 4096

/-- `Block_Data_Type`. -/
abbrev BlockData := Fin blockSizeBytes → Byte

/-- A block that is being written. -/
abbrev BlockBuffer := Buffer blockSizeBytes

/-- `Hash_Size_Bytes`. -/
abbrev hashSizeBytes : ℕ := 32

/-- `Key_Value_Size_Bytes`. -/
abbrev keyValueSizeBytes : ℕ := 32

/-- `Key_Storage_Size_Bytes`. -/
abbrev keyStorageSizeBytes : ℕ := keyValueSizeBytes + 4

/-- `Snapshot_Storage_Size_Bytes`. -/
abbrev snapshotStorageSizeBytes : ℕ := 72

/-- `Superblock_Snapshots_Storage_Size_Bytes`. -/
abbrev superblockSnapshotsStorageSizeBytes : ℕ :=
  superblockNrOfSnapshots * snapshotStorageSizeBytes

/-- `Tree_Max_Degree`; the least degree is 1. -/
abbrev treeMaxDegree : ℕ := 2 ^ 6

/-- `Tree_Max_Number_Of_Leafs`. -/
abbrev treeMaxNumberOfLeafs : ℕ := treeMaxDegree ^ (treeMaxMaxLevel - 1)

/-! ## The ranges of the types

Every field has the range of its type in the source. -/

/-- The values of `Snapshot_Type`. -/
structure Snapshot.InRange (snap : Snapshot) : Prop where
  pba : snap.pba < 2 ^ 64
  gen : snap.gen < 2 ^ 64
  nrOfLeafs : snap.nrOfLeafs ≤ treeMaxNumberOfLeafs
  maxLevel : snap.maxLevel ≤ treeMaxMaxLevel
  id : snap.id < 2 ^ 32

/-- The values of `Tree_Degree_Type`. -/
def DegreeInRange (degree : ℕ) : Prop := 1 ≤ degree ∧ degree ≤ treeMaxDegree

instance (degree : ℕ) : Decidable (DegreeInRange degree) := inferInstanceAs (Decidable (_ ∧ _))

/-- The values of `Superblock_Type` and of `Superblock_Ciphertext_Type`. -/
structure Superblock.InRange (sb : Superblock) : Prop where
  rekeyingVba : sb.rekeyingVba ≤ treeMaxNumberOfLeafs
  resizingNrOfPbas : sb.resizingNrOfPbas < 2 ^ 64
  resizingNrOfLeaves : sb.resizingNrOfLeaves ≤ treeMaxNumberOfLeafs
  previousKey : sb.previousKey.id < 2 ^ 32
  currentKey : sb.currentKey.id < 2 ^ 32
  snapshots : ∀ i, (sb.snapshots i).InRange
  lastSecuredGeneration : sb.lastSecuredGeneration < 2 ^ 64
  degree : DegreeInRange sb.degree
  firstPba : sb.firstPba < 2 ^ 64
  nrOfPbas : sb.nrOfPbas < 2 ^ 64
  freeGen : sb.freeGen < 2 ^ 64
  freeNumber : sb.freeNumber < 2 ^ 64
  freeMaxLevel : sb.freeMaxLevel ≤ treeMaxMaxLevel
  freeDegree : DegreeInRange sb.freeDegree
  freeLeafs : sb.freeLeafs ≤ treeMaxNumberOfLeafs
  metaGen : sb.metaGen < 2 ^ 64
  metaNumber : sb.metaNumber < 2 ^ 64
  metaMaxLevel : sb.metaMaxLevel ≤ treeMaxMaxLevel
  metaDegree : DegreeInRange sb.metaDegree
  metaLeafs : sb.metaLeafs ≤ treeMaxNumberOfLeafs

/-! ## Encoding

The offsets advance with the storage size of each field, whether all of its
bytes are used or not. -/

/-- `Block_Data_From_Hash`. -/
def blockDataFromHash (buf : BlockBuffer) (off : ℕ) (hash : Hash) : Option BlockBuffer :=
  buf.write off (leBytes hashSizeBytes hash.toNat)

/-- `Block_Data_From_Boolean`. -/
def blockDataFromBoolean (buf : BlockBuffer) (off : ℕ) (b : Bool) : Option BlockBuffer :=
  buf.write off [if b = true then 1 else 0]

/-- The number of a state on disk. -/
def sbStateByte : SuperblockState → Byte
  | .invalid => 0
  | .normal => 1
  | .rekeying => 2
  | .extendingVbd => 3
  | .extendingFt => 4

/-- `Block_Data_From_SB_State`. -/
def blockDataFromSbState (buf : BlockBuffer) (off : ℕ) (state : SuperblockState) :
    Option BlockBuffer :=
  buf.write off [sbStateByte state]

/-- The procedure for a key: its value, then its id. -/
def blockDataFromKey (buf : BlockBuffer) (off : ℕ) (key : Key) : Option BlockBuffer := do
  let buf ← buf.write off (leBytes keyValueSizeBytes key.value.toNat)
  let off := off + keyValueSizeBytes
  buf.writeUnsigned 4 off key.id

/-- `Block_Data_From_Key_Plaintext`. -/
def blockDataFromKeyPlaintext (buf : BlockBuffer) (off : ℕ) (key : Key) : Option BlockBuffer :=
  blockDataFromKey buf off key

/-- `Block_Data_From_Key_Ciphertext`. -/
def blockDataFromKeyCiphertext (buf : BlockBuffer) (off : ℕ) (key : Key) : Option BlockBuffer :=
  blockDataFromKey buf off key

/-- `Block_Data_From_Snapshot`. The last field is written with 32 bits. -/
def blockDataFromSnapshot (buf : BlockBuffer) (off : ℕ) (snap : Snapshot) :
    Option BlockBuffer := do
  let buf ← blockDataFromHash buf off snap.hash
  let off := off + hashSizeBytes
  let buf ← buf.writeUnsigned 8 off snap.pba
  let off := off + 8
  let buf ← buf.writeUnsigned 8 off snap.gen
  let off := off + 8
  let buf ← buf.writeUnsigned 8 off snap.nrOfLeafs
  let off := off + 8
  let buf ← buf.writeUnsigned 4 off snap.maxLevel
  let off := off + 4
  let buf ← blockDataFromBoolean buf off snap.valid
  let off := off + 1
  let buf ← buf.writeUnsigned 4 off snap.id
  let off := off + 4
  buf.writeUnsigned 4 off (if snap.keep = true then 1 else 0)

/-- `Block_Data_From_Snapshots`. -/
def blockDataFromSnapshots (buf : BlockBuffer) (off : ℕ) (snaps : Snapshots) :
    Option BlockBuffer :=
  (List.finRange superblockNrOfSnapshots).foldlM
    (fun buf i => blockDataFromSnapshot buf (off + i.val * snapshotStorageSizeBytes) (snaps i)) buf

/-- The walk of the two encoders, over the procedure for a key. -/
def blockDataFromSuperblockWith
    (blockDataFromKey : BlockBuffer → ℕ → Key → Option BlockBuffer) (sb : Superblock) :
    Option BlockBuffer := do
  let buf := Buffer.zeros blockSizeBytes
  let off := 0
  let buf ← blockDataFromSbState buf off sb.state
  let off := off + 1
  let buf ← buf.writeUnsigned 8 off sb.rekeyingVba
  let off := off + 8
  let buf ← buf.writeUnsigned 8 off sb.resizingNrOfPbas
  let off := off + 8
  let buf ← buf.writeUnsigned 8 off sb.resizingNrOfLeaves
  let off := off + 8
  let buf ← blockDataFromKey buf off sb.previousKey
  let off := off + keyStorageSizeBytes
  let buf ← blockDataFromKey buf off sb.currentKey
  let off := off + keyStorageSizeBytes
  let buf ← blockDataFromSnapshots buf off sb.snapshots
  let off := off + superblockSnapshotsStorageSizeBytes
  let buf ← buf.writeUnsigned 8 off sb.lastSecuredGeneration
  let off := off + 8
  let buf ← buf.writeUnsigned 4 off sb.currSnap
  let off := off + 4
  let buf ← buf.writeUnsigned 4 off sb.degree
  let off := off + 4
  let buf ← buf.writeUnsigned 8 off sb.firstPba
  let off := off + 8
  -- the conversion to 32 bits raises for a large pool
  let buf ← buf.writeUnsigned 4 off sb.nrOfPbas
  let off := off + 8
  let buf ← buf.writeUnsigned 8 off sb.freeGen
  let off := off + 8
  let buf ← buf.writeUnsigned 8 off sb.freeNumber
  let off := off + 8
  let buf ← blockDataFromHash buf off sb.freeHash
  let off := off + hashSizeBytes
  let buf ← buf.writeUnsigned 4 off sb.freeMaxLevel
  let off := off + 4
  let buf ← buf.writeUnsigned 4 off sb.freeDegree
  let off := off + 4
  let buf ← buf.writeUnsigned 8 off sb.freeLeafs
  let off := off + 8
  let buf ← buf.writeUnsigned 8 off sb.metaGen
  let off := off + 8
  let buf ← buf.writeUnsigned 8 off sb.metaNumber
  let off := off + 8
  let buf ← blockDataFromHash buf off sb.metaHash
  let off := off + hashSizeBytes
  let buf ← buf.writeUnsigned 4 off sb.metaMaxLevel
  let off := off + 4
  let buf ← buf.writeUnsigned 4 off sb.metaDegree
  let off := off + 4
  buf.writeUnsigned 8 off sb.metaLeafs

/-- `Block_Data_From_Superblock`. -/
def blockDataFromSuperblock (sb : Superblock) : Option BlockBuffer :=
  blockDataFromSuperblockWith blockDataFromKeyPlaintext sb

/-- `Block_Data_From_Superblock_Ciphertext`. -/
def blockDataFromSuperblockCiphertext (sb : SuperblockCiphertext) : Option BlockBuffer :=
  blockDataFromSuperblockWith blockDataFromKeyCiphertext sb

/-! ## Decoding

The same walk, with a conversion to the type of each field. A conversion raises
for a value out of range. -/

/-- The conversion to an integer type with a range. -/
def toRange (first last n : ℕ) : Option ℕ := if first ≤ n ∧ n ≤ last then some n else none

/-- The conversion to `Snapshots_Index_Type`. -/
def toSnapshotsIndex (n : ℕ) : Option SnapshotsIndex :=
  if h : n < superblockNrOfSnapshots then some ⟨n, h⟩ else none

/-- `Hash_From_Block_Data`. -/
def hashFromBlockData (data : BlockData) (off : ℕ) : Option Hash :=
  (readBytes data off hashSizeBytes).map fun bytes => BitVec.ofNat 256 (ofLeBytes bytes)

/-- `Boolean_From_Block_Data`. -/
def booleanFromBlockData (data : BlockData) (off : ℕ) : Option Bool :=
  (readByte data off).map fun b => decide (b = 1)

/-- `SB_State_From_Block_Data`, which raises for a byte that is not a state. -/
def sbStateFromBlockData (data : BlockData) (off : ℕ) : Option SuperblockState :=
  (readByte data off).bind fun b =>
    if b = 0 then some .invalid
    else if b = 1 then some .normal
    else if b = 2 then some .rekeying
    else if b = 3 then some .extendingVbd
    else if b = 4 then some .extendingFt
    else none

/-- The procedure for a key. -/
def keyFromBlockData (data : BlockData) (off : ℕ) : Option Key := do
  let value ← readBytes data off keyValueSizeBytes
  let off := off + keyValueSizeBytes
  let id ← readUnsigned 4 data off
  some { value := BitVec.ofNat 256 (ofLeBytes value), id := id }

/-- `Key_Plaintext_From_Block_Data`. -/
def keyPlaintextFromBlockData (data : BlockData) (off : ℕ) : Option Key :=
  keyFromBlockData data off

/-- `Key_Ciphertext_From_Block_Data`. -/
def keyCiphertextFromBlockData (data : BlockData) (off : ℕ) : Option Key :=
  keyFromBlockData data off

/-- `Snapshot_From_Block_Data`. Of the last field one bit is read. -/
def snapshotFromBlockData (data : BlockData) (off : ℕ) : Option Snapshot := do
  let hash ← hashFromBlockData data off
  let off := off + hashSizeBytes
  let pba ← readUnsigned 8 data off
  let off := off + 8
  let gen ← readUnsigned 8 data off
  let off := off + 8
  let nrOfLeafs ← (readUnsigned 8 data off).bind (toRange 0 treeMaxNumberOfLeafs)
  let off := off + 8
  let maxLevel ← (readUnsigned 4 data off).bind (toRange 0 treeMaxMaxLevel)
  let off := off + 4
  let valid ← booleanFromBlockData data off
  let off := off + 1
  let id ← readUnsigned 4 data off
  let off := off + 4
  let keep ← readByte data off
  some {
    hash := hash
    pba := pba
    gen := gen
    nrOfLeafs := nrOfLeafs
    maxLevel := maxLevel
    valid := valid
    id := id
    keep := decide (keep &&& 1 = 1) }

/-- `Snapshots_From_Block_Data`. -/
def snapshotsFromBlockData (data : BlockData) (off : ℕ) : Option Snapshots :=
  (List.finRange superblockNrOfSnapshots).foldlM
    (fun snaps i =>
      (snapshotFromBlockData data (off + i.val * snapshotStorageSizeBytes)).map
        (Function.update snaps i)) fun _ => snapshotInvalid

/-- The walk of the two decoders, over the procedure for a key. -/
def superblockFromBlockDataWith (keyFromBlockData : BlockData → ℕ → Option Key)
    (data : BlockData) : Option Superblock := do
  let off := 0
  let state ← sbStateFromBlockData data off
  let off := off + 1
  let rekeyingVba ← (readUnsigned 8 data off).bind (toRange 0 treeMaxNumberOfLeafs)
  let off := off + 8
  let resizingNrOfPbas ← readUnsigned 8 data off
  let off := off + 8
  let resizingNrOfLeaves ← (readUnsigned 8 data off).bind (toRange 0 treeMaxNumberOfLeafs)
  let off := off + 8
  let previousKey ← keyFromBlockData data off
  let off := off + keyStorageSizeBytes
  let currentKey ← keyFromBlockData data off
  let off := off + keyStorageSizeBytes
  let snapshots ← snapshotsFromBlockData data off
  let off := off + superblockSnapshotsStorageSizeBytes
  let lastSecuredGeneration ← readUnsigned 8 data off
  let off := off + 8
  let currSnap ← (readUnsigned 4 data off).bind toSnapshotsIndex
  let off := off + 4
  let degree ← (readUnsigned 4 data off).bind (toRange 1 treeMaxDegree)
  let off := off + 4
  let firstPba ← readUnsigned 8 data off
  let off := off + 8
  let nrOfPbas ← readUnsigned 4 data off
  let off := off + 8
  let freeGen ← readUnsigned 8 data off
  let off := off + 8
  let freeNumber ← readUnsigned 8 data off
  let off := off + 8
  let freeHash ← hashFromBlockData data off
  let off := off + hashSizeBytes
  let freeMaxLevel ← (readUnsigned 4 data off).bind (toRange 0 treeMaxMaxLevel)
  let off := off + 4
  let freeDegree ← (readUnsigned 4 data off).bind (toRange 1 treeMaxDegree)
  let off := off + 4
  let freeLeafs ← (readUnsigned 8 data off).bind (toRange 0 treeMaxNumberOfLeafs)
  let off := off + 8
  let metaGen ← readUnsigned 8 data off
  let off := off + 8
  let metaNumber ← readUnsigned 8 data off
  let off := off + 8
  let metaHash ← hashFromBlockData data off
  let off := off + hashSizeBytes
  let metaMaxLevel ← (readUnsigned 4 data off).bind (toRange 0 treeMaxMaxLevel)
  let off := off + 4
  let metaDegree ← (readUnsigned 4 data off).bind (toRange 1 treeMaxDegree)
  let off := off + 4
  let metaLeafs ← (readUnsigned 8 data off).bind (toRange 0 treeMaxNumberOfLeafs)
  some {
    state, rekeyingVba, resizingNrOfPbas, resizingNrOfLeaves, previousKey, currentKey,
    snapshots, lastSecuredGeneration, currSnap, degree, firstPba, nrOfPbas, freeGen,
    freeNumber, freeHash, freeMaxLevel, freeDegree, freeLeafs, metaGen, metaNumber,
    metaHash, metaMaxLevel, metaDegree, metaLeafs }

/-- `Superblock_From_Block_Data`. -/
def superblockFromBlockData (data : BlockData) : Option Superblock :=
  superblockFromBlockDataWith keyPlaintextFromBlockData data

/-- `Superblock_Ciphertext_From_Block_Data`. -/
def superblockCiphertextFromBlockData (data : BlockData) : Option SuperblockCiphertext :=
  superblockFromBlockDataWith keyCiphertextFromBlockData data

/-! ## What the procedures write

One statement for each procedure, then one for the walk. -/

/-- A hash. -/
theorem writes_hash (off : ℕ) (hash : Hash) :
    Writes off (off + hashSizeBytes) (fun buf => blockDataFromHash buf off hash)
      fun data => hashFromBlockData data off = some hash := by
  have hwrites := @writes_bytes blockSizeBytes off (leBytes hashSizeBytes hash.toNat)
  rw [leBytes_length] at hwrites
  refine hwrites.imp fun data hdata => ?_
  rw [hashFromBlockData, hdata]
  show some (BitVec.ofNat 256 (ofLeBytes (leBytes hashSizeBytes hash.toNat))) = _
  rw [ofLeBytes_leBytes hash.isLt, BitVec.ofNat_toNat, BitVec.setWidth_eq]

/-- A byte. -/
theorem writes_byte (off : ℕ) (b : Byte) :
    Writes off (off + 1) (fun buf : BlockBuffer => buf.write off [b])
      fun data => readByte data off = some b :=
  (writes_bytes off [b]).imp fun _ hdata => readByte_of_readBytes hdata

/-- A truth value, as one byte. -/
theorem writes_boolean (off : ℕ) (b : Bool) :
    Writes off (off + 1) (fun buf => blockDataFromBoolean buf off b)
      fun data => booleanFromBlockData data off = some b := by
  refine (writes_byte off _).imp fun data hdata => ?_
  rw [booleanFromBlockData, hdata]
  cases b <;> rfl

/-- A state. -/
theorem writes_sbState (off : ℕ) (state : SuperblockState) :
    Writes off (off + 1) (fun buf => blockDataFromSbState buf off state)
      fun data => sbStateFromBlockData data off = some state := by
  refine (writes_byte off _).imp fun data hdata => ?_
  rw [sbStateFromBlockData, hdata]
  cases state <;> rfl

/-- A key. -/
theorem writes_key (off : ℕ) {key : Key} (hid : key.id < 2 ^ 32) :
    Writes off (off + keyStorageSizeBytes) (fun buf => blockDataFromKey buf off key)
      fun data => keyFromBlockData data off = some key := by
  have hvalue := @writes_bytes blockSizeBytes off (leBytes keyValueSizeBytes key.value.toNat)
  rw [leBytes_length] at hvalue
  have hkey := hvalue.bind (writes_unsigned (off + keyValueSizeBytes) 4 hid)
  refine Writes.imp hkey fun data hdata => ?_
  unfold keyFromBlockData
  rw [hdata.1]
  dsimp only [bind, Option.bind]
  rw [hdata.2]
  dsimp only
  rw [ofLeBytes_leBytes key.value.isLt, BitVec.ofNat_toNat, BitVec.setWidth_eq]

/-- A conversion that does not raise. -/
theorem toRange_of_mem {first last n : ℕ} (hfirst : first ≤ n) (hlast : n ≤ last) :
    toRange first last n = some n := if_pos ⟨hfirst, hlast⟩

/-- A number of a type with a range is read back. -/
theorem writes_range (off width : ℕ) {first last n : ℕ} (hfirst : first ≤ n) (hlast : n ≤ last)
    (hwidth : last < (2 ^ 8) ^ width) :
    Writes off (off + width) (fun buf : BlockBuffer => buf.writeUnsigned width off n)
      fun data => (readUnsigned width data off).bind (toRange first last) = some n := by
  refine (writes_unsigned off width (lt_of_le_of_lt hlast hwidth)).imp fun data hdata => ?_
  rw [hdata]
  exact toRange_of_mem hfirst hlast

/-- A number of leaves. -/
theorem writes_leafs (off : ℕ) {n : ℕ} (h : n ≤ treeMaxNumberOfLeafs) :
    Writes off (off + 8) (fun buf : BlockBuffer => buf.writeUnsigned 8 off n)
      fun data => (readUnsigned 8 data off).bind (toRange 0 treeMaxNumberOfLeafs) = some n :=
  writes_range off 8 (Nat.zero_le n) h (by decide)

/-- A level. -/
theorem writes_level (off : ℕ) {n : ℕ} (h : n ≤ treeMaxMaxLevel) :
    Writes off (off + 4) (fun buf : BlockBuffer => buf.writeUnsigned 4 off n)
      fun data => (readUnsigned 4 data off).bind (toRange 0 treeMaxMaxLevel) = some n :=
  writes_range off 4 (Nat.zero_le n) h (by decide)

/-- A degree. -/
theorem writes_degree (off : ℕ) {n : ℕ} (h : DegreeInRange n) :
    Writes off (off + 4) (fun buf : BlockBuffer => buf.writeUnsigned 4 off n)
      fun data => (readUnsigned 4 data off).bind (toRange 1 treeMaxDegree) = some n :=
  writes_range off 4 h.1 h.2 (by decide)

/-- The index of the current snapshot. -/
theorem writes_currSnap (off : ℕ) (i : SnapshotsIndex) :
    Writes off (off + 4) (fun buf : BlockBuffer => buf.writeUnsigned 4 off i)
      fun data => (readUnsigned 4 data off).bind toSnapshotsIndex = some i := by
  have hi : (i : ℕ) < (2 ^ 8) ^ 4 := lt_trans i.isLt (by decide)
  refine (writes_unsigned off 4 hi).imp fun data hdata => ?_
  rw [hdata]
  exact dif_pos i.isLt

/-- The flag in the last field of a snapshot. -/
theorem writes_keep (off : ℕ) (keep : Bool) :
    Writes off (off + 4)
      (fun buf : BlockBuffer => buf.writeUnsigned 4 off (if keep = true then 1 else 0))
      fun data => ∃ b, readByte data off = some b ∧ decide (b &&& 1 = 1) = keep := by
  have hkeep : (if keep = true then 1 else 0) < (2 ^ 8) ^ 4 := by cases keep <;> decide
  refine (writes_unsigned off 4 hkeep).imp fun data hdata => ?_
  refine ⟨_, readByte_of_readUnsigned hdata, ?_⟩
  cases keep <;> rfl

/-- A snapshot. -/
theorem writes_snapshot (off : ℕ) {snap : Snapshot} (hsnap : snap.InRange) :
    Writes off (off + snapshotStorageSizeBytes) (fun buf => blockDataFromSnapshot buf off snap)
      fun data => snapshotFromBlockData data off = some snap := by
  have hwalk : Writes off (off + 69) (fun buf => blockDataFromSnapshot buf off snap) _ :=
    (writes_hash _ snap.hash).bind <|
    (writes_unsigned _ 8 hsnap.pba).bind <|
    (writes_unsigned _ 8 hsnap.gen).bind <|
    (writes_leafs _ hsnap.nrOfLeafs).bind <|
    (writes_level _ hsnap.maxLevel).bind <|
    (writes_boolean _ snap.valid).bind <|
    (writes_unsigned _ 4 hsnap.id).bind <|
    writes_keep _ snap.keep
  refine (hwalk.mono (Nat.add_le_add_left (by decide) off)).imp fun data hdata => ?_
  obtain ⟨hhash, hpba, hgen, hleafs, hlevel, hvalid, hid, b, hb, hkeep⟩ := hdata
  simp only [snapshotFromBlockData, hhash, hpba, hgen, hleafs, hlevel, hvalid, hid, hb, hkeep,
    Option.bind_eq_bind, Option.bind_some]

/-- The table of the snapshots. -/
theorem writes_snapshots (off : ℕ) {snaps : Snapshots} (hsnaps : ∀ i, (snaps i).InRange) :
    Writes off (off + superblockSnapshotsStorageSizeBytes)
      (fun buf => blockDataFromSnapshots buf off snaps)
      fun data => snapshotsFromBlockData data off = some snaps := by
  have hloop := Writes.foldlM off fun i => writes_snapshot
    (off + i.val * snapshotStorageSizeBytes) (hsnaps i)
  exact Writes.imp hloop fun data hdata => foldlM_update _ hdata

/-- How far the walk over the fields goes. -/
abbrev superblockStorageSizeBytes : ℕ := 3713

/-- **What the walk over the fields writes**, whatever the procedure for a key
is. -/
theorem writes_superblock {putKey : BlockBuffer → ℕ → Key → Option BlockBuffer}
    {getKey : BlockData → ℕ → Option Key}
    (hkey : ∀ (off : ℕ) (key : Key), key.id < 2 ^ 32 →
      Writes off (off + keyStorageSizeBytes) (fun buf => putKey buf off key)
        fun data => getKey data off = some key)
    {sb : Superblock} (hsb : sb.InRange) (hpool : sb.nrOfPbas < 2 ^ 32) :
    ∃ f : BlockBuffer → Option BlockBuffer,
      blockDataFromSuperblockWith putKey sb = f (Buffer.zeros blockSizeBytes)
        ∧ Writes 0 superblockStorageSizeBytes f fun data =>
          superblockFromBlockDataWith getKey data = some sb := by
  have hwalk :=
    (writes_sbState 0 sb.state).bind <|
    (writes_leafs _ hsb.rekeyingVba).bind <|
    (writes_unsigned _ 8 hsb.resizingNrOfPbas).bind <|
    (writes_leafs _ hsb.resizingNrOfLeaves).bind <|
    (hkey _ sb.previousKey hsb.previousKey).bind <|
    (hkey _ sb.currentKey hsb.currentKey).bind <|
    (writes_snapshots _ hsb.snapshots).bind <|
    (writes_unsigned _ 8 hsb.lastSecuredGeneration).bind <|
    (writes_currSnap _ sb.currSnap).bind <|
    (writes_degree _ hsb.degree).bind <|
    (writes_unsigned _ 8 hsb.firstPba).bind <|
    ((writes_unsigned _ 4 hpool).mono (Nat.add_le_add_left (show 4 ≤ 8 by decide) _)).bind <|
    (writes_unsigned _ 8 hsb.freeGen).bind <|
    (writes_unsigned _ 8 hsb.freeNumber).bind <|
    (writes_hash _ sb.freeHash).bind <|
    (writes_level _ hsb.freeMaxLevel).bind <|
    (writes_degree _ hsb.freeDegree).bind <|
    (writes_leafs _ hsb.freeLeafs).bind <|
    (writes_unsigned _ 8 hsb.metaGen).bind <|
    (writes_unsigned _ 8 hsb.metaNumber).bind <|
    (writes_hash _ sb.metaHash).bind <|
    (writes_level _ hsb.metaMaxLevel).bind <|
    (writes_degree _ hsb.metaDegree).bind <|
    writes_leafs _ hsb.metaLeafs
  refine ⟨_, rfl, Writes.imp hwalk fun data hdata => ?_⟩
  obtain ⟨h₁, h₂, h₃, h₄, h₅, h₆, h₇, h₈, h₉, h₁₀, h₁₁, h₁₂, h₁₃, h₁₄, h₁₅, h₁₆, h₁₇, h₁₈,
    h₁₉, h₂₀, h₂₁, h₂₂, h₂₃, h₂₄⟩ := hdata
  simp only [superblockFromBlockDataWith, h₁, h₂, h₃, h₄, h₅, h₆, h₇, h₈, h₉, h₁₀, h₁₁, h₁₂, h₁₃,
    h₁₄, h₁₅, h₁₆, h₁₇, h₁₈, h₁₉, h₂₀, h₂₁, h₂₂, h₂₃, h₂₄, Option.bind_eq_bind, Option.bind_some]

/-! ## The round trip

The walk of the encoder succeeds exactly for a pool of a 32-bit size, and
everything else follows from what it writes. -/

/-- **A value makes the round trip**: it is encoded and decoded without a
raise, the decoder returns it, what the decoder returns is encoded as the same
block, and no two fields of the block overlap. -/
structure RoundTrips (encode : Superblock → Option BlockBuffer)
    (decode : BlockData → Option Superblock) (sb : Superblock) (buf : BlockBuffer) : Prop where
  /-- The value is encoded as this block. -/
  encoded : encode sb = some buf
  /-- The block is decoded as this value. -/
  decoded : decode buf.data = some sb
  /-- The block is what the decoded value is encoded as. -/
  again : ∀ sb', decode buf.data = some sb' → (encode sb').map Buffer.data = some buf.data
  /-- No two fields of it overlap. -/
  disjoint : buf.ranges.Pairwise fun r s => r.1 + r.2 ≤ s.1
  /-- All of them lie in the block. -/
  inBlock : ∀ r ∈ buf.ranges, r.1 + r.2 ≤ blockSizeBytes

/-- A superblock with a smaller pool makes the round trip. -/
theorem RoundTrips.of_lt {putKey : BlockBuffer → ℕ → Key → Option BlockBuffer}
    {getKey : BlockData → ℕ → Option Key}
    (hkey : ∀ (off : ℕ) (key : Key), key.id < 2 ^ 32 →
      Writes off (off + keyStorageSizeBytes) (fun buf => putKey buf off key)
        fun data => getKey data off = some key)
    {sb : Superblock} (hsb : sb.InRange) (hpool : sb.nrOfPbas < 2 ^ 32) :
    ∃ buf, RoundTrips (blockDataFromSuperblockWith putKey) (superblockFromBlockDataWith getKey)
      sb buf := by
  obtain ⟨f, hf, hwrites⟩ := writes_superblock hkey hsb hpool
  have hsome := hwrites.isSome (by decide) (Buffer.zeros blockSizeBytes)
  obtain ⟨buf, hbuf⟩ := Option.isSome_iff_exists.mp hsome
  have hdecoded := hwrites.content _ _ hbuf buf.data fun _ _ _ => rfl
  obtain ⟨ranges, hranges, hasc⟩ := hwrites.ranges _ _ hbuf
  have heq : buf.ranges = ranges := hranges
  refine ⟨buf, hf.trans hbuf, hdecoded, fun sb' hsb' => ?_, ?_, fun r hr => ?_⟩
  · rw [hdecoded] at hsb'
    rw [← Option.some.inj hsb', hf, hbuf]
    rfl
  · rw [heq]
    exact hasc.pairwise
  · rw [heq] at hr
    exact le_trans (hasc.mem hr).2 (by decide)

/-- **The encoders raise for a larger pool.** -/
theorem nrOfPbas_lt_of_encoded {putKey : BlockBuffer → ℕ → Key → Option BlockBuffer}
    {sb : Superblock} {buf : BlockBuffer}
    (h : blockDataFromSuperblockWith putKey sb = some buf) : sb.nrOfPbas < 2 ^ 32 := by
  simp only [blockDataFromSuperblockWith, Option.bind_eq_bind, Option.bind_eq_some_iff] at h
  obtain ⟨_, -, _, -, _, -, _, -, _, -, _, -, _, -, _, -, _, -, _, -, _, -, _, hpool, -⟩ := h
  exact (Option.ite_none_right_eq_some.mp hpool).1

/-- **The two codecs of the superblock**: a value of the type makes the round
trip exactly when its pool has less than `2^32` blocks. -/
theorem roundTrips_iff {sb : Superblock} (hsb : sb.InRange) :
    ((∃ buf, RoundTrips blockDataFromSuperblock superblockFromBlockData sb buf)
        ↔ sb.nrOfPbas < 2 ^ 32)
      ∧ ((∃ buf, RoundTrips blockDataFromSuperblockCiphertext superblockCiphertextFromBlockData
          sb buf)
        ↔ sb.nrOfPbas < 2 ^ 32) := by
  refine ⟨⟨?_, fun hpool => ?_⟩, ⟨?_, fun hpool => ?_⟩⟩
  · rintro ⟨buf, hbuf⟩
    exact nrOfPbas_lt_of_encoded hbuf.encoded
  · exact RoundTrips.of_lt (fun off _ hid => writes_key off hid) hsb hpool
  · rintro ⟨buf, hbuf⟩
    exact nrOfPbas_lt_of_encoded hbuf.encoded
  · exact RoundTrips.of_lt (fun off _ hid => writes_key off hid) hsb hpool

/-- A snapshot of the sample superblock. -/
theorem Superblock.sample_snapshots_inRange (i : SnapshotsIndex) :
    ((Superblock.sample 0).snapshots i).InRange := by
  show (if i = 0 then _ else snapshotInvalid : Snapshot).InRange
  split_ifs
  · exact ⟨by decide, by decide, by decide, by decide, by decide⟩
  · exact ⟨by decide, by decide, by decide, by decide, by decide⟩

/-- The sample superblock has values of the types. -/
theorem Superblock.sample_inRange : (Superblock.sample 0).InRange where
  rekeyingVba := by decide
  resizingNrOfPbas := by decide
  resizingNrOfLeaves := by decide
  previousKey := by decide
  currentKey := by decide
  snapshots := Superblock.sample_snapshots_inRange
  lastSecuredGeneration := by decide
  degree := by decide
  firstPba := by decide
  nrOfPbas := by decide
  freeGen := by decide
  freeNumber := by decide
  freeMaxLevel := by decide
  freeDegree := by decide
  freeLeafs := by decide
  metaGen := by decide
  metaNumber := by decide
  metaMaxLevel := by decide
  metaDegree := by decide
  metaLeafs := by decide

/-- A pool of another size of its type. -/
theorem Superblock.InRange.withPool {sb : Superblock} (h : sb.InRange) {n : ℕ}
    (hn : n < 2 ^ 64) : { sb with nrOfPbas := n }.InRange :=
  { h with nrOfPbas := hn }

/-- The sample superblock makes the round trip. -/
theorem roundTrips_iff_sample :
    ((∃ buf, RoundTrips blockDataFromSuperblock superblockFromBlockData (Superblock.sample 0) buf)
        ↔ 32 < 2 ^ 32)
      ∧ ((∃ buf, RoundTrips blockDataFromSuperblockCiphertext superblockCiphertextFromBlockData
          (Superblock.sample 0) buf)
        ↔ 32 < 2 ^ 32) :=
  roundTrips_iff Superblock.sample_inRange

/-- A pool of `2^32` blocks. -/
theorem not_roundTrips_large :
    let sb := { Superblock.sample 0 with nrOfPbas := 2 ^ 32 }
    sb.InRange ∧ (¬ ∃ buf, RoundTrips blockDataFromSuperblock superblockFromBlockData sb buf)
      ∧ ¬ ∃ buf, RoundTrips blockDataFromSuperblockCiphertext superblockCiphertextFromBlockData
        sb buf := by
  have hlarge : ∀ {putKey : BlockBuffer → ℕ → Key → Option BlockBuffer} {buf : BlockBuffer},
      ¬ blockDataFromSuperblockWith putKey { Superblock.sample 0 with nrOfPbas := 2 ^ 32 }
        = some buf := fun h => lt_irrefl (2 ^ 32) (nrOfPbas_lt_of_encoded h)
  refine ⟨Superblock.sample_inRange.withPool (by decide), ?_, ?_⟩
  · rintro ⟨buf, hbuf⟩
    exact hlarge hbuf.encoded
  · rintro ⟨buf, hbuf⟩
    exact hlarge hbuf.encoded

end Cbe
