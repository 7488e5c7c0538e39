import Mathlib.Data.BitVec
import Cbe.SuperblockCodec

/-!
# The node blocks on disk

A node block holds 64 entries of 64 bytes each, of the first type in the inner
nodes and of the second type in the lowest nodes of the free and the meta tree.
The two types have their own procedures for an entry and the same loop over the
entries. What an entry leaves of its 64 bytes stays zero.

The blocks of the trees are read and written through these procedures by the
check and the init library, which also hash a node through them: what they hash
is the block that the decoded node would be encoded as.
-/

namespace Cbe

open ByteWalk

/-- `Type_1_Node_Storage_Size_Bytes` and `Type_2_Node_Storage_Size_Bytes`. -/
abbrev nodeStorageSizeBytes : ℕ := 64

/-- The values of `Type_1_Node_Type`. -/
structure Type1Node.InRange (node : Type1Node) : Prop where
  pba : node.pba < 2 ^ 64
  gen : node.gen < 2 ^ 64

/-- The values of `Type_2_Node_Type`. -/
structure Type2Node.InRange (node : Type2Node) : Prop where
  pba : node.pba < 2 ^ 64
  lastVba : node.lastVba ≤ treeMaxNumberOfLeafs
  allocGen : node.allocGen < 2 ^ 64
  freeGen : node.freeGen < 2 ^ 64
  lastKeyId : node.lastKeyId < 2 ^ 32

/-- `Type_1_Node_Valid`. -/
def Type1Node.Valid (node : Type1Node) : Prop := node.pba ≠ 0

instance (node : Type1Node) : Decidable node.Valid := inferInstanceAs (Decidable (_ ≠ _))

/-- `Type_2_Node_Valid`. -/
def Type2Node.Valid (node : Type2Node) : Prop := node.pba ≠ 0

instance (node : Type2Node) : Decidable node.Valid := inferInstanceAs (Decidable (_ ≠ _))

/-! ## Encoding

An entry at an offset, then all entries. -/

/-- `Block_Data_From_Type_1_Node`. -/
def blockDataFromType1Node (buf : BlockBuffer) (off : ℕ) (node : Type1Node) :
    Option BlockBuffer := do
  let buf ← buf.writeUnsigned 8 off node.pba
  let off := off + 8
  let buf ← buf.writeUnsigned 8 off node.gen
  let off := off + 8
  blockDataFromHash buf off node.hash

/-- `Block_Data_From_Type_2_Node`. -/
def blockDataFromType2Node (buf : BlockBuffer) (off : ℕ) (node : Type2Node) :
    Option BlockBuffer := do
  let buf ← buf.writeUnsigned 8 off node.pba
  let off := off + 8
  let buf ← buf.writeUnsigned 8 off node.lastVba
  let off := off + 8
  let buf ← buf.writeUnsigned 8 off node.allocGen
  let off := off + 8
  let buf ← buf.writeUnsigned 8 off node.freeGen
  let off := off + 8
  let buf ← buf.writeUnsigned 4 off node.lastKeyId
  let off := off + 4
  blockDataFromBoolean buf off node.reserved

variable {α : Type}

/-- The loop over the entries of a node block, over the procedure for one. -/
def blockDataFromNodeBlock (put : BlockBuffer → ℕ → α → Option BlockBuffer)
    (nodes : Fin nodesPerBlock → α) : Option BlockBuffer :=
  (List.finRange nodesPerBlock).foldlM
    (fun buf i => put buf (i.val * nodeStorageSizeBytes) (nodes i)) (Buffer.zeros blockSizeBytes)

/-- `Block_Data_From_Type_1_Node_Block`. -/
def blockDataFromType1NodeBlock (nodes : Type1NodeBlock) : Option BlockBuffer :=
  blockDataFromNodeBlock blockDataFromType1Node nodes

/-- `Block_Data_From_Type_2_Node_Block`. -/
def blockDataFromType2NodeBlock (nodes : Type2NodeBlock) : Option BlockBuffer :=
  blockDataFromNodeBlock blockDataFromType2Node nodes

/-! ## Decoding

The same loop, with a conversion to the type of each field. -/

/-- `Type_1_Node_From_Block_Data`. -/
def type1NodeFromBlockData (data : BlockData) (off : ℕ) : Option Type1Node := do
  let pba ← readUnsigned 8 data off
  let off := off + 8
  let gen ← readUnsigned 8 data off
  let off := off + 8
  let hash ← hashFromBlockData data off
  some { pba := pba, gen := gen, hash := hash }

/-- `Type_2_Node_From_Block_Data`. The conversion to a virtual block address
raises for a number that is not one. -/
def type2NodeFromBlockData (data : BlockData) (off : ℕ) : Option Type2Node := do
  let pba ← readUnsigned 8 data off
  let off := off + 8
  let lastVba ← (readUnsigned 8 data off).bind (toRange 0 treeMaxNumberOfLeafs)
  let off := off + 8
  let allocGen ← readUnsigned 8 data off
  let off := off + 8
  let freeGen ← readUnsigned 8 data off
  let off := off + 8
  let lastKeyId ← readUnsigned 4 data off
  let off := off + 4
  let reserved ← booleanFromBlockData data off
  some {
    pba := pba
    lastVba := lastVba
    allocGen := allocGen
    freeGen := freeGen
    lastKeyId := lastKeyId
    reserved := reserved }

/-- The loop over the entries of a node block, over the function for one. -/
def nodeBlockFromBlockData (get : BlockData → ℕ → Option α) (invalid : α) (data : BlockData) :
    Option (Fin nodesPerBlock → α) :=
  (List.finRange nodesPerBlock).foldlM
    (fun nodes i =>
      (get data (i.val * nodeStorageSizeBytes)).map (Function.update nodes i)) fun _ => invalid

/-- `Type_1_Node_Block_From_Block_Data`. -/
def type1NodeBlockFromBlockData (data : BlockData) : Option Type1NodeBlock :=
  nodeBlockFromBlockData type1NodeFromBlockData type1NodeInvalid data

/-- `Type_2_Node_Block_From_Block_Data`. -/
def type2NodeBlockFromBlockData (data : BlockData) : Option Type2NodeBlock :=
  nodeBlockFromBlockData type2NodeFromBlockData type2NodeInvalid data

/-! ## The round trip

Values in range are read back. -/

/-- An entry of the first type. -/
theorem writes_type1Node (off : ℕ) {node : Type1Node} (hnode : node.InRange) :
    Writes off (off + nodeStorageSizeBytes) (fun buf => blockDataFromType1Node buf off node)
      fun data => type1NodeFromBlockData data off = some node := by
  have hwalk : Writes off (off + 48) (fun buf => blockDataFromType1Node buf off node) _ :=
    (writes_unsigned _ 8 hnode.pba).bind <|
    (writes_unsigned _ 8 hnode.gen).bind <|
    writes_hash _ node.hash
  refine (hwalk.mono (Nat.add_le_add_left (by decide) off)).imp fun data hdata => ?_
  obtain ⟨hpba, hgen, hhash⟩ := hdata
  simp only [type1NodeFromBlockData, hpba, hgen, hhash, Option.bind_eq_bind, Option.bind_some]

/-- An entry of the second type. -/
theorem writes_type2Node (off : ℕ) {node : Type2Node} (hnode : node.InRange) :
    Writes off (off + nodeStorageSizeBytes) (fun buf => blockDataFromType2Node buf off node)
      fun data => type2NodeFromBlockData data off = some node := by
  have hwalk : Writes off (off + 37) (fun buf => blockDataFromType2Node buf off node) _ :=
    (writes_unsigned _ 8 hnode.pba).bind <|
    (writes_leafs _ hnode.lastVba).bind <|
    (writes_unsigned _ 8 hnode.allocGen).bind <|
    (writes_unsigned _ 8 hnode.freeGen).bind <|
    (writes_unsigned _ 4 hnode.lastKeyId).bind <|
    writes_boolean _ node.reserved
  refine (hwalk.mono (Nat.add_le_add_left (by decide) off)).imp fun data hdata => ?_
  obtain ⟨hpba, hvba, halloc, hfree, hkey, hres⟩ := hdata
  simp only [type2NodeFromBlockData, hpba, hvba, halloc, hfree, hkey, hres, Option.bind_eq_bind,
    Option.bind_some]

/-- A node block of which each entry is read back. -/
theorem writes_nodeBlock {put : BlockBuffer → ℕ → α → Option BlockBuffer}
    {get : BlockData → ℕ → Option α} (invalid : α) {nodes : Fin nodesPerBlock → α}
    (h : ∀ (off : ℕ) (i : Fin nodesPerBlock), Writes off (off + nodeStorageSizeBytes)
      (fun buf => put buf off (nodes i)) fun data => get data off = some (nodes i)) :
    Writes 0 blockSizeBytes (fun buf => (List.finRange nodesPerBlock).foldlM
        (fun buf i => put buf (i.val * nodeStorageSizeBytes) (nodes i)) buf)
      fun data => nodeBlockFromBlockData get invalid data = some nodes := by
  have hloop := Writes.foldlM 0 fun i => h (0 + i.val * nodeStorageSizeBytes) i
  simp only [Nat.zero_add] at hloop
  exact Writes.imp hloop fun data hdata => foldlM_update _ hdata

/-! ## The ranges of the entries

Which bytes of a block an entry takes. -/

/-- The bytes that an entry of the first type takes: offset and width of the
block address, the generation and the hash. -/
def type1NodeRanges (off : ℕ) : List (ℕ × ℕ) :=
  [(off, 8), (off + 8, 8), (off + 8 + 8, hashSizeBytes)]

/-- The bytes that an entry of the second type takes: the block address, the
virtual block address, the two generations, the key identifier and the mark of
a reserved block. -/
def type2NodeRanges (off : ℕ) : List (ℕ × ℕ) :=
  [(off, 8), (off + 8, 8), (off + 8 + 8, 8), (off + 8 + 8 + 8, 8), (off + 8 + 8 + 8 + 8, 4),
    (off + 8 + 8 + 8 + 8 + 4, 1)]

/-- The ranges of all entries of a node block. -/
def nodeBlockRanges (nodeRanges : ℕ → List (ℕ × ℕ)) : List (ℕ × ℕ) :=
  (List.finRange nodesPerBlock).flatMap fun i => nodeRanges (i.val * nodeStorageSizeBytes)

/-- The ranges of an entry of the first type. -/
theorem blockDataFromType1Node_ranges {buf buf' : BlockBuffer} {off : ℕ} {node : Type1Node}
    (h : blockDataFromType1Node buf off node = some buf') :
    buf'.ranges = buf.ranges ++ type1NodeRanges off := by
  simp only [blockDataFromType1Node, Option.bind_eq_bind, Option.bind_eq_some_iff] at h
  obtain ⟨buf₁, hpba, buf₂, hgen, hhash⟩ := h
  rw [(Buffer.write_eq_some hhash).2.2, Buffer.writeUnsigned_ranges hgen,
    Buffer.writeUnsigned_ranges hpba, leBytes_length]
  simp [type1NodeRanges]

/-- The ranges of an entry of the second type. -/
theorem blockDataFromType2Node_ranges {buf buf' : BlockBuffer} {off : ℕ} {node : Type2Node}
    (h : blockDataFromType2Node buf off node = some buf') :
    buf'.ranges = buf.ranges ++ type2NodeRanges off := by
  simp only [blockDataFromType2Node, Option.bind_eq_bind, Option.bind_eq_some_iff] at h
  obtain ⟨buf₁, hpba, buf₂, hvba, buf₃, halloc, buf₄, hfree, buf₅, hkey, hres⟩ := h
  rw [(Buffer.write_eq_some hres).2.2, Buffer.writeUnsigned_ranges hkey,
    Buffer.writeUnsigned_ranges hfree, Buffer.writeUnsigned_ranges halloc,
    Buffer.writeUnsigned_ranges hvba, Buffer.writeUnsigned_ranges hpba]
  simp [type2NodeRanges]

/-- The ranges of a node block, over those of one entry. -/
theorem blockDataFromNodeBlock_ranges {put : BlockBuffer → ℕ → α → Option BlockBuffer}
    {nodeRanges : ℕ → List (ℕ × ℕ)}
    (h : ∀ buf off node buf', put buf off node = some buf' →
      buf'.ranges = buf.ranges ++ nodeRanges off)
    {nodes : Fin nodesPerBlock → α} {buf : BlockBuffer}
    (hbuf : blockDataFromNodeBlock put nodes = some buf) :
    buf.ranges = nodeBlockRanges nodeRanges := by
  have hstep : ∀ (buf : BlockBuffer) (i : Fin nodesPerBlock) (buf' : BlockBuffer),
      put buf (i.val * nodeStorageSizeBytes) (nodes i) = some buf' →
        buf'.ranges = buf.ranges ++ nodeRanges (i.val * nodeStorageSizeBytes) :=
    fun buf i buf' => h buf _ (nodes i) buf'
  rw [ranges_foldlM hstep _ hbuf]
  rfl

/-! ## The round trip of a node block

All entries together, and the block that a decoded node would be encoded as. -/

/-- **A node block makes the round trip**: it is encoded and decoded without a
raise, the decoder returns it, and what the decoder returns is encoded as the
same block. The 64 entries take the ranges that belong to their fields, none of
which overlap, each within the bytes of its entry. -/
structure NodeBlockRoundTrips (encode : (Fin nodesPerBlock → α) → Option BlockBuffer)
    (decode : BlockData → Option (Fin nodesPerBlock → α)) (nodeRanges : ℕ → List (ℕ × ℕ))
    (nodes : Fin nodesPerBlock → α) (buf : BlockBuffer) : Prop where
  /-- The entries are encoded as this block. -/
  encoded : encode nodes = some buf
  /-- The block is decoded as these entries. -/
  decoded : decode buf.data = some nodes
  /-- The block is what the decoded entries are encoded as. -/
  again : ∀ nodes', decode buf.data = some nodes' → (encode nodes').map Buffer.data = some buf.data
  /-- The fields lie where the layout has them. -/
  ranges : buf.ranges = nodeBlockRanges nodeRanges
  /-- No two of them overlap. -/
  disjoint : (nodeBlockRanges nodeRanges).Pairwise fun r s => r.1 + r.2 ≤ s.1
  /-- Each is within the bytes of its entry. -/
  inEntry : ∀ i : Fin nodesPerBlock, ∀ r ∈ nodeRanges (i.val * nodeStorageSizeBytes),
    i.val * nodeStorageSizeBytes ≤ r.1 ∧ r.1 + r.2 ≤ (i.val + 1) * nodeStorageSizeBytes
  /-- All of them lie in the block. -/
  inBlock : ∀ r ∈ buf.ranges, r.1 + r.2 ≤ blockSizeBytes

/-- The round trip of a node block, over the procedures for one entry. -/
theorem NodeBlockRoundTrips.of_writes {put : BlockBuffer → ℕ → α → Option BlockBuffer}
    {get : BlockData → ℕ → Option α} (invalid : α) {nodeRanges : ℕ → List (ℕ × ℕ)}
    {nodes : Fin nodesPerBlock → α}
    (h : ∀ (off : ℕ) (i : Fin nodesPerBlock), Writes off (off + nodeStorageSizeBytes)
      (fun buf => put buf off (nodes i)) fun data => get data off = some (nodes i))
    (hranges : ∀ buf off node buf', put buf off node = some buf' →
      buf'.ranges = buf.ranges ++ nodeRanges off)
    (hentry : ∀ off, ∀ r ∈ nodeRanges off, off ≤ r.1 ∧ r.1 + r.2 ≤ off + nodeStorageSizeBytes) :
    ∃ buf, NodeBlockRoundTrips (blockDataFromNodeBlock put) (nodeBlockFromBlockData get invalid)
      nodeRanges nodes buf := by
  have hwrites := writes_nodeBlock invalid h
  have hsome := hwrites.isSome (le_refl _) (Buffer.zeros blockSizeBytes)
  obtain ⟨buf, hbuf⟩ := Option.isSome_iff_exists.mp hsome
  have hdecoded := hwrites.content _ _ hbuf buf.data fun _ _ _ => rfl
  have hbufRanges : buf.ranges = nodeBlockRanges nodeRanges :=
    blockDataFromNodeBlock_ranges hranges hbuf
  obtain ⟨new, hnew, hasc⟩ := hwrites.ranges _ _ hbuf
  have heq : buf.ranges = new := hnew
  refine ⟨buf, hbuf, hdecoded, fun nodes' hnodes' => ?_, hbufRanges, ?_, fun i r hr => ?_,
    fun r hr => ?_⟩
  · rw [hdecoded] at hnodes'
    rw [← Option.some.inj hnodes']
    exact congrArg (Option.map Buffer.data) hbuf
  · rw [← hbufRanges, heq]
    exact hasc.pairwise
  · rw [Nat.succ_mul]
    exact hentry _ r hr
  · rw [heq] at hr
    exact (hasc.mem hr).2

/-- Every field of an entry of the first type lies within its 64 bytes. -/
theorem type1NodeRanges_mem {off : ℕ} {r : ℕ × ℕ} (hr : r ∈ type1NodeRanges off) :
    off ≤ r.1 ∧ r.1 + r.2 ≤ off + nodeStorageSizeBytes := by
  unfold type1NodeRanges at hr
  simp only [List.mem_cons, List.not_mem_nil, or_false] at hr
  rcases hr with rfl | rfl | rfl <;> simp only [hashSizeBytes, nodeStorageSizeBytes] <;> omega

/-- Every field of an entry of the second type lies within its 64 bytes. -/
theorem type2NodeRanges_mem {off : ℕ} {r : ℕ × ℕ} (hr : r ∈ type2NodeRanges off) :
    off ≤ r.1 ∧ r.1 + r.2 ≤ off + nodeStorageSizeBytes := by
  unfold type2NodeRanges at hr
  simp only [List.mem_cons, List.not_mem_nil, or_false] at hr
  rcases hr with rfl | rfl | rfl | rfl | rfl | rfl <;> simp only [nodeStorageSizeBytes] <;> omega

/-- **Node blocks of the first type** make the round trip. -/
theorem type1NodeBlock_roundtrip {nodes : Type1NodeBlock} (h : ∀ i, (nodes i).InRange) :
    ∃ buf, NodeBlockRoundTrips blockDataFromType1NodeBlock type1NodeBlockFromBlockData
      type1NodeRanges nodes buf :=
  NodeBlockRoundTrips.of_writes type1NodeInvalid (fun off i => writes_type1Node off (h i))
    (fun _ _ _ _ => blockDataFromType1Node_ranges) fun _ _ => type1NodeRanges_mem

/-- **Node blocks of the second type** make the round trip. -/
theorem type2NodeBlock_roundtrip {nodes : Type2NodeBlock} (h : ∀ i, (nodes i).InRange) :
    ∃ buf, NodeBlockRoundTrips blockDataFromType2NodeBlock type2NodeBlockFromBlockData
      type2NodeRanges nodes buf :=
  NodeBlockRoundTrips.of_writes type2NodeInvalid (fun off i => writes_type2Node off (h i))
    (fun _ _ _ _ => blockDataFromType2Node_ranges) fun _ _ => type2NodeRanges_mem

/-- **The codecs of the node blocks**: every block of entries whose fields lie
in their types makes the round trip. -/
theorem nodeBlocks_roundTrip {t1 : Type1NodeBlock} {t2 : Type2NodeBlock}
    (h1 : ∀ i, (t1 i).InRange) (h2 : ∀ i, (t2 i).InRange) :
    (∃ buf, NodeBlockRoundTrips blockDataFromType1NodeBlock type1NodeBlockFromBlockData
        type1NodeRanges t1 buf)
      ∧ ∃ buf, NodeBlockRoundTrips blockDataFromType2NodeBlock type2NodeBlockFromBlockData
        type2NodeRanges t2 buf :=
  ⟨type1NodeBlock_roundtrip h1, type2NodeBlock_roundtrip h2⟩

/-- Node blocks with the highest values of the types make the round trip. -/
theorem nodeBlocks_roundTrip_last :
    (∃ buf, NodeBlockRoundTrips blockDataFromType1NodeBlock type1NodeBlockFromBlockData
        type1NodeRanges (fun i => {
          pba := i
          gen := 2 ^ 64 - 1
          hash := 2 ^ 256 - 1 }) buf)
      ∧ ∃ buf, NodeBlockRoundTrips blockDataFromType2NodeBlock type2NodeBlockFromBlockData
        type2NodeRanges (fun i => {
          pba := i
          lastVba := treeMaxNumberOfLeafs
          allocGen := 2 ^ 64 - 1
          freeGen := 2 ^ 64 - 1
          lastKeyId := 2 ^ 32 - 1
          reserved := true }) buf :=
  nodeBlocks_roundTrip
    (fun i => ⟨lt_trans i.isLt (by decide), show 2 ^ 64 - 1 < 2 ^ 64 by decide⟩)
    fun i => ⟨lt_trans i.isLt (by decide), le_refl treeMaxNumberOfLeafs,
      show 2 ^ 64 - 1 < 2 ^ 64 by decide, show 2 ^ 64 - 1 < 2 ^ 64 by decide,
      show 2 ^ 32 - 1 < 2 ^ 32 by decide⟩

end Cbe
