import Cbe.InitImage
import Cbe.FreshTrees
import Cbe.FreeTreeConservation
import Cbe.Support.TreeLayout

/-!
# The trees of an image

The device works on blocks of its platform, the init library writes bytes. A
platform *encodes* the bytes when its node blocks are those of the codec and its
hash is that of the bytes (`Platform.Encodes`).

On such a platform the tree of the virtual block device that an initializer
built is laid out in the blocks that the device sees (`laid_of_build`): all its
entries have the generation 0, and the blocks of its inner nodes have the hash
that is recorded. The leaves of the free tree are the stock of the device, one
for each leaf that was asked for (`stocked_of_build`).

Both trees come from the same maker, but the device looks at them differently.
The tree of the virtual block device stays in the blocks, and a read goes down
it; the free tree is read as a whole into a value with its entries at the
leaves. For the first one it is enough to know of each node where it is and what
its block contains. For the second one the order of the leaves matters, since
the addresses in the stock have to be different: they were handed out one after
the other, so the list of them is sorted (`Stocks`).
-/

namespace Cbe

open LevelScan BottomUp RadixTree ByteWalk

variable {P : Platform} {sha : BlockData → Hash} {load : BlockData → P.Block}

/-- **The platform encodes the bytes on the disk**, which it sees through `load`. -/
structure Platform.Encodes (P : Platform) (sha : BlockData → Hash) (load : BlockData → P.Block) :
    Prop where
  /-- It encodes the blocks of the tree as the disk has them. -/
  type1 : ∀ nodes, (∀ i, (nodes i).InRange) →
    P.blockDataFromType1NodeBlock nodes = load (NodeKind.type1.dataOf nodes)
  /-- It encodes the lowest blocks of the free tree as the disk has them. -/
  type2 : ∀ nodes, (∀ i, (nodes i).InRange) →
    P.blockDataFromType2NodeBlock nodes = load (NodeKind.type2.dataOf nodes)
  /-- It hashes a block as the disk has it. -/
  hash : ∀ data, P.hash (load data) = sha data

/-- A node block that was encoded is read back. -/
theorem Platform.Encodes.read (h : P.Encodes sha load) {nodes : Fin nodesPerBlock → Type1Node}
    (hrange : ∀ i, (nodes i).InRange) :
    P.type1NodeBlockFromBlockData (load (NodeKind.type1.dataOf nodes)) = nodes := by
  rw [← h.type1 nodes hrange, P.type1_roundtrip]

/-- The values of a node block fit in their fields. -/
def Type1NodeBlock.Fits (nodes : Type1NodeBlock) : Prop :=
  ∀ i, (nodes i).pba < 2 ^ 64 ∧ (nodes i).gen < 2 ^ 64

instance (nodes : Type1NodeBlock) : Decidable nodes.Fits :=
  inferInstanceAs (Decidable (∀ _, _ < _ ∧ _ < _))

/-- **A platform of bytes**, which encrypts nothing. Node blocks with values that do not fit in
their fields, which the source cannot have, are kept apart. -/
def Platform.ofBytes (sha : BlockData → Hash) : Platform where
  Block := BlockData ⊕ Type1NodeBlock
  zero := .inl fun _ => 0
  blockDataFromType1NodeBlock nodes :=
    if nodes.Fits then .inl (NodeKind.type1.dataOf nodes) else .inr nodes
  type1NodeBlockFromBlockData
    | .inl data => (NodeKind.type1.fromBlockData data).getD fun _ => type1NodeInvalid
    | .inr nodes => nodes
  type1_roundtrip nodes := by
    by_cases hfits : nodes.Fits
    · have hread : NodeKind.type1.fromBlockData (NodeKind.type1.dataOf nodes) = some nodes :=
        type1_decode fun i => ⟨(hfits i).1, (hfits i).2⟩
      rw [if_pos hfits]
      dsimp only
      rw [hread]
      rfl
    · rw [if_neg hfits]
  blockDataFromType2NodeBlock nodes := .inl (NodeKind.type2.dataOf nodes)
  blockDataFromSuperblock sb :=
    .inl (((blockDataFromSuperblockCiphertext sb).map Buffer.data).getD fun _ => 0)
  hash
    | .inl data => sha data
    | .inr _ => 0
  encrypt _ x := x
  decrypt _ x := x
  decrypt_encrypt _ _ := rfl
  encryptKey k := k
  decryptKey k := k
  decryptKey_encryptKey _ := rfl

/-- It encodes the bytes. -/
theorem Platform.ofBytes_encodes (sha : BlockData → Hash) :
    (Platform.ofBytes sha).Encodes sha Sum.inl where
  type1 _ hrange := if_pos fun i => ⟨(hrange i).pba, (hrange i).gen⟩
  type2 _ _ := rfl
  hash _ := rfl

/-- The last child has its place in a node block. -/
theorem TreeGeometry.Admitted.degree_sub_lt {geo : TreeGeometry} (h : geo.Admitted) :
    geo.degree - 1 < nodesPerBlock :=
  lt_of_lt_of_le (Nat.sub_lt h.degree.1 Nat.one_pos) h.degree.2

/-! ## The tree of the virtual block device

The maker puts a node at an address, with the hash of the block that it writes
there. Read back, the block has the entries of the children. -/

/-- **The entries of a new tree**: the generation 0, and the hash of the block of a node. -/
def NewEntry (sha : BlockData → Hash) (disk : Disk) (l : ℕ) (node : Type1Node) : Prop :=
  node.gen = 0 ∧ (0 < l → sha (disk node.pba) = node.hash)

/-- What the initializer encodes is decoded by the platform. -/
theorem vbdInitializer_decodes (h : P.Encodes sha load) :
    (vbdInitializer.maker sha).Decodes Type1Node.pba
      (fun data => P.type1NodeBlockFromBlockData (load data)) Type1Node.InRange (2 ^ 64) where
  addr_noLeaf := rfl
  addr_noNode := rfl
  addr_leafAt _ := rfl
  addr_nodeAt _ _ := rfl
  noLeaf := type1NodeInvalid_inRange
  noNode := type1NodeInvalid_inRange
  leafAt _ ha := ⟨ha, show 0 < 2 ^ 64 by decide⟩
  nodeAt _ _ ha := ⟨ha, show 0 < 2 ^ 64 by decide⟩
  lowest _ := h.read
  upper _ := h.read

/-- The blocks of the device on a disk. -/
def Disk.store (P : Platform) (load : BlockData → P.Block) (disk : Disk) : Store P where
  blocks pba := load (disk pba)
  written := []

/-- **The tree that was built is laid out** in the blocks that the device sees. -/
theorem laid_of_build (h : P.Encodes sha load) {geo : TreeGeometry} (hadm : geo.Admitted)
    (hlevel : 1 ≤ geo.maxLvlIdx) {s : Stock BlockData} {disk : Disk}
    (hwithin : s.Within disk (2 ^ 64) (geo.build vbdInitializer sha s).2) :
    (geo.build vbdInitializer sha s).1.InRange
      ∧ Laid (disk.store P load).child Type1Node.pba geo.degree (NewEntry sha disk) geo.maxLvlIdx
        (geo.build vbdInitializer sha s).1 ⟨geo.nrOfLeafs, s.next⟩
        (geo.build vbdInitializer sha s).2.supply := by
  have hlaid := Maker.laidOut_make (vbdInitializer_decodes h) hadm.degree_sub_lt
    (C := NewEntry sha disk) (fun _ _ => ⟨rfl, fun _ => rfl⟩)
    (fun _ => ⟨rfl, fun hl => absurd hl (Nat.lt_irrefl 0)⟩) (geo.maxLvlIdx - 1)
    ⟨geo.nrOfLeafs, s.next, s.disk⟩ ⟨hwithin.pos, hwithin.le, hwithin.agrees⟩
  rw [Nat.sub_add_cancel hadm.degree.1, Nat.sub_add_cancel hlevel] at hlaid
  exact hlaid

/-! ## The stock of the free tree

The tree is read from the root down, and the stock is the list of the addresses
in its leaves. Along the same recursion the maker has placed them. -/

/-- **The free tree on a disk**, as the allocator reads it. The lowest nodes have level 0. -/
def freeTreeOn (disk : Disk) : ℕ → Type1Node → FtNode
  | 0, node => .leafs ((type2NodeBlockFromBlockData (disk node.pba)).getD fun _ =>
      type2NodeInvalid)
  | d + 1, node =>
    let nodes := (type1NodeBlockFromBlockData (disk node.pba)).getD fun _ => type1NodeInvalid
    .inner nodes fun i => freeTreeOn disk d (nodes i)

/-- **The addresses of the leaves that were placed** between two supplies, the last one
first. -/
structure Stocks (l : List ℕ) (s s' : Supply) : Prop where
  /-- The addresses are taken in turn. -/
  next : s.next ≤ s'.next
  /-- The list has the last one first. -/
  sorted : l.Pairwise (· > ·)
  /-- They are those between the two supplies. -/
  mem : ∀ a ∈ l, s.next ≤ a ∧ a < s'.next
  /-- There are as many as leaves were placed. -/
  length : l.length + s'.left = s.left

namespace Stocks

variable {l l' : List ℕ} {s s' s'' : Supply}

/-- Without leaves there are no addresses. -/
theorem nil (s : Supply) : Stocks [] s s :=
  ⟨le_rfl, List.Pairwise.nil, fun _ ha => absurd ha List.not_mem_nil, Nat.zero_add _⟩

/-- One part after the other. -/
theorem append (h : Stocks l s s') (h' : Stocks l' s' s'') : Stocks (l' ++ l) s s'' where
  next := h.next.trans h'.next
  sorted := List.pairwise_append.mpr ⟨h'.sorted, h.sorted, fun a ha b hb =>
    (h.mem b hb).2.trans_le (h'.mem a ha).1⟩
  mem a ha := by
    rcases List.mem_append.mp ha with ha | ha
    · exact ⟨h.next.trans (h'.mem a ha).1, (h'.mem a ha).2⟩
    · exact ⟨(h.mem a ha).1, (h.mem a ha).2.trans_le h'.next⟩
  length := by
    rw [List.length_append, Nat.add_right_comm, h'.length, ← h.length, Nat.add_comm]

/-- The parts of the children of a node, from the last one to the first. -/
theorem flatMap {f : ℕ → List ℕ} {c : ℕ → Supply} {k : ℕ}
    (h : ∀ i < k, Stocks (f i) (c i) (c (i + 1))) :
    Stocks ((List.range k).reverse.flatMap f) (c 0) (c k) := by
  induction k with
  | zero => exact nil _
  | succ k ih =>
    rw [List.range_succ, List.reverse_append, List.reverse_singleton, List.singleton_append,
      List.flatMap_cons]
    exact (ih fun i hi => h i (Nat.lt_succ_of_lt hi)).append (h k (Nat.lt_succ_self k))

end Stocks

/-- The addresses in the stock, child by child. -/
def childParts {α : Type} (part : α → List ℕ) (nodes : Fin nodesPerBlock → α) : List ℕ :=
  (List.finRange nodesPerBlock).reverse.flatMap fun i => part (nodes i)

/-- The stock of several parts is that of each. -/
theorem stockPbas_flatMap {ι : Type} (is : List ι) (f : ι → List Type2Node) :
    stockPbas (is.flatMap f) = is.flatMap fun i => stockPbas (f i) := by
  unfold stockPbas
  rw [List.filter_flatMap, List.map_flatMap]

/-- The address of an entry that holds a block. -/
def leafPart (leaf : Type2Node) : List ℕ := if leaf.pba ≠ 0 then [leaf.pba] else []

/-- The addresses in the stock below a node. -/
def nodePart (disk : Disk) (d : ℕ) (node : Type1Node) : List ℕ :=
  if node.pba ≠ 0 then stockPbas (freeTreeOn disk d node).entries else []

/-- The stock is made of the entries that hold a block. -/
theorem stockPbas_eq_flatMap (es : List Type2Node) : stockPbas es = es.flatMap leafPart := by
  induction es with
  | nil => rfl
  | cons e es ih =>
    rw [List.flatMap_cons, ← ih]
    unfold stockPbas leafPart
    by_cases he : e.pba = 0
    · rw [List.filter_cons_of_neg (by simp [he]), if_neg (not_not.mpr he), List.nil_append]
    · rw [List.filter_cons_of_pos (by simp [he]), if_pos he]
      rfl

/-- The children that are in use, one after the other. -/
theorem flatMap_populateLowerNStack (nodes : Type1NodeBlock)
    (f : Fin nodesPerBlock → List ℕ) :
    (populateLowerNStack nodes).flatMap f
      = (List.finRange nodesPerBlock).reverse.flatMap fun i =>
          if (nodes i).pba ≠ 0 then f i else [] := by
  unfold populateLowerNStack
  rw [← List.filter_reverse]
  generalize (List.finRange nodesPerBlock).reverse = is
  induction is with
  | nil => rfl
  | cons i is ih =>
    by_cases hi : (nodes i).pba = 0
    · rw [List.filter_cons_of_neg (by simp [hi]), List.flatMap_cons, ih,
        if_neg (not_not.mpr hi), List.nil_append]
    · rw [List.filter_cons_of_pos (by simp [hi]), List.flatMap_cons, List.flatMap_cons, ih,
        if_pos hi]

section

variable {disk : Disk} {node : Type1Node}

/-- A node of the lowest level is read as its entries. -/
theorem freeTreeOn_zero {nodes : Fin nodesPerBlock → Type2Node}
    (hread : type2NodeBlockFromBlockData (disk node.pba) = some nodes) :
    freeTreeOn disk 0 node = .leafs nodes := by
  rw [freeTreeOn, hread]
  rfl

/-- A node above is read with its children. -/
theorem freeTreeOn_succ {nodes : Fin nodesPerBlock → Type1Node} {d : ℕ}
    (hread : type1NodeBlockFromBlockData (disk node.pba) = some nodes) :
    freeTreeOn disk (d + 1) node = .inner nodes fun i => freeTreeOn disk d (nodes i) := by
  rw [freeTreeOn, hread]
  rfl

/-- The stock below a node of the lowest level. -/
theorem nodePart_zero {nodes : Fin nodesPerBlock → Type2Node} (hpba : node.pba ≠ 0)
    (hread : type2NodeBlockFromBlockData (disk node.pba) = some nodes) :
    nodePart disk 0 node = childParts leafPart nodes := by
  unfold nodePart childParts
  rw [if_pos hpba, freeTreeOn_zero hread, FtNode.entries, stockPbas_eq_flatMap,
    ← List.map_reverse, List.flatMap_map]

/-- And below one of a level above. -/
theorem nodePart_succ {nodes : Fin nodesPerBlock → Type1Node} {d : ℕ} (hpba : node.pba ≠ 0)
    (hread : type1NodeBlockFromBlockData (disk node.pba) = some nodes) :
    nodePart disk (d + 1) node = childParts (nodePart disk d) nodes := by
  have hentries : (freeTreeOn disk (d + 1) node).entries
      = (populateLowerNStack nodes).flatMap fun i => (freeTreeOn disk d (nodes i)).entries := by
    rw [freeTreeOn_succ hread, FtNode.entries]
  unfold nodePart childParts
  rw [if_pos hpba, hentries, stockPbas_flatMap, flatMap_populateLowerNStack]

/-- The tree below a node in use has the hashes that are recorded. -/
def NodeHashed (P : Platform) (disk : Disk) (d : ℕ) (node : Type1Node) : Prop :=
  node.pba ≠ 0 → (freeTreeOn disk d node).Hashed P node

/-- An entry of the free tree is read: its values are in the range, its part of the stock is
what was placed, and what is below it has its hash. -/
def Stocked {α : Type} (disk : Disk) (inRange : α → Prop) (part : α → List ℕ) (ok : α → Prop)
    (x : α) (s s' : Stock BlockData) : Prop :=
  s.Within disk (2 ^ 64) s' → inRange x ∧ Stocks (part x) s.supply s'.supply ∧ ok x

/-- The parts of the children of a node that was built. -/
theorem Stocks.children {α : Type} {part : α → List ℕ} {none' : α} (hnone : part none' = [])
    {m : ℕ} (hm : m < nodesPerBlock) {f : Stock BlockData → α × Stock BlockData}
    {nodes : Fin nodesPerBlock → α} {c : ℕ → Stock BlockData}
    (hchildren : Children disk (2 ^ 64) m f none' nodes c)
    (h : ∀ i : Fin nodesPerBlock, i.val ≤ m →
      Stocks (part (nodes i)) (c i).supply (c (i + 1)).supply) :
    Stocks (childParts part nodes) (c 0).supply (c (m + 1)).supply := by
  have hval : List.range nodesPerBlock = (List.finRange nodesPerBlock).map Fin.val :=
    List.ext_getElem (by simp) fun i h h' => by simp
  have hparts : childParts part nodes = (List.range nodesPerBlock).reverse.flatMap fun i =>
      part (nodes (Fin.ofNat nodesPerBlock i)) := by
    unfold childParts
    rw [hval, ← List.map_reverse, List.flatMap_map]
    refine congrArg (List.flatMap · _) (funext fun i => ?_)
    rw [show Fin.ofNat nodesPerBlock i.val = i from Fin.ext (Nat.mod_eq_of_lt i.isLt)]
  rw [hparts]
  -- behind the last child nothing is taken
  have hlast := Stocks.flatMap (k := nodesPerBlock) (c := fun i => (c (min i (m + 1))).supply)
    (f := fun i => part (nodes (Fin.ofNat nodesPerBlock i))) fun i hi => by
      have hi' : Fin.ofNat nodesPerBlock i = ⟨i, hi⟩ := Fin.ext (Nat.mod_eq_of_lt hi)
      rw [hi']
      rcases Nat.lt_or_ge m i with hlt | hge
      · rw [hchildren.beyond ⟨i, hi⟩ hlt, hnone, Nat.min_eq_right (Nat.succ_le_of_lt hlt),
          Nat.min_eq_right (Nat.succ_le_of_lt (Nat.lt_succ_of_lt hlt))]
        exact .nil _
      · rw [Nat.min_eq_left (Nat.le_succ_of_le hge), Nat.min_eq_left (Nat.succ_le_succ hge)]
        exact h ⟨i, hi⟩ hge
  rwa [Nat.zero_min, Nat.min_eq_right (Nat.succ_le_of_lt hm)] at hlast

/-- **A node of the free tree** is read. -/
theorem stocked_makeNode {α : Type} (h : P.Encodes sha load) {inRange : α → Prop}
    {part : α → List ℕ} {ok : α → Prop} {d m : ℕ} (hm : m < nodesPerBlock)
    {f : Stock BlockData → α × Stock BlockData} {block : (Fin nodesPerBlock → α) → BlockData}
    {none' : α} {below : Stock BlockData → BlockData × Stock BlockData}
    (hbelow : ∀ s, below s = (block (each (fun _ _ => f) (childIdxs nodesPerBlock m)
        (fun _ => none') s).1,
      (each (fun _ _ => f) (childIdxs nodesPerBlock m) (fun _ => none') s).2))
    (hgrows : ∀ s : Stock BlockData, s.Grows (f s).2)
    (hnone : inRange none' ∧ part none' = [] ∧ ok none')
    (hpart : ∀ (node : Type1Node) nodes, node.pba ≠ 0 → (∀ i, inRange (nodes i)) →
      disk node.pba = block nodes → nodePart disk d node = childParts part nodes)
    (hhash : ∀ (node : Type1Node) nodes, (∀ i, inRange (nodes i)) → (∀ i, ok (nodes i)) →
      disk node.pba = block nodes → P.hash (load (disk node.pba)) = node.hash →
      (freeTreeOn disk d node).Hashed P node)
    (hf : ∀ s, Stocked disk inRange part ok (f s).1 s (f s).2) (s : Stock BlockData) :
    Stocked disk Type1Node.InRange (nodePart disk d) (NodeHashed P disk d)
      ((freeTreeInitializer.maker sha).makeNode below s).1 s
      ((freeTreeInitializer.maker sha).makeNode below s).2 := by
  intro hwithin
  by_cases hleft : s.left = 0
  · rw [Maker.makeNode, if_pos hleft]
    refine ⟨type1NodeInvalid_inRange, ?_, fun hpba => absurd rfl hpba⟩
    exact .nil _
  obtain ⟨nodes, c, rfl, hchildren, hpos, hlt, hat, hroot, hsupply⟩ :=
    (freeTreeInitializer.maker sha).makeNode_spec hbelow hgrows hm hleft hwithin
  have hchild : ∀ i : Fin nodesPerBlock, i.val ≤ m → inRange (nodes i)
      ∧ Stocks (part (nodes i)) (c i).supply (c (i + 1)).supply ∧ ok (nodes i) := fun i hi => by
    have hi' := hf (c i)
    rw [hchildren.made i hi] at hi'
    exact hi' (hchildren.within i hi)
  have hall : ∀ i, inRange (nodes i) ∧ ok (nodes i) := fun i => by
    rcases Nat.lt_or_ge m i.val with hi | hi
    · rw [hchildren.beyond i hi]
      exact ⟨hnone.1, hnone.2.2⟩
    · exact ⟨(hchild i hi).1, (hchild i hi).2.2⟩
  have hstocks := Stocks.children hnone.2.1 hm hchildren fun i hi => (hchild i hi).2.1
  rw [hroot, hsupply]
  refine ⟨⟨hlt, show 0 < 2 ^ 64 by decide⟩, ?_, fun _ => ?_⟩
  · rw [hpart _ nodes hpos.ne' (fun i => (hall i).1) hat]
    exact { hstocks with
      next := Nat.le_succ_of_le hstocks.next
      mem := fun a ha => ⟨(hstocks.mem a ha).1, Nat.lt_succ_of_lt (hstocks.mem a ha).2⟩ }
  · exact hhash _ nodes (fun i => (hall i).1) (fun i => (hall i).2) hat (h.hash _)

/-- A leaf of the free tree. -/
theorem stocked_makeLeaf (sha : BlockData → Hash) (s : Stock BlockData) :
    Stocked disk Type2Node.InRange leafPart (fun _ => True)
      ((freeTreeInitializer.maker sha).makeLeaf s).1 s
      ((freeTreeInitializer.maker sha).makeLeaf s).2 := by
  intro hwithin
  by_cases hleft : s.left = 0
  · rw [Maker.makeLeaf, if_pos hleft]
    exact ⟨freeTreeInitializer_readsBack.invalidInRange, .nil _, trivial⟩
  · rw [Maker.makeLeaf, if_neg hleft] at hwithin ⊢
    refine ⟨freeTreeInitializer_readsBack.leafInRange _ hwithin.le, ?_, trivial⟩
    have hpart : leafPart ((freeTreeInitializer.maker sha).leafAt s.next) = [s.next] :=
      if_pos hwithin.pos.ne'
    rw [hpart]
    exact {
      next := Nat.le_succ _
      sorted := List.pairwise_singleton _ _
      mem := fun a ha => by
        obtain rfl := List.mem_singleton.mp ha
        exact ⟨le_rfl, Nat.lt_succ_self _⟩
      length := Nat.add_sub_cancel' (Nat.one_le_iff_ne_zero.mpr hleft) }

/-- **The free tree that was built** is read. -/
theorem stocked_make (h : P.Encodes sha load) {m : ℕ} (hm : m < nodesPerBlock) (d : ℕ)
    (s : Stock BlockData) :
    Stocked disk Type1Node.InRange (nodePart disk d) (NodeHashed P disk d)
      ((freeTreeInitializer.maker sha).make m d s).1 s
      ((freeTreeInitializer.maker sha).make m d s).2 := by
  induction d generalizing s with
  | zero =>
    refine stocked_makeNode h hm (fun _ => rfl) (Maker.grows_makeLeaf _)
      ⟨freeTreeInitializer_readsBack.invalidInRange, rfl, trivial⟩
      (fun node nodes hpba hrange hat => ?_) (fun node nodes hrange _ hat hhash => ?_)
      (stocked_makeLeaf sha) s
    · have hread : type2NodeBlockFromBlockData (disk node.pba) = some nodes := by
        rw [hat]
        exact type2_decode hrange
      exact nodePart_zero hpba hread
    · have hread : type2NodeBlockFromBlockData (disk node.pba) = some nodes := by
        rw [hat]
        exact type2_decode hrange
      rw [freeTreeOn_zero hread]
      show P.hash (P.blockDataFromType2NodeBlock nodes) = node.hash
      rw [h.type2 nodes hrange, ← hhash, hat]
      rfl
  | succ d ih =>
    refine stocked_makeNode h hm (fun _ => rfl) (Maker.grows_make _ m d)
      ⟨type1NodeInvalid_inRange, rfl, fun hpba => absurd rfl hpba⟩
      (fun node nodes hpba hrange hat => ?_) (fun node nodes hrange hok hat hhash => ?_) ih s
    · have hread : type1NodeBlockFromBlockData (disk node.pba) = some nodes := by
        rw [hat]
        exact type1_decode hrange
      exact nodePart_succ hpba hread
    · have hread : type1NodeBlockFromBlockData (disk node.pba) = some nodes := by
        rw [hat]
        exact type1_decode hrange
      rw [freeTreeOn_succ hread]
      refine ⟨?_, hok⟩
      show P.hash (P.blockDataFromType1NodeBlock nodes) = node.hash
      rw [h.type1 nodes hrange, ← hhash, hat]
      rfl

/-- **The stock that was built**: the addresses of the leaves, all different and in the range
that was taken, and as many as were asked for. -/
theorem stocked_of_build (h : P.Encodes sha load) {geo : TreeGeometry} (hadm : geo.Admitted)
    (hfits : geo.Fits) (hlevel : 1 ≤ geo.maxLvlIdx) (hleafs : 0 < geo.nrOfLeafs)
    {s : Stock BlockData} (hwithin : s.Within disk (2 ^ 64)
      (geo.build freeTreeInitializer sha s).2) :
    (geo.build freeTreeInitializer sha s).1.InRange
      ∧ Stocks (stockPbas (freeTreeOn disk (geo.maxLvlIdx - 1)
          (geo.build freeTreeInitializer sha s).1).entries)
        ⟨geo.nrOfLeafs, s.next⟩ ⟨0, (geo.build freeTreeInitializer sha s).2.next⟩
      ∧ (freeTreeOn disk (geo.maxLvlIdx - 1) (geo.build freeTreeInitializer sha s).1).Hashed P
        (geo.build freeTreeInitializer sha s).1 := by
  obtain ⟨hrange, hstocks, hhashed⟩ := stocked_make h hadm.degree_sub_lt
    (geo.maxLvlIdx - 1) ⟨geo.nrOfLeafs, s.next, s.disk⟩
    ⟨hwithin.pos, hwithin.le, hwithin.agrees⟩
  have hleft := Maker.left_make (freeTreeInitializer.maker sha) hadm.degree_sub_lt
    (geo.maxLvlIdx - 1) ⟨geo.nrOfLeafs, s.next, s.disk⟩
  rw [Nat.sub_add_cancel hadm.degree.1, Nat.sub_add_cancel hlevel,
    Nat.sub_eq_zero_of_le hfits] at hleft
  -- the root is in use, because something was placed below it
  have hpba : (geo.build freeTreeInitializer sha s).1.pba ≠ 0 := fun hzero => by
    have hnil : nodePart disk (geo.maxLvlIdx - 1) (geo.build freeTreeInitializer sha s).1 = [] :=
      if_neg (not_not.mpr hzero)
    have hlength : (nodePart disk (geo.maxLvlIdx - 1)
        (geo.build freeTreeInitializer sha s).1).length
        + (geo.build freeTreeInitializer sha s).2.left = geo.nrOfLeafs := hstocks.length
    rw [hnil, show (geo.build freeTreeInitializer sha s).2.left = 0 from hleft] at hlength
    exact absurd hlength hleafs.ne
  have hpart : nodePart disk (geo.maxLvlIdx - 1) (geo.build freeTreeInitializer sha s).1
      = stockPbas (freeTreeOn disk (geo.maxLvlIdx - 1)
          (geo.build freeTreeInitializer sha s).1).entries := if_pos hpba
  refine ⟨hrange, ?_, hhashed hpba⟩
  rw [← hpart, ← hleft]
  exact hstocks

end

end Cbe
