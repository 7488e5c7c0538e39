import Cbe.FreeTree

/-!
# The virtual block device

How a request reaches the data block of a virtual block address. The
translation walks the tree of a snapshot from the root down and checks the
hash of every inner node block; the entry it arrives at names the data block.
A read then decrypts that block, a write hands the walk to the next stages:
the blocks of the walk that may not be changed in place are exchanged at the
free tree (`executeScd`), the write-back writes the encrypted data and the
branch above it from the bottom up (`writeBackUpTo`), and the superblock takes
over the new root (`writebackCompleted`).

An `Option` is `none` where the source raises, waits for ever or completes the
request without success.
-/

namespace Cbe

variable {P : Platform}

/-! ## Translation

From the root of the snapshot to the leaf, with the hash of each inner node
checked. -/

/-- **`Translation.Execute`**, from a level downwards: check the block of the
node at hand and look up its child. The translation waits for ever at an
address that is `PBA_Invalid`. -/
def translate (s : Store P) (degree vba : ℕ) : ℕ → Type1NodeWalk → Option Type1NodeWalk
  | 0, walk => if (walk 0).pba = pbaInvalid then none else some walk
  | lvl + 1, walk =>
    if (walk (lvl + 1)).pba = pbaInvalid then none
    else if P.hash (s.blocks (walk (lvl + 1)).pba) ≠ (walk (lvl + 1)).hash then none
    else
      translate s degree vba lvl
        (Function.update walk lvl
          (s.type1NodeBlock (walk (lvl + 1)).pba (childIdxForVba vba (lvl + 1) degree)))

/-- `Translation.Submit_Primitive` and the walk that results. -/
def translateSnapshot (s : Store P) (degree : ℕ) (snap : Snapshot) (vba : ℕ) :
    Option Type1NodeWalk :=
  translate s degree vba snap.maxLevel
    (Function.update (fun _ => type1NodeInvalid) snap.maxLevel snap.root)

/-- The slot that a request for a snapshot id goes to: 0 stands for the
current snapshot. -/
def snapSlotIdx (sb : Superblock) (snapId : ℕ) : Option SnapshotsIndex :=
  if snapId = 0 then some sb.currSnap else snapSlotForId sb.snapshots snapId

/-- **The key of a virtual block address**, as `Virtual_Block_Device` selects
it: the previous one from the rekeying position on. -/
def selectedKeyId (sb : Superblock) (vba : ℕ) : ℕ :=
  if sb.state = .rekeying ∧ sb.rekeyingVba ≤ vba then sb.previousKey.id
  else sb.currentKey.id

/-- What the entry of a leaf reads as: zeros when it was never written,
otherwise its block after the hash check, decrypted. -/
def readLeaf (s : Store P) (leaf : Type1Node) (keyId : ℕ) : Option P.Block :=
  if leaf.gen = 0 then some P.zero
  else if P.hash (s.blocks leaf.pba) ≠ leaf.hash then none
  else some (P.decrypt keyId (s.blocks leaf.pba))

/-- **A read** of one block through the snapshot of an id. An address behind the
last one fails; a snapshot without leaves has no last address and the library
raises. -/
def readVba (s : Store P) (sb : Superblock) (snapId vba : ℕ) : Option P.Block :=
  (snapSlotIdx sb snapId).bind fun slot =>
    if (sb.snapshots slot).nrOfLeafs ≤ vba then none
    else
      (translateSnapshot s sb.degree (sb.snapshots slot) vba).bind fun walk =>
        readLeaf s (walk 0) (selectedKeyId sb vba)

/-! ## Writes

The levels that may not be changed in place get new blocks, and the branch is
written from the bottom up. -/

/-- `Max_VBA`. The current snapshot has leaves where it is asked for. -/
def maxVba (sb : Superblock) : ℕ := if sb.Valid then sb.curr.nrOfLeafs - 1 else 0

/-- The test of `Execute_SCD` for a node of the walk: may it be changed in
place? -/
def changedInPlace (walk : Type1NodeWalk) (maxLevel currGen lvl : ℕ) : Prop :=
  if lvl = maxLevel then (walk lvl).gen = 0 ∨ (walk lvl).gen = currGen
  else (walk lvl).gen = currGen ∨ (lvl = 0 ∧ (walk lvl).gen = 0)

instance (walk : Type1NodeWalk) (maxLevel currGen lvl : ℕ) :
    Decidable (changedInPlace walk maxLevel currGen lvl) := by
  unfold changedInPlace
  infer_instance

/-- `SCD_New_PBAs`: the blocks of the nodes that are changed in place. -/
def scdNewPbas (walk : Type1NodeWalk) (maxLevel currGen : ℕ) : NewPbas := fun lvl =>
  if lvl ≤ maxLevel ∧ changedInPlace walk maxLevel currGen lvl then (walk lvl).pba else 0

/-- `SCD_New_Blocks`: how many nodes need a new block. -/
def scdNewBlocks (walk : Type1NodeWalk) (maxLevel currGen : ℕ) : ℕ :=
  ((List.range (maxLevel + 1)).filter fun lvl =>
    ¬ changedInPlace walk maxLevel currGen lvl).length

/-- The pools a request for blocks works on: the free tree under the root in
the superblock and what the meta tree will hand out. -/
structure Pools where
  freeRoot : Type1Node
  freeTree : FtNode
  metaPbas : List ℕ

/-- The root of the free tree, as the superblock records it. -/
def Superblock.freeRoot (sb : Superblock) : Type1Node :=
  { pba := sb.freeNumber, gen := sb.freeGen, hash := sb.freeHash }

/-- `SB.Free_Hash`, `SB.Free_Number` and `SB.Free_Gen` take over a root. -/
def Superblock.setFreeRoot (sb : Superblock) (root : Type1Node) : Superblock :=
  { sb with freeNumber := root.pba, freeGen := root.gen, freeHash := root.hash }

/-- The request of a write to the free tree. -/
def scdRequest (sb : Superblock) (currGen : ℕ) (walk : Type1NodeWalk) (vba : ℕ) :
    AllocRequest where
  currentGen := currGen
  freeGen := currGen
  requestedBlocks := scdNewBlocks walk sb.curr.maxLevel currGen
  oldBlocks := walk
  maxLevel := sb.curr.maxLevel
  tag := .poolVbd
  vba := vba
  vbdDegree := sb.degree
  vbdHighestVba := maxVba sb
  rekeying := decide (sb.state = .rekeying)
  previousKeyId := sb.previousKey.id
  currentKeyId := sb.currentKey.id
  rekeyingVba := sb.rekeyingVba
  activeSnaps := sb.snapshots
  lastSecuredGen := sb.lastSecuredGeneration

/-- **`Execute_SCD`**: the blocks that the branch is written to. It raises
when the walk does not start at the root of the current snapshot; the free
tree is asked only when a node needs a new block. -/
def executeScd (P : Platform) (sb : Superblock) (currGen : ℕ) (walk : Type1NodeWalk)
    (vba : ℕ) (free : FtNode) (metaPbas : List ℕ) : Option (Allocation P) :=
  if (walk sb.curr.maxLevel).pba ≠ sb.curr.pba then none
  else if 0 < scdNewBlocks walk sb.curr.maxLevel currGen then
    allocate P (scdRequest sb currGen walk vba) (scdNewPbas walk sb.curr.maxLevel currGen)
      sb.freeRoot free metaPbas
  else
    some {
      newPbas := scdNewPbas walk sb.curr.maxLevel currGen
      root := sb.freeRoot
      tree := free
      metaPbas := metaPbas
      writes := [] }

/-- **`Write_Back`**, from the leaf up to a level: the encrypted data, then
the branch. A node is the block at its old address with the child on the
branch replaced. The module finds a level by the old address of its node, so
it never completes when two levels have the same one. The result is the store
and the hash of the block written last. -/
def writeBackUpTo (s : Store P) (degree vba gen keyId : ℕ) (data : P.Block)
    (walk : Type1NodeWalk) (newPbas : NewPbas) (maxLevel : ℕ) : ℕ → Option (Store P × Hash)
  | 0 =>
    let cipher := P.encrypt keyId data
    some (s.write (newPbas 0) cipher, P.hash cipher)
  | lvl + 1 =>
    (writeBackUpTo s degree vba gen keyId data walk newPbas maxLevel lvl).bind
      fun (s, hash) =>
        if ((List.range' 1 maxLevel).find? fun l => (walk l).pba = (walk (lvl + 1)).pba)
            ≠ some (lvl + 1) then none
        else
          let blk := P.blockDataFromType1NodeBlock
            (Function.update (s.type1NodeBlock (walk (lvl + 1)).pba)
              (childIdxForVba vba (lvl + 1) degree)
              { pba := newPbas lvl, gen := gen, hash := hash })
          some (s.write (newPbas (lvl + 1)) blk, P.hash blk)

/-- **The end of `Execute_Writeback`**: the first write in a generation moves
the current snapshot to a new slot, and the current snapshot takes over the
new root. It raises when no slot is left. -/
def writebackCompleted (sb : Superblock) (currGen pba : ℕ) (hash : Hash) :
    Option Superblock :=
  (if sb.curr.gen < currGen then
    (idxOfAnyInvalidSnap sb.snapshots).map fun i =>
      { sb with
        snapshots := Function.update sb.snapshots i
          { sb.curr with gen := currGen, keep := false }
        currSnap := i }
  else some sb).map fun sb =>
    sb.setCurr { sb.curr with gen := currGen, pba := pba, hash := hash }

/-- A snapshot goes to a slot and becomes the current one. -/
def Superblock.putCurr (sb : Superblock) (slot : SnapshotsIndex) (snap : Snapshot) :
    Superblock :=
  { sb with
    currSnap := slot
    snapshots := Function.update sb.snapshots slot snap }

theorem Superblock.putCurr_snapshots_self (sb : Superblock) (slot : SnapshotsIndex)
    (snap : Snapshot) : (sb.putCurr slot snap).snapshots slot = snap :=
  Function.update_self _ _ _

theorem Superblock.putCurr_snapshots_of_ne (sb : Superblock) {slot i : SnapshotsIndex}
    (snap : Snapshot) (hi : i ≠ slot) :
    (sb.putCurr slot snap).snapshots i = sb.snapshots i := Function.update_of_ne hi _ _

/-- The slot of the current snapshot after a write. -/
def writtenSlot (sb : Superblock) (currGen : ℕ) : Option SnapshotsIndex :=
  if sb.curr.gen < currGen then idxOfAnyInvalidSnap sb.snapshots else some sb.currSnap

/-- The current snapshot after a write. -/
def writtenSnapshot (sb : Superblock) (currGen pba : ℕ) (hash : Hash) : Snapshot :=
  { sb.curr with
    gen := currGen
    keep := if sb.curr.gen < currGen then false else sb.curr.keep
    pba := pba
    hash := hash }

/-- **What the end of a write does to the superblock.** -/
theorem writebackCompleted_spec {sb sb' : Superblock} {currGen pba : ℕ} {hash : Hash}
    (h : writebackCompleted sb currGen pba hash = some sb') :
    ∃ slot, writtenSlot sb currGen = some slot
      ∧ sb' = sb.putCurr slot (writtenSnapshot sb currGen pba hash) := by
  unfold writebackCompleted at h
  unfold writtenSlot writtenSnapshot Superblock.putCurr
  by_cases hlt : sb.curr.gen < currGen
  · simp only [hlt, if_true] at h ⊢
    obtain ⟨sb₁, hsb₁, rfl⟩ := Option.map_eq_some_iff.mp h
    obtain ⟨slot, hslot, rfl⟩ := Option.map_eq_some_iff.mp hsb₁
    refine ⟨slot, hslot, ?_⟩
    simp [Superblock.setCurr, Superblock.curr, Function.update_idem]
  · simp only [hlt, if_false, Option.map_some, Option.some.injEq] at h ⊢
    obtain rfl := h
    exact ⟨sb.currSnap, rfl, rfl⟩

/-- What a write leaves behind. -/
structure WriteResult (P : Platform) where
  sb : Superblock
  store : Store P
  free : FtNode
  freeWrites : List (ℕ × P.Block)

/-- **A write** of one block through the current snapshot. -/
def writeVba (s : Store P) (sb : Superblock) (currGen : ℕ) (free : FtNode)
    (metaPbas : List ℕ) (vba : ℕ) (data : P.Block) : Option (WriteResult P) :=
  if sb.curr.nrOfLeafs ≤ vba then none
  else
    (translateSnapshot s sb.degree sb.curr vba).bind fun walk =>
      (executeScd P sb currGen walk vba free metaPbas).bind fun res =>
        (writeBackUpTo s sb.degree vba currGen sb.currentKey.id data walk res.newPbas
            sb.curr.maxLevel sb.curr.maxLevel).bind fun (s, hash) =>
          (writebackCompleted (sb.setFreeRoot res.root) currGen
              (res.newPbas sb.curr.maxLevel) hash).map fun sb =>
            { sb := sb, store := s, free := res.tree, freeWrites := res.writes }

/-- **What a write does**, stage by stage. -/
theorem writeVba_spec {s : Store P} {sb : Superblock} {currGen : ℕ} {free : FtNode}
    {metaPbas : List ℕ} {vba : ℕ} {data : P.Block} {res : WriteResult P}
    (h : writeVba s sb currGen free metaPbas vba data = some res) :
    ∃ walk alloc s' hash slot, vba < sb.curr.nrOfLeafs
      ∧ translateSnapshot s sb.degree sb.curr vba = some walk
      ∧ executeScd P sb currGen walk vba free metaPbas = some alloc
      ∧ writeBackUpTo s sb.degree vba currGen sb.currentKey.id data walk alloc.newPbas
          sb.curr.maxLevel sb.curr.maxLevel = some (s', hash)
      ∧ writtenSlot sb currGen = some slot
      ∧ res = {
          sb := (sb.setFreeRoot alloc.root).putCurr slot
            (writtenSnapshot sb currGen (alloc.newPbas sb.curr.maxLevel) hash)
          store := s'
          free := alloc.tree
          freeWrites := alloc.writes } := by
  unfold writeVba at h
  split_ifs at h with hvba
  obtain ⟨walk, hwalk, h⟩ := Option.bind_eq_some_iff.mp h
  obtain ⟨alloc, halloc, h⟩ := Option.bind_eq_some_iff.mp h
  obtain ⟨⟨s', hash⟩, hwrite, h⟩ := Option.bind_eq_some_iff.mp h
  obtain ⟨sb', hsb', rfl⟩ := Option.map_eq_some_iff.mp h
  obtain ⟨slot, hslot, rfl⟩ := writebackCompleted_spec hsb'
  exact ⟨walk, alloc, s', hash, slot, not_le.mp hvba, hwalk, halloc, hwrite, hslot, rfl⟩

end Cbe
