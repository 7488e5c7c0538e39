import Cbe.WriteBack
import Cbe.Writing

/-!
# Runs of a write-back

Whatever the order of the library's loops and of the answers they wait for, a
write-back does what `writeBackUpTo` does: the stages of a run (`Stage`) say how
far it has come. Its result is the tree with a new path to the leaf
(`TreeUpdated`).

A failed primitive of the leaf ends the write-back with a failure. Nothing takes
the failure back, so that the next write-backs end with a failure as well,
whatever happens (`World.ends_iff`).

A write-back goes from the leaf to the root. The leaf is encrypted and written
to the device; then each node of the path is read at its old address, gets the
entry of its new child, and is written to its new address through the cache. The
library holds one object for the write-back and three primitives for the cache,
and its loops hand them to the modules whenever they are ready. Since the write
of a node need not be done when the write-back has gone on to the next level,
the blocks are compared as they will be once the cache has served its job
(`World.settled`).

The run is described in two layers. The cache part of the loop, which does not
know about the write-back, is at rest between two nodes (`AtRest`) or in one of
four phases of a node (`ReadPhase`). The stages of the write-back refer to it. A
step of the one part leaves the other alone, which is what the `congr` lemmas
say, and `InRun.step` puts the six kinds of steps together.
-/

namespace Cbe

variable {P : Platform}

namespace WriteBack

/-! ## The tree that is written

What the write-back is for: the tree of the snapshot under a new root, with new
nodes on the way to the address and everything else as it was. Two addresses
with the same child indices cannot be told apart by a walk down the tree, so the
other leaves are kept only if no other address goes the same way. -/

/-- The blocks without the record of what was written. -/
def storeOf (blocks : ℕ → P.Block) : Store P := { blocks := blocks, written := [] }

/-- Two addresses have the same way down to a level of a tree. -/
def SamePath (degree top lvl v w : ℕ) : Prop :=
  ∀ j, lvl ≤ j → j < top → childIdxForVba v (j + 1) degree = childIdxForVba w (j + 1) degree

/-- An address that a tree has no room for goes the way of its remainder. -/
theorem samePath_iff {degree top lvl v w : ℕ} (hd : DegreeAdmitted degree) (hl : lvl ≤ top) :
    SamePath degree top lvl v w
      ↔ sameNode degree lvl (v % treeRadix degree ^ top) (w % treeRadix degree ^ top) := by
  have hpos : 0 < treeRadix degree ^ top := Nat.pow_pos (treeRadix_pos degree)
  unfold SamePath sameNode
  rw [RadixTree.div_pow_eq_iff (Nat.mod_lt v hpos) (Nat.mod_lt w hpos) hl]
  refine forall_congr' fun j => forall_congr' fun _ => forall_congr' fun hj => ?_
  rw [childIdxForVba_eq_iff hd, RadixTree.digit_mod hj, RadixTree.digit_mod hj]

/-- The walk to an address is the one to its remainder. -/
theorem nodeAt_mod {s : Store P} {degree : ℕ} (snap : Snapshot) {v lvl : ℕ}
    (hl : lvl ≤ snap.maxLevel) :
    nodeAt s degree snap (v % treeRadix degree ^ snap.maxLevel) lvl = nodeAt s degree snap v lvl :=
  RadixTree.entryAt_digit_congr hl fun _ _ hj => RadixTree.digit_mod hj

/-- **The arguments fit the tree** of a snapshot: the walk is the way to the address,
no block is on it twice, and the new addresses differ from each other and are in the
tree at most at the node that they are for. No other virtual block has the new leaf. -/
structure Args.Fits (args : Args P) (degree : ℕ) (snap : Snapshot) (blocks : ℕ → P.Block) :
    Prop where
  /-- The degree is one of the type. -/
  admitted : DegreeAdmitted degree
  /-- There is a primitive. -/
  valid : args.prim.valid = true
  /-- It is one of the request pool. -/
  poolIdx : args.prim.poolIdxSlot ≠ none
  /-- The levels are those of the tree. -/
  maxLevel : args.n = snap.maxLevel
  /-- The root is not a leaf. -/
  inner : 1 ≤ snap.maxLevel
  /-- The address is one of the tree. -/
  vba : args.vba < snap.nrOfLeafs
  /-- The walk is the way to it. -/
  walk : ∀ l ≤ args.n, args.oldPbas l = nodeAt (storeOf blocks) degree snap args.vba l
  /-- No block is on it twice. -/
  walk_ne : ∀ l k, 1 ≤ l → l < k → k ≤ args.n → (args.oldPbas l).pba ≠ (args.oldPbas k).pba
  /-- The new addresses differ from each other. -/
  new_ne : ∀ l k, l < k → k ≤ args.n → args.newPbas l ≠ args.newPbas k
  /-- A new address is in the tree at most at the node that it is for. -/
  new_fresh : ∀ l ≤ args.n, ∀ k ≤ args.n, ∀ v < snap.nrOfLeafs,
    (nodeAt (storeOf blocks) degree snap v k).pba = args.newPbas l →
      k = l ∧ SamePath degree snap.maxLevel l v args.vba
  /-- No other virtual block has the new leaf. -/
  leaf_fresh : ∀ v < snap.nrOfLeafs,
    (nodeAt (storeOf blocks) degree snap v 0).pba = args.newPbas 0 → v = args.vba

/-- The snapshot with the new root. -/
def Args.newSnap (args : Args P) (snap : Snapshot) (root : ℕ) (hash : Hash) : Snapshot :=
  { snap with pba := root, gen := args.gen, hash := hash }

/-- The entry for the new node of a level: the new address and generation, and the
hash of the block as it is written. -/
def Args.newNode (args : Args P) (blocks : ℕ → P.Block) (l : ℕ) : Type1Node :=
  { pba := args.newPbas l, gen := args.gen, hash := P.hash (blocks (args.newPbas l)) }

/-- **The tree with a new path**: the leaf holds the encrypted data; the nodes on the
way to the address are the new ones, of the new generation and with the hash of their
block as it was written; the others are as before, and so are their blocks. -/
structure PathUpdated (args : Args P) (keyId degree : ℕ) (snap : Snapshot)
    (blocks blocks' : ℕ → P.Block) (root : ℕ) (hash : Hash) : Prop where
  /-- The leaf has the encrypted data. -/
  leaf : blocks' (args.newPbas 0) = P.encrypt keyId args.data
  /-- The nodes on the way to the address are the new ones. -/
  path : ∀ v < snap.nrOfLeafs, ∀ l ≤ snap.maxLevel,
    SamePath degree snap.maxLevel l v args.vba →
      nodeAt (storeOf blocks') degree (args.newSnap snap root hash) v l = args.newNode blocks' l
  /-- The others are as before, with their blocks. -/
  other : ∀ v < snap.nrOfLeafs, ∀ l ≤ snap.maxLevel,
    ¬ SamePath degree snap.maxLevel l v args.vba →
      nodeAt (storeOf blocks') degree (args.newSnap snap root hash) v l
          = nodeAt (storeOf blocks) degree snap v l
        ∧ blocks' (nodeAt (storeOf blocks) degree snap v l).pba
          = blocks (nodeAt (storeOf blocks) degree snap v l).pba

/-- **The tree with the leaf written**: every other address has the leaf that it had. -/
structure TreeUpdated (args : Args P) (keyId degree : ℕ) (snap : Snapshot)
    (blocks blocks' : ℕ → P.Block) (root : ℕ) (hash : Hash) : Prop
    extends PathUpdated args keyId degree snap blocks blocks' root hash where
  /-- Every other address has the leaf that it had, with its block. -/
  others : ∀ v < snap.nrOfLeafs, v ≠ args.vba →
    nodeAt (storeOf blocks') degree (args.newSnap snap root hash) v 0
        = nodeAt (storeOf blocks) degree snap v 0
      ∧ blocks' (nodeAt (storeOf blocks) degree snap v 0).pba
        = blocks (nodeAt (storeOf blocks) degree snap v 0).pba

/-- No other address of the tree has the child indices of the one written. -/
def Args.Alone (args : Args P) (degree : ℕ) (snap : Snapshot) : Prop :=
  ∀ v < snap.nrOfLeafs, SamePath degree snap.maxLevel 0 v args.vba → v = args.vba

/-- The write-back up to a level, from the blocks. -/
def upTo (args : Args P) (keyId degree : ℕ) (blocks : ℕ → P.Block) (lvl : ℕ) :
    Option (Store P × Hash) :=
  writeBackUpTo (storeOf blocks) degree args.vba args.gen keyId args.data args.oldPbas args.newPbas
    args.n lvl

/-- **What the write-back has done in the end.** -/
theorem pathUpdated_of_upTo {args : Args P} {keyId degree : ℕ} {snap : Snapshot}
    {blocks : ℕ → P.Block} (hfits : args.Fits degree snap blocks) {s : Store P} {hash : Hash}
    (h : upTo args keyId degree blocks args.n = some (s, hash)) :
    PathUpdated args keyId degree snap blocks s.blocks (args.newPbas args.n) hash := by
  have hmax := hfits.maxLevel
  have hpos : 0 < treeRadix degree ^ snap.maxLevel := Nat.pow_pos (treeRadix_pos degree)
  obtain ⟨-, hframe, hleaf, hinner, hhash⟩ := writeBackUpTo_spec h hfits.new_ne
    fun l k hlk hk heq => by
      rw [hfits.walk k hk] at heq
      exact absurd (hfits.new_fresh l (by omega) k hk args.vba hfits.vba heq.symm).1 (by omega)
  have hkept : ∀ v < snap.nrOfLeafs, ∀ l ≤ snap.maxLevel,
      ¬ SamePath degree snap.maxLevel l v args.vba →
      s.blocks (nodeAt (storeOf blocks) degree snap v l).pba
        = blocks (nodeAt (storeOf blocks) degree snap v l).pba := by
    intro v hv l hl hne
    refine hframe _ fun k hk heq => ?_
    obtain ⟨rfl, hsame⟩ := hfits.new_fresh k hk l (by omega) v hv heq
    exact hne hsame
  have hnode : ∀ v < snap.nrOfLeafs, ∀ l ≤ snap.maxLevel,
      nodeAt (storeOf s.blocks) degree (args.newSnap snap (args.newPbas args.n) hash) v l
        = if 0 ≤ l ∧ sameNode degree l (v % treeRadix degree ^ snap.maxLevel)
              (args.vba % treeRadix degree ^ snap.maxLevel) then args.newNode s.blocks l
          else nodeAt (storeOf blocks) degree snap v l := by
    intro v hv l hl
    have hlevel : (args.newSnap snap (args.newPbas args.n) hash).maxLevel = snap.maxLevel := rfl
    rw [← nodeAt_mod snap hl, ← nodeAt_mod (args.newSnap snap _ hash) (hl.trans_eq hlevel.symm),
      hlevel]
    refine nodeAt_of_path hfits.admitted hlevel ?_ (Nat.mod_lt args.vba hpos) (Nat.mod_lt v hpos)
      (Nat.zero_le _) (fun j _ hj => ?_) (fun h0 => absurd h0 (lt_irrefl 0))
      (fun j hj hjm hoff => ?_) hl
    · rw [← hmax, hhash]
      rfl
    · have hidx : childIdxForVba (args.vba % treeRadix degree ^ snap.maxLevel) (j + 1) degree
          = childIdxForVba args.vba (j + 1) degree :=
        (childIdxForVba_eq_iff hfits.admitted).mpr (RadixTree.digit_mod hj)
      show P.type1NodeBlockFromBlockData (s.blocks (args.newPbas (j + 1))) = _
      rw [hinner j (by omega), P.type1_roundtrip, hfits.walk (j + 1) (by omega), hidx,
        nodeAt_mod snap (by omega)]
      rfl
    · rw [nodeAt_mod snap hjm]
      exact hkept v hv j hjm fun hs => hoff ⟨Nat.zero_le j, (samePath_iff hfits.admitted hjm).mp hs⟩
  refine ⟨hleaf, fun v hv l hl hs => ?_, fun v hv l hl hs => ⟨?_, hkept v hv l hl hs⟩⟩
  · rw [hnode v hv l hl, if_pos ⟨Nat.zero_le l, (samePath_iff hfits.admitted hl).mp hs⟩]
  · rw [hnode v hv l hl, if_neg fun hc => hs ((samePath_iff hfits.admitted hl).mpr hc.2)]

/-- **Every other address keeps its leaf** exactly when none has the child
indices of the address that is written. The indices are those of the tree's
levels, so an address that the tree has no room for would go the way of another.
-/
theorem treeUpdated_iff {args : Args P} {keyId degree : ℕ} {snap : Snapshot}
    {blocks blocks' : ℕ → P.Block} {root : ℕ} {hash : Hash}
    (hfits : args.Fits degree snap blocks)
    (h : PathUpdated args keyId degree snap blocks blocks' root hash) :
    TreeUpdated args keyId degree snap blocks blocks' root hash ↔ args.Alone degree snap := by
  constructor
  · intro htree v hv hsame
    by_contra hne
    have hold := (htree.others v hv hne).1
    rw [h.path v hv 0 (Nat.zero_le _) hsame] at hold
    refine hne (hfits.leaf_fresh v hv ?_)
    rw [← hold]
    rfl
  · intro halone
    exact ⟨h, fun v hv hne => h.other v hv 0 (Nat.zero_le _) fun hs => hne (halone v hv hs)⟩

/-- The first level of a kind. -/
theorem find_level {n k : ℕ} {p : ℕ → Bool} (hk1 : 1 ≤ k) (hkn : k ≤ n)
    (hbelow : ∀ l, 1 ≤ l → l < k → p l = false) (hk : p k = true) :
    (List.range' 1 n).find? p = some k := by
  rw [List.find?_eq_some_iff_append]
  refine ⟨hk, List.range' 1 (k - 1), List.range' (k + 1) (n - k), ?_, fun l hl => ?_⟩
  · have happ : List.range' 1 (k - 1) 1 ++ List.range' (1 + 1 * (k - 1)) (n - k + 1) 1
        = List.range' 1 (k - 1 + (n - k + 1)) 1 := List.range'_append
    rw [show 1 + 1 * (k - 1) = k by omega, show k - 1 + (n - k + 1) = n by omega,
      List.range'_succ] at happ
    exact happ.symm
  · obtain ⟨hle, hlt⟩ := List.mem_range'_1.mp hl
    rw [hbelow l hle (by omega)]
    rfl

/-- The block that the next level gets. -/
def nodeBlock (args : Args P) (degree : ℕ) (s : Store P) (hash : Hash) (lvl : ℕ) : P.Block :=
  P.blockDataFromType1NodeBlock
    (Function.update (s.type1NodeBlock (args.oldPbas (lvl + 1)).pba)
      (childIdxForVba args.vba (lvl + 1) degree)
      { pba := args.newPbas lvl, gen := args.gen, hash := hash })

/-- The write-back goes on with the next level. -/
theorem upTo_succ {args : Args P} {keyId degree : ℕ} {snap : Snapshot} {blocks : ℕ → P.Block}
    (hfits : args.Fits degree snap blocks) {lvl : ℕ} (hlvl : lvl + 1 ≤ args.n) {s : Store P}
    {hash : Hash} (h : upTo args keyId degree blocks lvl = some (s, hash)) :
    upTo args keyId degree blocks (lvl + 1)
      = some (s.write (args.newPbas (lvl + 1)) (nodeBlock args degree s hash lvl),
        P.hash (nodeBlock args degree s hash lvl)) := by
  have hfind : (List.range' 1 args.n).find?
      (fun l => (args.oldPbas l).pba = (args.oldPbas (lvl + 1)).pba) = some (lvl + 1) :=
    find_level (by omega) hlvl
      (fun l h1 hl => decide_eq_false (hfits.walk_ne l (lvl + 1) h1 hl hlvl)) (decide_eq_true rfl)
  unfold upTo at h ⊢
  rw [writeBackUpTo, h, Option.bind_some]
  dsimp only
  rw [if_neg (not_not.mpr hfind)]
  rfl

/-! ## The cache part of the loop

The loop takes the next node from the write-back, reads its old block and the
block at its new address, has the node updated, and writes it. By then the
write-back has gone on to the next node; the loop takes it up when the write is
done. -/

/-- A read of the library has completed. -/
structure CachePrim.HasRead (p : CachePrim P) (pba : ℕ) : Prop where
  /-- It has come back. -/
  state : p.state = .complete
  /-- It was a read of the block. -/
  prim : p.prim.Equal (World.cachePrim .read pba)
  /-- It has succeeded. -/
  success : p.prim.success = true

namespace World

/-- The blocks as they will be when the cache has served its job. -/
def settled (w : World P) : ℕ → P.Block :=
  match w.cacheJob with
  | none => w.blocks
  | some (prim, blk) =>
    if prim.operation = .write then Function.update w.blocks prim.blockNumber blk else w.blocks

/-- No node is being updated. -/
structure Idle (w : World P) : Prop where
  /-- The library has no node to update. -/
  wbPrim : w.wbPrim.valid = false
  /-- Its first primitive is not in use. -/
  prim1 : w.cachePrim1.state = .invalid
  /-- The second is not. -/
  prim2 : w.cachePrim2.state = .invalid
  /-- The third is not. -/
  prim3 : w.cachePrim3.state = .invalid
  /-- The cache has nothing to do for it. -/
  job : w.cacheJob = none

/-- The write of the last node is still under way, or it was not noticed yet. -/
structure Writing (w : World P) : Prop where
  /-- The library has a node to update. -/
  wbPrim : w.wbPrim.valid = true
  /-- It has read the old block. -/
  prim1 : w.cachePrim1.HasRead w.wbPrim.blockNumber
  /-- It has read the new one. -/
  prim2 : w.cachePrim2.HasRead w.wbUpdatePba
  /-- It has written the new one, or the write is on its way. -/
  prim3 : (w.cachePrim3.state = .submitted ∧ w.cachePrim3.prim = cachePrim .write w.wbUpdatePba
      ∧ ∃ blk, w.cacheJob = some (cachePrim .write w.wbUpdatePba, blk))
    ∨ w.cachePrim3.state = .complete ∧ w.cachePrim3.prim.Equal (cachePrim .write w.wbUpdatePba)
      ∧ w.cacheJob = none

/-- Between two nodes. -/
def AtRest (w : World P) : Prop := w.Idle ∨ w.Writing

/-- Being at rest depends on the primitives and the job only. -/
theorem AtRest.congr {w w' : World P} (h : w.AtRest) (hprim : w'.wbPrim = w.wbPrim)
    (hpba : w'.wbUpdatePba = w.wbUpdatePba) (h1 : w'.cachePrim1 = w.cachePrim1)
    (h2 : w'.cachePrim2 = w.cachePrim2) (h3 : w'.cachePrim3 = w.cachePrim3)
    (hjob : w'.cacheJob = w.cacheJob) : w'.AtRest := by
  rcases h with h | h
  · left
    constructor
    · rw [hprim, h.wbPrim]
    · rw [h1, h.prim1]
    · rw [h2, h.prim2]
    · rw [h3, h.prim3]
    · rw [hjob, h.job]
  · right
    constructor
    · rw [hprim, h.wbPrim]
    · rw [h1, hprim]
      exact h.prim1
    · rw [h2, hpba]
      exact h.prim2
    · rw [h3, hpba, hjob]
      exact h.prim3

/-- Two worlds are the same for the write-back, and so are their blocks when the
cache part has come to rest. -/
structure SameNode (w w' : World P) : Prop where
  /-- The module is the same. -/
  obj : w'.obj = w.obj
  /-- So is the key. -/
  keyId : w'.keyId = w.keyId
  /-- So is the degree. -/
  degree : w'.degree = w.degree
  /-- So is what the encryption has. -/
  crypto : w'.crypto = w.crypto
  /-- So is what the block device has. -/
  io : w'.io = w.io
  /-- So is whether the leaf has failed. -/
  leafFailed : w'.leafFailed = w.leafFailed
  /-- So are the blocks once the cache has come to rest. -/
  settled : w'.settled = w.settled

/-- Two worlds are the same for the leaf as well: no job was added. -/
structure SameLeaf (w w' : World P) : Prop extends SameNode w w' where
  /-- The data is the same. -/
  wbData : w'.wbData = w.wbData
  /-- The cache has nothing new to do. -/
  job : ∀ job, w'.cacheJob = some job → w.cacheJob = some job

/-- A world is the same as itself. -/
theorem SameLeaf.refl (w : World P) : SameLeaf w w :=
  ⟨⟨rfl, rfl, rfl, rfl, rfl, rfl, rfl⟩, rfl, fun _ h => h⟩

/-- A write that is under way is done when the cache has served it. -/
theorem Writing.cacheCompleted_true {w : World P} (h : w.Writing) :
    ∃ w', w.cacheCompleted true = some w' ∧ w'.Writing ∧ w'.cachePrim3.state = .complete
      ∧ SameLeaf w w' := by
  rcases h.prim3 with ⟨hstate, hprim, blk, hjob⟩ | ⟨hstate, -, hjob⟩
  · refine ⟨{ w with
      cacheJob := none
      blocks := Function.update w.blocks w.wbUpdatePba blk
      cachePrim3 := w.cachePrim3.completed
        { cachePrim .write w.wbUpdatePba with success := true } (w.blocks w.wbUpdatePba) }, ?_,
      ⟨h.wbPrim, h.prim1, h.prim2, Or.inr ⟨rfl, ⟨rfl, rfl, rfl, rfl, rfl⟩, rfl⟩⟩, rfl,
      ⟨⟨rfl, rfl, rfl, rfl, rfl, rfl, ?_⟩, rfl, fun _ h => absurd h (by simp)⟩⟩
    · unfold World.cacheCompleted
      rw [hjob]
      dsimp only
      rw [if_neg (by decide), if_neg fun hc => absurd (h.prim1.state.symm.trans hc.1) (by decide),
        if_neg fun hc => absurd (h.prim2.state.symm.trans hc.1) (by decide),
        if_pos ⟨hstate, by rw [hprim]; exact ⟨rfl, rfl, rfl, rfl, rfl⟩⟩]
      rfl
    · unfold settled
      rw [hjob]
      rfl
  · refine ⟨w, ?_, h, hstate, SameLeaf.refl w⟩
    unfold World.cacheCompleted
    rw [hjob]

/-- The library takes an answer of the cache only when there is none to wait for, or
when it is a success. -/
theorem cacheCompleted_cases {w w' : World P} {success : Bool}
    (h : w.cacheCompleted success = some w') : w.cacheJob = none ∧ w' = w ∨ success = true := by
  unfold World.cacheCompleted at h
  cases hjob : w.cacheJob with
  | none =>
    rw [hjob] at h
    exact Or.inl ⟨rfl, (Option.some.inj h).symm⟩
  | some job =>
    rw [hjob] at h
    dsimp only at h
    rw [Option.ite_none_left_eq_some] at h
    exact Or.inr (Bool.eq_true_of_not_eq_false h.1)

/-- The answer to the write that is under way leaves the write-back alone. -/
theorem Writing.cacheCompleted {w w' : World P} (h : w.Writing) {success : Bool}
    (hstep : w.cacheCompleted success = some w') : w'.Writing ∧ SameLeaf w w' := by
  rcases cacheCompleted_cases hstep with ⟨-, rfl⟩ | rfl
  · exact ⟨h, SameLeaf.refl w'⟩
  · obtain ⟨w₁, hrun, hwriting, -, hsame⟩ := h.cacheCompleted_true
    obtain rfl := Option.some.inj (hrun.symm.trans hstep)
    exact ⟨hwriting, hsame⟩

/-- The loop goes on with the node that it has at hand. -/
theorem generatedCache_of_valid {w : World P} (h : w.wbPrim.valid = true)
    (h1 : w.cachePrim1.state ≠ .invalid) : w.generatedCache = w.cachePrims := by
  unfold World.generatedCache
  rw [if_pos h, Option.bind_some]
  dsimp only
  rw [if_neg (by rw [h]; decide), if_neg h1]
  rfl

/-- What the loop does when it has the old block. -/
theorem cachePrims_of_read1 {w : World P} (h1 : w.cachePrim1.HasRead w.wbPrim.blockNumber) :
    w.cachePrims
      = if w.cachePrim2.state = .invalid then
          some { w with
            cachePrim2 := { w.cachePrim2 with
              prim := cachePrim .read w.wbUpdatePba
              state := .submitted }
            cacheJob := some (cachePrim .read w.wbUpdatePba, w.cachePrim1.data) }
        else if w.cachePrim2.state ≠ .complete
            ∨ ¬ w.cachePrim2.prim.Equal (cachePrim .read w.wbUpdatePba) then some w
        else if w.cachePrim2.prim.success = false then none
        else if w.cachePrim3.state = .invalid then w.updateNode
        else if w.cachePrim3.state ≠ .complete
            ∨ ¬ w.cachePrim3.prim.Equal (cachePrim .write w.wbUpdatePba) then some w
        else some w.nodeWritten := by
  unfold cachePrims
  dsimp only
  rw [if_neg (by rw [h1.state]; decide),
    if_neg (not_or.mpr ⟨not_not.mpr h1.state, not_not.mpr h1.prim⟩),
    if_neg (by rw [h1.success]; decide)]

/-- What the loop does when it has both blocks. -/
theorem cachePrims_of_read {w : World P} (h1 : w.cachePrim1.HasRead w.wbPrim.blockNumber)
    (h2 : w.cachePrim2.HasRead w.wbUpdatePba) :
    w.cachePrims
      = if w.cachePrim3.state = .invalid then w.updateNode
        else if w.cachePrim3.state ≠ .complete
            ∨ ¬ w.cachePrim3.prim.Equal (cachePrim .write w.wbUpdatePba) then some w
        else some w.nodeWritten := by
  rw [cachePrims_of_read1 h1, if_neg (by rw [h2.state]; decide),
    if_neg (not_or.mpr ⟨not_not.mpr h2.state, not_not.mpr h2.prim⟩),
    if_neg (by rw [h2.success]; decide)]

/-- The loop waits for a write that is under way, and goes back to the beginning
after one that is done. -/
theorem Writing.generatedCache_eq {w : World P} (h : w.Writing) :
    w.generatedCache = some (if w.cachePrim3.state = .complete then w.nodeWritten else w) := by
  rw [generatedCache_of_valid h.wbPrim (by rw [h.prim1.state]; decide),
    cachePrims_of_read h.prim1 h.prim2]
  rcases h.prim3 with ⟨hstate, -, -⟩ | ⟨hstate, hequal, -⟩
  · rw [if_neg (by rw [hstate]; decide), if_pos (Or.inl (by rw [hstate]; decide)),
      if_neg (by rw [hstate]; decide)]
  · rw [if_neg (by rw [hstate]; decide),
      if_neg (not_or.mpr ⟨not_not.mpr hstate, not_not.mpr hequal⟩), if_pos hstate]

/-- The loop waits for the write, or begins anew after it: either way it is
between two nodes. -/
theorem Writing.generatedCache {w w' : World P} (h : w.Writing)
    (hstep : w.generatedCache = some w') : w'.AtRest ∧ SameLeaf w w' := by
  rw [h.generatedCache_eq] at hstep
  obtain rfl := Option.some.inj hstep
  split_ifs with hstate
  · have hjob : w.cacheJob = none := by
      rcases h.prim3 with ⟨hs, -, -⟩ | ⟨-, -, hjob⟩
      · exact absurd (hs.symm.trans hstate) (by decide)
      · exact hjob
    exact ⟨Or.inl ⟨rfl, rfl, rfl, rfl, hjob⟩,
      ⟨⟨rfl, rfl, rfl, rfl, rfl, rfl, rfl⟩, rfl, fun _ h => h⟩⟩
  · exact ⟨Or.inr h, SameLeaf.refl w⟩

/-- Between two nodes nothing depends on the order in which the cache part takes its
steps, as long as no node is next. -/
theorem AtRest.generatedCache {w w' : World P} (h : w.AtRest) (hstate : w.obj.state ≠ .cache)
    (hstep : w.generatedCache = some w') : w'.AtRest ∧ SameLeaf w w' := by
  rcases h with h | h
  · unfold World.generatedCache peekGeneratedCachePrimitive at hstep
    rw [if_neg (by rw [h.wbPrim]; decide), if_pos hstate, Option.bind_some] at hstep
    obtain rfl := Option.some.inj hstep
    exact ⟨Or.inl ⟨rfl, h.prim1, h.prim2, h.prim3, h.job⟩,
      ⟨⟨rfl, rfl, rfl, rfl, rfl, rfl, rfl⟩, rfl, fun _ h => h⟩⟩
  · exact h.generatedCache hstep

/-- An answer of the cache between two nodes leaves the write-back alone. -/
theorem AtRest.cacheCompleted {w w' : World P} (h : w.AtRest) {success : Bool}
    (hstep : w.cacheCompleted success = some w') : w'.AtRest ∧ SameLeaf w w' := by
  rcases h with h | h
  · unfold World.cacheCompleted at hstep
    rw [h.job] at hstep
    obtain rfl := Option.some.inj hstep
    exact ⟨Or.inl h, SameLeaf.refl w⟩
  · obtain ⟨hw, hsame⟩ := h.cacheCompleted hstep
    exact ⟨Or.inr hw, hsame⟩

end World

/-! ## The stages of a write-back

The object of the write-back has an entry for the leaf and one for each node,
and the entries are completed from the leaf up. The stage says which of them is
next and where its primitive is. -/

/-- The object has the arguments of a write-back. -/
structure Holds (obj : WriteBack) (args : Args P) : Prop where
  /-- The primitive. -/
  prim : obj.pendingPrimitive = args.prim
  /-- The generation. -/
  gen : obj.newGeneration = args.gen
  /-- The virtual block address. -/
  vba : obj.vba = args.vba
  /-- The level of the root. -/
  levels : obj.levels = args.n
  /-- The old address of each level. -/
  pba : ∀ lvl ≤ args.n, (obj.entries lvl).pba = (args.oldPbas lvl).pba
  /-- The new address of each level. -/
  updatePba : ∀ lvl ≤ args.n, (obj.entries lvl).updatePba = args.newPbas lvl
  /-- Every level above the leaf is one for the cache. -/
  tag : ∀ lvl, 1 ≤ lvl → lvl ≤ args.n → (obj.entries lvl).tag = .cache

/-- The arguments are kept when only the states and the tag of the leaf change. -/
theorem Holds.congr {obj obj' : WriteBack} {args : Args P} (h : Holds obj args)
    (hprim : obj'.pendingPrimitive = obj.pendingPrimitive)
    (hgen : obj'.newGeneration = obj.newGeneration) (hvba : obj'.vba = obj.vba)
    (hlevels : obj'.levels = obj.levels)
    (hentries : ∀ lvl, (obj'.entries lvl).pba = (obj.entries lvl).pba
      ∧ (obj'.entries lvl).updatePba = (obj.entries lvl).updatePba
      ∧ (1 ≤ lvl → (obj'.entries lvl).tag = (obj.entries lvl).tag)) : Holds obj' args where
  prim := hprim.trans h.prim
  gen := hgen.trans h.gen
  vba := hvba.trans h.vba
  levels := hlevels.trans h.levels
  pba := fun lvl hl => (hentries lvl).1.trans (h.pba lvl hl)
  updatePba := fun lvl hl => (hentries lvl).2.1.trans (h.updatePba lvl hl)
  tag := fun lvl h1 hl => ((hentries lvl).2.2 h1).trans (h.tag lvl h1 hl)

/-- Only the state of an entry changes. -/
theorem setEntryState_entries (obj : WriteBack) (k : ℕ) (state : WriteBackEntryState) (lvl : ℕ) :
    ((obj.setEntryState k state).entries lvl).pba = (obj.entries lvl).pba
      ∧ ((obj.setEntryState k state).entries lvl).updatePba = (obj.entries lvl).updatePba
      ∧ (1 ≤ lvl → ((obj.setEntryState k state).entries lvl).tag = (obj.entries lvl).tag) := by
  unfold setEntryState
  dsimp only
  rw [Function.update_apply]
  split_ifs with hl
  · rw [hl]
    exact ⟨rfl, rfl, fun _ => rfl⟩
  · exact ⟨rfl, rfl, fun _ => rfl⟩

/-- The entry has the new state. -/
theorem setEntryState_self (obj : WriteBack) (k : ℕ) (state : WriteBackEntryState) :
    ((obj.setEntryState k state).entries k).state = state := by
  unfold setEntryState
  dsimp only
  rw [Function.update_self]

/-- The other entries are as they were. -/
theorem setEntryState_of_ne (obj : WriteBack) {k lvl : ℕ} (state : WriteBackEntryState)
    (h : lvl ≠ k) : (obj.setEntryState k state).entries lvl = obj.entries lvl :=
  Function.update_of_ne h _ _

/-- The arguments do not depend on the states of the entries. -/
theorem Holds.setEntryState {obj : WriteBack} {args : Args P} (h : Holds obj args) (k : ℕ)
    (state : WriteBackEntryState) : Holds (obj.setEntryState k state) args :=
  h.congr rfl rfl rfl rfl fun lvl => setEntryState_entries obj k state lvl

/-- **Where the leaf is**: with the write-back, with the encryption, with the
write-back again, and with the block device. -/
inductive LeafStage (args : Args P) (w : World P) : Prop
  | crypto (hstate : w.obj.state = .crypto) (hentry : (w.obj.entries 0).state = .pending)
      (htag : (w.obj.entries 0).tag = .encrypt) (hdata : w.wbData = args.data)
      (hcrypto : w.crypto = none) (hio : w.io = none)
  | cryptoBusy (hstate : w.obj.state = .crypto) (hentry : (w.obj.entries 0).state = .inProgress)
      (prim : IoPrimitive) (hprim : prim.blockNumber = args.newPbas 0)
      (hcrypto : w.crypto = some (prim, args.data)) (hio : w.io = none)
  | io (hstate : w.obj.state = .io) (hentry : (w.obj.entries 0).state = .pending)
      (htag : (w.obj.entries 0).tag = .io) (hdata : w.wbData = P.encrypt w.keyId args.data)
      (hhash : w.obj.hashes 0 = P.hash (P.encrypt w.keyId args.data))
      (hcrypto : w.crypto = none) (hio : w.io = none)
  | ioBusy (hstate : w.obj.state = .io) (hentry : (w.obj.entries 0).state = .inProgress)
      (hhash : w.obj.hashes 0 = P.hash (P.encrypt w.keyId args.data))
      (prim : IoPrimitive) (hprim : prim.blockNumber = args.newPbas 0)
      (hcrypto : w.crypto = none) (hio : w.io = some (prim, P.encrypt w.keyId args.data))

/-- The reads of a node: each is under way, or has delivered its block. -/
inductive ReadPhase where
  | read1
  | have1
  | read2
  | have2

/-- **Where the update of a node is.** -/
inductive Reading (args : Args P) (s : Store P) (k : ℕ) (w : World P) : ReadPhase → Prop
  | read1 (hprim1 : w.cachePrim1.state = .submitted)
      (hequal : w.cachePrim1.prim = World.cachePrim .read w.wbPrim.blockNumber)
      (hprim2 : w.cachePrim2.state = .invalid) (hprim3 : w.cachePrim3.state = .invalid)
      (blk : P.Block)
      (hjob : w.cacheJob = some (World.cachePrim .read w.wbPrim.blockNumber, blk)) :
      Reading args s k w .read1
  | have1 (hprim1 : w.cachePrim1.HasRead w.wbPrim.blockNumber)
      (hdata : w.cachePrim1.data = s.blocks (args.oldPbas k).pba)
      (hprim2 : w.cachePrim2.state = .invalid) (hprim3 : w.cachePrim3.state = .invalid)
      (hjob : w.cacheJob = none) : Reading args s k w .have1
  | read2 (hprim1 : w.cachePrim1.HasRead w.wbPrim.blockNumber)
      (hdata : w.cachePrim1.data = s.blocks (args.oldPbas k).pba)
      (hprim2 : w.cachePrim2.state = .submitted)
      (hequal : w.cachePrim2.prim = World.cachePrim .read w.wbUpdatePba)
      (hprim3 : w.cachePrim3.state = .invalid) (blk : P.Block)
      (hjob : w.cacheJob = some (World.cachePrim .read w.wbUpdatePba, blk)) :
      Reading args s k w .read2
  | have2 (hprim1 : w.cachePrim1.HasRead w.wbPrim.blockNumber)
      (hdata : w.cachePrim1.data = s.blocks (args.oldPbas k).pba)
      (hprim2 : w.cachePrim2.HasRead w.wbUpdatePba)
      (hdata2 : w.cachePrim2.data = s.blocks (args.newPbas k))
      (hprim3 : w.cachePrim3.state = .invalid) (hjob : w.cacheJob = none) :
      Reading args s k w .have2

/-- The library updates the node of a level. -/
structure Updating (args : Args P) (s : Store P) (k : ℕ) (phase : ReadPhase) (w : World P) :
    Prop where
  /-- There is a node to update. -/
  valid : w.wbPrim.valid = true
  /-- It is that of the level. -/
  pba : w.wbPrim.blockNumber = (args.oldPbas k).pba
  /-- It goes to the new address of the level. -/
  updatePba : w.wbUpdatePba = args.newPbas k
  /-- The reads have come so far. -/
  reading : Reading args s k w phase

/-- The entries of the inner nodes up to a level are complete, the others are
pending. -/
def CompleteBelow (obj : WriteBack) (args : Args P) (k : ℕ) : Prop :=
  ∀ lvl, 1 ≤ lvl → lvl ≤ args.n →
    (obj.entries lvl).state = if lvl < k then .complete else .pending

/-- **The nodes up to a level are written**, the node of that level is next. -/
structure NodeStage (args : Args P) (keyId degree : ℕ) (blocks : ℕ → P.Block) (flag : Bool)
    (k : ℕ) (s : Store P) (w : World P) : Prop where
  /-- The level is above the leaf. -/
  one_le : 1 ≤ k
  /-- It is one of the tree. -/
  le : k ≤ args.n
  /-- The write-back has come to the nodes. -/
  state : w.obj.state = .cache
  /-- The encryption has nothing any more. -/
  crypto : w.crypto = none
  /-- The block device has nothing any more. -/
  io : w.io = none
  /-- The levels below are complete. -/
  entries : CompleteBelow w.obj args k
  /-- They are written, and their hash is known. -/
  upTo_eq : upTo args keyId degree blocks (k - 1) = some (s, w.obj.hashes (k - 1))
  /-- The blocks are those that were written. -/
  settled : w.settled = s.blocks
  /-- Whether something has failed is as at the beginning. -/
  flag_eq : w.obj.pendingFailure = flag
  /-- The leaf has not failed. -/
  leafFailed : w.leafFailed = false

/-- **How far a write-back has come**: the leaf is written, then one node after
the other; or it is complete, with the work done or with a failure. The flag is
a failure that was noted before the write-back began. -/
inductive Stage (args : Args P) (keyId degree : ℕ) (blocks : ℕ → P.Block) (flag : Bool)
    (w : World P) : Prop
  | leaf (hleaf : LeafStage args w) (hentries : CompleteBelow w.obj args 1) (hrest : w.AtRest)
      (hsettled : w.settled = blocks)
      (hapart : ∀ job, w.cacheJob = some job → job.1.blockNumber ≠ args.newPbas 0)
      (hflag : w.obj.pendingFailure = flag) (hfailed : w.leafFailed = false)
  | node (k : ℕ) (s : Store P) (hnode : NodeStage args keyId degree blocks flag k s w)
      (hcache : w.AtRest ∨ ∃ phase, Updating args s k phase w)
  | done (hstate : w.obj.state = .complete) (hcrypto : w.crypto = none) (hio : w.io = none)
      (s : Store P) (hup : upTo args keyId degree blocks args.n = some (s, w.obj.hashes args.n))
      (hsettled : w.settled = s.blocks) (hrest : w.AtRest) (hflag : w.obj.pendingFailure = flag)
      (hfailed : w.leafFailed = false)
  | failed (hstate : w.obj.state = .complete) (hcrypto : w.crypto = none) (hio : w.io = none)
      (hrest : w.AtRest) (hflag : w.obj.pendingFailure = true) (hfailed : w.leafFailed = true)

/-- **A write-back is under way** in a world. -/
structure InRun (args : Args P) (keyId degree : ℕ) (blocks : ℕ → P.Block) (flag : Bool)
    (w : World P) : Prop where
  /-- The module has the arguments. -/
  holds : Holds w.obj args
  /-- The key is the same. -/
  key_eq : w.keyId = keyId
  /-- So is the degree. -/
  degree_eq : w.degree = degree
  /-- It is at one of the stages. -/
  stage : Stage args keyId degree blocks flag w

/-! ## The steps of the leaf

The leaf goes to the encryption and comes back, then it goes to the block device
and comes back. A failure at either place completes the write-back at once. -/

/-- The leaf is where it was. -/
theorem LeafStage.congr {args : Args P} {w w' : World P} (h : LeafStage args w)
    (hsame : w.SameLeaf w') : LeafStage args w' := by
  obtain ⟨⟨hobj, hkey, -, hcrypto, hio, -, -⟩, hdata, -⟩ := hsame
  cases h with
  | crypto hstate hentry htag hd hc hi =>
    rw [← hobj] at hstate hentry htag
    exact .crypto hstate hentry htag (hdata.trans hd) (hcrypto.trans hc) (hio.trans hi)
  | cryptoBusy hstate hentry prim hprim hc hi =>
    rw [← hobj] at hstate hentry
    exact .cryptoBusy hstate hentry prim hprim (hcrypto.trans hc) (hio.trans hi)
  | io hstate hentry htag hd hhash hc hi =>
    rw [← hobj] at hstate hentry htag
    refine .io hstate hentry htag ?_ ?_ (hcrypto.trans hc) (hio.trans hi)
    · rw [hdata, hkey, hd]
    · rw [hobj, hkey, hhash]
  | ioBusy hstate hentry hhash prim hprim hc hi =>
    rw [← hobj] at hstate hentry
    refine .ioBusy hstate hentry ?_ prim hprim (hcrypto.trans hc) ?_
    · rw [hobj, hkey, hhash]
    · rw [hio, hkey, hi]

/-- The nodes are where they were. -/
theorem NodeStage.congr {args : Args P} {keyId degree : ℕ} {blocks : ℕ → P.Block} {flag : Bool}
    {k : ℕ} {s : Store P} {w w' : World P} (h : NodeStage args keyId degree blocks flag k s w)
    (hsame : w.SameNode w') : NodeStage args keyId degree blocks flag k s w' where
  one_le := h.one_le
  le := h.le
  state := by rw [hsame.obj, h.state]
  crypto := hsame.crypto.trans h.crypto
  io := hsame.io.trans h.io
  entries := by
    rw [hsame.obj]
    exact h.entries
  upTo_eq := by rw [hsame.obj, h.upTo_eq]
  settled := hsame.settled.trans h.settled
  flag_eq := by rw [hsame.obj, h.flag_eq]
  leafFailed := hsame.leafFailed.trans h.leafFailed

/-- A write-back is at the node where it was after a step of the cache part. -/
theorem InRun.node_congr {args : Args P} {keyId degree : ℕ} {blocks : ℕ → P.Block} {flag : Bool}
    {k : ℕ} {s : Store P} {w w' : World P} (h : InRun args keyId degree blocks flag w)
    (hnode : NodeStage args keyId degree blocks flag k s w) (hsame : w.SameNode w')
    (hcache : w'.AtRest ∨ ∃ phase, Updating args s k phase w') :
    InRun args keyId degree blocks flag w' where
  holds := by
    rw [hsame.obj]
    exact h.holds
  key_eq := hsame.keyId.trans h.key_eq
  degree_eq := hsame.degree.trans h.degree_eq
  stage := .node k s (hnode.congr hsame) hcache

/-- A write-back is where it was after a step of the cache part between two nodes. -/
theorem InRun.congr {args : Args P} {keyId degree : ℕ} {blocks : ℕ → P.Block} {flag : Bool}
    {w w' : World P} (h : InRun args keyId degree blocks flag w) (hsame : w.SameLeaf w')
    (hrest : w'.AtRest) : InRun args keyId degree blocks flag w' := by
  have hobj := hsame.obj
  refine ⟨by rw [hobj]; exact h.holds, hsame.keyId.trans h.key_eq,
    hsame.degree.trans h.degree_eq, ?_⟩
  cases h.stage with
  | leaf hleaf hentries _ hsettled hapart hflag hfailed =>
    refine .leaf (hleaf.congr hsame) ?_ hrest (hsame.settled.trans hsettled)
      (fun job hjob => hapart job (hsame.job job hjob)) ?_ (hsame.leafFailed.trans hfailed)
    · rw [hobj]
      exact hentries
    · rw [hobj]
      exact hflag
  | node k s hnode _ => exact .node k s (hnode.congr hsame.toSameNode) (Or.inl hrest)
  | done hstate hcrypto hio s hup hsettled _ hflag hfailed =>
    refine .done ?_ (hsame.crypto.trans hcrypto) (hsame.io.trans hio) s ?_
      (hsame.settled.trans hsettled) hrest ?_ (hsame.leafFailed.trans hfailed)
    all_goals rw [hobj]
    · exact hstate
    · exact hup
    · exact hflag
  | failed hstate hcrypto hio _ hflag hfailed =>
    refine .failed ?_ (hsame.crypto.trans hcrypto) (hsame.io.trans hio) hrest ?_
      (hsame.leafFailed.trans hfailed)
    all_goals rw [hobj]
    · exact hstate
    · exact hflag

/-- The primitive for the leaf has the new address of the leaf. -/
theorem peekGeneratedLeafPrimitive_eq {obj : WriteBack} {args : Args P} (h : Holds obj args)
    (hpool : args.prim.poolIdxSlot ≠ none) (hentry : (obj.entries 0).state = .pending)
    (htag : (obj.entries 0).tag ≠ .invalid) :
    ∃ prim, obj.peekGeneratedLeafPrimitive = some prim ∧ prim.valid = true
      ∧ prim.blockNumber = args.newPbas 0 := by
  obtain ⟨idx, hidx⟩ := Option.ne_none_iff_exists'.mp hpool
  unfold peekGeneratedLeafPrimitive IoPrimitive.validObject
  rw [if_neg (not_not.mpr hentry), h.prim, hidx, Option.bind_some, if_neg htag]
  exact ⟨_, rfl, rfl, h.updatePba 0 (Nat.zero_le _)⟩

/-- The leaf is in progress after it was taken. -/
theorem dropGeneratedLeafPrimitive_eq {obj : WriteBack} {args : Args P} (h : Holds obj args)
    (hentry : (obj.entries 0).state = .pending) {prim : IoPrimitive}
    (hprim : prim.blockNumber = args.newPbas 0) :
    obj.dropGeneratedLeafPrimitive prim = some (obj.setEntryState 0 .inProgress) := by
  unfold dropGeneratedLeafPrimitive
  rw [if_neg]
  rw [not_or, not_not, not_not, h.updatePba 0 (Nat.zero_le _)]
  exact ⟨hentry, hprim⟩

/-- The entry of the leaf is not one of those of the nodes. -/
theorem CompleteBelow.setEntryState_zero {obj : WriteBack} {args : Args P} {k : ℕ}
    (h : CompleteBelow obj args k) (state : WriteBackEntryState) :
    CompleteBelow (obj.setEntryState 0 state) args k := by
  intro lvl h1 hl
  rw [setEntryState_of_ne obj state (by omega)]
  exact h lvl h1 hl

section

variable {args : Args P} {keyId degree : ℕ} {snap : Snapshot} {blocks : ℕ → P.Block} {flag : Bool}
  {w w' : World P}

/-- The leaf goes to the encryption. -/
theorem InRun.generatedCrypto (h : InRun args keyId degree blocks flag w)
    (hfits : args.Fits degree snap blocks) (hstate : w.obj.state = .crypto)
    (hentry : (w.obj.entries 0).state = .pending) :
    ∃ w', w.generatedCrypto = some w' ∧ InRun args keyId degree blocks flag w'
      ∧ w'.crypto ≠ none := by
  cases h.stage with
  | leaf hleaf hentries hrest hsettled hapart hflag hfailed =>
    cases hleaf with
    | crypto _ _ htag hdata hcrypto hio =>
      obtain ⟨prim, hpeek, hvalid, hblk⟩ :=
        peekGeneratedLeafPrimitive_eq h.holds hfits.poolIdx hentry (by rw [htag]; decide)
      have hrun : w.generatedCrypto = some { w with
          obj := w.obj.setEntryState 0 .inProgress, crypto := some (prim, w.wbData) } := by
        unfold World.generatedCrypto peekGeneratedCryptoPrimitive dropGeneratedCryptoPrimitive
        rw [if_pos hstate, hpeek, Option.bind_some,
          if_neg (by rw [hvalid, hcrypto]; simp), if_neg (not_not.mpr hstate),
          dropGeneratedLeafPrimitive_eq h.holds hentry hblk]
        rfl
      have hself := setEntryState_self w.obj 0 .inProgress
      refine ⟨_, hrun, ⟨h.holds.setEntryState 0 _, h.key_eq, h.degree_eq,
        .leaf (.cryptoBusy hstate hself prim hblk (by rw [← hdata]) hio)
          (hentries.setEntryState_zero _) (hrest.congr rfl rfl rfl rfl rfl rfl) hsettled hapart
          hflag hfailed⟩, Option.some_ne_none _⟩
    | cryptoBusy _ he => exact absurd (hentry.symm.trans he) (by decide)
    | io hs => exact absurd (hstate.symm.trans hs) (by decide)
    | ioBusy hs => exact absurd (hstate.symm.trans hs) (by decide)
  | node _ _ hnode _ => exact absurd (hstate.symm.trans hnode.state) (by decide)
  | done hs => exact absurd (hstate.symm.trans hs) (by decide)
  | failed hs => exact absurd (hstate.symm.trans hs) (by decide)

/-- The encryption of the leaf has ended. -/
theorem InRun.cryptoCompleted (h : InRun args keyId degree blocks flag w)
    (hcrypto : w.crypto ≠ none) (success : Bool) :
    ∃ w', w.cryptoCompleted success = some w' ∧ InRun args keyId degree blocks flag w'
      ∧ (success = true → w'.obj.state = .io ∧ (w'.obj.entries 0).state = .pending) := by
  cases h.stage with
  | leaf hleaf hentries hrest hsettled hapart hflag hfailed =>
    cases hleaf with
    | crypto _ _ _ _ hc => exact absurd hc hcrypto
    | cryptoBusy hstate hentry prim hprim hc hio =>
      have hprogress : w.obj.LeafInProgress { prim with success := success } :=
        ⟨hentry, hprim.trans (h.holds.updatePba 0 (Nat.zero_le _)).symm⟩
      cases success with
      | false =>
        refine ⟨{ w with
          obj := { w.obj with
            hashes := Function.update w.obj.hashes 0 (P.hash (P.encrypt w.keyId args.data))
            pendingFailure := true
            state := .complete }
          wbData := P.encrypt w.keyId args.data
          crypto := none
          leafFailed := true }, ?_, ?_, fun hc => absurd hc (by decide)⟩
        · unfold World.cryptoCompleted markCompletedCryptoPrimitive
          rw [hc]
          dsimp only
          rw [if_neg (not_not.mpr hstate), if_neg (not_not.mpr hprogress), if_pos rfl, hfailed]
          rfl
        · exact ⟨h.holds.congr rfl rfl rfl rfl fun lvl => ⟨rfl, rfl, fun _ => rfl⟩, h.key_eq,
            h.degree_eq, .failed rfl rfl hio (hrest.congr rfl rfl rfl rfl rfl rfl) rfl rfl⟩
      | true =>
        refine ⟨{ w with
          obj := { w.obj with
            hashes := Function.update w.obj.hashes 0 (P.hash (P.encrypt w.keyId args.data))
            entries := Function.update w.obj.entries 0
              { w.obj.entries 0 with state := .pending, tag := .io }
            state := .io }
          wbData := P.encrypt w.keyId args.data
          crypto := none
          leafFailed := w.leafFailed }, ?_, ?_, fun _ => ⟨rfl, rfl⟩⟩
        · unfold World.cryptoCompleted markCompletedCryptoPrimitive
          rw [hc]
          dsimp only
          rw [if_neg (not_not.mpr hstate), if_neg (not_not.mpr hprogress), if_neg (by decide)]
          rw [show (w.leafFailed || !true) = w.leafFailed from Bool.or_false _]
          rfl
        · refine ⟨h.holds.congr rfl rfl rfl rfl fun lvl => ?_, h.key_eq, h.degree_eq,
            .leaf (.io rfl rfl rfl rfl rfl rfl hio) ?_ (hrest.congr rfl rfl rfl rfl rfl rfl)
              hsettled hapart hflag hfailed⟩
          · dsimp only
            rw [Function.update_apply]
            split_ifs with hl
            · rw [hl]
              exact ⟨rfl, rfl, fun h1 => absurd h1 (by decide)⟩
            · exact ⟨rfl, rfl, fun _ => rfl⟩
          · intro lvl h1 hl
            dsimp only
            rw [Function.update_of_ne (by omega)]
            exact hentries lvl h1 hl
    | io _ _ _ _ _ hc => exact absurd hc hcrypto
    | ioBusy _ _ _ _ _ hc => exact absurd hc hcrypto
  | node _ _ hnode _ => exact absurd hnode.crypto hcrypto
  | done _ hc => exact absurd hc hcrypto
  | failed _ hc => exact absurd hc hcrypto

/-- The leaf goes to the block device. -/
theorem InRun.generatedIo (h : InRun args keyId degree blocks flag w)
    (hfits : args.Fits degree snap blocks) (hstate : w.obj.state = .io)
    (hentry : (w.obj.entries 0).state = .pending) :
    ∃ w', w.generatedIo = some w' ∧ InRun args keyId degree blocks flag w' ∧ w'.io ≠ none := by
  cases h.stage with
  | leaf hleaf hentries hrest hsettled hapart hflag hfailed =>
    cases hleaf with
    | crypto hs => exact absurd (hstate.symm.trans hs) (by decide)
    | cryptoBusy hs => exact absurd (hstate.symm.trans hs) (by decide)
    | io _ _ htag hdata hhash hcrypto hio =>
      obtain ⟨prim, hpeek, hvalid, hblk⟩ :=
        peekGeneratedLeafPrimitive_eq h.holds hfits.poolIdx hentry (by rw [htag]; decide)
      have hrun : w.generatedIo = some { w with
          obj := w.obj.setEntryState 0 .inProgress, io := some (prim, w.wbData) } := by
        unfold World.generatedIo peekGeneratedIoPrimitive dropGeneratedIoPrimitive
        rw [if_neg (not_not.mpr hstate), hpeek, Option.bind_some,
          if_neg (by rw [hvalid, hio]; simp), if_neg (not_not.mpr hstate),
          dropGeneratedLeafPrimitive_eq h.holds hentry hblk]
        rfl
      have hself := setEntryState_self w.obj 0 .inProgress
      refine ⟨_, hrun, ⟨h.holds.setEntryState 0 _, h.key_eq, h.degree_eq,
        .leaf (.ioBusy hstate hself hhash prim hblk hcrypto (by rw [← hdata]))
          (hentries.setEntryState_zero _) (hrest.congr rfl rfl rfl rfl rfl rfl) hsettled hapart
          hflag hfailed⟩, Option.some_ne_none _⟩
    | ioBusy _ he => exact absurd (hentry.symm.trans he) (by decide)
  | node _ _ hnode _ => exact absurd (hstate.symm.trans hnode.state) (by decide)
  | done hs => exact absurd (hstate.symm.trans hs) (by decide)
  | failed hs => exact absurd (hstate.symm.trans hs) (by decide)

/-- The block of the leaf on the device, below whatever the cache has still to
write. -/
theorem settled_update {w w' : World P} {pba : ℕ} {blk : P.Block}
    (hjob : w'.cacheJob = w.cacheJob) (hblocks : w'.blocks = Function.update w.blocks pba blk)
    (hapart : ∀ job, w.cacheJob = some job → job.1.blockNumber ≠ pba) :
    w'.settled = Function.update w.settled pba blk := by
  unfold World.settled
  rw [hjob]
  cases hj : w.cacheJob with
  | none => exact hblocks
  | some job =>
    dsimp only
    rw [hblocks]
    split_ifs
    · exact Function.update_comm (hapart job hj).symm _ _ _
    · rfl

/-- The write of the leaf has ended. -/
theorem InRun.ioCompleted (h : InRun args keyId degree blocks flag w)
    (hfits : args.Fits degree snap blocks) (hio : w.io ≠ none) (success : Bool) :
    ∃ w', w.ioCompleted success = some w' ∧ InRun args keyId degree blocks flag w'
      ∧ (success = true →
          ∃ s, NodeStage args keyId degree blocks flag 1 s w' ∧ w'.AtRest) := by
  cases h.stage with
  | leaf hleaf hentries hrest hsettled hapart hflag hfailed =>
    cases hleaf with
    | crypto _ _ _ _ _ hi => exact absurd hi hio
    | cryptoBusy _ _ _ _ _ hi => exact absurd hi hio
    | io _ _ _ _ _ _ hi => exact absurd hi hio
    | ioBusy hstate hentry hhash prim hprim hcrypto hi =>
      have hprogress : w.obj.LeafInProgress { prim with success := success } :=
        ⟨hentry, hprim.trans (h.holds.updatePba 0 (Nat.zero_le _)).symm⟩
      cases success with
      | false =>
        refine ⟨{ w with
          obj := { w.obj with
            pendingFailure := true
            state := .complete }
          io := none
          leafFailed := true }, ?_, ?_, fun hc => absurd hc (by decide)⟩
        · unfold World.ioCompleted markCompletedIoPrimitive
          rw [hi]
          dsimp only
          rw [if_neg (not_not.mpr hstate), if_neg (not_not.mpr hprogress), if_pos rfl, hfailed]
          rfl
        · exact ⟨h.holds.congr rfl rfl rfl rfl fun lvl => ⟨rfl, rfl, fun _ => rfl⟩, h.key_eq,
            h.degree_eq, .failed rfl hcrypto rfl (hrest.congr rfl rfl rfl rfl rfl rfl) rfl rfl⟩
      | true =>
        set w' : World P := { w with
          obj := { w.obj.setEntryState 0 .complete with state := .cache }
          io := none
          blocks := Function.update w.blocks (args.newPbas 0) (P.encrypt w.keyId args.data) }
          with hw'
        have hrun : w.ioCompleted true = some w' := by
          unfold World.ioCompleted markCompletedIoPrimitive
          rw [hi]
          dsimp only
          rw [if_neg (not_not.mpr hstate), if_neg (not_not.mpr hprogress), if_pos rfl,
            if_neg (by decide), show (w.leafFailed || !true) = w.leafFailed from Bool.or_false _,
            hprim]
          rfl
        have hup : upTo args keyId degree blocks 0
            = some ((storeOf blocks).write (args.newPbas 0) (P.encrypt w.keyId args.data),
              w.obj.hashes 0) := by
          rw [hhash, h.key_eq]
          rfl
        have hsettled' : w'.settled
            = ((storeOf blocks).write (args.newPbas 0) (P.encrypt w.keyId args.data)).blocks := by
          refine Eq.trans (settled_update (w := w) rfl rfl hapart) ?_
          rw [hsettled]
          rfl
        have hrest' : w'.AtRest := hrest.congr rfl rfl rfl rfl rfl rfl
        have hnode : NodeStage args keyId degree blocks flag 1 _ w' :=
          ⟨le_rfl, hfits.inner.trans_eq hfits.maxLevel.symm, rfl, hcrypto, rfl,
            hentries.setEntryState_zero _, hup, hsettled', hflag, hfailed⟩
        have hholds : Holds w'.obj args :=
          (h.holds.setEntryState 0 .complete).congr rfl rfl rfl rfl
            fun lvl => ⟨rfl, rfl, fun _ => rfl⟩
        exact ⟨w', hrun, ⟨hholds, h.key_eq, h.degree_eq, .node 1 _ hnode (Or.inl hrest')⟩,
          fun _ => ⟨_, hnode, hrest'⟩⟩
  | node _ _ hnode _ => exact absurd hnode.io hio
  | done _ _ hi => exact absurd hi hio
  | failed _ _ hi => exact absurd hi hio

/-! ## The steps of a node

The node of a level goes through the four phases of `ReadPhase` and is updated.
The cache delivers the blocks as they are after all the writes before, so what
is read at the old address is the node of the tree. -/

/-- The next node is the first one that is not complete. -/
theorem peekGeneratedCachePrimitive_eq {obj : WriteBack} (h : Holds obj args)
    (hpool : args.prim.poolIdxSlot ≠ none) (hstate : obj.state = .cache) {k : ℕ} (h1 : 1 ≤ k)
    (hk : k ≤ args.n) (hentries : CompleteBelow obj args k) :
    ∃ prim, obj.peekGeneratedCachePrimitive = some prim ∧ prim.valid = true
      ∧ prim.blockNumber = (args.oldPbas k).pba := by
  obtain ⟨idx, hidx⟩ := Option.ne_none_iff_exists'.mp hpool
  have hfind : obj.innerLevels.find? (fun lvl => (obj.entries lvl).state = .pending) = some k := by
    unfold innerLevels
    rw [h.levels]
    refine find_level h1 hk (fun l hl1 hlk => ?_) ?_
    · rw [hentries l hl1 (by omega), if_pos hlk]
      rfl
    · rw [hentries k h1 hk, if_neg (lt_irrefl k)]
      rfl
  unfold peekGeneratedCachePrimitive IoPrimitive.validObject
  rw [if_neg (not_not.mpr hstate), hfind]
  dsimp only
  rw [h.prim, hidx, Option.bind_some, h.tag k h1 hk, if_neg (by decide)]
  exact ⟨_, rfl, rfl, h.pba k hk⟩

/-- The procedures for the cache find the level of a node by its old address. -/
theorem cacheLevel_eq {obj : WriteBack} (h : Holds obj args) (hfits : args.Fits degree snap blocks)
    {k : ℕ} (h1 : 1 ≤ k) (hk : k ≤ args.n) :
    obj.cacheLevel (args.oldPbas k).pba = some k := by
  unfold cacheLevel innerLevels
  rw [h.levels]
  refine find_level h1 hk (fun l hl1 hlk => ?_) ?_
  · rw [h.pba l (by omega)]
    exact decide_eq_false (hfits.walk_ne l k hl1 hlk hk)
  · rw [h.pba k hk]
    exact decide_eq_true rfl

/-- **What `Update` does to the node of a level**, whether or not the node moves. -/
theorem update_eq {obj : WriteBack} (h : Holds obj args) (hfits : args.Fits degree snap blocks)
    {k : ℕ} (h1 : 1 ≤ k) (hk : k ≤ args.n) (s : Store P) {data updateData : P.Block}
    (hdata : data = s.blocks (args.oldPbas k).pba)
    (hupdate : updateData = s.blocks (args.newPbas k)) :
    obj.update P (args.oldPbas k).pba degree data updateData
      = (({ obj with
            hashes := Function.update obj.hashes k
              (P.hash (nodeBlock args degree s (obj.hashes (k - 1)) (k - 1))) }.setEntryState k
          .complete).completeIfAllComplete,
        nodeBlock args degree s (obj.hashes (k - 1)) (k - 1)) := by
  have hfind : obj.innerLevels.find? (fun lvl =>
      (obj.entries lvl).tag = .cache ∧ (obj.entries lvl).pba = (args.oldPbas k).pba) = some k := by
    unfold innerLevels
    rw [h.levels]
    refine find_level h1 hk (fun l hl1 hlk => ?_) ?_
    · rw [h.pba l (by omega)]
      exact decide_eq_false fun hc => hfits.walk_ne l k hl1 hlk hk hc.2
    · rw [h.pba k hk, h.tag k h1 hk]
      exact decide_eq_true ⟨rfl, rfl⟩
  have hold : (if (obj.entries k).pba ≠ (obj.entries k).updatePba then data else updateData)
      = s.blocks (args.oldPbas k).pba := by
    rw [h.pba k hk, h.updatePba k hk]
    split_ifs with hmoved
    · exact hdata
    · rw [hupdate, not_not.mp hmoved]
  have hblock : P.blockDataFromType1NodeBlock
      (Function.update (P.type1NodeBlockFromBlockData (s.blocks (args.oldPbas k).pba))
        (childIdxForVba obj.vba k degree)
        { pba := (obj.entries (k - 1)).updatePba
          gen := obj.newGeneration
          hash := obj.hashes (k - 1) })
      = nodeBlock args degree s (obj.hashes (k - 1)) (k - 1) := by
    rw [h.vba, h.updatePba (k - 1) (by omega), h.gen]
    unfold nodeBlock
    rw [Nat.sub_add_cancel h1]
    rfl
  unfold update
  rw [hfind]
  dsimp only
  rw [hold, hblock]

/-- The write-back is complete after the node of the highest level. -/
theorem completeIfAllComplete_eq {obj : WriteBack} (h : Holds obj args) {k : ℕ} (h1 : 1 ≤ k)
    (hk : k ≤ args.n) (hentries : CompleteBelow obj args (k + 1)) :
    obj.completeIfAllComplete = if k = args.n then { obj with state := .complete } else obj := by
  unfold completeIfAllComplete innerLevels
  rw [h.levels]
  refine if_congr ⟨fun hall => ?_, fun hkn lvl hl => ?_⟩ rfl rfl
  · by_contra hne
    have hlast := hall args.n (List.mem_range'_1.mpr ⟨by omega, by omega⟩)
    rw [hentries args.n (by omega) le_rfl, if_neg (by omega)] at hlast
    exact absurd hlast (by decide)
  · obtain ⟨hl1, hln⟩ := List.mem_range'_1.mp hl
    rw [hentries lvl hl1 (by omega), if_pos (by omega)]

/-- **A node is updated**: the write-back goes on with the next one, or it is
complete. Its entry goes into the block that was read at the old address, and
the block is handed to the cache for the new one. -/
theorem InRun.updateNode (h : InRun args keyId degree blocks flag w)
    (hfits : args.Fits degree snap blocks) {k : ℕ} {s : Store P}
    (hnode : NodeStage args keyId degree blocks flag k s w) (hupd : Updating args s k .have2 w) :
    ∃ w', w.generatedCache = some w' ∧ InRun args keyId degree blocks flag w' ∧ w'.Writing
      ∧ (w'.obj.state = .complete ∧ w'.leafFailed = false
        ∨ ∃ s', NodeStage args keyId degree blocks flag (k + 1) s' w') := by
  obtain ⟨hvalid, hpba, hupdate, hread⟩ := hupd
  obtain - | - | - | ⟨hprim1, hdata, hprim2, hdata2, hprim3, hjob⟩ := hread
  obtain ⟨h1, hk, hstate, hcrypto, hio, hentries, hup, hsettled, hflag, hfailed⟩ := hnode
  have hblocks : w.blocks = s.blocks := by
    rw [← hsettled]
    unfold World.settled
    rw [hjob]
  set blk := nodeBlock args degree s (w.obj.hashes (k - 1)) (k - 1) with hblk
  set obj := { w.obj.setEntryState k .inProgress with
    hashes := Function.update w.obj.hashes k (P.hash blk) }.setEntryState k .complete with hobj
  have hobjHolds : Holds obj args := by
    refine Holds.setEntryState ?_ k .complete
    exact (h.holds.setEntryState k .inProgress).congr rfl rfl rfl rfl
      fun lvl => ⟨rfl, rfl, fun _ => rfl⟩
  have hobjEntries : CompleteBelow obj args (k + 1) := by
    intro lvl hl1 hl
    by_cases hlk : lvl = k
    · rw [hlk, hobj, setEntryState_self, if_pos (Nat.lt_succ_self k)]
    · rw [hobj, setEntryState_of_ne _ _ hlk]
      show ((w.obj.setEntryState k .inProgress).entries lvl).state = _
      rw [setEntryState_of_ne _ _ hlk, hentries lvl hl1 hl]
      exact if_congr (by omega) rfl rfl
  have hsucc : upTo args keyId degree blocks k
      = some (s.write (args.newPbas k) blk, P.hash blk) := by
    have hlast := upTo_succ hfits (by omega) hup
    rwa [Nat.sub_add_cancel h1] at hlast
  have hrun : w.generatedCache = some { w with
      obj := obj.completeIfAllComplete
      cachePrim2 := { w.cachePrim2 with data := blk }
      cachePrim3 := { w.cachePrim3 with
        prim := World.cachePrim .write w.wbUpdatePba
        state := .submitted }
      cacheJob := some (World.cachePrim .write w.wbUpdatePba, blk) } := by
    rw [World.generatedCache_of_valid hvalid (by rw [hprim1.state]; decide),
      World.cachePrims_of_read hprim1 hprim2, if_pos hprim3]
    unfold World.updateNode dropGeneratedCachePrimitive
    rw [if_neg (not_not.mpr hstate), hpba, cacheLevel_eq h.holds hfits h1 hk, h.degree_eq]
    dsimp only [Option.map_some]
    rw [update_eq (h.holds.setEntryState k .inProgress) hfits h1 hk s hdata hdata2]
    rfl
  have hwriting : World.Writing { w with
      obj := obj.completeIfAllComplete
      cachePrim2 := { w.cachePrim2 with data := blk }
      cachePrim3 := { w.cachePrim3 with
        prim := World.cachePrim .write w.wbUpdatePba
        state := .submitted }
      cacheJob := some (World.cachePrim .write w.wbUpdatePba, blk) } :=
    ⟨hvalid, hprim1, ⟨hprim2.state, hprim2.prim, hprim2.success⟩, Or.inl ⟨rfl, rfl, blk, rfl⟩⟩
  have hsettled' : Function.update w.blocks w.wbUpdatePba blk
      = (s.write (args.newPbas k) blk).blocks := by
    rw [hblocks, hupdate]
    rfl
  have hhash : obj.hashes k = P.hash blk := Function.update_self k _ _
  rw [completeIfAllComplete_eq hobjHolds h1 hk hobjEntries] at hrun hwriting
  by_cases hkn : k = args.n
  · rw [if_pos hkn] at hrun hwriting
    refine ⟨_, hrun, ⟨hobjHolds.congr rfl rfl rfl rfl fun lvl => ⟨rfl, rfl, fun _ => rfl⟩, h.key_eq,
      h.degree_eq, .done rfl hcrypto hio _ ?_ hsettled' (Or.inr hwriting) hflag hfailed⟩, hwriting,
      Or.inl ⟨rfl, hfailed⟩⟩
    rw [← hkn]
    exact hsucc.trans (by rw [← hhash])
  · rw [if_neg hkn] at hrun hwriting
    have hnext : NodeStage args keyId degree blocks flag (k + 1) (s.write (args.newPbas k) blk)
        { w with
          obj := obj
          cachePrim2 := { w.cachePrim2 with data := blk }
          cachePrim3 := { w.cachePrim3 with
            prim := World.cachePrim .write w.wbUpdatePba
            state := .submitted }
          cacheJob := some (World.cachePrim .write w.wbUpdatePba, blk) } :=
      ⟨Nat.succ_pos k, by omega, hstate, hcrypto, hio, hobjEntries,
        hsucc.trans (by rw [← hhash]; rfl), hsettled', hflag, hfailed⟩
    exact ⟨_, hrun, ⟨hobjHolds, h.key_eq, h.degree_eq, .node (k + 1) _ hnext
      (Or.inl (Or.inr hwriting))⟩, hwriting, Or.inr ⟨_, hnext⟩⟩

/-- The library takes the next node, and reads its old block. -/
theorem InRun.startNode (h : InRun args keyId degree blocks flag w)
    (hfits : args.Fits degree snap blocks) {k : ℕ} {s : Store P}
    (hnode : NodeStage args keyId degree blocks flag k s w) (hidle : w.Idle) :
    ∃ w', w.generatedCache = some w' ∧ w.SameNode w' ∧ Updating args s k .read1 w' := by
  obtain ⟨prim, hpeek, hvalid, hpba⟩ := peekGeneratedCachePrimitive_eq h.holds hfits.poolIdx
    hnode.state hnode.one_le hnode.le hnode.entries
  have hupdate : w.obj.peekGeneratedCacheUpdatePba prim = some (args.newPbas k) := by
    unfold peekGeneratedCacheUpdatePba
    rw [if_neg (not_not.mpr hnode.state), hpba, cacheLevel_eq h.holds hfits hnode.one_le hnode.le,
      Option.map_some, h.holds.updatePba k hnode.le]
  refine ⟨{ w with
    wbPrim := prim
    wbUpdatePba := args.newPbas k
    cachePrim1 := { w.cachePrim1 with
      prim := World.cachePrim .read prim.blockNumber
      state := .submitted }
    cacheJob := some (World.cachePrim .read prim.blockNumber, w.cachePrim1.data) }, ?_,
    ⟨rfl, rfl, rfl, rfl, rfl, rfl, ?_⟩,
    ⟨hvalid, hpba, rfl, .read1 rfl rfl hidle.prim2 hidle.prim3 _ rfl⟩⟩
  · unfold World.generatedCache
    rw [if_neg (by rw [hidle.wbPrim]; decide), hpeek, Option.bind_some]
    dsimp only
    rw [if_neg (by rw [hvalid]; decide), if_pos hidle.prim1, hupdate, Option.bind_some]
    unfold World.cachePrims
    dsimp only
    rw [if_pos hidle.prim1]
  · unfold World.settled
    rw [hidle.job]
    rfl

/-- The old block has come. -/
theorem Updating.read1_completed {k : ℕ} {s : Store P} (h : Updating args s k .read1 w)
    (hsettled : w.settled = s.blocks) :
    ∃ w', w.cacheCompleted true = some w' ∧ w.SameNode w' ∧ Updating args s k .have1 w' := by
  obtain ⟨hvalid, hpba, hupdate, hread⟩ := h
  obtain ⟨hprim1, hequal, hprim2, hprim3, blk, hjob⟩ := hread
  have hblocks : w.settled = w.blocks := by
    unfold World.settled
    rw [hjob]
    rfl
  refine ⟨{ w with
    cacheJob := none
    cachePrim1 := w.cachePrim1.completed
      { World.cachePrim .read w.wbPrim.blockNumber with success := true }
      (w.blocks w.wbPrim.blockNumber) }, ?_, ⟨rfl, rfl, rfl, rfl, rfl, rfl, hblocks.symm⟩,
    ⟨hvalid, hpba, hupdate, .have1 ⟨rfl, ⟨rfl, rfl, rfl, rfl, rfl⟩, rfl⟩ ?_ hprim2 hprim3 rfl⟩⟩
  · unfold World.cacheCompleted
    rw [hjob]
    dsimp only
    rw [if_neg (by decide), if_pos ⟨hprim1, by rw [hequal]; exact ⟨rfl, rfl, rfl, rfl, rfl⟩⟩]
    rfl
  · show w.blocks w.wbPrim.blockNumber = _
    rw [hpba, ← hblocks, hsettled]

/-- The library reads the block at the new address. -/
theorem Updating.have1_generated {k : ℕ} {s : Store P} (h : Updating args s k .have1 w) :
    ∃ w', w.generatedCache = some w' ∧ w.SameNode w' ∧ Updating args s k .read2 w' := by
  obtain ⟨hvalid, hpba, hupdate, hread⟩ := h
  obtain - | ⟨hprim1, hdata, hprim2, hprim3, hjob⟩ := hread
  refine ⟨{ w with
    cachePrim2 := { w.cachePrim2 with
      prim := World.cachePrim .read w.wbUpdatePba
      state := .submitted }
    cacheJob := some (World.cachePrim .read w.wbUpdatePba, w.cachePrim1.data) }, ?_,
    ⟨rfl, rfl, rfl, rfl, rfl, rfl, ?_⟩,
    ⟨hvalid, hpba, hupdate, .read2 hprim1 hdata rfl rfl hprim3 _ rfl⟩⟩
  · rw [World.generatedCache_of_valid hvalid (by rw [hprim1.state]; decide),
      World.cachePrims_of_read1 hprim1, if_pos hprim2]
  · unfold World.settled
    rw [hjob]
    rfl

/-- The block at the new address has come. -/
theorem Updating.read2_completed {k : ℕ} {s : Store P} (h : Updating args s k .read2 w)
    (hsettled : w.settled = s.blocks) :
    ∃ w', w.cacheCompleted true = some w' ∧ w.SameNode w' ∧ Updating args s k .have2 w' := by
  obtain ⟨hvalid, hpba, hupdate, hread⟩ := h
  obtain - | - | ⟨hprim1, hdata, hprim2, hequal, hprim3, blk, hjob⟩ := hread
  have hblocks : w.settled = w.blocks := by
    unfold World.settled
    rw [hjob]
    rfl
  refine ⟨{ w with
    cacheJob := none
    cachePrim2 := w.cachePrim2.completed
      { World.cachePrim .read w.wbUpdatePba with success := true } (w.blocks w.wbUpdatePba) }, ?_,
    ⟨rfl, rfl, rfl, rfl, rfl, rfl, hblocks.symm⟩,
    ⟨hvalid, hpba, hupdate,
      .have2 hprim1 hdata ⟨rfl, ⟨rfl, rfl, rfl, rfl, rfl⟩, rfl⟩ ?_ hprim3 rfl⟩⟩
  · unfold World.cacheCompleted
    rw [hjob]
    dsimp only
    rw [if_neg (by decide), if_neg fun hc => absurd (hprim1.state.symm.trans hc.1) (by decide),
      if_pos ⟨hprim2, by rw [hequal]; exact ⟨rfl, rfl, rfl, rfl, rfl⟩⟩]
    rfl
  · show w.blocks w.wbUpdatePba = _
    rw [hupdate, ← hblocks, hsettled]

/-- The library waits for a read that is under way. -/
theorem Updating.waits {k : ℕ} {s : Store P} {phase : ReadPhase}
    (h : Updating args s k phase w) (hjob : w.cacheJob ≠ none) : w.generatedCache = some w := by
  obtain ⟨hvalid, -, -, hread⟩ := h
  cases hread with
  | read1 hprim1 =>
    rw [World.generatedCache_of_valid hvalid (by rw [hprim1]; decide)]
    unfold World.cachePrims
    dsimp only
    rw [if_neg (by rw [hprim1]; decide), if_pos (Or.inl (by rw [hprim1]; decide))]
  | have1 _ _ _ _ hnone => exact absurd hnone hjob
  | read2 hprim1 _ hprim2 =>
    rw [World.generatedCache_of_valid hvalid (by rw [hprim1.state]; decide),
      World.cachePrims_of_read1 hprim1, if_neg (by rw [hprim2]; decide),
      if_pos (Or.inl (by rw [hprim2]; decide))]
  | have2 _ _ _ _ _ hnone => exact absurd hnone hjob

/-! ## Every step

An action is a loop of the library or an answer to one of its requests. An
action that is not possible leaves the world as it is, or raises; neither is a
step of the write-back. -/

/-- The loop for the encryption has nothing to take. -/
theorem generatedCrypto_waits (h : w.obj.state ≠ .crypto ∨ (w.obj.entries 0).state ≠ .pending) :
    w.generatedCrypto = some w := by
  have hpeek : w.obj.peekGeneratedCryptoPrimitive = some IoPrimitive.invalidObject := by
    unfold peekGeneratedCryptoPrimitive peekGeneratedLeafPrimitive
    rcases h with h | h
    · rw [if_neg h]
    · rw [if_pos h]
      split_ifs <;> rfl
  unfold World.generatedCrypto
  rw [hpeek, Option.bind_some]
  exact if_pos (Or.inl rfl)

/-- The loop for the block device has nothing to take. -/
theorem generatedIo_waits (h : w.obj.state ≠ .io ∨ (w.obj.entries 0).state ≠ .pending) :
    w.generatedIo = some w := by
  have hpeek : w.obj.peekGeneratedIoPrimitive = some IoPrimitive.invalidObject := by
    unfold peekGeneratedIoPrimitive peekGeneratedLeafPrimitive
    rcases h with h | h
    · rw [if_pos h]
    · rw [if_pos h]
      split_ifs <;> rfl
  unfold World.generatedIo
  rw [hpeek, Option.bind_some]
  exact if_pos (Or.inl rfl)

/-- A turn of the loop for the cache. -/
theorem InRun.generatedCache (h : InRun args keyId degree blocks flag w)
    (hfits : args.Fits degree snap blocks) (hstep : w.generatedCache = some w') :
    InRun args keyId degree blocks flag w' := by
  cases h.stage with
  | leaf hleaf hentries hrest =>
    have hstate : w.obj.state ≠ .cache := by
      cases hleaf with
      | crypto hs => rw [hs]; decide
      | cryptoBusy hs => rw [hs]; decide
      | io hs => rw [hs]; decide
      | ioBusy hs => rw [hs]; decide
    obtain ⟨hrest', hsame⟩ := hrest.generatedCache hstate hstep
    exact h.congr hsame hrest'
  | node k s hnode hcache =>
    rcases hcache with (hidle | hwriting) | ⟨phase, hupd⟩
    · obtain ⟨w₁, hrun, hsame, hupd⟩ := h.startNode hfits hnode hidle
      obtain rfl := Option.some.inj (hrun.symm.trans hstep)
      exact h.node_congr hnode hsame (Or.inr ⟨_, hupd⟩)
    · obtain ⟨hrest', hsame⟩ := hwriting.generatedCache hstep
      exact h.congr hsame hrest'
    · cases hupd.reading with
      | read1 _ _ _ _ blk hjob =>
        obtain rfl := Option.some.inj ((hupd.waits (by rw [hjob]; simp)).symm.trans hstep)
        exact h
      | have1 =>
        obtain ⟨w₁, hrun, hsame, hupd⟩ := hupd.have1_generated
        obtain rfl := Option.some.inj (hrun.symm.trans hstep)
        exact h.node_congr hnode hsame (Or.inr ⟨_, hupd⟩)
      | read2 _ _ _ _ _ blk hjob =>
        obtain rfl := Option.some.inj ((hupd.waits (by rw [hjob]; simp)).symm.trans hstep)
        exact h
      | have2 =>
        obtain ⟨w₁, hrun, hin, -⟩ := h.updateNode hfits hnode hupd
        obtain rfl := Option.some.inj (hrun.symm.trans hstep)
        exact hin
  | done hstate _ _ _ _ _ hrest =>
    obtain ⟨hrest', hsame⟩ := hrest.generatedCache (by rw [hstate]; decide) hstep
    exact h.congr hsame hrest'
  | failed hstate _ _ hrest =>
    obtain ⟨hrest', hsame⟩ := hrest.generatedCache (by rw [hstate]; decide) hstep
    exact h.congr hsame hrest'

/-- The cache has completed a job. -/
theorem InRun.cacheCompleted (h : InRun args keyId degree blocks flag w) {success : Bool}
    (hstep : w.cacheCompleted success = some w') : InRun args keyId degree blocks flag w' := by
  rcases World.cacheCompleted_cases hstep with ⟨-, rfl⟩ | rfl
  · exact h
  cases h.stage with
  | leaf _ _ hrest =>
    obtain ⟨hrest', hsame⟩ := hrest.cacheCompleted hstep
    exact h.congr hsame hrest'
  | node k s hnode hcache =>
    rcases hcache with hrest | ⟨phase, hupd⟩
    · obtain ⟨hrest', hsame⟩ := hrest.cacheCompleted hstep
      exact h.congr hsame hrest'
    · cases hupd.reading with
      | read1 =>
        obtain ⟨w₁, hrun, hsame, hupd⟩ := hupd.read1_completed hnode.settled
        obtain rfl := Option.some.inj (hrun.symm.trans hstep)
        exact h.node_congr hnode hsame (Or.inr ⟨_, hupd⟩)
      | have1 _ _ _ _ hjob =>
        unfold World.cacheCompleted at hstep
        rw [hjob] at hstep
        obtain rfl := Option.some.inj hstep
        exact h
      | read2 =>
        obtain ⟨w₁, hrun, hsame, hupd⟩ := hupd.read2_completed hnode.settled
        obtain rfl := Option.some.inj (hrun.symm.trans hstep)
        exact h.node_congr hnode hsame (Or.inr ⟨_, hupd⟩)
      | have2 _ _ _ _ _ hjob =>
        unfold World.cacheCompleted at hstep
        rw [hjob] at hstep
        obtain rfl := Option.some.inj hstep
        exact h
  | done _ _ _ _ _ _ hrest =>
    obtain ⟨hrest', hsame⟩ := hrest.cacheCompleted hstep
    exact h.congr hsame hrest'
  | failed _ _ _ hrest =>
    obtain ⟨hrest', hsame⟩ := hrest.cacheCompleted hstep
    exact h.congr hsame hrest'

/-- **A write-back that is under way is under way after every step**: by cases
on the action, each with its lemma above. -/
theorem InRun.step (h : InRun args keyId degree blocks flag w)
    (hfits : args.Fits degree snap blocks) (a : Action) (hstep : w.step a = some w') :
    InRun args keyId degree blocks flag w' := by
  cases a with
  | generatedCrypto =>
    by_cases hready : w.obj.state = .crypto ∧ (w.obj.entries 0).state = .pending
    · obtain ⟨w₁, hrun, hin, -⟩ := h.generatedCrypto hfits hready.1 hready.2
      obtain rfl := Option.some.inj (hrun.symm.trans hstep)
      exact hin
    · rw [not_and_or] at hready
      obtain rfl := Option.some.inj ((generatedCrypto_waits hready).symm.trans hstep)
      exact h
  | cryptoCompleted success =>
    by_cases hcrypto : w.crypto = none
    · unfold World.step World.cryptoCompleted at hstep
      rw [hcrypto] at hstep
      obtain rfl := Option.some.inj hstep
      exact h
    · obtain ⟨w₁, hrun, hin, -⟩ := h.cryptoCompleted hcrypto success
      obtain rfl := Option.some.inj (hrun.symm.trans hstep)
      exact hin
  | generatedIo =>
    by_cases hready : w.obj.state = .io ∧ (w.obj.entries 0).state = .pending
    · obtain ⟨w₁, hrun, hin, -⟩ := h.generatedIo hfits hready.1 hready.2
      obtain rfl := Option.some.inj (hrun.symm.trans hstep)
      exact hin
    · rw [not_and_or] at hready
      obtain rfl := Option.some.inj ((generatedIo_waits hready).symm.trans hstep)
      exact h
  | ioCompleted success =>
    by_cases hio : w.io = none
    · unfold World.step World.ioCompleted at hstep
      rw [hio] at hstep
      obtain rfl := Option.some.inj hstep
      exact h
    · obtain ⟨w₁, hrun, hin, -⟩ := h.ioCompleted hfits hio success
      obtain rfl := Option.some.inj (hrun.symm.trans hstep)
      exact hin
  | generatedCache => exact h.generatedCache hfits hstep
  | cacheCompleted success => exact h.cacheCompleted hstep

/-! ## The way to the end

The equivalence needs a run in which everything succeeds: it can be continued
from every stage, by induction on the levels that are left. -/

/-- What the library's loops and the answers can lead to, in whatever order. -/
def World.Reaches (w w' : World P) : Prop := Runs.Run World.step (fun _ _ => True) w w'

/-- What is reached can be continued by a step. -/
theorem World.Reaches.step {w₀ : World P} (h : w₀.Reaches w) (a : Action)
    (hstep : w.step a = some w') : w₀.Reaches w' := Runs.Run.tail a h trivial hstep

/-- A write-back is under way after every run. -/
theorem InRun.reaches (h : InRun args keyId degree blocks flag w)
    (hfits : args.Fits degree snap blocks) (hrun : w.Reaches w') :
    InRun args keyId degree blocks flag w' :=
  hrun.invariant (fun _ a _ hin _ hstep => hin.step hfits a hstep) h

/-- The library gets rid of the write of the last node. -/
theorem World.AtRest.exists_idle (h : w.AtRest) :
    ∃ w', w.Reaches w' ∧ w'.Idle ∧ w.SameLeaf w' := by
  rcases h with hidle | hwriting
  · exact ⟨w, Runs.Run.refl w, hidle, World.SameLeaf.refl w⟩
  · obtain ⟨w₁, hstep₁, hwriting₁, hstate₁, hsame₁⟩ := hwriting.cacheCompleted_true
    have hstep₂ : w₁.step .generatedCache = some w₁.nodeWritten := by
      show w₁.generatedCache = _
      rw [hwriting₁.generatedCache_eq, if_pos hstate₁]
    have hjob : w₁.cacheJob = none := by
      rcases hwriting₁.prim3 with ⟨hs, -, -⟩ | ⟨-, -, hjob⟩
      · exact absurd (hs.symm.trans hstate₁) (by decide)
      · exact hjob
    refine ⟨w₁.nodeWritten, ((Runs.Run.refl w).tail (.cacheCompleted true) trivial hstep₁).tail
      .generatedCache trivial hstep₂, ⟨rfl, rfl, rfl, rfl, hjob⟩,
      ⟨⟨hsame₁.obj, hsame₁.keyId, hsame₁.degree, hsame₁.crypto, hsame₁.io, hsame₁.leafFailed,
        hsame₁.settled⟩, hsame₁.wbData, hsame₁.job⟩⟩

/-- A node can be written. -/
theorem NodeStage.exists_next (h : InRun args keyId degree blocks flag w)
    (hfits : args.Fits degree snap blocks) {k : ℕ} {s : Store P}
    (hnode : NodeStage args keyId degree blocks flag k s w) (hrest : w.AtRest) :
    ∃ w', w.Reaches w' ∧ w'.AtRest
      ∧ (w'.obj.state = .complete ∧ w'.leafFailed = false
        ∨ ∃ s', NodeStage args keyId degree blocks flag (k + 1) s' w') := by
  obtain ⟨w₁, hrun₁, hidle, hsame₁⟩ := hrest.exists_idle
  have hin₁ := h.reaches hfits hrun₁
  have hnode₁ := hnode.congr hsame₁.toSameNode
  obtain ⟨w₂, hstep₂, hsame₂, hupd₂⟩ := hin₁.startNode hfits hnode₁ hidle
  have hnode₂ := hnode₁.congr hsame₂
  obtain ⟨w₃, hstep₃, hsame₃, hupd₃⟩ := hupd₂.read1_completed hnode₂.settled
  have hnode₃ := hnode₂.congr hsame₃
  obtain ⟨w₄, hstep₄, hsame₄, hupd₄⟩ := hupd₃.have1_generated
  have hnode₄ := hnode₃.congr hsame₄
  obtain ⟨w₅, hstep₅, hsame₅, hupd₅⟩ := hupd₄.read2_completed hnode₄.settled
  have hnode₅ := hnode₄.congr hsame₅
  have hrun₅ : w.Reaches w₅ :=
    (((hrun₁.step .generatedCache hstep₂).step (.cacheCompleted true) hstep₃).step
      .generatedCache hstep₄).step (.cacheCompleted true) hstep₅
  obtain ⟨w₆, hstep₆, -, hwriting, hnext⟩ :=
    (h.reaches hfits hrun₅).updateNode hfits hnode₅ hupd₅
  exact ⟨w₆, hrun₅.step .generatedCache hstep₆, Or.inr hwriting, hnext⟩

/-- **The nodes can be written**, one after the other. -/
theorem NodeStage.exists_complete (h : InRun args keyId degree blocks flag w)
    (hfits : args.Fits degree snap blocks) {k : ℕ} {s : Store P}
    (hnode : NodeStage args keyId degree blocks flag k s w) (hrest : w.AtRest) :
    ∃ w', w.Reaches w' ∧ w'.obj.state = .complete ∧ w'.leafFailed = false := by
  obtain ⟨w₁, hrun₁, hrest₁, hnext⟩ := hnode.exists_next h hfits hrest
  -- The levels that are left decrease.
  induction hleft : args.n - k generalizing k s w w₁ with
  | zero =>
    rcases hnext with hdone | ⟨s', hnode'⟩
    · exact ⟨w₁, hrun₁, hdone⟩
    · exact absurd hnode'.le (by have := hnode.le; omega)
  | succ m ih =>
    rcases hnext with hdone | ⟨s', hnode'⟩
    · exact ⟨w₁, hrun₁, hdone⟩
    · have hin₁ := h.reaches hfits hrun₁
      obtain ⟨w₂, hrun₂, hrest₂, hnext₂⟩ := hnode'.exists_next hin₁ hfits hrest₁
      obtain ⟨w', hrun', hdone⟩ :=
        ih hin₁ hnode' hrest₁ w₂ hrun₂ hrest₂ hnext₂ (by omega)
      exact ⟨w', hrun₁.trans hrun', hdone⟩

/-! ## The end of a write-back

Both directions come together here. A write-back is returned with what it has
done if the flag was not set before it and no other address goes the same way;
and if one of the two fails, the run above shows a write-back that is returned
wrong. -/

/-- The library is ready for a write-back: none is there, and the job that the cache
may still have is not for the block that the leaf gets. -/
structure World.Ready (w : World P) (args : Args P) : Prop where
  /-- The encryption has nothing to do. -/
  crypto : w.crypto = none
  /-- The block device has nothing to do. -/
  io : w.io = none
  /-- The module is at rest. -/
  rest : w.AtRest
  /-- What the cache may still have to do is not for the new leaf. -/
  apart : ∀ job, w.cacheJob = some job → job.1.blockNumber ≠ args.newPbas 0

/-- The entries of a write-back that was just submitted. -/
theorem World.submit_entries (w₀ : World P) {lvl : ℕ} (hl : lvl ≤ args.n) :
    (w₀.submit args).obj.entries lvl
      = { pba := (args.oldPbas lvl).pba
          updatePba := args.newPbas lvl
          state := .pending
          tag := if lvl = 0 then .encrypt else .cache } := if_pos hl

/-- A write-back that was just submitted. -/
theorem World.Ready.inRun {w₀ : World P} (hready : w₀.Ready args) :
    InRun args w₀.keyId w₀.degree w₀.settled w₀.obj.pendingFailure (w₀.submit args) := by
  refine ⟨⟨rfl, rfl, rfl, rfl, fun lvl hl => ?_, fun lvl hl => ?_, fun lvl h1 hl => ?_⟩, rfl, rfl,
    ?_⟩
  · rw [World.submit_entries w₀ hl]
  · rw [World.submit_entries w₀ hl]
  · rw [World.submit_entries w₀ hl]
    exact if_neg (by omega)
  · refine .leaf (.crypto rfl ?_ ?_ rfl hready.crypto hready.io) (fun lvl h1 hl => ?_)
      (hready.rest.congr rfl rfl rfl rfl rfl rfl) rfl hready.apart rfl rfl
    · rw [World.submit_entries w₀ (Nat.zero_le _)]
    · rw [World.submit_entries w₀ (Nat.zero_le _)]
      rfl
    · rw [World.submit_entries w₀ hl]
      exact (if_neg (by omega)).symm

/-- **A write-back can be completed** with all primitives served. -/
theorem World.Ready.exists_complete {w₀ : World P} (hready : w₀.Ready args)
    (hfits : args.Fits w₀.degree snap w₀.settled) :
    ∃ w, (w₀.submit args).Reaches w ∧ w.obj.state = .complete ∧ w.leafFailed = false := by
  have hin := hready.inRun
  have hentry : ((w₀.submit args).obj.entries 0).state = .pending := by
    rw [World.submit_entries w₀ (Nat.zero_le args.n)]
  obtain ⟨w₁, hstep₁, hin₁, hcrypto₁⟩ := hin.generatedCrypto hfits rfl hentry
  obtain ⟨w₂, hstep₂, hin₂, hnext₂⟩ := hin₁.cryptoCompleted hcrypto₁ true
  obtain ⟨hstate₂, hentry₂⟩ := hnext₂ rfl
  obtain ⟨w₃, hstep₃, hin₃, hio₃⟩ := hin₂.generatedIo hfits hstate₂ hentry₂
  obtain ⟨w₄, hstep₄, hin₄, hnext₄⟩ := hin₃.ioCompleted hfits hio₃ true
  obtain ⟨s, hnode, hrest⟩ := hnext₄ rfl
  obtain ⟨w, hrun, hdone⟩ := hnode.exists_complete hin₄ hfits hrest
  have hrun₄ : (w₀.submit args).Reaches w₄ :=
    ((((Runs.Run.refl _).tail .generatedCrypto trivial hstep₁).tail (.cryptoCompleted true) trivial
      hstep₂).tail .generatedIo trivial hstep₃).tail (.ioCompleted true) trivial hstep₄
  exact ⟨w, hrun₄.trans hrun, hdone⟩

/-- **What is asked of a completed write-back**: it ends with a success exactly when no
primitive of the leaf has failed, and then the tree under the root that it returns has
the leaf written. -/
structure World.Sound (w₀ : World P) (args : Args P) (snap : Snapshot) (w : World P) : Prop where
  /-- It has succeeded exactly when no primitive of the leaf has failed. -/
  success : w.obj.peekCompletedPrimitive.valid = true →
    (w.obj.peekCompletedPrimitive.success = true ↔ w.leafFailed = false)
  /-- With a success, the tree under the new root has the leaf written. -/
  tree : w.obj.peekCompletedPrimitive.valid = true → w.leafFailed = false →
    ∃ root hash, w.obj.peekCompletedRoot w.obj.peekCompletedPrimitive = some root
      ∧ w.obj.peekCompletedRootHash w.obj.peekCompletedPrimitive = some hash
      ∧ TreeUpdated args w₀.keyId w₀.degree snap w₀.settled w.settled root hash

/-- **The failure of an earlier write-back stays** as long as the leaf does not
fail. -/
theorem InRun.pendingFailure_eq (h : InRun args keyId degree blocks flag w)
    (hfailed : w.leafFailed = false) : w.obj.pendingFailure = flag := by
  cases h.stage with
  | leaf _ _ _ _ _ hflag => exact hflag
  | node _ _ hnode => exact hnode.flag_eq
  | done _ _ _ _ _ _ _ hflag => exact hflag
  | failed _ _ _ _ _ hf => exact absurd (hf.symm.trans hfailed) (by decide)

/-- Only a complete write-back is returned. -/
theorem peekCompletedPrimitive_valid {obj : WriteBack}
    (h : obj.peekCompletedPrimitive.valid = true) :
    obj.state = .complete
      ∧ obj.peekCompletedPrimitive
        = { obj.pendingPrimitive with success := !obj.pendingFailure } := by
  unfold peekCompletedPrimitive at h ⊢
  split_ifs at h ⊢ with hvalid hstate
  · exact absurd h (by decide)
  · exact absurd h (by decide)
  · exact ⟨not_not.mp hstate, rfl⟩

/-- A complete write-back is returned with the failure that was noted. -/
theorem peekCompletedPrimitive_of_complete {obj : WriteBack}
    (hvalid : obj.pendingPrimitive.valid = true) (hstate : obj.state = .complete) :
    obj.peekCompletedPrimitive = { obj.pendingPrimitive with success := !obj.pendingFailure } := by
  unfold peekCompletedPrimitive
  rw [if_neg (by rw [hvalid]; decide), if_neg (not_not.mpr hstate)]

/-- **A write-back is returned with what it has done** when no failure was noted before
it and no other address has its child indices. -/
theorem InRun.sound {w₀ : World P} (h : InRun args w₀.keyId w₀.degree w₀.settled false w)
    (hfits : args.Fits w₀.degree snap w₀.settled) (halone : args.Alone w₀.degree snap) :
    w₀.Sound args snap w := by
  refine ⟨fun hvalid => ?_, fun hvalid hfailed => ?_⟩
  · obtain ⟨hcomplete, hpeek⟩ := peekCompletedPrimitive_valid hvalid
    rw [hpeek]
    show (!w.obj.pendingFailure) = true ↔ _
    cases h.stage with
    | leaf hleaf =>
      cases hleaf with
      | crypto hs => exact absurd (hcomplete.symm.trans hs) (by decide)
      | cryptoBusy hs => exact absurd (hcomplete.symm.trans hs) (by decide)
      | io hs => exact absurd (hcomplete.symm.trans hs) (by decide)
      | ioBusy hs => exact absurd (hcomplete.symm.trans hs) (by decide)
    | node _ _ hnode => exact absurd (hcomplete.symm.trans hnode.state) (by decide)
    | done _ _ _ _ _ _ _ hflag hfailed => simp [hflag, hfailed]
    | failed _ _ _ _ hflag hfailed => simp [hflag, hfailed]
  · obtain ⟨hcomplete, hpeek⟩ := peekCompletedPrimitive_valid hvalid
    rw [hpeek]
    have hpending : w.obj.PendingPrimitiveComplete
        { w.obj.pendingPrimitive with success := !w.obj.pendingFailure } := ⟨hcomplete, rfl⟩
    cases h.stage with
    | leaf hleaf =>
      cases hleaf with
      | crypto hs => exact absurd (hcomplete.symm.trans hs) (by decide)
      | cryptoBusy hs => exact absurd (hcomplete.symm.trans hs) (by decide)
      | io hs => exact absurd (hcomplete.symm.trans hs) (by decide)
      | ioBusy hs => exact absurd (hcomplete.symm.trans hs) (by decide)
    | node _ _ hnode => exact absurd (hcomplete.symm.trans hnode.state) (by decide)
    | done _ _ _ s hup hsettled =>
      refine ⟨args.newPbas args.n, w.obj.hashes args.n, ?_, ?_, ?_⟩
      · unfold peekCompletedRoot
        rw [if_pos hpending, h.holds.levels, h.holds.updatePba args.n le_rfl]
      · unfold peekCompletedRootHash
        rw [if_pos hpending, h.holds.levels]
      · rw [hsettled]
        exact (treeUpdated_iff hfits (pathUpdated_of_upTo hfits hup)).mpr halone
    | failed _ _ _ _ _ hf => exact absurd (hf.symm.trans hfailed) (by decide)

/-- **Whatever the order of the steps, a write-back is returned with what it has done**,
exactly when no primitive of an earlier write-back has failed and no other address of
the tree has the child indices of the one written. -/
theorem World.ends_iff {w₀ : World P} (hfits : args.Fits w₀.degree snap w₀.settled)
    (hready : w₀.Ready args) :
    (∀ w, (w₀.submit args).Reaches w → w₀.Sound args snap w)
      ↔ w₀.obj.pendingFailure = false ∧ args.Alone w₀.degree snap := by
  have hin := hready.inRun
  constructor
  · intro hall
    obtain ⟨w, hrun, hcomplete, hfailed⟩ := hready.exists_complete hfits
    have hsound := hall w hrun
    have hinw := hin.reaches hfits hrun
    have hprim : w.obj.pendingPrimitive.valid = true := by
      rw [hinw.holds.prim]
      exact hfits.valid
    have hpeek := peekCompletedPrimitive_of_complete hprim hcomplete
    have hvalid : w.obj.peekCompletedPrimitive.valid = true := by
      rw [hpeek]
      exact hprim
    obtain ⟨root, hash, -, -, htree⟩ := hsound.tree hvalid hfailed
    refine ⟨?_, (treeUpdated_iff hfits htree.toPathUpdated).mp htree⟩
    have hsuccess := (hsound.success hvalid).mpr hfailed
    rw [hpeek] at hsuccess
    have hnone : w.obj.pendingFailure = false := by simpa using hsuccess
    exact (hinw.pendingFailure_eq hfailed).symm.trans hnone
  · rintro ⟨hflag, halone⟩ w hrun
    rw [hflag] at hin
    exact (hin.reaches hfits hrun).sound hfits halone

end

/-! ## Two write-backs of a small tree

The tree has two leaves below its root. The first write-back fails, the second
one is for the other leaf and all its primitives succeed. -/

/-- A tree of two leaves. -/
def sampleSnap : Snapshot where
  hash := 0
  pba := 8
  gen := 1
  nrOfLeafs := 2
  maxLevel := 1
  valid := true
  id := 0
  keep := false

/-- The root of the tree has its leaves in the blocks 4 and 5. -/
def sampleBlocks (pba : ℕ) : Platform.sample.Block :=
  (fun i => if pba = 8 then { pba := 4 + i.val, gen := 1, hash := 0 } else type1NodeInvalid, [])

/-- The write-back of one of the leaves, to unused blocks. -/
def sampleArgs (vba : ℕ) : Args Platform.sample where
  prim :=
    { valid := true
      operation := .write
      success := false
      tag := .wbCache
      poolIdxSlot := some 0
      blockNumber := vba
      index := 0 }
  gen := 2
  vba := vba
  newPbas l := 10 + 2 * vba + l
  oldPbas l := nodeAt (storeOf sampleBlocks) 2 sampleSnap vba l
  n := 1
  data := Platform.sample.zero

/-- A primitive for the cache that is not in use. -/
def CachePrim.sample : CachePrim Platform.sample where
  prim := IoPrimitive.invalidObject
  state := .invalid
  data := Platform.sample.zero

/-- The library at the start. -/
def World.sample : World Platform.sample where
  obj := initializedObject
  wbData := Platform.sample.zero
  keyId := 1
  degree := 2
  wbPrim := IoPrimitive.invalidObject
  wbUpdatePba := 0
  cachePrim1 := CachePrim.sample
  cachePrim2 := CachePrim.sample
  cachePrim3 := CachePrim.sample
  blocks := sampleBlocks
  crypto := none
  io := none
  cacheJob := none
  leafFailed := false

/-- The library at the start is ready for both write-backs. -/
theorem World.sample_ready (vba : ℕ) : World.sample.Ready (sampleArgs vba) where
  crypto := rfl
  io := rfl
  rest := Or.inl ⟨rfl, rfl, rfl, rfl, rfl⟩
  apart := fun _ h => absurd h (by simp [World.sample])

/-- The arguments fit the small tree. -/
theorem sampleArgs_fits : ∀ vba < 2, (sampleArgs vba).Fits 2 sampleSnap sampleBlocks := by
  have hfresh : ∀ vba < 2, ∀ l ≤ 1, ∀ k ≤ 1, ∀ v < 2,
      (nodeAt (storeOf sampleBlocks) 2 sampleSnap v k).pba ≠ 10 + 2 * vba + l := by decide +kernel
  have hwalk : ∀ vba < 2, ∀ l k, 1 ≤ l → l < k → k ≤ 1 →
      ((sampleArgs vba).oldPbas l).pba ≠ ((sampleArgs vba).oldPbas k).pba :=
    fun vba _ l k h1 hlk hk => by omega
  intro vba hvba
  exact ⟨⟨by decide, by decide⟩, rfl, by simp [sampleArgs], rfl, le_rfl, hvba, fun l _ => rfl,
    hwalk vba hvba, fun l k hlk hk => by simp only [sampleArgs]; omega,
    fun l hl k hk v hv h => absurd h (hfresh vba hvba l hl k hk v hv),
    fun v hv h => absurd h (hfresh vba hvba 0 (by decide) 0 (by decide) v hv)⟩

/-- Its two leaves are told apart by their child indices. -/
theorem sampleArgs_alone : ∀ vba < 2, (sampleArgs vba).Alone 2 sampleSnap := by
  have hdigits : ∀ vba < 2, ∀ v < 2,
      childIdxForVba v 1 2 = childIdxForVba vba 1 2 → v = vba := by decide +kernel
  exact fun vba hvba v hv h => hdigits vba hvba v hv (h 0 le_rfl (by decide))

/-- The first write-back, complete. -/
theorem World.ends_iff_sample :
    ∃ w, (World.sample.submit (sampleArgs 0)).Reaches w ∧ w.obj.state = .complete
      ∧ World.sample.Sound (sampleArgs 0) sampleSnap w := by
  have hfits : (sampleArgs 0).Fits World.sample.degree sampleSnap World.sample.settled :=
    sampleArgs_fits 0 (by decide)
  obtain ⟨w, hrun, hcomplete, -⟩ := (World.sample_ready 0).exists_complete hfits
  exact ⟨w, hrun, hcomplete, (World.ends_iff hfits (World.sample_ready 0)).mpr
    ⟨rfl, sampleArgs_alone 0 (by decide)⟩ w hrun⟩

/-- **A failure outlives its write-back**: the encryption of the first leaf fails, and
then the write-back of the other leaf is returned with a failure although all its
primitives were served. -/
theorem World.not_ends :
    ∃ w₁ w₂, (World.sample.submit (sampleArgs 0)).Reaches w₁ ∧ w₁.leafFailed = true
      ∧ w₁.completed = some w₂
      ∧ w₂.Ready (sampleArgs 1) ∧ (sampleArgs 1).Fits w₂.degree sampleSnap w₂.settled
      ∧ (sampleArgs 1).Alone w₂.degree sampleSnap
      ∧ ∃ w, (w₂.submit (sampleArgs 1)).Reaches w ∧ w.leafFailed = false
        ∧ w.obj.peekCompletedPrimitive.valid = true
        ∧ w.obj.peekCompletedPrimitive.success = false := by
  have hrun : (World.sample.submit (sampleArgs 0)).Reaches _ :=
    Runs.Run.of_foldlM [.generatedCrypto, .cryptoCompleted false] rfl
  obtain ⟨w₁, w₂, hrun₁, hfailed₁, hcompleted, hcrypto, hio, hidle, hdegree, hsettled, hflag⟩ :
      ∃ w₁ w₂ : World Platform.sample, (World.sample.submit (sampleArgs 0)).Reaches w₁
        ∧ w₁.leafFailed = true ∧ w₁.completed = some w₂ ∧ w₂.crypto = none ∧ w₂.io = none
        ∧ w₂.Idle ∧ w₂.degree = 2 ∧ w₂.settled = sampleBlocks
        ∧ w₂.obj.pendingFailure = true :=
    ⟨_, _, hrun, rfl, rfl, rfl, rfl, ⟨rfl, rfl, rfl, rfl, rfl⟩, rfl, rfl, rfl⟩
  have hready : w₂.Ready (sampleArgs 1) :=
    ⟨hcrypto, hio, Or.inl hidle, fun _ h => absurd h (by rw [hidle.job]; simp)⟩
  have hfits : (sampleArgs 1).Fits w₂.degree sampleSnap w₂.settled := by
    rw [hdegree, hsettled]
    exact sampleArgs_fits 1 (by decide)
  have halone : (sampleArgs 1).Alone w₂.degree sampleSnap := by
    rw [hdegree]
    exact sampleArgs_alone 1 (by decide)
  obtain ⟨w, hrunw, hcomplete, hfailed⟩ := hready.exists_complete hfits
  have hin := hready.inRun.reaches hfits hrunw
  have hvalid : w.obj.pendingPrimitive.valid = true := by
    rw [hin.holds.prim]
    rfl
  have hpeek := peekCompletedPrimitive_of_complete hvalid hcomplete
  have hpending : w.obj.pendingFailure = true := (hin.pendingFailure_eq hfailed).trans hflag
  refine ⟨w₁, w₂, hrun₁, hfailed₁, hcompleted, hready, hfits, halone, w, hrunw, hfailed, ?_, ?_⟩
  · rw [hpeek]
    exact hvalid
  · rw [hpeek]
    show (!w.obj.pendingFailure) = false
    rw [hpending]
    rfl

end WriteBack

end Cbe
