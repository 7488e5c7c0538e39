import Cbe.FreeTreeSupply
import Cbe.NewFreeTree

/-!
# The scan of the free tree, step by step

On a tree that is stored in the blocks, the module computes what
`FtNode.executeScan` says: it raises where that has no result, and otherwise it
leaves the scan with enough blocks found, the stacks prepared for the update, or
without (`World.scan_ends`). Up to then nothing is modified.

The source holds the traversal in stacks, one for each level, and takes one
small step per call: ask for the block of the node on top, check its hash, put
its children on the stack of the level below, go on there, and drop the node
once its children are done. A recursive function over the tree has no such
stacks. The two are brought together by saying, for every node, in which state
of the stacks its scan begins (`ScanStart`) and in which it ends (`ScanEnd`).

The induction is on the tree. Below a node, the stacks of the lower levels are
empty; what the stacks of the higher levels hold is not looked at, and stays.
The scan is over as soon as enough blocks were found, in the middle of the tree
if it comes to that, so `ScanEnd` has three cases: enough, more to come on the
same level, or nothing left at all.
-/

namespace Cbe

open PartialRun

/-- **A tree in the blocks**, under the entry of its root node, which is on a
level. A leaf block of the tree is at level 1; the entries of a node that are
not in use have no block. -/
def FtNode.StoredAt (P : FtPlatform) (blocks : ℕ → P.Block) : ℕ → Type1Node → FtNode → Prop
  | 1, node, .leafs entries => blocks node.pba = P.blockDataFromType2NodeBlock entries
  | lvl + 2, node, .inner nodes children =>
    blocks node.pba = P.blockDataFromType1NodeBlock nodes
      ∧ ∀ i, (nodes i).pba ≠ 0 → (children i).StoredAt P blocks (lvl + 1) (nodes i)
  | _, _, _ => False

namespace NewFreeTree

variable {P : FtPlatform}

/-! ## The steps that both traversals share

The scan and the update of the source read a node in the same three steps, and
answer a request of the module in the same way. What is said here is said of an
arbitrary state of the module, and both traversals use it. -/

/-- The lowest level with a node on its stack is the one worked on. -/
theorem Object.topLevel_eq {obj : Object P} {lvl : ℕ} (h1 : 1 ≤ lvl) (h6 : lvl ≤ treeMaxMaxLevel)
    (hne : obj.levelNStacks lvl ≠ []) (hbelow : ∀ l, 1 ≤ l → l < lvl → obj.levelNStacks l = []) :
    obj.topLevel = some lvl := by
  unfold Object.topLevel
  rw [List.find?_range'_eq_some]
  refine ⟨?_, ?_, fun l hl hlt => ?_⟩
  · rw [Bool.not_eq_true', List.isEmpty_eq_false_iff]
    exact hne
  · rw [List.mem_range'_1]
    exact ⟨h1, Nat.lt_of_le_of_lt h6 (by decide)⟩
  · rw [hbelow l hl hlt]
    rfl

namespace World

variable {w : World P} {lvl : ℕ} {info : Type1Info} {rest : List Type1Info}

/-- The module works where no request is pending. -/
theorem step_execute (hmeta : w.obj.metaTreeRequest.state ≠ .pending)
    (hcache : w.obj.cacheRequest.state ≠ .pending) :
    w.step = w.obj.execute.map w.setObj := by
  unfold step
  rw [if_neg hmeta, if_neg hcache]

/-- The next step of a world that comes from one of the module. -/
theorem step_setObj {obj : Object P} (hmeta : obj.metaTreeRequest.state ≠ .pending)
    (hcache : obj.cacheRequest.state ≠ .pending) :
    (w.setObj obj).step = obj.execute.map w.setObj := step_execute hmeta hcache

/-- The cache serves its request. -/
theorem step_serveCache (hmeta : w.obj.metaTreeRequest.state ≠ .pending)
    (hcache : w.obj.cacheRequest.state = .pending) : w.step = w.serveCache := by
  unfold step
  rw [if_neg hmeta, if_pos hcache]

/-- In one of the traversals, up to the raise at a node with a wrong hash. -/
def Working (s : State) (w : World P) : Prop :=
  w.obj.state = s ∨ w.obj.state = .treeHashMismatch

/-- The world once the cache was asked. -/
def requested (w : World P) (op : CacheOperation) (lvl pba : ℕ) : World P :=
  w.setObj (w.obj.requestCache op lvl pba)

/-- The world once the block of the node at hand was delivered. -/
def available (w : World P) (lvl : ℕ) (info : Type1Info) (rest : List Type1Info) : World P :=
  { w with
    reads := w.reads ++ [info.node.pba]
    obj :=
      { w.obj.setStack lvl ({ info with state := .available } :: rest) with
        cacheRequest := { state := .complete, op := .read, lvl := lvl, pba := info.node.pba }
        cacheBlockData := w.blocks info.node.pba } }

@[simp] theorem available_blocks : (w.available lvl info rest).blocks = w.blocks := rfl

@[simp] theorem available_metaPbas : (w.available lvl info rest).metaPbas = w.metaPbas := rfl

@[simp] theorem available_writes : (w.available lvl info rest).writes = w.writes := rfl

@[simp] theorem available_reads :
    (w.available lvl info rest).reads = w.reads ++ [info.node.pba] := rfl

/-- The world once a block with a wrong hash was delivered. -/
def mismatched (w : World P) (lvl : ℕ) (info : Type1Info) : World P :=
  { w with
    reads := w.reads ++ [info.node.pba]
    obj :=
      { w.obj with
        cacheRequest := { state := .complete, op := .read, lvl := lvl, pba := info.node.pba }
        state := .treeHashMismatch } }

/-- **The read of a node**: where its block has another hash than its entry, the
module raises; otherwise it goes on with the block. Both traversals begin every
node with it: the request to the cache, the answer, the comparison. -/
theorem readNode {s : State} {α : Type*} {o : Option α} {Q : α → World P → Prop} {tree : FtNode}
    (hstate : w.obj.state = s)
    (hmeta : w.obj.metaTreeRequest.state ≠ .pending)
    (hstack : w.obj.levelNStacks lvl = info :: rest)
    (hstart : w.step = some (w.requested .read lvl info.node.pba))
    (hblk : w.blocks info.node.pba = tree.blockData P.toPlatform)
    (h : checkNodeHash P.toPlatform tree info.node →
      Ends step (Working s) (w.available lvl info rest) o Q) :
    Ends step (Working s) w
      (if checkNodeHash P.toPlatform tree info.node then o else none) Q := by
  refine Ends.step (Or.inl hstate) hstart ?_
  have hserve : (w.requested .read lvl info.node.pba).step
      = some (if checkNodeHash P.toPlatform tree info.node then w.available lvl info rest
        else w.mismatched lvl info) := by
    rw [step_serveCache (w := w.requested .read lvl info.node.pba) hmeta rfl]
    unfold serveCache
    dsimp only [requested, setObj, Object.requestCache]
    rw [hstack]
    dsimp only
    rw [hblk]
    by_cases hhash : checkNodeHash P.toPlatform tree info.node
    · rw [if_pos (show P.hash (tree.blockData P.toPlatform) = info.node.hash from hhash),
        if_pos hhash]
      unfold available
      rw [hblk]
      rfl
    · rw [if_neg (show ¬ P.hash (tree.blockData P.toPlatform) = info.node.hash from hhash),
        if_neg hhash]
      rfl
  refine Ends.step (Or.inl hstate) hserve ?_
  by_cases hhash : checkNodeHash P.toPlatform tree info.node
  · rw [if_pos hhash, if_pos hhash]
    exact h hhash
  · rw [if_neg hhash, if_neg hhash]
    refine Ends.raise (Or.inr rfl) ?_
    rw [step_execute (w := w.mismatched lvl info) hmeta (by simp [mismatched])]
    rfl

/-- **Nothing was modified**: no block, neither the root nor the new blocks of
the request, and no block of the meta tree was taken. The scan only counts, and
where it does not find enough the request is answered as if nothing had
happened. -/
structure Still (w w' : World P) : Prop where
  /-- The root is the same. -/
  rootNode : w'.obj.rootNode = w.obj.rootNode
  /-- So is its level. -/
  maxLevel : w'.obj.maxLevel = w.obj.maxLevel
  /-- So is the request. -/
  req : w'.obj.req = w.obj.req
  /-- So are its blocks. -/
  newPbas : w'.obj.newPbas = w.obj.newPbas
  /-- Nothing was exchanged. -/
  exchangedBlocks : w'.obj.exchangedBlocks = w.obj.exchangedBlocks
  /-- No block has changed. -/
  blocks : w'.blocks = w.blocks
  /-- The meta tree has handed out nothing. -/
  metaPbas : w'.metaPbas = w.metaPbas
  /-- Nothing was written. -/
  writes : w'.writes = w.writes

theorem Still.refl (w : World P) : Still w w := ⟨rfl, rfl, rfl, rfl, rfl, rfl, rfl, rfl⟩

theorem Still.trans {w₁ w₂ w₃ : World P} (h : Still w₁ w₂) (h' : Still w₂ w₃) : Still w₁ w₃ where
  rootNode := h'.rootNode.trans h.rootNode
  maxLevel := h'.maxLevel.trans h.maxLevel
  req := h'.req.trans h.req
  newPbas := h'.newPbas.trans h.newPbas
  exchangedBlocks := h'.exchangedBlocks.trans h.exchangedBlocks
  blocks := h'.blocks.trans h.blocks
  metaPbas := h'.metaPbas.trans h.metaPbas
  writes := h'.writes.trans h.writes

end World

/-! ## The scan of one node

The states of the scan are named by what they hold: `Object.Scanning` while it
works on a level, `Object.ScanComplete` and `Object.NotEnough` at its two ends.
A node on the lowest level is counted in one step, once its block has been read;
a node above it is scanned through its children. -/

/-- No request of the module is under way. -/
structure Object.Idle (obj : Object P) : Prop where
  /-- The cache has nothing to do for it. -/
  cache : obj.cacheRequest.state = .invalid
  /-- The meta tree neither. -/
  metaTree : obj.metaTreeRequest.state = .invalid

/-- **The scan works on a level**: what the stack there holds, with nothing left
below. -/
structure Object.Scanning (obj : Object P) (lvl : ℕ) (stack : List Type1Info) (found : ℕ) :
    Prop where
  /-- The meta tree has nothing to do. -/
  metaTree : obj.metaTreeRequest.state = .invalid
  /-- The scan is under way. -/
  state : obj.state = .scan
  /-- So many usable entries were found. -/
  found : obj.foundBlocks = found
  /-- The scan does not use the stack of the entries. -/
  level0 : obj.level0Stack = []
  /-- The stack of the level holds what is left there. -/
  stack : obj.levelNStacks lvl = stack
  /-- Nothing is left below. -/
  below : ∀ l, 1 ≤ l → l < lvl → obj.levelNStacks l = []

/-- The scan has found enough, and the stacks are prepared for the update. -/
structure Object.ScanComplete (obj : Object P) : Prop where
  /-- No request of the module is under way. -/
  idle : obj.Idle
  /-- The scan is complete. -/
  state : obj.state = .scanComplete
  /-- The stack of the entries is empty. -/
  level0 : obj.level0Stack = []
  /-- The other stacks hold the root and nothing else. -/
  levelNStacks : obj.levelNStacks = rootStacks obj.rootNode obj.maxLevel obj.req.currentGen

/-- The scan is over without enough blocks. -/
structure Object.NotEnough (obj : Object P) : Prop where
  /-- No request of the module is under way. -/
  idle : obj.Idle
  /-- The scan has not found enough. -/
  state : obj.state = .notEnoughFreeBlocks

namespace Object

variable {obj : Object P} {lvl found : ℕ} {info : Type1Info} {rest : List Type1Info}

/-- Without a level-1 node at hand there is nothing to count. -/
theorem checkType2Stack_eq (h0 : obj.level0Stack = [])
    (h1 : ∀ i r, obj.levelNStacks 1 = i :: r → i.state ≠ .read) : obj.checkType2Stack = obj := by
  unfold checkType2Stack
  cases hs : obj.levelNStacks 1 with
  | nil =>
    rw [h0]
    cases obj
    simp_all
  | cons i r =>
    dsimp only
    rw [if_neg (h1 i r hs), h0]
    cases obj
    simp_all

/-- The scan takes the node at hand a state further, when that is not read or is
above the lowest level. -/
theorem Scanning.executeScan_eq (h : obj.Scanning lvl (info :: rest) found) (h1 : 1 ≤ lvl)
    (h6 : lvl ≤ treeMaxMaxLevel) (hread : lvl = 1 → info.state ≠ .read) :
    obj.executeScan = obj.scanNode lvl info rest := by
  have hcheck : obj.checkType2Stack = obj := by
    refine checkType2Stack_eq h.level0 fun i r hi => ?_
    rcases Nat.lt_or_eq_of_le h1 with hlt | heq
    · rw [h.below 1 (le_refl 1) hlt] at hi
      exact absurd hi (by simp)
    · rw [heq, h.stack] at hi
      rw [← (List.cons.inj hi).1]
      exact hread heq.symm
  have htop : obj.topLevel = some lvl :=
    topLevel_eq h1 h6 (by rw [h.stack]; exact List.cons_ne_nil _ _) h.below
  unfold executeScan
  rw [hcheck]
  dsimp only
  rw [htop]
  dsimp only
  rw [h.stack]

/-- The step of the world that comes from it. -/
theorem Scanning.step_setObj {w : World P} (h : obj.Scanning lvl (info :: rest) found)
    (hcache : obj.cacheRequest.state ≠ .pending) (h1 : 1 ≤ lvl) (h6 : lvl ≤ treeMaxMaxLevel)
    (hread : lvl = 1 → info.state ≠ .read) :
    (w.setObj obj).step = (obj.scanNode lvl info rest).map w.setObj := by
  rw [World.step_setObj (by rw [h.metaTree]; decide) hcache]
  unfold execute
  rw [h.state]
  dsimp only
  rw [h.executeScan_eq h1 h6 hread]

/-- The step of a world whose module is scanning. -/
theorem Scanning.step_eq {w : World P} (h : w.obj.Scanning lvl (info :: rest) found)
    (hcache : w.obj.cacheRequest.state ≠ .pending) (h1 : 1 ≤ lvl) (h6 : lvl ≤ treeMaxMaxLevel)
    (hread : lvl = 1 → info.state ≠ .read) :
    w.step = (w.obj.scanNode lvl info rest).map w.setObj := h.step_setObj hcache h1 h6 hread

end Object

namespace World

variable {w w₀ : World P} {lvl found : ℕ} {info : Type1Info} {rest : List Type1Info}

/-- **What becomes of the scan at the end of a node**: with enough blocks found
it is complete, whatever else was on the stacks; with more nodes to come it goes
on with the next one of the level; at the root it is over without enough. -/
structure ScanEnd (w₀ : World P) (lvl : ℕ) (rest : List Type1Info) (found : ℕ) (w : World P) :
    Prop where
  /-- Nothing was modified. -/
  still : Still w₀ w
  /-- With enough found, the scan is complete. -/
  enough : w₀.obj.req.requestedBlocks ≤ found → w.obj.ScanComplete
  /-- Otherwise it goes on with the rest of the level. -/
  next : found < w₀.obj.req.requestedBlocks → lvl < w₀.obj.maxLevel →
    w.obj.Scanning lvl rest found ∧ w.obj.cacheRequest.state = .invalid
      ∧ ∀ l, lvl < l → w.obj.levelNStacks l = w₀.obj.levelNStacks l
  /-- At the root it is over. -/
  last : found < w₀.obj.req.requestedBlocks → lvl = w₀.obj.maxLevel → w.obj.NotEnough

/-- The scan leaves a node that it is done with. -/
theorem scanEnd_of_complete {obj : Object P} (hstill : Still w₀ (w.setObj obj))
    (h : obj.Scanning lvl (info :: rest) found) (hcache : obj.cacheRequest.state = .invalid)
    (hupper : ∀ l, lvl < l → obj.levelNStacks l = w₀.obj.levelNStacks l)
    (hcomplete : info.state = .complete) :
    ∃ obj', obj.scanNode lvl info rest = some obj'
      ∧ ScanEnd w₀ lvl rest found (w.setObj obj') := by
  have hreq : obj.req = w₀.obj.req := hstill.req
  have hmax : obj.maxLevel = w₀.obj.maxLevel := hstill.maxLevel
  unfold Object.scanNode
  rw [hcomplete]
  dsimp only
  by_cases henough : obj.req.requestedBlocks ≤ obj.foundBlocks
  · rw [if_pos henough]
    rw [h.found, hreq] at henough
    exact ⟨_, rfl, ⟨hstill.rootNode, hmax, hreq, hstill.newPbas, hstill.exchangedBlocks,
      hstill.blocks, hstill.metaPbas, hstill.writes⟩,
      fun _ => ⟨⟨hcache, h.metaTree⟩, rfl, h.level0, rfl⟩,
      fun hlt => absurd henough (Nat.not_le.mpr hlt),
      fun hlt => absurd henough (Nat.not_le.mpr hlt)⟩
  · rw [if_neg henough]
    rw [h.found, hreq] at henough
    by_cases htop : lvl = obj.maxLevel
    · rw [if_pos htop]
      exact ⟨_, rfl, ⟨hstill.rootNode, hmax, hreq, hstill.newPbas, hstill.exchangedBlocks,
        hstill.blocks, hstill.metaPbas, hstill.writes⟩, fun hle => absurd hle henough,
        fun _ hlt => absurd (htop.trans hmax) hlt.ne,
        fun _ _ => ⟨⟨hcache, h.metaTree⟩, rfl⟩⟩
    · rw [if_neg htop]
      refine ⟨_, rfl, ⟨hstill.rootNode, hmax, hreq, hstill.newPbas, hstill.exchangedBlocks,
        hstill.blocks, hstill.metaPbas, hstill.writes⟩, fun hle => absurd hle henough,
        fun _ _ => ⟨⟨h.metaTree, h.state, h.found, h.level0, ?_, ?_⟩, hcache, ?_⟩,
        fun _ heq => absurd (heq.trans hmax.symm) htop⟩
      · exact Function.update_self _ _ _
      · intro l h1 hl
        show Function.update obj.levelNStacks lvl rest l = []
        rw [Function.update_of_ne hl.ne]
        exact h.below l h1 hl
      · intro l hl
        show Function.update obj.levelNStacks lvl rest l = _
        rw [Function.update_of_ne hl.ne']
        exact hupper l hl

/-- The scan works on a node of a level that no block was asked for yet. -/
structure ScanStart (w : World P) (lvl : ℕ) (info : Type1Info) (rest : List Type1Info)
    (found : ℕ) : Prop where
  /-- The node is on top of the stack of its level. -/
  scanning : w.obj.Scanning lvl (info :: rest) found
  /-- The cache has nothing to do. -/
  cache : w.obj.cacheRequest.state = .invalid
  /-- Nothing was done for the node yet. -/
  fresh : info.state = .invalid
  /-- It is not a leaf. -/
  pos : 1 ≤ lvl
  /-- Its level is one that a tree may have. -/
  le : lvl ≤ treeMaxMaxLevel

/-- The scan begins with the read of the node, and ends there if the hash is
wrong. -/
theorem ScanStart.readNode {α : Type*} {o : Option α} {Q : α → World P → Prop} (tree : FtNode)
    (h : ScanStart w lvl info rest found)
    (hblk : w.blocks info.node.pba = tree.blockData P.toPlatform)
    (hnext : Ends step (Working .scan) (w.available lvl info rest) o Q) :
    Ends step (Working .scan) w
      (if checkNodeHash P.toPlatform tree info.node then o else none) Q := by
  refine World.readNode h.scanning.state (by rw [h.scanning.metaTree]; decide) h.scanning.stack ?_
    hblk fun _ => hnext
  rw [h.scanning.step_eq (by rw [h.cache]; decide) h.pos h.le fun _ => by rw [h.fresh]; decide]
  unfold Object.scanNode
  rw [h.fresh]
  dsimp only
  rw [if_neg (not_not.mpr h.cache)]
  rfl

/-- Once its block was delivered, the node is still the one at hand. -/
theorem ScanStart.available (h : ScanStart w lvl info rest found) :
    (w.available lvl info rest).obj.Scanning lvl ({ info with state := .available } :: rest)
      found where
  metaTree := h.scanning.metaTree
  state := h.scanning.state
  found := h.scanning.found
  level0 := h.scanning.level0
  stack := Function.update_self _ _ _
  below l h1 hl := (Function.update_of_ne hl.ne _ _).trans (h.scanning.below l h1 hl)

/-- The level-1 node at hand with its usable entries counted. -/
def counted (w : World P) (info : Type1Info) (rest : List Type1Info) (entries : Type2NodeBlock) :
    Object P :=
  { (w.available 1 info rest).obj.dropCache with
    foundBlocks := w.obj.foundBlocks + (populateLevel0Stack w.obj.req entries).length
    level0Stack := []
    level0Node := entries
    levelNStacks :=
      Function.update w.obj.levelNStacks 1 ({ info with state := .complete } :: rest) }

/-- **The children of an inner node are being scanned**: the ones left are on the
stack below the node, unless enough was found already. -/
structure ScanChildren (w : World P) (lvl : ℕ) (info : Type1Info) (rest : List Type1Info)
    (nodes : Type1NodeBlock) (left : List (Fin nodesPerBlock)) (found : ℕ) (t : World P) :
    Prop where
  /-- Nothing was modified. -/
  still : Still w t
  /-- With enough found, the scan is complete. -/
  enough : w.obj.req.requestedBlocks ≤ found → t.obj.ScanComplete
  /-- Otherwise the children that are left are on the stack below the node. -/
  next : found < w.obj.req.requestedBlocks →
    t.obj.Scanning lvl (left.map fun i => newInfo w.obj.req.currentGen (nodes i) i) found
      ∧ t.obj.cacheRequest.state = .invalid
      ∧ t.obj.levelNStacks (lvl + 1) = { info with state := .read } :: rest
      ∧ ∀ l, lvl + 1 < l → t.obj.levelNStacks l = w.obj.levelNStacks l

/-- What is below a level once the children of the node there are done. -/
theorem below_succ {obj : Object P} (h : ∀ l, 1 ≤ l → l < lvl → obj.levelNStacks l = [])
    (hlvl : obj.levelNStacks lvl = []) : ∀ l, 1 ≤ l → l < lvl + 1 → obj.levelNStacks l = [] := by
  intro l h1 hl
  rcases Nat.lt_or_eq_of_le (Nat.le_of_lt_succ hl) with hlt | rfl
  · exact h l h1 hlt
  · exact hlvl

/-- **The scan leaves an inner node** whose children are done, if it has not
found enough on the way. -/
theorem ScanChildren.end_ {nodes : Type1NodeBlock} {t : World P}
    (h : ScanChildren w lvl info rest nodes [] found t) (h1 : 1 ≤ lvl)
    (h6 : lvl + 1 ≤ treeMaxMaxLevel) :
    ∃ u, Leads step (Working .scan) t u ∧ ScanEnd w (lvl + 1) rest found u ∧ u.reads = t.reads := by
  by_cases henough : w.obj.req.requestedBlocks ≤ found
  · exact ⟨t, .refl t, ⟨h.still, fun _ => h.enough henough,
      fun hlt => absurd henough (Nat.not_le.mpr hlt),
      fun hlt => absurd henough (Nat.not_le.mpr hlt)⟩, rfl⟩
  · obtain ⟨hscan, hcache, hstack, hupper⟩ := h.next (Nat.lt_of_not_le henough)
    have hbelow := below_succ hscan.below hscan.stack
    have hne : lvl + 1 ≠ 1 := Nat.succ_ne_succ_iff.mpr (Nat.one_le_iff_ne_zero.mp h1)
    have hread : t.obj.Scanning (lvl + 1) ({ info with state := .read } :: rest) found :=
      ⟨hscan.metaTree, hscan.state, hscan.found, hscan.level0, hstack, hbelow⟩
    -- the node is done, and the next call leaves it
    set obj := t.obj.setStack (lvl + 1) ({ info with state := .complete } :: rest) with hobj
    have hcomplete : obj.Scanning (lvl + 1) ({ info with state := .complete } :: rest) found := by
      refine ⟨hscan.metaTree, hscan.state, hscan.found, hscan.level0, ?_, fun l hl hlt => ?_⟩
      · rw [hobj]
        exact Function.update_self _ _ _
      · rw [hobj]
        exact (Function.update_of_ne hlt.ne _ _).trans (hbelow l hl hlt)
    have hstep₁ : t.step = some (t.setObj obj) := by
      rw [hread.step_eq (by rw [hcache]; decide) (Nat.succ_pos _) h6 fun heq => absurd heq hne]
      rfl
    have hstill : Still w (t.setObj obj) :=
      ⟨h.still.rootNode, h.still.maxLevel, h.still.req, h.still.newPbas, h.still.exchangedBlocks,
        h.still.blocks, h.still.metaPbas, h.still.writes⟩
    obtain ⟨obj', hobj', hend⟩ := scanEnd_of_complete hstill hcomplete hcache
      (fun l hl => by
        rw [hobj]
        exact (Function.update_of_ne hl.ne' _ _).trans (hupper l hl)) rfl
    have hstep₂ : (t.setObj obj).step = some (t.setObj obj') := by
      rw [hcomplete.step_setObj (by rw [show obj.cacheRequest.state = _ from hcache]; decide)
        (Nat.succ_pos _) h6 fun heq => absurd heq hne, hobj']
      rfl
    exact ⟨_, .head (Or.inl hscan.state) hstep₁ (.single (Or.inl hscan.state) hstep₂), hend, rfl⟩

end World

end NewFreeTree

end Cbe
