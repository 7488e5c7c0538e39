import Cbe.InitLibrary
import Cbe.TreeBuilding
import Cbe.Support.Runs

/-!
# Runs of the init library

In each state of the superblock initializer a part of the image is on the block
device, and at most one of the other modules is at work on the next one
(`InitPhase`). What a request to block I/O is going to write counts as written
(`BlockIoEntry.settled`), so the steps of the backend change nothing.

`InitPlan` is the image that a request asks for: the three trees, each out of
the addresses and on the disk that the one before it leaves. Every call of
`Execute` goes on with the plan, part by part (`InitServing.execute`), so when
the library completes the request, the planned image is on the block device
(`imaged_of_run`).

A call of `Execute` goes through six procedures, one for each module, and every
one of them keeps `InitServing`. Between them the modules talk by handing
primitives over: the superblock initializer asks for a tree or for a slot to be
written, the initializer of a tree asks the block allocator for an address and
block I/O for a write, and each of them is told when its primitive is done. Who
has asked for an address is said by `AllocForVbd` and `AllocFor`; these hold
only within one call, since the block allocator answers before `Execute`
returns.

The invariant of a run, `InitInv`, has two cases: the library serves no request,
or it serves one and `InitServing` holds for the plan of that request.
-/

namespace Cbe

open LevelScan BottomUp ByteWalk

/-! ## Block I/O

The library writes one block at a time, through the only entry of block I/O. The
disk is taken with the write of that entry already on it, from the moment the
write is submitted until the backend is done. -/

/-- **The disk once the request of an entry is served.** -/
def BlockIoEntry.settled (entry : BlockIoEntry) (buf : BlockData) (disk : Disk) : Disk :=
  if entry.state ≠ .unused ∧ entry.prim.operation = .write
      ∧ ¬ (entry.state = .complete ∧ entry.prim.success = true) then
    Function.update disk entry.prim.blockNumber buf
  else disk

section

variable {entry : BlockIoEntry} {buf : BlockData} {disk : Disk}

/-- Without a request the disk stays as it is. -/
theorem settled_of_unused (h : entry.state = .unused) : entry.settled buf disk = disk :=
  if_neg fun hnot => hnot.1 h

/-- A request that is done has been served already. -/
theorem settled_of_complete (h : entry.state = .complete) (hsucc : entry.prim.success = true) :
    entry.settled buf disk = disk :=
  if_neg fun hnot => hnot.2.2 ⟨h, hsucc⟩

/-- A request that was submitted: a write is going to be served. -/
theorem settled_submitPrimitive {io io' : BlockIoObject} {tag : IoTag} {prim : IoPrimitive}
    {idx : DataIndex} (buf : BlockData) (disk : Disk)
    (h : io.submitPrimitive tag prim = some (io', idx)) :
    (io.entries 0).settled buf disk = disk ∧ ∀ data, (io'.entries 0).settled data disk
      = if prim.operation = .write then Function.update disk prim.blockNumber data else disk := by
  obtain ⟨prim', hprim, h⟩ := Option.bind_eq_some_iff.mp h
  obtain ⟨hunused, hentry, -⟩ := BlockIoObject.submitEntry_spec h
  obtain rfl := Option.some.inj (Option.ite_none_left_eq_some.mp hprim).2
  refine ⟨settled_of_unused hunused, fun data => ?_⟩
  rw [hentry]
  by_cases hop : prim.operation = .write
  · rw [if_pos hop]
    exact if_pos ⟨by simp, hop, fun hnot => (by simp at hnot)⟩
  · rw [if_neg hop]
    exact if_neg fun hnot => hop hnot.2.1

end

/-! ## An initializer with the block allocator and block I/O

What an initializer of a tree builds next is determined by the addresses that
are still to be handed out and by the disk. Handing its primitive over moves
both on together with the initializer. -/

/-- The next address that the block allocator hands out. -/
def BlockAllocator.total (blkAlloc : BlockAllocator) : ℕ := blkAlloc.firstBlk + blkAlloc.nrOfBlks

section

variable {Leaf : Type} {k : TreeInitKind Leaf} {sha : BlockData → Hash} {obj obj' : TreeInit Leaf}
  {blkAlloc blkAlloc' : BlockAllocator} {blkIo blkIo' : BlockIoObject} {buf buf' : BlockData}
  {disk : Disk} {total : ℕ} {r : Type1Node × Stock BlockData}

/-- **The generated primitive is handed over**, to the block allocator or to
block I/O, and the tree that the initializer is going to build is the same as
before. -/
theorem TreeInit.Building.submitGenerated (hk : 1 ≤ k.kind.minMaxLevel)
    (htags : k.tagBlkAlloc ≠ k.tagBlkIo)
    (h : obj.Building k sha total ((blkIo.entries 0).settled buf disk) r)
    (hidle : blkAlloc.prim.valid = false)
    (hrun : obj.submitGenerated k blkAlloc blkIo buf = some (obj', blkAlloc', blkIo', buf')) :
    obj'.Building k sha total ((blkIo'.entries 0).settled buf' disk) r
      ∧ blkAlloc'.firstBlk = blkAlloc.firstBlk ∧ blkAlloc'.nrOfBlks = blkAlloc.nrOfBlks
      ∧ (blkAlloc'.prim.valid = true → blkAlloc'.prim = obj'.genPrim ∧ obj'.Waiting k)
      ∧ obj'.maxLvlIdx = obj.maxLvlIdx := by
  have hsame : some (obj, blkAlloc, blkIo, buf) = some (obj', blkAlloc', blkIo', buf') →
      obj'.Building k sha total ((blkIo'.entries 0).settled buf' disk) r
        ∧ blkAlloc'.firstBlk = blkAlloc.firstBlk ∧ blkAlloc'.nrOfBlks = blkAlloc.nrOfBlks
        ∧ (blkAlloc'.prim.valid = true → blkAlloc'.prim = obj'.genPrim ∧ obj'.Waiting k)
        ∧ obj'.maxLvlIdx = obj.maxLvlIdx := fun heq => by
    simp only [Option.some.injEq, Prod.mk.injEq] at heq
    obtain ⟨rfl, rfl, rfl, rfl⟩ := heq
    exact ⟨h, rfl, rfl, fun hvalid => absurd (hidle.symm.trans hvalid) Bool.false_ne_true, rfl⟩
  unfold TreeInit.submitGenerated TreeInit.peekGeneratedPrimitive at hrun
  by_cases hdropped : obj.genPrimDropped = true
  · rw [if_pos hdropped] at hrun
    exact hsame hrun
  rw [if_neg hdropped] at hrun
  by_cases hgen : obj.genPrim.valid = false
  · exact hsame ((if_pos hgen).symm.trans hrun)
  replace hrun := (if_neg hgen).symm.trans hrun
  by_cases halloc : obj.genPrim.tag = k.tagBlkAlloc
  · replace hrun := (if_pos halloc).symm.trans hrun
    by_cases hacc : ¬ blkAlloc.PrimitiveAcceptable
    · exact hsame ((if_pos hacc).symm.trans hrun)
    replace hrun := (if_neg hacc).symm.trans hrun
    obtain ⟨alloc, hsubmit, hrun⟩ := Option.bind_eq_some_iff.mp hrun
    obtain ⟨dropped, hdrop, hrun⟩ := Option.bind_eq_some_iff.mp hrun
    simp only [Option.some.injEq, Prod.mk.injEq] at hrun
    obtain ⟨rfl, rfl, rfl, rfl⟩ := hrun
    obtain ⟨hfree, hsubmit⟩ := Option.ite_none_left_eq_some.mp hsubmit
    obtain rfl := Option.some.inj hsubmit
    obtain rfl := Option.some.inj (Option.ite_none_left_eq_some.mp hdrop).2
    refine ⟨h.dropAddress htags halloc, rfl, rfl, fun _ => ⟨rfl, ?_⟩, rfl⟩
    exact ⟨Bool.not_eq_false _ ▸ hgen, halloc, Bool.not_eq_true _ ▸ (not_or.mp hfree).2, rfl⟩
  replace hrun := (if_neg halloc).symm.trans hrun
  by_cases hio : obj.genPrim.tag = k.tagBlkIo
  · replace hrun := (if_pos hio).symm.trans hrun
    by_cases hacc : ¬ blkIo.PrimitiveAcceptable
    · exact hsame ((if_pos hacc).symm.trans hrun)
    replace hrun := (if_neg hacc).symm.trans hrun
    obtain ⟨⟨io, idx⟩, hsubmit, hrun⟩ := Option.bind_eq_some_iff.mp hrun
    obtain ⟨data, hdata, hrun⟩ := Option.bind_eq_some_iff.mp hrun
    obtain ⟨dropped, hdrop, hrun⟩ := Option.bind_eq_some_iff.mp hrun
    simp only [Option.some.injEq, Prod.mk.injEq] at hrun
    obtain ⟨rfl, rfl, rfl, rfl⟩ := hrun
    obtain rfl := Option.some.inj (Option.ite_none_left_eq_some.mp hdrop).2
    have hop : obj.genPrim.operation = .write := by
      obtain ⟨p, -, hasked⟩ := h.asked (Bool.not_eq_false _ ▸ hgen)
      cases hasked with
      | address htag => exact absurd (htag.symm.trans hio) htags
      | write _ _ _ _ _ hnew => exact (hnew (Bool.not_eq_true _ ▸ hdropped)).1
    obtain ⟨hbefore, hafter⟩ := settled_submitPrimitive buf disk hsubmit
    rw [hbefore] at h
    rw [hafter, if_pos hop]
    exact ⟨h.dropWrite hk htags (Bool.not_eq_false _ ▸ hgen) hio
      (Option.ite_none_left_eq_some.mp hdata).2, rfl, rfl,
      fun hvalid => absurd (hidle.symm.trans hvalid) Bool.false_ne_true, rfl⟩
  · exact absurd ((if_neg hio).symm.trans hrun) (by simp)

/-- `Execute` leaves the geometry of the tree alone. -/
theorem TreeInit.execute_maxLvlIdx (hrun : obj.execute k sha = some obj') :
    obj'.maxLvlIdx = obj.maxLvlIdx := by
  have hleaf : ∀ i, obj.executeLeafChild k i = some obj' → obj'.maxLvlIdx = obj.maxLvlIdx :=
    fun i h => by
      unfold TreeInit.executeLeafChild at h
      split at h
      · rw [← Option.some.inj h]
        rfl
      · split_ifs at h <;> rw [← Option.some.inj h] <;> rfl
      · rw [← Option.some.inj h]
  have hinner : ∀ p, obj.executeInnerChild k sha p = some obj' → obj'.maxLvlIdx = obj.maxLvlIdx :=
    fun p h => by
      unfold TreeInit.executeInnerChild at h
      split at h
      · split_ifs at h <;> rw [← Option.some.inj h] <;> rfl
      · split_ifs at h
        · rw [← Option.some.inj h]
          rfl
        · rw [← Option.some.inj h]
        · obtain ⟨data, -, rfl⟩ := Option.map_eq_some_iff.mp h
          rfl
      · split_ifs at h <;> rw [← Option.some.inj h] <;> rfl
      · rw [← Option.some.inj h]
  unfold TreeInit.execute at hrun
  split_ifs at hrun
  · rw [← Option.some.inj hrun]
  · cases hfirst : obj.firstOpen with
    | none =>
      rw [hfirst] at hrun
      rw [← Option.some.inj hrun]
      split_ifs <;> rfl
    | some p =>
      rw [hfirst] at hrun
      cases p with
      | leaf i => exact hleaf i hrun
      | inner lvl i => exact hinner _ hrun
      | root => exact hinner _ (Option.ite_none_right_eq_some.mp hrun).2
  · cases hfirst : obj.firstOpen with
    | none =>
      rw [hfirst] at hrun
      exact absurd hrun (by simp)
    | some p =>
      rw [hfirst] at hrun
      cases p with
      | leaf i => exact hleaf i hrun
      | inner lvl i => exact absurd hrun (by simp)
      | root => exact absurd hrun (by simp)

end

/-! ## The image that is asked for

The image is computed without the modules: three trees, each built by the
recursive function of the tree initializer, and eight superblock slots. It
depends on nothing but the geometry, the first free address and the disk before.
-/

/-- A tree out of the next addresses. -/
def TreeGeometry.build {Leaf : Type} (geo : TreeGeometry) (k : TreeInitKind Leaf)
    (sha : BlockData → Hash) (s : Stock BlockData) : Type1Node × Stock BlockData :=
  (k.maker sha).make (geo.degree - 1) (geo.maxLvlIdx - 1) ⟨geo.nrOfLeafs, s.next, s.disk⟩

/-- The levels are such that an initializer accepts them. -/
def TreeGeometry.LevelsOk {Leaf : Type} (geo : TreeGeometry) (k : TreeInitKind Leaf) : Prop :=
  k.kind.minMaxLevel ≤ geo.maxLvlIdx ∧ geo.maxLvlIdx < treeMaxMaxLevel

/-- **What a request asks for**: the geometry, the next address and the disk it starts with. -/
structure InitPlan where
  /-- The geometry. -/
  geo : Geometry
  /-- The next address that is free. -/
  start : ℕ
  /-- The disk at the beginning. -/
  disk : Disk

/-- **The trees one after the other**: the tree of the virtual block device, the free tree
and the meta tree. -/
def InitPlan.tree (p : InitPlan) (sha : BlockData → Hash) : ℕ → Type1Node × Stock BlockData
  | 0 => (type1NodeInvalid, ⟨0, p.start, p.disk⟩)
  | 1 => p.geo.vbd.build vbdInitializer sha ⟨0, p.start, p.disk⟩
  | n + 2 => p.geo.ft.build freeTreeInitializer sha (p.tree sha (n + 1)).2

/-- The superblock initializer knows the roots of the first trees. -/
structure InitPlan.Has (p : InitPlan) (sha : BlockData → Hash) (n : ℕ) (obj : SuperblockInit) :
    Prop where
  /-- The first tree is done, with levels that its initializer takes. -/
  vbd : 1 ≤ n → obj.vbd = (p.tree sha 1).1 ∧ p.geo.vbd.LevelsOk vbdInitializer
  /-- The free tree is done, with levels that its initializer takes. -/
  ft : 2 ≤ n → obj.ft = (p.tree sha 2).1 ∧ p.geo.ft.LevelsOk freeTreeInitializer
  /-- The meta tree is done. -/
  mt : 3 ≤ n → obj.mt = (p.tree sha 3).1

/-- **The first slots are written**: the first one with a superblock, the others with
invalid ones. -/
def SlotsWritten (sb : SuperblockCiphertext) (n : ℕ) (disk₀ disk : Disk) : Prop :=
  (∀ a, nrOfSuperblockSlots ≤ a → disk a = disk₀ a) ∧ ∀ i < n,
    (blockDataFromSuperblockCiphertext (if i = 0 then sb else superblockInvalid)).map Buffer.data
      = some (disk i)

/-- Before the first slot is written none is. -/
theorem SlotsWritten.zero (sb : SuperblockCiphertext) (disk : Disk) : SlotsWritten sb 0 disk disk :=
  ⟨fun _ _ => rfl, fun _ hi => absurd hi (Nat.not_lt_zero _)⟩

/-- **The next slot is written**: the first of them with the superblock of the
image, the others with an invalid one. -/
theorem SlotsWritten.succ {sb : SuperblockCiphertext} {n : ℕ} {disk₀ disk : Disk}
    (h : SlotsWritten sb n disk₀ disk) (hn : n < nrOfSuperblockSlots) {data : BlockData}
    (hdata : (blockDataFromSuperblockCiphertext (if n = 0 then sb else superblockInvalid)).map
      Buffer.data = some data) : SlotsWritten sb (n + 1) disk₀ (Function.update disk n data) := by
  refine ⟨fun a ha => ?_, fun i hi => ?_⟩
  · rw [Function.update_of_ne (lt_of_lt_of_le hn ha).ne']
    exact h.1 a ha
  · rcases Nat.lt_succ_iff_lt_or_eq.mp hi with hlt | rfl
    · rw [Function.update_of_ne hlt.ne]
      exact h.2 i hlt
    · rw [Function.update_self]
      exact hdata

/-! ## The phases

The states of the superblock initializer fall into two kinds: those in which the
number of finished trees is known, and those in which it is the number of slots.
In both a request may have been started, handed over, or answered. -/

/-- The request of the superblock initializer. -/
def SbInitRequest.prim (idx : SuperblocksIndex) : SbInitRequest → IoPrimitive
  | .vbd => .request .read .sbInitVbdInit 0
  | .ft => .request .write .sbInitFtInit idx
  | .mt => .request .write .sbInitMtInit idx
  | .taCreateKey => .request .read .sbInitTaCreateKey 0
  | .taEncryptKey => .request .read .sbInitTaEncryptKey 0
  | .write => .request .write .sbInitBlkIo idx
  | .sync => .request .sync .sbInitBlkIo idx

/-- The number of trees that are built, in a state where none is being built and no slot
was begun. -/
def SbInitState.treesBuilt : SbInitState → Option ℕ
  | .init | .started .vbd => some 0
  | .requestDone .vbd | .started .ft => some 1
  | .requestDone .ft | .started .mt => some 2
  | .requestDone .mt => some 3
  | .started .taCreateKey | .dropped .taCreateKey | .requestDone .taCreateKey => some 3
  | .started .taEncryptKey | .dropped .taEncryptKey | .requestDone .taEncryptKey => some 3
  | _ => none

/-- The number of slots from the current one on that are written. -/
def SbInitState.slotsDone : SbInitState → Option ℕ
  | .init | .started .write => some 0
  | .dropped .write | .requestDone .write => some 1
  | .started .sync | .dropped .sync | .requestDone .sync | .done => some 1
  | _ => none

/-- The superblock that the superblock initializer writes to the first slot. -/
def SuperblockInit.superblock (obj : SuperblockInit) (total : ℕ) : SuperblockCiphertext :=
  obj.validSbSlot 0 (total % 2 ^ 64)

/-- **What is on the disk and which module is at work.** Each constructor is a
stretch of the superblock initializer's states; in all of them the modules that
are not at work are as they were initialized. -/
inductive InitPhase (sha : BlockData → Hash) (p : InitPlan) (sbInit : SuperblockInit)
    (vbdInit : TreeInit Type1Node) (ftInit : TreeInit Type2Node) (total : ℕ) (disk : Disk) : Prop
  | trees (n : ℕ) (hst : sbInit.slotState.treesBuilt = some n) (hidx : sbInit.slotIdx = 0)
      (hvbd : vbdInit = TreeInit.initializeObject vbdInitializer)
      (hft : ftInit = TreeInit.initializeObject freeTreeInitializer) (hhas : p.Has sha n sbInit)
      (htotal : total = (p.tree sha n).2.next) (hdisk : disk = (p.tree sha n).2.disk)
  | vbd (hst : sbInit.slotState = .dropped .vbd) (hidx : sbInit.slotIdx = 0)
      (hft : ftInit = TreeInit.initializeObject freeTreeInitializer)
      (hbuild : vbdInit.Building vbdInitializer sha total disk (p.tree sha 1))
      (hlvl : vbdInit.maxLvlIdx = p.geo.vbd.maxLvlIdx)
  | ft (n : ℕ)
      (hst : sbInit.slotState = .dropped .ft ∧ n = 1 ∨ sbInit.slotState = .dropped .mt ∧ n = 2)
      (hidx : sbInit.slotIdx = 0) (hvbd : vbdInit = TreeInit.initializeObject vbdInitializer)
      (hhas : p.Has sha n sbInit)
      (hbuild : ftInit.Building freeTreeInitializer sha total disk (p.tree sha (n + 1)))
      (hlvl : ftInit.maxLvlIdx = p.geo.ft.maxLvlIdx)
  | slots (n : ℕ) (hst : sbInit.slotState.slotsDone = some n)
      (hinit : sbInit.slotState = .init → sbInit.slotIdx ≠ 0)
      (hvbd : vbdInit = TreeInit.initializeObject vbdInitializer)
      (hft : ftInit = TreeInit.initializeObject freeTreeInitializer) (hhas : p.Has sha 3 sbInit)
      (hslot : sbInit.slotState = .started .write →
        sbInit.slot = if sbInit.slotIdx.val = 0 then sbInit.superblock total else superblockInvalid)
      (htotal : total = (p.tree sha 3).2.next)
      (hslots : SlotsWritten (sbInit.superblock total) (sbInit.slotIdx.val + n)
        (p.tree sha 3).2.disk disk)

/-- **The library serves a request.** `disk` is the disk once block I/O is done. -/
structure InitServing (sha : BlockData → Hash) (p : InitPlan) (lib : InitLibrary) (disk : Disk) :
    Prop where
  /-- The superblock initializer has the primitive of the library. -/
  submitted : lib.sbInit.submittedPrim = libSbInitPrim
  /-- It knows the geometry of the first tree. -/
  vbdGeo : lib.sbInit.vbdGeo = p.geo.vbd
  /-- It knows that of the free tree. -/
  ftGeo : lib.sbInit.ftGeo = p.geo.ft
  /-- The meta tree has the geometry of the free tree. -/
  mtGeo : lib.sbInit.mtGeo = p.geo.ft
  /-- The allocator starts behind the slots. -/
  firstBlk : lib.blkAlloc.firstBlk = nrOfSuperblockSlots
  /-- What it has generated is what it waits for. -/
  generated : ∀ req, lib.sbInit.slotState = .started req →
    lib.sbInit.generatedPrim = req.prim lib.sbInit.slotIdx
  /-- The trees have come as far as its state says. -/
  phase : InitPhase sha p lib.sbInit lib.vbdInit lib.ftInit lib.blkAlloc.total disk
  /-- Block I/O rests once the last block was written. -/
  unused : lib.sbInit.slotState = .requestDone .sync ∨ lib.sbInit.slotState = .done →
    (lib.blkIo.entries 0).state = .unused

variable {sha : BlockData → Hash} {p : InitPlan} {lib lib' : InitLibrary} {buf buf' : BlockData}
  {disk : Disk}

/-- What the superblock initializer knows of the trees does not depend on its state. -/
theorem InitPlan.Has.congr {n : ℕ} {obj obj' : SuperblockInit} (h : p.Has sha n obj)
    (hvbd : obj'.vbd = obj.vbd) (hft : obj'.ft = obj.ft) (hmt : obj'.mt = obj.mt) :
    p.Has sha n obj' where
  vbd hn := by rw [hvbd]; exact h.vbd hn
  ft hn := by rw [hft]; exact h.ft hn
  mt hn := by rw [hmt]; exact h.mt hn

/-! ## The superblock initializer

Its part of `Execute` goes to the next state, or starts a request; another part
hands the request over to the module it is for. -/

/-- A request between two trees or to the trust anchor is started. -/
theorem InitServing.start (h : InitServing sha p lib disk) (req : SbInitRequest) (n : ℕ)
    (hst : lib.sbInit.slotState.treesBuilt = some n)
    (hslots : lib.sbInit.slotState.slotsDone = none)
    (hreq : (SbInitState.started req).treesBuilt = some n) :
    InitServing sha p
      { lib with sbInit := lib.sbInit.start req (req.prim lib.sbInit.slotIdx) } disk := by
  obtain ⟨hsubmitted, hvbdGeo, hftGeo, hmtGeo, hfirst, -, hphase, -⟩ := h
  refine ⟨hsubmitted, hvbdGeo, hftGeo, hmtGeo, hfirst, fun req' hreq' => ?_, ?_, fun hnot => ?_⟩
  · cases hreq'
    rfl
  · cases hphase with
    | trees n' hn hidx hvbd hft hhas htotal hdisk =>
      obtain rfl := Option.some.inj (hst.symm.trans hn)
      exact .trees _ hreq hidx hvbd hft (hhas.congr rfl rfl rfl) htotal hdisk
    | vbd hnot => simp [hnot, SbInitState.treesBuilt] at hst
    | ft n hnot =>
      rcases hnot with ⟨hnot, -⟩ | ⟨hnot, -⟩ <;> simp [hnot, SbInitState.treesBuilt] at hst
    | slots n hn => simp [hslots] at hn
  · simp [SuperblockInit.start] at hnot

/-- A state in which slots are written. -/
theorem InitServing.slots {n : ℕ} (h : InitServing sha p lib disk)
    (hst : lib.sbInit.slotState.slotsDone = some n)
    (htrees : lib.sbInit.slotState.treesBuilt = none) :
    lib.vbdInit = TreeInit.initializeObject vbdInitializer
      ∧ lib.ftInit = TreeInit.initializeObject freeTreeInitializer ∧ p.Has sha 3 lib.sbInit
      ∧ lib.blkAlloc.total = (p.tree sha 3).2.next
      ∧ SlotsWritten (lib.sbInit.superblock lib.blkAlloc.total) (lib.sbInit.slotIdx.val + n)
        (p.tree sha 3).2.disk disk
      ∧ (lib.sbInit.slotState = .started .write → lib.sbInit.slot
        = if lib.sbInit.slotIdx.val = 0 then lib.sbInit.superblock lib.blkAlloc.total
          else superblockInvalid) := by
  cases h.phase with
  | trees n' hn => simp [htrees] at hn
  | vbd hnot => simp [hnot, SbInitState.slotsDone] at hst
  | ft n hnot =>
    rcases hnot with ⟨hnot, -⟩ | ⟨hnot, -⟩ <;> simp [hnot, SbInitState.slotsDone] at hst
  | slots n' hn hinit hvbd hft hhas hslot htotal hslots =>
    obtain rfl := Option.some.inj (hst.symm.trans hn)
    exact ⟨hvbd, hft, hhas, htotal, hslots, hslot⟩

/-- **The superblock initializer starts a request** or goes to its next state.
The cases are the phases, and in each the state says what comes next. -/
theorem InitServing.executeSb (h : InitServing sha p lib disk) :
    InitServing sha p
      { lib with sbInit := lib.sbInit.execute 0 (lib.blkAlloc.total % 2 ^ 64) } disk := by
  have hvalid : ¬ lib.sbInit.submittedPrim.valid = false := by
    rw [h.submitted]
    simp [libSbInitPrim, IoPrimitive.request]
  have hsame : ∀ obj : SuperblockInit, obj = lib.sbInit →
      InitServing sha p { lib with sbInit := obj } disk := fun obj hobj => by rw [hobj]; exact h
  have hserving := h
  obtain ⟨hsubmitted, hvbdGeo, hftGeo, hmtGeo, hfirst, hgen, hphase, hunused⟩ := h
  unfold SuperblockInit.execute
  rw [if_neg hvalid]
  cases hst : lib.sbInit.slotState with
  | started r => exact hsame _ rfl
  | dropped r => exact hsame _ rfl
  | init =>
    dsimp only
    cases hphase with
    | trees n hn hidx hvbd hft hhas htotal hdisk =>
      rw [hst] at hn
      obtain rfl := Option.some.inj hn
      rw [if_pos hidx]
      refine ⟨hsubmitted, hvbdGeo, hftGeo, hmtGeo, hfirst, fun r hr => ?_, ?_, fun hnot => ?_⟩
      · cases hr
        rfl
      · exact .trees 0 rfl hidx hvbd hft (hhas.congr rfl rfl rfl) htotal hdisk
      · simp [SuperblockInit.start] at hnot
    | vbd hnot => simp [hst] at hnot
    | ft n hnot => simp [hst] at hnot
    | slots n hn hinit hvbd hft hhas hslot htotal hslots =>
      rw [hst] at hn
      obtain rfl := Option.some.inj hn
      rw [if_neg (hinit hst)]
      refine ⟨hsubmitted, hvbdGeo, hftGeo, hmtGeo, hfirst, fun r hr => ?_, ?_, fun hnot => ?_⟩
      · cases hr
        rfl
      · refine .slots 0 rfl (fun hnot => by cases hnot) hvbd hft (hhas.congr rfl rfl rfl)
          (fun _ => ?_) htotal hslots
        exact (if_neg fun hzero => hinit hst (Fin.ext hzero)).symm
      · simp [SuperblockInit.start] at hnot
  | requestDone r =>
    cases r with
    | vbd => exact hserving.start .ft 1 (by rw [hst]; rfl) (by rw [hst]; rfl) rfl
    | ft => exact hserving.start .mt 2 (by rw [hst]; rfl) (by rw [hst]; rfl) rfl
    | mt => exact hserving.start .taCreateKey 3 (by rw [hst]; rfl) (by rw [hst]; rfl) rfl
    | taCreateKey =>
      exact hserving.start .taEncryptKey 3 (by rw [hst]; rfl) (by rw [hst]; rfl) rfl
    | taEncryptKey =>
      cases hphase with
      | trees n hn hidx hvbd hft hhas htotal hdisk =>
        rw [hst] at hn
        obtain rfl := Option.some.inj hn
        refine ⟨hsubmitted, hvbdGeo, hftGeo, hmtGeo, hfirst, fun r hr => ?_, ?_, fun hnot => ?_⟩
        · cases hr
          rfl
        · refine .slots 0 rfl (fun hnot => by cases hnot) hvbd hft (hhas.congr rfl rfl rfl)
            (fun _ => ?_) htotal ?_
          · exact (if_pos (congrArg Fin.val hidx)).symm
          · rw [hdisk, show lib.sbInit.slotIdx = 0 from hidx]
            exact SlotsWritten.zero _ _
        · simp [SuperblockInit.start] at hnot
      | vbd hnot => simp [hst] at hnot
      | ft n hnot => simp [hst] at hnot
      | slots n hn => simp [hst, SbInitState.slotsDone] at hn
    | write =>
      obtain ⟨hvbd, hft, hhas, htotal, hslots, -⟩ := hserving.slots (n := 1) (by rw [hst]; rfl)
        (by rw [hst]; rfl)
      refine ⟨hsubmitted, hvbdGeo, hftGeo, hmtGeo, hfirst, fun r hr => ?_, ?_, fun hnot => ?_⟩
      · cases hr
        rfl
      · exact .slots 1 rfl (fun hnot => by cases hnot) hvbd hft (hhas.congr rfl rfl rfl)
          (fun hnot => by cases hnot) htotal hslots
      · simp [SuperblockInit.start] at hnot
    | sync =>
      obtain ⟨hvbd, hft, hhas, htotal, hslots, -⟩ := hserving.slots (n := 1) (by rw [hst]; rfl)
        (by rw [hst]; rfl)
      refine ⟨hsubmitted, hvbdGeo, hftGeo, hmtGeo, hfirst, fun r hr => (by cases hr), ?_,
        fun _ => hunused (Or.inl hst)⟩
      exact .slots 1 rfl (fun hnot => by cases hnot) hvbd hft (hhas.congr rfl rfl rfl)
        (fun hnot => by cases hnot) htotal hslots
  | done =>
    dsimp only
    split_ifs with hlast
    · obtain ⟨hvbd, hft, hhas, htotal, hslots, -⟩ := hserving.slots (n := 1) (by rw [hst]; rfl)
        (by rw [hst]; rfl)
      refine ⟨hsubmitted, hvbdGeo, hftGeo, hmtGeo, hfirst, fun r hr => (by cases hr), ?_,
        fun hnot => (by simp at hnot)⟩
      refine .slots 0 rfl (fun _ hzero => ?_) hvbd hft (hhas.congr rfl rfl rfl)
        (fun hnot => by cases hnot) htotal hslots
      exact absurd (congrArg Fin.val hzero) (Nat.succ_ne_zero _)
    · exact hserving

/-- Dropping the primitive only changes the state. -/
theorem dropGeneratedPrimitive_spec {obj obj' : SuperblockInit} {prim : IoPrimitive}
    {req : SbInitRequest} (hst : obj.slotState = .started req)
    (h : obj.dropGeneratedPrimitive prim = some obj') :
    obj' = { obj with slotState := .dropped req } := by
  unfold SuperblockInit.dropGeneratedPrimitive at h
  rw [hst] at h
  exact (Option.some.inj (Option.ite_none_right_eq_some.mp h).2).symm

/-- A request is dropped once it is handed over. -/
theorem InitServing.drop {req : SbInitRequest} {vbdInit : TreeInit Type1Node}
    {ftInit : TreeInit Type2Node} {blkIo : BlockIoObject} {ta : TrustAnchor} {disk' : Disk}
    (h : InitServing sha p lib disk)
    (hphase : InitPhase sha p { lib.sbInit with slotState := .dropped req } vbdInit ftInit
      lib.blkAlloc.total disk') :
    InitServing sha p { lib with
      sbInit := { lib.sbInit with slotState := .dropped req }
      vbdInit := vbdInit, ftInit := ftInit, blkIo := blkIo, ta := ta } disk' where
  submitted := h.submitted
  vbdGeo := h.vbdGeo
  ftGeo := h.ftGeo
  mtGeo := h.mtGeo
  firstBlk := h.firstBlk
  generated _ hnot := by cases hnot
  phase := hphase
  unused hnot := by simp at hnot

/-- A state between two trees. -/
theorem InitServing.trees {n : ℕ} (h : InitServing sha p lib disk)
    (hst : lib.sbInit.slotState.treesBuilt = some n)
    (hslots : lib.sbInit.slotState.slotsDone = none) :
    lib.sbInit.slotIdx = 0 ∧ lib.vbdInit = TreeInit.initializeObject vbdInitializer
      ∧ lib.ftInit = TreeInit.initializeObject freeTreeInitializer ∧ p.Has sha n lib.sbInit
      ∧ lib.blkAlloc.total = (p.tree sha n).2.next ∧ disk = (p.tree sha n).2.disk := by
  cases h.phase with
  | trees n' hn hidx hvbd hft hhas htotal hdisk =>
    obtain rfl := Option.some.inj (hst.symm.trans hn)
    exact ⟨hidx, hvbd, hft, hhas, htotal, hdisk⟩
  | vbd hnot => simp [hnot, SbInitState.treesBuilt] at hst
  | ft n hnot =>
    rcases hnot with ⟨hnot, -⟩ | ⟨hnot, -⟩ <;> simp [hnot, SbInitState.treesBuilt] at hst
  | slots n hn => simp [hslots] at hn

/-- **A free tree or a meta tree is asked for.** Both are built by the same
initializer, which has to be free for the second one. -/
theorem InitServing.submitFt {n : ℕ} {req : SbInitRequest} {prim : IoPrimitive}
    (h : InitServing sha p lib disk) (hreq : req = .ft ∧ n = 1 ∨ req = .mt ∧ n = 2)
    (hst : lib.sbInit.slotState = .started req)
    (hrun : (do
      let geo ← lib.sbInit.peekGeneratedGeometry prim
      let ftInit ← lib.ftInit.submitPrimitive prim geo.maxLvlIdx (geo.degree - 1) geo.nrOfLeafs
      let sbInit ← lib.sbInit.dropGeneratedPrimitive prim
      some ({ lib with ftInit := ftInit, sbInit := sbInit }, buf)) = some (lib', buf')) :
    InitServing sha p lib' disk ∧ lib'.blkAlloc = lib.blkAlloc ∧ lib'.blkIo = lib.blkIo
      ∧ buf' = buf ∧ lib'.clientReqComplete = lib.clientReqComplete := by
  have htrees : (SbInitState.started req).treesBuilt = some n := by
    rcases hreq with ⟨rfl, rfl⟩ | ⟨rfl, rfl⟩ <;> rfl
  have hslots : (SbInitState.started req).slotsDone = none := by
    rcases hreq with ⟨rfl, -⟩ | ⟨rfl, -⟩ <;> rfl
  obtain ⟨hidx, hvbd, hft, hhas, htotal, hdisk⟩ := h.trees (by rw [hst]; exact htrees)
    (by rw [hst]; exact hslots)
  obtain ⟨geo, hgeo, hrun⟩ := Option.bind_eq_some_iff.mp hrun
  obtain ⟨ftInit, hsubmit, hrun⟩ := Option.bind_eq_some_iff.mp hrun
  obtain ⟨sbInit, hdrop, hrun⟩ := Option.bind_eq_some_iff.mp hrun
  obtain ⟨rfl, rfl⟩ := Prod.mk.inj (Option.some.inj hrun)
  obtain rfl := dropGeneratedPrimitive_spec hst hdrop
  have hgeo' : geo = p.geo.ft := by
    rw [SuperblockInit.peekGeneratedGeometry, hst] at hgeo
    rcases hreq with ⟨rfl, -⟩ | ⟨rfl, -⟩
    · rw [← h.ftGeo]
      exact (Option.some.inj (Option.ite_none_right_eq_some.mp hgeo).2).symm
    · rw [← h.mtGeo]
      exact (Option.some.inj (Option.ite_none_right_eq_some.mp hgeo).2).symm
  subst hgeo'
  rw [hft] at hsubmit
  refine ⟨h.drop (.ft n ?_ hidx hvbd (hhas.congr rfl rfl rfl) ?_ ?_), rfl, rfl, rfl, rfl⟩
  · rcases hreq with ⟨rfl, rfl⟩ | ⟨rfl, rfl⟩
    · exact Or.inl ⟨rfl, rfl⟩
    · exact Or.inr ⟨rfl, rfl⟩
  · have hstart := TreeInit.Building.start sha lib.blkAlloc.total disk hsubmit
    obtain ⟨m, rfl⟩ : ∃ m, n = m + 1 := by rcases hreq with ⟨-, rfl⟩ | ⟨-, rfl⟩ <;> exact ⟨_, rfl⟩
    rw [htotal, hdisk] at hstart
    rw [htotal, hdisk]
    exact hstart
  · exact congrArg TreeInit.maxLvlIdx (Option.some.inj hsubmit).symm

/-- **The request of the superblock initializer is handed over**: to an
initializer of a tree, to the trust anchor, or, for a slot and for a sync, to
block I/O. -/
theorem InitServing.submitSb (h : InitServing sha p lib ((lib.blkIo.entries 0).settled buf disk))
    (hrun : lib.submitSbInit buf = some (lib', buf')) :
    InitServing sha p lib' ((lib'.blkIo.entries 0).settled buf' disk)
      ∧ lib'.blkAlloc = lib.blkAlloc ∧ lib'.clientReqComplete = lib.clientReqComplete := by
  have hsame : some (lib, buf) = some (lib', buf') →
      InitServing sha p lib' ((lib'.blkIo.entries 0).settled buf' disk)
        ∧ lib'.blkAlloc = lib.blkAlloc ∧ lib'.clientReqComplete = lib.clientReqComplete :=
    fun heq => by
    obtain ⟨rfl, rfl⟩ := Prod.mk.inj (Option.some.inj heq)
    exact ⟨h, rfl, rfl⟩
  unfold InitLibrary.submitSbInit SuperblockInit.peekGeneratedPrimitive at hrun
  cases hst : lib.sbInit.slotState with
  | init => rw [hst] at hrun; exact hsame hrun
  | dropped r => rw [hst] at hrun; exact hsame hrun
  | requestDone r => rw [hst] at hrun; exact hsame hrun
  | done => rw [hst] at hrun; exact hsame hrun
  | started req =>
    have hgen := h.generated req hst
    rw [hst] at hrun
    dsimp only at hrun
    rw [hgen] at hrun
    cases req with
    | vbd =>
      obtain ⟨hidx, hvbd, hft, hhas, htotal, hdisk⟩ := h.trees (n := 0) (by rw [hst]; rfl)
        (by rw [hst]; rfl)
      simp only [SbInitRequest.prim, IoPrimitive.request, Bool.true_eq_false, if_false] at hrun
      obtain ⟨-, hrun⟩ := Option.ite_none_left_eq_some.mp hrun
      obtain ⟨geo, hgeo, hrun⟩ := Option.bind_eq_some_iff.mp hrun
      obtain ⟨vbdInit, hsubmit, hrun⟩ := Option.bind_eq_some_iff.mp hrun
      obtain ⟨sbInit, hdrop, hrun⟩ := Option.bind_eq_some_iff.mp hrun
      obtain ⟨rfl, rfl⟩ := Prod.mk.inj (Option.some.inj hrun)
      obtain rfl := dropGeneratedPrimitive_spec hst hdrop
      rw [SuperblockInit.peekGeneratedGeometry, hst] at hgeo
      obtain rfl := Option.some.inj (Option.ite_none_right_eq_some.mp hgeo).2
      rw [hvbd] at hsubmit
      refine ⟨h.drop (.vbd rfl hidx hft ?_ ?_), rfl, rfl⟩
      · have hstart := TreeInit.Building.start sha lib.blkAlloc.total
          ((lib.blkIo.entries 0).settled buf disk) hsubmit
        rw [h.vbdGeo, htotal, hdisk] at hstart
        rw [htotal, hdisk]
        exact hstart
      · rw [← h.vbdGeo]
        exact congrArg TreeInit.maxLvlIdx (Option.some.inj hsubmit).symm
    | ft =>
      simp only [SbInitRequest.prim, IoPrimitive.request, Bool.true_eq_false, if_false] at hrun
      obtain ⟨-, hrun⟩ := Option.ite_none_left_eq_some.mp hrun
      obtain ⟨hserving, halloc, hio, hbuf, hcomplete⟩ := h.submitFt (Or.inl ⟨rfl, rfl⟩) hst hrun
      rw [hio, hbuf]
      exact ⟨hserving, halloc, hcomplete⟩
    | mt =>
      simp only [SbInitRequest.prim, IoPrimitive.request, Bool.true_eq_false, if_false] at hrun
      obtain ⟨-, hrun⟩ := Option.ite_none_left_eq_some.mp hrun
      obtain ⟨hserving, halloc, hio, hbuf, hcomplete⟩ := h.submitFt (Or.inr ⟨rfl, rfl⟩) hst hrun
      rw [hio, hbuf]
      exact ⟨hserving, halloc, hcomplete⟩
    | taCreateKey =>
      obtain ⟨hidx, hvbd, hft, hhas, htotal, hdisk⟩ := h.trees (n := 3) (by rw [hst]; rfl)
        (by rw [hst]; rfl)
      simp only [SbInitRequest.prim, IoPrimitive.request, Bool.true_eq_false, if_false] at hrun
      obtain ⟨-, hrun⟩ := Option.ite_none_left_eq_some.mp hrun
      obtain ⟨ta, -, hrun⟩ := Option.bind_eq_some_iff.mp hrun
      obtain ⟨sbInit, hdrop, hrun⟩ := Option.bind_eq_some_iff.mp hrun
      obtain ⟨rfl, rfl⟩ := Prod.mk.inj (Option.some.inj hrun)
      obtain rfl := dropGeneratedPrimitive_spec hst hdrop
      exact ⟨h.drop (.trees 3 rfl hidx hvbd hft (hhas.congr rfl rfl rfl) htotal hdisk), rfl, rfl⟩
    | taEncryptKey =>
      obtain ⟨hidx, hvbd, hft, hhas, htotal, hdisk⟩ := h.trees (n := 3) (by rw [hst]; rfl)
        (by rw [hst]; rfl)
      simp only [SbInitRequest.prim, IoPrimitive.request, Bool.true_eq_false, if_false] at hrun
      obtain ⟨-, hrun⟩ := Option.ite_none_left_eq_some.mp hrun
      obtain ⟨key, -, hrun⟩ := Option.bind_eq_some_iff.mp hrun
      obtain ⟨ta, -, hrun⟩ := Option.bind_eq_some_iff.mp hrun
      obtain ⟨sbInit, hdrop, hrun⟩ := Option.bind_eq_some_iff.mp hrun
      obtain ⟨rfl, rfl⟩ := Prod.mk.inj (Option.some.inj hrun)
      obtain rfl := dropGeneratedPrimitive_spec hst hdrop
      exact ⟨h.drop (.trees 3 rfl hidx hvbd hft (hhas.congr rfl rfl rfl) htotal hdisk), rfl, rfl⟩
    | write =>
      obtain ⟨hvbd, hft, hhas, htotal, hslots, hslot⟩ := h.slots (n := 0) (by rw [hst]; rfl)
        (by rw [hst]; rfl)
      simp only [SbInitRequest.prim, IoPrimitive.request, Bool.true_eq_false, if_false] at hrun
      by_cases hacc : ¬ lib.blkIo.PrimitiveAcceptable
      · exact hsame ((if_pos hacc).symm.trans hrun)
      replace hrun := (if_neg hacc).symm.trans hrun
      obtain ⟨⟨io, idx⟩, hsubmit, hrun⟩ := Option.bind_eq_some_iff.mp hrun
      obtain ⟨data, hdata, hrun⟩ := Option.bind_eq_some_iff.mp hrun
      obtain ⟨sbInit, hdrop, hrun⟩ := Option.bind_eq_some_iff.mp hrun
      obtain ⟨rfl, rfl⟩ := Prod.mk.inj (Option.some.inj hrun)
      obtain rfl := dropGeneratedPrimitive_spec hst hdrop
      obtain ⟨hbefore, hafter⟩ := settled_submitPrimitive buf disk hsubmit
      rw [hbefore] at hslots
      obtain ⟨-, hdata⟩ := Option.ite_none_right_eq_some.mp hdata
      rw [hslot hst] at hdata
      refine ⟨h.drop (.slots 1 rfl (fun hnot => by cases hnot) hvbd hft (hhas.congr rfl rfl rfl)
        (fun hnot => by cases hnot) htotal ?_), rfl, rfl⟩
      rw [hafter, if_pos rfl]
      exact hslots.succ lib.sbInit.slotIdx.isLt hdata
    | sync =>
      obtain ⟨hvbd, hft, hhas, htotal, hslots, -⟩ := h.slots (n := 1) (by rw [hst]; rfl)
        (by rw [hst]; rfl)
      simp only [SbInitRequest.prim, IoPrimitive.request, Bool.true_eq_false, if_false] at hrun
      by_cases hacc : ¬ lib.blkIo.PrimitiveAcceptable
      · exact hsame ((if_pos hacc).symm.trans hrun)
      replace hrun := (if_neg hacc).symm.trans hrun
      obtain ⟨⟨io, idx⟩, hsubmit, hrun⟩ := Option.bind_eq_some_iff.mp hrun
      obtain ⟨sbInit, hdrop, hrun⟩ := Option.bind_eq_some_iff.mp hrun
      obtain ⟨rfl, rfl⟩ := Prod.mk.inj (Option.some.inj hrun)
      obtain rfl := dropGeneratedPrimitive_spec hst hdrop
      obtain ⟨hbefore, hafter⟩ := settled_submitPrimitive buf disk hsubmit
      rw [hbefore] at hslots
      refine ⟨h.drop (.slots 1 rfl (fun hnot => by cases hnot) hvbd hft (hhas.congr rfl rfl rfl)
        (fun hnot => by cases hnot) htotal ?_), rfl, rfl⟩
      rw [hafter, if_neg (show ¬ PrimitiveOperation.sync = .write by decide)]
      exact hslots

/-! ## The initializers of the trees

Either of them runs until its tree is built. A round of it ends with a primitive
for the block allocator or for block I/O, or with the root of the finished tree,
which the superblock initializer takes over. -/

/-- What the block allocator was asked for is what the initializer of the virtual block device
waits for. -/
def InitLibrary.AllocForVbd (lib : InitLibrary) : Prop :=
  lib.blkAlloc.prim.valid = true →
    lib.blkAlloc.prim = lib.vbdInit.genPrim ∧ lib.vbdInit.Waiting vbdInitializer

/-- What the block allocator was asked for is what one of the initializers waits for. -/
def InitLibrary.AllocFor (lib : InitLibrary) : Prop :=
  lib.blkAlloc.prim.valid = true →
    lib.blkAlloc.prim = lib.vbdInit.genPrim ∧ lib.vbdInit.Waiting vbdInitializer
      ∨ lib.blkAlloc.prim = lib.ftInit.genPrim ∧ lib.ftInit.Waiting freeTreeInitializer

/-- Nothing was asked for. -/
theorem InitLibrary.AllocForVbd.of_idle (h : lib.blkAlloc.prim.valid = false) : lib.AllocForVbd :=
  fun hvalid => absurd (h.symm.trans hvalid) Bool.false_ne_true

/-- A request of the superblock initializer is done. -/
theorem complete_spec {obj obj' : SuperblockInit} {req : SbInitRequest} {prim : IoPrimitive}
    (h : obj.complete req prim = some obj') :
    obj.slotState = .dropped req ∧ obj' = { obj with slotState := .requestDone req } := by
  obtain ⟨hst, h⟩ := Option.ite_none_right_eq_some.mp h
  exact ⟨hst.1, (Option.some.inj h).symm⟩

/-- A tree that is completed is done. -/
theorem rootState_of_peekCompleted {Leaf : Type} {obj : TreeInit Leaf}
    (h : ¬ obj.peekCompletedPrimitive.valid = false) : obj.lvls.rootState = .done := by
  by_contra hroot
  exact h (by rw [TreeInit.peekCompletedPrimitive, if_pos (Or.inr hroot)]; rfl)

/-- A tree is built once its initializer is done. -/
theorem InitServing.treeDone (h : InitServing sha p lib disk) (n : ℕ) (req : SbInitRequest)
    (sbInit : SuperblockInit) (hidx : lib.sbInit.slotIdx = 0)
    (hsame : sbInit = { lib.sbInit with
      slotState := .requestDone req, vbd := sbInit.vbd, ft := sbInit.ft, mt := sbInit.mt })
    (htrees : (SbInitState.requestDone req).treesBuilt = some n)
    (hhas : p.Has sha n sbInit) (htotal : lib.blkAlloc.total = (p.tree sha n).2.next)
    (hdisk : disk = (p.tree sha n).2.disk) (hsync : req ≠ .sync) :
    InitServing sha p { lib with
      sbInit := sbInit
      vbdInit := TreeInit.initializeObject vbdInitializer
      ftInit := TreeInit.initializeObject freeTreeInitializer } disk := by
  have hst : sbInit.slotState = .requestDone req := by rw [hsame]
  refine ⟨?_, ?_, ?_, ?_, h.firstBlk, fun req' hnot => ?_, .trees n ?_ ?_ rfl rfl hhas htotal hdisk,
    fun hnot => ?_⟩
  · rw [hsame]; exact h.submitted
  · rw [hsame]; exact h.vbdGeo
  · rw [hsame]; exact h.ftGeo
  · rw [hsame]; exact h.mtGeo
  · exact absurd (hst.symm.trans hnot) (by simp)
  · rw [hst]; exact htrees
  · rw [hsame]; exact hidx
  · have hnot' : sbInit.slotState = .requestDone .sync ∨ sbInit.slotState = .done := hnot
    rw [hst] at hnot'
    simp [hsync] at hnot'

/-- The other modules go on. -/
theorem InitServing.withModules (h : InitServing sha p lib disk) {vbdInit : TreeInit Type1Node}
    {ftInit : TreeInit Type2Node} (blkAlloc : BlockAllocator) (blkIo : BlockIoObject) {disk' : Disk}
    (hfirst : blkAlloc.firstBlk = lib.blkAlloc.firstBlk)
    (hphase : InitPhase sha p lib.sbInit vbdInit ftInit blkAlloc.total disk')
    (hunused : lib.sbInit.slotState = .requestDone .sync ∨ lib.sbInit.slotState = .done →
      (blkIo.entries 0).state = .unused) :
    InitServing sha p { lib with
      vbdInit := vbdInit, ftInit := ftInit, blkAlloc := blkAlloc, blkIo := blkIo } disk' where
  submitted := h.submitted
  vbdGeo := h.vbdGeo
  ftGeo := h.ftGeo
  mtGeo := h.mtGeo
  firstBlk := hfirst.trans h.firstBlk
  generated := h.generated
  phase := hphase
  unused := hunused

/-- The initializer of the virtual block device is left alone while it is not at work. -/
theorem executeVbdInitializer_resting
    (hvbd : lib.vbdInit = TreeInit.initializeObject vbdInitializer) :
    lib.executeVbdInitializer sha buf = some (lib, buf) := by
  obtain ⟨sbInit, vbdInit, ftInit, blkAlloc, blkIo, ta, success, complete⟩ := lib
  subst hvbd
  rfl

/-- So is the initializer of the free tree. -/
theorem executeFreeTreeInitializer_resting
    (hft : lib.ftInit = TreeInit.initializeObject freeTreeInitializer) :
    lib.executeFreeTreeInitializer sha buf = some (lib, buf) := by
  obtain ⟨sbInit, vbdInit, ftInit, blkAlloc, blkIo, ta, success, complete⟩ := lib
  subst hft
  rfl

/-- **The initializer of the virtual block device** goes on: with its tree, with
a primitive for one of the other modules, or with the report that the tree is
done. -/
theorem InitServing.executeVbd
    (h : InitServing sha p lib ((lib.blkIo.entries 0).settled buf disk))
    (hidle : lib.blkAlloc.prim.valid = false)
    (hrun : lib.executeVbdInitializer sha buf = some (lib', buf')) :
    InitServing sha p lib' ((lib'.blkIo.entries 0).settled buf' disk)
      ∧ lib'.AllocForVbd ∧ lib'.clientReqComplete = lib.clientReqComplete := by
  have hresting : lib.vbdInit = TreeInit.initializeObject vbdInitializer →
      InitServing sha p lib' ((lib'.blkIo.entries 0).settled buf' disk)
        ∧ lib'.AllocForVbd ∧ lib'.clientReqComplete = lib.clientReqComplete := fun hvbd => by
    rw [executeVbdInitializer_resting hvbd] at hrun
    obtain ⟨rfl, rfl⟩ := Prod.mk.inj (Option.some.inj hrun)
    exact ⟨h, .of_idle hidle, rfl⟩
  obtain ⟨vbdInit, hexec, hrun⟩ := Option.bind_eq_some_iff.mp hrun
  obtain ⟨⟨vbdInit', blkAlloc, blkIo, buf''⟩, hsubmit, hrun⟩ := Option.bind_eq_some_iff.mp hrun
  obtain ⟨lib'', hcomplete, hrun⟩ := Option.bind_eq_some_iff.mp hrun
  obtain ⟨rfl, rfl⟩ := Prod.mk.inj (Option.some.inj hrun)
  have hunused : lib.sbInit.slotState = .dropped .vbd →
      (lib.sbInit.slotState = .requestDone .sync ∨ lib.sbInit.slotState = .done →
        (blkIo.entries 0).state = .unused) := fun hst hnot => by simp [hst] at hnot
  cases h.phase with
  | trees n hst hidx hvbd => exact hresting hvbd
  | ft n hst hidx hvbd => exact hresting hvbd
  | slots n hst hinit hvbd => exact hresting hvbd
  | vbd hst hidx hft hbuild hlvl =>
    have hexecuted := hbuild.execute (by decide) (by decide) hexec
    obtain ⟨hbuild', hfirst, hnr, halloc, hlvl'⟩ :=
      hexecuted.submitGenerated (by decide) (by decide) hidle hsubmit
    have htotal : blkAlloc.total = lib.blkAlloc.total := by
      rw [BlockAllocator.total, BlockAllocator.total, hfirst, hnr]
    have hlvl'' : vbdInit'.maxLvlIdx = p.geo.vbd.maxLvlIdx :=
      (hlvl'.trans (TreeInit.execute_maxLvlIdx hexec)).trans hlvl
    have hserving := h.withModules blkAlloc blkIo hfirst
      (.vbd hst hidx hft (by rw [htotal]; exact hbuild') hlvl'') (hunused hst)
    unfold InitLibrary.completeVbdInit at hcomplete
    by_cases hinvalid : vbdInit'.peekCompletedPrimitive.valid = false
    · obtain rfl := Option.some.inj ((if_pos hinvalid).symm.trans hcomplete)
      exact ⟨hserving, halloc, rfl⟩
    · replace hcomplete := (if_neg hinvalid).symm.trans hcomplete
      obtain ⟨-, hcomplete⟩ := Option.ite_none_right_eq_some.mp hcomplete
      obtain ⟨root, hroot, hcomplete⟩ := Option.bind_eq_some_iff.mp hcomplete
      obtain ⟨sbInit, hmark, hcomplete⟩ := Option.bind_eq_some_iff.mp hcomplete
      obtain ⟨dropped, hdrop, hcomplete⟩ := Option.bind_eq_some_iff.mp hcomplete
      obtain rfl := Option.some.inj hcomplete
      obtain rfl := Option.some.inj (Option.ite_none_left_eq_some.mp hroot).2
      obtain rfl := Option.some.inj (Option.ite_none_left_eq_some.mp hdrop).2
      obtain ⟨marked, hcompl, rfl⟩ := Option.map_eq_some_iff.mp hmark
      obtain ⟨-, rfl⟩ := complete_spec hcompl
      obtain ⟨hlevels, hgen, hr⟩ := hbuild'.finished (by decide)
        (rootState_of_peekCompleted hinvalid)
      have hidle' : blkAlloc.prim.valid = false := by
        by_contra hvalid
        exact absurd (hgen.symm.trans (halloc (Bool.not_eq_false _ ▸ hvalid)).2.1)
          Bool.false_ne_true
      have hhas : p.Has sha 1 { lib.sbInit with
          slotState := .requestDone .vbd, vbd := vbdInit'.lvls.root } :=
        ⟨fun _ => ⟨by rw [hr], by rw [TreeGeometry.LevelsOk, ← hlvl'']; exact hlevels⟩,
          fun hn => absurd hn (by decide), fun hn => absurd hn (by decide)⟩
      have hdone := hserving.treeDone 1 .vbd _ hidx rfl rfl hhas
        (by rw [hr]; exact htotal) (by rw [hr]) (by decide)
      rw [← hft] at hdone
      exact ⟨hdone, .of_idle hidle', rfl⟩

/-- **The initializer of the free tree** goes on, for the free and the meta tree. -/
theorem InitServing.executeFt
    (h : InitServing sha p lib ((lib.blkIo.entries 0).settled buf disk))
    (hvbdAlloc : lib.AllocForVbd)
    (hrun : lib.executeFreeTreeInitializer sha buf = some (lib', buf')) :
    InitServing sha p lib' ((lib'.blkIo.entries 0).settled buf' disk)
      ∧ lib'.AllocFor ∧ lib'.clientReqComplete = lib.clientReqComplete := by
  have hresting : lib.ftInit = TreeInit.initializeObject freeTreeInitializer →
      InitServing sha p lib' ((lib'.blkIo.entries 0).settled buf' disk)
        ∧ lib'.AllocFor ∧ lib'.clientReqComplete = lib.clientReqComplete := fun hft => by
    rw [executeFreeTreeInitializer_resting hft] at hrun
    obtain ⟨rfl, rfl⟩ := Prod.mk.inj (Option.some.inj hrun)
    exact ⟨h, fun hvalid => Or.inl (hvbdAlloc hvalid), rfl⟩
  obtain ⟨ftInit, hexec, hrun⟩ := Option.bind_eq_some_iff.mp hrun
  obtain ⟨⟨ftInit', blkAlloc, blkIo, buf''⟩, hsubmit, hrun⟩ := Option.bind_eq_some_iff.mp hrun
  obtain ⟨lib'', hcomplete, hrun⟩ := Option.bind_eq_some_iff.mp hrun
  obtain ⟨rfl, rfl⟩ := Prod.mk.inj (Option.some.inj hrun)
  cases h.phase with
  | trees n hst hidx hvbd hft => exact hresting hft
  | vbd hst hidx hft => exact hresting hft
  | slots n hst hinit hvbd hft => exact hresting hft
  | ft n hst hidx hvbd hhas hbuild hlvl =>
    have hidle : lib.blkAlloc.prim.valid = false := by
      by_contra hvalid
      have hwait := (hvbdAlloc (Bool.not_eq_false _ ▸ hvalid)).2.1
      rw [hvbd] at hwait
      exact absurd hwait Bool.false_ne_true
    have hexecuted := hbuild.execute (by decide) (by decide) hexec
    obtain ⟨hbuild', hfirst, hnr, halloc, hlvl'⟩ :=
      hexecuted.submitGenerated (by decide) (by decide) hidle hsubmit
    have htotal : blkAlloc.total = lib.blkAlloc.total := by
      rw [BlockAllocator.total, BlockAllocator.total, hfirst, hnr]
    have hlvl'' : ftInit'.maxLvlIdx = p.geo.ft.maxLvlIdx :=
      (hlvl'.trans (TreeInit.execute_maxLvlIdx hexec)).trans hlvl
    have hserving := h.withModules blkAlloc blkIo hfirst
      (.ft n hst hidx hvbd hhas (by rw [htotal]; exact hbuild') hlvl'')
      fun hnot => by rcases hst with ⟨hst, -⟩ | ⟨hst, -⟩ <;> simp [hst] at hnot
    unfold InitLibrary.completeFtInit at hcomplete
    by_cases hinvalid : ftInit'.peekCompletedPrimitive.valid = false
    · obtain rfl := Option.some.inj ((if_pos hinvalid).symm.trans hcomplete)
      exact ⟨hserving, fun hvalid => Or.inr (halloc hvalid), rfl⟩
    · replace hcomplete := (if_neg hinvalid).symm.trans hcomplete
      obtain ⟨-, hcomplete⟩ := Option.ite_none_right_eq_some.mp hcomplete
      obtain ⟨root, hroot, hcomplete⟩ := Option.bind_eq_some_iff.mp hcomplete
      obtain ⟨sbInit, hmark, hcomplete⟩ := Option.bind_eq_some_iff.mp hcomplete
      obtain ⟨dropped, hdrop, hcomplete⟩ := Option.bind_eq_some_iff.mp hcomplete
      obtain rfl := Option.some.inj hcomplete
      obtain rfl := Option.some.inj (Option.ite_none_left_eq_some.mp hroot).2
      obtain rfl := Option.some.inj (Option.ite_none_left_eq_some.mp hdrop).2
      obtain ⟨hlevels, hgen, hr⟩ := hbuild'.finished (by decide)
        (rootState_of_peekCompleted hinvalid)
      have hidle' : blkAlloc.prim.valid = false := by
        by_contra hvalid
        exact absurd (hgen.symm.trans (halloc (Bool.not_eq_false _ ▸ hvalid)).2.1)
          Bool.false_ne_true
      have hlevels' : p.geo.ft.LevelsOk freeTreeInitializer := by
        rw [TreeGeometry.LevelsOk, ← hlvl'']
        exact hlevels
      have hnone : ∀ lib₁ : InitLibrary, lib₁.blkAlloc = blkAlloc → lib₁.AllocFor :=
        fun _ heq hvalid => absurd (hidle'.symm.trans (heq ▸ hvalid)) Bool.false_ne_true
      unfold SuperblockInit.markGeneratedFtInitPrimitiveComplete at hmark
      rcases hst with ⟨hst, rfl⟩ | ⟨hst, rfl⟩
      · rw [hst] at hmark
        obtain ⟨marked, hcompl, rfl⟩ := Option.map_eq_some_iff.mp hmark
        obtain ⟨-, rfl⟩ := complete_spec hcompl
        have hdone := hserving.treeDone 2 .ft { lib.sbInit with
            slotState := .requestDone .ft, ft := ftInit'.lvls.root } hidx rfl rfl
          ⟨hhas.vbd ∘ fun _ => le_refl 1, fun _ => ⟨by rw [hr], hlevels'⟩,
            fun hn => absurd hn (by decide)⟩ (by rw [hr]; exact htotal) (by rw [hr]) (by decide)
        rw [← hvbd] at hdone
        exact ⟨hdone, hnone _ rfl, rfl⟩
      · rw [hst] at hmark
        obtain ⟨marked, hcompl, rfl⟩ := Option.map_eq_some_iff.mp hmark
        obtain ⟨-, rfl⟩ := complete_spec hcompl
        have hdone := hserving.treeDone 3 .mt { lib.sbInit with
            slotState := .requestDone .mt, mt := ftInit'.lvls.root } hidx rfl rfl
          ⟨fun _ => hhas.vbd (by decide), fun _ => hhas.ft (le_refl 2), fun _ => by rw [hr]⟩
          (by rw [hr]; exact htotal) (by rw [hr]) (by decide)
        rw [← hvbd] at hdone
        exact ⟨hdone, hnone _ rfl, rfl⟩

/-! ## The block allocator

It hands out one address after the other, from the first block behind the
superblocks. As the geometries are bounded, so is the number of addresses, and
the counter of the source does not wrap around. -/

/-- A tree takes few of the addresses there are: fewer than the type has by far,
for every geometry that an initializer accepts. -/
theorem TreeGeometry.LevelsOk.build_next_le {Leaf : Type} {k : TreeInitKind Leaf}
    {geo : TreeGeometry} (h : geo.LevelsOk k) (sha : BlockData → Hash) (s : Stock BlockData) :
    (geo.build k sha s).2.next ≤ s.next + 2 ^ 31 := by
  have hmax := h.2
  have hmono : Maker.capacityBelow nodesPerBlock (geo.maxLvlIdx - 1)
      ≤ Maker.capacityBelow nodesPerBlock 4 :=
    Maker.capacityBelow_mono (by decide) (by simp only [treeMaxMaxLevel] at hmax; omega)
  have hfour : Maker.capacityBelow nodesPerBlock 4 + 1 ≤ 2 ^ 31 := by decide
  exact le_trans (Maker.make_next_le _ _ _ _)
    (Nat.add_le_add_left (le_trans (Nat.succ_le_succ hmono) hfour) s.next)

/-- **All addresses of the image are ones of the type.** -/
theorem InitPlan.tree_next_lt (sha : BlockData → Hash) (hstart : p.start < 2 ^ 32) {n : ℕ}
    (hn : n ≤ 3)
    (hvbd : 1 ≤ n → p.geo.vbd.LevelsOk vbdInitializer)
    (hft : 2 ≤ n → p.geo.ft.LevelsOk freeTreeInitializer) : (p.tree sha n).2.next < 2 ^ 64 := by
  have hbound : ∀ m ≤ n, (p.tree sha m).2.next ≤ p.start + m * 2 ^ 31 := fun m => by
    induction m with
    | zero => exact fun _ => Nat.le_add_right _ _
    | succ m ih =>
      intro hm
      have hprev := ih (by omega)
      have hnext : (p.tree sha (m + 1)).2.next ≤ (p.tree sha m).2.next + 2 ^ 31 := by
        cases m with
        | zero => exact (hvbd hm).build_next_le sha ⟨0, p.start, p.disk⟩
        | succ m => exact (hft (by omega)).build_next_le sha (p.tree sha (m + 1)).2
      omega
  have hle := hbound n (le_refl n)
  omega

/-- **An address is handed out** to the one who waits for it. -/
theorem TreeInit.Building.allocate {Leaf : Type} {k : TreeInitKind Leaf} {obj : TreeInit Leaf}
    {blkAlloc blkAlloc' : BlockAllocator} {r : Type1Node × Stock BlockData}
    (htags : k.tagBlkAlloc ≠ k.tagBlkIo) (hbuild : obj.Building k sha blkAlloc.total disk r)
    (hwait : obj.Waiting k) (hprim : blkAlloc.prim = obj.genPrim)
    (hfirst : blkAlloc.firstBlk = nrOfSuperblockSlots) (hlt : r.2.next < 2 ^ 64)
    (hrun : blkAlloc.execute = some blkAlloc') :
    blkAlloc' = { blkAlloc with prim := blkAlloc'.prim, nrOfBlks := blkAlloc.nrOfBlks + 1 }
      ∧ blkAlloc'.prim.valid = true ∧ blkAlloc'.prim.success = true
      ∧ blkAlloc'.prim.tag = k.tagBlkAlloc
      ∧ (obj.markGeneratedPrimitiveComplete k blkAlloc'.prim).Building k sha
        (blkAlloc.total + 1) disk r := by
  have htotal : blkAlloc.firstBlk + blkAlloc.nrOfBlks < 2 ^ 64 :=
    lt_of_le_of_lt (hbuild.total_le hwait) hlt
  have hnot : ¬ (blkAlloc.nrOfBlks = 2 ^ 64 - 1 ∨ blkAlloc.prim.valid = false
      ∨ blkAlloc.prim.success = true) := by
    rw [hfirst] at htotal
    rw [hprim, hwait.1, hwait.2.2.1]
    simp only [Bool.true_eq_false, Bool.false_eq_true, or_false, nrOfSuperblockSlots] at htotal ⊢
    omega
  rw [BlockAllocator.execute, if_neg hnot, hprim] at hrun
  obtain ⟨prim, hcopy, rfl⟩ := Option.map_eq_some_iff.mp hrun
  obtain rfl := Option.some.inj (Option.ite_none_left_eq_some.mp hcopy).2
  exact ⟨rfl, rfl, rfl, hwait.2.1, hbuild.delivered htags hwait rfl hwait.2.1 rfl
    (Nat.mod_eq_of_lt htotal)⟩

/-- An address that was handed out is taken from the block allocator. -/
theorem executeBlockAllocator_spec {blkAlloc : BlockAllocator}
    (hexec : lib.blkAlloc.execute = some blkAlloc) (hvalid : blkAlloc.prim.valid = true)
    (hsucc : blkAlloc.prim.success = true) (hrun : lib.executeBlockAllocator = some lib') :
    blkAlloc.prim.tag = .vbdInitBlkAlloc ∧ lib' = { lib with
        blkAlloc := { blkAlloc with prim := IoPrimitive.invalidObject }
        vbdInit := lib.vbdInit.markGeneratedPrimitiveComplete vbdInitializer blkAlloc.prim }
      ∨ blkAlloc.prim.tag = .ftInitBlkAlloc ∧ lib' = { lib with
        blkAlloc := { blkAlloc with prim := IoPrimitive.invalidObject }
        ftInit :=
          lib.ftInit.markGeneratedPrimitiveComplete freeTreeInitializer blkAlloc.prim } := by
  have hpeek : blkAlloc.peekCompletedPrimitive = blkAlloc.prim := by
    rw [BlockAllocator.peekCompletedPrimitive, if_neg]
    rw [hvalid, hsucc]
    simp
  unfold InitLibrary.executeBlockAllocator at hrun
  rw [hexec] at hrun
  simp only [Option.bind_eq_bind, Option.bind_some, hpeek, hvalid, Bool.true_eq_false,
    if_false] at hrun
  obtain ⟨dropped, hdrop, hrun⟩ := Option.bind_eq_some_iff.mp hrun
  obtain rfl := Option.some.inj (Option.ite_none_left_eq_some.mp hdrop).2
  by_cases hvbd : blkAlloc.prim.tag = .vbdInitBlkAlloc
  · exact Or.inl ⟨hvbd, (Option.some.inj ((if_pos hvbd).symm.trans hrun)).symm⟩
  · replace hrun := (if_neg hvbd).symm.trans hrun
    obtain ⟨hft, hrun⟩ := Option.ite_none_right_eq_some.mp hrun
    exact Or.inr ⟨hft, (Option.some.inj hrun).symm⟩

/-- The block allocator is left alone while nothing was asked for. -/
theorem executeBlockAllocator_idle (hidle : lib.blkAlloc.prim.valid = false) :
    lib.executeBlockAllocator = some lib := by
  have hexec : lib.blkAlloc.execute = some lib.blkAlloc := by
    rw [BlockAllocator.execute, if_pos (Or.inr (Or.inl hidle))]
  have hnone : lib.blkAlloc.peekCompletedPrimitive.valid = false := by
    rw [BlockAllocator.peekCompletedPrimitive, if_pos (Or.inl hidle)]
    rfl
  unfold InitLibrary.executeBlockAllocator
  rw [hexec]
  exact if_pos hnone

/-- **The block allocator** hands out an address. -/
theorem InitServing.executeAlloc (h : InitServing sha p lib disk) (hstart : p.start < 2 ^ 32)
    (hfor : lib.AllocFor) (hrun : lib.executeBlockAllocator = some lib') :
    InitServing sha p lib' disk ∧ lib'.blkAlloc.prim.valid = false ∧ lib'.blkIo = lib.blkIo
      ∧ lib'.clientReqComplete = lib.clientReqComplete := by
  by_cases hidle : lib.blkAlloc.prim.valid = false
  · rw [executeBlockAllocator_idle hidle] at hrun
    obtain rfl := Option.some.inj hrun
    exact ⟨h, hidle, rfl, rfl⟩
  obtain ⟨blkAlloc, hexec, -⟩ := Option.bind_eq_some_iff.mp hrun
  rcases hfor (Bool.not_eq_false _ ▸ hidle) with ⟨hprim, hwait⟩ | ⟨hprim, hwait⟩
  · cases h.phase with
    | trees n hst hidx hvbd => rw [hvbd] at hwait; exact absurd hwait.1 Bool.false_ne_true
    | ft n hst hidx hvbd => rw [hvbd] at hwait; exact absurd hwait.1 Bool.false_ne_true
    | slots n hst hinit hvbd => rw [hvbd] at hwait; exact absurd hwait.1 Bool.false_ne_true
    | vbd hst hidx hft hbuild hlvl =>
      have hlevels := hbuild.levelsOk_of_waiting (by decide) hwait
      have hlt := InitPlan.tree_next_lt sha (n := 1) hstart (by decide)
        (fun _ => by rw [TreeGeometry.LevelsOk, ← hlvl]; exact hlevels)
        fun hn => absurd hn (by decide)
      obtain ⟨halloc, hvalid, hsucc, htag, hbuild'⟩ :=
        hbuild.allocate (by decide) hwait hprim h.firstBlk hlt hexec
      have hmax : (lib.vbdInit.markGeneratedPrimitiveComplete vbdInitializer
          blkAlloc.prim).maxLvlIdx = p.geo.vbd.maxLvlIdx := by
        unfold TreeInit.markGeneratedPrimitiveComplete
        split_ifs <;> exact hlvl
      rcases executeBlockAllocator_spec hexec hvalid hsucc hrun with ⟨-, rfl⟩ | ⟨hnot, -⟩
      · rw [halloc]
        refine ⟨h.withModules _ _ rfl (.vbd hst hidx hft hbuild' hmax) fun hnot => ?_, rfl, rfl,
          rfl⟩
        simp [hst] at hnot
      · exact absurd (htag.symm.trans hnot) (by decide)
  · cases h.phase with
    | trees n hst hidx hvbd hft => rw [hft] at hwait; exact absurd hwait.1 Bool.false_ne_true
    | vbd hst hidx hft => rw [hft] at hwait; exact absurd hwait.1 Bool.false_ne_true
    | slots n hst hinit hvbd hft => rw [hft] at hwait; exact absurd hwait.1 Bool.false_ne_true
    | ft n hst hidx hvbd hhas hbuild hlvl =>
      have hlevels := hbuild.levelsOk_of_waiting (by decide) hwait
      have hn : 1 ≤ n ∧ n + 1 ≤ 3 := by rcases hst with ⟨-, rfl⟩ | ⟨-, rfl⟩ <;> decide
      have hlt := InitPlan.tree_next_lt sha (n := n + 1) hstart hn.2
        (fun _ => (hhas.vbd hn.1).2)
        fun _ => by rw [TreeGeometry.LevelsOk, ← hlvl]; exact hlevels
      obtain ⟨halloc, hvalid, hsucc, htag, hbuild'⟩ :=
        hbuild.allocate (by decide) hwait hprim h.firstBlk hlt hexec
      have hmax : (lib.ftInit.markGeneratedPrimitiveComplete freeTreeInitializer
          blkAlloc.prim).maxLvlIdx = p.geo.ft.maxLvlIdx := by
        unfold TreeInit.markGeneratedPrimitiveComplete
        split_ifs <;> exact hlvl
      rcases executeBlockAllocator_spec hexec hvalid hsucc hrun with ⟨hnot, -⟩ | ⟨-, rfl⟩
      · exact absurd (htag.symm.trans hnot) (by decide)
      · rw [halloc]
        refine ⟨h.withModules _ _ rfl (.ft n hst hidx hvbd hhas hbuild' hmax) fun hnot => ?_, rfl,
          rfl, rfl⟩
        rcases hst with ⟨hst, -⟩ | ⟨hst, -⟩ <;> simp [hst] at hnot

/-! ## Block I/O and the trust anchor

A request that the backend has served is reported to the module it came from; so
is a key that the trust anchor has made. -/

/-- A module that is not at work ignores what is reported. -/
theorem mark_initializeObject {Leaf : Type} (k : TreeInitKind Leaf) (prim : IoPrimitive) :
    (TreeInit.initializeObject k).markGeneratedPrimitiveComplete k prim
      = TreeInit.initializeObject k :=
  if_neg fun hmark => absurd hmark.1 Bool.false_ne_true

/-- A request of the superblock initializer is done, and with it a state in which slots are
written. -/
theorem InitServing.slotsDone {req : SbInitRequest} {blkIo : BlockIoObject}
    (h : InitServing sha p lib disk) (hst : lib.sbInit.slotState = .dropped req)
    (hdropped : (SbInitState.dropped req).slotsDone = some 1)
    (hdone : (SbInitState.requestDone req).slotsDone = some 1)
    (hunused : (blkIo.entries 0).state = .unused) :
    InitServing sha p { lib with
      sbInit := { lib.sbInit with slotState := .requestDone req }, blkIo := blkIo } disk := by
  obtain ⟨hvbd, hft, hhas, htotal, hslots, -⟩ := h.slots (n := 1) (by rw [hst]; exact hdropped)
    (by rw [hst]; cases req <;> first | rfl | cases hdropped)
  exact ⟨h.submitted, h.vbdGeo, h.ftGeo, h.mtGeo, h.firstBlk, fun _ hnot => (by cases hnot),
    .slots 1 hdone (fun hnot => by cases hnot) hvbd hft (hhas.congr rfl rfl rfl)
      (fun hnot => by cases hnot) htotal hslots, fun _ => hunused⟩

/-- Nothing is done as long as no request is complete. -/
theorem executeBlockIo_unused (hunused : (lib.blkIo.entries 0).state = .unused) :
    lib.executeBlockIo = some lib := by
  have hnone : lib.blkIo.peekCompletedPrimitive = IoPrimitive.invalidObject := by
    rw [BlockIoObject.peekCompleted_eq, hunused]
    exact if_neg (by decide)
  unfold InitLibrary.executeBlockIo
  rw [hnone]
  rfl

/-- **A request to block I/O is done**: the module it came from is told, and the
disk, which had the block already, does not change. -/
theorem InitServing.executeIo (h : InitServing sha p lib ((lib.blkIo.entries 0).settled buf disk))
    (hrun : lib.executeBlockIo = some lib') :
    InitServing sha p lib' ((lib'.blkIo.entries 0).settled buf disk)
      ∧ lib'.blkAlloc = lib.blkAlloc ∧ lib'.clientReqComplete = lib.clientReqComplete := by
  unfold InitLibrary.executeBlockIo at hrun
  rw [BlockIoObject.peekCompleted_eq] at hrun
  by_cases hstate : (lib.blkIo.entries 0).state = .complete
  · rw [if_pos hstate] at hrun
    by_cases hvalid : (lib.blkIo.entries 0).prim.valid = false
    · obtain rfl := Option.some.inj ((if_pos hvalid).symm.trans hrun)
      exact ⟨h, rfl, rfl⟩
    replace hrun := (if_neg hvalid).symm.trans hrun
    obtain ⟨hsucc, hrun⟩ := Option.ite_none_left_eq_some.mp hrun
    have hempty := BlockIoObject.dropCompletedPrimitive_spec hstate
    have hunused : ((lib.blkIo.dropCompletedPrimitive (lib.blkIo.entries 0).prim).entries 0).state
        = .unused := by rw [hempty]; rfl
    rw [settled_of_complete hstate (Bool.not_eq_false _ ▸ hsucc)] at h
    cases htag : (lib.blkIo.entries 0).prim.tag with
    | sbInitBlkIo =>
      rw [htag] at hrun
      obtain ⟨sbInit, hmark, rfl⟩ := Option.map_eq_some_iff.mp hrun
      unfold SuperblockInit.markGeneratedBlkIoPrimitiveComplete at hmark
      cases hst : lib.sbInit.slotState with
      | dropped req =>
        rw [hst] at hmark
        cases req with
        | sync =>
          obtain ⟨-, rfl⟩ := complete_spec hmark
          rw [settled_of_unused hunused]
          exact ⟨h.slotsDone hst rfl rfl hunused, rfl, rfl⟩
        | write =>
          obtain ⟨-, rfl⟩ := complete_spec hmark
          rw [settled_of_unused hunused]
          exact ⟨h.slotsDone hst rfl rfl hunused, rfl, rfl⟩
        | _ => exact absurd hmark (by simp)
      | _ =>
        rw [hst] at hmark
        exact absurd hmark (by simp)
    | vbdInitBlkIo =>
      rw [htag] at hrun
      obtain rfl := Option.some.inj hrun
      rw [settled_of_unused hunused]
      refine ⟨h.withModules _ _ rfl ?_ fun _ => hunused, rfl, rfl⟩
      have hsame := mark_initializeObject vbdInitializer (lib.blkIo.entries 0).prim
      cases h.phase with
      | trees n hst hidx hvbd hft hhas htotal hdisk =>
        exact .trees n hst hidx (by rw [hvbd]; exact hsame) hft hhas htotal hdisk
      | vbd hst hidx hft hbuild hlvl =>
        refine .vbd hst hidx hft (hbuild.written (by decide) htag) ?_
        unfold TreeInit.markGeneratedPrimitiveComplete
        split_ifs <;> exact hlvl
      | ft n hst hidx hvbd hhas hbuild hlvl =>
        exact .ft n hst hidx (by rw [hvbd]; exact hsame) hhas hbuild hlvl
      | slots n hst hinit hvbd hft hhas hslot htotal hslots =>
        exact .slots n hst hinit (by rw [hvbd]; exact hsame) hft hhas hslot htotal hslots
    | ftInitBlkIo =>
      rw [htag] at hrun
      obtain rfl := Option.some.inj hrun
      rw [settled_of_unused hunused]
      refine ⟨h.withModules _ _ rfl ?_ fun _ => hunused, rfl, rfl⟩
      have hsame := mark_initializeObject freeTreeInitializer (lib.blkIo.entries 0).prim
      cases h.phase with
      | trees n hst hidx hvbd hft hhas htotal hdisk =>
        exact .trees n hst hidx hvbd (by rw [hft]; exact hsame) hhas htotal hdisk
      | vbd hst hidx hft hbuild hlvl =>
        exact .vbd hst hidx (by rw [hft]; exact hsame) hbuild hlvl
      | ft n hst hidx hvbd hhas hbuild hlvl =>
        refine .ft n hst hidx hvbd hhas (hbuild.written (by decide) htag) ?_
        unfold TreeInit.markGeneratedPrimitiveComplete
        split_ifs <;> exact hlvl
      | slots n hst hinit hvbd hft hhas hslot htotal hslots =>
        exact .slots n hst hinit hvbd (by rw [hft]; exact hsame) hhas hslot htotal hslots
    | _ =>
      rw [htag] at hrun
      exact absurd hrun (by simp)
  · rw [if_neg hstate] at hrun
    obtain rfl := Option.some.inj hrun
    exact ⟨h, rfl, rfl⟩

/-- A key that the trust anchor has made is taken. -/
theorem InitServing.keyDone {req : SbInitRequest} {ta : TrustAnchor} {plain cipher : KeyValue}
    (h : InitServing sha p lib disk) (hst : lib.sbInit.slotState = .dropped req)
    (hreq : req = .taCreateKey ∨ req = .taEncryptKey) :
    InitServing sha p { lib with
      sbInit := { lib.sbInit with
        slotState := .requestDone req, keyPlain := plain, keyCipher := cipher }
      ta := ta } disk := by
  have htrees : (SbInitState.dropped req).treesBuilt = some 3
      ∧ (SbInitState.dropped req).slotsDone = none
      ∧ (SbInitState.requestDone req).treesBuilt = some 3 ∧ req ≠ .sync := by
    rcases hreq with rfl | rfl <;> exact ⟨rfl, rfl, rfl, by decide⟩
  obtain ⟨hidx, hvbd, hft, hhas, htotal, hdisk⟩ := h.trees (n := 3) (by rw [hst]; exact htrees.1)
    (by rw [hst]; exact htrees.2.1)
  exact ⟨h.submitted, h.vbdGeo, h.ftGeo, h.mtGeo, h.firstBlk, fun _ hnot => (by cases hnot),
    .trees 3 htrees.2.2.1 hidx hvbd hft (hhas.congr rfl rfl rfl) htotal hdisk,
    fun hnot => (by simp [htrees.2.2.2] at hnot)⟩

/-- **The trust anchor** delivers its keys. -/
theorem InitServing.completeTa (n : ℕ) (h : InitServing sha p lib disk)
    (hrun : InitLibrary.completeTa n lib = some lib') :
    InitServing sha p lib' disk ∧ lib'.blkAlloc = lib.blkAlloc ∧ lib'.blkIo = lib.blkIo
      ∧ lib'.clientReqComplete = lib.clientReqComplete := by
  induction n generalizing lib with
  | zero =>
    obtain rfl := Option.some.inj hrun
    exact ⟨h, rfl, rfl, rfl⟩
  | succ n ih =>
    unfold InitLibrary.completeTa at hrun
    by_cases hvalid : lib.ta.peekCompletedPrimitive.valid = false
    · obtain rfl := Option.some.inj ((if_pos hvalid).symm.trans hrun)
      exact ⟨h, rfl, rfl, rfl⟩
    replace hrun := (if_neg hvalid).symm.trans hrun
    obtain ⟨sbInit, hmark, hrun⟩ := Option.bind_eq_some_iff.mp hrun
    obtain ⟨ta, -, hrun⟩ := Option.bind_eq_some_iff.mp hrun
    have hnext : InitServing sha p { lib with sbInit := sbInit, ta := ta } disk := by
      unfold InitLibrary.markTaComplete at hmark
      cases htag : lib.ta.peekCompletedPrimitive.tag with
      | sbInitTaCreateKey =>
        rw [htag] at hmark
        obtain ⟨key, -, hmark⟩ := Option.bind_eq_some_iff.mp hmark
        obtain ⟨marked, hcompl, rfl⟩ := Option.map_eq_some_iff.mp hmark
        obtain ⟨hst, rfl⟩ := complete_spec hcompl
        exact h.keyDone hst (Or.inl rfl)
      | sbInitTaEncryptKey =>
        rw [htag] at hmark
        obtain ⟨key, -, hmark⟩ := Option.bind_eq_some_iff.mp hmark
        obtain ⟨marked, hcompl, rfl⟩ := Option.map_eq_some_iff.mp hmark
        obtain ⟨hst, rfl⟩ := complete_spec hcompl
        exact h.keyDone hst (Or.inr rfl)
      | _ =>
        rw [htag] at hmark
        exact absurd hmark (by simp)
    have hrest := ih hnext hrun
    exact hrest

/-! ## The end of a request

When the last slot was written and synced, the superblock initializer completes
the request of the client and all modules are as they were initialized. -/

/-- **The image of a plan is on the disk.** -/
def Imaged (sha : BlockData → Hash) (p : InitPlan) (disk : Disk) : Prop :=
  ∃ obj : SuperblockInit, p.Has sha 3 obj ∧ obj.vbdGeo = p.geo.vbd ∧ obj.ftGeo = p.geo.ft
    ∧ obj.mtGeo = p.geo.ft ∧ SlotsWritten (obj.superblock (p.tree sha 3).2.next)
      nrOfSuperblockSlots (p.tree sha 3).2.disk disk

/-- **The library serves no request.** -/
structure InitIdle (lib : InitLibrary) : Prop where
  /-- The superblock initializer is as at its start. -/
  sbInit : lib.sbInit = SuperblockInit.initializeObject
  /-- So is the one of the virtual block device. -/
  vbdInit : lib.vbdInit = TreeInit.initializeObject vbdInitializer
  /-- So is the one of the free tree. -/
  ftInit : lib.ftInit = TreeInit.initializeObject freeTreeInitializer
  /-- The allocator starts behind the slots. -/
  firstBlk : lib.blkAlloc.firstBlk = nrOfSuperblockSlots
  /-- The allocator has no primitive. -/
  idle : lib.blkAlloc.prim.valid = false
  /-- The next address fits in 32 bits. -/
  small : lib.blkAlloc.total < 2 ^ 32
  /-- Block I/O rests. -/
  unused : (lib.blkIo.entries 0).state = .unused

/-- The superblock could be encoded, so the next address fits its field. -/
theorem Imaged.next_lt (h : Imaged sha p disk) (hlt : (p.tree sha 3).2.next < 2 ^ 64) :
    (p.tree sha 3).2.next < 2 ^ 32 := by
  obtain ⟨obj, -, -, -, -, hslots⟩ := h
  obtain ⟨buf, hbuf, -⟩ := Option.map_eq_some_iff.mp (hslots.2 0 (by decide))
  have hpool := nrOfPbas_lt_of_encoded hbuf
  rwa [if_pos rfl, show (obj.superblock (p.tree sha 3).2.next).nrOfPbas
    = (p.tree sha 3).2.next % 2 ^ 64 from rfl, Nat.mod_eq_of_lt hlt] at hpool

/-- **The superblock initializer** goes on, or the request is completed. -/
theorem InitServing.executeSuperblock
    (h : InitServing sha p lib ((lib.blkIo.entries 0).settled buf disk)) (hstart : p.start < 2 ^ 32)
    (hidle : lib.blkAlloc.prim.valid = false)
    (hrun : lib.executeSuperblockInitializer buf = some (lib', buf')) :
    lib'.blkAlloc = lib.blkAlloc
      ∧ (InitServing sha p lib' ((lib'.blkIo.entries 0).settled buf' disk)
          ∧ lib'.clientReqComplete = lib.clientReqComplete
        ∨ InitIdle lib' ∧ lib'.clientReqComplete = true ∧ Imaged sha p disk) := by
  have hfirst : (lib.blkAlloc.firstBlk + (2 ^ 64 - nrOfSuperblockSlots)) % 2 ^ 64 = 0 := by
    rw [h.firstBlk]
    decide
  have hnr : lib.blkAlloc.nrOfBlks + nrOfSuperblockSlots = lib.blkAlloc.total := by
    rw [BlockAllocator.total, h.firstBlk, Nat.add_comm]
  unfold InitLibrary.executeSuperblockInitializer at hrun
  rw [hfirst, hnr] at hrun
  obtain ⟨⟨lib₁, buf₁⟩, hsubmit, hrun⟩ := Option.bind_eq_some_iff.mp hrun
  obtain ⟨lib₂, hcomplete, hrun⟩ := Option.bind_eq_some_iff.mp hrun
  obtain ⟨rfl, rfl⟩ := Prod.mk.inj (Option.some.inj hrun)
  obtain ⟨hserving, halloc, hclient⟩ := h.executeSb.submitSb hsubmit
  unfold InitLibrary.completeClientRequest at hcomplete
  by_cases hequal : libSbInitPrim.Equal lib₁.sbInit.peekCompletedPrimitive
  · obtain ⟨sbInit, hdrop, rfl⟩ := Option.map_eq_some_iff.mp ((if_pos hequal).symm.trans hcomplete)
    obtain ⟨⟨⟨-, hlast, hst⟩, -⟩, hdrop⟩ := Option.ite_none_right_eq_some.mp hdrop
    obtain rfl := Option.some.inj hdrop
    obtain ⟨hvbd, hft, hhas, htotal, hslots, -⟩ := hserving.slots (n := 1) (by rw [hst]; rfl)
      (by rw [hst]; rfl)
    have hunused := hserving.unused (Or.inr hst)
    rw [settled_of_unused hunused, hlast, htotal] at hslots
    have himaged : Imaged sha p disk :=
      ⟨lib₁.sbInit, hhas, hserving.vbdGeo, hserving.ftGeo, hserving.mtGeo, hslots⟩
    have hlt := InitPlan.tree_next_lt sha (n := 3) hstart (le_refl 3)
      (fun _ => (hhas.vbd (by decide)).2) fun _ => (hhas.ft (by decide)).2
    refine ⟨halloc, Or.inr ⟨⟨rfl, hvbd, hft, hserving.firstBlk, ?_, ?_, hunused⟩, rfl, himaged⟩⟩
    · rw [halloc]
      exact hidle
    · rw [htotal]
      exact himaged.next_lt hlt
  · obtain rfl := Option.some.inj ((if_neg hequal).symm.trans hcomplete)
    exact ⟨halloc, Or.inl ⟨hserving, hclient⟩⟩

/-! ## Calls of the library

The procedures are put together in the order in which `Execute` calls them. -/

/-- The superblock initializer has nothing to do. -/
theorem InitIdle.executeSuperblock (h : InitIdle lib) :
    lib.executeSuperblockInitializer buf = some (lib, buf) := by
  obtain ⟨sbInit, vbdInit, ftInit, blkAlloc, blkIo, ta, success, complete⟩ := lib
  obtain ⟨rfl, -⟩ := h
  rfl

/-- The trust anchor has no key for a superblock initializer that is not at work. -/
theorem completeTa_of_init (lib : InitLibrary) (n : ℕ) (hst : lib.sbInit.slotState = .init)
    (hrun : InitLibrary.completeTa n lib = some lib') : lib' = lib := by
  cases n with
  | zero => exact (Option.some.inj hrun).symm
  | succ n =>
    unfold InitLibrary.completeTa at hrun
    by_cases hvalid : lib.ta.peekCompletedPrimitive.valid = false
    · exact (Option.some.inj ((if_pos hvalid).symm.trans hrun)).symm
    replace hrun := (if_neg hvalid).symm.trans hrun
    obtain ⟨sbInit, hmark, -⟩ := Option.bind_eq_some_iff.mp hrun
    unfold InitLibrary.markTaComplete at hmark
    have hnone : ∀ req marked (prim : IoPrimitive), lib.sbInit.complete req prim ≠ some marked :=
      fun req marked prim hcompl => absurd (hst.symm.trans (complete_spec hcompl).1) (by simp)
    cases htag : lib.ta.peekCompletedPrimitive.tag with
    | sbInitTaCreateKey =>
      rw [htag] at hmark
      obtain ⟨key, -, hmark⟩ := Option.bind_eq_some_iff.mp hmark
      obtain ⟨marked, hcompl, -⟩ := Option.map_eq_some_iff.mp hmark
      exact absurd hcompl (hnone _ _ _)
    | sbInitTaEncryptKey =>
      rw [htag] at hmark
      obtain ⟨key, -, hmark⟩ := Option.bind_eq_some_iff.mp hmark
      obtain ⟨marked, hcompl, -⟩ := Option.map_eq_some_iff.mp hmark
      exact absurd hcompl (hnone _ _ _)
    | _ =>
      rw [htag] at hmark
      exact absurd hmark (by simp)

/-- `Execute` after the superblock initializer. -/
def InitLibrary.executeRest (sha : BlockData → Hash) (lib : InitLibrary) (buf : BlockData) :
    Option (InitLibrary × BlockData) := do
  let (obj, buf) ← lib.executeVbdInitializer sha buf
  let (obj, buf) ← obj.executeFreeTreeInitializer sha buf
  let obj ← obj.executeBlockAllocator
  let obj ← obj.executeBlockIo
  let obj ← obj.executeTa
  some (obj, buf)

/-- `Execute` begins with the superblock initializer. -/
theorem execute_eq : lib.execute sha buf
    = (lib.executeSuperblockInitializer buf).bind fun r => r.1.executeRest sha r.2 := rfl

/-- **A library that serves no request** stays as it is. -/
theorem InitIdle.executeRest (h : InitIdle lib)
    (hrun : lib.executeRest sha buf = some (lib', buf')) :
    InitIdle lib' ∧ buf' = buf ∧ lib'.clientReqComplete = lib.clientReqComplete := by
  unfold InitLibrary.executeRest at hrun
  rw [executeVbdInitializer_resting h.vbdInit] at hrun
  simp only [Option.bind_eq_bind, Option.bind_some] at hrun
  rw [executeFreeTreeInitializer_resting h.ftInit] at hrun
  simp only [Option.bind_some] at hrun
  rw [executeBlockAllocator_idle h.idle, Option.bind_some, executeBlockIo_unused h.unused,
    Option.bind_some] at hrun
  obtain ⟨lib₁, hta, hrun⟩ := Option.bind_eq_some_iff.mp hrun
  obtain ⟨rfl, rfl⟩ := Prod.mk.inj (Option.some.inj hrun)
  have hsame := completeTa_of_init { lib with ta := lib.ta.execute } 2 (by rw [h.sbInit]; rfl) hta
  subst hsame
  exact ⟨⟨h.sbInit, h.vbdInit, h.ftInit, h.firstBlk, h.idle, h.small, h.unused⟩, rfl, rfl⟩

/-- **A call of `Execute`** goes on with the request or completes it. -/
theorem InitServing.execute
    (h : InitServing sha p lib ((lib.blkIo.entries 0).settled buf disk)) (hstart : p.start < 2 ^ 32)
    (hidle : lib.blkAlloc.prim.valid = false) (hrun : lib.execute sha buf = some (lib', buf')) :
    InitServing sha p lib' ((lib'.blkIo.entries 0).settled buf' disk)
        ∧ lib'.blkAlloc.prim.valid = false ∧ lib'.clientReqComplete = lib.clientReqComplete
      ∨ InitIdle lib' ∧ lib'.clientReqComplete = true ∧ Imaged sha p disk := by
  rw [execute_eq] at hrun
  obtain ⟨⟨lib₁, buf₁⟩, hsuper, hrun⟩ := Option.bind_eq_some_iff.mp hrun
  obtain ⟨halloc, ⟨h₁, hclient₁⟩ | ⟨hidle₁, hcomplete, himaged⟩⟩ :=
    h.executeSuperblock hstart hidle hsuper
  · obtain ⟨⟨lib₂, buf₂⟩, hvbd, hrun⟩ := Option.bind_eq_some_iff.mp hrun
    obtain ⟨⟨lib₃, buf₃⟩, hft, hrun⟩ := Option.bind_eq_some_iff.mp hrun
    obtain ⟨lib₄, hblk, hrun⟩ := Option.bind_eq_some_iff.mp hrun
    obtain ⟨lib₅, hio, hrun⟩ := Option.bind_eq_some_iff.mp hrun
    obtain ⟨lib₆, hta, hrun⟩ := Option.bind_eq_some_iff.mp hrun
    obtain ⟨rfl, rfl⟩ := Prod.mk.inj (Option.some.inj hrun)
    obtain ⟨h₂, hfor₂, hclient₂⟩ := h₁.executeVbd (by rw [halloc]; exact hidle) hvbd
    obtain ⟨h₃, hfor₃, hclient₃⟩ := h₂.executeFt hfor₂ hft
    obtain ⟨h₄, hidle₄, hio₄, hclient₄⟩ := h₃.executeAlloc hstart hfor₃ hblk
    rw [← hio₄] at h₄
    obtain ⟨h₅, halloc₅, hclient₅⟩ := h₄.executeIo hio
    have hta₅ : InitServing sha p { lib₅ with ta := lib₅.ta.execute }
        ((lib₅.blkIo.entries 0).settled buf₃ disk) :=
      ⟨h₅.submitted, h₅.vbdGeo, h₅.ftGeo, h₅.mtGeo, h₅.firstBlk, h₅.generated, h₅.phase, h₅.unused⟩
    obtain ⟨h₆, halloc₆, hio₆, hclient₆⟩ := hta₅.completeTa 2 hta
    rw [hio₆, halloc₆]
    exact Or.inl ⟨h₆, (congrArg (fun alloc => alloc.prim.valid) halloc₅).trans hidle₄,
      hclient₆.trans (hclient₅.trans (hclient₄.trans (hclient₃.trans (hclient₂.trans hclient₁))))⟩
  · obtain ⟨hidle', -, hclient⟩ := hidle₁.executeRest hrun
    exact Or.inr ⟨hidle', hclient.trans hcomplete, himaged⟩

/-! ## Runs

The client submits a request, calls `Execute` and serves block I/O, in any order
that the library accepts. Every step keeps the invariant, so it holds after
every run. -/

/-- The plan of a request. -/
structure InitPlan.For (p : InitPlan) (req : InitRequest) : Prop where
  /-- The plan has the geometry of the request. -/
  geo : p.geo = req.geo
  /-- It starts behind the blocks that were allocated before. -/
  start : p.start = nrOfSuperblockSlots + req.allocated

/-- **The states of the library and its client.** -/
inductive InitInv (sha : BlockData → Hash) (w : InitWorld) : Prop
  | idle (hidle : InitIdle w.lib) (himaged : w.lib.clientReqComplete = true →
      ∃ p req, w.serving = some req ∧ p.For req ∧ p.start < 2 ^ 32 ∧ Imaged sha p w.disk)
  | serving (p : InitPlan) (req : InitRequest) (hreq : w.serving = some req) (hfor : p.For req)
      (hstart : p.start < 2 ^ 32)
      (hserving : InitServing sha p w.lib ((w.lib.blkIo.entries 0).settled w.ioBuf w.disk))
      (hidle : w.lib.blkAlloc.prim.valid = false) (hclient : w.lib.clientReqComplete = false)

/-- The backend does not change what is going to be on the disk. -/
theorem InitServing.withBlkIo (h : InitServing sha p lib disk) {blkIo : BlockIoObject}
    (hused : (lib.blkIo.entries 0).state ≠ .unused) :
    InitServing sha p { lib with blkIo := blkIo } disk :=
  h.withModules lib.blkAlloc blkIo rfl
    h.phase fun hst => absurd (h.unused hst) hused

/-- Taking a request over does not serve it. -/
theorem settled_inProgress {entry : BlockIoEntry} (h : entry.state = .pending) :
    BlockIoEntry.settled { entry with state := .inProgress } buf disk = entry.settled buf disk := by
  unfold BlockIoEntry.settled
  rw [h]
  simp

/-- **A request is completed**, and its block is on the disk if it is a write that succeeded. -/
theorem settled_complete {entry : BlockIoEntry} (h : entry.state = .inProgress) (success : Bool) :
    BlockIoEntry.settled
        { entry with prim := { entry.prim with success := success }, state := .complete } buf
        (if success = true ∧ entry.prim.operation = .write then
          Function.update disk entry.prim.blockNumber buf else disk)
      = entry.settled buf disk := by
  unfold BlockIoEntry.settled
  rw [h]
  cases success <;> by_cases hop : entry.prim.operation = .write <;> simp [hop]

/-- **Every step** keeps this: the submission of a request, a call of `Execute`,
a request that the backend takes over, and one that it completes. -/
theorem InitInv.step {w w' : InitWorld} {a : InitWorld.Action} (h : InitInv sha w)
    (hstep : w.step sha a = some w') : InitInv sha w' := by
  cases a with
  | submit geo =>
    obtain ⟨⟨hacc, hclient⟩, hstep⟩ := Option.ite_none_right_eq_some.mp hstep
    obtain ⟨lib, hsubmit, rfl⟩ := Option.map_eq_some_iff.mp hstep
    cases h with
    | serving p req hreq hfor hstart hserving =>
      have hfree : w.lib.sbInit.submittedPrim.valid = false := hacc
      rw [hserving.submitted] at hfree
      exact absurd hfree.symm Bool.false_ne_true
    | idle hidle himaged =>
      obtain ⟨sbInit, hsb, rfl⟩ := Option.map_eq_some_iff.mp hsubmit
      rw [hidle.sbInit] at hsb
      obtain rfl := Option.some.inj hsb
      refine .serving ⟨geo, w.lib.blkAlloc.total, w.disk⟩ _ rfl
        ⟨rfl, by rw [← hidle.firstBlk]; rfl⟩ hidle.small ?_ hidle.idle hclient
      rw [settled_of_unused hidle.unused]
      refine ⟨rfl, rfl, rfl, rfl, hidle.firstBlk, fun _ hnot => (by cases hnot), ?_,
        fun _ => hidle.unused⟩
      exact .trees 0 rfl rfl hidle.vbdInit hidle.ftInit
        ⟨fun hn => absurd hn (by decide), fun hn => absurd hn (by decide),
          fun hn => absurd hn (by decide)⟩ rfl rfl
  | execute =>
    obtain ⟨⟨lib, buf⟩, hexec, rfl⟩ := Option.map_eq_some_iff.mp hstep
    cases h with
    | idle hidle himaged =>
      rw [execute_eq, hidle.executeSuperblock] at hexec
      obtain ⟨hidle', -, hclient⟩ := hidle.executeRest hexec
      exact .idle hidle' fun hcomplete => himaged (hclient.symm.trans hcomplete)
    | serving p req hreq hfor hstart hserving hidle hclient =>
      rcases hserving.execute hstart hidle hexec with
        ⟨hserving', hidle', hclient'⟩ | ⟨hidle', -, himaged⟩
      · exact .serving p req hreq hfor hstart hserving' hidle' (hclient'.trans hclient)
      · exact .idle hidle' fun _ => ⟨p, req, hreq, hfor, hstart, himaged⟩
  | ioInProgress =>
    obtain ⟨io, hdrop, rfl⟩ := Option.map_eq_some_iff.mp hstep
    have hpending : (w.lib.blkIo.entries 0).state = .pending :=
      not_not.mp (Option.ite_none_left_eq_some.mp hdrop).1
    have hused : (w.lib.blkIo.entries 0).state ≠ .unused := by rw [hpending]; decide
    obtain ⟨io', hio', hentry⟩ := BlockIoObject.dropGeneratedPrimitive2_spec 0 hpending
    obtain rfl := Option.some.inj (hio'.symm.trans hdrop)
    cases h with
    | idle hidle himaged => exact absurd hidle.unused hused
    | serving p req hreq hfor hstart hserving hidle hclient =>
      refine .serving p req hreq hfor hstart ?_ hidle hclient
      rw [hentry, settled_inProgress hpending]
      exact hserving.withBlkIo hused
  | ioCompleted success =>
    obtain ⟨io, hmark, rfl⟩ := Option.map_eq_some_iff.mp hstep
    have hprogress : (w.lib.blkIo.entries 0).state = .inProgress :=
      not_not.mp (Option.ite_none_left_eq_some.mp hmark).1
    have hused : (w.lib.blkIo.entries 0).state ≠ .unused := by rw [hprogress]; decide
    obtain ⟨io', hio', hentry⟩ :=
      BlockIoObject.markGeneratedPrimitiveComplete_spec 0 success hprogress
    obtain rfl := Option.some.inj (hio'.symm.trans hmark)
    cases h with
    | idle hidle himaged => exact absurd hidle.unused hused
    | serving p req hreq hfor hstart hserving hidle hclient =>
      refine .serving p req hreq hfor hstart ?_ hidle hclient
      rw [hentry, InitWorld.served, settled_complete hprogress]
      exact hserving.withBlkIo hused
  | dropCompleted =>
    obtain ⟨lib, hdrop, rfl⟩ := Option.map_eq_some_iff.mp hstep
    obtain ⟨hcomplete, hdrop⟩ := Option.ite_none_right_eq_some.mp hdrop
    obtain rfl := Option.some.inj hdrop
    cases h with
    | idle hidle himaged =>
      exact .idle ⟨hidle.sbInit, hidle.vbdInit, hidle.ftInit, hidle.firstBlk, hidle.idle,
        hidle.small, hidle.unused⟩ fun hnot => absurd hnot Bool.false_ne_true
    | serving p req hreq hfor hstart hserving hidle hclient =>
      exact absurd (hclient.symm.trans hcomplete) Bool.false_ne_true

/-- The library after its start serves no request. -/
theorem InitInv.initial (ioBuf : BlockData) (disk : Disk) :
    InitInv sha (InitWorld.initial ioBuf disk) :=
  .idle ⟨rfl, rfl, rfl, rfl, rfl, show nrOfSuperblockSlots + 0 < 2 ^ 32 by decide, rfl⟩
    fun hnot => absurd hnot Bool.false_ne_true

/-- **The image of the last request is on the disk** when the library has completed it. -/
theorem imaged_of_run {ioBuf : BlockData} {w : InitWorld}
    (hrun : Runs.Run (InitWorld.step sha) (fun _ _ => True) (InitWorld.initial ioBuf disk) w)
    (hcomplete : w.lib.clientReqComplete = true) :
    ∃ p req, w.serving = some req ∧ InitPlan.For p req ∧ p.start < 2 ^ 32
      ∧ Imaged sha p w.disk := by
  have hinv := hrun.invariant (fun _ _ _ h _ hstep => InitInv.step h hstep)
    (InitInv.initial ioBuf disk)
  cases hinv with
  | idle hidle himaged => exact himaged hcomplete
  | serving p req hreq hfor hstart hserving hidle hclient =>
    exact absurd (hclient.symm.trans hcomplete) Bool.false_ne_true

end Cbe
