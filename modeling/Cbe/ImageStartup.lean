import Cbe.DeviceVersions
import Cbe.ImageTrees

/-!
# A device on the image that the init library wrote

The library starts with the superblock of the first slot, the only valid one,
and finds the trees that the init library built. So what an initialization
leaves on the block device is what the device needs to begin with: the device
that starts on it is fresh (`Device.Fresh`) and intact (`Device.Intact`), every
address reads as zeros, and the blocks of the stock are there
(`Device.started_of_init`).

The tree of the virtual block device is addressed by shifts of the logarithm of
its degree, but it is built with as many children as the degree says. So the
degree has to be a power of two here.

Four things are joined. The startup of the library is a scan over the slots,
computed here for slots of which only the first is valid. The image is the one
of the init library's runs, known as the content of single blocks. The trees of
the device are the abstract ones, whose nodes are looked up in the blocks. And
between the last two stands the layout of a tree: its nodes are at consecutive
addresses, each block once, with the right hash in the entry above. From it the
tree is sound, and as the free tree was laid out behind it, the blocks in the
stock are not its own.
-/

namespace Cbe

open LevelScan BottomUp RadixTree

variable {P : Platform} {sha : BlockData → Hash} {load : BlockData → P.Block}

/-! ## The superblock slots

The scan of `Execute_Initialize` over a new image: every slot but the first is
skipped. -/

/-- Slots that are not valid are skipped. -/
theorem foldlM_readSbCompleted_of_invalid {slots : SuperblocksIndex → SuperblockCiphertext}
    {is : List SuperblocksIndex} (h : ∀ i ∈ is, ¬ (slots i).Valid) (job : InitializeJob) :
    is.foldlM (readSbCompleted slots) job = some job := by
  induction is with
  | nil => rfl
  | cons i is ih =>
    have hi : readSbCompleted slots job i = some job := if_neg (h i List.mem_cons_self)
    rw [List.foldlM_cons, hi]
    exact ih fun j hj => h j (List.mem_cons_of_mem i hj)

/-- **The scan on a new image** selects the first slot. -/
theorem InitialSlots.selectSuperblock_eq {slots : SuperblocksIndex → SuperblockCiphertext}
    (h : InitialSlots slots) (hvalid : (slots 0).Valid) :
    selectSuperblock slots = some { sbFound := true, generation := 0, sbIdx := 0 } := by
  have hgen : sbGeneration (slots 0) = some 0 := by
    unfold sbGeneration
    rw [(h.first.currentNewest 0).newestSnapshotIdx_eq]
    exact congrArg some h.first.curr_gen
  have hfirst : readSbCompleted slots { sbFound := false, generation := 0, sbIdx := 0 } 0
      = some { sbFound := true, generation := 0, sbIdx := 0 } := by
    unfold readSbCompleted
    rw [if_pos hvalid, hgen]
    rfl
  have hsplit : List.finRange nrOfSuperblockSlots
      = 0 :: (List.finRange 7).map Fin.succ := List.finRange_succ
  unfold selectSuperblock
  rw [hsplit, List.foldlM_cons, hfirst]
  show (((List.finRange 7).map Fin.succ).foldlM (readSbCompleted slots) _).bind _ = _
  rw [foldlM_readSbCompleted_of_invalid]
  · rfl
  · intro i hi
    obtain ⟨j, -, rfl⟩ := List.mem_map.mp hi
    exact h.other _ (Fin.succ_ne_zero j)

/-- The superblock in memory that comes from a new image: it has the current key only. -/
def adoptedSuperblock (P : Platform) (ct : SuperblockCiphertext) : Superblock :=
  { initSbWithoutKeyValues ct with
    currentKey := { ct.currentKey with value := P.decryptKey ct.currentKey.value } }

/-- Adopting the superblock decrypts its current key. -/
theorem InitialSuperblock.adopt {ct : SuperblockCiphertext} (h : InitialSuperblock ct) :
    adoptSuperblock P ct = some (adoptedSuperblock P ct) := by
  unfold adoptSuperblock
  rw [h.state]
  rfl

/-- **`Execute_Initialize` on a new image**: the superblock of the first slot is
adopted, and the first generation to be written is 1. -/
theorem InitialSlots.executeInitialize_eq {slots : SuperblocksIndex → SuperblockCiphertext}
    (h : InitialSlots slots) (hvalid : (slots 0).Valid)
    (hlevel : freeTreeMinMaxLevel ≤ (slots 0).freeMaxLevel) :
    executeInitialize P slots
      = some { sb := adoptedSuperblock P (slots 0), sbIdx := 0, currGen := 1 } := by
  have hnot : ¬ (adoptedSuperblock P (slots 0)).freeMaxLevel < freeTreeMinMaxLevel :=
    Nat.not_lt.mpr hlevel
  unfold executeInitialize
  rw [h.selectSuperblock_eq hvalid, Option.bind_some, h.first.adopt, Option.bind_some,
    if_neg hnot]
  rfl

/-! ## A tree that is laid out

A table with a single snapshot, whose tree was built in one go. Its nodes have
consecutive addresses, which makes the clauses of soundness statements about an
interval. -/

section

variable {t : Trees P} {disk : Disk} {s s' : Supply} {es : List Type2Node}

/-- The trees of a table with one snapshot, which was laid out. -/
structure NewTree (sha : BlockData → Hash) (load : BlockData → P.Block) (disk : Disk)
    (t : Trees P) (s s' : Supply) : Prop where
  /-- The blocks are those of the disk. -/
  store : t.store = disk.store P load
  /-- The degree is one that the trees can have. -/
  admitted : DegreeAdmitted t.degree
  /-- The current snapshot is the only one. -/
  valid : ∀ i, (t.snaps i).valid = true ↔ i = t.cur
  /-- It is of the generation zero. -/
  gen : (t.snaps t.cur).gen = 0
  /-- Its tree was laid out between the two supplies. -/
  laid : Laid t.store.child Type1Node.pba (treeRadix t.degree) (NewEntry sha disk)
    (t.snaps t.cur).maxLevel (t.snaps t.cur).root s s'
  /-- There was a supply for all its leaves. -/
  left : s.left = (t.snaps t.cur).nrOfLeafs
  /-- No address of it is zero. -/
  pos : 0 < s.next

namespace NewTree

variable (h : NewTree sha load disk t s s') {v l : ℕ}

include h

/-- Every node of the tree is one of the layout. -/
theorem entry (hp : t.Present t.cur v l) : NewEntry sha disk l (t.node t.cur v l) :=
  h.laid.holds (treeRadix_pos _) hp.1 hp.2.2

/-- Its address is one of those handed out. -/
theorem pba_mem (hp : t.Present t.cur v l) :
    s.next ≤ (t.node t.cur v l).pba ∧ (t.node t.cur v l).pba < s'.next :=
  h.laid.addr_mem (treeRadix_pos _) hp.1 hp.2.2

/-- The tree has the leaves that were placed. -/
theorem present_iff (hfits : s.left ≤ treeRadix t.degree ^ (t.snaps t.cur).maxLevel) :
    t.Present t.cur v 0 ↔ v < (t.snaps t.cur).nrOfLeafs := by
  rw [← h.left]
  constructor
  · intro hp
    exact (h.laid.reached_iff (treeRadix_pos _) hp.2.1).mp hp.2.2
  · intro hv
    have hlt := hv.trans_le hfits
    exact ⟨Nat.zero_le _, hlt, (h.laid.reached_iff (treeRadix_pos _) hlt).mpr hv⟩

/-- **The tree is sound** with a stock behind it. -/
theorem sound (henc : P.Encodes sha load)
    (hfits : s.left ≤ treeRadix t.degree ^ (t.snaps t.cur).maxLevel) (hleft : 0 < s.left)
    (hstock : (stockPbas es).Nodup) (hapart : ∀ e ∈ es, e.pba ≠ 0 → s'.next ≤ e.pba)
    (K : KeyState) (g : ℕ) : Sound t K es g := by
  refine .of_single h.admitted h.valid (h.gen.le.trans (Nat.zero_le g))
    (fun v l w k hv hw heq => ?_) (fun v l hv => ?_) hstock (fun v l hv e he heq => ?_)
    (fun v l hv hneed => ?_) ⟨by rw [← h.left]; exact hleft, fun v => h.present_iff hfits⟩
  · obtain ⟨rfl, hdigits⟩ :=
      h.laid.entry_inj (treeRadix_pos _) hv.1 hw.1 hv.2.2 hw.2.2 heq
    exact ⟨rfl, (div_pow_eq_iff hv.2.1 hw.2.1 hv.1).mpr hdigits⟩
  · rw [(h.entry hv).1]
    exact Nat.zero_le _
  · obtain ⟨hlo, hhi⟩ := h.pba_mem hv
    have hne : e.pba ≠ 0 := heq ▸ (h.pos.trans_le hlo).ne'
    exact absurd (heq ▸ hapart e he hne) (Nat.not_le_of_lt hhi)
  · -- no leaf of the tree was written
    have hl : 0 < l := hneed.resolve_right fun hgen => hgen (h.entry hv).1
    rw [← (h.entry hv).2 hl, Trees.blockOf, h.store]
    exact henc.hash _

end NewTree

end

/-! ## The device that starts on a disk

The parts of the image are put into the device: the superblock, the virtual
block device and the free tree. What is behind the trees was not handed out. -/

/-- **The device that starts on a disk**: it adopts a superblock and finds the trees that
this one records. It raises when a slot cannot be decoded, or when there is no valid one. -/
def Device.startOn (P : Platform) (load : BlockData → P.Block) (disk : Disk) :
    Option (Device P) :=
  if ∀ i, (disk.slot i).isSome = true then
    (executeInitialize P fun i => (disk.slot i).getD superblockInvalid).map fun c => {
      ctl := c
      store := disk.store P load
      free := freeTreeOn disk (c.sb.freeMaxLevel - 1) c.sb.freeRoot
      freeWrites := []
      slots := fun i => (disk.slot i).getD superblockInvalid
      rkg := RekeyingJob.initial P
      securedSlot := none }
  else none

/-- The superblock of an initializer is one of a new image. -/
theorem SuperblockInit.initialSuperblock (obj : SuperblockInit) (total : ℕ) :
    InitialSuperblock (obj.superblock total) where
  state := rfl
  currSnap := rfl
  curr_valid := rfl
  curr_gen := rfl
  curr_keep := rfl
  other_invalid i hi := by
    have hne : i ≠ 0 := hi
    rw [superblock_snapshots, if_neg hne]
    rfl
  lastSecured := rfl
  currentKey := rfl
  previousKey := rfl

variable {p : InitPlan} {disk : Disk}

/-- **What a planned image consists of**: the slots with the superblock, and the trees behind
each other. -/
structure ImageParts (P : Platform) (sha : BlockData → Hash) (load : BlockData → P.Block)
    (p : InitPlan) (disk : Disk) (obj : SuperblockInit) (total : ℕ) (mid : Supply) (stop : ℕ) :
    Prop where
  /-- The superblock has the geometry of the first tree. -/
  vbdGeo : obj.vbdGeo = p.geo.vbd
  /-- It has that of the free tree. -/
  ftGeo : obj.ftGeo = p.geo.ft
  /-- The first tree is of the generation zero. -/
  vbdGen : obj.vbd.gen = 0
  /-- So is the free tree. -/
  ftGen : obj.ft.gen = 0
  /-- The free tree has the levels that it needs. -/
  ftLevel : freeTreeMinMaxLevel ≤ p.geo.ft.maxLvlIdx
  /-- The first slot has the superblock. -/
  slot : disk.slot 0 = some (obj.superblock total)
  /-- The other slots have none. -/
  others : ∀ i, i ≠ 0 → disk.slot i = some superblockInvalid
  /-- The first tree was laid out from the start of the plan. -/
  laid : Laid (disk.store P load).child Type1Node.pba p.geo.vbd.degree (NewEntry sha disk)
    p.geo.vbd.maxLvlIdx obj.vbd ⟨p.geo.vbd.nrOfLeafs, p.start⟩ mid
  /-- The leaves of the free tree come next. -/
  stocks : Stocks (stockPbas (freeTreeOn disk (p.geo.ft.maxLvlIdx - 1) obj.ft).entries)
    ⟨p.geo.ft.nrOfLeafs, mid.next⟩ ⟨0, stop⟩
  /-- The free tree is a hash tree. -/
  hashed : (freeTreeOn disk (p.geo.ft.maxLvlIdx - 1) obj.ft).Hashed P obj.ft
  /-- The addresses end before the invalid one. -/
  stop_lt : stop < pbaInvalid

/-- **An image that was planned** has its parts. -/
theorem Imaged.parts (h : Imaged sha p disk) (henc : P.Encodes sha load)
    (hstart : nrOfSuperblockSlots ≤ p.start) (hsmall : p.start < 2 ^ 32) (hadm : p.geo.Admitted)
    (hfits : p.geo.Fits) (hleafs : 0 < p.geo.ft.nrOfLeafs) :
    ∃ obj total mid stop, ImageParts P sha load p disk obj total mid stop := by
  obtain ⟨obj, hhas, hvbdGeo, hftGeo, hmtGeo, houtside, hslots⟩ := h
  obtain ⟨hvbd, hvbdLevels⟩ := hhas.vbd (by decide)
  obtain ⟨hft, hftLevels⟩ := hhas.ft (by decide)
  have hmt := hhas.mt (le_refl 3)
  have hlt : (p.tree sha 3).2.next < 2 ^ 64 :=
    InitPlan.tree_next_lt sha hsmall (le_refl 3) (fun _ => hvbdLevels) fun _ => hftLevels
  have hnext : (p.tree sha 3).2.next < 2 ^ 32 :=
    Imaged.next_lt ⟨obj, hhas, hvbdGeo, hftGeo, hmtGeo, houtside, hslots⟩ hlt
  -- the trees take one part of the addresses after the other
  have h01 : p.start ≤ (p.tree sha 1).2.next :=
    build_next_ge (k := vbdInitializer) (s := ⟨0, p.start, p.disk⟩)
  have h12 : (p.tree sha 1).2.next ≤ (p.tree sha 2).2.next :=
    build_next_ge (k := freeTreeInitializer) (s := (p.tree sha 1).2)
  have h23 : (p.tree sha 2).2.next ≤ (p.tree sha 3).2.next :=
    build_next_ge (k := freeTreeInitializer) (s := (p.tree sha 2).2)
  have hpos : 0 < p.start := lt_of_lt_of_le (by decide) hstart
  have hin₃ : (p.tree sha 2).2.Within disk (2 ^ 64) (p.tree sha 3).2 :=
    ⟨by omega, hlt.le, fun a ha _ => houtside a (by omega)⟩
  have hin₂ : (p.tree sha 1).2.Within disk (2 ^ 64) (p.tree sha 2).2 :=
    ⟨by omega, by omega, fun a ha ha' => (houtside a (by omega)).trans
      (build_disk (k := freeTreeInitializer) ha')⟩
  have hin₁ : Stock.Within disk (2 ^ 64) ⟨0, p.start, p.disk⟩ (p.tree sha 1).2 :=
    ⟨hpos, by omega, fun a ha ha' => ((houtside a (hstart.trans ha)).trans
      (build_disk (k := freeTreeInitializer) (lt_of_lt_of_le ha' h12))).trans
      (build_disk (k := freeTreeInitializer) ha')⟩
  obtain ⟨hvbdRange, hlaid⟩ := laid_of_build henc hadm.vbd hvbdLevels.1 hin₁
  have hftLevel : 1 ≤ p.geo.ft.maxLvlIdx := le_trans (by decide) hftLevels.1
  obtain ⟨hftRange, hstocks, hhashed⟩ :=
    stocked_of_build henc hadm.ft hfits.ft hftLevel hleafs hin₂
  obtain ⟨hmtRange, -, -⟩ := stocked_of_build henc hadm.ft hfits.ft hftLevel hleafs hin₃
  have hrange : (obj.superblock (p.tree sha 3).2.next).InRange :=
    superblock_inRange (by rw [hvbd]; exact hvbdRange) (by rw [hft]; exact hftRange)
      (by rw [hmt]; exact hmtRange) (by rw [hvbdGeo]; exact hadm.vbd)
      (by rw [hftGeo]; exact hadm.ft) (by rw [hmtGeo]; exact hadm.ft)
  refine ⟨obj, (p.tree sha 3).2.next, (p.tree sha 1).2.supply, (p.tree sha 2).2.next, ?_⟩
  exact {
    vbdGeo := hvbdGeo
    ftGeo := hftGeo
    vbdGen := by rw [hvbd]; exact build_gen
    ftGen := by rw [hft]; exact build_gen
    ftLevel := hftLevels.1
    slot := slot_of_encoded hrange (hslots 0 (by decide))
    others := fun i hi => by
      refine slot_of_encoded superblockInvalid_inRange ?_
      have hdata := hslots i.val i.isLt
      rwa [if_neg (show ¬ i.val = 0 from fun hzero => hi (Fin.ext hzero))] at hdata
    laid := by rw [hvbd]; exact hlaid
    stocks := by rw [hft]; exact hstocks
    hashed := by rw [hft]; exact hhashed
    stop_lt := lt_of_le_of_lt h23 (hnext.trans (by decide)) }

namespace ImageParts

variable {obj : SuperblockInit} {total stop : ℕ} {mid : Supply}
  (h : ImageParts P sha load p disk obj total mid stop)

include h

/-- The slots of the disk. -/
theorem slots : (∀ i, (disk.slot i).isSome = true)
    ∧ (disk.slot 0).getD superblockInvalid = obj.superblock total
    ∧ InitialSlots fun i => (disk.slot i).getD superblockInvalid := by
  refine ⟨fun i => ?_, by rw [h.slot]; rfl, ?_, fun i hi => ?_⟩
  · by_cases hi : i = 0
    · rw [hi, h.slot]
      rfl
    · rw [h.others i hi]
      rfl
  · show InitialSuperblock ((disk.slot 0).getD superblockInvalid)
    rw [h.slot]
    exact obj.initialSuperblock total
  · show ¬ ((disk.slot i).getD superblockInvalid).Valid
    rw [h.others i hi]
    exact fun hnot => hnot rfl

/-- The device that starts. -/
def device (P : Platform) (load : BlockData → P.Block) (p : InitPlan) (disk : Disk)
    (obj : SuperblockInit) (total : ℕ) : Device P where
  ctl := { sb := adoptedSuperblock P (obj.superblock total), sbIdx := 0, currGen := 1 }
  store := disk.store P load
  free := freeTreeOn disk (p.geo.ft.maxLvlIdx - 1) obj.ft
  freeWrites := []
  slots := fun i => (disk.slot i).getD superblockInvalid
  rkg := RekeyingJob.initial P
  securedSlot := none

/-- The startup on the image. -/
theorem executeInitialize_eq :
    executeInitialize P (fun i => (disk.slot i).getD superblockInvalid)
      = some (device P load p disk obj total).ctl := by
  obtain ⟨-, hfirst, hslots⟩ := h.slots
  have hlevel : freeTreeMinMaxLevel ≤ ((disk.slot 0).getD superblockInvalid).freeMaxLevel := by
    rw [hfirst]
    show freeTreeMinMaxLevel ≤ obj.ftGeo.maxLvlIdx
    rw [h.ftGeo]
    exact h.ftLevel
  have hvalid : ((disk.slot 0).getD superblockInvalid).Valid := by
    rw [hfirst]
    exact fun hnot => by cases hnot
  rw [hslots.executeInitialize_eq hvalid hlevel, hfirst]
  rfl

/-- The device that starts is that one. -/
theorem startOn_eq : Device.startOn P load disk = some (device P load p disk obj total) := by
  unfold Device.startOn
  rw [if_pos h.slots.1, h.executeInitialize_eq]
  have hroot : (adoptedSuperblock P (obj.superblock total)).freeRoot = obj.ft := by
    show (⟨obj.ft.pba, 0, obj.ft.hash⟩ : Type1Node) = obj.ft
    exact type1Node_eq h.ftGen
  have hlevel : (adoptedSuperblock P (obj.superblock total)).freeMaxLevel
      = p.geo.ft.maxLvlIdx := congrArg TreeGeometry.maxLvlIdx h.ftGeo
  unfold device
  rw [Option.map_some]
  dsimp only
  rw [hroot, hlevel]

/-- It is fresh. -/
theorem fresh : (device P load p disk obj total).Fresh where
  slots := h.slots.2.2
  ctl := h.executeInitialize_eq
  rkg := rfl
  secured := rfl

/-- The tree of the virtual block device. -/
theorem newTree (hadm : p.geo.vbd.Admitted) (hstart : nrOfSuperblockSlots ≤ p.start)
    (hradix : treeRadix p.geo.vbd.degree = p.geo.vbd.degree) :
    NewTree sha load disk ((device P load p disk obj total).sb.trees (disk.store P load))
      ⟨p.geo.vbd.nrOfLeafs, p.start⟩ mid where
  store := rfl
  admitted := by
    show DegreeAdmitted obj.vbdGeo.degree
    rw [h.vbdGeo]
    exact hadm.degree
  valid i := by
    show ((obj.superblock total).snapshots i).valid = true ↔ i = 0
    rw [superblock_snapshots]
    by_cases hi : i = 0
    · rw [if_pos hi]
      exact ⟨fun _ => hi, fun _ => rfl⟩
    · rw [if_neg hi]
      exact ⟨fun hnot => absurd hnot Bool.false_ne_true, fun hnot => absurd hnot hi⟩
  gen := rfl
  laid := by
    have hlaid := h.laid
    rw [← type1Node_eq h.vbdGen, ← h.vbdGeo] at hlaid
    rw [← h.vbdGeo] at hradix
    show Laid _ _ (treeRadix obj.vbdGeo.degree) _ obj.vbdGeo.maxLvlIdx
      (⟨obj.vbd.pba, 0, obj.vbd.hash⟩ : Type1Node) _ _
    rw [hradix, ← h.vbdGeo]
    exact hlaid
  left := by
    rw [← h.vbdGeo]
    rfl
  pos := lt_of_lt_of_le (by decide) hstart

/-- The tree has room for its leaves. -/
theorem fits (hfits : p.geo.vbd.Fits)
    (hradix : treeRadix p.geo.vbd.degree = p.geo.vbd.degree) :
    p.geo.vbd.nrOfLeafs ≤ treeRadix (device P load p disk obj total).sb.degree
      ^ (device P load p disk obj total).sb.curr.maxLevel := by
  show p.geo.vbd.nrOfLeafs ≤ treeRadix obj.vbdGeo.degree ^ obj.vbdGeo.maxLvlIdx
  rw [h.vbdGeo, hradix]
  exact hfits

/-- **Nothing was written yet**: what is stored is zeros. -/
theorem stored_eq (hadm : p.geo.vbd.Admitted) (hfits : p.geo.vbd.Fits)
    (hstart : nrOfSuperblockSlots ≤ p.start)
    (hradix : treeRadix p.geo.vbd.degree = p.geo.vbd.degree) (v : ℕ) :
    (device P load p disk obj total).stored 0 v
      = if v < p.geo.vbd.nrOfLeafs then some P.zero else none := by
  have hnew := h.newTree hadm hstart hradix
  have hleafs : ((device P load p disk obj total).sb.snapshots 0).nrOfLeafs
      = p.geo.vbd.nrOfLeafs := congrArg TreeGeometry.nrOfLeafs h.vbdGeo
  unfold Device.stored Trees.stored
  show (if v < ((device P load p disk obj total).sb.snapshots 0).nrOfLeafs then _ else _) = _
  rw [hleafs]
  by_cases hv : v < p.geo.vbd.nrOfLeafs
  · have hp := (hnew.present_iff (v := v) (h.fits hfits hradix)).mpr (by
      show v < ((device P load p disk obj total).sb.snapshots 0).nrOfLeafs
      rw [hleafs]
      exact hv)
    rw [if_pos hv, if_pos hv]
    exact congrArg some (if_pos (hnew.entry hp).1)
  · rw [if_neg hv, if_neg hv]

/-- What the stock holds lies behind the tree. -/
theorem stock_ge : ∀ e ∈ (freeTreeOn disk (p.geo.ft.maxLvlIdx - 1) obj.ft).entries, e.pba ≠ 0 →
    mid.next ≤ e.pba := fun e he hne =>
  (h.stocks.mem e.pba (List.mem_map_of_mem
    (List.mem_filter.mpr ⟨he, decide_eq_true hne⟩))).1

/-- **The device that starts on the image is intact.** -/
theorem intact (henc : P.Encodes sha load) (hadm : p.geo.vbd.Admitted) (hfits : p.geo.vbd.Fits)
    (hstart : nrOfSuperblockSlots ≤ p.start)
    (hradix : treeRadix p.geo.vbd.degree = p.geo.vbd.degree) (hlevel : 2 ≤ p.geo.vbd.maxLvlIdx)
    (hleafs : 0 < p.geo.vbd.nrOfLeafs) : (device P load p disk obj total).Intact := by
  have hnew := h.newTree hadm hstart hradix
  have hvalid : ∀ i, ((obj.superblock total).snapshots i).valid = true → i = 0 := fun i hi =>
    (hnew.valid i).mp hi
  have hmid : mid.next < pbaInvalid := h.stocks.next.trans_lt h.stop_lt
  exact {
    sound := by
      refine hnew.sound henc (h.fits hfits hradix) hleafs ?_ h.stock_ge _ _
      exact h.stocks.sorted.imp fun hab => ne_of_gt hab
    addressed := fun i v l htr hp => by
      obtain rfl := hvalid i htr.1
      exact ((hnew.pba_mem hp).2.trans hmid).ne
    order := {
      lastSecured_lt := show 0 < 1 by decide
      curr_gen := Or.inl rfl
      maxLevel := by
        show 2 ≤ obj.vbdGeo.maxLvlIdx
        rw [h.vbdGeo]
        exact hlevel
      size := fun i hi => by
        obtain rfl := hvalid i hi
        exact ⟨rfl, rfl⟩
      unkept := fun i hi _ => by
        obtain rfl := hvalid i hi
        rfl
      keys_le := show 0 ≤ 1 by decide
      keys_ne := fun hst => by cases hst
      front := fun hst => by cases hst
      secured := fun hst => by cases hst } }

end ImageParts

/-! ## After an initialization

The runs of the init library end with an image that was planned, and the device
starts on it. -/

/-- **What an initialization leaves is what the device begins with**: when the init library
reports a request as successful, the device that starts on the disk is fresh and intact, it
has as many blocks as the request says, all reading as zeros, and the stock of its free tree
holds as many blocks as the request says, under a hash tree. -/
theorem Device.started_of_init (henc : P.Encodes sha load) {ioBuf : BlockData} {disk₀ : Disk}
    {w : InitWorld} {req : InitRequest}
    (hrun : Runs.Run (InitWorld.step sha) (fun _ _ => True) (InitWorld.initial ioBuf disk₀) w)
    (hsuccess : w.lib.peekCompletedClientRequest = some true) (hreq : w.serving = some req)
    (hadm : req.geo.Admitted) (hfits : req.geo.Fits)
    (hradix : treeRadix req.geo.vbd.degree = req.geo.vbd.degree)
    (hlevel : 2 ≤ req.geo.vbd.maxLvlIdx) (hvbd : 0 < req.geo.vbd.nrOfLeafs)
    (hft : 0 < req.geo.ft.nrOfLeafs) :
    ∃ d : Device P, Device.startOn P load w.disk = some d ∧ d.Fresh ∧ d.Intact
      ∧ d.free.Hashed P d.sb.freeRoot
      ∧ (stockPbas d.free.entries).length = req.geo.ft.nrOfLeafs
      ∧ ∀ v, readVba d.store d.sb 0 v
        = if v < req.geo.vbd.nrOfLeafs then some P.zero else none := by
  have hcomplete := (Option.ite_none_right_eq_some.mp hsuccess).1
  obtain ⟨p, req', hreq', hfor, hsmall, himaged⟩ := imaged_of_run hrun hcomplete
  obtain rfl := Option.some.inj (hreq'.symm.trans hreq)
  rw [← hfor.geo] at hadm hfits hradix hlevel hvbd hft ⊢
  have hstart : nrOfSuperblockSlots ≤ p.start := by
    rw [hfor.start]
    exact Nat.le_add_right _ _
  obtain ⟨obj, total, mid, stop, hparts⟩ := himaged.parts henc hstart hsmall hadm hfits hft
  have hintact := hparts.intact henc hadm.vbd hfits.vbd hstart hradix hlevel hvbd
  refine ⟨ImageParts.device P load p w.disk obj total, hparts.startOn_eq, hparts.fresh, hintact,
    ?_, ?_, fun v => ?_⟩
  · show (freeTreeOn w.disk _ obj.ft).Hashed P (⟨obj.ft.pba, 0, obj.ft.hash⟩ : Type1Node)
    rw [type1Node_eq hparts.ftGen]
    exact hparts.hashed
  · exact hparts.stocks.length
  · rw [hintact.read_current]
    exact hparts.stored_eq hadm.vbd hfits.vbd hstart hradix v

/-- A client's request for trees of two levels with one leaf each. -/
def twoLevelGeometry : Geometry := ⟨⟨2, 1, 1⟩, ⟨2, 1, 1⟩⟩

/-- The request, and the calls until it is completed. -/
def twoLevelActions : List InitWorld.Action :=
  .submit twoLevelGeometry ::
    [8, 5, 10, 5, 10, 5, 5, 2, 4, 2, 4, 2, 4, 2, 4, 2, 4, 2, 4, 2, 4, 2].flatMap servedAfter
    ++ List.replicate 2 .execute

set_option maxRecDepth 100000 in
/-- The request is reported as successful. -/
theorem twoLevelActions_succeed :
    (twoLevelActions.foldlM (InitWorld.step fun _ => 0)
        (InitWorld.initial (fun _ => 0) fun _ _ => 0)).map
      (fun w => (w.lib.peekCompletedClientRequest, w.serving))
      = some (some true, some ⟨twoLevelGeometry, 0⟩) := by
  decide +kernel

/-- The device that starts after the sample request. -/
theorem Device.started_of_init_twoLevel :
    ∃ w, ∃ d : Device (Platform.ofBytes fun _ => 0),
      Device.startOn (Platform.ofBytes fun _ => 0) Sum.inl (InitWorld.disk w) = some d
        ∧ d.Fresh ∧ d.Intact ∧ d.free.Hashed (Platform.ofBytes fun _ => 0) d.sb.freeRoot
        ∧ (stockPbas d.free.entries).length = 1
        ∧ ∀ v, readVba d.store d.sb 0 v
          = if v < 1 then some (Platform.ofBytes fun _ => 0).zero else none := by
  obtain ⟨w, hw, hpair⟩ := Option.map_eq_some_iff.mp twoLevelActions_succeed
  exact ⟨w, Device.started_of_init (Platform.ofBytes_encodes fun _ => 0)
    (Runs.Run.of_foldlM _ hw) (congrArg Prod.fst hpair) (congrArg Prod.snd hpair)
    ⟨⟨by decide, by decide, by decide⟩, ⟨by decide, by decide, by decide⟩⟩
    ⟨show 1 ≤ 1 ^ 2 by decide, show 1 ≤ 1 ^ 2 by decide⟩ (by decide) (by decide) (by decide)
    (by decide)⟩

end Cbe
