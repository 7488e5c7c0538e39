import Cbe.BuiltTrees
import Cbe.InitRuns

/-!
# The image that the init library writes

When the init library reports a request as successful, the block device holds
the image that was asked for (`initialImage_of_run`): a valid superblock in the
first slot and invalid ones in the others, and under its roots three sound trees
with the number of leaves that was asked for. The addresses in use are pairwise
different and follow the slots without a gap, after those that earlier requests
took.

The range of blocks that the superblock records is not the range of these
addresses: it begins with the slots (`recorded_range_includes_slots`). The
library looks at the levels of a tree, but not at whether it can hold its leaves
(`TreeGeometry.Fits`).

What the library computes is followed in another module, over all interleavings
with the block device. Here the result is read as an image: the trees were built
one after the other from one stock of addresses, each is read back as it was
built (`Cbe.BuiltTrees`), and later ones do not touch the addresses of earlier
ones.

The image passes the check of the check library, too. Its superblock is the only
valid one and has the generation zero, for which the check takes the slot whose
number is in its memory; the image is one for which it does not matter which one
this is.
-/

namespace Cbe

open LevelScan BottomUp ByteWalk

/-! ## Geometries

What is asked of a request: values of the types, and room for the leaves. -/

/-- The values of the types of a geometry. -/
structure TreeGeometry.Admitted (geo : TreeGeometry) : Prop where
  /-- The level of the root. -/
  level : geo.maxLvlIdx ≤ treeMaxMaxLevel
  /-- The degree of the nodes. -/
  degree : DegreeInRange geo.degree
  /-- The number of leaves. -/
  leafs : geo.nrOfLeafs ≤ treeMaxNumberOfLeafs

/-- **The tree can hold its leaves.** -/
def TreeGeometry.Fits (geo : TreeGeometry) : Prop := geo.nrOfLeafs ≤ geo.degree ^ geo.maxLvlIdx

/-- The values of the types of a request. -/
structure Geometry.Admitted (geo : Geometry) : Prop where
  /-- Those of the first tree. -/
  vbd : geo.vbd.Admitted
  /-- Those of the free tree. -/
  ft : geo.ft.Admitted

/-- The trees can hold their leaves. -/
structure Geometry.Fits (geo : Geometry) : Prop where
  /-- The first tree has room for its leaves. -/
  vbd : geo.vbd.Fits
  /-- The free tree has room for its leaves. -/
  ft : geo.ft.Fits

/-- A tree of a geometry under a root. -/
def TreeGeometry.ref (geo : TreeGeometry) (root : Type1Node) : TreeRef where
  root := root
  maxLvlIdx := geo.maxLvlIdx
  maxChildIdx := geo.degree - 1
  nrOfLeafs := geo.nrOfLeafs

/-- As many children as the degree says. -/
theorem length_childIdxs {n m : ℕ} (hm : m < n) : (childIdxs n m).length = m + 1 := by
  induction n with
  | zero => exact absurd hm (Nat.not_lt_zero m)
  | succ n ih =>
    rcases Nat.lt_succ_iff_lt_or_eq.mp hm with hlt | rfl
    · have hlast : [Fin.last n].filter (fun i => decide (i.val ≤ m)) = [] := by
        rw [List.filter_singleton,
          decide_eq_false (show ¬ (Fin.last n).val ≤ m from Nat.not_le.mpr hlt)]
        rfl
      rw [childIdxs, List.finRange_succ_last, List.filter_append, List.filter_map, hlast,
        List.append_nil, List.length_map]
      exact ih hlt
    · have hall : childIdxs (m + 1) m = List.finRange (m + 1) :=
        List.filter_eq_self.mpr fun i _ => decide_eq_true (Nat.le_of_lt_succ i.isLt)
      rw [hall, List.length_finRange]

/-- What a tree can hold, as a power of its degree. -/
theorem TreeGeometry.Admitted.leafCapacity_eq {geo : TreeGeometry} (h : geo.Admitted)
    (hlevel : 1 ≤ geo.maxLvlIdx) :
    leafCapacity (geo.degree - 1) (geo.maxLvlIdx - 1) = geo.degree ^ geo.maxLvlIdx := by
  have hdegree := h.degree
  have hlt : geo.degree - 1 < nodesPerBlock :=
    lt_of_lt_of_le (Nat.sub_lt hdegree.1 Nat.one_pos) hdegree.2
  rw [leafCapacity, length_childIdxs hlt, Nat.sub_add_cancel hdegree.1, Nat.sub_add_cancel hlevel]

/-! ## The superblock

What the block of the superblock is decoded as. -/

/-- A slot that was written is decoded. -/
theorem slot_of_encoded {sb : Superblock} (hrange : sb.InRange) {disk : Disk} {i : SuperblocksIndex}
    (h : (blockDataFromSuperblockCiphertext sb).map Buffer.data = some (disk i)) :
    disk.slot i = some sb := by
  obtain ⟨buf, hbuf, hdata⟩ := Option.map_eq_some_iff.mp h
  obtain ⟨buf', hround⟩ : ∃ buf', RoundTrips blockDataFromSuperblockCiphertext
      superblockFromBlockData sb buf' :=
    RoundTrips.of_lt (fun off _ hid => writes_key off hid) hrange (nrOfPbas_lt_of_encoded hbuf)
  obtain rfl := Option.some.inj (hbuf.symm.trans hround.encoded)
  rw [Disk.slot, ← hdata]
  exact hround.decoded

/-- The superblock of roots and geometries of the types. -/
theorem superblock_inRange {obj : SuperblockInit} {total : ℕ} (hvbd : obj.vbd.InRange)
    (hft : obj.ft.InRange) (hmt : obj.mt.InRange) (hvbdGeo : obj.vbdGeo.Admitted)
    (hftGeo : obj.ftGeo.Admitted) (hmtGeo : obj.mtGeo.Admitted) :
    (obj.superblock total).InRange where
  rekeyingVba := Nat.zero_le _
  resizingNrOfPbas := show 0 < 2 ^ 64 by decide
  resizingNrOfLeaves := Nat.zero_le _
  previousKey := show 0 < 2 ^ 32 by decide
  currentKey := show 1 < 2 ^ 32 by decide
  snapshots i := by
    show (if i = 0 then obj.validSnapSlot else snapshotInvalid).InRange
    split_ifs
    · exact ⟨hvbd.pba, show 0 < 2 ^ 64 by decide, hvbdGeo.leafs, hvbdGeo.level,
        show 0 < 2 ^ 32 by decide⟩
    · exact snapshotInvalid_inRange
  lastSecuredGeneration := show 0 < 2 ^ 64 by decide
  degree := hvbdGeo.degree
  firstPba := show 0 < 2 ^ 64 by decide
  nrOfPbas := Nat.mod_lt _ (by decide)
  freeGen := show 0 < 2 ^ 64 by decide
  freeNumber := hft.pba
  freeMaxLevel := hftGeo.level
  freeDegree := hftGeo.degree
  freeLeafs := hftGeo.leafs
  metaGen := show 0 < 2 ^ 64 by decide
  metaNumber := hmt.pba
  metaMaxLevel := hmtGeo.level
  metaDegree := hmtGeo.degree
  metaLeafs := hmtGeo.leafs

/-! ## The trees

A tree that is built leaves the blocks below the first address of its stock
alone. -/

section

variable {Leaf : Type} {k : TreeInitKind Leaf} {pbaOf : Leaf → ℕ} {inRange : Leaf → Prop}
  {sha : BlockData → Hash} {geo : TreeGeometry} {s : Stock BlockData}

/-- The root of a tree has the generation zero. -/
theorem build_gen : (geo.build k sha s).1.gen = 0 := by
  unfold TreeGeometry.build Maker.make Maker.makeNode
  split_ifs <;> rfl

/-- A tree is built behind what was there. -/
theorem build_next_ge : s.next ≤ (geo.build k sha s).2.next :=
  (Maker.grows_make (k.maker sha) (geo.degree - 1) (geo.maxLvlIdx - 1)
    ⟨geo.nrOfLeafs, s.next, s.disk⟩).next

/-- What was there before is there. -/
theorem build_disk {a : ℕ} (ha : a < s.next) : (geo.build k sha s).2.disk a = s.disk a :=
  (Maker.grows_make (k.maker sha) (geo.degree - 1) (geo.maxLvlIdx - 1)
    ⟨geo.nrOfLeafs, s.next, s.disk⟩).disk a (Or.inl ha)

/-- **A tree of a request** is sound, and the check refuses nothing in it. -/
theorem soundTree_of_build (hk : k.ReadsBack pbaOf inRange) (hmin : 1 ≤ k.kind.minMaxLevel)
    (hadm : geo.Admitted) (hfits : geo.Fits) (hlevels : geo.LevelsOk k) (hpos : 0 < s.next)
    (hle : (geo.build k sha s).2.next ≤ 2 ^ 64) {disk : Disk} (dataOk : Leaf → Prop)
    (hdata : ∀ a, dataOk (k.leafAt a))
    (hagrees : ∀ a, s.next ≤ a → a < (geo.build k sha s).2.next →
      disk a = (geo.build k sha s).2.disk a) :
    (geo.build k sha s).1.InRange
      ∧ SoundTree k.kind sha disk dataOk (geo.ref (geo.build k sha s).1)
      ∧ usedPbas k.kind pbaOf disk (geo.degree - 1) (geo.maxLvlIdx - 1) (geo.build k sha s).1
        = some (List.range' s.next ((geo.build k sha s).2.next - s.next))
      ∧ ¬ RefusedFeature k.kind sha disk (geo.ref (geo.build k sha s).1) := by
  have hcap := hadm.leafCapacity_eq (le_trans hmin hlevels.1)
  obtain ⟨hrange, hsound, hused, hnew⟩ := soundTree_of_make hk (geo.ref (geo.build k sha s).1)
    (s := ⟨geo.nrOfLeafs, s.next, s.disk⟩) rfl rfl hpos hle hlevels.1
    (show geo.nrOfLeafs ≤ leafCapacity (geo.degree - 1) (geo.maxLvlIdx - 1) by
      rw [hcap]
      exact hfits)
    hdata hagrees
  exact ⟨hrange, hsound, hused, not_refusedFeature_of_new hlevels.2 hnew⟩

end

/-! ## The image

The three trees and the slots put together. -/

/-- The addresses of the inner nodes and the leaves of a tree. -/
def TreeRef.usedPbas {Leaf : Type} (ref : TreeRef) (kind : NodeKind Leaf) (pbaOf : Leaf → ℕ)
    (disk : Disk) : Option (List ℕ) :=
  Cbe.usedPbas kind pbaOf disk ref.maxChildIdx (ref.maxLvlIdx - 1) ref.root

/-- **The image of a geometry**: the superblock in the first slot is the only valid one, its
trees have this geometry and are sound, and the addresses of their nodes and leaves are
pairwise different, outside the slots, and those from `first` to the end of the range that
the superblock records. -/
structure InitialImage (sha : BlockData → Hash) (disk : Disk) (geo : Geometry) (first : ℕ)
    (sb : Superblock) : Prop where
  /-- The superblock is in the first slot. -/
  slot : disk.slot 0 = some sb
  /-- It is valid. -/
  valid : sb.Valid
  /-- No other slot has a valid one. -/
  others : ∀ i, i ≠ 0 → ∃ sb', disk.slot i = some sb' ∧ ¬ sb'.Valid
  /-- The first snapshot is the only one. -/
  snapshot : ∀ i, (sb.snapshots i).valid = true ↔ i = 0
  /-- Its tree has the geometry that was asked for. -/
  vbd : ∃ root, sb.snapRef 0 = geo.vbd.ref root
  /-- So has the free tree. -/
  freeTree : ∃ root, sb.freeRef = geo.ft.ref root
  /-- So has the meta tree. -/
  metaTree : ∃ root, sb.metaRef = geo.ft.ref root
  /-- The trees are sound. -/
  sound : SoundTrees sha disk sb
  /-- Each address behind the slots is used once, and no other one. -/
  used : ∃ vbd ft mt, (sb.snapRef 0).usedPbas NodeKind.type1 Type1Node.pba disk = some vbd
    ∧ sb.freeRef.usedPbas NodeKind.type2 Type2Node.pba disk = some ft
    ∧ sb.metaRef.usedPbas NodeKind.type2 Type2Node.pba disk = some mt
    ∧ (vbd ++ ft ++ mt).Nodup ∧ (∀ pba ∈ vbd ++ ft ++ mt, nrOfSuperblockSlots ≤ pba)
    ∧ ∀ pba, pba ∈ vbd ++ ft ++ mt ↔ first ≤ pba ∧ pba < sb.firstPba + sb.nrOfPbas

variable {sha : BlockData → Hash} {p : InitPlan} {disk : Disk}

/-- An entry of generation zero. -/
theorem type1Node_eq {node : Type1Node} (h : node.gen = 0) : ⟨node.pba, 0, node.hash⟩ = node := by
  rw [← h]

/-- The snapshot and the trees of the superblock. -/
theorem superblock_snapshots (obj : SuperblockInit) (total : ℕ) (i : SnapshotsIndex) :
    (obj.superblock total).snapshots i = if i = 0 then obj.validSnapSlot else snapshotInvalid := rfl

/-- The tree of the only snapshot. -/
theorem superblock_snapRef (obj : SuperblockInit) (total : ℕ) (hgen : obj.vbd.gen = 0) :
    (obj.superblock total).snapRef 0 = obj.vbdGeo.ref obj.vbd := by
  show TreeRef.mk ⟨obj.vbd.pba, 0, obj.vbd.hash⟩ _ _ _ = _
  rw [type1Node_eq hgen]
  rfl

/-- The free tree. -/
theorem superblock_freeRef (obj : SuperblockInit) (total : ℕ) (hgen : obj.ft.gen = 0) :
    (obj.superblock total).freeRef = obj.ftGeo.ref obj.ft := by
  show TreeRef.mk ⟨obj.ft.pba, 0, obj.ft.hash⟩ _ _ _ = _
  rw [type1Node_eq hgen]
  rfl

/-- The meta tree. -/
theorem superblock_metaRef (obj : SuperblockInit) (total : ℕ) (hgen : obj.mt.gen = 0) :
    (obj.superblock total).metaRef = obj.mtGeo.ref obj.mt := by
  show TreeRef.mk ⟨obj.mt.pba, 0, obj.mt.hash⟩ _ _ _ = _
  rw [type1Node_eq hgen]
  rfl

/-- **An image that was planned** is the one of the geometry. -/
theorem Imaged.initialImage (h : Imaged sha p disk) (hstart : nrOfSuperblockSlots ≤ p.start)
    (hsmall : p.start < 2 ^ 32) (hadm : p.geo.Admitted) (hfits : p.geo.Fits) :
    ∃ sb, InitialImage sha disk p.geo p.start sb ∧ sb.firstPba = 0
      ∧ sb.nrOfPbas = (p.tree sha 3).2.next ∧ sb.curr.gen = 0
      ∧ NothingRefused sha disk sb := by
  obtain ⟨obj, hhas, hvbdGeo, hftGeo, hmtGeo, houtside, hslots⟩ := h
  obtain ⟨hvbd, hvbdLevels⟩ := hhas.vbd (by decide)
  obtain ⟨hft, hftLevels⟩ := hhas.ft (by decide)
  have hmt := hhas.mt (le_refl 3)
  have hlt : (p.tree sha 3).2.next < 2 ^ 64 :=
    InitPlan.tree_next_lt sha hsmall (le_refl 3) (fun _ => hvbdLevels) fun _ => hftLevels
  -- the trees take one part of the addresses after the other
  have h01 : p.start ≤ (p.tree sha 1).2.next :=
    build_next_ge (k := vbdInitializer) (s := ⟨0, p.start, p.disk⟩)
  have h12 : (p.tree sha 1).2.next ≤ (p.tree sha 2).2.next :=
    build_next_ge (k := freeTreeInitializer) (s := (p.tree sha 1).2)
  have h23 : (p.tree sha 2).2.next ≤ (p.tree sha 3).2.next :=
    build_next_ge (k := freeTreeInitializer) (s := (p.tree sha 2).2)
  have hpos : 0 < p.start := lt_of_lt_of_le (by decide) hstart
  have hdisk₃ : ∀ a, (p.tree sha 2).2.next ≤ a → a < (p.tree sha 3).2.next →
      disk a = (p.tree sha 3).2.disk a := fun a ha _ => houtside a (by omega)
  have hdisk₂ : ∀ a, (p.tree sha 1).2.next ≤ a → a < (p.tree sha 2).2.next →
      disk a = (p.tree sha 2).2.disk a := fun a ha ha' =>
    (houtside a (by omega)).trans (build_disk (k := freeTreeInitializer) ha')
  have hdisk₁ : ∀ a, p.start ≤ a → a < (p.tree sha 1).2.next →
      disk a = (p.tree sha 1).2.disk a := fun a ha ha' =>
    ((houtside a (by omega)).trans
      (build_disk (k := freeTreeInitializer) (lt_of_lt_of_le ha' h12))).trans
      (build_disk (k := freeTreeInitializer) ha')
  obtain ⟨hvbdRange, hvbdSound, hvbdUsed, hvbdTaken⟩ := soundTree_of_build
    vbdInitializer_readsBack (by decide) hadm.vbd hfits.vbd hvbdLevels
    (s := ⟨0, p.start, p.disk⟩) hpos
    (show (p.tree sha 1).2.next ≤ 2 ^ 64 by omega) (VbdDataOk sha disk)
    (fun a hgen => absurd rfl hgen) hdisk₁
  obtain ⟨hftRange, hftSound, hftUsed, hftTaken⟩ := soundTree_of_build
    freeTreeInitializer_readsBack (by decide) hadm.ft hfits.ft hftLevels
    (s := (p.tree sha 1).2) (by omega)
    (show (p.tree sha 2).2.next ≤ 2 ^ 64 by omega) (fun _ => True)
    (fun _ => trivial) hdisk₂
  obtain ⟨hmtRange, hmtSound, hmtUsed, hmtTaken⟩ := soundTree_of_build
    freeTreeInitializer_readsBack (by decide) hadm.ft hfits.ft hftLevels
    (s := (p.tree sha 2).2) (by omega)
    (show (p.tree sha 3).2.next ≤ 2 ^ 64 by omega) (fun _ => True)
    (fun _ => trivial) hdisk₃
  have hsnapRef := superblock_snapRef obj (p.tree sha 3).2.next
    (by rw [hvbd]; exact build_gen)
  have hfreeRef := superblock_freeRef obj (p.tree sha 3).2.next
    (by rw [hft]; exact build_gen)
  have hmetaRef := superblock_metaRef obj (p.tree sha 3).2.next
    (by rw [hmt]; exact build_gen)
  rw [hvbdGeo, hvbd] at hsnapRef
  rw [hftGeo, hft] at hfreeRef
  rw [hmtGeo, hmt] at hmetaRef
  have hrange : (obj.superblock (p.tree sha 3).2.next).InRange :=
    superblock_inRange (by rw [hvbd]; exact hvbdRange) (by rw [hft]; exact hftRange)
      (by rw [hmt]; exact hmtRange) (by rw [hvbdGeo]; exact hadm.vbd)
      (by rw [hftGeo]; exact hadm.ft) (by rw [hmtGeo]; exact hadm.ft)
  have hsnapshot : ∀ i, ((obj.superblock (p.tree sha 3).2.next).snapshots i).valid = true ↔ i = 0 :=
    fun i => by
      rw [superblock_snapshots]
      by_cases hi : i = 0
      · rw [if_pos hi]
        exact ⟨fun _ => hi, fun _ => rfl⟩
      · rw [if_neg hi]
        exact ⟨fun hnot => absurd hnot Bool.false_ne_true, fun hnot => absurd hnot hi⟩
  refine ⟨obj.superblock (p.tree sha 3).2.next, ?_, rfl, Nat.mod_eq_of_lt hlt, rfl, ?taken⟩
  case taken => exact {
    snaps := fun i hi => by
      obtain rfl := (hsnapshot i).mp hi
      rw [hsnapRef]
      exact hvbdTaken
    freeTree := by rw [hfreeRef]; exact hftTaken
    metaTree := by rw [hmetaRef]; exact hmtTaken }
  exact {
    slot := slot_of_encoded hrange (hslots 0 (by decide))
    valid := fun hnot => by cases hnot
    others := fun i hi => by
      refine ⟨superblockInvalid, slot_of_encoded superblockInvalid_inRange ?_, fun hnot => hnot rfl⟩
      have hdata := hslots i.val i.isLt
      rwa [if_neg (show ¬ i.val = 0 from fun hzero => hi (Fin.ext hzero))] at hdata
    snapshot := hsnapshot
    vbd := ⟨_, hsnapRef⟩
    freeTree := ⟨_, hfreeRef⟩
    metaTree := ⟨_, hmetaRef⟩
    sound := {
      snaps := fun i hi => by
        obtain rfl := (hsnapshot i).mp hi
        rw [hsnapRef]
        exact hvbdSound
      freeTree := by rw [hfreeRef]; exact hftSound
      metaTree := by rw [hmetaRef]; exact hmtSound }
    used := by
      rw [hsnapRef, hfreeRef, hmetaRef]
      refine ⟨_, _, _, hvbdUsed, hftUsed, hmtUsed, ?_⟩
      have hall : List.range' p.start ((p.tree sha 1).2.next - p.start)
          ++ List.range' (p.tree sha 1).2.next ((p.tree sha 2).2.next - (p.tree sha 1).2.next)
          ++ List.range' (p.tree sha 2).2.next ((p.tree sha 3).2.next - (p.tree sha 2).2.next)
          = List.range' p.start ((p.tree sha 3).2.next - p.start) := by
        rw [range'_split h01 h12, range'_split (le_trans h01 h12) h23]
      have hmem : ∀ pba, pba ∈ List.range' p.start ((p.tree sha 3).2.next - p.start)
          ↔ p.start ≤ pba ∧ pba < (p.tree sha 3).2.next := fun pba => by
        rw [List.mem_range'_1]
        omega
      rw [show p.geo.vbd.build vbdInitializer sha ⟨0, p.start, p.disk⟩ = p.tree sha 1 from rfl,
        show p.geo.ft.build freeTreeInitializer sha (p.tree sha 1).2 = p.tree sha 2 from rfl,
        show p.geo.ft.build freeTreeInitializer sha (p.tree sha 2).2 = p.tree sha 3 from rfl, hall]
      refine ⟨List.nodup_range', fun pba hpba => le_trans hstart ((hmem pba).mp hpba).1,
        fun pba => ?_⟩
      show _ ↔ p.start ≤ pba ∧ pba < 0 + (p.tree sha 3).2.next % 2 ^ 64
      rw [Nat.mod_eq_of_lt hlt, Nat.zero_add]
      exact hmem pba }

/-! ## The runs of the library

The requests that came before have taken some addresses, and the image starts
after them. -/

/-- The image of a request, when it is reported as successful. -/
theorem initialImage_of_success {ioBuf : BlockData} {w : InitWorld} {req : InitRequest}
    (hrun : Runs.Run (InitWorld.step sha) (fun _ _ => True) (InitWorld.initial ioBuf disk) w)
    (hsuccess : w.lib.peekCompletedClientRequest = some true) (hreq : w.serving = some req)
    (hadm : req.geo.Admitted) (hfits : req.geo.Fits) :
    ∃ sb, InitialImage sha w.disk req.geo (nrOfSuperblockSlots + req.allocated) sb
      ∧ sb.firstPba = 0 ∧ nrOfSuperblockSlots ≤ sb.nrOfPbas ∧ sb.curr.gen = 0
      ∧ NothingRefused sha w.disk sb := by
  have hcomplete := (Option.ite_none_right_eq_some.mp hsuccess).1
  obtain ⟨p, req', hreq', hfor, hsmall, himaged⟩ := imaged_of_run hrun hcomplete
  obtain rfl := Option.some.inj (hreq'.symm.trans hreq)
  have hstart : nrOfSuperblockSlots ≤ p.start := by
    rw [hfor.start]
    exact Nat.le_add_right _ _
  obtain ⟨sb, himage, hfirst, hnr, hgen, htaken⟩ := himaged.initialImage hstart hsmall
    (by rw [hfor.geo]; exact hadm) (by rw [hfor.geo]; exact hfits)
  rw [hfor.geo, hfor.start] at himage
  have hnext : p.start ≤ (p.tree sha 3).2.next :=
    le_trans (build_next_ge (k := vbdInitializer) (s := ⟨0, p.start, p.disk⟩))
      (le_trans (build_next_ge (k := freeTreeInitializer) (s := (p.tree sha 1).2))
        (build_next_ge (k := freeTreeInitializer) (s := (p.tree sha 2).2)))
  exact ⟨sb, himage, hfirst, by rw [hnr]; exact le_trans hstart hnext, hgen, htaken⟩

/-- **The initial image**: when the library reports a request as successful, the image of
its geometry is on the block device. Its addresses are those behind the slots and behind
the blocks of earlier requests. -/
theorem initialImage_of_run {ioBuf : BlockData} {w : InitWorld} {req : InitRequest}
    (hrun : Runs.Run (InitWorld.step sha) (fun _ _ => True) (InitWorld.initial ioBuf disk) w)
    (hsuccess : w.lib.peekCompletedClientRequest = some true) (hreq : w.serving = some req)
    (hadm : req.geo.Admitted) (hfits : req.geo.Fits) :
    ∃ sb, InitialImage sha w.disk req.geo
      (sb.firstPba + nrOfSuperblockSlots + req.allocated) sb := by
  obtain ⟨sb, himage, hfirst, -⟩ := initialImage_of_success hrun hsuccess hreq hadm hfits
  refine ⟨sb, ?_⟩
  rw [hfirst, Nat.zero_add]
  exact himage

/-- **The range that the superblock records includes the slots**, and the addresses in use
are not the whole of it. -/
theorem recorded_range_includes_slots {ioBuf : BlockData} {w : InitWorld} {req : InitRequest}
    (hrun : Runs.Run (InitWorld.step sha) (fun _ _ => True) (InitWorld.initial ioBuf disk) w)
    (hsuccess : w.lib.peekCompletedClientRequest = some true) (hreq : w.serving = some req)
    (hadm : req.geo.Admitted) (hfits : req.geo.Fits) {geo : Geometry} {sb : Superblock} :
    ¬ InitialImage sha w.disk geo sb.firstPba sb := by
  intro himage
  obtain ⟨sb', himage', hfirst, hnr, -⟩ := initialImage_of_success hrun hsuccess hreq hadm hfits
  obtain rfl := Option.some.inj (himage'.slot.symm.trans himage.slot)
  obtain ⟨vbd, ft, mt, -, -, -, -, houtside, hused⟩ := himage.used
  have hzero : sb'.firstPba ∈ vbd ++ ft ++ mt := (hused sb'.firstPba).mpr
    ⟨le_refl _, Nat.lt_add_of_pos_right (lt_of_lt_of_le (by decide) hnr)⟩
  have hslots := houtside _ hzero
  rw [hfirst] at hslots
  exact absurd hslots (by decide)

/-! ## The image passes the check

Sound trees pass, if nothing is in them that the check refuses. -/

/-- The image of a geometry has one superblock to check, and that one is sound. -/
theorem InitialImage.newest {geo : Geometry} {first : ℕ} {sb : Superblock}
    (h : InitialImage sha disk geo first sb) : Newest disk 0 sb where
  slot := h.slot
  valid := h.valid
  le j sb' hsb' hvalid := by
    obtain rfl : j = 0 := by
      by_contra hj
      obtain ⟨sb₁, hsb₁, hnot⟩ := h.others j hj
      obtain rfl := Option.some.inj (hsb₁.symm.trans hsb')
      exact hnot hvalid
    obtain rfl := Option.some.inj (h.slot.symm.trans hsb')
    exact le_refl _
  first j hj := absurd hj (Fin.not_lt_zero j)

/-- The superblock in the first slot is the only valid one. -/
theorem InitialImage.eq_of_valid {geo : Geometry} {first : ℕ} {sb sb' : Superblock}
    (h : InitialImage sha disk geo first sb) {i : SuperblocksIndex}
    (hsb' : disk.slot i = some sb') (hvalid : sb'.Valid) : sb' = sb := by
  by_cases hi : i = 0
  · subst hi
    exact Option.some.inj (hsb'.symm.trans h.slot)
  · obtain ⟨sb₁, hsb₁, hnot⟩ := h.others i hi
    obtain rfl := Option.some.inj (hsb₁.symm.trans hsb')
    exact absurd hvalid hnot

/-- Each slot of an image can be decoded. -/
theorem InitialImage.readable {geo : Geometry} {first : ℕ} {sb : Superblock}
    (h : InitialImage sha disk geo first sb) : Readable disk := fun i => by
  by_cases hi : i = 0
  · rw [hi, h.slot]
    rfl
  · obtain ⟨sb', hsb', -⟩ := h.others i hi
    rw [hsb']
    rfl

/-- **The check is right about an image** whose generation is zero, as long as it
refuses nothing in the trees. It may check any slot then, but in the others there
is nothing to check. -/
theorem InitialImage.rightlyChecked {geo : Geometry} {first : ℕ} {sb : Superblock}
    (h : InitialImage sha disk geo first sb) (hgen : sb.curr.gen = 0)
    (htaken : NothingRefused sha disk sb) : RightlyChecked sha disk := by
  refine .zeroSound h.readable (fun i sb' hsb' hvalid => ?_) ⟨0, sb, h.newest, h.sound⟩
    fun i sb' hsb' hvalid => ?_
  · rw [h.eq_of_valid hsb' hvalid]
    exact hgen
  · rw [h.eq_of_valid hsb' hvalid]
    exact h.sound.passed htaken

/-- **The check library accepts every image of the init library**, whatever is in
the memory of its objects. -/
theorem completes_of_success {ioBuf : BlockData} {w : InitWorld} {req : InitRequest}
    (hrun : Runs.Run (InitWorld.step sha) (fun _ _ => True) (InitWorld.initial ioBuf disk) w)
    (hsuccess : w.lib.peekCompletedClientRequest = some true) (hreq : w.serving = some req)
    (hadm : req.geo.Admitted) (hfits : req.geo.Fits) (memory : SuperblockCheck)
    (buf : BlockData) : CheckLibrary.Completes sha w.disk memory buf := by
  obtain ⟨sb, himage, -, -, hgen, htaken⟩ :=
    initialImage_of_success hrun hsuccess hreq hadm hfits
  exact (completes_iff_of_rightlyChecked (himage.rightlyChecked hgen htaken) memory buf).mpr
    ⟨0, sb, himage.newest, himage.sound⟩

/-- A client's request for trees with one leaf each. -/
def smallGeometry : Geometry := ⟨⟨1, 1, 1⟩, ⟨2, 1, 1⟩⟩

/-- The small geometry has values of the types. -/
theorem smallGeometry_admitted : smallGeometry.Admitted where
  vbd := ⟨by decide, by decide, by decide⟩
  ft := ⟨by decide, by decide, by decide⟩

/-- Its trees can hold their leaves. -/
theorem smallGeometry_fits : smallGeometry.Fits where
  vbd := show 1 ≤ 1 ^ 1 by decide
  ft := show 1 ≤ 1 ^ 2 by decide

/-- A number of calls of `Execute`, and a block I/O request that is served. -/
def servedAfter (n : ℕ) : List InitWorld.Action :=
  List.replicate n .execute ++ [.ioInProgress, .ioCompleted true]

/-- The request, and the calls until it is completed. -/
def smallActions : List InitWorld.Action :=
  .submit smallGeometry ::
    [7, 10, 5, 10, 5, 5, 2, 4, 2, 4, 2, 4, 2, 4, 2, 4, 2, 4, 2, 4, 2].flatMap servedAfter
    ++ List.replicate 2 .execute

set_option maxRecDepth 100000 in
/-- The request succeeds. -/
theorem smallActions_succeed :
    (smallActions.foldlM (InitWorld.step fun _ => 0)
        (InitWorld.initial (fun _ => 0) fun _ _ => 0)).map
      (fun w => (w.lib.peekCompletedClientRequest, w.serving))
      = some (some true, some ⟨smallGeometry, 0⟩) := by
  decide +kernel

/-- The request succeeds. -/
theorem small_run : ∃ w, Runs.Run (InitWorld.step fun _ => 0) (fun _ _ => True)
      (InitWorld.initial (fun _ => 0) fun _ _ => 0) w
    ∧ w.lib.peekCompletedClientRequest = some true ∧ w.serving = some ⟨smallGeometry, 0⟩ := by
  obtain ⟨w, hw, hpair⟩ := Option.map_eq_some_iff.mp smallActions_succeed
  exact ⟨w, Runs.Run.of_foldlM _ hw, congrArg Prod.fst hpair, congrArg Prod.snd hpair⟩

/-- The image of the small geometry. -/
theorem initialImage_small : ∃ w sb, InitialImage (fun _ => 0) (InitWorld.disk w) smallGeometry
    (sb.firstPba + nrOfSuperblockSlots + 0) sb := by
  obtain ⟨w, hrun, hsuccess, hreq⟩ := small_run
  obtain ⟨sb, himage⟩ :=
    initialImage_of_run hrun hsuccess hreq smallGeometry_admitted smallGeometry_fits
  exact ⟨w, sb, himage⟩

/-- **Not the range that is recorded**: the addresses in use do not begin with `First_PBA`. -/
theorem not_initialImage_of_recorded_range :
    ¬ ∀ (sha : BlockData → Hash) (ioBuf : BlockData) (disk : Disk) (w : InitWorld)
      (req : InitRequest),
      Runs.Run (InitWorld.step sha) (fun _ _ => True) (InitWorld.initial ioBuf disk) w →
      w.lib.peekCompletedClientRequest = some true → w.serving = some req →
      req.geo.Admitted →
      req.geo.Fits ∧ ∃ sb, InitialImage sha w.disk req.geo sb.firstPba sb := by
  intro himages
  obtain ⟨w, hrun, hsuccess, hreq⟩ := small_run
  obtain ⟨-, sb, himage⟩ :=
    himages (fun _ => 0) (fun _ => 0) (fun _ _ => 0) w _ hrun hsuccess hreq smallGeometry_admitted
  exact recorded_range_includes_slots hrun hsuccess hreq smallGeometry_admitted
    smallGeometry_fits himage

end Cbe
