import Cbe.DeviceVersions
import Cbe.SecuredRestart
import Cbe.SuperblockRing
import Cbe.Support.DurableStore

/-!
# Crashes

What was secured last survives. The writes that follow go to other blocks than those of the
trees that the secured superblock knows (`Device.Spared`), so a library that is started
again on that superblock finds these trees as they were, and the device is intact with the
content of that time (`Spared.restart`). Altogether the device is a store that can crash
(`SecuredDevice.Safe.run`): of what was written before a crash that survives which
was followed by a request that secures.

Three things are conditions of a restart here (`SecuredDevice.Recovers`): the startup adopts
the superblock that was secured last, it finds the free tree as it was then, and the disk
has the blocks that the trees of this superblock need. What else is on the disk may be
anything, since the cache may have written back some of the blocks that were written after
the securing and not the others. And one superblock has to be secured: the root of a new
image is overwritten by the first write.
-/

namespace Cbe

variable {P : Platform}

/-! ## Trees in other blocks

Two sets of trees, in two stores, that have the same nodes wherever a block is
needed. All that is said of trees and a stock is said of such nodes, so it
carries over. -/

/-- **Trees that are spared**: the same snapshots, and the blocks that they need are as
they were. -/
structure Trees.Spared (t t' : Trees P) : Prop where
  /-- The degree is the same. -/
  degree : t'.degree = t.degree
  /-- So is the slot of the current snapshot. -/
  cur : t'.cur = t.cur
  /-- So are the snapshots. -/
  snaps : t'.snaps = t.snaps
  /-- Blocks that are needed have not changed. -/
  blocks : ∀ i v l, t.Needed i v l → t'.blockOf (t.node i v l) = t.blockOf (t.node i v l)

namespace Trees.Spared

variable {t t' : Trees P} {K : KeyState} {es : List Type2Node} {g : ℕ} {i : SnapshotsIndex}
  {v l : ℕ}

/-- The same snapshots count. -/
theorem tracked_iff (h : Trees.Spared t t') : t'.Tracked i ↔ t.Tracked i := by
  unfold Trees.Tracked
  rw [h.snaps, h.cur]

/-- Each tree that counts is left alone. -/
theorem leftAlone (h : Trees.Spared t t') (hi : t.Tracked i) : LeftAlone t t' i i where
  degree := h.degree
  maxLevel := by rw [h.snaps]
  root := by rw [h.snaps]
  inner v l h0 hp := h.blocks i v l ⟨hi, hp, Or.inl h0⟩

/-- It has the same places. -/
theorem present_iff (h : Trees.Spared t t') (hi : t.Tracked i) :
    t'.Present i v l ↔ t.Present i v l := (h.leftAlone hi).present_iff

/-- And the same nodes. -/
theorem node_eq (h : Trees.Spared t t') (hi : t.Tracked i) (hp : t.Present i v l) :
    t'.node i v l = t.node i v l := (h.leftAlone hi).node_eq hp

/-- The same blocks are needed. -/
theorem needed_iff (h : Trees.Spared t t') : t'.Needed i v l ↔ t.Needed i v l := by
  unfold Trees.Needed
  rw [h.tracked_iff]
  refine and_congr_right fun hi => ?_
  rw [h.present_iff hi]
  refine and_congr_right fun hp => ?_
  rw [h.node_eq hi hp]

/-- The same blocks are owned. -/
theorem owned_iff (h : Trees.Spared t t') : t'.Owned i v l ↔ t.Owned i v l := by
  unfold Trees.Owned
  rw [h.tracked_iff, h.cur]
  refine and_congr_right fun hi => ?_
  rw [h.present_iff hi]
  refine and_congr_right fun hp => ?_
  rw [h.node_eq hi hp]

/-- What is owned has its node. -/
theorem node_of_owned (h : Trees.Spared t t') (ho : t'.Owned i v l) :
    t.Owned i v l ∧ t'.node i v l = t.node i v l := by
  have ho' := h.owned_iff.mp ho
  exact ⟨ho', h.node_eq ho'.1 ho'.2.1⟩

/-- What guards a block guards it still. -/
theorem guards (h : Trees.Spared t t') (ho : t.Owned i v l) {e : Type2Node}
    (hg : Guards t K i v l e) : Guards t' K i v l e := by
  have hnode := h.node_eq ho.1 ho.2.1
  refine ⟨?_, hg.reserved, ?_, ?_, ?_, hg.lastKey, hg.front⟩
  · rw [hnode]
    exact hg.pba
  · rw [hnode]
    exact hg.alloc
  · rw [h.snaps]
    exact hg.free
  · rw [h.degree]
    exact hg.lastVba

/-- The trees fit together with the same stock. -/
theorem forest (h : Trees.Spared t t') (hf : Forest t K es) : Forest t' K es where
  injOn i v l j w k hi hj heq := by
    obtain ⟨hi', hni⟩ := h.node_of_owned hi
    obtain ⟨hj', hnj⟩ := h.node_of_owned hj
    rw [hni, hnj] at heq ⊢
    rw [h.degree]
    exact hf.injOn i v l j w k hi' hj' heq
  gen_le i v l hi := by
    obtain ⟨hi', hni⟩ := h.node_of_owned hi
    rw [hni, h.snaps]
    exact hf.gen_le i v l hi'
  stock := hf.stock
  current v l ho := by
    rw [h.cur] at ho ⊢
    obtain ⟨ho', hn⟩ := h.node_of_owned ho
    rw [hn]
    exact hf.current v l ho'
  kept i v l ho := by
    obtain ⟨ho', hn⟩ := h.node_of_owned ho
    rw [h.cur]
    rcases hf.kept i v l ho' with ⟨hcur, hpba⟩ | ⟨e, he, hg⟩
    · refine Or.inl ⟨h.owned_iff.mpr hcur, ?_⟩
      rw [hn, h.node_eq hcur.1 hcur.2.1]
      exact hpba
    · exact Or.inr ⟨e, he, h.guards ho' hg⟩

/-- **Spared trees are sound** as they were. -/
theorem sound (h : Trees.Spared t t') (hs : Sound t K es g) : Sound t' K es g where
  admitted := by
    rw [h.degree]
    exact hs.admitted
  ordered := by
    refine ⟨?_, ?_, ?_, ?_⟩
    all_goals rw [h.snaps]
    · rw [h.cur]
      exact hs.ordered.valid
    · rw [h.cur]
      exact hs.ordered.gen_lt
    · rw [h.cur]
      exact hs.ordered.gen_le
    · exact hs.ordered.gen_injOn
  forest := h.forest hs.forest
  hashed i v l hn := by
    have hn' := h.needed_iff.mp hn
    rw [h.node_eq hn'.1 hn'.2.1, h.blocks i v l hn']
    exact hs.hashed i v l hn'
  complete i hi := by
    have hi' := h.tracked_iff.mp hi
    rw [h.snaps]
    exact ⟨(hs.complete i hi').1, fun v => (h.present_iff hi').trans ((hs.complete i hi').2 v)⟩
  growing i j hi hj hle := by
    have hi' := h.tracked_iff.mp hi
    have hj' := h.tracked_iff.mp hj
    rw [h.snaps] at hle ⊢
    obtain ⟨hmax, hnr, hwritten⟩ := hs.growing i j hi' hj' hle
    refine ⟨hmax, hnr, fun v hv => ?_⟩
    rw [h.node_eq hi' (hs.present hi' hv (Nat.zero_le _)),
      h.node_eq hj' (hs.present hj' (hv.trans_le hnr) (Nat.zero_le _))]
    exact hwritten v hv
  contiguous i j k v l hi hj hk hij hjk heq := by
    have hi' := h.needed_iff.mp hi
    have hk' := h.needed_iff.mp hk
    rw [h.snaps] at hij hjk
    rw [h.node_eq hi'.1 hi'.2.1, h.node_eq hk'.1 hk'.2.1] at heq
    obtain ⟨hn, hpba⟩ := hs.contiguous i j k v l hi' (h.tracked_iff.mp hj) hk' hij hjk heq
    refine ⟨h.needed_iff.mpr hn, ?_⟩
    rw [h.node_eq hi'.1 hi'.2.1, h.node_eq hn.1 hn.2.1]
    exact hpba

/-- The addresses of their nodes stay in use. -/
theorem addressed (h : Trees.Spared t t') (ha : t.Addressed) : t'.Addressed := by
  intro i v l hi hp
  have hi' := h.tracked_iff.mp hi
  have hp' := (h.present_iff hi').mp hp
  rw [h.node_eq hi' hp']
  exact ha i v l hi' hp'

/-- They store what they stored. -/
theorem stored_eq (h : Trees.Spared t t') (hcomp : t.Complete) (hi : t.Tracked i) (v : ℕ) :
    t'.stored K i v = t.stored K i v := by
  refine Trees.stored_congr (by rw [h.snaps]) (fun hv => ?_) fun hv h0 => ?_
  · rw [h.node_eq hi (((hcomp i hi).2 v).mpr hv)]
  · have hp := ((hcomp i hi).2 v).mpr hv
    rw [h.node_eq hi hp, h.blocks i v 0 ⟨hi, hp, Or.inr h0⟩]

end Trees.Spared

/-! ## A device that was secured

The device of the time of the last securing is kept beside the one of now. What
is said of the pair is that the blocks which the first one needs are the same in
the second one. -/

/-- A write takes another slot than that of an older snapshot. -/
theorem ne_writtenSlot {sb : Superblock} {g : ℕ} {slot i : SnapshotsIndex}
    (hslot : writtenSlot sb g = some slot) (hv : (sb.snapshots i).valid = true)
    (hg : (sb.snapshots i).gen < g) : i ≠ slot := by
  rintro rfl
  unfold writtenSlot at hslot
  split_ifs at hslot with hlt
  · have hinvalid := List.find?_some hslot
    rw [hv] at hinvalid
    exact absurd hinvalid (by decide)
  · obtain rfl := Option.some.inj hslot
    exact hlt hg

namespace Device

variable {s d d' : Device P} {i : SnapshotsIndex}

/-- **A device at rest**: nothing was written since a superblock was secured. -/
structure AtRest (d : Device P) : Prop where
  /-- The current snapshot is the one that was secured. -/
  curr_gen : d.sb.curr.gen = d.sb.lastSecuredGeneration
  /-- It is not that of a new image. -/
  gen_ne_zero : d.sb.curr.gen ≠ 0

/-- The blocks that the trees of the device need are in another store as they are in one. -/
def TreesKept (d : Device P) (store store' : Store P) : Prop :=
  ∀ i v l, (d.sb.trees d.store).Needed i v l →
    store'.blocks ((d.sb.trees d.store).node i v l).pba
      = store.blocks ((d.sb.trees d.store).node i v l).pba

/-- **What was secured is spared**: its snapshots are in the table, and the blocks that
their trees need are as they were. -/
structure Spared (s d : Device P) : Prop where
  /-- The degree is the same. -/
  degree : d.sb.degree = s.sb.degree
  /-- The generation at hand is the same, since nothing was secured. -/
  currGen : d.ctl.currGen = s.ctl.currGen
  /-- What counted then is in the table now. -/
  snaps : ∀ i, (s.sb.trees s.store).Tracked i → d.sb.snapshots i = s.sb.snapshots i
  /-- The blocks that it needs have not changed. -/
  blocks : s.TreesKept s.store d.store

namespace Spared

/-- At the time itself. -/
theorem refl (s : Device P) : s.Spared s := ⟨rfl, rfl, fun _ _ => rfl, fun _ _ _ _ => rfl⟩

/-- Its trees are those that the device has now under these snapshots. -/
theorem leftAlone (h : s.Spared d) (hi : (s.sb.trees s.store).Tracked i) :
    Trees.LeftAlone (s.sb.trees s.store) (d.sb.trees d.store) i i where
  degree := h.degree
  maxLevel := congrArg Snapshot.maxLevel (h.snaps i hi)
  root := congrArg Snapshot.root (h.snaps i hi)
  inner v l h0 hp := h.blocks i v l ⟨hi, hp, Or.inl h0⟩

/-- What counted then counts now. -/
theorem tracked (h : s.Spared d) (hrest : s.AtRest) (hi : (s.sb.trees s.store).Tracked i) :
    (d.sb.trees d.store).Tracked i := by
  have heq := h.snaps i hi
  refine ⟨(congrArg Snapshot.valid heq).trans hi.1, Or.inr ?_⟩
  rcases hi.2 with hc | h0
  · refine (congrArg Snapshot.gen heq).trans_ne ?_
    rw [hc]
    exact hrest.gen_ne_zero
  · exact (congrArg Snapshot.gen heq).trans_ne h0

/-- What was secured is older than what is written now. -/
theorem gen_lt (h : s.Spared d) (hs : s.Intact) (hrest : s.AtRest)
    (hi : (s.sb.trees s.store).Tracked i) : (d.sb.snapshots i).gen < d.ctl.currGen := by
  rw [h.snaps i hi, h.currGen]
  refine (hs.sound.ordered.gen_le_cur hi.1).trans_lt ?_
  exact hrest.curr_gen.trans_lt hs.order.lastSecured_lt

/-- **A write spares what was secured.** -/
theorem write (h : s.Spared d) (hs : s.Intact) (hrest : s.AtRest) (hd : d.Intact)
    (hlast : d.ctl.currGen < generationLast) {vba : ℕ} {data : P.Block} {mt : MetaTree}
    (hfront : d.sb.state = .rekeying → d.sb.rekeyingVba = 0 ∨ vba < d.sb.rekeyingVba)
    (hw : d.write vba data mt = some d') : s.Spared d' := by
  obtain ⟨slot, hwr⟩ := wrote hw
  obtain ⟨-, walk, newPbas, hpath, -⟩ := hd.write_path hlast hfront hw
  have hslot : ∀ i, (s.sb.trees s.store).Tracked i → i ≠ d'.sb.currSnap := fun i hi => by
    rw [hwr.currSnap]
    exact ne_writtenSlot hwr.found (h.tracked hrest hi).1 (h.gen_lt hs hrest hi)
  have hsnaps : ∀ i, (s.sb.trees s.store).Tracked i → d'.sb.snapshots i = d.sb.snapshots i :=
    fun i hi => hwr.other i (by rw [← hwr.currSnap]; exact hslot i hi)
  refine ⟨hpath.degree.trans h.degree, hwr.currGen.trans h.currGen,
    fun i hi => (hsnaps i hi).trans (h.snaps i hi), fun i v l hn => ?_⟩
  have hleft := h.leftAlone hn.1
  have hp := hleft.present_of_present hn.2.1
  have hnode := hleft.node_eq hn.2.1
  have htr : (d'.sb.trees d'.store).Tracked i := by
    have htr₀ := h.tracked hrest hn.1
    refine ⟨(congrArg Snapshot.valid (hsnaps i hn.1)).trans htr₀.1, Or.inr ?_⟩
    refine (congrArg Snapshot.gen (hsnaps i hn.1)).trans_ne ?_
    rw [h.snaps i hn.1]
    rcases hn.1.2 with hc | h0
    · rw [hc]
      exact hrest.gen_ne_zero
    · exact h0
  -- the new path avoids what another snapshot needs
  have hleft' := hpath.leftAlone hd.sound.forest (hslot i hn.1) htr
  have hnode' := hleft'.node_eq hp
  have hneed : (d'.sb.trees d'.store).Needed i v l := by
    refine ⟨htr, hleft'.present_of_present hp, ?_⟩
    rw [hnode', hnode]
    exact hn.2.2
  obtain ⟨-, -, hblk⟩ := hpath.blockOf_other hd.sound.forest (hslot i hn.1) hneed
  rw [hnode', hnode] at hblk
  exact hblk.trans (h.blocks i v l hn)

/-- **A library that is started again** on what was secured last finds it intact, and the
versions of that time, whatever is in the blocks that its trees do not need. -/
theorem restart (h : s.Spared d) (hs : s.Intact) (hsb : d'.sb = s.sb)
    (hcurrGen : d'.ctl.currGen = s.ctl.currGen) (hstore : s.TreesKept d.store d'.store)
    (hfree : d'.free = s.free) : d'.Intact ∧ d'.versions = s.versions := by
  have htrees : Trees.Spared (s.sb.trees s.store) (d'.sb.trees d'.store) := by
    rw [hsb]
    exact ⟨rfl, rfl, rfl, fun i v l hn => (hstore i v l hn).trans (h.blocks i v l hn)⟩
  have hd' : d'.Intact := by
    refine ⟨?_, htrees.addressed hs.addressed, ?_⟩
    · rw [hcurrGen, hfree]
      have hkeys : d'.sb.keyState = s.sb.keyState := by rw [hsb]
      rw [hkeys]
      exact htrees.sound hs.sound
    · rw [hsb, hcurrGen]
      exact hs.order
  have hstored : ∀ i v, (s.sb.trees s.store).Tracked i → d'.stored i v = s.stored i v := by
    intro i v hi
    have hkeys : d'.sb.keyState = s.sb.keyState := by rw [hsb]
    unfold stored
    rw [hkeys]
    exact htrees.stored_eq hs.sound.complete hi v
  refine ⟨hd', VersionedStore.ext ?_ ?_ hcurrGen ?_⟩
  · funext v
    show readVba d'.store d'.sb 0 v = readVba s.store s.sb 0 v
    rw [hd'.read_current, hs.read_current, hsb]
    exact hstored _ v hs.sound.tracked_cur
  · show d'.sb.curr.gen = s.sb.curr.gen
    rw [hsb]
  · funext g
    refine Option.ext fun c => ?_
    rw [hd'.past_iff, hs.past_iff]
    refine exists_congr fun i => and_congr (by rw [hsb]) ?_
    rw [htrees.tracked_iff]
    refine and_congr_right fun hi => and_congr (by rw [hsb]) ?_
    rw [funext fun v => hstored i v hi]

end Spared

/-- **A request that secures** leaves the device at rest. -/
theorem Secures.atRest {a : Action P} (hsec : d.Secures a) (h : d.Intact)
    (hr : ∀ store free, a ≠ .restart store free) (hstep : d.step a = some d') : d'.AtRest := by
  cases Device.effect_of_step hstep with
  | write => exact absurd hsec id
  | restart => exact absurd rfl (hr _ _)
  | notFound hnone =>
    have hsome : (keptSlotForGen _ _).isSome = true := hsec
    rw [hnone] at hsome
    exact absurd hsome (by decide)
  | @secured _ _ sb _ hprep hctl _ _ =>
    have hgen : d'.sb.curr.gen = d.ctl.currGen := by
      unfold Device.sb
      rw [hctl]
      exact hprep.curr_gen
    refine ⟨hgen.trans ?_, hgen.trans_ne h.order.currGen_ne_zero⟩
    unfold Device.sb
    rw [hctl]
    rfl

instance (d : Device P) : (a : Action P) → Decidable (d.Secures a)
  | .write _ _ _ | .restart _ _ => inferInstanceAs (Decidable False)
  | .discardSnapshot gen =>
    inferInstanceAs (Decidable ((keptSlotForGen d.sb.snapshots gen).isSome = true))
  | .sync | .createSnapshot | .initializeRekeying _ | .rekeyVba _ | .vbdExtensionStep _ _
  | .ftExtensionStep _ _ => inferInstanceAs (Decidable True)

end Device

/-! ## Runs

A run is followed by the pair, and the second component changes with a securing
and with a crash only. -/

/-- **A device with what was secured last**: the device as it was then. -/
structure SecuredDevice (P : Platform) where
  /-- The device now. -/
  device : Device P
  /-- The device at the time when a superblock was secured last. -/
  secured : Device P

namespace SecuredDevice

/-- A device that was just set up or started. -/
def start (d : Device P) : SecuredDevice P := ⟨d, d⟩

/-- **What an action is for the data** of the device. -/
def event (t : SecuredDevice P) (a : Action P) : DurableEvent ℕ (Option P.Block) :=
  match a with
  | .restart _ _ => .crash
  | _ => if t.device.Secures a then .secure else .access a.log

/-- **One action.** -/
def step (t : SecuredDevice P) (a : Action P) : Option (SecuredDevice P) :=
  (t.device.step a).map fun d =>
    match t.event a with
    | .access _ => { t with device := d }
    | _ => start d

/-- **The condition on an action**: a restart comes after a superblock was secured, finds
the blocks that the trees of that superblock need and the free tree that was secured, and
adopts the superblock; every other action is orderly. -/
def Recovers (t : SecuredDevice P) (a : Action P) : Prop :=
  match a with
  | .restart store free => t.secured.AtRest ∧ t.secured.TreesKept t.device.store store
    ∧ free = t.secured.free
    ∧ ∀ c, executeInitialize P t.device.slots = some c → Device.Restores c t.secured
  | _ => t.device.Orderly a

/-- **What holds in every state**: both devices are intact, and what was secured is
spared. -/
structure Safe (t : SecuredDevice P) : Prop where
  /-- The device is intact. -/
  device : t.device.Intact
  /-- It was intact when it was secured. -/
  secured : t.secured.Intact
  /-- What was secured is spared. -/
  spared : t.secured.AtRest → t.secured.Spared t.device

/-- What reads return, now and after a crash. -/
def durable (t : SecuredDevice P) : DurableStore ℕ (Option P.Block) ℕ :=
  ⟨t.device.versions, t.secured.versions⟩

variable {t t' : SecuredDevice P} {a : Action P}

/-- **The three kinds of actions**: a restart, a request that secures, and the others. -/
theorem step_cases (h : t.step a = some t') : ∃ d, t.device.step a = some d
    ∧ ((∃ store free, a = .restart store free ∧ t.event a = .crash ∧ t' = start d)
      ∨ (t.device.Secures a ∧ (∀ store free, a ≠ .restart store free) ∧ t.event a = .secure
        ∧ t' = start d)
      ∨ (¬ t.device.Secures a ∧ (∀ store free, a ≠ .restart store free)
        ∧ t.event a = .access a.log ∧ t' = { t with device := d })) := by
  obtain ⟨d, hd, rfl⟩ := Option.map_eq_some_iff.mp h
  refine ⟨d, hd, ?_⟩
  by_cases hr : ∃ store free, a = .restart store free
  · obtain ⟨store, free, rfl⟩ := hr
    exact Or.inl ⟨store, free, rfl, rfl, rfl⟩
  · have hne : ∀ store free, a ≠ .restart store free := fun store free heq => hr ⟨store, free, heq⟩
    have hevent : t.event a = if t.device.Secures a then .secure else .access a.log := by
      cases a with
      | restart store free => exact absurd rfl (hne store free)
      | _ => rfl
    by_cases hsec : t.device.Secures a
    · rw [if_pos hsec] at hevent
      exact Or.inr (Or.inl ⟨hsec, hne, hevent, by rw [hevent]⟩)
    · rw [if_neg hsec] at hevent
      exact Or.inr (Or.inr ⟨hsec, hne, hevent, by rw [hevent]⟩)

/-- A request that secures writes no data. -/
theorem log_of_secures {d : Device P} (h : d.Secures a) : a.log = [] := by
  cases a with
  | write => exact absurd h id
  | _ => rfl

/-- An action other than a restart is orderly. -/
theorem Recovers.orderly (h : t.Recovers a) (hr : ∀ store free, a ≠ .restart store free) :
    t.device.Orderly a := by
  cases a with
  | restart store free => exact absurd rfl (hr store free)
  | _ => exact h

/-- **What neither secures nor starts the library** spares what was secured. -/
theorem Safe.spared_step (h : t.Safe) {d : Device P} (hC : t.device.Orderly a)
    (hsec : ¬ t.device.Secures a) (hd : t.device.step a = some d) (hrest : t.secured.AtRest) :
    t.secured.Spared d := by
  have hsp := h.spared hrest
  cases a with
  | write vba data mt => exact hsp.write h.secured hrest h.device hC.2.2 hC.2.1 hd
  | discardSnapshot gen =>
    cases Device.effect_of_step hd with
    | notFound => exact hsp
    | secured hprep =>
      cases hprep with
      | discardSnapshot hi => exact absurd (Option.isSome_iff_exists.mpr ⟨_, hi⟩) hsec
  | restart => exact hC.2.1.elim
  | _ => exact absurd trivial hsec

/-- **The step lemma.** -/
theorem Safe.step (h : t.Safe) (hC : t.Recovers a) (hstep : t.step a = some t') :
    t'.Safe ∧ DurableStore.Step t.durable (t.event a) t'.durable := by
  obtain ⟨d, hd, hcase⟩ := step_cases hstep
  rcases hcase with ⟨store, free, rfl, hevent, rfl⟩ | ⟨hsec, hne, hevent, rfl⟩
    | ⟨hsec, hne, hevent, rfl⟩
  · -- a crash takes the device back to what was secured
    obtain ⟨hrest, hkept, rfl, hrestores⟩ := hC
    obtain ⟨c, hc, heq⟩ := Device.restart_spec hd
    have hback := hrestores c hc
    have hctl : d.ctl = c := by rw [heq]
    have hd' : d.Intact ∧ d.versions = t.secured.versions := (h.spared hrest).restart h.secured
      ((congrArg Control.sb hctl).trans hback.sb)
      ((congrArg Control.currGen hctl).trans hback.currGen) (by rw [heq]; exact hkept)
      (by rw [heq])
    refine ⟨⟨hd'.1, hd'.1, fun _ => .refl d⟩, ?_⟩
    rw [hevent]
    show DurableStore.Step _ _ ⟨d.versions, d.versions⟩
    rw [hd'.2]
    exact .crash _ _
  · have horder := hC.orderly hne
    have hd' := h.device.step horder.2 hd
    have hversions := h.device.versions_step horder hd
    rw [log_of_secures hsec] at hversions
    rw [hevent]
    exact ⟨⟨hd', hd', fun _ => .refl d⟩, .secure hversions⟩
  · have horder := hC.orderly hne
    rw [hevent]
    exact ⟨⟨h.device.step horder.2 hd, h.secured, h.spared_step horder hsec hd⟩,
      .access (h.device.versions_step horder hd)⟩

/-- **Once a superblock was secured there is one at rest**: a crash goes back to it, and the
other actions leave it. -/
theorem Safe.atRest_step (h : t.Safe) (hC : t.Recovers a) (hstep : t.step a = some t')
    (hrest : t.secured.AtRest ∨ t.event a = .secure) : t'.secured.AtRest := by
  obtain ⟨d, hd, hcase⟩ := step_cases hstep
  rcases hcase with ⟨store, free, rfl, hevent, rfl⟩ | ⟨hsec, hne, hevent, rfl⟩
    | ⟨hsec, hne, hevent, rfl⟩
  · obtain ⟨hrest, -, -, hrestores⟩ := hC
    obtain ⟨c, hc, heq⟩ := Device.restart_spec hd
    have hsb : d.sb = t.secured.sb := by
      rw [heq]
      exact (hrestores c hc).sb
    show d.AtRest
    refine ⟨?_, ?_⟩
    all_goals rw [hsb]
    · exact hrest.curr_gen
    · exact hrest.gen_ne_zero
  · exact Device.Secures.atRest hsec h.device hne hd
  · refine hrest.resolve_right fun hsecure => ?_
    rw [hevent] at hsecure
    exact absurd hsecure (by simp)

/-- **What some actions are for the data**, in the states in which they begin. -/
def events (t : SecuredDevice P) : List (Action P) → List (DurableEvent ℕ (Option P.Block))
  | [] => []
  | a :: l => t.event a :: ((t.step a).map fun t' => t'.events l).getD []

/-- The first action of a list, and the rest in the state after it. -/
theorem events_cons {l : List (Action P)} (hstep : t.step a = some t') :
    t.events (a :: l) = t.event a :: t'.events l := by
  rw [events, hstep]
  rfl

/-- **A run with crashes** is one of a store that can crash. -/
theorem Safe.run (h : t.Safe) {l : List (Action P)}
    (htrace : Runs.Trace SecuredDevice.step Recovers t l t') :
    t'.Safe ∧ DurableStore.Run t.durable (t.events l) t'.durable := by
  induction htrace with
  | nil => exact ⟨h, .nil _⟩
  | @cons t u t' a l hC hstep _ ih =>
    obtain ⟨hu, hdur⟩ := h.step hC hstep
    obtain ⟨ht', hrun⟩ := ih hu
    rw [events_cons hstep]
    exact ⟨ht', .cons hdur hrun⟩

/-- After a run in which a superblock was secured, there is one at rest. -/
theorem Safe.atRest_run (h : t.Safe) {l : List (Action P)}
    (htrace : Runs.Trace SecuredDevice.step Recovers t l t')
    (hrest : t.secured.AtRest ∨ .secure ∈ t.events l) : t'.secured.AtRest := by
  induction htrace with
  | nil => exact hrest.resolve_right List.not_mem_nil
  | @cons t u t' a l hC hstep _ ih =>
    rw [events_cons hstep] at hrest
    refine ih (h.step hC hstep).1 ?_
    rcases hrest with hrest | hsecure
    · exact Or.inl (h.atRest_step hC hstep (Or.inl hrest))
    · rcases List.mem_cons.mp hsecure with hnow | hlater
      · exact Or.inl (h.atRest_step hC hstep (Or.inr hnow.symm))
      · exact Or.inr hlater

/-- An intact device is safe when it starts. -/
theorem safe_start {d : Device P} (h : d.Intact) : (start d).Safe := ⟨h, h, fun _ => .refl d⟩

/-- **What survives crashes**: after any run the device is intact, and a read returns what
was written last among what was not lost. Once a superblock was secured, the one secured
last is spared: whatever was written since, the blocks that its trees need are as they were
when it was secured. -/
theorem read_survivor {d : Device P} (h : d.Intact) {l : List (Action P)}
    (htrace : Runs.Trace step Recovers (start d) l t) (vba : ℕ) :
    t.device.Intact
      ∧ (.secure ∈ (start d).events l → t.secured.Intact ∧ t.secured.Spared t.device)
      ∧ StoreHistory.Latest (fun v => readVba d.store d.sb 0 v)
        (Survivors.of ((start d).events l)).now vba
        (readVba t.device.store t.device.sb 0 vba) := by
  have hstart := safe_start h
  obtain ⟨hsafe, hrun⟩ := hstart.run htrace
  have hcurr : readVba t.device.store t.device.sb 0 vba
      = StoreHistory.contentAfter (fun v => readVba d.store d.sb 0 v)
        (Survivors.of ((start d).events l)).now vba := congrFun hrun.current vba
  refine ⟨hsafe.device, fun hsecure => ?_, ?_⟩
  · exact ⟨hsafe.secured, hsafe.spared (hstart.atRest_run htrace (Or.inr hsecure))⟩
  · rw [hcurr]
    exact StoreHistory.latest_contentAfter

/-- What a sync of the sample device secures is adopted. -/
theorem sample_restores {c : Control}
    (h : executeInitialize Platform.sample (Device.sample.after [.sync]).slots = some c) :
    Device.Restores c (Device.sample.after [.sync]) := by
  obtain ⟨c', hinit, hsel⟩ := Device.sample_restart (a := .sync) (by decide) ⟨_, rfl, rfl⟩
  obtain rfl := Option.some.inj (h.symm.trans hinit)
  refine (Device.restores_iff (a := .sync) (d := Device.sample)
    Device.sample_fresh.previousKeyCleared Device.sample_fresh.currentInv.memory (by decide)
    trivial rfl h hsel).mpr ⟨?_, ?_, ?_⟩
  · rintro op hop hlate
    obtain rfl := Option.some.inj hop
    exact absurd hlate (by decide)
  · exact Or.inr (Or.inr rfl)
  · decide

/-- The sample device is started again after a write that was not secured. -/
theorem read_survivor_sample : ∃ (l : List (Action Platform.sample))
    (t : SecuredDevice Platform.sample), l.length = 3 ∧ t.device.Intact
      ∧ (.secure ∈ (start Device.sample).events l
        → t.secured.Intact ∧ t.secured.Spared t.device)
      ∧ StoreHistory.Latest (fun v => readVba Device.sample.store Device.sample.sb 0 v)
        (Survivors.of ((start Device.sample).events l)).now 0
        (readVba t.device.store t.device.sb 0 0) := by
  -- the write leaves the slots and what was secured
  have hsome : ((Device.sample.after [.sync]).step
    (.write 0 (Device.sampleBlock 7) Device.sampleMeta)).isSome = true := by decide +kernel
  obtain ⟨d, hd⟩ := Option.isSome_iff_exists.mp hsome
  have hslots : d.slots = (Device.sample.after [.sync]).slots := by
    cases Device.effect_of_step hd with
    | write _ _ _ _ _ _ hslots => exact hslots
    | secured hprep => cases hprep
  -- so the restart adopts what the sync has secured
  obtain ⟨c, hinit, -⟩ := Device.sample_restart (a := .sync) (by decide) ⟨_, rfl, rfl⟩
  have hrestores : ∀ c, executeInitialize Platform.sample d.slots = some c →
      Device.Restores c (Device.sample.after [.sync]) := fun c hc => by
    rw [hslots] at hc
    exact sample_restores hc
  rw [← hslots] at hinit
  have hrestart : (step ⟨d, Device.sample.after [.sync]⟩
      (.restart d.store (Device.sample.after [.sync]).free)).isSome = true := by
    show (Option.map _ (Option.map _ (executeInitialize Platform.sample d.slots))).isSome = true
    rw [hinit]
    rfl
  obtain ⟨u, hu⟩ := Option.isSome_iff_exists.mp hrestart
  have hsync : step (start Device.sample) .sync = some (start (Device.sample.after [.sync])) := rfl
  have hwrite : step (start (Device.sample.after [.sync]))
      (.write 0 (Device.sampleBlock 7) Device.sampleMeta)
        = some ⟨d, Device.sample.after [.sync]⟩ := by
    show Option.map _ ((Device.sample.after [.sync]).step _) = _
    rw [hd]
    rfl
  have hrest : (Device.sample.after [.sync]).AtRest := ⟨by decide, by decide⟩
  refine ⟨_, u, rfl, read_survivor Device.sample_intact (.cons _ _ ?_ hsync (.cons _ _ ?_ hwrite
    (.cons _ [] ?_ hu (.nil u)))) 0⟩
  · exact ⟨trivial, trivial, by decide⟩
  · exact ⟨fun hst => absurd hst (by decide), fun hst => absurd hst (by decide), by decide⟩
  · exact ⟨hrest, fun _ _ _ _ => rfl, rfl, hrestores⟩

end SecuredDevice

end Cbe
