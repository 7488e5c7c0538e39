import Cbe.ThinnedTrees
import Cbe.FreshTrees

/-!
# The device keeps its trees intact

Between two actions the trees of the snapshots are sound together with the free
tree (`Sound`), and the superblock is in order (`Superblock.InOrder`): the
generations of the table fit the current one, all snapshots have one size, and a
rekeying has an address left. An action that only purges the table and stamps
the current snapshot keeps the trees as a new path from the root to the root
(`Trees.Thinned`), a write as a new path, and a rekeying step as what
`Rekeyed.Complete` says. So a run of these actions keeps the device intact
(`Device.intact_of_run`).

The actions are the completed operations of the library. For each of them there
is a lemma that the device stays intact, and, where it is not a write, one that
every snapshot which still counts stores what it stored (`Device.Keeps`). The
two are shown together, since the argument is the same: the action leaves trees
that stand in one of the three relations to those before.

Four actions are outside of the condition on a run (`Device.InPlace`): an
extension, a restart, a discard of the current snapshot, and a write that
overtakes a rekeying. The first two have theorems of their own; the other two are
left out here.
-/

namespace Cbe

variable {P : Platform}

/-! ## The superblock

The order of a superblock is about numbers only: generations, sizes, keys and
the address of a rekeying. Securing advances the generation and keeps it. -/

/-- **The superblock is in order** in a generation. -/
structure Superblock.InOrder (sb : Superblock) (currGen : ℕ) : Prop where
  /-- What is written now is newer than what was secured. -/
  lastSecured_lt : sb.lastSecuredGeneration < currGen
  /-- The current snapshot is the one that was secured, or of the generation at
  hand. -/
  curr_gen : sb.curr.gen = sb.lastSecuredGeneration ∨ sb.curr.gen = currGen
  /-- The root is at level two at least. -/
  maxLevel : 2 ≤ sb.curr.maxLevel
  /-- All snapshots have one size. -/
  size : ∀ i, (sb.snapshots i).valid = true →
    (sb.snapshots i).maxLevel = sb.curr.maxLevel ∧ (sb.snapshots i).nrOfLeafs = sb.curr.nrOfLeafs
  /-- The first snapshot is not kept as long as it has the generation 0. -/
  unkept : ∀ i, (sb.snapshots i).valid = true → (sb.snapshots i).gen = 0 →
    (sb.snapshots i).keep = false
  /-- The key that a rekeying replaces is not newer than the current one. -/
  keys_le : sb.previousKey.id ≤ sb.currentKey.id
  /-- During a rekeying it is another one. -/
  keys_ne : sb.state = .rekeying → sb.previousKey.id ≠ sb.currentKey.id
  /-- There is an address that the rekeying still has to do. -/
  front : sb.state = .rekeying → sb.rekeyingVba < sb.curr.nrOfLeafs
  /-- A rekeying does not begin before something was secured. -/
  secured : sb.state = .rekeying → sb.lastSecuredGeneration ≠ 0

/-- **What securing leaves** of the table of a superblock. -/
structure Superblock.Secured (sb sb' : Superblock) (g : ℕ) : Prop where
  /-- The current snapshot stays in its slot. -/
  currSnap : sb'.currSnap = sb.currSnap
  /-- The generation that was secured is recorded. -/
  lastSecured : sb'.lastSecuredGeneration = g
  /-- It is that of the current snapshot. -/
  curr_gen : sb'.curr.gen = g
  /-- The current snapshot has the height that it had. -/
  curr_maxLevel : sb'.curr.maxLevel = sb.curr.maxLevel
  /-- It has the leaves that it had. -/
  curr_nrOfLeafs : sb'.curr.nrOfLeafs = sb.curr.nrOfLeafs
  /-- What is left of the others is as before. -/
  other : ∀ i, i ≠ sb.currSnap → (sb'.snapshots i).valid = true → (sb.snapshots i).valid = true
    ∧ (sb'.snapshots i).gen = (sb.snapshots i).gen ∧ (sb'.snapshots i).keep = (sb.snapshots i).keep
    ∧ (sb'.snapshots i).maxLevel = (sb.snapshots i).maxLevel
    ∧ (sb'.snapshots i).nrOfLeafs = (sb.snapshots i).nrOfLeafs

namespace Superblock.InOrder

variable {sb sb' : Superblock} {g : ℕ}

/-- A purge spares the current snapshot. -/
theorem sparesCurrent (h : sb.InOrder g) : sb.SparesCurrent g :=
  h.curr_gen.elim (fun h => Or.inr (Or.inr h)) fun h => Or.inr (Or.inl h)

/-- The generation being written is not zero. -/
theorem currGen_ne_zero (h : sb.InOrder g) : g ≠ 0 := (Nat.zero_lt_of_lt h.lastSecured_lt).ne'

/-- **Securing keeps the order**, if the keys and the rekeying keep it. -/
theorem secured_order (h : sb.InOrder g) (hs : sb.Secured sb' g)
    (hle : sb'.previousKey.id ≤ sb'.currentKey.id)
    (hne : sb'.state = .rekeying → sb'.previousKey.id ≠ sb'.currentKey.id)
    (hfront : sb'.state = .rekeying → sb'.rekeyingVba < sb.curr.nrOfLeafs) :
    sb'.InOrder (g + 1) where
  lastSecured_lt := by
    rw [hs.lastSecured]
    exact Nat.lt_succ_self g
  curr_gen := Or.inl (hs.curr_gen.trans hs.lastSecured.symm)
  maxLevel := by
    rw [hs.curr_maxLevel]
    exact h.maxLevel
  size i hv := by
    rw [hs.curr_maxLevel, hs.curr_nrOfLeafs]
    by_cases hi : i = sb.currSnap
    · rw [hi, ← hs.currSnap]
      exact ⟨hs.curr_maxLevel, hs.curr_nrOfLeafs⟩
    · obtain ⟨hv', -, -, hmax, hnr⟩ := hs.other i hi hv
      rw [hmax, hnr]
      exact h.size i hv'
  unkept i hv h0 := by
    by_cases hi : i = sb.currSnap
    · rw [hi, ← hs.currSnap] at h0
      exact absurd (hs.curr_gen.symm.trans h0) h.currGen_ne_zero
    · obtain ⟨hv', hgen, hkeep, -⟩ := hs.other i hi hv
      rw [hkeep]
      exact h.unkept i hv' (hgen.symm.trans h0)
  keys_le := hle
  keys_ne := hne
  front hst := by
    rw [hs.curr_nrOfLeafs]
    exact hfront hst
  secured _ := by
    rw [hs.lastSecured]
    exact h.currGen_ne_zero

end Superblock.InOrder

/-- A secured stamp. -/
theorem Superblock.TableStamped.secured {sb sb' : Superblock} {g : ℕ} (h : sb.TableStamped sb' g)
    (hlast : sb'.lastSecuredGeneration = g) : sb.Secured sb' g := by
  obtain ⟨keep, hcurr⟩ := h.curr
  refine ⟨h.currSnap, hlast, h.curr_gen, by rw [hcurr], by rw [hcurr], fun i hi hv => ?_⟩
  rcases h.other i hi with heq | hf
  · rw [heq] at hv ⊢
    exact ⟨hv, rfl, rfl, rfl, rfl⟩
  · exact absurd (hv.symm.trans hf) (by decide)

/-! ## The device

The trees are those of the superblock in memory, over the blocks as the cache
has them. A change of the keys that passes no entry is allowed beside a change
of the trees. -/

/-- Sound trees are sound for a later generation. -/
theorem Sound.mono {t : Trees P} {K : KeyState} {es : List Type2Node} {g g' : ℕ}
    (h : Sound t K es g) (hg : g ≤ g') : Sound t K es g' :=
  { h with ordered := { h.ordered with gen_le := h.ordered.gen_le.trans hg } }

/-- The key state may change when no entry is passed, and the key of no address changes. -/
structure KeyState.Follows (K K' : KeyState) (es : List Type2Node) : Prop where
  /-- The current key is not an older one. -/
  currentKeyId : K.currentKeyId ≤ K'.currentKeyId
  /-- An entry that was not passed is not passed now. -/
  front : ∀ e ∈ es, e.lastKeyId ≤ K.currentKeyId →
    (K.rekeying = true → e.lastKeyId = K.previousKeyId → K.front ≤ e.lastVba) →
    K'.rekeying = true → e.lastKeyId = K'.previousKeyId → K'.front ≤ e.lastVba
  /-- What an address is read with does not change. -/
  keyId : ∀ v, K'.keyId v = K.keyId v

/-- The keys may stay. -/
theorem KeyState.Follows.refl (K : KeyState) (es : List Type2Node) : K.Follows K es where
  currentKeyId := le_rfl
  front _ _ _ h := h
  keyId _ := rfl

/-- Such a change keeps the trees sound. -/
theorem KeyState.Follows.sound {t : Trees P} {K K' : KeyState} {es : List Type2Node} {g : ℕ}
    (h : K.Follows K' es) (hs : Sound t K es g) : Sound t K' es g :=
  { hs with
    forest := hs.forest.keyState h.currentKeyId fun _ _ _ _ e he hg =>
      h.front e he hg.lastKey hg.front }

/-- It keeps what they store. -/
theorem KeyState.Follows.stored {t : Trees P} {K K' : KeyState} {es : List Type2Node}
    (h : K.Follows K' es) (i : SnapshotsIndex) (v : ℕ) : t.stored K' i v = t.stored K i v := by
  unfold Trees.stored
  rw [h.keyId]

/-- **The device is intact.** -/
structure Device.Intact (d : Device P) : Prop where
  /-- The trees are sound, with the stock of the free tree. -/
  sound : Sound (d.sb.trees d.store) d.sb.keyState d.free.entries d.ctl.currGen
  /-- None of their nodes has the invalid address. -/
  addressed : (d.sb.trees d.store).Addressed
  /-- The superblock is in order. -/
  order : d.sb.InOrder d.ctl.currGen

namespace Device

/-- **The sample device is intact.** -/
theorem sample_intact : sample.Intact where
  sound := sample_sound
  addressed := sample_addressed
  order := by
    refine ⟨by decide, by decide, by decide, by decide, by decide, by decide, ?_, ?_, ?_⟩
    all_goals exact fun hst => absurd hst (by decide)

/-- What the tree of a snapshot of the device stores. -/
def stored (d : Device P) (i : SnapshotsIndex) (v : ℕ) : Option P.Block :=
  (d.sb.trees d.store).stored d.sb.keyState i v

/-- **An action keeps what is stored**: the current snapshot stays in its slot, and those
that still count store what they stored. -/
structure Keeps (d d' : Device P) : Prop where
  /-- The current snapshot stays in its slot. -/
  currSnap : d'.sb.currSnap = d.sb.currSnap
  /-- It does not become older. -/
  gen_le : d.sb.curr.gen ≤ d'.sb.curr.gen
  /-- Every other one that counts did so before, with its generation. -/
  other : ∀ i, i ≠ d.sb.currSnap → (d'.sb.trees d'.store).Tracked i →
    (d.sb.trees d.store).Tracked i ∧ (d'.sb.snapshots i).gen = (d.sb.snapshots i).gen
  /-- What they store is the same. -/
  stored : ∀ i v, (d'.sb.trees d'.store).Tracked i → d'.stored i v = d.stored i v

variable {d d' : Device P} {sb' : Superblock}

/-- Nothing keeps everything. -/
theorem Keeps.refl (d : Device P) : d.Keeps d where
  currSnap := rfl
  gen_le := le_rfl
  other _ _ htr := ⟨htr, rfl⟩
  stored _ _ _ := rfl

/-- The current snapshot is valid. -/
theorem Intact.curr_valid (h : d.Intact) : d.sb.curr.valid = true := h.sound.ordered.valid

/-- It is not newer than the generation being written. -/
theorem Intact.curr_gen_le (h : d.Intact) : d.sb.curr.gen ≤ d.ctl.currGen := h.sound.ordered.gen_le

/-- **An action that stamps the table and secures it** keeps the device intact and what is
stored. -/
theorem Intact.stamped (h : d.Intact) (hlast : d.ctl.currGen < generationLast)
    (hst : d.sb.TableStamped sb' d.ctl.currGen)
    (hkeys : d.sb.keyState.Follows sb'.keyState d.free.entries)
    (hle : sb'.previousKey.id ≤ sb'.currentKey.id)
    (hne : sb'.state = .rekeying → sb'.previousKey.id ≠ sb'.currentKey.id)
    (hfront : sb'.state = .rekeying → sb'.rekeyingVba < d.sb.curr.nrOfLeafs)
    (skipPrevKey : Bool) :
    (d.secure skipPrevKey { d.ctl with sb := sb' }).Intact
      ∧ d.Keeps (d.secure skipPrevKey { d.ctl with sb := sb' }) := by
  have hthin := hst.thinned d.store h.curr_valid h.curr_gen_le
  have hmax : 0 < d.sb.curr.maxLevel := by
    have := h.order.maxLevel
    omega
  have hgen : sb'.curr.gen ≤ d.ctl.currGen := hst.curr_gen.le
  have hself : (sb'.snapshots d.sb.currSnap).gen ≤ d.ctl.currGen := by
    rw [← hst.currSnap]
    exact hgen
  have hsound : Sound (sb'.trees d.store) d.sb.keyState d.free.entries d.ctl.currGen :=
    hthin.sound h.sound hlast hmax hself
  have hnext : nextGeneration d.ctl.currGen = d.ctl.currGen + 1 := nextGeneration_of_lt hlast
  refine ⟨⟨?_, ?_, ?_⟩, ⟨hst.currSnap, ?_, ?_, ?_⟩⟩
  · show Sound (sb'.trees d.store) sb'.keyState d.free.entries (nextGeneration d.ctl.currGen)
    rw [hnext]
    exact (hkeys.sound hsound).mono (Nat.le_succ _)
  · exact hthin.addressed h.sound hlast h.addressed
  · show Superblock.InOrder _ (nextGeneration d.ctl.currGen)
    rw [hnext]
    have hst' : d.sb.TableStamped { sb' with lastSecuredGeneration := d.ctl.currGen }
        d.ctl.currGen := hst.congr rfl rfl rfl
    exact h.order.secured_order (hst'.secured rfl) hle hne hfront
  · exact h.curr_gen_le.trans_eq hst.curr_gen.symm
  · intro i hi htr
    obtain ⟨htr', heq⟩ := hthin.tracked hi htr
    exact ⟨htr', congrArg Snapshot.gen heq⟩
  · intro i v htr
    show (sb'.trees d.store).stored sb'.keyState i v = _
    rw [hkeys.stored]
    exact hthin.stored_eq h.sound hlast hmax htr v

/-! ### The securing actions

Each of them is a stamp of the table that is then secured: sync, a new snapshot,
a discard, and the beginning of a rekeying. -/

/-- **A sync.** -/
theorem Intact.sync (h : d.Intact) (hlast : d.ctl.currGen < generationLast) :
    (d.secure false (prepareSync d.ctl)).Intact ∧ d.Keeps (d.secure false (prepareSync d.ctl)) :=
  h.stamped hlast (.purgeAndStamp h.order.sparesCurrent h.curr_valid rfl rfl rfl
    fun _ _ => Or.inl rfl) (.refl _ _) h.order.keys_le h.order.keys_ne h.order.front false

/-- **A new snapshot.** -/
theorem Intact.createSnapshot (h : d.Intact) (hlast : d.ctl.currGen < generationLast) :
    (d.secure false (prepareCreateSnapshot d.ctl)).Intact
      ∧ d.Keeps (d.secure false (prepareCreateSnapshot d.ctl)) :=
  h.stamped hlast (.createSnapshot h.order.sparesCurrent h.curr_valid) (.refl _ _)
    h.order.keys_le h.order.keys_ne h.order.front false

/-- A discard of another snapshot than the current one stamps the table. -/
theorem Intact.discard_stamped (h : d.Intact) {gen : ℕ} {c : Control}
    (hc : prepareDiscardSnapshot d.ctl gen = some c)
    (hne : ∀ i, keptSlotForGen d.sb.snapshots gen = some i → i ≠ d.sb.currSnap) :
    d.sb.TableStamped c.sb d.ctl.currGen := by
  obtain ⟨i, hi, rfl⟩ := Option.map_eq_some_iff.mp hc
  have hcurr : Function.update d.sb.snapshots i { d.sb.snapshots i with valid := false }
      d.sb.currSnap = d.sb.curr := Function.update_of_ne (Ne.symm (hne i hi)) _ _
  have hst : d.sb.TableStamped (purgeAndStamp { d.sb with
      snapshots := Function.update d.sb.snapshots i { d.sb.snapshots i with valid := false } }
      d.ctl.currGen) d.ctl.currGen := by
    refine .purgeAndStamp ?_ ?_ rfl rfl hcurr fun j _ => ?_
    · have hspare := h.order.sparesCurrent
      unfold Superblock.SparesCurrent at hspare ⊢
      rw [← hcurr] at hspare
      exact hspare
    · exact (congrArg Snapshot.valid hcurr).trans h.curr_valid
    · show Function.update d.sb.snapshots i _ j = _
      ∨ (Function.update d.sb.snapshots i _ j).valid = _
      by_cases hji : j = i
      · rw [hji, Function.update_self]
        exact Or.inr rfl
      · exact Or.inl (Function.update_of_ne hji _ _)
  exact hst

/-- **A discard** of another snapshot than the current one. -/
theorem Intact.discardSnapshot (h : d.Intact) (hlast : d.ctl.currGen < generationLast)
    {gen : ℕ} {c : Control} (hc : prepareDiscardSnapshot d.ctl gen = some c)
    (hne : ∀ i, keptSlotForGen d.sb.snapshots gen = some i → i ≠ d.sb.currSnap) :
    (d.secure false c).Intact ∧ d.Keeps (d.secure false c) := by
  have hst := h.discard_stamped hc hne
  obtain ⟨i, hi, rfl⟩ := Option.map_eq_some_iff.mp hc
  exact h.stamped hlast hst (.refl _ _) h.order.keys_le h.order.keys_ne h.order.front false

/-- The beginning of a rekeying stamps the table. -/
theorem stamped_of_enterRekeying {sb : Superblock} {value : KeyValue}
    (h : superblockEnterRekeyingState d.sb value = some sb) (g : ℕ) :
    d.sb.TableStamped (sb.setCurrGen g) g := by
  obtain ⟨-, -, rfl⟩ := superblockEnterRekeyingState_spec h
  exact .setCurrGen rfl rfl rfl

/-- **The beginning of a rekeying.** -/
theorem Intact.initializeRekeying (h : d.Intact) (hlast : d.ctl.currGen < generationLast)
    {value : KeyValue} (hd : d.initializeRekeying value = some d') :
    d'.Intact ∧ d.Keeps d' := by
  obtain ⟨sb, hsb, rfl⟩ := initializeRekeying_spec hd
  have hst := stamped_of_enterRekeying hsb d.ctl.currGen
  obtain ⟨hstate, -, rfl⟩ := superblockEnterRekeyingState_spec hsb
  refine h.stamped hlast hst ⟨?_, ?_, ?_⟩ ?_ ?_ ?_ false
  · exact Nat.le_succ _
  · exact fun e _ _ _ _ _ => Nat.zero_le _
  · intro v
    have hnot : d.sb.keyState.rekeying = false := by
      unfold Superblock.keyState
      rw [hstate]
      rfl
    have hnew : d.sb.keyState.keyId v = d.sb.currentKey.id := by
      unfold KeyState.keyId
      rw [hnot, if_neg (by simp)]
      rfl
    rw [hnew]
    unfold KeyState.keyId
    rw [if_pos ⟨rfl, Nat.zero_le v⟩]
    rfl
  · exact Nat.le_succ _
  · exact fun _ => (Nat.lt_succ_self _).ne
  · exact fun _ => (h.sound.complete _ h.sound.tracked_cur).1

/-! ### A write

The first write of a generation puts the current snapshot, with its new root,
into a free slot, and the old one stays as it is; the writes after it change the
snapshot in its slot. -/

/-- **What a write leaves** of the superblock: the current snapshot has the current
generation, in the slot at hand or in a new one. -/
structure Wrote (d d' : Device P) (slot : SnapshotsIndex) : Prop where
  /-- The slot is the one that a write takes. -/
  found : writtenSlot d.sb d.ctl.currGen = some slot
  /-- The current snapshot is in this slot. -/
  currSnap : d'.sb.currSnap = slot
  /-- The other slots are as before. -/
  other : ∀ i, i ≠ slot → d'.sb.snapshots i = d.sb.snapshots i
  /-- It is as valid as it was. -/
  valid : d'.sb.curr.valid = d.sb.curr.valid
  /-- It has the generation at hand. -/
  gen : d'.sb.curr.gen = d.ctl.currGen
  /-- It has the height of the one before. -/
  maxLevel : d'.sb.curr.maxLevel = d.sb.curr.maxLevel
  /-- It has as many leaves. -/
  nrOfLeafs : d'.sb.curr.nrOfLeafs = d.sb.curr.nrOfLeafs
  /-- The generation at hand is the same. -/
  currGen : d'.ctl.currGen = d.ctl.currGen
  /-- So is the last secured one. -/
  lastSecured : d'.sb.lastSecuredGeneration = d.sb.lastSecuredGeneration
  /-- So is the state of the superblock. -/
  state : d'.sb.state = d.sb.state
  /-- A rekeying has got as far as before. -/
  rekeyingVba : d'.sb.rekeyingVba = d.sb.rekeyingVba
  /-- The keys are the same. -/
  keys : d'.sb.currentKey = d.sb.currentKey ∧ d'.sb.previousKey = d.sb.previousKey

/-- A write that succeeds has this outcome. -/
theorem wrote {vba : ℕ} {data : P.Block} {mt : MetaTree} (hd : d.write vba data mt = some d') :
    ∃ slot, d.Wrote d' slot := by
  obtain ⟨res, hres, rfl⟩ := write_spec hd
  obtain ⟨walk, alloc, s', hash, slot, -, -, -, -, hslot, rfl⟩ := writeVba_spec hres
  refine ⟨slot, hslot, rfl, fun i hi => Function.update_of_ne hi _ _, ?_, ?_, ?_, ?_, rfl, rfl, rfl,
    rfl, rfl, rfl⟩
  all_goals exact (congrArg _ (Superblock.putCurr_snapshots_self _ slot _)).trans rfl

namespace Wrote

variable {slot : SnapshotsIndex}

/-- The other valid snapshots are older. -/
theorem gen_lt (hw : d.Wrote d' slot) (h : d.Intact) {i : SnapshotsIndex} (hi : i ≠ slot)
    (hv : (d'.sb.snapshots i).valid = true) : (d'.sb.snapshots i).gen < d.ctl.currGen := by
  rw [hw.other i hi] at hv ⊢
  exact gen_lt_of_ne_writtenSlot h.sound.ordered hw.found hi hv

/-- The trees are in order after it. -/
theorem ordered (hw : d.Wrote d' slot) (h : d.Intact) :
    (d'.sb.trees d'.store).Ordered d.ctl.currGen where
  valid := hw.valid.trans h.curr_valid
  gen_lt i hi hv := by
    refine (hw.gen_lt h ?_ hv).trans_eq hw.gen.symm
    rw [← hw.currSnap]
    exact hi
  gen_le := hw.gen.le
  gen_injOn i j hi hj heq := by
    have hself : (d'.sb.snapshots slot).gen = d.ctl.currGen := by
      rw [← hw.currSnap]
      exact hw.gen
    by_cases his : i = slot
    · by_cases hjs : j = slot
      · rw [his, hjs]
      · rw [his] at heq
        exact absurd (heq.symm.trans hself) (hw.gen_lt h hjs hj).ne
    · by_cases hjs : j = slot
      · rw [hjs] at heq
        exact absurd (heq.trans hself) (hw.gen_lt h his hi).ne
      · have heq' : (d'.sb.snapshots i).gen = (d'.sb.snapshots j).gen := heq
        rw [hw.other i his, hw.other j hjs] at heq'
        exact h.sound.ordered.gen_injOn i j
          ((congrArg Snapshot.valid (hw.other i his)).symm.trans hi)
          ((congrArg Snapshot.valid (hw.other j hjs)).symm.trans hj) heq'

/-- So is the superblock. -/
theorem order (hw : d.Wrote d' slot) (h : d.Intact) : d'.sb.InOrder d'.ctl.currGen where
  lastSecured_lt := by
    rw [hw.lastSecured, hw.currGen]
    exact h.order.lastSecured_lt
  curr_gen := Or.inr (hw.gen.trans hw.currGen.symm)
  maxLevel := hw.maxLevel.symm ▸ h.order.maxLevel
  size i hv := by
    rw [hw.maxLevel, hw.nrOfLeafs]
    by_cases hi : i = slot
    · rw [hi, ← hw.currSnap]
      exact ⟨hw.maxLevel, hw.nrOfLeafs⟩
    · rw [hw.other i hi] at hv ⊢
      exact h.order.size i hv
  unkept i hv h0 := by
    by_cases hi : i = slot
    · rw [hi, ← hw.currSnap] at h0
      exact absurd (hw.gen.symm.trans h0) h.order.currGen_ne_zero
    · rw [hw.other i hi] at hv h0 ⊢
      exact h.order.unkept i hv h0
  keys_le := by
    rw [hw.keys.1, hw.keys.2]
    exact h.order.keys_le
  keys_ne := by
    rw [hw.keys.1, hw.keys.2, hw.state]
    exact h.order.keys_ne
  front := by
    rw [hw.state, hw.rekeyingVba, hw.nrOfLeafs]
    exact h.order.front
  secured := by
    rw [hw.state, hw.lastSecured]
    exact h.order.secured

/-- A write does not touch the keys. -/
theorem keyState (hw : d.Wrote d' slot) : d'.sb.keyState = d.sb.keyState := by
  unfold Superblock.keyState
  rw [hw.state, hw.rekeyingVba, hw.keys.1, hw.keys.2]

end Wrote

/-- **A write is a new path** of the current tree, with the encrypted data at its end. -/
theorem Intact.write_path (h : d.Intact) (hlast : d.ctl.currGen < generationLast) {vba : ℕ}
    {data : P.Block} {mt : MetaTree}
    (hfront : d.sb.state = .rekeying → d.sb.rekeyingVba = 0 ∨ vba < d.sb.rekeyingVba)
    (hd : d.write vba data mt = some d') :
    vba < d.sb.curr.nrOfLeafs
      ∧ ∃ walk newPbas, CurrentPath (d.sb.trees d.store) (d'.sb.trees d'.store) d.sb.keyState vba 0
          (writtenNode d'.store d.ctl.currGen newPbas) (scdRequest d.sb d.ctl.currGen walk vba)
          (scdLevels walk d.sb.curr.maxLevel d.ctl.currGen) newPbas d.free.entries d'.free.entries
        ∧ d'.store.blocks (newPbas 0) = P.encrypt d.sb.currentKey.id data := by
  obtain ⟨res, hres, rfl⟩ := write_spec hd
  obtain ⟨_, _, _, _, _, hvba, -⟩ := writeVba_spec hres
  have hpres := h.sound.present h.sound.tracked_cur hvba (Nat.zero_le _)
  obtain ⟨walk, newPbas, hpath, hleaf, -⟩ := writeVba_path h.sound.admitted h.sound.ordered hlast
    h.sound.forest (fun hst => (h.order.keys_ne hst).symm) h.order.keys_le hfront hpres
    mt.pba_ne_zero hres
  exact ⟨hvba, walk, newPbas, hpath, hleaf⟩

/-- **A write keeps the device intact.** -/
theorem Intact.write (h : d.Intact) (hlast : d.ctl.currGen < generationLast) {vba : ℕ}
    {data : P.Block} {mt : MetaTree}
    (hfront : d.sb.state = .rekeying → d.sb.rekeyingVba = 0 ∨ vba < d.sb.rekeyingVba)
    (hd : d.write vba data mt = some d') : d'.Intact := by
  obtain ⟨slot, hw⟩ := wrote hd
  obtain ⟨-, walk, newPbas, hpath, -⟩ := h.write_path hlast hfront hd
  refine ⟨?_, hpath.addressed h.sound.forest h.addressed, hw.order h⟩
  rw [hw.keyState, hw.currGen]
  refine hpath.sound h.sound (hw.ordered h) hw.nrOfLeafs (fun _ => ?_) fun l _ _ => rfl
  exact h.order.currGen_ne_zero

/-! ### A rekeying step

The step purges the table, rekeys the address in every snapshot that is left,
advances the rekeying and secures. Purging and securing thin the table; in
between is the rekeying of the trees. -/

/-- The trees as the rekeying module finds them after its purge. -/
def purgedTrees (d : Device P) : Trees P :=
  { d.sb.trees d.store with snaps := purgedSnapshots d.ctl }

/-- The purge spares the current snapshot. -/
theorem Intact.purged_curr (h : d.Intact) : purgedSnapshots d.ctl d.sb.currSnap = d.sb.curr :=
  discardDisposableSnapshots_curr h.order.sparesCurrent h.curr_valid

/-- **The purge** thins the table. -/
theorem Intact.thinned_purged (h : d.Intact) :
    Trees.Thinned (d.sb.trees d.store) d.purgedTrees where
  store := rfl
  degree := rfl
  cur := rfl
  valid := h.curr_valid
  valid' := (congrArg Snapshot.valid h.purged_curr).trans h.curr_valid
  other i _ hv := (discardDisposableSnapshots_or _ _ _ i).resolve_right fun hf => by
    exact absurd (hv.symm.trans hf) (by decide)
  pba := (congrArg Snapshot.pba h.purged_curr).trans rfl
  hash := (congrArg Snapshot.hash h.purged_curr).trans rfl
  maxLevel := (congrArg Snapshot.maxLevel h.purged_curr).trans rfl
  nrOfLeafs := (congrArg Snapshot.nrOfLeafs h.purged_curr).trans rfl
  gen_le := (congrArg Snapshot.gen h.purged_curr).symm.le

/-- What is valid after the purge counts, and has the size of the current snapshot. -/
theorem Intact.tracked_purged (h : d.Intact) (hst : d.sb.state = .rekeying) {i : SnapshotsIndex}
    (hv : (purgedSnapshots d.ctl i).valid = true) : d.purgedTrees.Tracked i := by
  refine ⟨hv, ?_⟩
  by_contra hnot
  rw [not_or, not_not] at hnot
  have hgen : (d.sb.snapshots i).gen = 0 :=
    (discardDisposableSnapshots_gen _ _ _ i).symm.trans hnot.2
  obtain ⟨hv', hkeep | hcg | hls⟩ := (discardDisposableSnapshots_valid_iff _ _ _ i).mp hv
  · exact absurd (hkeep.symm.trans (h.order.unkept i hv' hgen)) (by decide)
  · exact h.order.currGen_ne_zero (hcg.symm.trans hgen)
  · exact h.order.secured hst (hls.symm.trans hgen)

/-- What is valid after the purge has the size of the current snapshot. -/
theorem Intact.size_purged (h : d.Intact) {i : SnapshotsIndex}
    (hv : (purgedSnapshots d.ctl i).valid = true) :
    (purgedSnapshots d.ctl i).maxLevel = d.sb.curr.maxLevel
      ∧ (purgedSnapshots d.ctl i).nrOfLeafs = d.sb.curr.nrOfLeafs := by
  have heq : purgedSnapshots d.ctl i = d.sb.snapshots i :=
    (discardDisposableSnapshots_or _ _ _ i).resolve_right fun hf => by
      exact absurd (hv.symm.trans hf) (by decide)
  rw [heq] at hv ⊢
  exact h.order.size i hv

/-- **A rekeying step begins in order.** -/
theorem Intact.rekeyingSetup (h : d.Intact) (hlast : d.ctl.currGen < generationLast)
    (hst : d.sb.state = .rekeying) :
    RekeyingSetup d.purgedTrees d.sb.keyState d.sb.rekeyingVba d.ctl.currGen d.allocContext
      d.free.entries where
  sound := by
    have hmax := h.order.maxLevel
    refine h.thinned_purged.sound h.sound hlast (show 0 < d.sb.curr.maxLevel by omega) ?_
    exact (congrArg Snapshot.gen h.purged_curr).trans_le h.curr_gen_le
  rekeying := by
    show decide _ = true
    rw [hst]
    rfl
  front := rfl
  key_ne := h.order.keys_ne hst
  key_le := h.order.keys_le
  active i hi := by
    have heq : purgedSnapshots d.ctl i = d.sb.snapshots i :=
      (discardDisposableSnapshots_or _ _ _ i).resolve_right fun hf => by
        exact absurd (hi.1.symm.trans hf) (by decide)
    have hv := hi.1
    show (d.sb.snapshots i).valid = true ∧ _ = (purgedSnapshots d.ctl i).gen
    rw [heq]
    refine ⟨?_, rfl⟩
    rw [← heq]
    exact hv
  lastSecured := h.order.lastSecured_lt
  last := hlast
  maxLevel i hi := (h.size_purged hi.1).1.symm ▸ h.order.maxLevel
  tracked i hv := h.tracked_purged hst hv
  contains := by
    show _ < (purgedSnapshots d.ctl d.sb.currSnap).nrOfLeafs
    rw [h.purged_curr]
    exact h.order.front hst

/-- **A rekeying step takes every snapshot.** -/
theorem Intact.rekeyed_complete (h : d.Intact) (hlast : d.ctl.currGen < generationLast)
    (hst : d.sb.state = .rekeying) {mt : MetaTree} {ws : Workspace P} {job : RekeyingJob P}
    (hrun : executeRekeyVbaInVbd d.allocContext (d.workspace mt)
      (submitRekeying d.rkg d.sb d.ctl.currGen) = some (ws, job)) :
    ∃ done new out, Rekeyed.Complete d.purgedTrees (rekeyingResult d.purgedTrees ws job)
      d.sb.keyState d.sb.rekeyingVba d.ctl.currGen done new out
      (rekeyUsable d.allocContext d.sb.keyState d.sb.rekeyingVba) d.free.entries
      ws.pools.freeTree.entries := by
  have hset := h.rekeyingSetup hlast hst
  obtain ⟨done, new, out, hR, hD, hdone⟩ := executeRekeyVbaInVbd_rekeyed hset rfl rfl
    ⟨rfl, rfl, rfl, rfl, rfl⟩ mt.pba_ne_zero hrun
  refine ⟨done, new, out, hset.sound, hR, hset.unowned, hD, fun i hi => (hdone i).mpr ⟨hi, ?_⟩⟩
  show _ < (purgedSnapshots d.ctl i).nrOfLeafs
  rw [(h.size_purged hi.1).2]
  exact h.order.front hst

end Device

/-- **What a rekeying step leaves** to be secured. -/
structure RekeyingDone (d : Device P) (mt : MetaTree) (ws : Workspace P) (job : RekeyingJob P)
    (sb' : Superblock) (more : Bool) : Prop where
  /-- A rekeying was in progress. -/
  rekeying : d.sb.state = .rekeying
  /-- The rekeying module has completed. -/
  run : executeRekeyVbaInVbd d.allocContext (d.workspace mt)
    (submitRekeying d.rkg d.sb d.ctl.currGen) = some (ws, job)
  /-- There is more to do, unless this was the last address. -/
  more_iff : more = true ↔ d.sb.rekeyingVba < maxNrOfLeafs job.snapshots - 1
  /-- The current snapshot stays in its slot. -/
  currSnap : sb'.currSnap = d.sb.currSnap
  /-- The degree is the same. -/
  degree : sb'.degree = d.sb.degree
  /-- The snapshots are those of the job, the current one stamped. -/
  snapshots : sb'.snapshots = Function.update job.snapshots d.sb.currSnap
    { job.snapshots d.sb.currSnap with gen := d.ctl.currGen }
  /-- The rekeying goes on as long as there is more to do. -/
  state : sb'.state = if more = true then .rekeying else .normal
  /-- The new key stays. -/
  currentKey : sb'.currentKey = d.sb.currentKey
  /-- The old key stays as long as there is more to do. -/
  previousKey : sb'.previousKey = if more = true then d.sb.previousKey else keyInvalid
  /-- The next address is next. -/
  front : more = true → sb'.rekeyingVba = d.sb.rekeyingVba + 1

/-- A rekeying step that succeeds has this outcome. -/
theorem Device.rekeyVba_done {d d' : Device P} {mt : MetaTree} (h : d.rekeyVba mt = some d') :
    ∃ ws job sb' more, RekeyingDone d mt ws job sb' more
      ∧ d' = (d.withWorkspace ws job).secure (!more) { d.ctl with sb := sb' } := by
  obtain ⟨hst, ws, job, sb, more, hrun, hcomp, rfl⟩ := rekeyVba_spec h
  obtain ⟨hmore, rfl⟩ := rekeyVbaInVbdCompleted_spec hcomp
  refine ⟨ws, job, _, more, ?_, rfl⟩
  have hst' : ((rootsOf ws mt).apply d.sb).state = .rekeying := hst
  cases more with
  | true => exact ⟨hst, hrun, hmore, rfl, rfl, rfl, hst', rfl, rfl, fun _ => rfl⟩
  | false =>
    exact ⟨hst, hrun, hmore, rfl, rfl, rfl, rfl, rfl, rfl, fun hm => absurd hm (by decide)⟩

namespace RekeyingDone

variable {d : Device P} {mt : MetaTree} {ws : Workspace P} {job : RekeyingJob P}
  {sb' : Superblock} {more : Bool}

/-- The table is the purged one with new roots. -/
theorem relocated (hr : RekeyingDone d mt ws job sb' more) :
    Relocated (purgedSnapshots d.ctl) job.snapshots := executeRekeyVbaInVbd_relocated hr.run

/-- The current snapshot is stamped. -/
theorem self (hr : RekeyingDone d mt ws job sb' more) : sb'.snapshots d.sb.currSnap
    = { job.snapshots d.sb.currSnap with gen := d.ctl.currGen } := by
  rw [hr.snapshots, Function.update_self]

/-- The other snapshots are those of the module. -/
theorem other (hr : RekeyingDone d mt ws job sb' more) {i : SnapshotsIndex}
    (hi : i ≠ d.sb.currSnap) : sb'.snapshots i = job.snapshots i := by
  rw [hr.snapshots, Function.update_of_ne hi]

/-- Whether addresses are left. -/
theorem left_iff (hr : RekeyingDone d mt ws job sb' more) (h : d.Intact) :
    more = true ↔ d.sb.rekeyingVba < d.sb.curr.nrOfLeafs - 1 := by
  have hrel := hr.relocated
  have hmax : maxNrOfLeafs job.snapshots = d.sb.curr.nrOfLeafs := by
    refine maxNrOfLeafs_eq (i := d.sb.currSnap) ?_ ?_ fun j hj => ?_
    · rw [hrel.valid, h.purged_curr]
      exact h.curr_valid
    · rw [hrel.nrOfLeafs, h.purged_curr]
    · rw [hrel.valid] at hj
      rw [hrel.nrOfLeafs, (h.size_purged hj).2]
  rw [hr.more_iff, hmax]

/-- The rekeying has gone on, or has come to its end. -/
theorem advanced (hr : RekeyingDone d mt ws job sb' more) :
    d.sb.keyState.Advanced sb'.keyState d.sb.rekeyingVba := by
  have hstate := hr.state
  have hprev := hr.previousKey
  cases more with
  | true =>
    exact ⟨congrArg Key.id hr.currentKey, fun _ => congrArg Key.id hprev, fun _ => hr.front rfl⟩
  | false =>
    have hnot : sb'.keyState.rekeying ≠ true := by
      intro hrk
      exact absurd ((of_decide_eq_true hrk).symm.trans hstate) (by decide)
    exact ⟨congrArg Key.id hr.currentKey, fun h => absurd h hnot, fun h => absurd h hnot⟩

/-- When it has come to its end no address is left. -/
theorem last (hr : RekeyingDone d mt ws job sb' more) (h : d.Intact)
    (hend : sb'.keyState.rekeying = false) : d.sb.curr.nrOfLeafs ≤ d.sb.rekeyingVba + 1 := by
  have hnot : ¬ more = true := by
    intro hm
    have hstate := hr.state
    rw [if_pos hm] at hstate
    exact of_decide_eq_false hend hstate
  rw [hr.left_iff h] at hnot
  omega

/-- **Securing** stamps the table that the rekeying module hands back. -/
theorem thinned (hr : RekeyingDone d mt ws job sb' more) (h : d.Intact) :
    Trees.Thinned (rekeyingResult d.purgedTrees ws job) (sb'.trees ws.store) := by
  have hrel := hr.relocated
  have hvalid : (job.snapshots d.sb.currSnap).valid = true := by
    rw [hrel.valid, h.purged_curr]
    exact h.curr_valid
  exact {
    store := rfl
    degree := hr.degree
    cur := hr.currSnap
    valid := hvalid
    valid' := (congrArg Snapshot.valid hr.self).trans hvalid
    other := fun i hi _ => hr.other hi
    pba := (congrArg Snapshot.pba hr.self).trans rfl
    hash := (congrArg Snapshot.hash hr.self).trans rfl
    maxLevel := (congrArg Snapshot.maxLevel hr.self).trans rfl
    nrOfLeafs := (congrArg Snapshot.nrOfLeafs hr.self).trans rfl
    gen_le := by
      show (job.snapshots d.sb.currSnap).gen ≤ (sb'.snapshots d.sb.currSnap).gen
      rw [hr.self, hrel.gen, h.purged_curr]
      exact h.curr_gen_le }

/-- **The secured superblock.** -/
theorem secured (hr : RekeyingDone d mt ws job sb' more) (h : d.Intact) {sb : Superblock}
    (hcurr : sb.currSnap = sb'.currSnap) (hsnaps : sb.snapshots = sb'.snapshots)
    (hlast : sb.lastSecuredGeneration = d.ctl.currGen) : d.sb.Secured sb d.ctl.currGen := by
  have hrel := hr.relocated
  have hself : sb.curr = { job.snapshots d.sb.currSnap with gen := d.ctl.currGen } := by
    unfold Superblock.curr
    rw [hsnaps, hcurr, hr.currSnap, hr.self]
  refine ⟨hcurr.trans hr.currSnap, hlast, by rw [hself], ?_, ?_, fun i hi hv => ?_⟩
  · rw [hself]
    show (job.snapshots d.sb.currSnap).maxLevel = _
    rw [hrel.maxLevel, h.purged_curr]
  · rw [hself]
    show (job.snapshots d.sb.currSnap).nrOfLeafs = _
    rw [hrel.nrOfLeafs, h.purged_curr]
  · have heq : sb.snapshots i = job.snapshots i := by rw [hsnaps, hr.other hi]
    have hp : purgedSnapshots d.ctl i = d.sb.snapshots i := by
      refine (discardDisposableSnapshots_or _ _ _ i).resolve_right fun hf => ?_
      rw [heq, hrel.valid] at hv
      exact absurd (hv.symm.trans hf) (by decide)
    rw [heq] at hv ⊢
    rw [hrel.valid, hp] at hv
    rw [hrel.gen, hrel.keep, hrel.maxLevel, hrel.nrOfLeafs, hp]
    exact ⟨hv, rfl, rfl, rfl, rfl⟩

/-- The tree has a level above its leaves. -/
theorem maxLevel_pos (hr : RekeyingDone d mt ws job sb' more) (h : d.Intact) :
    0 < (job.snapshots d.sb.currSnap).maxLevel := by
  rw [hr.relocated.maxLevel, h.purged_curr]
  have := h.order.maxLevel
  omega

end RekeyingDone

namespace Device

variable {d d' : Device P}

/-- **A rekeying step keeps the device intact**, and what is stored. -/
theorem Intact.rekeyVba (h : d.Intact) (hlast : d.ctl.currGen < generationLast) {mt : MetaTree}
    (hd : d.rekeyVba mt = some d') : d'.Intact ∧ d.Keeps d' := by
  obtain ⟨ws, job, sb', more, hr, rfl⟩ := rekeyVba_done hd
  obtain ⟨done, new, out, hC⟩ := h.rekeyed_complete hlast hr.rekeying hr.run
  have hset := h.rekeyingSetup hlast hr.rekeying
  have hthin := hr.thinned h
  have hmax := hr.maxLevel_pos h
  have hsound := hC.sound_after hr.advanced hset.rekeying rfl
  have hsound' := hthin.sound hsound hlast hmax (congrArg Snapshot.gen hr.self).le
  have hnext : nextGeneration d.ctl.currGen = d.ctl.currGen + 1 := nextGeneration_of_lt hlast
  refine ⟨⟨?_, ?_, ?_⟩, ⟨hr.currSnap, ?_, fun i hi htr => ?_, fun i v htr => ?_⟩⟩
  · show Sound (sb'.trees ws.store) sb'.keyState ws.pools.freeTree.entries
      (nextGeneration d.ctl.currGen)
    rw [hnext]
    exact hsound'.mono (Nat.le_succ _)
  · exact hthin.addressed hsound hlast
      (hC.addressed (fun e hu => hu.2.1) (h.thinned_purged.addressed h.sound hlast h.addressed))
  · show Superblock.InOrder _ (nextGeneration d.ctl.currGen)
    rw [hnext]
    have hsec : d.sb.Secured { sb' with lastSecuredGeneration := d.ctl.currGen } d.ctl.currGen :=
      hr.secured h rfl rfl rfl
    have hmore : sb'.state = .rekeying → more = true := by
      intro hst
      have hstate := hr.state
      by_contra hm
      rw [if_neg hm] at hstate
      exact absurd (hst.symm.trans hstate) (by decide)
    refine h.order.secured_order hsec ?_ (fun hst => ?_) fun hst => ?_
    · show sb'.previousKey.id ≤ sb'.currentKey.id
      rw [hr.previousKey, hr.currentKey]
      split_ifs
      · exact h.order.keys_le
      · exact Nat.zero_le _
    · show sb'.previousKey.id ≠ sb'.currentKey.id
      rw [hr.previousKey, hr.currentKey, if_pos (hmore hst)]
      exact h.order.keys_ne hr.rekeying
    · show sb'.rekeyingVba < _
      have hlt := (hr.left_iff h).mp (hmore hst)
      rw [hr.front (hmore hst)]
      omega
  · show _ ≤ (sb'.snapshots sb'.currSnap).gen
    rw [hr.currSnap, hr.self]
    exact h.curr_gen_le
  · obtain ⟨htr', heq⟩ := hthin.tracked hi htr
    obtain ⟨htr'', heq'⟩ := h.thinned_purged.tracked hi (hC.rekeyed.tracked_iff.mp htr')
    refine ⟨htr'', (congrArg Snapshot.gen heq).trans ?_⟩
    show (job.snapshots i).gen = _
    rw [hr.relocated.gen]
    exact congrArg Snapshot.gen heq'
  · have htr' := hC.rekeyed.tracked_iff.mp (hthin.tracked_of_tracked htr)
    show (sb'.trees ws.store).stored sb'.keyState i v = _
    rw [hthin.stored_eq hsound hlast hmax htr v,
      hC.stored_eq hr.advanced hset.rekeying rfl htr' fun hend => ?_]
    · have hmax' := h.order.maxLevel
      exact h.thinned_purged.stored_eq h.sound hlast (show 0 < d.sb.curr.maxLevel by omega) htr' v
    · exact (h.size_purged htr'.1).2.trans_le (hr.last h hend)

/-! ### Runs

The actions are put together, and the run lemma follows by induction. -/

/-- **The condition on an action** in the state before it: a write while the device is
rekeyed does not overtake the rekeying, a discard does not name the current snapshot, no
tree is extended, the library is not restarted, and the generations are not used up. -/
def InPlace (d : Device P) (a : Action P) : Prop :=
  (match a with
    | .write vba _ _ => d.sb.state = .rekeying → d.sb.rekeyingVba = 0 ∨ vba < d.sb.rekeyingVba
    | .discardSnapshot gen => ∀ i, keptSlotForGen d.sb.snapshots gen = some i → i ≠ d.sb.currSnap
    | .vbdExtensionStep _ _ | .ftExtensionStep _ _ | .restart _ _ => False
    | _ => True)
    ∧ d.ctl.currGen < generationLast

instance (d : Device P) : (a : Action P) → Decidable (d.InPlace a)
  | .write _ _ _ => inferInstanceAs (Decidable ((_ → _ ∨ _) ∧ _))
  | .discardSnapshot gen => inferInstanceAs (Decidable
      ((∀ i, keptSlotForGen d.sb.snapshots gen = some i → i ≠ d.sb.currSnap) ∧ _))
  | .vbdExtensionStep _ _ | .ftExtensionStep _ _ | .restart _ _ =>
    inferInstanceAs (Decidable (False ∧ _))
  | .sync | .createSnapshot | .initializeRekeying _ | .rekeyVba _ =>
    inferInstanceAs (Decidable (True ∧ _))

/-- **What an action other than a write does.** -/
theorem Intact.step_other (h : d.Intact) {a : Action P} (hC : d.InPlace a)
    (ha : ∀ vba data mt, a ≠ .write vba data mt) (hstep : d.step a = some d') :
    d'.Intact ∧ d.Keeps d' := by
  obtain ⟨hC, hlast⟩ := hC
  cases a with
  | write vba data mt => exact absurd rfl (ha vba data mt)
  | sync =>
    obtain rfl := Option.some.inj hstep
    exact h.sync hlast
  | createSnapshot =>
    obtain rfl := Option.some.inj hstep
    exact h.createSnapshot hlast
  | discardSnapshot gen =>
    unfold step at hstep
    dsimp only at hstep
    cases hc : prepareDiscardSnapshot d.ctl gen with
    | some c =>
      rw [hc] at hstep
      obtain rfl := Option.some.inj hstep
      exact h.discardSnapshot hlast hc hC
    | none =>
      rw [hc] at hstep
      obtain rfl := Option.some.inj hstep
      exact ⟨h, .refl d⟩
  | initializeRekeying value => exact h.initializeRekeying hlast hstep
  | rekeyVba mt => exact h.rekeyVba hlast hstep
  | vbdExtensionStep | ftExtensionStep | restart => exact hC.elim

/-- **Every action in place keeps the device intact.** -/
theorem Intact.step (h : d.Intact) {a : Action P} (hC : d.InPlace a)
    (hstep : d.step a = some d') : d'.Intact := by
  cases a with
  | write vba data mt => exact h.write hC.2 hC.1 hstep
  | _ => exact (h.step_other hC (by simp) hstep).1

/-- **So does a run of them.** -/
theorem Intact.run (h : d.Intact) (hrun : Device.Run InPlace d d') : d'.Intact :=
  hrun.invariant (I := Intact) (fun _ _ _ hI hC hstep => hI.step hC hstep) h

/-- **The trees stay intact over whole runs**: in every state that a run of actions in
place reaches from an intact device, no block is at two places or at one that is needed and
in the stock for use, every block that is needed has the hash that its entry records, and
the superblock is in order. -/
theorem intact_of_run (hrun : Device.Run InPlace d d') (h : d.Intact) : d'.Intact := h.run hrun

/-- A meta tree that hands out eleven blocks. -/
def sampleMeta : MetaTree where
  pbas := [5, 6, 7, 40, 41, 42, 43, 44, 45, 46, 47]
  root := { pba := 30, gen := 1, hash := 0 }
  pba_ne_zero := by decide

/-- A block with one number in it. -/
def sampleBlock (n : ℕ) : Platform.sample.Block := (fun _ => type1NodeInvalid, [n])

/-- Writes, a snapshot and a whole rekeying of the sample device. -/
def sampleRekeying : List (Action Platform.sample) :=
  [.sync, .write 0 (sampleBlock 7) sampleMeta, .createSnapshot,
    .write 1 (sampleBlock 8) sampleMeta, .initializeRekeying 3, .rekeyVba sampleMeta,
    .write 0 (sampleBlock 9) sampleMeta, .rekeyVba sampleMeta, .discardSnapshot 2]

/-- The sample run keeps the sample device intact. -/
theorem intact_of_run_sample :
    (Runs.after Device.step InPlace sample sampleRekeying).Intact :=
  intact_of_run (Runs.Run.after (by decide +kernel)) sample_intact

end Device

end Cbe
