import Cbe.IntactDevice

/-!
# What a rekeying does to the device

A rekeying step takes the leaf of its address in every snapshot, also in those
that are kept: each one that was written is there in a new block, under the new
key, and snapshots that shared the block share the new one
(`Device.rekeys_of_step`). The steps go through the addresses one after the
other, whatever is served in between, so a rekeying comes to its end with as
many steps as there are addresses, and leaves the old key behind
(`Device.rekeying_of_run`).

The first part is about one step. It is put together from what the branches of
the step do, each of which takes one snapshot (`Cbe.RekeyingLoop`). The step
begins with a purge of the snapshots that are disposable, so the trees after it
are compared with the purged ones, and these are some of those before with the
same sizes and nodes.

The second part only counts. What happens to the superblock between two steps
leaves the address at which the rekeying goes on, the keys and the number of
leaves (`SameJob`), and a step moves the address by one or ends the rekeying
(`Advances`).
-/

namespace Cbe

variable {P : Platform}

namespace Trees.Thinned

variable {t t' : Trees P} {i : SnapshotsIndex} {v l : ℕ}

/-- A tree that still counts has the height it had. -/
theorem maxLevel_eq (h : Trees.Thinned t t') (hi : t'.Tracked i) :
    (t'.snaps i).maxLevel = (t.snaps i).maxLevel := by
  by_cases hc : i = t.cur
  · rw [hc]
    exact h.maxLevel
  · rw [(h.tracked hc hi).2]

/-- It has the leaves it had. -/
theorem nrOfLeafs_eq (h : Trees.Thinned t t') (hi : t'.Tracked i) :
    (t'.snaps i).nrOfLeafs = (t.snaps i).nrOfLeafs := by
  by_cases hc : i = t.cur
  · rw [hc]
    exact h.nrOfLeafs
  · rw [(h.tracked hc hi).2]

/-- Below the root a thinned table has the nodes that it had. -/
theorem node_eq (h : Trees.Thinned t t') (hi : t'.Tracked i) (hl : l < (t.snaps i).maxLevel) :
    t'.node i v l = t.node i v l := by
  unfold Trees.node nodeAt
  rw [h.store, h.degree, h.maxLevel_eq hi]
  refine RadixTree.entryAt_root_congr ?_ hl
  by_cases hc : i = t.cur
  · rw [hc]
    exact h.pba
  · rw [(h.tracked hc hi).2]

end Trees.Thinned

namespace Device

variable {d d' : Device P} {i j : SnapshotsIndex} {v : ℕ}

/-- The entry for a leaf of a snapshot. -/
def leaf (d : Device P) (i : SnapshotsIndex) (v : ℕ) : Type1Node := (d.sb.trees d.store).node i v 0

/-- The block of a leaf. -/
def leafBlock (d : Device P) (i : SnapshotsIndex) (v : ℕ) : P.Block :=
  d.store.blocks (d.leaf i v).pba

/-- **Every snapshot is rekeyed** at an address: what was written there is in a new block
under the new key, the other leaves are as they were, and the snapshots share their leaves
as before. -/
structure Rekeys (d d' : Device P) (r : ℕ) : Prop where
  /-- The hashes are right. -/
  hashed : (d'.sb.trees d'.store).Hashed
  /-- A snapshot that counts did so before, and contains the address. -/
  tracked : ∀ i, (d'.sb.trees d'.store).Tracked i → (d.sb.trees d.store).Tracked i
    ∧ (d'.sb.snapshots i).nrOfLeafs = (d.sb.snapshots i).nrOfLeafs
    ∧ r < (d.sb.snapshots i).nrOfLeafs
  /-- What was written stays written. -/
  gen : ∀ i v, (d'.sb.trees d'.store).Tracked i → v < (d.sb.snapshots i).nrOfLeafs →
    (d'.leaf i v).gen = (d.leaf i v).gen
  /-- The leaves of other addresses are as they were. -/
  other : ∀ i v, (d'.sb.trees d'.store).Tracked i → v < (d.sb.snapshots i).nrOfLeafs → v ≠ r →
    d'.leaf i v = d.leaf i v
  /-- The data at the address is encrypted with the new key. -/
  data : ∀ i v, (d'.sb.trees d'.store).Tracked i → v < (d.sb.snapshots i).nrOfLeafs →
    (d.leaf i v).gen ≠ 0 → d'.leafBlock i v = if v = r then
        P.encrypt d.sb.currentKey.id (P.decrypt d.sb.previousKey.id (d.leafBlock i v))
      else d.leafBlock i v
  /-- It is in a block that no snapshot had. -/
  fresh : ∀ i, (d'.sb.trees d'.store).Tracked i → (d.leaf i r).gen ≠ 0 →
    ∀ j w, (d'.sb.trees d'.store).Tracked j → w < (d.sb.snapshots j).nrOfLeafs →
      (d.leaf j w).gen ≠ 0 → (d.leaf j w).pba ≠ (d'.leaf i r).pba
  /-- Two snapshots share a leaf exactly if they did. -/
  shared : ∀ i j v, (d'.sb.trees d'.store).Tracked i → (d'.sb.trees d'.store).Tracked j →
    v < (d.sb.snapshots i).nrOfLeafs → v < (d.sb.snapshots j).nrOfLeafs →
    (d.leaf i v).gen ≠ 0 → (d.leaf j v).gen ≠ 0 →
    ((d'.leaf i v).pba = (d'.leaf j v).pba ↔ (d.leaf i v).pba = (d.leaf j v).pba)

section

variable {mt : MetaTree} {ws : Workspace P} {job : RekeyingJob P} {sb' : Superblock} {more : Bool}
  {done : SnapshotsIndex → Prop} {new : SnapshotsIndex → ℕ → Type1Node} {out : List Draw}
  {usable : Type2Node → Prop} {es es' : List Type2Node} {r g : ℕ}

variable (h : d.Intact) (hr : RekeyingDone d mt ws job sb' more)
  (hC : Rekeyed.Complete d.purgedTrees (rekeyingResult d.purgedTrees ws job) d.sb.keyState r g
    done new out usable es es')

include h hr hC

/-- A snapshot that counts after the step did so before it. -/
theorem tracked_of_rekeyed (hi : (sb'.trees ws.store).Tracked i) : d.purgedTrees.Tracked i :=
  hC.rekeyed.tracked_iff.mp ((hr.thinned h).tracked_of_tracked hi)

/-- It has the size of the current one. -/
theorem size_of_rekeyed (hi : (sb'.trees ws.store).Tracked i) :
    (d.sb.snapshots i).maxLevel = d.sb.curr.maxLevel
      ∧ (d.sb.snapshots i).nrOfLeafs = d.sb.curr.nrOfLeafs :=
  h.order.size i (h.thinned_purged.tracked_of_tracked (tracked_of_rekeyed h hr hC hi)).1

/-- A tree has a level above its leaves. -/
theorem maxLevel_pos_of_rekeyed (hi : (sb'.trees ws.store).Tracked i) :
    0 < (d.sb.snapshots i).maxLevel := by
  have hmax := h.order.maxLevel
  rw [(size_of_rekeyed h hr hC hi).1]
  omega

/-- It has as many leaves as before the purge. -/
theorem purged_nrOfLeafs_eq (hi : (sb'.trees ws.store).Tracked i) :
    (d.purgedTrees.snaps i).nrOfLeafs = (d.sb.snapshots i).nrOfLeafs :=
  h.thinned_purged.nrOfLeafs_eq (tracked_of_rekeyed h hr hC hi)

/-- Purging leaves the leaves of the snapshots that stay. -/
theorem leaf_eq_purged (hi : (sb'.trees ws.store).Tracked i) (v : ℕ) :
    d.leaf i v = d.purgedTrees.node i v 0 :=
  (h.thinned_purged.node_eq (tracked_of_rekeyed h hr hC hi)
    (maxLevel_pos_of_rekeyed h hr hC hi)).symm

/-- Securing leaves the leaves that the step wrote. -/
theorem node_eq_rekeyed (hi : (sb'.trees ws.store).Tracked i) (v : ℕ) :
    (sb'.trees ws.store).node i v 0 = (rekeyingResult d.purgedTrees ws job).node i v 0 := by
  refine (hr.thinned h).node_eq hi ?_
  rw [(hC.rekeyed.snaps_eq i).2.2.1,
    h.thinned_purged.maxLevel_eq (tracked_of_rekeyed h hr hC hi)]
  exact maxLevel_pos_of_rekeyed h hr hC hi

/-- Its leaves are in the purged tree. -/
theorem present_purged (hi : (sb'.trees ws.store).Tracked i)
    (hv : v < (d.sb.snapshots i).nrOfLeafs) : d.purgedTrees.Present i v 0 :=
  hC.sound.present (tracked_of_rekeyed h hr hC hi)
    ((purged_nrOfLeafs_eq h hr hC hi).symm ▸ hv) (Nat.zero_le _)

/-- A leaf that was written is needed. -/
theorem needed_purged (hi : (sb'.trees ws.store).Tracked i)
    (hv : v < (d.sb.snapshots i).nrOfLeafs) (h0 : (d.leaf i v).gen ≠ 0) :
    d.purgedTrees.Needed i v 0 :=
  ⟨tracked_of_rekeyed h hr hC hi, present_purged h hr hC hi hv,
    Or.inr (by rw [← leaf_eq_purged h hr hC hi]; exact h0)⟩

end

/-- **A rekeying step covers all snapshots.** -/
theorem rekeys_of_step (h : d.Intact) (hlast : d.ctl.currGen < generationLast) {mt : MetaTree}
    (hd : d.rekeyVba mt = some d') : d.Rekeys d' d.sb.rekeyingVba := by
  have hd' := (h.rekeyVba hlast hd).1
  obtain ⟨ws, job, sb', more, hr, rfl⟩ := rekeyVba_done hd
  obtain ⟨done, new, out, hC⟩ := h.rekeyed_complete hlast hr.rekeying hr.run
  have hfront : ∀ i, (sb'.trees ws.store).Tracked i →
      d.sb.rekeyingVba < (d.sb.snapshots i).nrOfLeafs := fun i hi => by
    rw [(size_of_rekeyed h hr hC hi).2]
    exact h.order.front hr.rekeying
  exact {
    hashed := hd'.sound.hashed
    tracked := fun i hi =>
      ⟨h.thinned_purged.tracked_of_tracked (tracked_of_rekeyed h hr hC hi), by
        show (sb'.snapshots i).nrOfLeafs = _
        rw [← purged_nrOfLeafs_eq h hr hC hi, ← (hC.rekeyed.snaps_eq i).2.2.2]
        exact (hr.thinned h).nrOfLeafs_eq hi, hfront i hi⟩
    gen := fun i v hi hv => by
      show ((sb'.trees ws.store).node i v 0).gen = _
      rw [node_eq_rekeyed h hr hC hi, leaf_eq_purged h hr hC hi]
      exact hC.gen_eq (tracked_of_rekeyed h hr hC hi) (present_purged h hr hC hi hv)
    other := fun i v hi hv hne => by
      show (sb'.trees ws.store).node i v 0 = _
      rw [node_eq_rekeyed h hr hC hi, leaf_eq_purged h hr hC hi]
      exact hC.node_off (tracked_of_rekeyed h hr hC hi) (present_purged h hr hC hi hv)
        fun hon => hne (sameNode_zero.mp hon)
    data := fun i v hi hv h0 => by
      show ws.store.blocks ((sb'.trees ws.store).node i v 0).pba = _
      unfold leafBlock
      rw [node_eq_rekeyed h hr hC hi, leaf_eq_purged h hr hC hi]
      exact hC.leaf (needed_purged h hr hC hi hv h0)
    fresh := fun i hi h0 j w hj hw h0' => by
      -- the block of the rekeyed leaf is drawn, and no leaf in use has a drawn block
      have hown := (needed_purged h hr hC hi (hfront i hi) h0).owned
      obtain ⟨x, hx, hpba, -⟩ := hC.draw hown sameNode.refl
      have hne := hC.ne_draw (needed_purged h hr hC hj hw h0').owned hx
      show _ ≠ ((sb'.trees ws.store).node i _ 0).pba
      rw [node_eq_rekeyed h hr hC hi, leaf_eq_purged h hr hC hj, ← hpba]
      exact hne
    shared := fun i j v hi hj hv hv' h0 h0' => by
      show ((sb'.trees ws.store).node i v 0).pba = ((sb'.trees ws.store).node j v 0).pba ↔ _
      rw [node_eq_rekeyed h hr hC hi, node_eq_rekeyed h hr hC hj, leaf_eq_purged h hr hC hi,
        leaf_eq_purged h hr hC hj]
      exact hC.pba_eq_iff (needed_purged h hr hC hi hv h0) (needed_purged h hr hC hj hv' h0') }

/-- The first step of the sample device, with a snapshot that is kept. -/
theorem rekeys_of_step_sample :
    let d := Runs.after Device.step InPlace sample (sampleRekeying.take 5)
    ∃ d', d.rekeyVba sampleMeta = some d' ∧ d.Rekeys d' 0 := by
  intro d
  have hsome : (d.rekeyVba sampleMeta).isSome = true := by decide +kernel
  obtain ⟨d', hd'⟩ := Option.isSome_iff_exists.mp hsome
  have hd : d.Intact := sample_intact.run (Runs.Run.after (by decide +kernel))
  have hvba : d.sb.rekeyingVba = 0 := by decide +kernel
  have hrekeys := rekeys_of_step hd (by decide +kernel) hd'
  rw [hvba] at hrekeys
  exact ⟨d', hd', hrekeys⟩

/-! ## A whole rekeying

A write, a snapshot that is kept or discarded and a sync may come between two
steps. -/

/-- **How far a rekeying has got** after some of its steps: it goes on at the next address,
or it is over, with as many steps as there were addresses. -/
structure Advances (d d' : Device P) (n : ℕ) : Prop where
  /-- There are as many addresses as at the beginning. -/
  nrOfLeafs : d'.sb.curr.nrOfLeafs = d.sb.curr.nrOfLeafs
  /-- The new key is the one that it began with. -/
  currentKey : d'.sb.currentKey = d.sb.currentKey
  /-- It goes on at the next address, or is over. -/
  phase : (d'.sb.state = .rekeying ∧ d'.sb.previousKey = d.sb.previousKey
      ∧ d'.sb.rekeyingVba = d.sb.rekeyingVba + n ∧ d.sb.rekeyingVba + n < d.sb.curr.nrOfLeafs)
    ∨ (d'.sb.state = .normal ∧ d'.sb.previousKey = keyInvalid
      ∧ d.sb.rekeyingVba + n = d.sb.curr.nrOfLeafs)

/-- The superblock has the same keys and goes on with the same job. -/
structure SameJob (sb sb' : Superblock) : Prop where
  /-- There are as many addresses. -/
  nrOfLeafs : sb'.curr.nrOfLeafs = sb.curr.nrOfLeafs
  /-- The current key is the same. -/
  currentKey : sb'.currentKey = sb.currentKey
  /-- So is the previous one. -/
  previousKey : sb'.previousKey = sb.previousKey
  /-- So is the state. -/
  state : sb'.state = sb.state
  /-- The rekeying is at the same address. -/
  rekeyingVba : sb'.rekeyingVba = sb.rekeyingVba

/-- What does not concern the rekeying leaves it where it was. -/
theorem Advances.same {d₀ : Device P} {n : ℕ} (h : d₀.Advances d n) (hs : SameJob d.sb d'.sb) :
    d₀.Advances d' n where
  nrOfLeafs := hs.nrOfLeafs.trans h.nrOfLeafs
  currentKey := hs.currentKey.trans h.currentKey
  phase := by
    rw [hs.state, hs.previousKey, hs.rekeyingVba]
    exact h.phase

end Device

/-- The number of rekeying steps of an action. -/
def Action.rekeyingSteps : Action P → ℕ
  | .rekeyVba _ => 1
  | _ => 0

/-- The action begins a rekeying. -/
def Action.BeginsRekeying : Action P → Prop
  | .initializeRekeying _ => True
  | _ => False

/-- A stamped current snapshot has the leaves it had. -/
theorem Superblock.TableStamped.nrOfLeafs {sb sb' : Superblock} {g : ℕ}
    (h : sb.TableStamped sb' g) :
    sb'.curr.nrOfLeafs = sb.curr.nrOfLeafs := by
  obtain ⟨keep, hcurr⟩ := h.curr
  rw [hcurr]

namespace Device

variable {d d' d₀ : Device P} {a : Action P} {n : ℕ}

/-- **Other actions leave the rekeying where it is.** -/
theorem Intact.sameJob (h : d.Intact) (hC : d.InPlace a) (hbegin : ¬ a.BeginsRekeying)
    (hsteps : a.rekeyingSteps = 0) (hstep : d.step a = some d') : SameJob d.sb d'.sb := by
  have hspare := h.order.sparesCurrent
  cases a with
  | write vba data mt =>
    obtain ⟨slot, hw⟩ := wrote hstep
    exact ⟨hw.nrOfLeafs, hw.keys.1, hw.keys.2, hw.state, hw.rekeyingVba⟩
  | sync =>
    obtain rfl := Option.some.inj hstep
    have hst : d.sb.TableStamped (purgeAndStamp d.sb d.ctl.currGen) d.ctl.currGen :=
      .purgeAndStamp hspare h.curr_valid rfl rfl rfl fun _ _ => Or.inl rfl
    exact ⟨hst.nrOfLeafs, rfl, rfl, rfl, rfl⟩
  | createSnapshot =>
    obtain rfl := Option.some.inj hstep
    exact ⟨(Superblock.TableStamped.createSnapshot hspare h.curr_valid).nrOfLeafs, rfl, rfl, rfl,
      rfl⟩
  | discardSnapshot gen =>
    unfold Device.step at hstep
    dsimp only at hstep
    cases hc : prepareDiscardSnapshot d.ctl gen with
    | some c =>
      rw [hc] at hstep
      obtain rfl := Option.some.inj hstep
      have hleafs := (h.discard_stamped hc hC.1).nrOfLeafs
      obtain ⟨i, -, rfl⟩ := Option.map_eq_some_iff.mp hc
      exact ⟨hleafs, rfl, rfl, rfl, rfl⟩
    | none =>
      rw [hc] at hstep
      obtain rfl := Option.some.inj hstep
      exact ⟨rfl, rfl, rfl, rfl, rfl⟩
  | initializeRekeying => exact absurd trivial hbegin
  | rekeyVba => exact absurd hsteps Nat.one_ne_zero
  | vbdExtensionStep | ftExtensionStep | restart => exact hC.1.elim

/-- **A rekeying step goes on by one address**, or is the last one. -/
theorem Advances.rekeyVba (h : d₀.Advances d n) (hd : d.Intact) {mt : MetaTree}
    (hstep : d.rekeyVba mt = some d') : d₀.Advances d' (n + 1) := by
  obtain ⟨ws, job, sb', more, hr, rfl⟩ := rekeyVba_done hstep
  rcases h.phase with ⟨hst, hprev, hfront, hlt⟩ | ⟨hst, -⟩
  · have hleft := hr.left_iff hd
    have hrel := hr.relocated
    have hself : sb'.curr.nrOfLeafs = d.sb.curr.nrOfLeafs := by
      unfold Superblock.curr
      rw [hr.currSnap, hr.self]
      show (job.snapshots d.sb.currSnap).nrOfLeafs = _
      rw [hrel.nrOfLeafs, hd.purged_curr]
      rfl
    rw [h.nrOfLeafs, hfront] at hleft
    refine ⟨hself.trans h.nrOfLeafs, hr.currentKey.trans h.currentKey, ?_⟩
    have hstate := hr.state
    have hprev' := hr.previousKey
    cases more with
    | true =>
      have hlt' := hleft.mp rfl
      refine Or.inl ⟨hstate, hprev'.trans hprev, (hr.front rfl).trans ?_, by omega⟩
      rw [hfront]
      rfl
    | false =>
      have hend : ¬ d₀.sb.rekeyingVba + n < d₀.sb.curr.nrOfLeafs - 1 := fun hlt' =>
        absurd (hleft.mpr hlt') (by decide)
      exact Or.inr ⟨hstate, hprev', by omega⟩
  · exact absurd (hr.rekeying.symm.trans hst) (by decide)

/-- **The step lemma.** -/
theorem Advances.step (h : d₀.Advances d n) (hd : d.Intact) (hC : d.InPlace a)
    (hbegin : ¬ a.BeginsRekeying) (hstep : d.step a = some d') :
    d₀.Advances d' (n + a.rekeyingSteps) := by
  by_cases hsteps : a.rekeyingSteps = 0
  · rw [hsteps, Nat.add_zero]
    exact h.same (hd.sameJob hC hbegin hsteps hstep)
  · cases a with
    | rekeyVba mt => exact h.rekeyVba hd hstep
    | _ => exact absurd rfl hsteps

/-- **The run lemma.** -/
theorem Advances.run {l : List (Action P)}
    (htrace : Runs.Trace Device.step InPlace d l d') (hd : d.Intact)
    (hbegin : ∀ a ∈ l, ¬ a.BeginsRekeying) (h : d₀.Advances d n) :
    d₀.Advances d' (n + (l.map Action.rekeyingSteps).sum) := by
  induction htrace generalizing n with
  | nil => exact h
  | cons a l hC hstep _ ih =>
    have hnext := h.step hd hC (hbegin a List.mem_cons_self) hstep
    rw [List.map_cons, List.sum_cons, ← Nat.add_assoc]
    exact ih (hd.step hC hstep) (fun b hb => hbegin b (List.mem_cons_of_mem a hb)) hnext

/-- **A rekeying takes as many steps as there are addresses left**, whatever is served in
between: after `n` of them it is at the `n`-th address from where it was, or it is over and
there is no other key than the new one. -/
theorem rekeying_of_run {l : List (Action P)} (htrace : Runs.Trace step InPlace d l d')
    (h : d.Intact) (hst : d.sb.state = .rekeying) (hbegin : ∀ a ∈ l, ¬ a.BeginsRekeying) :
    d.Advances d' (l.map Action.rekeyingSteps).sum := by
  have hself : d.Advances d 0 := ⟨rfl, rfl, Or.inl ⟨hst, rfl, rfl, h.order.front hst⟩⟩
  have hrun := hself.run htrace h hbegin
  rwa [Nat.zero_add] at hrun

/-- The rekeying of the sample device, with a write in between. -/
theorem rekeying_of_run_sample :
    let d := Runs.after Device.step InPlace sample (sampleRekeying.take 5)
    d.Advances (Runs.after Device.step InPlace d (sampleRekeying.drop 5)) 2 := by
  intro d
  have hd : d.Intact := sample_intact.run (Runs.Run.after (by decide +kernel))
  refine rekeying_of_run (Runs.Trace.after (by decide +kernel)) hd (by decide +kernel)
    fun a ha => ?_
  simp only [sampleRekeying, List.drop_succ_cons, List.drop_zero, List.mem_cons,
    List.not_mem_nil, or_false] at ha
  rcases ha with rfl | rfl | rfl | rfl
  all_goals exact id

end Device

end Cbe
