import Cbe.IntactDevice

/-!
# No block in use is given out

Whatever an action puts at a place of a tree was at that place before, maybe of
another snapshot, or is in a block that no tree has used (`Trees.TakesNone`).
This is what the free tree is for: an entry that it considers usable does not
hold a block that a tree owns (`Device.Intact.usable_unowned`). The trees are
those of the snapshots that count before the action, also of those that the
action purges. It holds in every state that a run of actions in place reaches
(`Device.takesNone_of_run`).

A block that no tree uses comes from the free tree, under an entry that it
considers usable, or from a contingent behind the pool. A write and a step of a
rekeying take all their new blocks from the free tree; a step of an extension
takes them from both.
-/

namespace Cbe

variable {P : Platform}

/-- **No block in use is taken** for another place. -/
def Trees.TakesNone (t t' : Trees P) : Prop :=
  ∀ i v l, t'.Owned i v l →
    (∃ j, t.Owned j v l ∧ (t'.node i v l).pba = (t.node j v l).pba)
      ∨ ∀ j w k, t.Owned j w k → (t.node j w k).pba ≠ (t'.node i v l).pba

namespace CurrentUpdate

variable {t t' : Trees P} {K : KeyState} {fresh : ℕ → Prop} {entries entries' : List Type2Node}
  {i : SnapshotsIndex} {v l : ℕ}

/-- What is owned is in a fresh block, or was owned at the same place. -/
theorem origin_owned (h : CurrentUpdate t t' K fresh entries entries') (ho : t'.Owned i v l) :
    fresh (t'.node i v l).pba
      ∨ ∃ j, t.Owned j v l ∧ (t'.node i v l).pba = (t.node j v l).pba := by
  by_cases hi : i = t'.cur
  · rw [hi] at ho ⊢
    exact (h.origin v l ho).imp_right fun hold => ⟨t.cur, hold.1, hold.2.1⟩
  · obtain ⟨ho', heq⟩ := h.owned_other hi ho
    exact Or.inr ⟨i, ho', by rw [heq]⟩

/-- What is fresh was owned by no tree. -/
theorem takesNone (h : CurrentUpdate t t' K fresh entries entries') : t.TakesNone t' := by
  intro i v l ho
  rcases h.origin_owned ho with hfresh | hold
  · exact Or.inr (h.fresh_unowned _ hfresh)
  · exact Or.inl hold

end CurrentUpdate

/-- A thinned table owns nothing new. -/
theorem Trees.Thinned.origin_owned {t t' : Trees P} {K : KeyState} {es : List Type2Node} {g : ℕ}
    {i : SnapshotsIndex} {v l : ℕ} (h : Trees.Thinned t t') (hs : Sound t K es g)
    (hlast : g < generationLast) (ho : t'.Owned i v l) :
    ∃ j, t.Owned j v l ∧ (t'.node i v l).pba = (t.node j v l).pba := by
  rcases ((h.currentPath hs hlast).toCurrentUpdate hs.forest).origin_owned ho with ⟨l, hl, -⟩ | hold
  · exact absurd hl List.not_mem_nil
  · exact hold

namespace Device

variable {d d' d₀ : Device P} {a : Action P} {i : SnapshotsIndex} {v l : ℕ}

/-- **The entries that the free tree may use** for a request of the device. -/
def Usable (d : Device P) : Type2Node → Prop :=
  rekeyUsable d.allocContext d.sb.keyState d.sb.rekeyingVba

/-- They are those of a write. -/
theorem usable_iff_scdRequest {e : Type2Node} (walk : Type1NodeWalk) (vba : ℕ) :
    d.Usable e ↔ checkType2LeafUsable (scdRequest d.sb d.ctl.currGen walk vba) e := Iff.rfl

/-- **A usable entry does not hold a block that a tree owns.** -/
theorem Intact.usable_unowned (h : d.Intact) (hlast : d.ctl.currGen < generationLast)
    {e : Type2Node} (he : e ∈ d.free.entries) (hu : d.Usable e)
    (ho : (d.sb.trees d.store).Owned i v l) : ((d.sb.trees d.store).node i v l).pba ≠ e.pba := by
  have hfits : (scdRequest d.sb d.ctl.currGen (fun _ => type1NodeInvalid) 0).Fits
      (d.sb.trees d.store) d.sb.keyState := by
    refine ⟨fun i hi => ⟨hi.1, rfl, lt_of_le_of_lt ?_ hlast⟩, fun hr => ⟨hr, rfl, rfl⟩⟩
    exact (h.sound.ordered.gen_le_cur hi.1).trans h.sound.ordered.gen_le
  exact h.sound.forest.pba_ne_of_usable hfits he hu ho

/-- **A rekeying step takes no block in use.** -/
theorem Intact.takesNone_rekeyVba (h : d.Intact) (hlast : d.ctl.currGen < generationLast)
    {mt : MetaTree} (hd : d.rekeyVba mt = some d') :
    (d.sb.trees d.store).TakesNone (d'.sb.trees d'.store) := by
  obtain ⟨ws, job, sb', more, hr, rfl⟩ := rekeyVba_done hd
  obtain ⟨done, new, out, hC⟩ := h.rekeyed_complete hlast hr.rekeying hr.run
  have hset := h.rekeyingSetup hlast hr.rekeying
  have hsound := hC.sound_after hr.advanced hset.rekeying rfl
  show (d.sb.trees d.store).TakesNone (sb'.trees ws.store)
  intro i v l ho
  -- through the stamp, the step itself and the purge
  obtain ⟨j, hj, hpba⟩ := (hr.thinned h).origin_owned hsound hlast ho
  have hj' := hC.owned_iff.mp hj
  by_cases hon : sameNode d.purgedTrees.degree l v d.sb.rekeyingVba
  · obtain ⟨x, hx, hxpba, -⟩ := hC.draw hj' hon
    refine Or.inr fun j w k how => ?_
    rw [hpba, ← hxpba]
    exact Rekeyed.ne_draw (fun e he hu i v l => h.usable_unowned hlast he hu) hC.drawn how hx
  · obtain ⟨m, hm, hmpba⟩ := h.thinned_purged.origin_owned h.sound hlast hj'
    refine Or.inl ⟨m, hm, hpba.trans ?_⟩
    rw [hC.node_off hj'.1 hj'.2.1 hon]
    exact hmpba

/-- **An action that stamps the table** takes no block. -/
theorem Intact.takesNone_stamped (h : d.Intact) (hlast : d.ctl.currGen < generationLast)
    {sb' : Superblock} (hst : d.sb.TableStamped sb' d.ctl.currGen) :
    (d.sb.trees d.store).TakesNone (sb'.trees d.store) := by
  intro i v l ho
  exact Or.inl ((hst.thinned d.store h.curr_valid h.curr_gen_le).origin_owned h.sound hlast ho)

/-- **No action takes a block in use.** -/
theorem Intact.takesNone (h : d.Intact) (hC : d.InPlace a) (hstep : d.step a = some d') :
    (d.sb.trees d.store).TakesNone (d'.sb.trees d'.store) := by
  obtain ⟨hC, hlast⟩ := hC
  have hspare := h.order.sparesCurrent
  cases a with
  | write vba data mt =>
    obtain ⟨-, walk, newPbas, hpath, -⟩ := h.write_path hlast hC hstep
    exact (hpath.toCurrentUpdate h.sound.forest).takesNone
  | sync =>
    obtain rfl := Option.some.inj hstep
    exact h.takesNone_stamped hlast (.purgeAndStamp hspare h.curr_valid rfl rfl rfl
      fun _ _ => Or.inl rfl)
  | createSnapshot =>
    obtain rfl := Option.some.inj hstep
    exact h.takesNone_stamped hlast (.createSnapshot hspare h.curr_valid)
  | discardSnapshot gen =>
    unfold Device.step at hstep
    dsimp only at hstep
    cases hc : prepareDiscardSnapshot d.ctl gen with
    | some c =>
      rw [hc] at hstep
      obtain rfl := Option.some.inj hstep
      have hst := h.discard_stamped hc hC
      exact h.takesNone_stamped hlast (hst.congr rfl rfl rfl)
    | none =>
      rw [hc] at hstep
      obtain rfl := Option.some.inj hstep
      exact fun i v l ho => Or.inl ⟨i, ho, rfl⟩
  | initializeRekeying value =>
    obtain ⟨sb, hsb, rfl⟩ := initializeRekeying_spec hstep
    have hst := stamped_of_enterRekeying hsb d.ctl.currGen
    exact h.takesNone_stamped hlast (hst.congr rfl rfl rfl)
  | rekeyVba mt => exact h.takesNone_rekeyVba hlast hstep
  | vbdExtensionStep | ftExtensionStep | restart => exact hC.elim

/-- **No block in use is given out**, in any run of actions in place: at every action of
it, what is put at a place of a tree was there before, or no snapshot has used its block. -/
theorem takesNone_of_run (hrun : Device.Run InPlace d₀ d) (h : d₀.Intact) (hC : d.InPlace a)
    (hstep : d.step a = some d') : (d.sb.trees d.store).TakesNone (d'.sb.trees d'.store) := by
  exact (h.run hrun).takesNone hC hstep

/-- The last step of the rekeying of the sample device. -/
theorem takesNone_of_run_sample :
    let d := Runs.after Device.step InPlace sample (sampleRekeying.take 7)
    ∃ d', d.step (.rekeyVba sampleMeta) = some d'
      ∧ (d.sb.trees d.store).TakesNone (d'.sb.trees d'.store) := by
  intro d
  have hsome : (d.step (.rekeyVba sampleMeta)).isSome = true := by decide +kernel
  obtain ⟨d', hd'⟩ := Option.isSome_iff_exists.mp hsome
  exact ⟨d', hd', takesNone_of_run (Runs.Run.after (by decide +kernel)) sample_intact
    ⟨trivial, by decide +kernel⟩ hd'⟩

end Device

end Cbe
