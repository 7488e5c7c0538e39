import Cbe.RekeyingLoop

/-!
# A rekeying step keeps the trees sound

A rekeying step gives every snapshot a new path to one address, in blocks that
it draws from the stock, and leaves in the stock what guards the blocks
(`Rekeyed`). When every snapshot has the address, the trees are sound again, for
the keys as they are when the rekeying has gone on by one address
(`Rekeyed.sound`), and what a tree stores at the address is what it stored
before, under the new key (`Rekeyed.leaf`).

The proof has two cases for every place of a tree: it is on the way to the
address, and then its node is new, or it is off it, and then its node is the old
one in a block that no one has written. For two places at once there are three,
and the mixed case is settled by the fact that a block which was drawn is owned
by no tree of before (`ne_draw`).

Soundness is a conjunction of the forest (every block at one place, every block
that is owned kept in the current tree or guarded by an entry), the hashes, the
growth of the snapshots, the sharing of blocks without gaps, and the order of
the generations. Each has its lemma, in this order, and `sound_after` collects
them.
-/

namespace Cbe

variable {P : Platform}

/-- **The rekeying has gone on** by one address, or has come to its end. -/
structure KeyState.Advanced (K K' : KeyState) (r : ℕ) : Prop where
  currentKeyId : K'.currentKeyId = K.currentKeyId
  previousKeyId : K'.rekeying = true → K'.previousKeyId = K.previousKeyId
  front : K'.rekeying = true → K'.front = r + 1

namespace Rekeyed

variable {t₀ t : Trees P} {K K' : KeyState} {r g : ℕ} {done : SnapshotsIndex → Prop}
  {new : SnapshotsIndex → ℕ → Type1Node} {out : List Draw} {usable : Type2Node → Prop}
  {es es' : List Type2Node} {i j : SnapshotsIndex} {v w l k : ℕ}

section

variable (h : Rekeyed t₀ t K r done new out)

include h

/-- A snapshot has only a new root. -/
theorem snaps_eq (i : SnapshotsIndex) :
    (t.snaps i).valid = (t₀.snaps i).valid ∧ (t.snaps i).gen = (t₀.snaps i).gen
      ∧ (t.snaps i).maxLevel = (t₀.snaps i).maxLevel
      ∧ (t.snaps i).nrOfLeafs = (t₀.snaps i).nrOfLeafs := by
  by_cases hd : done i
  · rw [h.relocated i hd]
    exact ⟨rfl, rfl, rfl, rfl⟩
  · rw [h.undone i hd]
    exact ⟨rfl, rfl, rfl, rfl⟩

/-- The same snapshots count. -/
theorem tracked_iff : t.Tracked i ↔ t₀.Tracked i := by
  unfold Trees.Tracked
  rw [(h.snaps_eq i).1, (h.snaps_eq i).2.1, h.cur]

end

/-- **A step that every snapshot has taken**, with the stock that it left. -/
structure Complete (t₀ t : Trees P) (K : KeyState) (r g : ℕ) (done : SnapshotsIndex → Prop)
    (new : SnapshotsIndex → ℕ → Type1Node) (out : List Draw) (usable : Type2Node → Prop)
    (es es' : List Type2Node) : Prop where
  /-- The trees were sound. -/
  sound : Sound t₀ K es g
  /-- The marked snapshots are under the new key. -/
  rekeyed : Rekeyed t₀ t K r done new out
  /-- No tree owns a usable block. -/
  unowned : ∀ e ∈ es, usable e → ∀ i v l, t₀.Owned i v l → (t₀.node i v l).pba ≠ e.pba
  /-- The blocks were drawn from the usable ones. -/
  drawn : Drawn usable es es' out
  /-- Every snapshot is marked. -/
  all : ∀ i, t₀.Tracked i → done i

namespace Complete

variable (h : Complete t₀ t K r g done new out usable es es')

include h

/-- The trees have the places that they had. -/
theorem present_iff (hi : t₀.Tracked i) : t.Present i v l ↔ t₀.Present i v l :=
  (h.rekeyed.path i (h.all i hi)).present_iff

/-- **The nodes** are the new ones on the way to the address and the old ones
off it. All the later lemmas begin with this equation. -/
theorem node_eq (hi : t₀.Tracked i) (hp : t₀.Present i v l) :
    t.node i v l = if sameNode t₀.degree l v r then new i l else t₀.node i v l := by
  rw [(h.rekeyed.path i (h.all i hi)).node_eq hp]
  exact if_congr ⟨fun hon => hon.2, fun hon => ⟨Nat.zero_le l, hon⟩⟩ rfl rfl

/-- On the way to the address the node is new. -/
theorem node_on (hi : t₀.Tracked i) (hp : t₀.Present i v l) (hon : sameNode t₀.degree l v r) :
    t.node i v l = new i l := by rw [h.node_eq hi hp, if_pos hon]

/-- Off the way it is the old one. -/
theorem node_off (hi : t₀.Tracked i) (hp : t₀.Present i v l)
    (hoff : ¬ sameNode t₀.degree l v r) : t.node i v l = t₀.node i v l := by
  rw [h.node_eq hi hp, if_neg hoff]

/-- No node has changed its generation. -/
theorem gen_eq (hi : t₀.Tracked i) (hp : t₀.Present i v l) :
    (t.node i v l).gen = (t₀.node i v l).gen := by
  by_cases hon : sameNode t₀.degree l v r
  · rw [h.node_on hi hp hon, h.rekeyed.gen i l (h.all i hi) hp.1, Trees.node_congr hp.1 hon]
  · rw [h.node_off hi hp hon]

/-- The trees own the places that they owned. -/
theorem owned_iff : t.Owned i v l ↔ t₀.Owned i v l := by
  unfold Trees.Owned
  rw [h.rekeyed.tracked_iff, h.rekeyed.cur]
  refine and_congr_right fun hi => ?_
  rw [h.present_iff hi]
  refine and_congr_right fun hp => ?_
  rw [h.gen_eq hi hp]

/-- The trees need the places that they needed. -/
theorem needed_iff : t.Needed i v l ↔ t₀.Needed i v l := by
  unfold Trees.Needed
  rw [h.rekeyed.tracked_iff]
  refine and_congr_right fun hi => ?_
  rw [h.present_iff hi]
  refine and_congr_right fun hp => ?_
  rw [h.gen_eq hi hp]

/-- What a tree owned is in no block that was drawn. -/
theorem ne_draw (ho : t₀.Owned i v l) {x : Draw} (hx : x ∈ out) :
    (t₀.node i v l).pba ≠ x.pba := Rekeyed.ne_draw h.unowned h.drawn ho hx

/-- The block of a new node was drawn for its level. -/
theorem draw (ho : t₀.Owned i v l) (hon : sameNode t₀.degree l v r) :
    ∃ x ∈ out, x.pba = (t.node i v l).pba ∧ x.lvl = l ∧ x.entry.allocGen = (t.node i v l).gen
      ∧ ((l ≤ (t₀.snaps t₀.cur).maxLevel ∧ (new t₀.cur l).pba = x.pba)
        ∨ RekeyGuard t₀ K r i l x) := by
  rw [h.node_on ho.1 ho.2.1 hon]
  have hneed := ho.2.2
  rw [Trees.node_congr ho.2.1.1 hon] at hneed
  obtain ⟨x, hx, hpba, hlvl, hgen, hrest⟩ := h.rekeyed.drawn i l (h.all i ho.1) ho.2.1.1 hneed
  exact ⟨x, hx, hpba, hlvl, hgen, hrest.imp_left And.right⟩

/-- A place with a block that was drawn is on the way to the address. -/
theorem on_of_draw (ho : t₀.Owned i v l) {x : Draw} (hx : x ∈ out)
    (hpba : (t.node i v l).pba = x.pba) : sameNode t₀.degree l v r := by
  by_contra hoff
  rw [h.node_off ho.1 ho.2.1 hoff] at hpba
  exact h.ne_draw ho hx hpba

/-- **A block is at one place.** -/
theorem injOn (hi : t.Owned i v l) (hj : t.Owned j w k)
    (heq : (t.node i v l).pba = (t.node j w k).pba) :
    l = k ∧ sameNode t₀.degree l v w ∧ (t.node i v l).gen = (t.node j w k).gen := by
  refine injOn_of_origin h.sound.forest (F := fun p => ∃ x ∈ out, p = x.pba)
    (fun i v l ho => ?_) h.rekeyed.degree ?_ hi hj heq
  · have ho' := h.owned_iff.mp ho
    by_cases hon : sameNode t₀.degree l v r
    · obtain ⟨x, hx, hpba, -⟩ := h.draw ho' hon
      exact Or.inl ⟨x, hx, hpba.symm⟩
    · rw [h.node_off ho'.1 ho'.2.1 hon]
      exact Or.inr ⟨i, ho', rfl, Or.inl rfl⟩
  · rintro i v l j w k hi hj ⟨x, hx, hpba⟩ heq
    have hoi := h.owned_iff.mp hi
    have hoj := h.owned_iff.mp hj
    have honi := h.on_of_draw hoi hx hpba
    have honj := h.on_of_draw hoj hx (heq.symm.trans hpba)
    obtain ⟨y, hy, hypba, rfl, hygen, -⟩ := h.draw hoi honi
    obtain ⟨z, hz, hzpba, rfl, hzgen, -⟩ := h.draw hoj honj
    obtain rfl := h.drawn.eq_of_pba hy hz (hypba.trans (heq.trans hzpba.symm))
    exact ⟨rfl, honi.trans honj.symm, hygen.symm.trans hzgen⟩

/-- **The current tree is not in the stock.** -/
theorem current (ho : t.Owned t.cur v l) {e : Type2Node} (he : e ∈ es') :
    e.pba ≠ (t.node t.cur v l).pba := by
  rw [h.rekeyed.cur] at ho ⊢
  have ho' := h.owned_iff.mp ho
  by_cases hon : sameNode t₀.degree l v r
  · obtain ⟨x, hx, hpba, -⟩ := h.draw ho' hon
    have hne : e.pba = x.pba → e.pba ≠ 0 := by
      intro heq
      rw [heq, hpba]
      exact ho.2.1.pba_ne_zero
    rw [← hpba]
    intro heq
    rcases h.drawn.mem e he with ⟨-, hnot⟩ | ⟨y, hy, rfl⟩
    · exact hnot (hne heq) x hx heq
    · rcases h.rekeyed.entry y hy with ⟨-, hlvl, -, hentry⟩ | ⟨-, hentry, hnot⟩
      · have hoy : t₀.Owned t₀.cur r y.lvl := by
          have htr := h.sound.tracked_cur
          exact (h.sound.present htr (h.rekeyed.tracked _ (h.all _ htr)).2 hlvl).owned_cur htr.1
        exact h.ne_draw hoy hx (hentry.symm.trans heq)
      · refine hnot l ho'.2.1.1 ?_
        rw [← h.node_on ho'.1 ho'.2.1 hon, ← hpba, ← hentry, heq]
  · rw [h.node_off ho'.1 ho'.2.1 hon]
    rcases h.drawn.mem e he with ⟨he', -⟩ | ⟨y, hy, rfl⟩
    · exact h.sound.forest.current v l ho' e he'
    · intro heq
      rcases h.rekeyed.entry y hy with ⟨-, hlvl, -, hentry⟩ | ⟨-, hentry, -⟩
      · have hoy : t₀.Owned t₀.cur r y.lvl := by
          have htr := h.sound.tracked_cur
          exact (h.sound.present htr (h.rekeyed.tracked _ (h.all _ htr)).2 hlvl).owned_cur htr.1
        obtain ⟨rfl, hvr, -⟩ := h.sound.forest.injOn _ _ _ _ _ _ ho' hoy
          (heq.symm.trans hentry)
        exact hon hvr
      · exact h.ne_draw ho' hy (heq.symm.trans hentry)

/-- **Every block that a tree owns is in the current tree or guarded.** An old
guard still holds off the way; on the way it is the entry that was left with the
draw, or the current tree, which was rekeyed first. -/
theorem kept (hK : K.Advanced K' r) (hr : K.rekeying = true) (hfront : K.front = r)
    (ho : t.Owned i v l) :
    (t.Owned t.cur v l ∧ (t.node t.cur v l).pba = (t.node i v l).pba)
      ∨ ∃ e ∈ es', Guards t K' i v l e := by
  have ho' := h.owned_iff.mp ho
  have hgen := (h.rekeyed.snaps_eq i).2.1
  rw [h.rekeyed.cur]
  by_cases hon : sameNode t₀.degree l v r
  · obtain ⟨x, hx, hpba, hlvl, halloc, hcur | hguard⟩ := h.draw ho' hon
    · have htr := h.sound.tracked_cur
      have hpc : t₀.Present t₀.cur v l :=
        (h.sound.present htr (h.rekeyed.tracked _ (h.all _ htr)).2 hcur.1).congr hon.symm
      refine Or.inl ⟨h.owned_iff.mpr (hpc.owned_cur htr.1), ?_⟩
      rw [h.node_on htr hpc hon, hcur.2, hpba]
    · refine Or.inr ⟨x.entry, (h.drawn.put x hx).1, hguard.pba.trans hpba, hguard.reserved,
        halloc, ?_, ?_, ?_, fun hrk hkey => ?_⟩
      · rw [hgen]
        exact hguard.free
      · rw [h.rekeyed.degree]
        exact hguard.lastVba.trans hon.symm
      · rw [hK.currentKeyId]
        exact hguard.lastKey
      · rw [hK.front hrk]
        exact hguard.front (hkey.trans (hK.previousKeyId hrk))
  · have hnode := h.node_off ho'.1 ho'.2.1 hon
    rcases h.sound.forest.kept i v l ho' with ⟨hcur, hpba⟩ | ⟨e, he, hg⟩
    · refine Or.inl ⟨h.owned_iff.mpr hcur, ?_⟩
      rw [h.node_off hcur.1 hcur.2.1 hon, hnode]
      exact hpba
    · refine Or.inr ⟨e, h.drawn.kept e he fun _ x hx => ?_, ?_, hg.reserved, ?_, ?_, ?_, ?_,
        fun hrk hkey => ?_⟩
      · rw [hg.pba]
        exact h.ne_draw ho' hx
      · rw [hnode]
        exact hg.pba
      · rw [hnode]
        exact hg.alloc
      · rw [hgen]
        exact hg.free
      · rw [h.rekeyed.degree]
        exact hg.lastVba
      · rw [hK.currentKeyId]
        exact hg.lastKey
      · -- the last address is below the place, so the rekeying has not come to it
        have hle := hg.front hr (hkey.trans (hK.previousKeyId hrk))
        rw [hfront] at hle
        rw [hK.front hrk]
        refine Nat.succ_le_of_lt (lt_of_le_of_ne hle fun heq => hon ?_)
        rw [heq]
        exact hg.lastVba.symm

/-- **The trees and the stock fit together.** -/
theorem forest (hK : K.Advanced K' r) (hr : K.rekeying = true) (hfront : K.front = r) :
    Forest t K' es' where
  injOn i v l j w k hi hj heq := by
    rw [h.rekeyed.degree]
    exact h.injOn hi hj heq
  gen_le i v l ho := by
    have ho' := h.owned_iff.mp ho
    rw [h.gen_eq ho'.1 ho'.2.1, (h.rekeyed.snaps_eq i).2.1]
    exact h.sound.forest.gen_le i v l ho'
  stock := h.drawn.stock
  current v l ho e he := h.current ho he
  kept i v l ho := h.kept hK hr hfront ho

/-- A block off the way to the address is as it was. -/
theorem blockOf_off (ho : t₀.Owned i v l) (hoff : ¬ sameNode t₀.degree l v r) :
    t.blockOf (t.node i v l) = t₀.blockOf (t₀.node i v l) := by
  rw [h.node_off ho.1 ho.2.1 hoff]
  exact h.rekeyed.block_eq h.unowned h.drawn ho

/-- **Every block has its hash.** -/
theorem hashed : t.Hashed := by
  intro i v l hn
  have hn' := h.needed_iff.mp hn
  by_cases hon : sameNode t₀.degree l v r
  · have hneed := hn'.2.2
    rw [Trees.node_congr hn'.2.1.1 hon] at hneed
    rw [h.node_on hn'.1 hn'.2.1 hon]
    exact h.rekeyed.hash i l (h.all i hn'.1) hn'.2.1.1 hneed
  · rw [h.blockOf_off hn'.owned hon, h.node_off hn'.1 hn'.2.1 hon]
    exact h.sound.hashed i v l hn'

/-- The snapshots still grow: a newer one has written what an older one has. -/
theorem growing : t.Growing := by
  intro i j hi hj hle
  have hi' := h.rekeyed.tracked_iff.mp hi
  have hj' := h.rekeyed.tracked_iff.mp hj
  obtain ⟨-, hgi, hmi, hni⟩ := h.rekeyed.snaps_eq i
  obtain ⟨-, hgj, hmj, hnj⟩ := h.rekeyed.snaps_eq j
  rw [hgi, hgj] at hle
  obtain ⟨hmax, hnr, hwritten⟩ := h.sound.growing i j hi' hj' hle
  rw [hmi, hmj, hni, hnj]
  refine ⟨hmax, hnr, fun v hv hgen => ?_⟩
  rw [h.gen_eq hi' (h.sound.present hi' hv (Nat.zero_le _))] at hgen
  rw [h.gen_eq hj' (h.sound.present hj' (hv.trans_le hnr) (Nat.zero_le _))]
  exact hwritten v hv hgen

/-- **The blocks are shared** as they were. -/
theorem pba_eq_iff (hi : t₀.Needed i v l) (hj : t₀.Needed j v l) :
    (t.node i v l).pba = (t.node j v l).pba ↔ (t₀.node i v l).pba = (t₀.node j v l).pba := by
  by_cases hon : sameNode t₀.degree l v r
  · have hboth : 0 < l ∨ ((t₀.node i r l).gen ≠ 0 ∧ (t₀.node j r l).gen ≠ 0) := by
      rw [← Trees.node_congr hi.2.1.1 hon, ← Trees.node_congr hj.2.1.1 hon]
      rcases hi.2.2 with hl | hgi
      · exact Or.inl hl
      · exact hj.2.2.imp_right fun hgj => ⟨hgi, hgj⟩
    rw [h.node_on hi.1 hi.2.1 hon, h.node_on hj.1 hj.2.1 hon, Trees.node_congr hi.2.1.1 hon,
      Trees.node_congr hj.2.1.1 hon]
    constructor
    · exact h.rekeyed.apart i j l (h.all i hi.1) (h.all j hj.1) hi.2.1.1 hj.2.1.1 hboth
    · intro heq
      rw [h.rekeyed.shared i j l (h.all i hi.1) (h.all j hj.1) hi.2.1.1 hj.2.1.1 hboth heq]
  · rw [h.node_off hi.1 hi.2.1 hon, h.node_off hj.1 hj.2.1 hon]

/-- Blocks are still shared without gaps. -/
theorem contiguous : t.Contiguous := by
  intro i j k v l hi hj hk hij hjk heq
  have hi' := h.needed_iff.mp hi
  have hk' := h.needed_iff.mp hk
  rw [(h.rekeyed.snaps_eq i).2.1, (h.rekeyed.snaps_eq j).2.1] at hij
  rw [(h.rekeyed.snaps_eq j).2.1, (h.rekeyed.snaps_eq k).2.1] at hjk
  obtain ⟨hnj, hpba⟩ := h.sound.contiguous i j k v l hi' (h.rekeyed.tracked_iff.mp hj) hk' hij hjk
    ((h.pba_eq_iff hi' hk').mp heq)
  exact ⟨h.needed_iff.mpr hnj, (h.pba_eq_iff hnj hi').mpr hpba⟩

/-- The snapshots are still in order. -/
theorem ordered : t.Ordered g where
  valid := by
    rw [h.rekeyed.cur, (h.rekeyed.snaps_eq _).1]
    exact h.sound.ordered.valid
  gen_lt i hne hv := by
    rw [h.rekeyed.cur] at hne ⊢
    rw [(h.rekeyed.snaps_eq i).1] at hv
    rw [(h.rekeyed.snaps_eq i).2.1, (h.rekeyed.snaps_eq _).2.1]
    exact h.sound.ordered.gen_lt i hne hv
  gen_le := by
    rw [h.rekeyed.cur, (h.rekeyed.snaps_eq _).2.1]
    exact h.sound.ordered.gen_le
  gen_injOn i j hi hj := by
    rw [(h.rekeyed.snaps_eq i).1] at hi
    rw [(h.rekeyed.snaps_eq j).1] at hj
    rw [(h.rekeyed.snaps_eq i).2.1, (h.rekeyed.snaps_eq j).2.1]
    exact h.sound.ordered.gen_injOn i j hi hj

/-- **Sound trees stay sound under a rekeying step.** -/
theorem sound_after (hK : K.Advanced K' r) (hr : K.rekeying = true) (hfront : K.front = r) :
    Sound t K' es' g where
  admitted := by
    rw [h.rekeyed.degree]
    exact h.sound.admitted
  ordered := h.ordered
  forest := h.forest hK hr hfront
  hashed := h.hashed
  complete i hi := by
    have hi' := h.rekeyed.tracked_iff.mp hi
    rw [(h.rekeyed.snaps_eq i).2.2.2]
    exact ⟨(h.sound.complete i hi').1, fun v =>
      (h.present_iff hi').trans ((h.sound.complete i hi').2 v)⟩
  growing := h.growing
  contiguous := h.contiguous

/-- **The leaves** of the address have their data under the new key, the others are as
they were. -/
theorem leaf (hn : t₀.Needed i v 0) :
    t.blockOf (t.node i v 0)
      = if v = r then P.encrypt K.currentKeyId (P.decrypt K.previousKeyId
          (t₀.blockOf (t₀.node i v 0)))
        else t₀.blockOf (t₀.node i v 0) := by
  by_cases hvr : v = r
  · subst hvr
    rw [if_pos rfl, h.node_on hn.1 hn.2.1 rfl]
    exact h.rekeyed.data i (h.all i hn.1) (hn.2.2.resolve_left (lt_irrefl 0))
  · rw [if_neg hvr]
    refine h.blockOf_off hn.owned fun hon => hvr ?_
    unfold sameNode at hon
    rwa [pow_zero, Nat.div_one, Nat.div_one] at hon

end Complete

end Rekeyed

end Cbe
