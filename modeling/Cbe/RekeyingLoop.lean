import Cbe.RekeyingTrees
import Cbe.AllocationRequests

/-!
# The loop of a rekeying step

The branches of a rekeying step, one after the other: each is the turn of a
snapshot (`RekeyingSetup.rekeyStep_of_rekeyBranch`), and the loop over the
snapshots takes all of them that contain the address (`RekeyingSetup.loop`). The
requests of the step to the free tree agree on which entries are usable
(`rekeyUsable`), and what one of them puts back is usable for none.

A step of a rekeying is about one virtual address. It goes through the snapshots
from the current one to the oldest and gives the leaf of each its new key. Two
snapshots may share a part of their way to the address; the older one then takes
over what the newer one has got, so the blocks that they share are encrypted and
written once. That a snapshot is not harmed by the turn of another one rests on
two facts: the blocks that a turn draws are owned by no tree
(`RekeyingSetup.unowned`), and what it puts back to the stock is not usable
within the step (`RekeyingSetup.not_usable`).

The model of the code has the branch as a function, with the job as its state.
The abstract side is `Rekeyed`, the trees with some of the snapshots done.
`RekeyRun` ties the two together between two turns.
-/

namespace Cbe

variable {P : Platform}

/-! ## The requests of a step

All requests of a step are for the same generation and the same keys, and the
address of the rekeying is in each of them. They differ in the levels they ask
for and in what they give back: the current snapshot gives its old blocks away,
an older one leaves each entry with the block that it draws, which the entry
guards from then on. -/

/-- The entries that a rekeying step may use. -/
def rekeyUsable (ctx : AllocContext) (K : KeyState) (r : ℕ) (e : Type2Node) : Prop :=
  e.pba ≠ 0 ∧ e.pba ≠ pbaInvalid ∧ e.freeGen ≤ ctx.lastSecuredGen
    ∧ (e.reserved = false
      ∨ (ctx.rekeying = true ∧ e.lastKeyId = K.previousKeyId ∧ e.lastVba < r)
      ∨ ∀ i, ¬ e.UsedBy (ctx.activeSnaps i))

/-- The arguments of the job in a rekeying step. -/
structure RekeyingJob.Of (job : RekeyingJob P) (t₀ : Trees P) (K : KeyState) (r g : ℕ) :
    Prop where
  /-- The address of the step. -/
  vba : job.vba = r
  /-- The degree of the trees. -/
  degree : job.snapshotsDegree = t₀.degree
  /-- The key that is replaced. -/
  oldKey : job.oldKeyId = K.previousKeyId
  /-- The new key. -/
  newKey : job.newKeyId = K.currentKeyId
  /-- The generation at hand. -/
  currGen : job.currGen = g

section

variable {t₀ t : Trees P} {K : KeyState} {r g q : ℕ} {ctx : AllocContext}
  {job job' : RekeyingJob P} {es es' : List Type2Node}

/-- The arguments are those of the job after a branch. -/
theorem RekeyingJob.Of.frame (h : job.Of t₀ K r g) (hf : RekeyingJob.Frame job job') :
    job'.Of t₀ K r g where
  vba := hf.vba.trans h.vba
  degree := hf.snapshotsDegree.trans h.degree
  oldKey := hf.oldKeyId.trans h.oldKey
  newKey := hf.newKeyId.trans h.newKey
  currGen := hf.currGen.trans h.currGen

/-- The job begins with the next snapshot. -/
def RekeyingJob.begin (job : RekeyingJob P) (i : SnapshotsIndex) : RekeyingJob P :=
  { job with
    snapshotIdx := i
    firstSnapshot := false
    t1BlkIdx := (job.snapshots i).maxLevel }

/-- They are those of the job as the next snapshot begins. -/
theorem RekeyingJob.Of.begin {i : SnapshotsIndex} (h : job.Of t₀ K r g) :
    (job.begin i).Of t₀ K r g := ⟨h.vba, h.degree, h.oldKey, h.newKey, h.currGen⟩

/-- They are those of the job once the snapshot has its new root. -/
theorem RekeyingJob.Of.setRoot (h : job.Of t₀ K r g) : (rekeySetRoot job).Of t₀ K r g :=
  ⟨h.vba, h.degree, h.oldKey, h.newKey, h.currGen⟩

/-- The new blocks for the levels are kept as well. -/
theorem RekeyingJob.Filled.setRoot (h : job.Filled) : (rekeySetRoot job).Filled := by
  intro lvl hlvl
  refine h lvl (hlvl.trans_eq ?_)
  exact (rekeySetRoot_relocated job).maxLevel job.snapshotIdx

/-- What the job knows of a snapshot stays as the snapshot takes over its root. -/
theorem RekeyAt.setRoot {new : SnapshotsIndex → ℕ → Type1Node} {i : SnapshotsIndex}
    (h : RekeyAt t₀ t r i job new) : RekeyAt t₀ t r i (rekeySetRoot job) new :=
  ⟨h.path, h.oldPbas, h.stored, h.leaf⟩

/-- The requests of a step agree on the usable entries. -/
theorem checkType2LeafUsable_rekeyingRequest (h : job.Of t₀ K r g) (q : ℕ) (e : Type2Node) :
    checkType2LeafUsable (rekeyingRequest ctx job q) e ↔ rekeyUsable ctx K r e := by
  unfold checkType2LeafUsable rekeyUsable rekeyingRequest
  rw [h.oldKey, h.vba]

/-- The address after one that is not the last below a node is below it, too. -/
theorem sameNode_succ {degree lvl vba : ℕ} (h : vba < vbdNodeHighestVba degree lvl vba) :
    sameNode degree lvl (vba + 1) vba := by
  unfold vbdNodeHighestVba vbdNodeNrOfVbas vbdNodeLowestVba at h
  rw [Nat.mul_comm lvl, two_pow_log2_mul] at h
  unfold sameNode
  have hpos : 0 < treeRadix degree ^ lvl := Nat.pow_pos (treeRadix_pos degree)
  have hlt : vba + 1 < (vba / treeRadix degree ^ lvl + 1) * treeRadix degree ^ lvl := by
    rw [Nat.add_mul, Nat.one_mul]
    omega
  refine le_antisymm (Nat.le_of_lt_succ ((Nat.div_lt_iff_lt_mul hpos).mpr hlt)) ?_
  exact Nat.div_le_div_right (Nat.le_succ vba)

/-- **An entry for a block of an old generation** stays with the block, and guards it when
the rekeying has gone on. -/
theorem exchangeType2Leaf_forRkgOldGenBlks {req : AllocRequest} {lvl : ℕ} {e e' : Type2Node}
    (htag : req.tag = .forRkgOldGenBlks) (h : exchangeType2Leaf req lvl e = some e')
    (hvba : req.rekeyingVba = req.vba) :
    e'.pba = e.pba ∧ e'.reserved = true ∧ sameNode req.vbdDegree lvl e'.lastVba req.vba
      ∧ ((e'.lastKeyId = req.previousKeyId ∧ e'.lastVba = req.vba + 1)
        ∨ e'.lastKeyId = req.currentKeyId) := by
  unfold exchangeType2Leaf at h
  rw [htag] at h
  dsimp only at h
  split_ifs at h with hlt hle
  · obtain rfl := Option.some.inj h
    rw [hvba] at hlt
    refine ⟨rfl, rfl, ?_, Or.inl ⟨rfl, by rw [← hvba]⟩⟩
    show sameNode _ _ (req.rekeyingVba + 1) _
    rw [hvba]
    exact sameNode_succ hlt.1
  · obtain rfl := Option.some.inj h
    exact ⟨rfl, rfl, sameNode_vbdNodeLowestVba _ _ _, Or.inr rfl⟩

end

/-! ## The turn of a snapshot

One branch, seen from the trees: the snapshot at hand gets a new way to the
address, and the others keep theirs. What has to be checked of the branch's
request is collected in `Asks`; the lemmas below follow the conditions of
`RekeyStep` one by one. -/

/-- **The trees, the keys and the stock when a rekeying step begins**, with what the
library adds to the requests. -/
structure RekeyingSetup (t₀ : Trees P) (K : KeyState) (r g : ℕ) (ctx : AllocContext)
    (es : List Type2Node) : Prop where
  /-- The trees are sound. -/
  sound : Sound t₀ K es g
  /-- A rekeying is in progress. -/
  rekeying : K.rekeying = true
  /-- The address of the step is the one that it does next. -/
  front : K.front = r
  /-- The two keys are different. -/
  key_ne : K.previousKeyId ≠ K.currentKeyId
  /-- The one that is replaced is older. -/
  key_le : K.previousKeyId ≤ K.currentKeyId
  /-- The requests know the snapshots that count. -/
  active : ∀ i, t₀.Tracked i → (ctx.activeSnaps i).valid = true
    ∧ (ctx.activeSnaps i).gen = (t₀.snaps i).gen
  /-- What is written now is newer than what was secured. -/
  lastSecured : ctx.lastSecuredGen < g
  /-- It is not of the last generation. -/
  last : g < generationLast
  /-- The trees have two levels above their leaves at least. -/
  maxLevel : ∀ i, t₀.Tracked i → 2 ≤ (t₀.snaps i).maxLevel
  /-- Every valid snapshot counts. -/
  tracked : ∀ i, (t₀.snaps i).valid = true → t₀.Tracked i
  /-- The current one contains the address. -/
  contains : r < (t₀.snaps t₀.cur).nrOfLeafs

/-- **Whose turn it is**: the current snapshot's first, then that of the newest
one that is left, with what the job knows of the one before. The comparison of a
node with the one before is a comparison with that snapshot's way. -/
inductive RekeyTurn (t₀ t : Trees P) (r : ℕ) (done : SnapshotsIndex → Prop)
    (new : SnapshotsIndex → ℕ → Type1Node) (i : SnapshotsIndex) (job : RekeyingJob P) : Prop
  | first (hfirst : job.firstSnapshot = true) (hcur : i = t₀.cur) (hnone : ∀ j, ¬ done j)
  | next (p : SnapshotsIndex) (hfirst : job.firstSnapshot = false) (hne : i ≠ t₀.cur)
      (hcur : done t₀.cur) (hp : done p) (hat : RekeyAt t₀ t r p job new)
      (hgen : (t₀.snaps i).gen ≤ (t₀.snaps p).gen)
      (holdest : ∀ j, done j → (t₀.snaps p).gen ≤ (t₀.snaps j).gen)

namespace RekeyingSetup

variable {t₀ t : Trees P} {K : KeyState} {r g q l : ℕ} {ctx : AllocContext}
  {es es' : List Type2Node} {job job' : RekeyingJob P} {ws ws' : Workspace P}
  {done : SnapshotsIndex → Prop} {new : SnapshotsIndex → ℕ → Type1Node} {out : List Draw}
  {i : SnapshotsIndex}

/-- The requests fit the trees. -/
theorem fits (h : RekeyingSetup t₀ K r g ctx es) (hjob : job.Of t₀ K r g) (q : ℕ) :
    (rekeyingRequest ctx job q).Fits t₀ K where
  snaps i hi := by
    obtain ⟨hvalid, hgen⟩ := h.active i hi
    refine ⟨hvalid, hgen, lt_of_le_of_lt ?_ h.last⟩
    exact (h.sound.ordered.gen_le_cur hi.1).trans h.sound.ordered.gen_le
  keys _ := ⟨h.rekeying, hjob.oldKey, hjob.vba.trans h.front.symm⟩

/-- **No usable entry has a block that a tree owns.** -/
theorem unowned (h : RekeyingSetup t₀ K r g ctx es) :
    ∀ e ∈ es, rekeyUsable ctx K r e → ∀ i v l, t₀.Owned i v l → (t₀.node i v l).pba ≠ e.pba := by
  intro e he hu i v l ho
  have hjob : RekeyingJob.Of { RekeyingJob.initial P with
      vba := r, snapshotsDegree := t₀.degree, oldKeyId := K.previousKeyId
      newKeyId := K.currentKeyId, currGen := g } t₀ K r g := ⟨rfl, rfl, rfl, rfl, rfl⟩
  exact h.sound.forest.pba_ne_of_usable (h.fits hjob 0) he
    ((checkType2LeafUsable_rekeyingRequest hjob 0 e).mpr hu) ho

/-- What the current snapshot gives up comes back too late for the step. -/
theorem not_usable_first (h : RekeyingSetup t₀ K r g ctx es) (hjob : job.Of t₀ K r g)
    (hfirst : job.firstSnapshot = true) {e e' : Type2Node}
    (he : exchangeType2Leaf (rekeyingRequest ctx job q) l e = some e') :
    ¬ rekeyUsable ctx K r e' := by
  intro hu
  have hfree := (exchangeType2Leaf_gens he).2
  have hle := hu.2.2.1
  rw [hfree] at hle
  unfold rekeyingRequest at hle
  rw [hfirst, if_pos rfl, hjob.currGen] at hle
  exact absurd hle (not_le.mpr h.lastSecured)

/-- **What an older snapshot draws** is guarded for it. -/
theorem guard_next (h : RekeyingSetup t₀ K r g ctx es) (hjob : job.Of t₀ K r g)
    (hfirst : job.firstSnapshot = false) (hi : t₀.Tracked i) (hsnap : job.snapshot = t₀.snaps i)
    {x : Draw} {e : Type2Node} (hpba : e.pba = x.pba)
    (he : exchangeType2Leaf (rekeyingRequest ctx job q) l e = some x.entry) :
    RekeyGuard t₀ K r i l x := by
  have htag : (rekeyingRequest ctx job q).tag = .forRkgOldGenBlks := by
    unfold rekeyingRequest
    rw [hfirst]
    rfl
  obtain ⟨hsame, hres, hlast, hkey⟩ := exchangeType2Leaf_forRkgOldGenBlks htag he rfl
  have hfree := (exchangeType2Leaf_gens he).2
  have hgen : (t₀.snaps i).gen < generationLast :=
    lt_of_le_of_lt ((h.sound.ordered.gen_le_cur hi.1).trans h.sound.ordered.gen_le) h.last
  refine ⟨hsame.trans hpba, hres, ?_, ?_, ?_, fun hprev => ?_⟩
  · rw [hfree]
    unfold rekeyingRequest
    rw [hfirst, hsnap]
    show _ < nextGeneration _
    rw [nextGeneration_of_lt hgen]
    exact Nat.lt_succ_self _
  · rw [← hjob.degree, ← hjob.vba]
    exact hlast
  · rcases hkey with ⟨hkey, -⟩ | hkey
    · rw [hkey]
      exact hjob.oldKey.trans_le h.key_le
    · rw [hkey]
      exact hjob.newKey.le
  · rcases hkey with ⟨-, hvba⟩ | hkey
    · rw [hvba]
      show r < job.vba + 1
      rw [hjob.vba]
      exact Nat.lt_succ_self r
    · exact absurd (hprev.symm.trans (hkey.trans hjob.newKey)) h.key_ne

/-- An entry that guards the block of an older snapshot is not usable. -/
theorem not_usable_next (h : RekeyingSetup t₀ K r g ctx es) (hi : t₀.Tracked i) {x : Draw}
    (hg : RekeyGuard t₀ K r i l x) (halloc : x.entry.allocGen ≤ (t₀.snaps i).gen) :
    ¬ rekeyUsable ctx K r x.entry := by
  rintro ⟨-, -, -, hres | ⟨-, hkey, hvba⟩ | hunused⟩
  · exact absurd (hg.reserved.symm.trans hres) (by decide)
  · exact absurd (hg.front hkey) (by omega)
  · obtain ⟨hvalid, hgen⟩ := h.active i hi
    have hlast : (t₀.snaps i).gen < generationLast :=
      lt_of_le_of_lt ((h.sound.ordered.gen_le_cur hi.1).trans h.sound.ordered.gen_le) h.last
    refine hunused i ⟨hvalid, ?_, ?_⟩
    · rw [hgen]
      exact hg.free
    · rw [hgen, nextGeneration_of_lt hlast]
      exact Nat.lt_succ_of_le halloc

/-- The nodes on the way to the address in a snapshot whose turn is still to come. -/
theorem nodeAt_eq (h : RekeyingSetup t₀ K r g ctx es) (hR : Rekeyed t₀ t K r done new out)
    (hD : Drawn (rekeyUsable ctx K r) es es' out) (hi : t₀.Tracked i)
    (hcontains : r < (t₀.snaps i).nrOfLeafs) (hundone : ¬ done i)
    (hl : l ≤ (t₀.snaps i).maxLevel) :
    nodeAt t.store t₀.degree (t₀.snaps i) r l = t₀.node i r l := by
  have hleft := hR.leftAlone h.unowned hD hi hundone
  have heq := hleft.node_eq (h.sound.present hi hcontains hl)
  unfold Trees.node at heq
  rw [hR.degree, hR.undone i hundone] at heq
  exact heq

/-- **What was not shared with the snapshot before** is shared with none that is done. -/
theorem apart (h : RekeyingSetup t₀ K r g ctx es) (hR : Rekeyed t₀ t K r done new out)
    {s' : Store P} (hi : t₀.Tracked i) (hcontains : r < (t₀.snaps i).nrOfLeafs)
    (hturn : RekeyTurn t₀ t r done new i job)
    (hroot : job.firstSnapshot = false →
      job.t1BlksOldPbas (t₀.snaps i).maxLevel ≠ (t₀.snaps i).pba)
    (hbranch : Branch t.store s' (t₀.node i r) (t₀.snaps i).maxLevel q (t₀.snaps i).maxLevel
      job job') {j : SnapshotsIndex} (hj : done j) (hq : q ≤ l)
    (hli : l ≤ (t₀.snaps i).maxLevel) (hlj : l ≤ (t₀.snaps j).maxLevel)
    (hn : 0 < l ∨ ((t₀.node i r l).gen ≠ 0 ∧ (t₀.node j r l).gen ≠ 0)) :
    (t₀.node i r l).pba ≠ (t₀.node j r l).pba := by
  intro heq
  cases hturn with
  | first _ _ hnone => exact hnone j hj
  | next p hfirst hne hcur hp hat hgen holdest =>
    obtain ⟨htj, hcj⟩ := hR.tracked j hj
    obtain ⟨hneedp, hpba⟩ := h.sound.contiguous i p j r l
      ⟨hi, h.sound.present hi hcontains hli, hn.imp_right And.left⟩ (hR.tracked p hp).1
      ⟨htj, h.sound.present htj hcj hlj, hn.imp_right And.right⟩ hgen (holdest j hj) heq
    have hmax := (h.sound.growing i p hi (hR.tracked p hp).1 hgen).1
    have hold : job.oldPba l = (t₀.node i r l).pba := by
      rw [← hpba]
      rcases Nat.eq_zero_or_pos l with rfl | hpos
      · exact (hat.leaf (hneedp.2.2.resolve_left (lt_irrefl 0))).1
      · obtain ⟨k, rfl⟩ := Nat.exists_eq_succ_of_ne_zero hpos.ne'
        exact hat.oldPbas (k + 1) hpos (hli.trans hmax)
    rcases Nat.lt_or_eq_of_le hli with hlt | rfl
    · exact hbranch.unshared l hq hlt hfirst hold
    · refine hroot hfirst ?_
      obtain ⟨k, hk⟩ := Nat.exists_eq_succ_of_ne_zero
        (show (t₀.snaps i).maxLevel ≠ 0 by have := h.maxLevel i hi; omega)
      rw [Trees.node_maxLevel] at hold
      rw [hk] at hold ⊢
      exact hold

/-- **What a job asks the free tree for**, in the turn of a snapshot: blocks for
the levels from one up, in exchange for those of the snapshot on the way to the
address. -/
structure Asks (t₀ : Trees P) (K : KeyState) (r g : ℕ) (ctx : AllocContext) (i : SnapshotsIndex)
    (q : ℕ) (job : RekeyingJob P) : Prop where
  /-- The job has the arguments of the step. -/
  fits : job.Of t₀ K r g
  /-- The snapshot at hand is the one whose turn it is. -/
  snapshot : job.snapshot = t₀.snaps i
  /-- What comes back are the nodes on its way. -/
  oldBlocks : ∀ l ∈ lvlsFrom q (t₀.snaps i).maxLevel,
    (rekeyingRequest ctx job q).oldBlocks l = t₀.node i r l

/-- The current snapshot gives its own blocks back. -/
theorem Asks.returnedPba_first (ha : Asks t₀ K r g ctx i q job)
    (hfirst : job.firstSnapshot = true) (newPbas : NewPbas)
    (hl : l ∈ lvlsFrom q (t₀.snaps i).maxLevel) :
    returnedPba (rekeyingRequest ctx job q) newPbas l = (t₀.node i r l).pba := by
  unfold returnedPba
  rw [ha.oldBlocks l hl]
  unfold rekeyingRequest
  rw [hfirst]
  rfl

/-- An older one leaves the entries with the blocks that it draws. -/
theorem returnedPba_next (hfirst : job.firstSnapshot = false) (newPbas : NewPbas) (l : ℕ) :
    returnedPba (rekeyingRequest ctx job q) newPbas l = newPbas l := by
  unfold returnedPba rekeyingRequest
  rw [hfirst]
  rfl

/-- **What comes back to the stock for a level is in no other entry**: for the
current snapshot because a tree has it, for an older one because it is the block
just drawn. -/
theorem stock_nodup (h : RekeyingSetup t₀ K r g ctx es) (hR : Rekeyed t₀ t K r done new out)
    {entries entries' : List Type2Node} {newPbas : NewPbas}
    (hD : Drawn (rekeyUsable ctx K r) es entries out) (hi : t₀.Tracked i)
    (hcontains : r < (t₀.snaps i).nrOfLeafs) (hturn : RekeyTurn t₀ t r done new i job)
    (ha : Asks t₀ K r g ctx i q job') (hfirst' : job'.firstSnapshot = job.firstSnapshot)
    (hhand : Handout (rekeyingRequest ctx job' q) (lvlsFrom q (t₀.snaps i).maxLevel) newPbas
      entries entries') : (stockPbas entries').Nodup := by
  cases hturn with
  | first hfirst hcur hnone =>
    have hret := fun l => ha.returnedPba_first (l := l) (hfirst'.trans hfirst) newPbas
    have hown : ∀ l ∈ lvlsFrom q (t₀.snaps i).maxLevel, t₀.Owned i r l := fun l hl =>
      ⟨hi, h.sound.present hi hcontains (mem_lvlsFrom.mp hl).2, Or.inr (Or.inr hcur)⟩
    refine hhand.nodup ?_ (fun l hl => ?_) fun l hl e he h0 _ => ?_
    · refine (List.nodup_map_iff_inj_on (lvlsFrom_nodup _ _)).mpr fun l hl k hk heq => ?_
      rw [hret l hl, hret k hk] at heq
      exact h.sound.forest.level_injOn (hown l hl) (hown k hk) heq
    · rw [hret l hl]
      exact (hown l hl).2.1.pba_ne_zero
    · -- nothing was drawn yet, so the entry is one of the stock of before
      rw [hret l hl]
      rcases hD.mem e he with ⟨he', -⟩ | ⟨x, hx, -⟩
      · subst hcur
        exact h.sound.forest.current r l (hown l hl) e he'
      · rcases hR.entry x hx with ⟨hd, -⟩ | ⟨hd, -⟩
        · exact absurd hd (hnone _)
        · exact absurd hd (hnone _)
  | next p hfirst hne hcur hp hat hgen holdest =>
    have hret : ∀ l, returnedPba (rekeyingRequest ctx job' q) newPbas l = newPbas l :=
      returnedPba_next (hfirst'.trans hfirst) newPbas
    refine hhand.nodup ?_ (fun l hl => ?_) fun l hl e _ h0 hne => ?_
    · refine (List.nodup_map_iff_inj_on (lvlsFrom_nodup _ _)).mpr fun l hl k hk heq => ?_
      rw [hret l, hret k] at heq
      exact hhand.injOn l hl k hk heq
    · rw [hret l]
      obtain ⟨e, -, -, -, hu, hpba, -⟩ := hhand.taken l hl
      rw [← hpba]
      exact hu.1
    · rw [hret l]
      exact hne l hl

/-- **What comes back to the stock is not usable** for the rest of the step. -/
theorem not_usable (h : RekeyingSetup t₀ K r g ctx es) (hi : t₀.Tracked i)
    (hcontains : r < (t₀.snaps i).nrOfLeafs) (ha : Asks t₀ K r g ctx i q job)
    (hl : l ∈ lvlsFrom q (t₀.snaps i).maxLevel) {e e' : Type2Node}
    (he : exchangeType2Leaf (rekeyingRequest ctx job q) l e = some e') :
    ¬ rekeyUsable ctx K r e' := by
  cases hfirst : job.firstSnapshot with
  | true => exact h.not_usable_first ha.fits hfirst he
  | false =>
    refine h.not_usable_next (x := ⟨e.pba, l, e'⟩) hi
      (h.guard_next ha.fits hfirst hi ha.snapshot rfl he) ?_
    show e'.allocGen ≤ _
    rw [(exchangeType2Leaf_gens he).1, ha.oldBlocks l hl]
    -- a node that was never written is of generation zero
    by_cases h0 : (t₀.node i r l).gen = 0
    · rw [h0]
      exact Nat.zero_le _
    · exact h.sound.forest.gen_le i r l
        ⟨hi, h.sound.present hi hcontains (mem_lvlsFrom.mp hl).2, Or.inr (Or.inl h0)⟩

/-- **The turn of a snapshot**: a branch that is rekeyed is a step of the
rekeying of the trees. The facts about the branch come from `rekeyBranch_spec`,
those about the stock from the lemmas above. -/
theorem rekeyStep_of_rekeyBranch (h : RekeyingSetup t₀ K r g ctx es)
    (hR : Rekeyed t₀ t K r done new out)
    (hD : Drawn (rekeyUsable ctx K r) es ws.pools.freeTree.entries out)
    (hstore : ws.store = t.store) (hmeta : ∀ pba ∈ ws.pools.metaPbas, pba ≠ 0)
    (hjob : job.Of t₀ K r g) (hi : t₀.Tracked i) (hcontains : r < (t₀.snaps i).nrOfLeafs)
    (hundone : ¬ done i) (hsnap : job.snapshot = t₀.snaps i)
    (hturn : RekeyTurn t₀ t r done new i job)
    (hroot : job.firstSnapshot = false →
      job.t1BlksOldPbas (t₀.snaps i).maxLevel ≠ (t₀.snaps i).pba)
    (hkept : job.firstSnapshot = true ∨ job.Filled)
    (hrun : rekeyBranch ctx ws job = some (ws', job')) :
    ∃ q out', RekeyStep t₀ t K r done new out' i q ws'.store job job'
      ∧ Drawn (rekeyUsable ctx K r) es ws'.pools.freeTree.entries (out ++ out') := by
  have hmax := h.maxLevel i hi
  have hretained : job.firstSnapshot = false →
      ∀ k, k < job.snapshot.maxLevel → job.newPbas k ≠ 0 := by
    intro hfirst k hk
    rcases hkept with hfirst' | hfilled
    · exact absurd (hfirst.symm.trans hfirst') (by decide)
    · exact hfilled k hk.le
  obtain ⟨q, job₁, hq, hframe, hwalk, hhand, hbranch, -⟩ := rekeyBranch_spec hrun
    (by rw [hjob.degree]; exact h.sound.admitted) (by rw [hsnap]; exact hmax) hmeta hD.stock
    hretained
  rw [hsnap, hstore, hjob.degree, hjob.vba] at hwalk hbranch
  rw [hsnap] at hq hhand
  have hnode : ∀ k, k ≤ (t₀.snaps i).maxLevel →
      nodeAt t.store t₀.degree (t₀.snaps i) r k = t₀.node i r k :=
    fun k hk => h.nodeAt_eq hR hD hi hcontains hundone hk
  have hbranch' := hbranch.congr (by omega) hnode
  have ha : Asks t₀ K r g ctx i q job₁ := by
    refine ⟨hjob.frame hframe, hframe.snapshot.trans hsnap, fun l hl => ?_⟩
    obtain ⟨hql, hlm⟩ := mem_lvlsFrom.mp hl
    exact (hwalk l hql hlm).trans (hnode l hlm)
  -- the current snapshot shares nothing, so its branch goes down to the leaf
  have hq0 : job.firstSnapshot = true → q = 0 := by
    intro hfirst
    by_contra hpos
    have hshared := (hbranch'.shared (Nat.pos_of_ne_zero hpos)).1
    exact absurd (hfirst.symm.trans hshared) (by decide)
  obtain ⟨out', hD', hnew, hall⟩ := hD.handout hhand
    (fun e => (checkType2LeafUsable_rekeyingRequest ha.fits q e).mp) (fun e hu => hu.1)
    (fun l hl e e' => h.not_usable hi hcontains ha hl) (lvlsFrom_nodup _ _)
    (h.stock_nodup hR hD hi hcontains hturn ha hframe.firstSnapshot hhand)
  refine ⟨q, out', ?_, hD'⟩
  exact {
    tracked := hi
    contains := hcontains
    undone := hundone
    vba := hjob.vba
    degree := hjob.degree
    oldKey := hjob.oldKey
    newKey := hjob.newKey
    minLvl_le := by omega
    maxLevel_pos := by omega
    branch := hbranch'
    prev := fun hpos => by
      cases hturn with
      | first hfirst => exact absurd (hq0 hfirst) hpos.ne'
      | next p _ _ _ hp hat hgen _ => exact ⟨p, hp, hat, hgen⟩
    first := by
      cases hturn with
      | first hfirst hcur hnone => exact Or.inl ⟨hcur, hq0 hfirst, hnone⟩
      | next p _ hne hcur => exact Or.inr ⟨hne, hcur⟩
    apart := fun j l hj hql hli hlj hn =>
      h.apart hR hi hcontains hturn hroot hbranch' hj hql hli hlj hn
    draws := fun l hql hl => by
      have hmem := mem_lvlsFrom.mpr ⟨hql, hl⟩
      obtain ⟨x, hx, hpba, hlvl, e, hepba, he⟩ := hnew l hmem
      refine ⟨x, hx, hpba, hlvl, ?_, ?_⟩
      · rw [(exchangeType2Leaf_gens he).1, ha.oldBlocks l hmem]
      · cases hturn with
        | first _ hcur => exact Or.inl hcur
        | next p hfirst =>
          exact Or.inr (h.guard_next ha.fits (hframe.firstSnapshot.trans hfirst) hi ha.snapshot
            (hepba.trans hpba.symm) he)
    entry := fun x hx => by
      obtain ⟨hmem, hpba, e, hepba, he⟩ := hall x hx
      cases hturn with
      | first hfirst hcur =>
        rw [if_pos hcur]
        refine ⟨(mem_lvlsFrom.mp hmem).2, hpba, ?_⟩
        rw [exchangeType2Leaf_pba he hepba.symm]
        exact ha.returnedPba_first (hframe.firstSnapshot.trans hfirst) _ hmem
      | next p hfirst hne =>
        rw [if_neg hne]
        have hg := h.guard_next ha.fits (hframe.firstSnapshot.trans hfirst) hi ha.snapshot
          (hepba.trans hpba.symm) he
        exact hg.pba }

end RekeyingSetup

/-! ## The loop

After its turn a snapshot takes over its new root, and the loop looks for the
newest one that is older and contains the address. It ends when there is none.
-/

/-- **A rekeying step between two snapshots**: the snapshot at hand has its new root, and
those that contain the address and are not older are done. -/
structure RekeyRun (t₀ : Trees P) (K : KeyState) (r g : ℕ) (ctx : AllocContext)
    (es : List Type2Node) (ws : Workspace P) (job : RekeyingJob P) (t : Trees P)
    (done : SnapshotsIndex → Prop) (new : SnapshotsIndex → ℕ → Type1Node) (out : List Draw) :
    Prop where
  /-- The snapshots are those of the job. -/
  snaps : t.snaps = job.snapshots
  /-- The blocks are those on the disk. -/
  store : t.store = ws.store
  /-- Those that are done are rekeyed. -/
  rekeyed : Rekeyed t₀ t K r done new out
  /-- The new blocks were drawn from the stock. -/
  drawn : Drawn (rekeyUsable ctx K r) es ws.pools.freeTree.entries out
  /-- The meta tree hands out no block with the address zero. -/
  metaPbas : ∀ pba ∈ ws.pools.metaPbas, pba ≠ 0
  /-- The job has the arguments of the step. -/
  args : job.Of t₀ K r g
  /-- The current snapshot is done. -/
  cur : done t₀.cur
  /-- So is the one at hand. -/
  hand : done job.snapshotIdx
  /-- Done are those that contain the address and are not older than the one at
  hand. -/
  done_iff : ∀ j, done j ↔ t₀.Tracked j ∧ r < (t₀.snaps j).nrOfLeafs
    ∧ (t₀.snaps job.snapshotIdx).gen ≤ (t₀.snaps j).gen
  /-- The job knows the branch of the one at hand. -/
  at_hand : RekeyAt t₀ t r job.snapshotIdx job new
  /-- All levels of it have a new address. -/
  filled : job.Filled

namespace RekeyRun

variable {t₀ t : Trees P} {K : KeyState} {r g q : ℕ} {ctx : AllocContext}
  {es : List Type2Node} {job job' : RekeyingJob P} {ws ws' : Workspace P}
  {done : SnapshotsIndex → Prop} {new : SnapshotsIndex → ℕ → Type1Node} {out out' : List Draw}
  {i : SnapshotsIndex}

/-- The snapshots keep everything but their roots. -/
theorem relocated (h : Rekeyed t₀ t K r done new out) : Relocated t₀.snaps t.snaps := by
  intro i
  by_cases hd : done i
  · rw [h.relocated i hd]
  · rw [h.undone i hd]

/-- **The end of a turn**: the snapshot takes over its new root. -/
theorem of_step (hset : RekeyingSetup t₀ K r g ctx es) (hR : Rekeyed t₀ t K r done new out)
    (hsnaps : t.snaps = job.snapshots) (hidx : job.snapshotIdx = i)
    (hjob : job.Of t₀ K r g) (hstep : RekeyStep t₀ t K r done new out' i q ws'.store job job')
    (hD : Drawn (rekeyUsable ctx K r) es ws'.pools.freeTree.entries (out ++ out'))
    (hmeta : ∀ pba ∈ ws'.pools.metaPbas, pba ≠ 0) (hfilled : job'.Filled)
    (hdone : ∀ j, (done j ∨ j = i) ↔ t₀.Tracked j ∧ r < (t₀.snaps j).nrOfLeafs
      ∧ (t₀.snaps i).gen ≤ (t₀.snaps j).gen) :
    RekeyRun t₀ K r g ctx es ws' (rekeySetRoot job') (rekeyedTrees t ws'.store i job')
      (fun j => done j ∨ j = i) (RekeyStep.newPaths t₀ r new i job') (out ++ out') := by
  have hframe := hstep.branch.frame
  have hsnap : job'.snapshot = t.snaps i := by
    rw [hframe.snapshot, hsnaps, ← hidx]
    rfl
  have hmax : (t.snaps i).maxLevel = (t₀.snaps i).maxLevel := by rw [hR.undone i hstep.undone]
  exact {
    snaps := by
      show Function.update t.snaps i _ = Function.update job'.snapshots job'.snapshotIdx _
      rw [hsnap, hframe.snapshots, hframe.snapshotIdx, hidx, ← hsnaps, hstep.branch.idx, hmax]
      obtain ⟨m, hm⟩ := Nat.exists_eq_succ_of_ne_zero hstep.maxLevel_pos.ne'
      rw [hm, RekeyingJob.lvlHash_succ]
    store := rfl
    rekeyed := hstep.rekeyed hset.sound hR hset.unowned (fun e hu => hu.1) hD
    drawn := hD
    metaPbas := hmeta
    args := (hjob.frame hframe).setRoot
    cur := by
      rcases hstep.first with ⟨hcur, -⟩ | ⟨-, hcur⟩
      · exact Or.inr hcur.symm
      · exact Or.inl hcur
    hand := by
      show _ ∨ job'.snapshotIdx = i
      rw [hframe.snapshotIdx]
      exact Or.inr hidx
    done_iff := by
      show ∀ j, _ ↔ _ ∧ _ ∧ (t₀.snaps job'.snapshotIdx).gen ≤ _
      rw [hframe.snapshotIdx, hidx]
      exact hdone
    at_hand := by
      show RekeyAt t₀ _ r job'.snapshotIdx _ _
      rw [hframe.snapshotIdx, hidx]
      exact (hstep.rekeyAt hset.sound hR hD).setRoot
    filled := hfilled.setRoot }

section

variable (hset : RekeyingSetup t₀ K r g ctx es)
  (h : RekeyRun t₀ K r g ctx es ws job t done new out)

include h

/-- The rekeying changes no generation. -/
theorem snapshot_gen (j : SnapshotsIndex) : (job.snapshots j).gen = (t₀.snaps j).gen := by
  rw [← h.snaps, (relocated h.rekeyed).gen]

include hset

/-- A candidate for the next turn is one of the snapshots that are left. -/
theorem candidate_iff (j : SnapshotsIndex) :
    ((job.snapshots j).valid = true ∧ snapshotContainsVba (job.snapshots j) job.vba
        ∧ (job.snapshots j).gen < job.snapshot.gen)
      ↔ t₀.Tracked j ∧ r < (t₀.snaps j).nrOfLeafs ∧ ¬ done j := by
  have hrel := relocated h.rekeyed
  unfold snapshotContainsVba RekeyingJob.snapshot
  rw [h.snapshot_gen, h.snapshot_gen, ← h.snaps, hrel.valid, hrel.nrOfLeafs, h.args.vba, h.done_iff]
  constructor
  · rintro ⟨hv, hr, hlt⟩
    have htr := hset.tracked j hv
    have hpos := (hset.sound.complete j htr).1
    exact ⟨htr, by omega, fun hle => absurd hle.2.2 (not_le.mpr hlt)⟩
  · rintro ⟨htr, hr, hundone⟩
    refine ⟨htr.1, by omega, ?_⟩
    by_contra hlt
    exact hundone ⟨htr, hr, not_lt.mp hlt⟩

/-- **The next turn** is that of the newest snapshot that is left. -/
theorem next_spec {i : SnapshotsIndex} (hnext : nextSnapshotIdx job = some i) :
    (t₀.Tracked i ∧ r < (t₀.snaps i).nrOfLeafs ∧ ¬ done i)
      ∧ RekeyTurn t₀ t r done new i (job.begin i)
      ∧ ∀ j, (done j ∨ j = i) ↔ t₀.Tracked j ∧ r < (t₀.snaps j).nrOfLeafs
        ∧ (t₀.snaps i).gen ≤ (t₀.snaps j).gen := by
  obtain ⟨-, hcand, hmax⟩ := Selection.firstMax_spec hnext
  obtain ⟨htr, hr, hundone⟩ := (h.candidate_iff hset i).mp hcand
  have hgen : (t₀.snaps i).gen < (t₀.snaps job.snapshotIdx).gen := by
    have := hcand.2.2
    unfold RekeyingJob.snapshot at this
    rwa [h.snapshot_gen, h.snapshot_gen] at this
  refine ⟨⟨htr, hr, hundone⟩, ?_, fun j => ⟨?_, ?_⟩⟩
  · exact .next job.snapshotIdx rfl (fun heq => hundone (heq ▸ h.cur)) h.cur h.hand
      ⟨h.at_hand.path, h.at_hand.oldPbas, h.at_hand.stored, h.at_hand.leaf⟩ hgen.le
      fun j hj => ((h.done_iff j).mp hj).2.2
  · rintro (hj | rfl)
    · obtain ⟨htrj, hrj, hle⟩ := (h.done_iff j).mp hj
      exact ⟨htrj, hrj, hgen.le.trans hle⟩
    · exact ⟨htr, hr, le_rfl⟩
  · rintro ⟨htrj, hrj, hle⟩
    by_cases hj : done j
    · exact Or.inl hj
    · have hle' := hmax j (List.mem_finRange j) ((h.candidate_iff hset j).mpr ⟨htrj, hrj, hj⟩)
      rw [h.snapshot_gen, h.snapshot_gen] at hle'
      exact Or.inr (hset.sound.ordered.gen_injOn j i htrj.1 htr.1 (le_antisymm hle' hle))

/-- When no snapshot is left, all that contain the address are done. -/
theorem done_of_none (hnone : nextSnapshotIdx job = none) (j : SnapshotsIndex) :
    done j ↔ t₀.Tracked j ∧ r < (t₀.snaps j).nrOfLeafs := by
  refine ⟨fun hj => h.rekeyed.tracked j hj, fun ⟨htr, hr⟩ => ?_⟩
  by_contra hundone
  exact Selection.firstMax_eq_none_iff.mp hnone j (List.mem_finRange j)
    ((h.candidate_iff hset j).mpr ⟨htr, hr, hundone⟩)

/-- There are new blocks for the levels of the next one. -/
theorem filled_begin {i : SnapshotsIndex} (hnext : nextSnapshotIdx job = some i) :
    (job.begin i).Filled := by
  obtain ⟨⟨htr, -, -⟩, -, hdone⟩ := h.next_spec hset hnext
  intro lvl hlvl
  refine h.filled lvl (hlvl.trans ?_)
  show (job.snapshots i).maxLevel ≤ (job.snapshots job.snapshotIdx).maxLevel
  rw [← h.snaps, (relocated h.rekeyed).maxLevel, (relocated h.rekeyed).maxLevel]
  obtain ⟨htrp, -, hle⟩ := (hdone job.snapshotIdx).mp (Or.inl h.hand)
  exact (hset.sound.growing i job.snapshotIdx htr htrp hle).1

/-- **A snapshot that shares the root** of the one before takes over the new
one. No block is asked for and none is written. -/
theorem skip {i : SnapshotsIndex} (hnext : nextSnapshotIdx job = some i)
    (hroot : (job.begin i).t1BlksOldPbas (job.begin i).t1BlkIdx = (job.begin i).snapshot.pba) :
    ∃ t' done' new' out', RekeyRun t₀ K r g ctx es ws (rekeySetRoot (job.begin i)) t' done' new'
      out' := by
  obtain ⟨⟨htr, hr, hundone⟩, hturn, hdone⟩ := h.next_spec hset hnext
  have hmax := hset.maxLevel i htr
  have hsnap : job.snapshots i = t₀.snaps i := by rw [← h.snaps, h.rekeyed.undone i hundone]
  have hroot' : job.t1BlksOldPbas (t₀.snaps i).maxLevel = (t₀.snaps i).pba := by
    rw [← hsnap]
    exact hroot
  have hbranch : Branch t.store t.store (t₀.node i r) (t₀.snaps i).maxLevel
      ((t₀.snaps i).maxLevel + 1) (t₀.snaps i).maxLevel (job.begin i) (job.begin i) := by
    refine Branch.skip rfl (by omega) ?_ ?_
    · show (job.snapshots i).maxLevel = _
      rw [hsnap]
    · rw [Trees.node_maxLevel]
      exact hroot'
  cases hturn with
  | first hfirst => exact absurd hfirst (by simp [RekeyingJob.begin])
  | next p _ hne hcur hp hat hgen _ =>
    have hstep : RekeyStep t₀ t K r done new [] i ((t₀.snaps i).maxLevel + 1) ws.store
        (job.begin i) (job.begin i) := {
      tracked := htr
      contains := hr
      undone := hundone
      vba := h.args.vba
      degree := h.args.degree
      oldKey := h.args.oldKey
      newKey := h.args.newKey
      minLvl_le := le_rfl
      maxLevel_pos := by omega
      branch := by
        rw [← h.store]
        exact hbranch
      prev := fun _ => ⟨p, hp, hat, hgen⟩
      first := Or.inr ⟨hne, hcur⟩
      apart := fun j l hj hql hl => absurd hl (by omega)
      draws := fun l hql hl => absurd hl (by omega)
      entry := fun x hx => absurd hx (List.not_mem_nil) }
    refine ⟨_, _, _, _, of_step hset h.rekeyed (show t.snaps = (job.begin i).snapshots from h.snaps)
      (show (job.begin i).snapshotIdx = i from rfl) h.args.begin hstep ?_ h.metaPbas
      (h.filled_begin hset hnext) hdone⟩
    rw [List.append_nil]
    exact h.drawn

/-- **The branch of a snapshot** that does not share it. -/
theorem branch {i : SnapshotsIndex} (hnext : nextSnapshotIdx job = some i)
    (hroot : (job.begin i).t1BlksOldPbas (job.begin i).t1BlkIdx ≠ (job.begin i).snapshot.pba)
    (hrun : rekeyBranch ctx ws (job.begin i) = some (ws', job')) :
    ∃ t' done' new' out', RekeyRun t₀ K r g ctx es ws' (rekeySetRoot job') t' done' new'
      out' := by
  obtain ⟨⟨htr, hr, hundone⟩, hturn, hdone⟩ := h.next_spec hset hnext
  have hsnap : (job.begin i).snapshot = t₀.snaps i := by
    rw [← h.rekeyed.undone i hundone, h.snaps]
    rfl
  have hfilled := h.filled_begin hset hnext
  obtain ⟨q, out', hstep, hD⟩ := hset.rekeyStep_of_rekeyBranch h.rekeyed h.drawn h.store.symm
    h.metaPbas h.args.begin htr hr hundone hsnap hturn
    (fun _ => by
      rw [← hsnap]
      exact hroot) (Or.inr hfilled) hrun
  obtain ⟨hfilled', hmeta'⟩ := rekeyBranch_filled hrun h.metaPbas (Or.inr hfilled)
  exact ⟨_, _, _, _, of_step hset h.rekeyed (show t.snaps = (job.begin i).snapshots from h.snaps)
    (show (job.begin i).snapshotIdx = i from rfl) h.args.begin hstep hD hmeta' hfilled' hdone⟩

end

/-- **The loop over the snapshots that are left**, by induction on the bound of
the loop: a turn, or the root that is shared, and then the rest. -/
theorem loop (hset : RekeyingSetup t₀ K r g ctx es) {n : ℕ}
    (h : RekeyRun t₀ K r g ctx es ws (rekeySetRoot job) t done new out)
    (hrun : rekeySnapshots ctx n ws job = some (ws', job')) :
    ∃ t' done' new' out', RekeyRun t₀ K r g ctx es ws' job' t' done' new' out'
      ∧ ∀ j, done' j ↔ t₀.Tracked j ∧ r < (t₀.snaps j).nrOfLeafs := by
  induction n generalizing ws job t done new out with
  | zero => exact absurd hrun (by simp [rekeySnapshots])
  | succ n ih =>
    unfold rekeySnapshots at hrun
    dsimp only at hrun
    obtain ⟨-, hrun⟩ := Option.ite_none_left_eq_some.mp hrun
    split at hrun
    · next hnone =>
      obtain ⟨rfl, rfl⟩ := Prod.mk.inj (Option.some.inj hrun)
      exact ⟨t, done, new, out, h, h.done_of_none hset hnone⟩
    · next i hnext =>
      split_ifs at hrun with hroot
      · obtain ⟨t', done', new', out', h'⟩ := h.skip hset hnext hroot
        exact ih h' hrun
      · obtain ⟨⟨ws₁, job₁⟩, hbranch, hrun⟩ := Option.bind_eq_some_iff.mp hrun
        obtain ⟨t', done', new', out', h'⟩ := h.branch hset hnext hroot hbranch
        exact ih h' hrun

end RekeyRun

/-- The trees that a rekeying step leaves: the store with what was written,
under the roots that the job returns. -/
def rekeyingResult (t₀ : Trees P) (ws : Workspace P) (job : RekeyingJob P) : Trees P :=
  { t₀ with store := ws.store, snaps := job.snapshots }

/-- **A rekeying step takes all snapshots that contain the address**, and draws from the
stock for them. -/
theorem executeRekeyVbaInVbd_rekeyed {t₀ : Trees P} {K : KeyState} {r g : ℕ} {ctx : AllocContext}
    {job job' : RekeyingJob P} {ws ws' : Workspace P}
    (hset : RekeyingSetup t₀ K r g ctx ws.pools.freeTree.entries) (hstore : t₀.store = ws.store)
    (hsnaps : t₀.snaps = discardDisposableSnapshots job.snapshots job.currGen job.lastSecuredGen)
    (hjob : job.Of t₀ K r g) (hmeta : ∀ pba ∈ ws.pools.metaPbas, pba ≠ 0)
    (hrun : executeRekeyVbaInVbd ctx ws job = some (ws', job')) :
    ∃ done new out, Rekeyed t₀ (rekeyingResult t₀ ws' job') K r done new out
      ∧ Drawn (rekeyUsable ctx K r) ws.pools.freeTree.entries ws'.pools.freeTree.entries out
      ∧ ∀ j, done j ↔ t₀.Tracked j ∧ r < (t₀.snaps j).nrOfLeafs := by
  unfold executeRekeyVbaInVbd at hrun
  dsimp only at hrun
  rw [← hsnaps] at hrun
  obtain ⟨i, hnewest, hbody⟩ := Option.bind_eq_some_iff.mp hrun
  obtain ⟨⟨ws₁, job₁⟩, hbranch, hloop⟩ := Option.bind_eq_some_iff.mp hbody
  clear hrun hbody
  have hord := hset.sound.ordered
  have hcur : i = t₀.cur := by
    have := newestSnapshotIdx_eq_some hord.valid fun j hj hne => hord.gen_lt j hne hj
    exact Option.some.inj (hnewest.symm.trans this)
  have htr : t₀.Tracked i := by
    rw [hcur]
    exact hset.sound.tracked_cur
  set jobF : RekeyingJob P :=
    { job with snapshots := t₀.snaps, snapshotIdx := i, firstSnapshot := true } with hjobF
  have hof : jobF.Of t₀ K r g := ⟨hjob.vba, hjob.degree, hjob.oldKey, hjob.newKey, hjob.currGen⟩
  have hR := Rekeyed.start t₀ K r fun _ _ => type1NodeInvalid
  obtain ⟨q, out', hstep, hD⟩ := hset.rekeyStep_of_rekeyBranch hR
    (.nil hset.sound.forest.stock) hstore.symm hmeta hof htr (by rw [hcur]; exact hset.contains)
    not_false rfl
    (.first rfl hcur fun _ => not_false) (fun hf => absurd hf (by simp [hjobF])) (Or.inl rfl)
    hbranch
  obtain ⟨hfilled, hmeta'⟩ := rekeyBranch_filled hbranch hmeta (Or.inl rfl)
  have hrun₁ := RekeyRun.of_step hset hR (show t₀.snaps = jobF.snapshots from rfl)
    (show jobF.snapshotIdx = i from rfl) hof hstep hD hmeta' hfilled fun j => by
      refine ⟨?_, fun ⟨htrj, _, hle⟩ => Or.inr ?_⟩
      · rintro (h | rfl)
        · exact h.elim
        · exact ⟨htr, hstep.contains, le_rfl⟩
      · by_contra hne
        rw [hcur] at hle hne
        exact absurd (hord.gen_lt j hne htrj.1) (not_lt.mpr hle)
  obtain ⟨t', done, new, out, hend, hdone⟩ := hrun₁.loop hset hloop
  refine ⟨done, new, out, ?_, hend.drawn, hdone⟩
  have heq : t' = rekeyingResult t₀ ws' job' := by
    obtain ⟨store, degree, snaps, cur⟩ := t'
    obtain rfl : store = ws'.store := hend.store
    obtain rfl : snaps = job'.snapshots := hend.snaps
    obtain rfl : degree = t₀.degree := hend.rekeyed.degree
    obtain rfl : cur = t₀.cur := hend.rekeyed.cur
    rfl
  rw [← heq]
  exact hend.rekeyed

end Cbe
