import Cbe.StoredData
import Cbe.CurrentSnapshot

/-!
# Thinned tables

A request that secures purges the snapshot table and stamps the current snapshot
with the current generation. For the trees this is little: some of them no
longer count, and the root of the current one is newer (`Trees.Thinned`). So the
table of a superblock that was purged and stamped (`Superblock.TableStamped`)
has trees that are sound if those before were, and store the same.

That a snapshot is dropped is harmless, as the invariants are about those that
count. The stamp is not quite: it makes the current root newer than it was
written, and the order of the generations has to survive it. It does because the
new generation is not greater than the one being written. Seen from the other
trees a stamp is a write of the root alone, so the lemma about a new path is
used for it (`Trees.Thinned.currentPath`), with a request that asks for no
blocks.

The second half finds this pattern in the source: in the purge that sync and
discard share, in the stamp of a new snapshot, and in the stamp alone.
-/

namespace Cbe

variable {P : Platform}

/-! ## A thinned table

The abstract relation between two families of trees, and what it preserves. -/

/-- A request of no blocks, with what the trees tell the free tree. -/
def AllocRequest.idle (t : Trees P) : AllocRequest where
  currentGen := 0
  freeGen := 0
  requestedBlocks := 0
  oldBlocks _ := type1NodeInvalid
  maxLevel := 0
  tag := .poolVbd
  vba := 0
  vbdDegree := t.degree
  vbdHighestVba := 0
  rekeying := false
  previousKeyId := 0
  currentKeyId := 0
  rekeyingVba := 0
  activeSnaps := t.snaps
  lastSecuredGen := 0

/-- **A thinned table**: some snapshots are no longer valid, and the current one may have a
newer generation. -/
structure Trees.Thinned (t t' : Trees P) : Prop where
  /-- No block has changed. -/
  store : t'.store = t.store
  /-- The degree is the same. -/
  degree : t'.degree = t.degree
  /-- So is the slot of the current snapshot. -/
  cur : t'.cur = t.cur
  /-- The current snapshot was valid. -/
  valid : (t.snaps t.cur).valid = true
  /-- It still is. -/
  valid' : (t'.snaps t.cur).valid = true
  /-- What is left of the others is as it was. -/
  other : ∀ i, i ≠ t.cur → (t'.snaps i).valid = true → t'.snaps i = t.snaps i
  /-- The current one has its root. -/
  pba : (t'.snaps t.cur).pba = (t.snaps t.cur).pba
  /-- The hash of the root is the same. -/
  hash : (t'.snaps t.cur).hash = (t.snaps t.cur).hash
  /-- So is the height. -/
  maxLevel : (t'.snaps t.cur).maxLevel = (t.snaps t.cur).maxLevel
  /-- So is the number of leaves. -/
  nrOfLeafs : (t'.snaps t.cur).nrOfLeafs = (t.snaps t.cur).nrOfLeafs
  /-- The current one may have become newer. -/
  gen_le : (t.snaps t.cur).gen ≤ (t'.snaps t.cur).gen

namespace Trees.Thinned

variable {t t' : Trees P} {K : KeyState} {es : List Type2Node} {g g' : ℕ} {i : SnapshotsIndex}

/-- A snapshot that still counts has counted before, and in its slot nothing has
changed. -/
theorem tracked (h : Trees.Thinned t t') (hi : i ≠ t.cur) (htr : t'.Tracked i) :
    t.Tracked i ∧ t'.snaps i = t.snaps i := by
  have heq := h.other i hi htr.1
  refine ⟨⟨?_, Or.inr ?_⟩, heq⟩
  · rw [← heq]
    exact htr.1
  · rw [← heq]
    exact htr.2.resolve_left (by rw [h.cur]; exact hi)

/-- No snapshot begins to count. -/
theorem tracked_of_tracked (h : Trees.Thinned t t') (htr : t'.Tracked i) : t.Tracked i := by
  by_cases hi : i = t.cur
  · rw [hi]
    exact ⟨h.valid, Or.inl rfl⟩
  · exact (h.tracked hi htr).1

/-- The order stays when the new generation is not too new. -/
theorem ordered (h : Trees.Thinned t t') (hord : t.Ordered g)
    (hg : (t'.snaps t.cur).gen ≤ g') : t'.Ordered g' := by
  have hlt : ∀ i, i ≠ t.cur → (t'.snaps i).valid = true →
      (t'.snaps i).gen < (t'.snaps t.cur).gen := by
    intro i hi hv
    have heq := h.other i hi hv
    rw [heq] at hv ⊢
    exact (hord.gen_lt i hi hv).trans_le h.gen_le
  refine ⟨?_, ?_, ?_, fun i j hi hj heq => ?_⟩
  · rw [h.cur]
    exact h.valid'
  · rw [h.cur]
    exact hlt
  · rw [h.cur]
    exact hg
  · by_cases hic : i = t.cur
    · by_cases hjc : j = t.cur
      · rw [hic, hjc]
      · rw [hic] at heq
        exact absurd heq.symm (hlt j hjc hj).ne
    · by_cases hjc : j = t.cur
      · rw [hjc] at heq
        exact absurd heq (hlt i hic hi).ne
      · rw [h.other i hic hi, h.other j hjc hj] at heq
        rw [h.other i hic hi] at hi
        rw [h.other j hjc hj] at hj
        exact hord.gen_injOn i j hi hj heq

/-- **A thinned table is a new path** of the root alone. -/
theorem currentPath (h : Trees.Thinned t t') (hs : Sound t K es g) (hlast : g < generationLast) :
    CurrentPath t t' K 0 (t.snaps t.cur).maxLevel (fun _ => (t'.snaps t.cur).root)
      (.idle t) [] (fun _ => 0) es es := by
  have htr := hs.tracked_cur
  have hpres : t.Present t.cur 0 (t.snaps t.cur).maxLevel :=
    hs.present htr (hs.complete _ htr).1 le_rfl
  have hlvl : ∀ l, (t.snaps t.cur).maxLevel ≤ l → l ≤ (t.snaps t.cur).maxLevel →
      t.node t.cur 0 l = (t.snaps t.cur).root := by
    intro l hlo hl
    rw [le_antisymm hl hlo, Trees.node_maxLevel]
  exact {
    admitted := hs.admitted
    degree := h.degree
    valid := h.valid
    valid' := by
      rw [h.cur]
      exact h.valid'
    snaps := fun i hi => h.tracked (by rw [← h.cur]; exact hi)
    maxLevel := by
      rw [h.cur]
      exact h.maxLevel
    root := by rw [h.cur]
    present := hpres
    inner := fun l hlo hl => absurd hl (not_lt.mpr hlo)
    copy := fun _ => by
      rw [h.store, hlvl _ le_rfl le_rfl]
      exact congrArg t.store.type1NodeBlock h.pba
    frame := fun p _ => by rw [h.store]
    handout := .nil _ _ hs.forest.stock
    fits := by
      refine ⟨fun i hi => ⟨hi.1, rfl, lt_of_le_of_lt ?_ hlast⟩,
        fun hr => absurd hr (by simp [AllocRequest.idle])⟩
      exact (hs.ordered.gen_le_cur hi.1).trans hs.ordered.gen_le
    tag := by simp [AllocRequest.idle]
    nodup := List.nodup_nil
    lvls_le := fun l hl => absurd hl List.not_mem_nil
    handed := fun l hl => absurd hl List.not_mem_nil
    given_up := fun l hl => absurd hl List.not_mem_nil
    in_place := fun l hlo hl _ => by
      refine ⟨?_, fun i w k hi htri hn => ?_⟩
      · rw [hlvl l hlo hl]
        exact h.pba
      · -- the root has the generation of the current snapshot, which is newer
        rw [h.cur] at hi
        have ho : t.Owned t.cur 0 l := by
          rw [le_antisymm hl hlo]
          exact hpres.owned_cur h.valid
        refine hs.forest.pba_ne_of_gen_lt ho hn.owned ?_
        rw [hlvl l hlo hl]
        exact hs.ordered.gen_lt i hi hn.1.1
    gen_le := fun l _ _ => by
      rw [h.cur]
      exact le_rfl
    newer := by
      rw [h.cur]
      exact h.gen_le
    released := fun l hl => absurd hl List.not_mem_nil }

/-- **Thinning keeps the trees sound.** -/
theorem sound (h : Trees.Thinned t t') (hs : Sound t K es g) (hlast : g < generationLast)
    (hmax : 0 < (t.snaps t.cur).maxLevel) (hg : (t'.snaps t.cur).gen ≤ g) : Sound t' K es g := by
  refine (h.currentPath hs hlast).sound hs (h.ordered hs.ordered hg) ?_ (fun h0 => ?_) ?_
  · rw [h.cur]
    exact h.nrOfLeafs
  · exact absurd h0 hmax.ne'
  · intro l hlo hl
    have htr := hs.tracked_cur
    have hn : t.Needed t.cur 0 (t.snaps t.cur).maxLevel :=
      ⟨htr, hs.present htr (hs.complete _ htr).1 le_rfl, Or.inl hmax⟩
    have hhash := hs.hashed _ _ _ hn
    rw [Trees.node_maxLevel] at hhash
    show P.hash (t'.store.blocks (t'.snaps t.cur).pba) = (t'.snaps t.cur).hash
    rw [h.store, h.pba, h.hash]
    exact hhash

/-- The trees still have room for their leaves. -/
theorem addressed (h : Trees.Thinned t t') (hs : Sound t K es g) (hlast : g < generationLast)
    (ha : t.Addressed) : t'.Addressed :=
  (h.currentPath hs hlast).addressed hs.forest ha

/-- **Thinning changes nothing of what is stored.** -/
theorem stored_eq (h : Trees.Thinned t t') (hs : Sound t K es g) (hlast : g < generationLast)
    (hmax : 0 < (t.snaps t.cur).maxLevel) (hi : t'.Tracked i) (v : ℕ) :
    t'.stored K i v = t.stored K i v := by
  have hpath := h.currentPath hs hlast
  rw [hpath.stored_off hs.forest hs.complete (by rw [h.cur]; exact h.nrOfLeafs) hi
    fun hon => hmax.ne' hon.2.1]
  unfold CurrentPath.source
  split_ifs with hc
  · rw [hc, h.cur]
  · rfl

end Trees.Thinned

/-- **A stamped table**: the current snapshot has a new generation, and the others are as
they were or no longer valid. -/
structure Superblock.TableStamped (sb sb' : Superblock) (g : ℕ) : Prop where
  /-- The degree is the same. -/
  degree : sb'.degree = sb.degree
  /-- So is the slot of the current snapshot. -/
  currSnap : sb'.currSnap = sb.currSnap
  /-- The others are as they were, or not valid any more. -/
  other : ∀ i, i ≠ sb.currSnap →
    sb'.snapshots i = sb.snapshots i ∨ (sb'.snapshots i).valid = false
  /-- The current one has a new generation, and may be kept. -/
  curr : ∃ keep, sb'.curr = { sb.curr with gen := g, keep := keep }

namespace Superblock.TableStamped

variable {sb sb' : Superblock} {g : ℕ}

/-- The trees of a stamped table are thinned. -/
theorem thinned (h : sb.TableStamped sb' g) (s : Store P) (hvalid : sb.curr.valid = true)
    (hgen : sb.curr.gen ≤ g) : Trees.Thinned (sb.trees s) (sb'.trees s) := by
  obtain ⟨keep, hcurr⟩ := h.curr
  have hself : sb'.snapshots sb.currSnap = { sb.curr with gen := g, keep := keep } := by
    rw [← h.currSnap]
    exact hcurr
  exact {
    store := rfl
    degree := h.degree
    cur := h.currSnap
    valid := hvalid
    valid' := (congrArg Snapshot.valid hself).trans hvalid
    other := fun i hi hv => (h.other i hi).resolve_right fun hf => by
      exact absurd (hv.symm.trans hf) (by decide)
    pba := (congrArg Snapshot.pba hself).trans rfl
    hash := (congrArg Snapshot.hash hself).trans rfl
    maxLevel := (congrArg Snapshot.maxLevel hself).trans rfl
    nrOfLeafs := (congrArg Snapshot.nrOfLeafs hself).trans rfl
    gen_le := hgen.trans_eq (congrArg Snapshot.gen hself).symm }

/-- The current snapshot has the new generation. -/
theorem curr_gen (h : sb.TableStamped sb' g) : sb'.curr.gen = g := by
  obtain ⟨keep, hcurr⟩ := h.curr
  rw [hcurr]

/-- Another field may change. -/
theorem congr {sb'' : Superblock} (h : sb.TableStamped sb' g) (hdegree : sb''.degree = sb'.degree)
    (hcurr : sb''.currSnap = sb'.currSnap) (hsnaps : sb''.snapshots = sb'.snapshots) :
    sb.TableStamped sb'' g where
  degree := hdegree.trans h.degree
  currSnap := hcurr.trans h.currSnap
  other i hi := by
    rw [hsnaps]
    exact h.other i hi
  curr := by
    unfold Superblock.curr
    rw [hsnaps, hcurr]
    exact h.curr

/-- The stamp itself. -/
theorem of_table (snaps : Snapshots)
    (hother : ∀ i, i ≠ sb.currSnap → snaps i = sb.snapshots i ∨ (snaps i).valid = false)
    (keep : Bool) (hkeep : sb'.curr = { sb.curr with keep := keep })
    (hsnaps : ∀ i, i ≠ sb.currSnap → sb'.snapshots i = snaps i) (hdegree : sb'.degree = sb.degree)
    (hcurr : sb'.currSnap = sb.currSnap) : sb.TableStamped (sb'.setCurrGen g) g where
  degree := hdegree
  currSnap := hcurr
  other i hi := by
    rw [setCurrGen_snapshots_of_ne sb' g (by rw [hcurr]; exact hi), hsnaps i hi]
    exact hother i hi
  curr := ⟨keep, by rw [setCurrGen_curr, hkeep]⟩

end Superblock.TableStamped

/-- A purge keeps a slot or makes it invalid. -/
theorem discardDisposableSnapshots_or (snaps : Snapshots) (a b : ℕ) (i : SnapshotsIndex) :
    discardDisposableSnapshots snaps a b i = snaps i
      ∨ (discardDisposableSnapshots snaps a b i).valid = false := by
  unfold discardDisposableSnapshots
  split_ifs
  · exact Or.inr rfl
  · exact Or.inl rfl

/-- It keeps the current one if that is spared. Which the caller has to know: a
purge with the wrong generations would drop it. -/
theorem discardDisposableSnapshots_curr {sb : Superblock} {g : ℕ} (hspare : sb.SparesCurrent g)
    (hvalid : sb.curr.valid = true) :
    discardDisposableSnapshots sb.snapshots g sb.lastSecuredGeneration sb.currSnap = sb.curr := by
  refine (discardDisposableSnapshots_or _ _ _ _).resolve_right fun hf => ?_
  have hv := (discardDisposableSnapshots_valid_iff sb.snapshots g sb.lastSecuredGeneration
    sb.currSnap).mpr ⟨hvalid, hspare⟩
  exact absurd (hv.symm.trans hf) (by decide)

/-- **The purge and the stamp** that sync and discard share. -/
theorem Superblock.TableStamped.purgeAndStamp {sb sb₁ : Superblock} {g : ℕ}
    (hspare : sb₁.SparesCurrent g) (hvalid : sb₁.curr.valid = true)
    (hdegree : sb₁.degree = sb.degree) (hcurrSnap : sb₁.currSnap = sb.currSnap)
    (hcurr : sb₁.curr = sb.curr)
    (hother : ∀ i, i ≠ sb.currSnap →
      sb₁.snapshots i = sb.snapshots i ∨ (sb₁.snapshots i).valid = false) :
    sb.TableStamped (Cbe.purgeAndStamp sb₁ g) g := by
  have hself := discardDisposableSnapshots_curr hspare hvalid
  rw [discardDisposableSnapshots_comm] at hself
  unfold Cbe.purgeAndStamp
  refine .of_table (discardDisposableSnapshots sb₁.snapshots sb₁.lastSecuredGeneration g)
    (fun i hi => ?_) sb.curr.keep ?_ (fun _ _ => rfl) hdegree hcurrSnap
  · rcases discardDisposableSnapshots_or sb₁.snapshots sb₁.lastSecuredGeneration g i with heq | hf
    · rw [heq]
      exact hother i hi
    · exact Or.inr hf
  · show discardDisposableSnapshots _ _ _ sb₁.currSnap = _
    rw [hself, hcurr]

/-- **The stamp of a new snapshot**, which is kept. -/
theorem Superblock.TableStamped.createSnapshot {c : Control} (hspare : c.sb.SparesCurrent c.currGen)
    (hvalid : c.sb.curr.valid = true) :
    c.sb.TableStamped (prepareCreateSnapshot c).sb c.currGen := by
  have hself := discardDisposableSnapshots_curr hspare hvalid
  rw [discardDisposableSnapshots_comm] at hself
  unfold prepareCreateSnapshot
  refine .of_table (discardDisposableSnapshots c.sb.snapshots c.sb.lastSecuredGeneration
    c.currGen) (fun i _ => discardDisposableSnapshots_or _ _ _ i) true
    ?_ (fun i hi => ?_) rfl rfl
  · rw [setCurr_curr]
    show { discardDisposableSnapshots _ _ _ c.sb.currSnap with keep := true } = _
    rw [hself]
  · exact Function.update_of_ne hi _ _

/-- The stamp alone. -/
theorem Superblock.TableStamped.setCurrGen {sb sb₁ : Superblock} {g : ℕ}
    (hdegree : sb₁.degree = sb.degree) (hcurrSnap : sb₁.currSnap = sb.currSnap)
    (hsnaps : sb₁.snapshots = sb.snapshots) : sb.TableStamped (sb₁.setCurrGen g) g :=
  .of_table sb.snapshots (fun _ _ => Or.inl rfl) sb.curr.keep
    (by unfold Superblock.curr; rw [hsnaps, hcurrSnap]) (fun i _ => by rw [hsnaps]) hdegree
    hcurrSnap

/-- The scan for the greatest number of leaves ends with a least bound. -/
theorem foldl_maxNrOfLeafs (snaps : Snapshots) (l : List SnapshotsIndex) (m : ℕ) :
    let res := l.foldl (fun m j => if (snaps j).valid = true ∧ m < (snaps j).nrOfLeafs
      then (snaps j).nrOfLeafs else m) m
    m ≤ res ∧ (∀ j ∈ l, (snaps j).valid = true → (snaps j).nrOfLeafs ≤ res)
      ∧ ∀ n, m ≤ n → (∀ j ∈ l, (snaps j).valid = true → (snaps j).nrOfLeafs ≤ n) → res ≤ n := by
  induction l generalizing m with
  | nil => exact ⟨le_rfl, fun j hj => absurd hj List.not_mem_nil, fun n hm _ => hm⟩
  | cons k l ih =>
    dsimp only [List.foldl_cons]
    by_cases hk : (snaps k).valid = true ∧ m < (snaps k).nrOfLeafs
    · rw [if_pos hk]
      obtain ⟨hle, hmem, hleast⟩ := ih (snaps k).nrOfLeafs
      refine ⟨hk.2.le.trans hle, fun j hj hv => ?_, fun n _ hall => ?_⟩
      · rcases List.mem_cons.mp hj with rfl | hj
        · exact hle
        · exact hmem j hj hv
      · exact hleast n (hall k List.mem_cons_self hk.1)
          fun j hj => hall j (List.mem_cons_of_mem k hj)
    · rw [if_neg hk]
      obtain ⟨hle, hmem, hleast⟩ := ih m
      refine ⟨hle, fun j hj hv => ?_, fun n hm hall => ?_⟩
      · rcases List.mem_cons.mp hj with rfl | hj
        · exact (not_lt.mp fun hlt => hk ⟨hv, hlt⟩).trans hle
        · exact hmem j hj hv
      · exact hleast n hm fun j hj => hall j (List.mem_cons_of_mem k hj)

/-- The greatest number of leaves when all valid snapshots have the same one. -/
theorem maxNrOfLeafs_eq {snaps : Snapshots} {n : ℕ} {i : SnapshotsIndex}
    (hv : (snaps i).valid = true) (hn : (snaps i).nrOfLeafs = n)
    (hall : ∀ j, (snaps j).valid = true → (snaps j).nrOfLeafs = n) : maxNrOfLeafs snaps = n := by
  obtain ⟨-, hmem, hleast⟩ := foldl_maxNrOfLeafs snaps (List.finRange superblockNrOfSnapshots) 0
  refine le_antisymm (hleast n (Nat.zero_le n) fun j _ hj => (hall j hj).le) ?_
  rw [← hn]
  exact hmem i (List.mem_finRange i) hv

end Cbe
