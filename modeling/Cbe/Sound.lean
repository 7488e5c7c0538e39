import Cbe.Forest

/-!
# Sound trees

What the trees of the snapshots satisfy together with the stock of the free tree
between two operations (`Sound`): they fit together, every block has the hash
that its entry records, the leaves are there, and the snapshots grow and share
their blocks without gaps. A new path in the current tree keeps all of it
(`CurrentPath.sound`).

A new path may also be that of a new snapshot: a write in a generation in which
none was written yet leaves the old current tree to an older snapshot. Each tree
after the change is therefore compared with the one that it comes from
(`source`): the current one with the current one, every other one with itself.
Off the new path the two have the same nodes, so each part of `Sound` has to be
shown on the path only.

The parts are proved one by one, in the order of the structure, and put together
at the end. Growing and contiguous are the ones where two trees are compared
with each other: the new current tree with an older one, of which the path was
taken.
-/

namespace Cbe

variable {P : Platform}

/-- **Sound trees** with the stock of the free tree, in a key state and a
generation. -/
structure Sound (t : Trees P) (K : KeyState) (entries : List Type2Node) (currGen : ℕ) :
    Prop where
  /-- The degree is one of the type. -/
  admitted : DegreeAdmitted t.degree
  /-- The snapshots are in the order of their generations. -/
  ordered : t.Ordered currGen
  /-- The trees fit together with the stock of the free tree. -/
  forest : Forest t K entries
  /-- Each block has the hash that its entry records. -/
  hashed : t.Hashed
  /-- Every leaf of a tree is there. -/
  complete : t.Complete
  /-- A newer tree has grown from an older one. -/
  growing : t.Growing
  /-- A block that two snapshots have is in those between them, too. -/
  contiguous : t.Contiguous

namespace Sound

variable {t : Trees P} {K : KeyState} {entries : List Type2Node} {currGen : ℕ}
  {i : SnapshotsIndex} {v l : ℕ}

/-- The current snapshot counts. -/
theorem tracked_cur (h : Sound t K entries currGen) : t.Tracked t.cur :=
  ⟨h.ordered.valid, Or.inl rfl⟩

/-- The way to a leaf is present. -/
theorem present (h : Sound t K entries currGen) (hi : t.Tracked i)
    (hv : v < (t.snaps i).nrOfLeafs) (hl : l ≤ (t.snaps i).maxLevel) : t.Present i v l :=
  (((h.complete i hi).2 v).mpr hv).mono (Nat.zero_le l) hl

end Sound

namespace CurrentPath

variable {t t' : Trees P} {K : KeyState} {v lo : ℕ} {new : ℕ → Type1Node} {req : AllocRequest}
  {lvls : List ℕ} {newPbas : NewPbas} {entries entries' : List Type2Node} {currGen : ℕ}

/-- The snapshot that a tree comes from: the current one comes from the current
one, every other one from itself. -/
def source (t t' : Trees P) (i : SnapshotsIndex) : SnapshotsIndex :=
  if i = t'.cur then t.cur else i

/-- The current tree comes from the current tree. -/
theorem source_cur : source t t' t'.cur = t.cur := if_pos rfl

/-- Every other tree comes from itself. -/
theorem source_of_ne {i : SnapshotsIndex} (hi : i ≠ t'.cur) : source t t' i = i := if_neg hi

/-- The tree that it comes from counted, and had the same size. -/
theorem tracked_source (h : CurrentPath t t' K v lo new req lvls newPbas entries entries')
    {i : SnapshotsIndex} (hi : t'.Tracked i) : t.Tracked (source t t' i) := by
  by_cases hc : i = t'.cur
  · rw [hc, source_cur]
    exact ⟨h.valid, Or.inl rfl⟩
  · rw [source_of_ne hc]
    exact (h.snaps i hc hi).1

/-- It had the same height. -/
theorem maxLevel_source (h : CurrentPath t t' K v lo new req lvls newPbas entries entries')
    {i : SnapshotsIndex} (hi : t'.Tracked i) :
    (t'.snaps i).maxLevel = (t.snaps (source t t' i)).maxLevel := by
  by_cases hc : i = t'.cur
  · rw [hc, source_cur, h.maxLevel]
  · rw [source_of_ne hc, (h.snaps i hc hi).2]

/-- It had the same leaves, if the current one has as many as before. -/
theorem nrOfLeafs_source (h : CurrentPath t t' K v lo new req lvls newPbas entries entries')
    (hleafs : (t'.snaps t'.cur).nrOfLeafs = (t.snaps t.cur).nrOfLeafs)
    {i : SnapshotsIndex} (hi : t'.Tracked i) :
    (t'.snaps i).nrOfLeafs = (t.snaps (source t t' i)).nrOfLeafs := by
  by_cases hc : i = t'.cur
  · rw [hc, source_cur, hleafs]
  · rw [source_of_ne hc, (h.snaps i hc hi).2]

/-- The order of the snapshots is the one of those that they come from. -/
theorem gen_source_le (h : CurrentPath t t' K v lo new req lvls newPbas entries entries')
    (hord : t.Ordered currGen) (hord' : t'.Ordered currGen) {i j : SnapshotsIndex}
    (hi : t'.Tracked i) (hj : t'.Tracked j) (hle : (t'.snaps i).gen ≤ (t'.snaps j).gen) :
    (t.snaps (source t t' i)).gen ≤ (t.snaps (source t t' j)).gen := by
  by_cases hcj : j = t'.cur
  · rw [hcj, source_cur]
    exact hord.gen_le_cur (h.tracked_source hi).1
  · have hci : i ≠ t'.cur := by
      rintro rfl
      exact absurd (hord'.gen_lt j hcj hj.1) (not_lt.mpr hle)
    rw [source_of_ne hci, source_of_ne hcj, ← (h.snaps i hci hi).2, ← (h.snaps j hcj hj).2]
    exact hle

/-- The tree has the places of the tree that it comes from. -/
theorem present_source (h : CurrentPath t t' K v lo new req lvls newPbas entries entries')
    (hf : Forest t K entries) {i : SnapshotsIndex} (hi : t'.Tracked i) {w l : ℕ} :
    t'.Present i w l ↔ t.Present (source t t' i) w l := by
  by_cases hc : i = t'.cur
  · rw [hc, source_cur]
    exact (h.path hf).present_iff
  · rw [source_of_ne hc]
    exact (h.leftAlone hf hc hi).present_iff

/-- Off the new path it has its nodes. -/
theorem node_source (h : CurrentPath t t' K v lo new req lvls newPbas entries entries')
    (hf : Forest t K entries) {i : SnapshotsIndex} (hi : t'.Tracked i) {w l : ℕ}
    (hp : t.Present (source t t' i) w l)
    (hoff : ¬ (i = t'.cur ∧ lo ≤ l ∧ sameNode t.degree l w v)) :
    t'.node i w l = t.node (source t t' i) w l := by
  by_cases hc : i = t'.cur
  · rw [hc, source_cur] at hp ⊢
    rw [(h.path hf).node_eq hp, if_neg fun hon => hoff ⟨hc, hon⟩]
  · rw [source_of_ne hc] at hp ⊢
    exact (h.leftAlone hf hc hi).node_eq hp

/-- The hashes stay right if those of the new path are. -/
theorem hashed (h : CurrentPath t t' K v lo new req lvls newPbas entries entries')
    (hf : Forest t K entries) (hhash : t.Hashed)
    (hnew : ∀ l, lo ≤ l → l ≤ (t.snaps t.cur).maxLevel →
      P.hash (t'.blockOf (new l)) = (new l).hash) : t'.Hashed := by
  intro i w l hn
  by_cases hc : i = t'.cur
  · rw [hc] at hn ⊢
    have hp := (h.path hf).present_of_present' hn.2.1
    by_cases hon : lo ≤ l ∧ sameNode t.degree l w v
    · rw [(h.path hf).node_eq hp, if_pos hon]
      exact hnew l hon.1 hp.1
    · obtain ⟨hnode, hblk⟩ := h.blockOf_off_path hf hp hon
      have hneed := hn.2.2
      rw [hnode] at hblk hneed ⊢
      rw [hblk]
      exact hhash _ w l ⟨⟨h.valid, Or.inl rfl⟩, hp, hneed⟩
  · obtain ⟨hneed, hnode, hblk⟩ := h.blockOf_other hf hc hn
    rw [hnode] at hblk ⊢
    rw [hblk]
    exact hhash i w l hneed

/-- The leaves stay complete. -/
theorem complete (h : CurrentPath t t' K v lo new req lvls newPbas entries entries')
    (hf : Forest t K entries) (hcomp : t.Complete)
    (hleafs : (t'.snaps t'.cur).nrOfLeafs = (t.snaps t.cur).nrOfLeafs) : t'.Complete := by
  intro i hi
  obtain ⟨hpos, hiff⟩ := hcomp _ (h.tracked_source hi)
  rw [h.nrOfLeafs_source hleafs hi]
  exact ⟨hpos, fun w => (h.present_source hf hi).trans (hiff w)⟩

/-- The snapshots still grow. -/
theorem growing (h : CurrentPath t t' K v lo new req lvls newPbas entries entries')
    (hf : Forest t K entries) (hcomp : t.Complete) (hgrow : t.Growing)
    (hord : t.Ordered currGen) (hord' : t'.Ordered currGen)
    (hleafs : (t'.snaps t'.cur).nrOfLeafs = (t.snaps t.cur).nrOfLeafs)
    (hleaf : lo = 0 → (new 0).gen ≠ 0) : t'.Growing := by
  intro i j hi hj hle
  obtain ⟨hmax, hnr, hwritten⟩ := hgrow _ _ (h.tracked_source hi) (h.tracked_source hj)
    (h.gen_source_le hord hord' hi hj hle)
  rw [h.maxLevel_source hi, h.maxLevel_source hj, h.nrOfLeafs_source hleafs hi,
    h.nrOfLeafs_source hleafs hj]
  refine ⟨hmax, hnr, fun w hw hgen => ?_⟩
  have hpi := ((hcomp _ (h.tracked_source hi)).2 w).mpr hw
  have hpj := ((hcomp _ (h.tracked_source hj)).2 w).mpr (hw.trans_le hnr)
  by_cases honj : j = t'.cur ∧ lo ≤ 0 ∧ sameNode t.degree 0 w v
  · obtain ⟨hjc, hlo, hwv⟩ := honj
    have hpc := hpj
    rw [hjc, source_cur] at hpc
    rw [hjc, (h.path hf).node_eq hpc, if_pos ⟨hlo, hwv⟩]
    exact hleaf (Nat.le_zero.mp hlo)
  · rw [h.node_source hf hj hpj honj]
    refine hwritten w hw ?_
    have honi : ¬ (i = t'.cur ∧ lo ≤ 0 ∧ sameNode t.degree 0 w v) := by
      rintro ⟨hic, hon⟩
      refine honj ⟨?_, hon⟩
      by_contra hjc
      rw [hic] at hle
      exact absurd (hord'.gen_lt j hjc hj.1) (not_lt.mpr hle)
    rw [← h.node_source hf hi hpi honi]
    exact hgen

/-- The blocks are still shared without gaps. -/
theorem contiguous (h : CurrentPath t t' K v lo new req lvls newPbas entries entries')
    (hf : Forest t K entries) (hcont : t.Contiguous)
    (hord : t.Ordered currGen) (hord' : t'.Ordered currGen) : t'.Contiguous := by
  intro i j k w l hi hj hk hij hjk heq
  by_cases hic : i = t'.cur
  · -- the oldest of the three is the newest of all
    have hjc : j = t'.cur := by
      by_contra hjc
      rw [hic] at hij
      exact absurd (hord'.gen_lt j hjc hj.1) (not_lt.mpr hij)
    rw [hjc, ← hic]
    exact ⟨hi, rfl⟩
  obtain ⟨hni, hnodei, -⟩ := h.blockOf_other hf hic hi
  by_cases hjc : j = t'.cur
  · have hkc : k = t'.cur := by
      by_contra hkc
      rw [hjc] at hjk
      exact absurd (hord'.gen_lt k hkc hk.1.1) (not_lt.mpr hjk)
    rw [hjc, ← hkc]
    exact ⟨hk, heq.symm⟩
  have hgij := h.gen_source_le hord hord' hi.1 hj hij
  have hgjk := h.gen_source_le hord hord' hj hk.1 hjk
  rw [source_of_ne hic, source_of_ne hjc] at hgij
  rw [source_of_ne hjc] at hgjk
  -- the block is not on the new path, so it was shared before
  have hpk := (h.present_source hf hk.1).mp hk.2.1
  have hoff : ¬ (k = t'.cur ∧ lo ≤ l ∧ sameNode t.degree l w v) := by
    rintro ⟨hkc, hon⟩
    have hpc := hpk
    rw [hkc, source_cur] at hpc
    rw [hkc, (h.path hf).node_eq hpc, if_pos hon, hnodei] at heq
    exact h.ne_new_of_needed hf hic hi.1 hni hon.1 hpc.1 heq
  have hnodek := h.node_source hf hk.1 hpk hoff
  have hneedk := hk.2.2
  rw [hnodek] at hneedk heq
  rw [hnodei] at heq ⊢
  obtain ⟨hnj, heqj⟩ := hcont i j (source t t' k) w l hni (h.snaps j hjc hj).1
    ⟨h.tracked_source hk.1, hpk, hneedk⟩ hgij hgjk heq
  have hleft := h.leftAlone hf hjc hj
  have hnodej := hleft.node_eq hnj.2.1
  rw [hnodej]
  refine ⟨⟨hj, hleft.present_of_present hnj.2.1, ?_⟩, heqj⟩
  rw [hnodej]
  exact hnj.2.2

/-- **Sound trees stay sound under a new path.** -/
theorem sound (h : CurrentPath t t' K v lo new req lvls newPbas entries entries')
    (hs : Sound t K entries currGen) (hord' : t'.Ordered currGen)
    (hleafs : (t'.snaps t'.cur).nrOfLeafs = (t.snaps t.cur).nrOfLeafs)
    (hleaf : lo = 0 → (new 0).gen ≠ 0)
    (hnew : ∀ l, lo ≤ l → l ≤ (t.snaps t.cur).maxLevel →
      P.hash (t'.blockOf (new l)) = (new l).hash) : Sound t' K entries' currGen where
  admitted := by
    rw [h.degree]
    exact hs.admitted
  ordered := hord'
  forest := h.forest hs.forest
  hashed := h.hashed hs.forest hs.hashed hnew
  complete := h.complete hs.forest hs.complete hleafs
  growing := h.growing hs.forest hs.complete hs.growing hs.ordered hord' hleafs hleaf
  contiguous := h.contiguous hs.forest hs.contiguous hs.ordered hord'

end CurrentPath

end Cbe
