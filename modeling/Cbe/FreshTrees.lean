import Cbe.StoredData
import Cbe.Device

/-!
# The tree of a new image

On a new image there is one snapshot. Its tree is sound together with the stock
of the free tree when no block is at two places of it or at one and in the stock
(`Sound.of_single`): nothing is shared, and nothing has been given up yet. The
tree of the sample image is one (`Device.sample_sound`).

All runs of the device begin with such an image. The clauses of soundness that
compare two snapshots are empty or trivial for a single one, and the guards of
the free tree have nothing to guard; what remains are the hashes, the
generations and the places of the blocks.
-/

namespace Cbe

variable {P : Platform}

/-- **The only tree is sound.** -/
theorem Sound.of_single {t : Trees P} {K : KeyState} {es : List Type2Node} {g : ℕ}
    (hadm : DegreeAdmitted t.degree) (hvalid : ∀ i, (t.snaps i).valid = true ↔ i = t.cur)
    (hgen : (t.snaps t.cur).gen ≤ g)
    (hinj : ∀ v l w k, t.Present t.cur v l → t.Present t.cur w k →
      (t.node t.cur v l).pba = (t.node t.cur w k).pba → l = k ∧ sameNode t.degree l v w)
    (hgen_le : ∀ v l, t.Present t.cur v l → (t.node t.cur v l).gen ≤ (t.snaps t.cur).gen)
    (hstock : (stockPbas es).Nodup)
    (hcurrent : ∀ v l, t.Present t.cur v l → ∀ e ∈ es, e.pba ≠ (t.node t.cur v l).pba)
    (hhash : ∀ v l, t.Present t.cur v l → (0 < l ∨ (t.node t.cur v l).gen ≠ 0) →
      P.hash (t.blockOf (t.node t.cur v l)) = (t.node t.cur v l).hash)
    (hleafs : 0 < (t.snaps t.cur).nrOfLeafs
      ∧ ∀ v, t.Present t.cur v 0 ↔ v < (t.snaps t.cur).nrOfLeafs) : Sound t K es g := by
  -- whatever counts is the current tree
  have hcur : ∀ i, t.Tracked i → i = t.cur := fun i hi => (hvalid i).mp hi.1
  exact {
    admitted := hadm
    ordered := {
      valid := (hvalid t.cur).mpr rfl
      gen_lt := fun i hi hv => absurd ((hvalid i).mp hv) hi
      gen_le := hgen
      gen_injOn := fun i j hi hj _ => ((hvalid i).mp hi).trans ((hvalid j).mp hj).symm }
    forest := {
      injOn := fun i v l j w k hi hj heq => by
        obtain rfl := hcur i hi.1
        obtain rfl := hcur j hj.1
        obtain ⟨rfl, hsame⟩ := hinj v l w k hi.2.1 hj.2.1 heq
        exact ⟨rfl, hsame, by rw [Trees.node_congr hi.2.1.1 hsame]⟩
      gen_le := fun i v l hi => by
        obtain rfl := hcur i hi.1
        exact hgen_le v l hi.2.1
      stock := hstock
      current := fun v l ho => hcurrent v l ho.2.1
      kept := fun i v l hi => by
        obtain rfl := hcur i hi.1
        exact Or.inl ⟨hi, rfl⟩ }
    hashed := fun i v l hi => by
      obtain rfl := hcur i hi.1
      exact hhash v l hi.2.1 hi.2.2
    complete := fun i hi => by
      obtain rfl := hcur i hi
      exact hleafs
    growing := fun i j hi hj _ => by
      obtain rfl := hcur i hi
      obtain rfl := hcur j hj
      exact ⟨le_rfl, le_rfl, fun _ _ hv => hv⟩
    contiguous := fun i j k v l hi hj hk _ _ _ => by
      obtain rfl := hcur i hi.1
      obtain rfl := hcur j hj
      exact ⟨hi, rfl⟩ }

/-! ## The sample image

The sample device has a tree of two levels with four leaves. Whether it is sound
is a question about some dozen nodes, which are gone through one by one. -/

namespace Device

/-- The trees of the sample image. -/
def sampleTrees : Trees Platform.sample := sample.sb.trees sample.store

/-- The place of a block in the tree of the sample image. -/
def samplePlace (pba : ℕ) : ℕ × ℕ := if pba = 8 then (2, 0) else if pba = 9 then (1, 0)
  else (0, pba - 10)

/-- The nodes of the sample tree, gone through. -/
theorem sampleTrees_node : ∀ l ≤ 2, ∀ v < 4, (sampleTrees.node 0 v l).gen = 0
    ∧ ((sampleTrees.node 0 v l).pba = 0 ∨ 8 ≤ (sampleTrees.node 0 v l).pba
      ∧ (sampleTrees.node 0 v l).pba ≤ 11
      ∧ samplePlace (sampleTrees.node 0 v l).pba = (l, v / 2 ^ l)) := by decide

/-- A node that the tree has is one of them. -/
theorem sampleTrees_present {v l : ℕ} (h : sampleTrees.Present 0 v l) :
    l ≤ 2 ∧ v < 4 ∧ (sampleTrees.node 0 v l).gen = 0 ∧ 8 ≤ (sampleTrees.node 0 v l).pba
      ∧ (sampleTrees.node 0 v l).pba ≤ 11
      ∧ samplePlace (sampleTrees.node 0 v l).pba = (l, v / 2 ^ l) := by
  have hl : l ≤ 2 := h.1
  have hv : v < 4 := h.2.1
  obtain ⟨hgen, hpba⟩ := sampleTrees_node l hl v hv
  exact ⟨hl, hv, hgen, hpba.resolve_left h.pba_ne_zero⟩

/-- **The tree of the sample image is sound.** -/
theorem sample_sound :
    Sound (sample.sb.trees sample.store) sample.sb.keyState sample.free.entries
      sample.ctl.currGen := by
  refine Sound.of_single (by decide) (by decide) (by decide) (fun v l w k hv hw heq => ?_)
    (fun v l hv => ?_) (by decide) (fun v l hv e he heq => ?_) (fun v l hv hneed => ?_)
    ⟨by decide, fun v => ⟨fun hv => ?_, fun hv => ?_⟩⟩
  · obtain ⟨-, -, -, -, -, hplace⟩ := sampleTrees_present hv
    obtain ⟨-, -, -, -, -, hplace'⟩ := sampleTrees_present hw
    have heq' : (sampleTrees.node 0 v l).pba = (sampleTrees.node 0 w k).pba := heq
    rw [heq', hplace'] at hplace
    obtain ⟨rfl, hdiv⟩ := Prod.mk.inj hplace
    exact ⟨rfl, hdiv.symm⟩
  · obtain ⟨-, -, hgen, -⟩ := sampleTrees_present hv
    exact hgen.le
  · obtain ⟨-, -, -, hlo, hhi, -⟩ := sampleTrees_present hv
    have hstock : ∀ e ∈ sample.free.entries, e.pba = 0 ∨ 14 ≤ e.pba := by decide
    have heq' : e.pba = (sampleTrees.node 0 v l).pba := heq
    have := hstock e he
    omega
  · obtain ⟨hl, hv', hgen, -⟩ := sampleTrees_present hv
    have hhash : ∀ l ≤ 2, ∀ v < 4, Platform.sample.hash
        (sampleTrees.blockOf (sampleTrees.node 0 v l)) = (sampleTrees.node 0 v l).hash := by
      decide
    exact hhash l hl v hv'
  · obtain ⟨-, -, -, -, hhi, hplace⟩ := sampleTrees_present hv
    show v < 2
    unfold samplePlace at hplace
    split_ifs at hplace
    · exact absurd (Prod.mk.inj hplace).1 (by omega)
    · exact absurd (Prod.mk.inj hplace).1 (by omega)
    · have hsnd := (Prod.mk.inj hplace).2
      rw [pow_zero, Nat.div_one] at hsnd
      omega
  · have hpba : ∀ v < 2, ∀ j ≤ 2, (sampleTrees.node 0 v j).pba ≠ 0 := by decide
    have hv' : v < 2 := hv
    exact ⟨Nat.zero_le 2, show v < 4 by omega, fun j _ hj => hpba v hv' j hj⟩

/-- None of them has the invalid address. -/
theorem sample_addressed : (sample.sb.trees sample.store).Addressed := by
  intro i v l hi hp
  obtain rfl : i = 0 := by
    have hvalid : ∀ i, (sample.sb.snapshots i).valid = true → i = 0 := by decide
    exact hvalid i hi.1
  obtain ⟨-, -, -, -, hhi, -⟩ := sampleTrees_present hp
  exact (lt_of_le_of_lt hhi (by decide)).ne

end Device

end Cbe
