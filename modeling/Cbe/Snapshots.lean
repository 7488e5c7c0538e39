import Cbe.Types
import Cbe.Support.Selection
import Mathlib.Data.List.FinRange

/-!
# The snapshot table

The loops over the 48 snapshot slots that the modules share: looking up the
newest snapshot, a snapshot id, or a free slot, and discarding the snapshots
that nobody needs any more.

The purge and the rewriting of the current generation are the two operations
that decide which snapshots survive. What a purge keeps is
`discardDisposableSnapshots_valid_iff`; that it changes nothing else about a
slot is `discardDisposableSnapshots_eq`.

The loops run over the slots from the first to the last, and where two slots
would do, the source takes the first. They are `List.find?` over the list of the
indices, and the search for the newest snapshot is the general one of
`Selection`. A search that raises in the source when nothing is found has no
result here.

Several jobs change only where the root of a snapshot is and what its hash is:
writing, rekeying and extending all rewrite trees. `Relocated` is the relation
that says so of a whole table.
-/

namespace Cbe

/-- **`Newest_Snapshot_Idx`**: the first valid slot of greatest generation.
The source raises when no slot is valid. -/
def newestSnapshotIdx (snaps : Snapshots) : Option SnapshotsIndex :=
  Selection.firstMax (fun i => (snaps i).valid = true) (fun i => (snaps i).gen)
    (List.finRange superblockNrOfSnapshots)

/-- The newest snapshot is valid and no valid snapshot has a greater
generation. -/
theorem newestSnapshotIdx_spec {snaps : Snapshots} {i : SnapshotsIndex}
    (h : newestSnapshotIdx snaps = some i) :
    (snaps i).valid = true
      ∧ ∀ j, (snaps j).valid = true → (snaps j).gen ≤ (snaps i).gen := by
  obtain ⟨-, hv, hle⟩ := Selection.firstMax_spec h
  exact ⟨hv, fun j hj => hle j (List.mem_finRange j) hj⟩

/-- The strictly newest valid snapshot is the one found. -/
theorem newestSnapshotIdx_eq_some {snaps : Snapshots} {i : SnapshotsIndex}
    (hv : (snaps i).valid = true)
    (h : ∀ j, (snaps j).valid = true → j ≠ i → (snaps j).gen < (snaps i).gen) :
    newestSnapshotIdx snaps = some i :=
  Selection.firstMax_eq_some_of_lt (List.mem_finRange i) hv
    (fun j _ hj hne => h j hj hne)

/-- **`Discard_Disposable_Snapshots`**: a valid snapshot that is neither kept
nor of one of the two given generations becomes invalid. -/
def discardDisposableSnapshots (snaps : Snapshots) (currGen lastSecuredGen : ℕ) :
    Snapshots := fun i =>
  if (snaps i).valid = true ∧ (snaps i).keep = false ∧ (snaps i).gen ≠ currGen
      ∧ (snaps i).gen ≠ lastSecuredGen then
    { snaps i with valid := false }
  else snaps i

/-- The two generations a purge spares are interchangeable: some callers pass
them the other way round. -/
theorem discardDisposableSnapshots_comm (snaps : Snapshots) (a b : ℕ) :
    discardDisposableSnapshots snaps a b = discardDisposableSnapshots snaps b a := by
  funext i
  unfold discardDisposableSnapshots
  congr 1
  rw [and_comm (a := (snaps i).gen ≠ a)]

/-- **What a purge leaves of a slot**: everything but the valid flag. -/
theorem discardDisposableSnapshots_eq (snaps : Snapshots) (a b : ℕ) (i : SnapshotsIndex) :
    discardDisposableSnapshots snaps a b i
      = { snaps i with valid := (discardDisposableSnapshots snaps a b i).valid } := by
  unfold discardDisposableSnapshots
  split_ifs <;> rfl

/-- A purge changes no generation. -/
@[simp] theorem discardDisposableSnapshots_gen (snaps : Snapshots) (a b : ℕ)
    (i : SnapshotsIndex) : (discardDisposableSnapshots snaps a b i).gen = (snaps i).gen := by
  rw [discardDisposableSnapshots_eq]

/-- A purge changes no keep flag. -/
@[simp] theorem discardDisposableSnapshots_keep (snaps : Snapshots) (a b : ℕ)
    (i : SnapshotsIndex) : (discardDisposableSnapshots snaps a b i).keep = (snaps i).keep := by
  rw [discardDisposableSnapshots_eq]

/-- A purge changes no number of leaves. -/
@[simp] theorem discardDisposableSnapshots_nrOfLeafs (snaps : Snapshots) (a b : ℕ)
    (i : SnapshotsIndex) :
    (discardDisposableSnapshots snaps a b i).nrOfLeafs = (snaps i).nrOfLeafs := by
  rw [discardDisposableSnapshots_eq]

/-- **Which snapshots survive a purge**: the valid ones that are kept or of a
spared generation. Every invariant about the snapshots that the blocks of a tree
are held for goes through this equivalence. -/
theorem discardDisposableSnapshots_valid_iff (snaps : Snapshots) (a b : ℕ)
    (i : SnapshotsIndex) :
    (discardDisposableSnapshots snaps a b i).valid = true
      ↔ (snaps i).valid = true
        ∧ ((snaps i).keep = true ∨ (snaps i).gen = a ∨ (snaps i).gen = b) := by
  unfold discardDisposableSnapshots
  split_ifs with h
  · obtain ⟨-, hk, ha, hb⟩ := h
    simp [hk, ha, hb]
  · refine ⟨fun hv => ⟨hv, ?_⟩, And.left⟩
    by_contra hn
    push Not at hn
    exact h ⟨hv, by simpa using hn.1, hn.2.1, hn.2.2⟩

/-- A purge makes no slot valid. -/
theorem discardDisposableSnapshots_valid {snaps : Snapshots} {a b : ℕ}
    {i : SnapshotsIndex} (h : (discardDisposableSnapshots snaps a b i).valid = true) :
    (snaps i).valid = true :=
  ((discardDisposableSnapshots_valid_iff snaps a b i).mp h).1

/-- **The same snapshots under new roots**: every slot keeps everything but the
address and the hash of its root. It is a preorder, and an update of a slot that
writes no more than these two fields is an instance. -/
def Relocated (s t : Snapshots) : Prop :=
  ∀ i, t i = { s i with pba := (t i).pba, hash := (t i).hash }

namespace Relocated

/-- A table is the same under its own roots. -/
theorem refl (s : Snapshots) : Relocated s s := fun _ => rfl

/-- New roots can be given twice. -/
theorem trans {s t u : Snapshots} (h : Relocated s t) (h' : Relocated t u) :
    Relocated s u := by
  intro i
  rw [h' i, h i]

/-- One snapshot is given a new root. -/
theorem update (s : Snapshots) (i : SnapshotsIndex) (pba : ℕ) (hash : Hash) :
    Relocated s (Function.update s i { s i with pba := pba, hash := hash }) := by
  intro j
  by_cases hj : j = i
  · subst hj
    rw [Function.update_self]
  · rw [Function.update_of_ne hj]

variable {s t : Snapshots} (h : Relocated s t) (i : SnapshotsIndex)
include h

/-- New roots make no snapshot valid or invalid. -/
theorem valid : (t i).valid = (s i).valid := by rw [h i]

/-- New roots change no generation. -/
theorem gen : (t i).gen = (s i).gen := by rw [h i]

/-- New roots change no keep flag. -/
theorem keep : (t i).keep = (s i).keep := by rw [h i]

/-- New roots change the height of no tree. -/
theorem maxLevel : (t i).maxLevel = (s i).maxLevel := by rw [h i]

/-- New roots change the size of no tree. -/
theorem nrOfLeafs : (t i).nrOfLeafs = (s i).nrOfLeafs := by rw [h i]

end Relocated

/-- **`Idx_Of_Any_Invalid_Snap`**: the first slot that is not valid. The
source raises when every slot is valid. -/
def idxOfAnyInvalidSnap (snaps : Snapshots) : Option SnapshotsIndex :=
  (List.finRange superblockNrOfSnapshots).find? (fun i => !(snaps i).valid)

/-- The slot that is found is free. -/
theorem idxOfAnyInvalidSnap_spec {snaps : Snapshots} {i : SnapshotsIndex}
    (h : idxOfAnyInvalidSnap snaps = some i) : (snaps i).valid = false := by
  simpa using List.find?_some h

/-- **`Snap_Slot_For_ID`**: the first valid slot whose generation is the id.
The source raises when there is none. -/
def snapSlotForId (snaps : Snapshots) (id : ℕ) : Option SnapshotsIndex :=
  (List.finRange superblockNrOfSnapshots).find?
    (fun i => (snaps i).valid && (snaps i).gen == id)

/-- The search of `Execute_Discard_Snapshot`: the first kept valid slot whose
generation is the one to discard. -/
def keptSlotForGen (snaps : Snapshots) (gen : ℕ) : Option SnapshotsIndex :=
  (List.finRange superblockNrOfSnapshots).find?
    (fun i => (snaps i).valid && (snaps i).keep && (snaps i).gen == gen)

/-- Making a slot invalid changes no generation. -/
theorem invalidated_gen (snaps : Snapshots) (i j : SnapshotsIndex) :
    (Function.update snaps i { snaps i with valid := false } j).gen = (snaps j).gen := by
  rw [Function.update_apply]
  split_ifs with hj
  · rw [hj]
  · rfl

/-- The slots that are valid after one was made invalid. -/
theorem invalidated_valid_iff (snaps : Snapshots) (i j : SnapshotsIndex) :
    (Function.update snaps i { snaps i with valid := false } j).valid = true
      ↔ j ≠ i ∧ (snaps j).valid = true := by
  rw [Function.update_apply]
  split_ifs with hj
  · simp [hj]
  · simp [hj]

/-- The greatest number of leaves of a valid snapshot, as the rekeying job
computes it. -/
def maxNrOfLeafs (snaps : Snapshots) : ℕ :=
  (List.finRange superblockNrOfSnapshots).foldl
    (fun m i => if (snaps i).valid = true ∧ m < (snaps i).nrOfLeafs
      then (snaps i).nrOfLeafs else m) 0

end Cbe
