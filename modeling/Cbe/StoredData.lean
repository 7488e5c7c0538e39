import Cbe.Writing
import Cbe.RekeyingSound

/-!
# What the trees store

The tree of a snapshot stores a block of data at each address that it counts:
the leaf's block, decrypted under the key of the address, or zeros where nothing
was written (`Trees.stored`). This is what a read returns when the trees are
sound (`readVba_eq`). A new path of the current tree changes what is stored at
the address of the path only, a rekeying step changes nothing.

This is the meaning of a tree: the addresses of the blocks, the hashes and the
generations do not occur in it. The statements about the device in terms of what
it stores, over whole runs and across restarts, are about this function. That a
rekeying changes nothing although it writes every leaf anew is where the keys
come in: the address that was rekeyed is decrypted under the new key from the
same step on.
-/

namespace Cbe

variable {P : Platform}

/-- The key of an address. -/
def KeyState.keyId (K : KeyState) (v : ℕ) : ℕ :=
  if K.rekeying = true ∧ K.front ≤ v then K.previousKeyId else K.currentKeyId

/-- The key of an address is the one that the source selects. -/
theorem Superblock.keyId_keyState (sb : Superblock) (v : ℕ) :
    sb.keyState.keyId v = selectedKeyId sb v := by
  unfold KeyState.keyId selectedKeyId Superblock.keyState
  simp only [decide_eq_true_eq]

namespace Trees

/-- **What the tree of a snapshot stores** at an address. -/
def stored (t : Trees P) (K : KeyState) (i : SnapshotsIndex) (v : ℕ) : Option P.Block :=
  if v < (t.snaps i).nrOfLeafs then
    some (if (t.node i v 0).gen = 0 then P.zero
      else P.decrypt (K.keyId v) (t.blockOf (t.node i v 0)))
  else none

/-- No node of a tree that counts has the invalid address. -/
def Addressed (t : Trees P) : Prop :=
  ∀ i v l, t.Tracked i → t.Present i v l → (t.node i v l).pba ≠ pbaInvalid

variable {t t' : Trees P} {K K' : KeyState} {i j : SnapshotsIndex} {v : ℕ}

/-- Something is stored at the addresses that the snapshot counts. -/
theorem stored_isSome : (t.stored K i v).isSome ↔ v < (t.snaps i).nrOfLeafs := by
  unfold stored
  by_cases hv : v < (t.snaps i).nrOfLeafs
  · simp [hv]
  · simp [hv]

/-- Leaves with the same data store the same. -/
theorem stored_congr (hleafs : (t'.snaps j).nrOfLeafs = (t.snaps i).nrOfLeafs)
    (hgen : v < (t.snaps i).nrOfLeafs → (t'.node j v 0).gen = (t.node i v 0).gen)
    (hdata : v < (t.snaps i).nrOfLeafs → (t.node i v 0).gen ≠ 0 →
      P.decrypt (K'.keyId v) (t'.blockOf (t'.node j v 0))
        = P.decrypt (K.keyId v) (t.blockOf (t.node i v 0))) :
    t'.stored K' j v = t.stored K i v := by
  unfold stored
  rw [hleafs]
  split_ifs with hv h0 h1 h1
  · rfl
  · exact absurd ((hgen hv).symm.trans h0) h1
  · exact absurd ((hgen hv).trans h1) h0
  · rw [hdata hv h1]
  · rfl

end Trees

section

variable {sb : Superblock} {s : Store P} {es : List Type2Node} {g : ℕ} {snapId v : ℕ}
  {slot : SnapshotsIndex}

/-- **A read returns what is stored.** -/
theorem readVba_eq (h : Sound (sb.trees s) sb.keyState es g) (ha : (sb.trees s).Addressed)
    (hslot : snapSlotIdx sb snapId = some slot) (htr : (sb.trees s).Tracked slot) :
    readVba s sb snapId v = (sb.trees s).stored sb.keyState slot v := by
  have hpos : 0 < (sb.snapshots slot).nrOfLeafs := (h.complete slot htr).1
  unfold readVba
  rw [hslot, Option.bind_some]
  unfold Trees.stored
  show (if (sb.snapshots slot).nrOfLeafs ≤ v then none else _)
    = if v < (sb.snapshots slot).nrOfLeafs then _ else none
  by_cases hv : v < (sb.snapshots slot).nrOfLeafs
  · have hpres := fun l hl => h.present htr hv (l := l) hl
    rw [if_neg (by omega), if_pos hv]
    -- every block on the way has its hash and no address is invalid
    have hsome : (translateSnapshot s sb.degree (sb.snapshots slot) v).isSome = true := by
      refine translateSnapshot_isSome h.admitted (fun l h0 hl => ?_) fun l hl => ?_
      · exact h.hashed slot v l ⟨htr, hpres l hl, Or.inl h0⟩
      · exact ha slot v l htr (hpres l hl)
    obtain ⟨walk, hwalk⟩ := Option.isSome_iff_exists.mp hsome
    have hleaf : walk 0 = (sb.trees s).node slot v 0 :=
      translateSnapshot_spec h.admitted hwalk (Nat.zero_le _)
    rw [hwalk, Option.bind_some, hleaf]
    unfold readLeaf
    by_cases h0 : ((sb.trees s).node slot v 0).gen = 0
    · rw [if_pos h0, if_pos h0]
    · have hhash : P.hash (s.blocks ((sb.trees s).node slot v 0).pba)
          = ((sb.trees s).node slot v 0).hash :=
        h.hashed slot v 0 ⟨htr, hpres 0 (Nat.zero_le _), Or.inr h0⟩
      rw [if_neg h0, if_neg h0, if_neg (not_not.mpr hhash), sb.keyId_keyState]
      rfl
  · rw [if_pos (by omega), if_neg hv]

end

/-! ## A new path

A write, seen from what is stored. Another tree is left alone altogether; the
current one differs at one address. -/

namespace CurrentPath

variable {t t' : Trees P} {K : KeyState} {v lo w : ℕ} {new : ℕ → Type1Node} {req : AllocRequest}
  {lvls : List ℕ} {newPbas : NewPbas} {entries entries' : List Type2Node} {i : SnapshotsIndex}

/-- **Off the new path** a tree stores what the one that it comes from stored. -/
theorem stored_off (h : CurrentPath t t' K v lo new req lvls newPbas entries entries')
    (hf : Forest t K entries) (hcomp : t.Complete)
    (hleafs : (t'.snaps t'.cur).nrOfLeafs = (t.snaps t.cur).nrOfLeafs) (hi : t'.Tracked i)
    (hoff : ¬ (i = t'.cur ∧ lo = 0 ∧ w = v)) :
    t'.stored K i w = t.stored K (source t t' i) w := by
  have hoff' : ¬ (i = t'.cur ∧ lo ≤ 0 ∧ sameNode t.degree 0 w v) := by
    rintro ⟨hic, hlo, hon⟩
    unfold sameNode at hon
    rw [pow_zero, Nat.div_one, Nat.div_one] at hon
    exact hoff ⟨hic, Nat.le_zero.mp hlo, hon⟩
  have htr := h.tracked_source hi
  have hpres : w < (t.snaps (source t t' i)).nrOfLeafs → t.Present (source t t' i) w 0 :=
    fun hw => ((hcomp _ htr).2 w).mpr hw
  refine Trees.stored_congr (h.nrOfLeafs_source hleafs hi) (fun hw => ?_) fun hw hgen => ?_
  · rw [h.node_source hf hi (hpres hw) hoff']
  · have hnode := h.node_source hf hi (hpres hw) hoff'
    have hneed : t'.Needed i w 0 :=
      ⟨hi, (h.present_source hf hi).mpr (hpres hw), Or.inr (by rw [hnode]; exact hgen)⟩
    by_cases hc : i = t'.cur
    · have hp := hpres hw
      rw [hc, source_cur] at hp hgen ⊢
      rw [hc] at hneed hnode
      obtain ⟨-, hblk⟩ := h.blockOf_off_path hf hp fun hon => hoff' ⟨hc, hon⟩
      rw [hblk]
    · obtain ⟨-, -, hblk⟩ := h.blockOf_other hf hc hneed
      rw [source_of_ne hc, hblk]

/-- **On the new path** it stores what was written. -/
theorem stored_on (h : CurrentPath t t' K v 0 new req lvls newPbas entries entries')
    (hf : Forest t K entries) (hleafs : (t'.snaps t'.cur).nrOfLeafs = (t.snaps t.cur).nrOfLeafs)
    (hv : v < (t.snaps t.cur).nrOfLeafs) (hgen : (new 0).gen ≠ 0) :
    t'.stored K t'.cur v = some (P.decrypt (K.keyId v) (t'.blockOf (new 0))) := by
  have hnode : t'.node t'.cur v 0 = new 0 := by
    rw [(h.path hf).node_eq h.present, if_pos ⟨le_rfl, rfl⟩]
  unfold Trees.stored
  rw [hleafs, if_pos hv, hnode, if_neg hgen]

/-- The addresses stay valid. -/
theorem addressed (h : CurrentPath t t' K v lo new req lvls newPbas entries entries')
    (hf : Forest t K entries) (ha : t.Addressed) : t'.Addressed := by
  intro i w l hi hp
  have hp' := (h.present_source hf hi).mp hp
  by_cases hon : i = t'.cur ∧ lo ≤ l ∧ sameNode t.degree l w v
  · obtain ⟨rfl, hlo, hwv⟩ := hon
    rw [source_cur] at hp'
    rw [(h.path hf).node_eq hp', if_pos ⟨hlo, hwv⟩]
    by_cases hmem : l ∈ lvls
    · obtain ⟨e, -, -, -, hu, hpba, -⟩ := h.handout.taken l hmem
      rw [h.handed l hmem, ← hpba]
      exact hu.2.1
    · rw [(h.in_place l hlo hp'.1 hmem).1]
      exact ha t.cur v l ⟨h.valid, Or.inl rfl⟩ (hp'.congr hwv)
  · rw [h.node_source hf hi hp' hon]
    exact ha _ w l (h.tracked_source hi) hp'

end CurrentPath

/-! ## A rekeying step

All trees change at once here, and their keys with them. -/

namespace Rekeyed.Complete

variable {t₀ t : Trees P} {K K' : KeyState} {r g : ℕ} {done : SnapshotsIndex → Prop}
  {new : SnapshotsIndex → ℕ → Type1Node} {out : List Draw} {usable : Type2Node → Prop}
  {es es' : List Type2Node} {i : SnapshotsIndex} {v : ℕ}

/-- The key of another address stays. -/
theorem keyId_eq (hK : K.Advanced K' r) (hr : K.rekeying = true) (hfront : K.front = r)
    (hend : K'.rekeying = false → v ≤ r) (hv : v ≠ r) : K'.keyId v = K.keyId v := by
  unfold KeyState.keyId
  rw [hr, hfront, hK.currentKeyId]
  cases hr' : K'.rekeying with
  | true =>
    rw [hK.front hr', hK.previousKeyId hr']
    refine if_congr ?_ rfl rfl
    simp only [true_and]
    omega
  | false =>
    have hle := hend hr'
    rw [if_neg (by simp), if_neg (by omega)]

/-- **A rekeying step changes nothing of what is stored.** -/
theorem stored_eq (h : Complete t₀ t K r g done new out usable es es') (hK : K.Advanced K' r)
    (hr : K.rekeying = true) (hfront : K.front = r) (hi : t₀.Tracked i)
    (hend : K'.rekeying = false → (t₀.snaps i).nrOfLeafs ≤ r + 1) :
    t.stored K' i v = t₀.stored K i v := by
  refine Trees.stored_congr (h.rekeyed.snaps_eq i).2.2.2 (fun hv => ?_) fun hv hgen => ?_
  · exact h.gen_eq hi (h.sound.present hi hv (Nat.zero_le _))
  · rw [h.leaf ⟨hi, h.sound.present hi hv (Nat.zero_le _), Or.inr hgen⟩]
    by_cases hvr : v = r
    · have hkey : K.keyId v = K.previousKeyId := by
        unfold KeyState.keyId
        rw [if_pos ⟨hr, by rw [hfront, hvr]⟩]
      have hkey' : K'.keyId v = K.currentKeyId := by
        unfold KeyState.keyId
        rw [if_neg, hK.currentKeyId]
        rintro ⟨hr', hle⟩
        rw [hK.front hr'] at hle
        omega
      rw [if_pos hvr, hkey, hkey', P.decrypt_encrypt]
    · rw [if_neg hvr, keyId_eq hK hr hfront (fun hr' => ?_) hvr]
      have := hend hr'
      omega

/-- The addresses stay valid. -/
theorem addressed (h : Complete t₀ t K r g done new out usable es es')
    (hvalid : ∀ e, usable e → e.pba ≠ pbaInvalid) (ha : t₀.Addressed) : t.Addressed := by
  intro i v l hi hp
  have hi' := h.rekeyed.tracked_iff.mp hi
  have hp' := (h.present_iff hi').mp hp
  by_cases hon : sameNode t₀.degree l v r
  · rw [h.node_on hi' hp' hon]
    obtain ⟨x, hx, hpba⟩ := h.rekeyed.origin i l (h.all i hi') hp'.1
    obtain ⟨e, -, hu, he⟩ := h.drawn.taken x hx
    rw [← hpba, ← he]
    exact hvalid e hu
  · rw [h.node_off hi' hp' hon]
    exact ha i v l hi' hp'

end Rekeyed.Complete

end Cbe
