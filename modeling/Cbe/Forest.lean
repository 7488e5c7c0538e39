import Cbe.FreeTree
import Cbe.Trees

/-!
# The trees of the snapshots and the stock of the free tree

The free tree decides from what it recorded about a block whether the block may
be given out again. That no block still needed is given out is a relation
between the trees of the snapshots and the stock, `Forest`:

* a block is at one place only, whatever trees it is in (`injOn`);
* the blocks of the current tree are not in the stock (`current`);
* every other block that a tree needs is in the stock under an entry that the
  free tree does not consider usable (`kept`, `Guards`).

A change of the current tree, with what the tree gives up put into the stock,
keeps the relation (`CurrentUpdate.forest`); so does a new path in it
(`CurrentPath.toCurrentUpdate`).

Two things make a reserved entry usable: that no snapshot lies between the
generation in which the block was allocated and the one in which it was freed;
and, during a rekeying, that the block was given up under the previous key for
an address that the rekeying has passed. An entry that guards a block is one for
which neither is the case.

`CurrentUpdate` says only what an update does to the places that trees own, so
that it fits a write, a step of a rekeying and a new branch of an extension
alike. `CurrentPath` is the shape that the first two have: one path to a leaf,
of which the upper levels come from the free tree in exchange for the old blocks
and the others are written in place.
-/

namespace Cbe

variable {P : Platform}

/-! ## Entries that guard a block

The key state is what the free tree asks for beside the generations. -/

/-- How far a rekeying has got, and the ids of its keys. -/
structure KeyState where
  /-- Whether a rekeying is in progress. -/
  rekeying : Bool
  /-- The address that it does next. -/
  front : ℕ
  /-- The key that it replaces. -/
  previousKeyId : ℕ
  /-- The key for what is written. -/
  currentKeyId : ℕ

/-- The key state of a superblock. -/
def Superblock.keyState (sb : Superblock) : KeyState where
  rekeying := decide (sb.state = .rekeying)
  front := sb.rekeyingVba
  previousKeyId := sb.previousKey.id
  currentKeyId := sb.currentKey.id

/-- **An entry of the stock guards a block** that a snapshot needs at a place:
it is reserved, the generation of the snapshot lies between those of its
allocation and its freeing, and the rekeying has not passed it. -/
structure Guards (t : Trees P) (K : KeyState) (i : SnapshotsIndex) (v l : ℕ)
    (e : Type2Node) : Prop where
  /-- The entry has the block of the place. -/
  pba : e.pba = (t.node i v l).pba
  /-- It is reserved. -/
  reserved : e.reserved = true
  /-- The block was allocated in the generation of the node. -/
  alloc : e.allocGen = (t.node i v l).gen
  /-- It was given up after the generation of the snapshot. -/
  free : (t.snaps i).gen < e.freeGen
  /-- It was given up for an address of the same node. -/
  lastVba : sameNode t.degree l e.lastVba v
  /-- Its key is not newer than the current one. -/
  lastKey : e.lastKeyId ≤ K.currentKeyId
  /-- A rekeying has not passed it. -/
  front : K.rekeying = true → e.lastKeyId = K.previousKeyId → K.front ≤ e.lastVba

/-- **The trees and the stock fit together.** -/
structure Forest (t : Trees P) (K : KeyState) (entries : List Type2Node) : Prop where
  /-- A block is at one place. -/
  injOn : ∀ i v l j w k, t.Owned i v l → t.Owned j w k →
    (t.node i v l).pba = (t.node j w k).pba →
    l = k ∧ sameNode t.degree l v w ∧ (t.node i v l).gen = (t.node j w k).gen
  /-- No node is newer than its snapshot. -/
  gen_le : ∀ i v l, t.Owned i v l → (t.node i v l).gen ≤ (t.snaps i).gen
  /-- The addresses of the stock are distinct. -/
  stock : (stockPbas entries).Nodup
  /-- The current tree is not in the stock. -/
  current : ∀ v l, t.Owned t.cur v l → ∀ e ∈ entries, e.pba ≠ (t.node t.cur v l).pba
  /-- What another tree needs is in the current one or guarded. -/
  kept : ∀ i v l, t.Owned i v l →
    (t.Owned t.cur v l ∧ (t.node t.cur v l).pba = (t.node i v l).pba)
      ∨ ∃ e ∈ entries, Guards t K i v l e

/-- What a request to the free tree is told about the trees and the keys. -/
structure AllocRequest.Fits (req : AllocRequest) (t : Trees P) (K : KeyState) : Prop where
  /-- The snapshots that count are among those the request knows, with their
  generations. -/
  snaps : ∀ i, t.Tracked i → (req.activeSnaps i).valid = true
    ∧ (req.activeSnaps i).gen = (t.snaps i).gen ∧ (t.snaps i).gen < generationLast
  /-- It knows how far a rekeying has got. -/
  keys : req.rekeying = true → K.rekeying = true ∧ req.previousKeyId = K.previousKeyId
    ∧ req.rekeyingVba = K.front

namespace Forest

variable {t : Trees P} {K K' : KeyState} {entries : List Type2Node} {req : AllocRequest}
  {i j : SnapshotsIndex} {v w l k : ℕ}

/-- A guarding entry is not usable. -/
theorem not_usable_of_guards (hreq : req.Fits t K) (ht : t.Owned i v l)
    (hgen : (t.node i v l).gen ≤ (t.snaps i).gen) {e : Type2Node} (he : Guards t K i v l e) :
    ¬ checkType2LeafUsable req e := by
  obtain ⟨hvalid, hsnapgen, hlast⟩ := hreq.snaps i ht.1
  rintro ⟨-, -, -, hres | ⟨hrkg, hkey, hvba⟩ | hunused⟩
  · rw [he.reserved] at hres
    exact absurd hres (by simp)
  · obtain ⟨hK, hprev, hfront⟩ := hreq.keys hrkg
    have := he.front hK (hkey.trans hprev)
    rw [hfront] at hvba
    omega
  · refine hunused i ⟨hvalid, by rw [hsnapgen]; exact he.free, ?_⟩
    rw [hsnapgen, nextGeneration_of_lt hlast, he.alloc]
    omega

/-- **No usable entry holds a block that a tree owns.** -/
theorem pba_ne_of_usable (h : Forest t K entries) (hreq : req.Fits t K) {e : Type2Node}
    (he : e ∈ entries) (hu : checkType2LeafUsable req e) (ho : t.Owned i v l) :
    (t.node i v l).pba ≠ e.pba := by
  intro heq
  rcases h.kept i v l ho with ⟨hcur, hpba⟩ | ⟨e', he', hg⟩
  · exact h.current v l hcur e he (heq.symm.trans hpba.symm)
  · obtain rfl := eq_of_stockPbas h.stock he he' hu.1 (heq.symm.trans hg.pba.symm)
    exact not_usable_of_guards hreq ho (h.gen_le i v l ho) hg hu

/-- A block with a generation that another tree is too old for is not in that
tree. -/
theorem pba_ne_of_gen_lt (h : Forest t K entries) (ho : t.Owned i v l) (hj : t.Owned j w k)
    (hlt : (t.snaps j).gen < (t.node i v l).gen) :
    (t.node j w k).pba ≠ (t.node i v l).pba := by
  intro heq
  obtain ⟨-, -, hgen⟩ := h.injOn j w k i v l hj ho heq
  have := h.gen_le j w k hj
  omega

/-- The levels of a path have different blocks. -/
theorem level_injOn (h : Forest t K entries) (hl : t.Owned i v l) (hk : t.Owned i v k)
    (heq : (t.node i v l).pba = (t.node i v k).pba) : l = k :=
  (h.injOn i v l i v k hl hk heq).1

/-- The key state may change as long as no entry is passed. -/
theorem keyState (h : Forest t K entries) (hid : K.currentKeyId ≤ K'.currentKeyId)
    (hfront : ∀ i v l, t.Owned i v l → ∀ e ∈ entries, Guards t K i v l e →
      K'.rekeying = true → e.lastKeyId = K'.previousKeyId → K'.front ≤ e.lastVba) :
    Forest t K' entries where
  injOn := h.injOn
  gen_le := h.gen_le
  stock := h.stock
  current := h.current
  kept i v l ho := by
    rcases h.kept i v l ho with hcur | ⟨e, he, hg⟩
    · exact Or.inl hcur
    · refine Or.inr ⟨e, he, hg.pba, hg.reserved, hg.alloc, hg.free, hg.lastVba,
        hg.lastKey.trans hid, ?_⟩
      exact hfront i v l ho e he hg

end Forest

/-- **A block stays at one place** when every block that is owned now was owned
at the same place before or is fresh, and the fresh ones are at one place. -/
theorem injOn_of_origin {t t' : Trees P} {K : KeyState} {entries : List Type2Node}
    {F : ℕ → Prop} (hf : Forest t K entries)
    (horigin : ∀ i v l, t'.Owned i v l → F (t'.node i v l).pba
      ∨ ∃ j, t.Owned j v l ∧ (t'.node i v l).pba = (t.node j v l).pba
        ∧ ((t'.node i v l).gen = (t.node j v l).gen
          ∨ ∀ k w m, k ≠ i → t'.Owned k w m → (t'.node k w m).pba ≠ (t'.node i v l).pba))
    (hdeg : t'.degree = t.degree)
    (hfresh : ∀ i v l j w k, t'.Owned i v l → t'.Owned j w k → F (t'.node i v l).pba →
      (t'.node i v l).pba = (t'.node j w k).pba →
      l = k ∧ sameNode t.degree l v w ∧ (t'.node i v l).gen = (t'.node j w k).gen)
    {i j : SnapshotsIndex} {v l w k : ℕ} (hi : t'.Owned i v l) (hj : t'.Owned j w k)
    (heq : (t'.node i v l).pba = (t'.node j w k).pba) :
    l = k ∧ sameNode t.degree l v w ∧ (t'.node i v l).gen = (t'.node j w k).gen := by
  rcases horigin i v l hi with hfi | ⟨i₀, hoi, hpi, hgi⟩
  · exact hfresh i v l j w k hi hj hfi heq
  rcases horigin j w k hj with hfj | ⟨j₀, hoj, hpj, hgj⟩
  · obtain ⟨hlk, hvw, hg⟩ := hfresh j w k i v l hj hi hfj heq.symm
    exact ⟨hlk.symm, by rw [← hlk]; exact hvw.symm, hg.symm⟩
  obtain ⟨rfl, hvw, hg⟩ := hf.injOn i₀ v l j₀ w k hoi hoj (hpi.symm.trans (heq.trans hpj))
  refine ⟨rfl, hvw, ?_⟩
  by_cases hij : j = i
  · rw [hij, Trees.node_congr hi.2.1.1 (by rw [hdeg]; exact hvw)]
  · rcases hgi with hgi | hpriv
    · rcases hgj with hgj | hpriv
      · rw [hgi, hg, hgj]
      · exact absurd heq (hpriv i v l (Ne.symm hij) hi)
    · exact absurd heq.symm (hpriv j w l hij hj)

/-! ## A new current tree

First for a change that is given by what its tree owns, then for a new path. -/

/-- **A change of the current tree**: what the new current tree owns is fresh
or was owned by the old one at the same place, what the old one gave up and
another tree needs is guarded now, and the stock keeps every block that a tree
owns. -/
structure CurrentUpdate (t t' : Trees P) (K : KeyState) (fresh : ℕ → Prop)
    (entries entries' : List Type2Node) : Prop where
  /-- The degree is the same. -/
  degree : t'.degree = t.degree
  /-- Every other snapshot is as it was, and its tree is left alone. -/
  other : ∀ i, i ≠ t'.cur → t'.Tracked i → t.Tracked i ∧ t'.snaps i = t.snaps i
    ∧ Trees.LeftAlone t t' i i
  /-- No node of the new current tree is newer than the snapshot. -/
  gen_le : ∀ v l, t'.Owned t'.cur v l → (t'.node t'.cur v l).gen ≤ (t'.snaps t'.cur).gen
  /-- Fresh blocks were owned by no tree. -/
  fresh_unowned : ∀ p, fresh p → ∀ i v l, t.Owned i v l → (t.node i v l).pba ≠ p
  /-- They are not in the stock any more. -/
  fresh_stock : ∀ p, fresh p → ∀ e ∈ entries', e.pba ≠ p
  /-- A fresh block is at one place of the new tree. -/
  fresh_injOn : ∀ v l w k, t'.Owned t'.cur v l → t'.Owned t'.cur w k →
    fresh (t'.node t'.cur v l).pba → (t'.node t'.cur v l).pba = (t'.node t'.cur w k).pba →
    l = k ∧ sameNode t.degree l v w
  /-- What the new tree owns is fresh or was owned at the same place, and then has
  the generation it had or is in no other tree. -/
  origin : ∀ v l, t'.Owned t'.cur v l → fresh (t'.node t'.cur v l).pba
    ∨ (t.Owned t.cur v l ∧ (t'.node t'.cur v l).pba = (t.node t.cur v l).pba
      ∧ ((t'.node t'.cur v l).gen = (t.node t.cur v l).gen
        ∨ ∀ i w k, i ≠ t'.cur → t'.Owned i w k →
          (t'.node i w k).pba ≠ (t'.node t'.cur v l).pba))
  /-- The addresses of the stock are distinct. -/
  stock : (stockPbas entries').Nodup
  /-- What is in the stock was there, or is no block of the new tree. -/
  stock_origin : ∀ e ∈ entries', e.pba ≠ 0 → e ∈ entries
    ∨ ∀ v l, t'.Owned t'.cur v l → (t'.node t'.cur v l).pba ≠ e.pba
  /-- An entry with a block that a tree owned stays. -/
  stock_kept : ∀ e ∈ entries, (∃ i v l, t.Owned i v l ∧ (t.node i v l).pba = e.pba) →
    e ∈ entries'
  /-- What the old tree owned and another one owns is owned by the new tree, too,
  or guarded. -/
  released : ∀ v l, t.Owned t.cur v l → ∀ i, i ≠ t'.cur → t'.Owned i v l →
    (t'.node i v l).pba = (t.node t.cur v l).pba →
    (t'.Owned t'.cur v l ∧ (t'.node t'.cur v l).pba = (t.node t.cur v l).pba)
      ∨ ∃ e ∈ entries', Guards t K i v l e

namespace CurrentUpdate

variable {t t' : Trees P} {K : KeyState} {fresh : ℕ → Prop} {entries entries' : List Type2Node}
  {i : SnapshotsIndex} {v l : ℕ}

/-- What another tree owns it owned before, with the same node. -/
theorem owned_other (h : CurrentUpdate t t' K fresh entries entries') (hi : i ≠ t'.cur)
    (ho : t'.Owned i v l) : t.Owned i v l ∧ t'.node i v l = t.node i v l := by
  obtain ⟨htr, -, hleft⟩ := h.other i hi ho.1
  have hp := hleft.present_iff.mp ho.2.1
  have heq := hleft.node_eq hp
  have hneed := (ho.needed hi).2.2
  rw [heq] at hneed
  exact ⟨Trees.Needed.owned ⟨htr, hp, hneed⟩, heq⟩

/-- A guard of another tree's block stays one. -/
theorem guards_other (h : CurrentUpdate t t' K fresh entries entries') (hi : i ≠ t'.cur)
    (ho : t'.Owned i v l) {e : Type2Node} (he : Guards t K i v l e) : Guards t' K i v l e := by
  obtain ⟨-, heq⟩ := h.owned_other hi ho
  obtain ⟨-, hsnap, -⟩ := h.other i hi ho.1
  refine ⟨?_, he.reserved, ?_, ?_, ?_, he.lastKey, he.front⟩
  · rw [heq]
    exact he.pba
  · rw [heq]
    exact he.alloc
  · rw [hsnap]
    exact he.free
  · rw [h.degree]
    exact he.lastVba

/-- **The trees and the stock fit together after a change of the current
tree.** -/
theorem forest (h : CurrentUpdate t t' K fresh entries entries') (hf : Forest t K entries) :
    Forest t' K entries' where
  injOn i v l j w k hi hj heq := by
    rw [h.degree]
    refine injOn_of_origin hf (F := fresh) (fun i v l ho => ?_) h.degree
      (fun i v l j w k hi hj hfi heq => ?_) hi hj heq
    · by_cases hic : i = t'.cur
      · rw [hic] at ho ⊢
        rcases h.origin v l ho with hfresh | ⟨hown, hpba, hgen⟩
        · exact Or.inl hfresh
        · exact Or.inr ⟨t.cur, hown, hpba, hgen⟩
      · obtain ⟨ho', heq⟩ := h.owned_other hic ho
        exact Or.inr ⟨i, ho', by rw [heq], Or.inl (by rw [heq])⟩
    · -- only the current tree has fresh blocks
      have hcur : ∀ i v l, t'.Owned i v l → fresh (t'.node i v l).pba → i = t'.cur := by
        intro i v l ho hfr
        by_contra hic
        obtain ⟨ho', heq⟩ := h.owned_other hic ho
        rw [heq] at hfr
        exact h.fresh_unowned _ hfr i v l ho' rfl
      obtain rfl := hcur i v l hi hfi
      obtain rfl := hcur j w k hj (by rw [← heq]; exact hfi)
      obtain ⟨rfl, hvw⟩ := h.fresh_injOn v l w k hi hj hfi heq
      refine ⟨rfl, hvw, ?_⟩
      rw [Trees.node_congr hi.2.1.1 (by rw [h.degree]; exact hvw)]
  gen_le i v l ho := by
    by_cases hic : i = t'.cur
    · rw [hic] at ho ⊢
      exact h.gen_le v l ho
    · obtain ⟨ho', hnode⟩ := h.owned_other hic ho
      obtain ⟨-, hsnap, -⟩ := h.other i hic ho.1
      rw [hnode, hsnap]
      exact hf.gen_le i v l ho'
  stock := h.stock
  current v l ho e he heq := by
    have hzero : e.pba ≠ 0 := by
      rw [heq]
      exact ho.2.1.pba_ne_zero
    rcases h.stock_origin e he hzero with hold | hnew
    · rcases h.origin v l ho with hfresh | ⟨hown, hpba, -⟩
      · exact h.fresh_stock _ hfresh e he heq
      · exact hf.current v l hown e hold (heq.trans hpba)
    · exact hnew v l ho heq.symm
  kept i v l ho := by
    by_cases hic : i = t'.cur
    · rw [hic] at ho ⊢
      exact Or.inl ⟨ho, rfl⟩
    · obtain ⟨ho', hnode⟩ := h.owned_other hic ho
      rcases hf.kept i v l ho' with ⟨hcur, hpba⟩ | ⟨e, he, hg⟩
      · rw [← hnode] at hpba
        rcases h.released v l hcur i hic ho hpba.symm with ⟨hown, hp⟩ | ⟨e, he, hg⟩
        · exact Or.inl ⟨hown, hp.trans hpba⟩
        · exact Or.inr ⟨e, he, h.guards_other hic ho hg⟩
      · refine Or.inr ⟨e, h.stock_kept e he ⟨i, v, l, ho', hg.pba.symm⟩, ?_⟩
        exact h.guards_other hic ho hg

end CurrentUpdate

/-- **A new path in the current tree**, some of whose blocks were handed out by
the free tree in exchange for the old ones, the others being changed in place.
No other block changes. -/
structure CurrentPath (t t' : Trees P) (K : KeyState) (v lo : ℕ) (new : ℕ → Type1Node)
    (req : AllocRequest) (lvls : List ℕ) (newPbas : NewPbas)
    (entries entries' : List Type2Node) : Prop where
  /-- The degree is one of the type. -/
  admitted : DegreeAdmitted t.degree
  /-- It is the same as before. -/
  degree : t'.degree = t.degree
  /-- The current snapshot was valid. -/
  valid : (t.snaps t.cur).valid = true
  /-- The new current one is valid. -/
  valid' : (t'.snaps t'.cur).valid = true
  /-- Every other snapshot is as it was. -/
  snaps : ∀ i, i ≠ t'.cur → t'.Tracked i → t.Tracked i ∧ t'.snaps i = t.snaps i
  /-- The height is the same. -/
  maxLevel : (t'.snaps t'.cur).maxLevel = (t.snaps t.cur).maxLevel
  /-- The uppermost new node is the root. -/
  root : new (t.snaps t.cur).maxLevel = (t'.snaps t'.cur).root
  /-- The old way went down to the lowest new level at least. -/
  present : t.Present t.cur v lo
  /-- A new node is the old one with the next new node in the place of the child.
  -/
  inner : ∀ l, lo ≤ l → l < (t.snaps t.cur).maxLevel →
    t'.store.type1NodeBlock (new (l + 1)).pba
      = Function.update (t.store.type1NodeBlock (t.node t.cur v (l + 1)).pba)
          (childIdxForVba v (l + 1) t.degree) (new l)
  /-- The lowest new node is a copy, if it is not the leaf. -/
  copy : 0 < lo →
    t'.store.type1NodeBlock (new lo).pba = t.store.type1NodeBlock (t.node t.cur v lo).pba
  /-- No block changes but those of the new nodes. -/
  frame : ∀ p, (∀ l, lo ≤ l → l ≤ (t.snaps t.cur).maxLevel → p ≠ (new l).pba) →
    t'.store.blocks p = t.store.blocks p
  /-- Some levels got a block from the free tree. -/
  handout : Handout req lvls newPbas entries entries'
  /-- The request for them was told about the trees and the keys. -/
  fits : req.Fits t K
  /-- It was not for blocks of an older generation. -/
  tag : req.tag ≠ .forRkgOldGenBlks
  /-- No level got two. -/
  nodup : lvls.Nodup
  /-- They are levels of the new path. -/
  lvls_le : ∀ l ∈ lvls, lo ≤ l ∧ l ≤ (t.snaps t.cur).maxLevel
  /-- The new node of such a level has the block that was handed out. -/
  handed : ∀ l ∈ lvls, (new l).pba = newPbas l
  /-- The block of the old node came back for it. -/
  given_up : ∀ l ∈ lvls, (req.oldBlocks l).pba = (t.node t.cur v l).pba
  /-- On the other levels the block is the old one, which no other tree needs. -/
  in_place : ∀ l, lo ≤ l → l ≤ (t.snaps t.cur).maxLevel → l ∉ lvls →
    (new l).pba = (t.node t.cur v l).pba
      ∧ ∀ i w k, i ≠ t'.cur → t'.Tracked i → t.Needed i w k →
        (t.node i w k).pba ≠ (t.node t.cur v l).pba
  /-- No new node is newer than the snapshot. -/
  gen_le : ∀ l, lo ≤ l → l ≤ (t.snaps t.cur).maxLevel → (new l).gen ≤ (t'.snaps t'.cur).gen
  /-- The snapshot is not older than before. -/
  newer : (t.snaps t.cur).gen ≤ (t'.snaps t'.cur).gen
  /-- The entry of a block that came back guards it for every other tree that
  needs it. -/
  released : ∀ l ∈ lvls, ∀ e e', exchangeType2Leaf req l e = some e' →
    e'.pba = (t.node t.cur v l).pba → ∀ i w, i ≠ t'.cur → t'.Tracked i → t.Needed i w l →
    sameNode t.degree l w v → (t.node i w l).pba = (t.node t.cur w l).pba →
    Guards t K i w l e'

namespace CurrentPath

variable {t t' : Trees P} {K : KeyState} {v lo : ℕ} {new : ℕ → Type1Node} {req : AllocRequest}
  {lvls : List ℕ} {newPbas : NewPbas} {entries entries' : List Type2Node}

/-- The old path is owned. -/
theorem owned_path (h : CurrentPath t t' K v lo new req lvls newPbas entries entries')
    {l : ℕ} (hlo : lo ≤ l) (hl : l ≤ (t.snaps t.cur).maxLevel) : t.Owned t.cur v l :=
  (h.present.mono hlo hl).owned_cur h.valid

/-- The levels that are exchanged are levels of the old path. -/
theorem owned_lvls (h : CurrentPath t t' K v lo new req lvls newPbas entries entries')
    {l : ℕ} (hl : l ∈ lvls) : t.Owned t.cur v l :=
  h.owned_path (h.lvls_le l hl).1 (h.lvls_le l hl).2

/-- A block handed out was owned by no tree. -/
theorem unowned (h : CurrentPath t t' K v lo new req lvls newPbas entries entries')
    (hf : Forest t K entries) {l : ℕ} (hl : l ∈ lvls) {i : SnapshotsIndex} {w k : ℕ}
    (ho : t.Owned i w k) : (t.node i w k).pba ≠ newPbas l := by
  obtain ⟨e, he, -, -, hu, hpba, -⟩ := h.handout.taken l hl
  rw [← hpba]
  exact hf.pba_ne_of_usable h.fits he hu ho

/-- No block of the new path is one that another tree needs. -/
theorem ne_new_of_needed (h : CurrentPath t t' K v lo new req lvls newPbas entries entries')
    (hf : Forest t K entries) {i : SnapshotsIndex} {w k l : ℕ} (hi : i ≠ t'.cur)
    (htr : t'.Tracked i) (hn : t.Needed i w k) (hlo : lo ≤ l)
    (hl : l ≤ (t.snaps t.cur).maxLevel) : (t.node i w k).pba ≠ (new l).pba := by
  by_cases hmem : l ∈ lvls
  · rw [h.handed l hmem]
    exact h.unowned hf hmem hn.owned
  · obtain ⟨hpba, hpriv⟩ := h.in_place l hlo hl hmem
    rw [hpba]
    exact hpriv i w k hi htr hn

/-- Nor one of the current tree off the path. -/
theorem ne_new_of_off_path
    (h : CurrentPath t t' K v lo new req lvls newPbas entries entries')
    (hf : Forest t K entries) {w k l : ℕ} (ho : t.Owned t.cur w k)
    (hoff : ¬ (lo ≤ k ∧ sameNode t.degree k w v)) (hlo : lo ≤ l)
    (hl : l ≤ (t.snaps t.cur).maxLevel) : (t.node t.cur w k).pba ≠ (new l).pba := by
  by_cases hmem : l ∈ lvls
  · rw [h.handed l hmem]
    exact h.unowned hf hmem ho
  · rw [(h.in_place l hlo hl hmem).1]
    intro heq
    obtain ⟨rfl, hwv, -⟩ := hf.injOn _ w k _ v l ho (h.owned_path hlo hl) heq
    exact hoff ⟨hlo, hwv⟩

/-- Every other tree is left alone. -/
theorem leftAlone (h : CurrentPath t t' K v lo new req lvls newPbas entries entries')
    (hf : Forest t K entries) {i : SnapshotsIndex} (hi : i ≠ t'.cur) (htr : t'.Tracked i) :
    Trees.LeftAlone t t' i i where
  degree := h.degree
  maxLevel := by rw [(h.snaps i hi htr).2]
  root := by rw [(h.snaps i hi htr).2]
  inner _ _ h0 hp := h.frame _ fun _ hlo hl =>
    h.ne_new_of_needed hf hi htr ⟨(h.snaps i hi htr).1, hp, Or.inl h0⟩ hlo hl

/-- The current tree has a new path. -/
theorem path (h : CurrentPath t t' K v lo new req lvls newPbas entries entries')
    (hf : Forest t K entries) : Trees.PathReplaced t t' t.cur t'.cur v lo new where
  admitted := h.admitted
  degree := h.degree
  maxLevel := h.maxLevel
  root := h.root
  path := h.present
  new_ne_zero l hlo hl := by
    by_cases hmem : l ∈ lvls
    · obtain ⟨e, -, -, -, hu, hpba, -⟩ := h.handout.taken l hmem
      rw [h.handed l hmem, ← hpba]
      exact hu.1
    · rw [(h.in_place l hlo hl hmem).1]
      exact (h.owned_path hlo hl).2.1.pba_ne_zero
  inner := h.inner
  copy := h.copy
  other _ _ _ hp hoff := h.frame _ fun _ hlo hl =>
    h.ne_new_of_off_path hf (hp.owned_cur h.valid) hoff hlo hl

/-- The current tree owns the same places before and after. -/
theorem owned_iff (h : CurrentPath t t' K v lo new req lvls newPbas entries entries')
    (hf : Forest t K entries) {w l : ℕ} : t'.Owned t'.cur w l ↔ t.Owned t.cur w l :=
  ⟨fun ho => ((h.path hf).present_of_present' ho.2.1).owned_cur h.valid,
    fun ho => ((h.path hf).present_of_present ho.2.1).owned_cur h.valid'⟩

/-- What comes back to the stock for a level is the old block. -/
theorem returned_eq (h : CurrentPath t t' K v lo new req lvls newPbas entries entries')
    {l : ℕ} (hl : l ∈ lvls) : returnedPba req newPbas l = (t.node t.cur v l).pba := by
  unfold returnedPba
  rw [if_neg h.tag, h.given_up l hl]

/-- The entry that comes back for a level has the address of the old block. -/
theorem exchanged_pba (h : CurrentPath t t' K v lo new req lvls newPbas entries entries')
    {l : ℕ} (hl : l ∈ lvls) {e e' : Type2Node} (hpba : e.pba = newPbas l)
    (he : exchangeType2Leaf req l e = some e') : e'.pba = (t.node t.cur v l).pba := by
  rw [exchangeType2Leaf_pba he hpba.symm, h.returned_eq hl]

/-- Where the new tree has a block that was handed out. -/
theorem on_path_of_handed
    (h : CurrentPath t t' K v lo new req lvls newPbas entries entries')
    (hf : Forest t K entries) {w k l : ℕ} (ho : t'.Owned t'.cur w k) (hl : l ∈ lvls)
    (heq : (t'.node t'.cur w k).pba = newPbas l) : k = l ∧ sameNode t.degree k w v := by
  have hold := (h.owned_iff hf).mp ho
  rw [(h.path hf).node_eq hold.2.1] at heq
  split_ifs at heq with hon
  · refine ⟨?_, hon.2⟩
    by_cases hk : k ∈ lvls
    · rw [h.handed k hk] at heq
      exact h.handout.injOn k hk l hl heq
    · rw [(h.in_place k hon.1 hold.2.1.1 hk).1] at heq
      exact absurd heq (h.unowned hf hl (h.owned_path hon.1 hold.2.1.1))
  · exact absurd heq (h.unowned hf hl hold)

/-- The addresses of the stock stay distinct. -/
theorem stock_nodup (h : CurrentPath t t' K v lo new req lvls newPbas entries entries')
    (hf : Forest t K entries) : (stockPbas entries').Nodup := by
  refine h.handout.nodup ?_ (fun l hl => ?_) fun l hl e he hzero _ => ?_
  · refine (List.nodup_map_iff_inj_on h.nodup).mpr fun l hl k hk heq => ?_
    rw [h.returned_eq hl, h.returned_eq hk] at heq
    exact hf.level_injOn (h.owned_lvls hl) (h.owned_lvls hk) heq
  · rw [h.returned_eq hl]
    exact (h.owned_lvls hl).2.1.pba_ne_zero
  · rw [h.returned_eq hl]
    exact hf.current v l (h.owned_lvls hl) e he

/-- **A new path is a change of the current tree.** -/
theorem toCurrentUpdate (h : CurrentPath t t' K v lo new req lvls newPbas entries entries')
    (hf : Forest t K entries) :
    CurrentUpdate t t' K (fun p => ∃ l ∈ lvls, p = newPbas l) entries entries' where
  degree := h.degree
  other i hi htr := ⟨(h.snaps i hi htr).1, (h.snaps i hi htr).2, h.leftAlone hf hi htr⟩
  gen_le w l ho := by
    have hold := (h.owned_iff hf).mp ho
    rw [(h.path hf).node_eq hold.2.1]
    split_ifs with hon
    · exact h.gen_le l hon.1 hold.2.1.1
    · exact (hf.gen_le _ w l hold).trans h.newer
  fresh_unowned := by
    rintro p ⟨l, hl, rfl⟩ i w k ho
    exact h.unowned hf hl ho
  fresh_stock := by
    rintro p ⟨l, hl, rfl⟩ e' he' heq
    obtain ⟨e₀, he₀, -, -, hu, hpba, -⟩ := h.handout.taken l hl
    rcases h.handout.mem e' he' with ⟨-, hne⟩ | ⟨k, hk, e, he, -, hek, hex⟩
    · exact hne (by rw [heq, ← hpba]; exact hu.1) l hl heq
    · rw [h.exchanged_pba hk hek hex] at heq
      exact h.unowned hf hl (h.owned_lvls hk) heq
  fresh_injOn := by
    rintro w k x m hw hx ⟨l, hl, heq⟩ hsame
    obtain ⟨rfl, hwv⟩ := h.on_path_of_handed hf hw hl heq
    obtain ⟨rfl, hxv⟩ := h.on_path_of_handed hf hx hl (hsame.symm.trans heq)
    exact ⟨rfl, hwv.trans hxv.symm⟩
  origin w l ho := by
    have hold := (h.owned_iff hf).mp ho
    have hnode := (h.path hf).node_eq hold.2.1
    by_cases hon : lo ≤ l ∧ sameNode t.degree l w v
    · rw [if_pos hon] at hnode
      by_cases hl : l ∈ lvls
      · exact Or.inl ⟨l, hl, by rw [hnode]; exact h.handed l hl⟩
      · obtain ⟨hpba, -⟩ := h.in_place l hon.1 hold.2.1.1 hl
        refine Or.inr ⟨hold, ?_, Or.inr fun i x k hi hox => ?_⟩
        · rw [hnode, hpba, Trees.node_congr hold.2.1.1 hon.2]
        · have hleft := h.leftAlone hf hi hox.1
          have hp := hleft.present_iff.mp hox.2.1
          have hneed := (hox.needed hi).2.2
          rw [hleft.node_eq hp] at hneed ⊢
          rw [hnode]
          exact h.ne_new_of_needed hf hi hox.1 ⟨(h.snaps i hi hox.1).1, hp, hneed⟩ hon.1
            hold.2.1.1
    · rw [if_neg hon] at hnode
      exact Or.inr ⟨hold, by rw [hnode], Or.inl (by rw [hnode])⟩
  stock := h.stock_nodup hf
  stock_origin e' he' hzero := by
    rcases h.handout.mem e' he' with ⟨hold, -⟩ | ⟨l, hl, e, he, -, hpba, hex⟩
    · exact Or.inl hold
    · refine Or.inr fun w k ho heq => ?_
      rw [h.exchanged_pba hl hpba hex] at heq
      have hown := (h.owned_iff hf).mp ho
      rw [(h.path hf).node_eq hown.2.1] at heq
      split_ifs at heq with hon
      · by_cases hk : k ∈ lvls
        · rw [h.handed k hk] at heq
          exact h.unowned hf hk (h.owned_lvls hl) heq.symm
        · rw [(h.in_place k hon.1 hown.2.1.1 hk).1] at heq
          have hkl := hf.level_injOn (h.owned_path hon.1 hown.2.1.1) (h.owned_lvls hl) heq
          exact hk (by rw [hkl]; exact hl)
      · obtain ⟨rfl, hwv, -⟩ := hf.injOn _ w k _ v l hown (h.owned_lvls hl) heq
        exact hon ⟨(h.lvls_le k hl).1, hwv⟩
  stock_kept e he howner := by
    obtain ⟨i, w, k, ho, hpba⟩ := howner
    refine h.handout.kept e he fun _ l hl heq => ?_
    exact h.unowned hf hl ho (hpba.trans heq)
  released w l hw i hi ho heq := by
    have hleft := h.leftAlone hf hi ho.1
    have hp := hleft.present_iff.mp ho.2.1
    have hneed := (ho.needed hi).2.2
    rw [hleft.node_eq hp] at hneed heq
    have hn : t.Needed i w l := ⟨(h.snaps i hi ho.1).1, hp, hneed⟩
    by_cases hon : lo ≤ l ∧ sameNode t.degree l w v
    · by_cases hl : l ∈ lvls
      · obtain ⟨e, he, e', he', -, hpba, hex⟩ := h.handout.taken l hl
        have hepba := h.exchanged_pba hl hpba hex
        exact Or.inr ⟨e', he', h.released l hl e e' hex hepba i w hi ho.1 hn hon.2 heq⟩
      · refine absurd ?_ ((h.in_place l hon.1 hw.2.1.1 hl).2 i w l hi ho.1 hn)
        rw [heq, Trees.node_congr hw.2.1.1 hon.2]
    · refine Or.inl ⟨(h.owned_iff hf).mpr hw, ?_⟩
      rw [(h.path hf).node_eq hw.2.1, if_neg hon]

/-- **The trees and the stock fit together after a new path.** -/
theorem forest (h : CurrentPath t t' K v lo new req lvls newPbas entries entries')
    (hf : Forest t K entries) : Forest t' K entries' := (h.toCurrentUpdate hf).forest hf

/-- What another tree needs has its block as before. -/
theorem blockOf_other (h : CurrentPath t t' K v lo new req lvls newPbas entries entries')
    (hf : Forest t K entries) {i : SnapshotsIndex} {w k : ℕ} (hi : i ≠ t'.cur)
    (hn : t'.Needed i w k) :
    t.Needed i w k ∧ t'.node i w k = t.node i w k
      ∧ t'.blockOf (t'.node i w k) = t.blockOf (t.node i w k) := by
  have hleft := h.leftAlone hf hi hn.1
  have hp := hleft.present_iff.mp hn.2.1
  have hnode := hleft.node_eq hp
  have hneed : t.Needed i w k :=
    ⟨(h.snaps i hi hn.1).1, hp, by rw [← hnode]; exact hn.2.2⟩
  refine ⟨hneed, hnode, ?_⟩
  rw [hnode]
  exact h.frame _ fun l hlo hl => h.ne_new_of_needed hf hi hn.1 hneed hlo hl

/-- What the current tree has off the path has its block as before. -/
theorem blockOf_off_path
    (h : CurrentPath t t' K v lo new req lvls newPbas entries entries')
    (hf : Forest t K entries) {w k : ℕ} (hp : t.Present t.cur w k)
    (hoff : ¬ (lo ≤ k ∧ sameNode t.degree k w v)) :
    t'.node t'.cur w k = t.node t.cur w k
      ∧ t'.blockOf (t'.node t'.cur w k) = t.blockOf (t.node t.cur w k) := by
  have hnode := (h.path hf).node_eq hp
  rw [if_neg hoff] at hnode
  refine ⟨hnode, ?_⟩
  rw [hnode]
  exact h.frame _ fun l hlo hl =>
    h.ne_new_of_off_path hf (hp.owned_cur h.valid) hoff hlo hl

end CurrentPath

end Cbe
