import Cbe.VirtualBlockDevice
import Cbe.Forest

/-!
# What a write does to the trees

A write gives the current tree a new path: the translation finds the nodes on
the way to the address (`translateSnapshot_spec`), the allocation decides which
of them are written in place and gets blocks for the others (`executeScd_spec`),
and the write-back writes the new path from the leaf up (`writeBackUpTo_spec`).
All other blocks stay as they are, so the write is a `CurrentPath` and every
other tree is left alone (`WrittenPath.currentPath`).

The three steps are functions of the faithful model, and each has one lemma that
says what it computes. Nothing is said twice: the theorem about the write takes
the walk from the first, the new addresses from the second and the new blocks
from the third.

The decision of the allocation is the delicate one. A node of the current
generation is written in place, which is right only if no other snapshot has it.
That it is so follows from the order of the generations: a node of the current
generation was written after every other snapshot was made
(`ne_of_changedInPlace`). The blocks of the nodes that move stay in the stock,
with an entry that keeps them for the snapshots that still need them
(`guards_of_scd`).
-/

namespace Cbe

variable {P : Platform}

/-! ## Translation

The translation goes down from the root, reads each node, checks its hash
against the entry above, and takes the child with the index of the address. -/

/-- The translation below a level: the walk above it stays, and the nodes below
are the children on the way, each with its right hash. -/
theorem translate_spec {s : Store P} {degree vba lvl : ℕ} {walk walk' : Type1NodeWalk}
    (h : translate s degree vba lvl walk = some walk') :
    (∀ l, lvl ≤ l → walk' l = walk l)
      ∧ (∀ l, l < lvl → walk' l
          = s.type1NodeBlock (walk' (l + 1)).pba (childIdxForVba vba (l + 1) degree))
      ∧ ∀ l, 0 < l → l ≤ lvl → P.hash (s.blocks (walk' l).pba) = (walk' l).hash := by
  induction lvl generalizing walk with
  | zero =>
    unfold translate at h
    split_ifs at h
    obtain rfl := Option.some.inj h
    exact ⟨fun _ _ => rfl, by simp, fun l h0 hl => by omega⟩
  | succ lvl ih =>
    unfold translate at h
    split_ifs at h with hinv hhash
    obtain ⟨habove, hbelow, hhashes⟩ := ih h
    have htop : walk' (lvl + 1) = walk (lvl + 1) := by
      rw [habove (lvl + 1) (Nat.le_succ lvl), Function.update_of_ne (by omega)]
    refine ⟨fun l hl => ?_, fun l hl => ?_, fun l h0 hl => ?_⟩
    · rw [habove l (by omega), Function.update_of_ne (by omega)]
    · rcases Nat.lt_or_eq_of_le (Nat.le_of_lt_succ hl) with hlt | rfl
      · exact hbelow l hlt
      · rw [htop, habove l le_rfl, Function.update_self]
    · rcases Nat.lt_or_eq_of_le hl with hlt | rfl
      · exact hhashes l h0 (Nat.le_of_lt_succ hlt)
      · rw [htop]
        exact not_not.mp hhash

/-- **A translation finds the nodes of the tree** on the way to the address. -/
theorem translateSnapshot_spec {s : Store P} {degree vba : ℕ} (hd : DegreeAdmitted degree)
    {snap : Snapshot} {walk : Type1NodeWalk}
    (h : translateSnapshot s degree snap vba = some walk) {l : ℕ} (hl : l ≤ snap.maxLevel) :
    walk l = nodeAt s degree snap vba l := by
  obtain ⟨habove, hbelow, -⟩ := translate_spec h
  induction hl using Nat.decreasingInduction with
  | self => rw [habove _ le_rfl, Function.update_self, nodeAt_maxLevel]
  | of_succ l hlt ih => rw [hbelow l hlt, ih, nodeAt_of_lt hd s vba hlt]

/-- It raises at a wrong hash or at an invalid address only. -/
theorem translate_isSome {s : Store P} {degree vba : ℕ} (hd : DegreeAdmitted degree)
    {snap : Snapshot} {lvl : ℕ} {walk : Type1NodeWalk} (hlvl : lvl ≤ snap.maxLevel)
    (hwalk : walk lvl = nodeAt s degree snap vba lvl)
    (hhash : ∀ l, 0 < l → l ≤ lvl → P.hash (s.blocks (nodeAt s degree snap vba l).pba)
      = (nodeAt s degree snap vba l).hash)
    (hpba : ∀ l, l ≤ lvl → (nodeAt s degree snap vba l).pba ≠ pbaInvalid) :
    (translate s degree vba lvl walk).isSome = true := by
  induction lvl generalizing walk with
  | zero =>
    unfold translate
    rw [if_neg (by rw [hwalk]; exact hpba 0 le_rfl)]
    rfl
  | succ lvl ih =>
    unfold translate
    rw [hwalk, if_neg (hpba _ le_rfl), if_neg (not_not.mpr (hhash _ (Nat.succ_pos _) le_rfl))]
    refine ih (by omega) ?_ (fun l h0 hl => hhash l h0 (by omega))
      fun l hl => hpba l (by omega)
    rw [Function.update_self, nodeAt_of_lt hd s vba hlvl]

/-- A translation succeeds when the blocks on the way have their hashes and no
address is invalid. -/
theorem translateSnapshot_isSome {s : Store P} {degree vba : ℕ} (hd : DegreeAdmitted degree)
    {snap : Snapshot}
    (hhash : ∀ l, 0 < l → l ≤ snap.maxLevel →
      P.hash (s.blocks (nodeAt s degree snap vba l).pba) = (nodeAt s degree snap vba l).hash)
    (hpba : ∀ l, l ≤ snap.maxLevel → (nodeAt s degree snap vba l).pba ≠ pbaInvalid) :
    (translateSnapshot s degree snap vba).isSome = true :=
  translate_isSome hd le_rfl (by rw [Function.update_self, nodeAt_maxLevel]) hhash hpba

/-! ## Allocation

A node that may be changed in place keeps its block; for the others the free
tree is asked. -/

/-- The levels of a walk that need a new block. -/
def scdLevels (walk : Type1NodeWalk) (maxLevel currGen : ℕ) : List ℕ :=
  (List.range (maxLevel + 1)).filter fun lvl => ¬ changedInPlace walk maxLevel currGen lvl

/-- The levels of the walk without those that are changed in place. -/
theorem mem_scdLevels {walk : Type1NodeWalk} {maxLevel currGen lvl : ℕ} :
    lvl ∈ scdLevels walk maxLevel currGen
      ↔ lvl ≤ maxLevel ∧ ¬ changedInPlace walk maxLevel currGen lvl := by
  unfold scdLevels
  rw [List.mem_filter, List.mem_range, Nat.lt_succ_iff, decide_eq_true_eq]

/-- A request of no blocks hands nothing out. -/
theorem Handout.nil (req : AllocRequest) (newPbas : NewPbas) {entries : List Type2Node}
    (h : (stockPbas entries).Nodup) : Handout req [] newPbas entries entries where
  taken := by simp
  injOn := by simp
  mem e he := Or.inl ⟨he, by simp⟩
  kept e he _ := he
  nodup _ _ _ := h

/-- **The allocation of a write** hands out blocks for the nodes that are not
changed in place, which keep theirs. -/
theorem executeScd_spec {sb : Superblock} {currGen vba : ℕ} {walk : Type1NodeWalk}
    {free : FtNode} {metaPbas : List ℕ} {res : Allocation P}
    (h : executeScd P sb currGen walk vba free metaPbas = some res)
    (hmeta : ∀ pba ∈ metaPbas, pba ≠ 0) (hstock : (stockPbas free.entries).Nodup)
    (hwalk : ∀ l, l ≤ sb.curr.maxLevel → (walk l).pba ≠ 0) :
    Handout (scdRequest sb currGen walk vba) (scdLevels walk sb.curr.maxLevel currGen)
        res.newPbas free.entries res.tree.entries
      ∧ ∀ l, l ≤ sb.curr.maxLevel → l ∉ scdLevels walk sb.curr.maxLevel currGen →
        res.newPbas l = (walk l).pba := by
  have hpend : pendingLevels (scdRequest sb currGen walk vba)
      (scdNewPbas walk sb.curr.maxLevel currGen) = scdLevels walk sb.curr.maxLevel currGen := by
    refine List.filter_congr fun l hl => ?_
    have hle : l ≤ sb.curr.maxLevel := Nat.lt_succ_iff.mp (List.mem_range.mp hl)
    rw [decide_eq_decide]
    unfold scdNewPbas
    by_cases hin : changedInPlace walk sb.curr.maxLevel currGen l
    · rw [if_pos ⟨hle, hin⟩]
      exact ⟨fun h0 => absurd h0 (hwalk l hle), fun hn => absurd hin hn⟩
    · rw [if_neg fun hc => hin hc.2]
      exact ⟨fun _ => hin, fun _ => rfl⟩
  have hold : ∀ l, l ≤ sb.curr.maxLevel → l ∉ scdLevels walk sb.curr.maxLevel currGen →
      scdNewPbas walk sb.curr.maxLevel currGen l = (walk l).pba := by
    intro l hl hnot
    rw [mem_scdLevels, not_and, not_not] at hnot
    exact if_pos ⟨hl, hnot hl⟩
  unfold executeScd at h
  split_ifs at h with hroot hblocks
  · obtain ⟨hhand, hother⟩ := allocate_handout h hmeta (by rw [hpend]; rfl) hstock
    rw [hpend] at hhand hother
    exact ⟨hhand, fun l hl hnot => (hother l hnot).trans (hold l hl hnot)⟩
  · obtain rfl := Option.some.inj h
    have hnil : scdLevels walk sb.curr.maxLevel currGen = [] :=
      List.length_eq_zero_iff.mp (Nat.eq_zero_of_not_pos hblocks)
    rw [hnil] at hold ⊢
    exact ⟨Handout.nil _ _ hstock, hold⟩

/-! ## Write-back

From the leaf up, each node is read at its old address, gets the entry of the
block below it, and is written to the address it was given. By induction on the
level. -/

/-- **What the write-back writes**: the encrypted data and above it, level by
level, the old node with the child on the branch replaced by the block written
below. The new blocks differ from each other and from the blocks that are still
to be read. -/
theorem writeBackUpTo_spec {s s' : Store P} {degree vba gen keyId maxLevel lvl : ℕ}
    {data : P.Block} {walk : Type1NodeWalk} {newPbas : NewPbas} {hash : Hash}
    (h : writeBackUpTo s degree vba gen keyId data walk newPbas maxLevel lvl = some (s', hash))
    (hnew : ∀ l k, l < k → k ≤ lvl → newPbas l ≠ newPbas k)
    (hread : ∀ l k, l < k → k ≤ lvl → newPbas l ≠ (walk k).pba) :
    s'.written = s.written ++ (List.range (lvl + 1)).map newPbas
      ∧ (∀ p, (∀ l, l ≤ lvl → p ≠ newPbas l) → s'.blocks p = s.blocks p)
      ∧ s'.blocks (newPbas 0) = P.encrypt keyId data
      ∧ (∀ l, l < lvl → s'.blocks (newPbas (l + 1)) = P.blockDataFromType1NodeBlock
          (Function.update (s.type1NodeBlock (walk (l + 1)).pba)
            (childIdxForVba vba (l + 1) degree)
            { pba := newPbas l, gen := gen, hash := P.hash (s'.blocks (newPbas l)) }))
      ∧ hash = P.hash (s'.blocks (newPbas lvl)) := by
  induction lvl generalizing s' hash with
  | zero =>
    obtain ⟨rfl, rfl⟩ := Prod.mk.inj (Option.some.inj h)
    refine ⟨rfl, fun p hp => ?_, ?_, by simp, ?_⟩
    · exact Store.write_blocks_of_ne s _ (hp 0 le_rfl)
    · exact Store.write_blocks_self s _ _
    · rw [Store.write_blocks_self]
  | succ lvl ih =>
    unfold writeBackUpTo at h
    obtain ⟨⟨s₁, hash₁⟩, hrun, h⟩ := Option.bind_eq_some_iff.mp h
    dsimp only at h
    split_ifs at h
    obtain ⟨rfl, rfl⟩ := Prod.mk.inj (Option.some.inj h)
    obtain ⟨hwritten, hframe, hleaf, hinner, hhash⟩ := ih hrun
      (fun l k hlk hk => hnew l k hlk (by omega)) fun l k hlk hk => hread l k hlk (by omega)
    -- the block read now was not written before
    have hblk : s₁.type1NodeBlock (walk (lvl + 1)).pba
        = s.type1NodeBlock (walk (lvl + 1)).pba := by
      unfold Store.type1NodeBlock
      rw [hframe _ fun l hl => (hread l (lvl + 1) (by omega) le_rfl).symm]
    have hkeep : ∀ l blk, l ≤ lvl → (s₁.write (newPbas (lvl + 1)) blk).blocks (newPbas l)
        = s₁.blocks (newPbas l) :=
      fun l blk hl => Store.write_blocks_of_ne s₁ blk (hnew l (lvl + 1) (by omega) le_rfl)
    refine ⟨?_, fun p hp => ?_, ?_, fun l hl => ?_, ?_⟩
    · rw [Store.write_written, hwritten, List.append_assoc, List.range_succ (n := lvl + 1),
        List.map_append]
      rfl
    · rw [Store.write_blocks_of_ne s₁ _ (hp (lvl + 1) le_rfl)]
      exact hframe p fun l hl => hp l (by omega)
    · rw [hkeep 0 _ (Nat.zero_le lvl)]
      exact hleaf
    · rcases Nat.lt_or_eq_of_le (Nat.le_of_lt_succ hl) with hlt | rfl
      · rw [hkeep (l + 1) _ hlt, hkeep l _ hlt.le]
        exact hinner l hlt
      · rw [hkeep l _ le_rfl, Store.write_blocks_self, hblk, hhash]
    · rw [Store.write_blocks_self]

/-! ## The new path

What the three steps come to for the trees of the superblock, under the
invariants of the device. -/

section

variable {s : Store P} {sb : Superblock} {currGen vba : ℕ} {free : FtNode}
  {metaPbas : List ℕ} {data : P.Block} {res : WriteResult P} {walk : Type1NodeWalk}

/-- The snapshots in other slots than the one written are older. -/
theorem gen_lt_of_ne_writtenSlot (hord : (sb.trees s).Ordered currGen) {slot i : SnapshotsIndex}
    (hslot : writtenSlot sb currGen = some slot) (hi : i ≠ slot)
    (hv : (sb.snapshots i).valid = true) : (sb.snapshots i).gen < currGen := by
  have hle := hord.gen_le
  unfold writtenSlot at hslot
  split_ifs at hslot with hlt
  · exact (hord.gen_le_cur hv).trans_lt hlt
  · obtain rfl := Option.some.inj hslot
    exact (hord.gen_lt i hi hv).trans_le hle

/-- What a level gives up is guarded for the other snapshots. -/
theorem guards_of_scd (hf : Forest (sb.trees s) sb.keyState free.entries)
    (hkeys : sb.state = .rekeying → sb.currentKey.id ≠ sb.previousKey.id)
    (hkeyle : sb.previousKey.id ≤ sb.currentKey.id)
    (hfront : sb.state = .rekeying → sb.rekeyingVba = 0 ∨ vba < sb.rekeyingVba)
    {l : ℕ} (hwalk : walk l = (sb.trees s).node sb.currSnap vba l)
    (ho : (sb.trees s).Owned sb.currSnap vba l) {e e' : Type2Node}
    (he : exchangeType2Leaf (scdRequest sb currGen walk vba) l e = some e')
    {i : SnapshotsIndex} {w : ℕ} (hgen : (sb.snapshots i).gen < currGen)
    (hn : (sb.trees s).Needed i w l) (hwv : sameNode sb.degree l w vba)
    (heq : ((sb.trees s).node i w l).pba = ((sb.trees s).node sb.currSnap w l).pba) :
    Guards (sb.trees s) sb.keyState i w l e' := by
  have hcongr : (sb.trees s).node sb.currSnap w l = walk l := by
    rw [hwalk]
    exact Trees.node_congr ho.2.1.1 hwv
  obtain ⟨-, -, hg⟩ := hf.injOn i w l sb.currSnap w l hn.owned (ho.congr hwv.symm) heq
  obtain rfl := Option.some.inj he
  refine ⟨?_, rfl, ?_, hgen, ?_, ?_, fun hrkg hkey => ?_⟩
  · rw [heq, hcongr]
    rfl
  · rw [hg, hcongr]
    rfl
  · exact (sameNode_vbdNodeLowestVba _ _ _).trans hwv.symm
  · show (if _ then _ else _) ≤ sb.currentKey.id
    split_ifs
    · exact le_rfl
    · exact hkeyle
    · exact le_rfl
  · have hst : sb.state = .rekeying := of_decide_eq_true hrkg
    rcases hfront hst with h0 | hlt
    · show sb.rekeyingVba ≤ _
      rw [h0]
      exact Nat.zero_le _
    · -- the address was rekeyed already, so the block has the current key
      have hcur : (if (scdRequest sb currGen walk vba).rekeying = true then
          if vba < sb.rekeyingVba then sb.currentKey.id else sb.previousKey.id
          else sb.currentKey.id) = sb.previousKey.id := hkey
      rw [if_pos hlt, ite_self] at hcur
      exact absurd hcur (hkeys hst)

/-- A node that is changed in place is in no other tree that counts. -/
theorem ne_of_changedInPlace (hord : (sb.trees s).Ordered currGen)
    (hf : Forest (sb.trees s) sb.keyState free.entries) {l : ℕ}
    (hwalk : walk l = (sb.trees s).node sb.currSnap vba l)
    (hroot : l = sb.curr.maxLevel → (walk l).gen = sb.curr.gen)
    (ho : (sb.trees s).Owned sb.currSnap vba l)
    (hin : changedInPlace walk sb.curr.maxLevel currGen l) {i : SnapshotsIndex} {w k : ℕ}
    (hgen : (sb.snapshots i).gen < currGen) (hzero : (sb.snapshots i).gen ≠ 0)
    (hn : (sb.trees s).Needed i w k) :
    ((sb.trees s).node i w k).pba ≠ ((sb.trees s).node sb.currSnap vba l).pba := by
  intro heq
  obtain ⟨rfl, -, hg⟩ := hf.injOn i w k sb.currSnap vba l hn.owned ho heq
  rw [← hwalk] at hg
  have hle := hf.gen_le i w k hn.owned
  have hle' : ((sb.trees s).node i w k).gen ≤ (sb.snapshots i).gen := hle
  unfold changedInPlace at hin
  split_ifs at hin with hmax
  · rcases hin with h0 | hc
    · -- the current snapshot has generation 0, so no other one is valid
      have hcur : sb.curr.gen = 0 := (hroot hmax).symm.trans h0
      have hltcur := hord.gen_le_cur hn.1.1
      have hltcur' : (sb.snapshots i).gen ≤ sb.curr.gen := hltcur
      omega
    · omega
  · rcases hin with hc | ⟨h0, hg0⟩
    · omega
    · -- an unwritten leaf is needed by none
      rcases hn.2.2 with hk | hk
      · omega
      · exact hk (hg.trans hg0)

/-- The nodes of a new path that a write has written. -/
def writtenNode (s : Store P) (currGen : ℕ) (newPbas : NewPbas) (l : ℕ) : Type1Node :=
  { pba := newPbas l, gen := currGen, hash := P.hash (s.blocks (newPbas l)) }

/-- **A write gives the current tree a new path** of nodes of the current
generation, with the encrypted data at its end. The blocks it draws are owned by
no tree, and what it gives up is kept as long as a snapshot needs it. -/
theorem writeVba_path (hd : DegreeAdmitted sb.degree) (hord : (sb.trees s).Ordered currGen)
    (hlast : currGen < generationLast)
    (hf : Forest (sb.trees s) sb.keyState free.entries)
    (hkeys : sb.state = .rekeying → sb.currentKey.id ≠ sb.previousKey.id)
    (hkeyle : sb.previousKey.id ≤ sb.currentKey.id)
    (hfront : sb.state = .rekeying → sb.rekeyingVba = 0 ∨ vba < sb.rekeyingVba)
    (hp : (sb.trees s).Present sb.currSnap vba 0) (hmeta : ∀ pba ∈ metaPbas, pba ≠ 0)
    (h : writeVba s sb currGen free metaPbas vba data = some res) :
    ∃ walk newPbas, CurrentPath (sb.trees s) (res.sb.trees res.store) sb.keyState vba 0
        (writtenNode res.store currGen newPbas) (scdRequest sb currGen walk vba)
        (scdLevels walk sb.curr.maxLevel currGen) newPbas free.entries res.free.entries
      ∧ res.store.blocks (newPbas 0) = P.encrypt sb.currentKey.id data
      ∧ res.store.written
        = s.written ++ (List.range (sb.curr.maxLevel + 1)).map newPbas := by
  obtain ⟨walk, alloc, s', hash, slot, -, hwalk, halloc, hwrite, hslot, rfl⟩ := writeVba_spec h
  have hnode : ∀ l, l ≤ sb.curr.maxLevel → walk l = (sb.trees s).node sb.currSnap vba l :=
    fun l hl => translateSnapshot_spec hd hwalk hl
  have hown : ∀ l, l ≤ sb.curr.maxLevel → (sb.trees s).Owned sb.currSnap vba l :=
    fun l hl => (hp.mono (Nat.zero_le l) hl).owned_cur hord.valid
  have hne0 : ∀ l, l ≤ sb.curr.maxLevel → (walk l).pba ≠ 0 := fun l hl => by
    rw [hnode l hl]
    exact (hown l hl).2.1.pba_ne_zero
  obtain ⟨hhand, hkept⟩ := executeScd_spec halloc hmeta hf.stock hne0
  have hfits : (scdRequest sb currGen walk vba).Fits (sb.trees s) sb.keyState := by
    refine ⟨fun i hi => ⟨hi.1, rfl, lt_of_le_of_lt ?_ hlast⟩, fun hrkg => ⟨hrkg, rfl, rfl⟩⟩
    exact (hord.gen_le_cur hi.1).trans hord.gen_le
  -- a block handed out is owned by no tree
  have hfresh : ∀ l, l ∈ scdLevels walk sb.curr.maxLevel currGen → ∀ i w k,
      (sb.trees s).Owned i w k → ((sb.trees s).node i w k).pba ≠ alloc.newPbas l := by
    intro l hl i w k ho
    obtain ⟨e, he, -, -, hu, hpba, -⟩ := hhand.taken l hl
    rw [← hpba]
    exact hf.pba_ne_of_usable hfits he hu ho
  have hlevel : ∀ l k, l ≤ sb.curr.maxLevel → k ≤ sb.curr.maxLevel →
      (walk l).pba = (walk k).pba → l = k := by
    intro l k hl hk heq
    rw [hnode l hl, hnode k hk] at heq
    exact hf.level_injOn (hown l hl) (hown k hk) heq
  have hread : ∀ l k, l ≠ k → l ≤ sb.curr.maxLevel → k ≤ sb.curr.maxLevel →
      alloc.newPbas l ≠ (walk k).pba := by
    intro l k hlk hl hk heq
    by_cases hmem : l ∈ scdLevels walk sb.curr.maxLevel currGen
    · refine hfresh l hmem _ _ _ (hown k hk) ?_
      rw [← hnode k hk, heq]
    · rw [hkept l hl hmem] at heq
      exact hlk (hlevel l k hl hk heq)
  have hnew : ∀ l k, l < k → k ≤ sb.curr.maxLevel → alloc.newPbas l ≠ alloc.newPbas k := by
    intro l k hlk hk heq
    by_cases hmem : k ∈ scdLevels walk sb.curr.maxLevel currGen
    · by_cases hmem' : l ∈ scdLevels walk sb.curr.maxLevel currGen
      · exact hlk.ne (hhand.injOn l hmem' k hmem heq)
      · refine hread k l hlk.ne' hk (by omega) ?_
        rw [← heq, hkept l (by omega) hmem']
    · refine hread l k hlk.ne (by omega) hk ?_
      rw [heq, hkept k hk hmem]
  obtain ⟨hwritten, hframe, hleaf, hinner, hhash⟩ := writeBackUpTo_spec hwrite hnew
    fun l k hlk hk => hread l k hlk.ne (by omega) hk
  generalize hsnap : writtenSnapshot sb currGen (alloc.newPbas sb.curr.maxLevel) hash = snap
  have hself := Superblock.putCurr_snapshots_self (sb.setFreeRoot alloc.root) slot snap
  have hother : ∀ i, i ≠ slot →
      ((sb.setFreeRoot alloc.root).putCurr slot snap).snapshots i = sb.snapshots i :=
    fun i hi => Superblock.putCurr_snapshots_of_ne _ _ hi
  -- another snapshot that counts afterwards is older and not of generation 0
  have htracked : ∀ i, i ≠ slot →
      (((sb.setFreeRoot alloc.root).putCurr slot snap).trees s').Tracked i →
      (sb.snapshots i).valid = true ∧ (sb.snapshots i).gen ≠ 0
        ∧ (sb.snapshots i).gen < currGen := by
    rintro i hi ⟨hv, hz⟩
    have hv' : (sb.snapshots i).valid = true := by
      rw [← hother i hi]
      exact hv
    refine ⟨hv', ?_, gen_lt_of_ne_writtenSlot hord hslot hi hv'⟩
    rw [← hother i hi]
    exact hz.resolve_left hi
  refine ⟨walk, alloc.newPbas, ?_, hleaf, hwritten⟩
  exact {
    admitted := hd
    degree := rfl
    valid := hord.valid
    valid' := by
      show (((sb.setFreeRoot alloc.root).putCurr slot snap).snapshots slot).valid = true
      rw [hself, ← hsnap]
      exact hord.valid
    snaps := fun i hi htr => by
      obtain ⟨hv, hz, -⟩ := htracked i hi htr
      exact ⟨⟨hv, Or.inr hz⟩, hother i hi⟩
    maxLevel := by
      show (((sb.setFreeRoot alloc.root).putCurr slot snap).snapshots slot).maxLevel = _
      rw [hself, ← hsnap]
      rfl
    root := by
      show _ = (((sb.setFreeRoot alloc.root).putCurr slot snap).snapshots slot).root
      rw [hself, ← hsnap, hhash]
      rfl
    present := hp
    inner := fun l _ hl => by
      show s'.type1NodeBlock (alloc.newPbas (l + 1)) = _
      unfold Store.type1NodeBlock
      rw [hinner l hl, P.type1_roundtrip, hnode (l + 1) hl]
      rfl
    copy := fun h0 => absurd h0 (lt_irrefl 0)
    frame := fun p hpne => hframe p fun l hl => hpne l (Nat.zero_le l) hl
    handout := hhand
    fits := hfits
    tag := by simp [scdRequest]
    nodup := List.nodup_range.filter _
    lvls_le := fun l hl => ⟨Nat.zero_le l, (mem_scdLevels.mp hl).1⟩
    handed := fun _ _ => rfl
    given_up := fun l hl => congrArg Type1Node.pba (hnode l (mem_scdLevels.mp hl).1)
    in_place := fun l _ hl hmem => by
      refine ⟨?_, fun i w k hi htr hn => ?_⟩
      · exact (hkept l hl hmem).trans (congrArg Type1Node.pba (hnode l hl))
      · obtain ⟨-, hz, hlt⟩ := htracked i hi htr
        rw [mem_scdLevels, not_and, not_not] at hmem
        refine ne_of_changedInPlace hord hf (hnode l hl) (fun hmax => ?_) (hown l hl)
          (hmem hl) hlt hz hn
        rw [hnode l hl, hmax]
        exact congrArg Type1Node.gen (Trees.node_maxLevel (sb.trees s) sb.currSnap vba)
    gen_le := fun l _ _ => by
      show currGen ≤ (((sb.setFreeRoot alloc.root).putCurr slot snap).snapshots slot).gen
      rw [hself, ← hsnap]
      exact le_rfl
    newer := by
      show sb.curr.gen ≤ (((sb.setFreeRoot alloc.root).putCurr slot snap).snapshots slot).gen
      rw [hself, ← hsnap]
      exact hord.gen_le
    released := fun l hl e e' he _ i w hi htr hn hwv heq => by
      have hle := (mem_scdLevels.mp hl).1
      exact guards_of_scd hf hkeys hkeyle hfront (hnode l hle) (hown l hle) he
        (htracked i hi htr).2.2 hn hwv heq }

end

end Cbe
