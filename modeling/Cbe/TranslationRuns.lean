import Cbe.Translation
import Cbe.Support.Runs

/-!
# Reads are checked on their way

What a translation has looked up is checked, over every run of the read path and
whatever the cache and the block I/O deliver: each entry of the walk comes out
of a delivered block whose hash is the one in the entry above it, at the digit
of the virtual block address (`ReadPath.CheckedWalk`); a leaf that was never
written reads as zeros; and a block goes to the decryption only with the hash,
the key and the primitive of the leaf it was asked for (`ReadPath.Sound`).

This needs the digits to the base that the index function takes to be those of
the address, which they are not for each degree, and a root at a valid address:
for any other one the translation takes what `Trans_Data` holds for the block
above the root (`VbdRequest.Proper`).

Three modules take part. The translation holds the walk and asks for the block
of the node at hand; the virtual block device around it talks to the cache and
keeps the delivered block in `Trans_Data`; and the block I/O holds the block of
the leaf, with what is needed to check it when it arrives. The invariant has a
part for each of them (`Busy`, `IoSound`), and one for what was asked of the
block I/O and what was handed to the decryption, in the order in which both
happened.

Nothing is assumed of the cache and the block I/O. They may deliver any block,
and they may fail; a block with a wrong hash makes the library raise, and only a
step that does not raise is a step of the run.
-/

namespace Cbe

open Runs

variable {P : Platform}

/-! ## What a read has to be

The statement, before the proof: a walk is checked level by level, and what goes
to the decryption fits a leaf at the end of a checked walk. -/

namespace VbdRequest

variable (req : VbdRequest)

/-- The digit of the virtual block address at a level, to the base of the degree. -/
def digit (lvl : ℕ) : ℕ := req.vba / req.degree ^ lvl % req.degree

/-- A request in the ranges of the types. -/
structure InRange : Prop where
  /-- The degree is one of the type. -/
  degree : DegreeAdmitted req.degree
  /-- So is the level of the root. -/
  maxLevel : req.maxLevel ≤ treeMaxMaxLevel
  /-- So is the virtual block address. -/
  vba : req.vba ≤ treeMaxNumberOfLeafs

instance : Decidable req.InRange :=
  decidable_of_iff (DegreeAdmitted req.degree ∧ req.maxLevel ≤ treeMaxMaxLevel
    ∧ req.vba ≤ treeMaxNumberOfLeafs)
    ⟨fun h => ⟨h.1, h.2.1, h.2.2⟩, fun h => ⟨h.degree, h.maxLevel, h.vba⟩⟩

/-- **A request that is looked up by its digits**: the degree counts as the power of
two that it is rounded down to, so the digits to that base have to be those to the
base of the degree, and the root has to be at a valid address. -/
structure Proper : Prop extends req.InRange where
  /-- The index function takes the digits of the address. -/
  digits : ∀ lvl < req.maxLevel,
    req.vba / treeRadix req.degree ^ lvl % treeRadix req.degree = req.digit lvl
  /-- The root is at a valid address. -/
  root : req.root.pba ≠ pbaInvalid

instance : Decidable req.Proper :=
  decidable_of_iff (req.InRange
    ∧ (∀ lvl < req.maxLevel,
      req.vba / treeRadix req.degree ^ lvl % treeRadix req.degree = req.digit lvl)
    ∧ req.root.pba ≠ pbaInvalid)
    ⟨fun h => ⟨h.1, h.2.1, h.2.2⟩, fun h => ⟨h.toInRange, h.digits, h.root⟩⟩

/-- The child indices are the digits. -/
theorem Proper.treeIndex_eq {req : VbdRequest} (h : req.Proper) {lvl : ℕ}
    (hlvl : lvl < req.maxLevel) :
    treeIndex req.degree req.maxLevel req.leafs req.vba (lvl + 1) = some (req.digit lvl) := by
  rw [Cbe.treeIndex_eq h.degree _ _ h.vba (lt_of_lt_of_le hlvl h.maxLevel), h.digits lvl hlvl]

/-- Every address is looked up by its digits if the degree is a power of two. -/
theorem Proper.of_radix {req : VbdRequest} (h : req.InRange)
    (hradix : treeRadix req.degree = req.degree) (hroot : req.root.pba ≠ pbaInvalid) :
    req.Proper where
  toInRange := h
  digits lvl _ := by
    rw [hradix]
    rfl
  root := hroot

end VbdRequest

namespace ReadPath

/-- The entry of a child in a node block. -/
def childEntry (blk : P.Block) (i : ℕ) : Type1Node :=
  P.type1NodeBlockFromBlockData blk (Fin.ofNat nodesPerBlock i)

/-- **An entry of a walk is checked**: it is the one of the digit in a delivered block
that hashes to the value in the entry above it. -/
def Checked (delivered : List P.Block) (req : VbdRequest) (walk : Type1NodeWalk) (lvl : ℕ) :
    Prop :=
  ∃ blk ∈ delivered, P.hash blk = (walk (lvl + 1)).hash ∧ walk lvl = childEntry blk (req.digit lvl)

/-- **A walk is checked** from the root down to the leaf. -/
structure CheckedWalk (delivered : List P.Block) (req : VbdRequest) (walk : Type1NodeWalk) :
    Prop where
  /-- It begins with the root. -/
  root : walk req.maxLevel = req.root
  /-- Each entry comes out of a block that was checked. -/
  checked : ∀ lvl < req.maxLevel, Checked delivered req walk lvl

/-- **A leaf was come to by a checked walk**, for the request that it is read for. -/
structure CheckedLeaf (delivered : List P.Block) (a : LeafRead) : Prop where
  /-- The leaf is the end of a checked walk. -/
  walk : ∃ walk, CheckedWalk delivered a.req walk ∧ a.leaf = walk 0
  /-- Its primitive is for its block. -/
  prim : a.prim = { a.req.prim with success := false, blockNumber := a.leaf.pba }
  /-- Its key is that of the address. -/
  keyId : a.keyId = a.req.keyId

/-- What is handed to the decryption fits the leaf that was asked for. -/
structure Fits (a : LeafRead) (c : Ciphertext P) : Prop where
  /-- The primitive is the one of the leaf. -/
  prim : c.prim = { a.prim with success := true }
  /-- So is the key. -/
  keyId : c.keyId = a.keyId
  /-- The data has the hash that is recorded for it. -/
  hash : P.hash c.data = a.leaf.hash

/-- **The reads are checked.** What was handed to the decryption belongs, one by one, to
what was asked for. -/
structure Sound (w : ReadPath P) : Prop where
  /-- What was looked up so far is checked. -/
  walk : ∀ req ∈ w.req, ∀ lvl < req.maxLevel,
    w.vbd.trans.walk lvl = type1NodeInvalid ∨ Checked w.delivered req w.vbd.trans.walk lvl
  /-- A completed translation has a checked walk. -/
  completed : ∀ prim, w.vbd.trans.peekCompletedPrimitive = some prim → prim.valid = true →
    ∃ req, w.req = some req ∧ CheckedWalk w.delivered req w.vbd.trans.walk
      ∧ prim = { req.prim with success := false, blockNumber := (w.vbd.trans.walk 0).pba }
  /-- What is read as zeros was never written. -/
  zeroed : ∀ z ∈ w.zeroed, CheckedLeaf w.delivered z.1 ∧ z.1.leaf.gen = 0 ∧ z.2 = P.zero
  /-- What is asked for was written. -/
  asked : ∀ a ∈ w.asked, CheckedLeaf w.delivered a ∧ a.leaf.gen ≠ 0
  /-- What is handed over fits what was asked for, in order. -/
  handed : List.Forall₂ Fits (w.asked.take w.handed.length) w.handed

/-! ## The invariant

While a request is translated, the walk is checked down to the level at hand.
What `Trans_Data` holds depends on the stage: a block that is not yet checked,
or the one in which the next entry is to be looked up. -/

section

variable {delivered delivered' : List P.Block} {req : VbdRequest} {walk walk' : Type1NodeWalk}
  {lvl : ℕ}

/-- What is checked stays so when more is delivered. -/
theorem Checked.mono (h : Checked delivered req walk lvl) (hsub : delivered ⊆ delivered') :
    Checked delivered' req walk lvl := by
  obtain ⟨blk, hmem, hblk⟩ := h
  exact ⟨blk, hsub hmem, hblk⟩

/-- Only the entry and the one above it matter. -/
theorem Checked.congr (h : Checked delivered req walk lvl) (hlvl : walk' lvl = walk lvl)
    (hup : walk' (lvl + 1) = walk (lvl + 1)) : Checked delivered req walk' lvl := by
  obtain ⟨blk, hmem, hhash, hentry⟩ := h
  exact ⟨blk, hmem, hhash.trans (by rw [hup]), hlvl.trans hentry⟩

/-- So does a leaf. -/
theorem CheckedLeaf.mono {a : LeafRead} (h : CheckedLeaf delivered a)
    (hsub : delivered ⊆ delivered') : CheckedLeaf delivered' a where
  walk := by
    obtain ⟨walk, hwalk, hleaf⟩ := h.walk
    exact ⟨walk, ⟨hwalk.root, fun lvl hlvl => (hwalk.checked lvl hlvl).mono hsub⟩, hleaf⟩
  prim := h.prim
  keyId := h.keyId

end

/-- **The stages of a translation**, for the block in `Trans_Data`: the block of the
node at hand is on its way, it has arrived, it was checked and the next node is yet to
be looked up in it, or the leaf was looked up. -/
inductive Stage (delivered : List P.Block) (req : VbdRequest) (obj : VirtualBlockDevice P)
    (transData : P.Block) : Prop
  | fetching (next : obj.trans.nextPba ≠ pbaInvalid) (data : obj.trans.dataPba = pbaInvalid)
      (avail : obj.trans.level ≠ 0 → obj.trans.avail (obj.trans.level - 1) = false)
      (cache : obj.cachePrimState = .complete → obj.cachePrimData ∈ delivered)
      (checked : ∀ lvl, obj.trans.level ≤ lvl → lvl < req.maxLevel →
        Checked delivered req obj.trans.walk lvl)
  | arrived (next : obj.trans.nextPba = pbaInvalid) (data : obj.trans.dataPba = pbaInvalid)
      (pos : obj.trans.level ≠ 0) (avail : obj.trans.avail (obj.trans.level - 1) = true)
      (cache : obj.cachePrimState = .invalid) (mem : transData ∈ delivered)
      (checked : ∀ lvl, obj.trans.level ≤ lvl → lvl < req.maxLevel →
        Checked delivered req obj.trans.walk lvl)
  | stepping (next : obj.trans.nextPba = pbaInvalid) (data : obj.trans.dataPba = pbaInvalid)
      (pos : obj.trans.level ≠ 0) (lt : obj.trans.level < req.maxLevel)
      (avail : obj.trans.avail (obj.trans.level - 1) = false)
      (cache : obj.cachePrimState = .invalid) (mem : transData ∈ delivered)
      (hash : P.hash transData = (obj.trans.walk (obj.trans.level + 1)).hash)
      (entry : obj.trans.walk obj.trans.level = type1NodeInvalid
        ∨ Checked delivered req obj.trans.walk obj.trans.level)
      (checked : ∀ lvl, obj.trans.level < lvl → lvl < req.maxLevel →
        Checked delivered req obj.trans.walk lvl)
  | ended (next : obj.trans.nextPba = pbaInvalid)
      (data : obj.trans.dataPba = (obj.trans.walk 0).pba) (zero : obj.trans.level = 0)
      (cache : obj.cachePrimState = .invalid)
      (checked : ∀ lvl < req.maxLevel, Checked delivered req obj.trans.walk lvl)

/-- **The virtual block device works on a request.** -/
structure Busy (delivered : List P.Block) (req : VbdRequest) (obj : VirtualBlockDevice P)
    (transData : P.Block) : Prop where
  /-- The translation is not one of the free tree. -/
  freeTree : obj.trans.freeTree = false
  /-- There is a primitive. -/
  valid : req.prim.valid = true
  /-- The translation has it. -/
  current : obj.trans.current = req.prim
  /-- The key is that of the address. -/
  keyId : obj.keyId = req.keyId
  /-- The geometry is that of the request. -/
  helper : TreeHelper.initializedObject req.degree req.maxLevel req.leafs = some obj.trans.helper
  /-- The request is one that is looked up by its digits. -/
  proper : req.Proper
  /-- The level at hand is one of the tree. -/
  level : obj.trans.level ≤ req.maxLevel
  /-- The walk begins with the root. -/
  root : obj.trans.walk req.maxLevel = req.root
  /-- Nothing was looked up below the level at hand. -/
  below : ∀ lvl < obj.trans.level, obj.trans.walk lvl = type1NodeInvalid
  /-- No data is there for the levels that are to come. -/
  avail : ∀ lvl, lvl + 1 < obj.trans.level → obj.trans.avail lvl = false
  /-- The block that is needed next is the one of the level at hand. -/
  stage : Stage delivered req obj transData

/-- The virtual block device has no request. -/
structure Idle (obj : VirtualBlockDevice P) : Prop where
  /-- The translation is not one of the free tree. -/
  freeTree : obj.trans.freeTree = false
  /-- There is no primitive. -/
  current : obj.trans.current.valid = false
  /-- No block is needed. -/
  next : obj.trans.nextPba = pbaInvalid
  /-- No leaf was found. -/
  data : obj.trans.dataPba = pbaInvalid
  /-- The cache has nothing to do. -/
  cache : obj.cachePrimState = .invalid

/-- The entry of the block I/O holds the block of a leaf that was asked for. -/
structure Awaits (entry : BlockIoEntry) (a : LeafRead) : Prop where
  /-- The primitive is the one for the leaf. -/
  prim : entry.prim = { a.prim with tag := .decrypt, success := entry.prim.success }
  /-- Its own tag is kept beside it. -/
  origTag : entry.origTag = a.prim.tag
  /-- The hash is the one of the leaf. -/
  hash : entry.hash = a.leaf.hash
  /-- It is to be checked. -/
  hashValid : entry.hashValid = true
  /-- The key is the one of the leaf. -/
  keyId : entry.keyId = a.keyId

/-- The block I/O has one entry, so one of the leaves asked for at most is on its way. -/
structure IoSound (io : BlockIoObject) (asked : List LeafRead) (handed : List (Ciphertext P)) :
    Prop where
  /-- An unused entry is not one for a leaf. -/
  unused : (io.entries 0).state = .unused → (io.entries 0).prim.tag ≠ .decrypt
  /-- Without a leaf on its way, all that were asked for were handed over. -/
  idle : (io.entries 0).prim.tag ≠ .decrypt → List.Forall₂ Fits asked handed
  /-- Otherwise all but the last one were. -/
  awaits : (io.entries 0).prim.tag = .decrypt →
    ∃ a asked', asked = asked' ++ [a] ∧ List.Forall₂ Fits asked' handed ∧ Awaits (io.entries 0) a

/-! ## The virtual block device

Each of its procedures keeps `Busy`, or `Idle` without a request. -/

namespace Busy

variable {delivered : List P.Block} {req : VbdRequest} {obj : VirtualBlockDevice P}
  {transData : P.Block} {trans : Translation}

/-- The child that is looked up is the one of the digit. -/
theorem getNode_eq (h : Busy delivered req obj transData) {lvl : ℕ} (hlvl : lvl < req.maxLevel) :
    obj.trans.getNode transData (lvl + 1) = some (childEntry transData (req.digit lvl)) := by
  have hindex := h.proper.treeIndex_eq hlvl
  unfold treeIndex at hindex
  rw [h.helper, Option.bind_some] at hindex
  unfold Translation.getNode
  rw [h.current, show req.prim.blockNumber = req.vba from rfl,
    toRange_of_le (Nat.zero_le _) h.proper.vba]
  show (TreeHelper.index obj.trans.helper req.vba (lvl + 1)).bind _ = _
  rw [hindex]
  rfl

/-- The block at hand was checked, and the child is looked up in it. -/
theorem checked_update {lvl : ℕ} {walk : Type1NodeWalk}
    (hmem : transData ∈ delivered) (hhash : P.hash transData = (walk (lvl + 1)).hash) :
    Checked delivered req
      (Function.update walk lvl (childEntry transData (req.digit lvl))) lvl := by
  refine ⟨transData, hmem, ?_, Function.update_self _ _ _⟩
  rw [Function.update_of_ne (Nat.succ_ne_self lvl)]
  exact hhash

/-- What is above an entry does not depend on it. -/
theorem checked_above {lvl l : ℕ} {walk : Type1NodeWalk} {node : Type1Node} (hlt : lvl < l)
    (hl : Checked delivered req walk l) :
    Checked delivered req (Function.update walk lvl node) l :=
  hl.congr (Function.update_of_ne hlt.ne' _ _)
    (Function.update_of_ne (Nat.lt_succ_of_lt hlt).ne' _ _)

/-- **The block at hand has arrived**: its hash is checked, and the translation goes
on to the next level or ends. -/
theorem execute_arrived (h : Busy delivered req obj transData)
    (heq : obj.trans.execute transData = some trans)
    (next : obj.trans.nextPba = pbaInvalid) (data : obj.trans.dataPba = pbaInvalid)
    (pos : obj.trans.level ≠ 0) (avail : obj.trans.avail (obj.trans.level - 1) = true)
    (cache : obj.cachePrimState = .invalid) (mem : transData ∈ delivered)
    (checked : ∀ lvl, obj.trans.level ≤ lvl → lvl < req.maxLevel →
      Checked delivered req obj.trans.walk lvl) :
    Busy delivered req { obj with trans := trans } transData := by
  obtain ⟨lvl, hlvl⟩ := Nat.exists_eq_succ_of_ne_zero pos
  have hmax : lvl < req.maxLevel := by
    have hle := h.level
    omega
  have hvalid : obj.trans.current.valid = true := by
    rw [h.current]
    exact h.valid
  unfold Translation.execute at heq
  rw [if_neg (by rw [hvalid, data]; simp), if_neg pos, if_neg (by rw [avail]; simp)] at heq
  rw [hlvl, Nat.succ_sub_one] at heq
  obtain ⟨hhash, heq⟩ := Option.ite_none_left_eq_some.mp heq
  have hhash : P.hash transData = (obj.trans.walk (lvl + 1)).hash := not_not.mp hhash
  have hfree : obj.trans.dataLevel = 0 := by
    unfold Translation.dataLevel
    rw [h.freeTree]
    rfl
  rw [hfree] at heq
  by_cases hzero : lvl = 0
  · -- the leaf is looked up
    subst hzero
    rw [if_pos rfl, h.getNode_eq hmax, Option.map_some] at heq
    obtain rfl := Option.some.inj heq
    have hself : Function.update obj.trans.walk 0 (childEntry transData (req.digit 0)) 0
        = childEntry transData (req.digit 0) := Function.update_self _ _ _
    exact {
      h with
      level := Nat.zero_le _
      root := (Function.update_of_ne (Nat.ne_of_gt hmax) _ _).trans h.root
      below := fun l hl => absurd hl (Nat.not_lt_zero l)
      avail := fun l hl => absurd hl (Nat.not_lt_zero _)
      stage := .ended next (congrArg Type1Node.pba hself).symm rfl cache
        fun l hl => by
          by_cases hl0 : l = 0
          · subst hl0
            exact checked_update mem hhash
          · exact checked_above (Nat.pos_of_ne_zero hl0) (checked l (by omega) hl) }
  · rw [if_neg hzero] at heq
    obtain rfl := Option.some.inj heq
    exact {
      h with
      level := hmax.le
      below := fun l hl => h.below l (by rw [hlvl]; exact Nat.lt_succ_of_lt hl)
      avail := fun l hl => h.avail l (by rw [hlvl]; exact Nat.lt_succ_of_lt hl)
      stage := .stepping next data hzero hmax (h.avail (lvl - 1) (by rw [hlvl]; omega)) cache
        mem hhash
        (Or.inl (h.below lvl (by rw [hlvl]; exact Nat.lt_succ_self lvl)))
        fun l hl hlm => checked l (by rw [hlvl]; exact hl) hlm }

/-- **The next node is looked up** in the block that was checked. -/
theorem execute_stepping (h : Busy delivered req obj transData)
    (heq : obj.trans.execute transData = some trans)
    (next : obj.trans.nextPba = pbaInvalid) (data : obj.trans.dataPba = pbaInvalid)
    (pos : obj.trans.level ≠ 0) (lt : obj.trans.level < req.maxLevel)
    (avail : obj.trans.avail (obj.trans.level - 1) = false)
    (cache : obj.cachePrimState = .invalid) (mem : transData ∈ delivered)
    (hash : P.hash transData = (obj.trans.walk (obj.trans.level + 1)).hash)
    (checked : ∀ lvl, obj.trans.level < lvl → lvl < req.maxLevel →
      Checked delivered req obj.trans.walk lvl) :
    Busy delivered req { obj with trans := trans } transData := by
  have hvalid : obj.trans.current.valid = true := by
    rw [h.current]
    exact h.valid
  unfold Translation.execute at heq
  rw [if_neg (by rw [hvalid, data]; simp), if_neg pos, if_pos avail, if_neg (not_not.mpr next),
    h.getNode_eq lt, Option.map_some] at heq
  obtain ⟨-, heq⟩ := Option.ite_none_left_eq_some.mp heq
  obtain rfl := Option.some.inj heq
  have hentry : Checked delivered req (Function.update obj.trans.walk obj.trans.level
      (childEntry transData (req.digit obj.trans.level))) obj.trans.level :=
    checked_update mem hash
  have habove : ∀ l, obj.trans.level < l → l < req.maxLevel → Checked delivered req
      (Function.update obj.trans.walk obj.trans.level
        (childEntry transData (req.digit obj.trans.level))) l := fun l hl hlm =>
    checked_above hl (checked l hl hlm)
  refine { h with
    root := (Function.update_of_ne lt.ne' _ _).trans h.root
    below := fun l hl => (Function.update_of_ne hl.ne _ _).trans (h.below l hl)
    stage := ?_ }
  by_cases hpba : (childEntry transData (req.digit obj.trans.level)).pba = pbaInvalid
  · refine .stepping hpba data pos lt avail cache mem ?_ (Or.inr hentry) habove
    have hup : Function.update obj.trans.walk obj.trans.level
        (childEntry transData (req.digit obj.trans.level)) (obj.trans.level + 1)
        = obj.trans.walk (obj.trans.level + 1) := Function.update_of_ne (Nat.succ_ne_self _) _ _
    exact hash.trans (congrArg Type1Node.hash hup).symm
  · refine .fetching hpba data (fun _ => avail)
      (fun hc => VbdCachePrimState.noConfusion (cache.symm.trans hc)) fun l hl hlm => ?_
    rcases Nat.eq_or_lt_of_le hl with heq | hlt
    · have heq : obj.trans.level = l := heq
      subst heq
      exact hentry
    · exact habove l hlt hlm

/-- **`Translation.Execute`.** -/
theorem transExecute (h : Busy delivered req obj transData)
    (heq : obj.trans.execute transData = some trans) :
    Busy delivered req { obj with trans := trans } transData := by
  have hvalid : obj.trans.current.valid = true := by
    rw [h.current]
    exact h.valid
  cases h.stage with
  | fetching next data avail cache checked =>
    unfold Translation.execute at heq
    rw [if_neg (by rw [hvalid, data]; simp)] at heq
    obtain ⟨hpos, heq⟩ := Option.ite_none_left_eq_some.mp heq
    rw [if_pos (avail hpos), if_pos next] at heq
    obtain rfl := Option.some.inj heq
    exact h
  | arrived next data pos avail cache mem checked =>
    exact h.execute_arrived heq next data pos avail cache mem checked
  | stepping next data pos lt avail cache mem hash entry checked =>
    exact h.execute_stepping heq next data pos lt avail cache mem hash checked
  | ended next data zero cache checked =>
    unfold Translation.execute at heq
    by_cases hdata : obj.trans.dataPba = pbaInvalid
    · rw [if_neg (by rw [hvalid, hdata]; simp), if_pos zero] at heq
      exact absurd heq (Option.some_ne_none trans).symm
    · rw [if_pos (Or.inr hdata)] at heq
      obtain rfl := Option.some.inj heq
      exact h

/-- When a block is asked for, the translation waits for it. -/
theorem fetching_of_next (h : Busy delivered req obj transData)
    (hnext : obj.trans.nextPba ≠ pbaInvalid) :
    obj.trans.dataPba = pbaInvalid
      ∧ (obj.trans.level ≠ 0 → obj.trans.avail (obj.trans.level - 1) = false)
      ∧ (obj.cachePrimState = .complete → obj.cachePrimData ∈ delivered)
      ∧ ∀ lvl, obj.trans.level ≤ lvl → lvl < req.maxLevel →
        Checked delivered req obj.trans.walk lvl := by
  cases h.stage with
  | fetching next data avail cache checked => exact ⟨data, avail, cache, checked⟩
  | arrived next => exact absurd next hnext
  | stepping next => exact absurd next hnext
  | ended next => exact absurd next hnext

/-- The primitive to the cache is in some other state, with nothing delivered. -/
theorem setCache (h : Busy delivered req obj transData)
    (hnext : obj.trans.nextPba ≠ pbaInvalid) {state : VbdCachePrimState} {prim : IoPrimitive}
    (hstate : state ≠ .complete) :
    Busy delivered req { obj with cachePrimState := state, cachePrim := prim } transData := by
  obtain ⟨data, avail, -, checked⟩ := h.fetching_of_next hnext
  exact { h with stage := .fetching hnext data avail (fun hc => absurd hc hstate) checked }

/-- **A delivered block is taken over** into `Trans_Data`. -/
theorem markGeneratedPrimitiveComplete (h : Busy delivered req obj transData)
    (hnext : obj.trans.nextPba ≠ pbaInvalid) (hstate : obj.cachePrimState = .complete)
    (heq : obj.trans.markGeneratedPrimitiveComplete = some trans) :
    Busy delivered req
      { obj with trans := trans.discardGeneratedPrimitive, cachePrimState := .invalid }
      obj.cachePrimData := by
  obtain ⟨data, -, cache, checked⟩ := h.fetching_of_next hnext
  obtain ⟨hpos, heq⟩ := Option.ite_none_left_eq_some.mp heq
  obtain rfl := Option.some.inj heq
  exact { h with
    avail := fun l hl =>
      (Function.update_of_ne (Nat.ne_of_lt (Nat.lt_sub_of_add_lt hl)) _ _).trans (h.avail l hl)
    stage := .arrived rfl data hpos (Function.update_self _ _ _) rfl (cache hstate) checked }

/-- **`Virtual_Block_Device.Execute`.** -/
theorem execute (h : Busy delivered req obj transData) {r : VirtualBlockDevice P × P.Block}
    (heq : obj.execute transData = some r) : Busy delivered req r.1 r.2 := by
  unfold VirtualBlockDevice.execute at heq
  obtain ⟨trans, htrans, heq⟩ := Option.bind_eq_some_iff.mp heq
  have h' := h.transExecute htrans
  unfold Translation.peekGeneratedPba at heq
  by_cases hnext : trans.nextPba ≠ pbaInvalid
  · rw [if_pos hnext] at heq
    dsimp only at heq
    split_ifs at heq with hinvalid hcomplete
    · obtain rfl := Option.some.inj heq
      exact h'.setCache hnext (by simp)
    · obtain ⟨trans', hmark, rfl⟩ := Option.map_eq_some_iff.mp heq
      exact h'.markGeneratedPrimitiveComplete hnext hcomplete.1 hmark
    · obtain rfl := Option.some.inj heq
      exact h'
  · rw [if_neg hnext] at heq
    obtain rfl := Option.some.inj heq
    exact h'

/-- The primitive for the cache is taken. -/
theorem dropGeneratedCachePrimitive (h : Busy delivered req obj transData) :
    Busy delivered req obj.dropGeneratedCachePrimitive transData := by
  unfold VirtualBlockDevice.dropGeneratedCachePrimitive
  split_ifs with hstate
  · have hnext : obj.trans.nextPba ≠ pbaInvalid := by
      cases h.stage with
      | fetching next => exact next
      | arrived _ _ _ _ cache => exact VbdCachePrimState.noConfusion (cache.symm.trans hstate)
      | stepping _ _ _ _ _ cache => exact VbdCachePrimState.noConfusion (cache.symm.trans hstate)
      | ended _ _ _ cache => exact VbdCachePrimState.noConfusion (cache.symm.trans hstate)
    exact h.setCache hnext (by simp)
  · exact h

/-- **The cache delivers a block.** -/
theorem cacheCompleted (h : Busy delivered req obj transData) {prim : IoPrimitive}
    {data : P.Block} {obj' : VirtualBlockDevice P}
    (heq : obj.markGeneratedCachePrimitiveComplete prim data = some obj') :
    Busy (delivered ++ [data]) req obj' transData := by
  obtain ⟨⟨hstate, -⟩, heq⟩ := Option.ite_none_right_eq_some.mp heq
  obtain rfl := Option.some.inj heq
  have hsub : delivered ⊆ delivered ++ [data] := List.subset_append_left _ _
  cases h.stage with
  | fetching next hdata avail cache checked =>
    exact { h with
      stage := .fetching next hdata avail
        (fun _ => List.mem_append_right _ (List.mem_singleton_self data))
        fun l hl hlm => (checked l hl hlm).mono hsub }
  | arrived _ _ _ _ cache => exact VbdCachePrimState.noConfusion (cache.symm.trans hstate)
  | stepping _ _ _ _ _ cache => exact VbdCachePrimState.noConfusion (cache.symm.trans hstate)
  | ended _ _ _ cache => exact VbdCachePrimState.noConfusion (cache.symm.trans hstate)

/-- **A completed translation** has come to the leaf. -/
theorem ended_of_data (h : Busy delivered req obj transData)
    (hdata : obj.trans.dataPba ≠ pbaInvalid) :
    obj.trans.level = 0 ∧ obj.trans.dataPba = (obj.trans.walk 0).pba
      ∧ obj.trans.nextPba = pbaInvalid ∧ obj.cachePrimState = .invalid
      ∧ CheckedWalk delivered req obj.trans.walk := by
  cases h.stage with
  | fetching _ data => exact absurd data hdata
  | arrived _ data => exact absurd data hdata
  | stepping _ data => exact absurd data hdata
  | ended next data zero cache checked => exact ⟨zero, data, next, cache, h.root, checked⟩

/-- Each entry of the walk is still invalid or checked. -/
theorem walk (h : Busy delivered req obj transData) {lvl : ℕ} (hlvl : lvl < req.maxLevel) :
    obj.trans.walk lvl = type1NodeInvalid ∨ Checked delivered req obj.trans.walk lvl := by
  rcases Nat.lt_or_ge lvl obj.trans.level with hlt | hge
  · exact Or.inl (h.below lvl hlt)
  · cases h.stage with
    | fetching _ _ _ _ checked => exact Or.inr (checked lvl hge hlvl)
    | arrived _ _ _ _ _ _ checked => exact Or.inr (checked lvl hge hlvl)
    | stepping _ _ _ _ _ _ _ _ entry checked =>
      rcases Nat.eq_or_lt_of_le hge with rfl | hlt
      · exact entry
      · exact Or.inr (checked lvl hlt hlvl)
    | ended _ _ _ _ checked => exact Or.inr (checked lvl hlvl)

end Busy

namespace Idle

variable {obj : VirtualBlockDevice P} {transData : P.Block}

/-- **Without a request** nothing is done. -/
theorem execute (h : Idle obj) {r : VirtualBlockDevice P × P.Block}
    (heq : obj.execute transData = some r) : r = (obj, transData) := by
  unfold VirtualBlockDevice.execute at heq
  obtain ⟨trans, htrans, heq⟩ := Option.bind_eq_some_iff.mp heq
  unfold Translation.execute at htrans
  rw [if_pos (Or.inl h.current)] at htrans
  obtain rfl := Option.some.inj htrans
  unfold Translation.peekGeneratedPba at heq
  rw [if_neg (not_not.mpr h.next)] at heq
  exact (Option.some.inj heq).symm

/-- Without a request there is none to take. -/
theorem dropGeneratedCachePrimitive (h : Idle obj) : Idle obj.dropGeneratedCachePrimitive := by
  unfold VirtualBlockDevice.dropGeneratedCachePrimitive
  rw [if_neg (by rw [h.cache]; exact VbdCachePrimState.noConfusion)]
  exact h

end Idle

/-! ## The block I/O

The one entry of the block I/O belongs to the last leaf that was asked for, if
it is still on its way. So what is handed over belongs to what was asked for in
the same order. -/

/-- **The completed entry fits** the leaf that it was asked for, once its hash is
checked. -/
theorem Awaits.fits {entry : BlockIoEntry} {a : LeafRead} {prim : IoPrimitive} {data : P.Block}
    (h : Awaits entry a) (hvalid : ¬ entry.prim.valid = false)
    (hsuccess : ¬ entry.prim.success = false)
    (hprim : entry.prim.copyValidObjectNewTag entry.origTag = some prim)
    (hhash : P.hash data = entry.hash) : Fits a ⟨prim, entry.keyId, data⟩ where
  prim := by
    have hvalid : a.prim.valid = true := by
      rw [h.prim] at hvalid
      exact Bool.eq_true_of_not_eq_false hvalid
    rw [h.origTag] at hprim
    obtain ⟨-, heq⟩ := Option.ite_none_left_eq_some.mp hprim
    rw [← Option.some.inj heq, h.prim, Bool.eq_true_of_not_eq_false hsuccess, ← hvalid]
  keyId := h.keyId
  hash := hhash.trans h.hash

namespace IoSound

variable {io io' : BlockIoObject} {asked : List LeafRead} {handed : List (Ciphertext P)}

/-- The entry goes on with the same primitive, but for its success. -/
theorem goes_on (h : IoSound io asked handed) {success : Bool} {state : BlockIoEntryState}
    (hstate : state ≠ .unused)
    (hentry : io'.entries 0 = { io.entries 0 with
      prim := { (io.entries 0).prim with success := success }
      state := state }) : IoSound io' asked handed where
  unused hunused := by
    rw [hentry] at hunused
    exact absurd hunused hstate
  idle htag := by
    rw [hentry] at htag
    exact h.idle htag
  awaits htag := by
    rw [hentry] at htag
    obtain ⟨a, asked', heq, hfits, hawaits⟩ := h.awaits htag
    refine ⟨a, asked', heq, hfits, ?_⟩
    rw [hentry]
    refine ⟨?_, hawaits.origTag, hawaits.hash, hawaits.hashValid, hawaits.keyId⟩
    show ({ (io.entries 0).prim with success := success } : IoPrimitive) = _
    rw [hawaits.prim]

/-- **Another module** submits. -/
theorem submitPrimitive (h : IoSound io asked handed) {tag : IoTag} {prim : IoPrimitive}
    {idx : DataIndex} (htag : tag ≠ .decrypt)
    (heq : io.submitPrimitive tag prim = some (io', idx)) : IoSound io' asked handed := by
  obtain ⟨prim', hprim, heq⟩ := Option.bind_eq_some_iff.mp heq
  obtain ⟨hunused, hentry, -⟩ := BlockIoObject.submitEntry_spec heq
  obtain rfl := Option.some.inj (Option.ite_none_left_eq_some.mp hprim).2
  have hne : (io'.entries 0).prim.tag ≠ .decrypt := by
    rw [hentry]
    exact htag
  exact ⟨fun _ => hne, fun _ => h.idle (h.unused hunused), fun hd => absurd hd hne⟩

/-- **The block of a leaf is asked for.** -/
theorem submitPrimitiveDecrypt (h : IoSound io asked handed) {a : LeafRead} {idx : DataIndex}
    (hvalid : a.prim.valid = true)
    (heq : io.submitPrimitiveDecrypt a.prim a.leaf.hash a.keyId = some (io', idx)) :
    IoSound io' (asked ++ [a]) handed := by
  obtain ⟨prim', hprim, heq⟩ := Option.bind_eq_some_iff.mp heq
  obtain ⟨hunused, hentry, -⟩ := BlockIoObject.submitEntry_spec heq
  obtain rfl := Option.some.inj (Option.ite_none_left_eq_some.mp hprim).2
  have htag : (io'.entries 0).prim.tag = .decrypt := by
    rw [hentry]
  refine ⟨fun hstate => ?_, fun hne => absurd htag hne, fun _ =>
    ⟨a, asked, rfl, h.idle (h.unused hunused), ?_⟩⟩
  · rw [hentry] at hstate
    exact BlockIoEntryState.noConfusion hstate
  · rw [hentry]
    refine ⟨?_, rfl, rfl, rfl, rfl⟩
    show ({ a.prim with valid := true, tag := .decrypt } : IoPrimitive) = _
    rw [← hvalid]

/-- The entry is dropped, and nothing is on its way. -/
theorem dropped (hfits : List.Forall₂ Fits asked handed)
    (hentry : io'.entries 0 = BlockIoEntry.invalid) : IoSound io' asked handed := by
  have hne : (io'.entries 0).prim.tag ≠ .decrypt := by
    rw [hentry]
    exact IoTag.noConfusion
  exact ⟨fun _ => hne, fun _ => hfits, fun hd => absurd hd hne⟩

/-- What was handed over belongs to what was asked for. -/
theorem handed_take (h : IoSound io asked handed) :
    List.Forall₂ Fits (asked.take handed.length) handed := by
  by_cases htag : (io.entries 0).prim.tag = .decrypt
  · obtain ⟨a, asked', rfl, hfits, -⟩ := h.awaits htag
    rw [← hfits.length_eq, List.take_left']
    · exact hfits
    · rfl
  · have hfits := h.idle htag
    rw [← hfits.length_eq, List.take_length]
    exact hfits

end IoSound

/-! ## What the steps preserve

The parts are put together; each procedure of the library touches one or two of
them. -/

/-- **The invariant.** -/
structure Inv (w : ReadPath P) : Prop where
  /-- A request is worked on. -/
  busy : ∀ req ∈ w.req, Busy w.delivered req w.vbd w.transData
  /-- Without one the device has nothing to do. -/
  idle : w.req = none → Idle w.vbd
  /-- The block I/O has what was asked of it. -/
  io : IoSound w.io w.asked w.handed
  /-- What is read as zeros was never written. -/
  zeroed : ∀ z ∈ w.zeroed, CheckedLeaf w.delivered z.1 ∧ z.1.leaf.gen = 0 ∧ z.2 = P.zero
  /-- What is asked for was written. -/
  asked : ∀ a ∈ w.asked, CheckedLeaf w.delivered a ∧ a.leaf.gen ≠ 0

namespace Inv

variable {w t : ReadPath P}

/-- At the start nothing was asked for. -/
theorem initial (P : Platform) : (ReadPath.initial P).Inv where
  busy req hreq := absurd hreq (Option.not_mem_none req)
  idle _ := ⟨rfl, rfl, rfl, rfl, rfl⟩
  io := IoSound.dropped .nil rfl
  zeroed _ hz := absurd hz List.not_mem_nil
  asked _ ha := absurd ha List.not_mem_nil

/-- A completed primitive is that of the request, and its walk is checked. -/
theorem completed (h : w.Inv) {prim : IoPrimitive}
    (hprim : w.vbd.trans.peekCompletedPrimitive = some prim) (hvalid : prim.valid = true) :
    ∃ req, w.req = some req ∧ Busy w.delivered req w.vbd w.transData
      ∧ w.vbd.trans.dataPba ≠ pbaInvalid
      ∧ prim = { req.prim with success := false, blockNumber := (w.vbd.trans.walk 0).pba } := by
  unfold Translation.peekCompletedPrimitive at hprim
  by_cases hdata : w.vbd.trans.dataPba ≠ pbaInvalid
  · cases hreq : w.req with
    | none => exact absurd (h.idle hreq).data hdata
    | some req =>
      have hbusy := h.busy req hreq
      rw [if_pos hdata] at hprim
      obtain ⟨-, heq⟩ := Option.ite_none_left_eq_some.mp hprim
      refine ⟨req, rfl, hbusy, hdata, ?_⟩
      rw [← Option.some.inj heq, hbusy.current, (hbusy.ended_of_data hdata).2.1, ← hbusy.valid]
  · rw [if_neg hdata] at hprim
    obtain rfl := Option.some.inj hprim
    exact absurd hvalid Bool.false_ne_true

/-- **What the invariant says.** -/
theorem sound (h : w.Inv) : w.Sound where
  walk req hreq lvl hlvl := (h.busy req hreq).walk hlvl
  completed prim hprim hvalid := by
    obtain ⟨req, hreq, hbusy, hdata, heq⟩ := h.completed hprim hvalid
    exact ⟨req, hreq, (hbusy.ended_of_data hdata).2.2.2.2, heq⟩
  zeroed := h.zeroed
  asked := h.asked
  handed := h.io.handed_take

/-- Something else of the virtual block device changes. -/
theorem of_vbd (h : w.Inv) {vbd : VirtualBlockDevice P} {transData : P.Block}
    (hbusy : ∀ req ∈ w.req, Busy w.delivered req vbd transData)
    (hidle : w.req = none → Idle vbd) :
    ({ w with vbd := vbd, transData := transData } : ReadPath P).Inv :=
  { h with busy := hbusy, idle := hidle }

/-- **A request is submitted.** -/
theorem submit (h : w.Inv) {req : VbdRequest} (hproper : req.Proper)
    (hstep : w.submit req = some t) : t.Inv := by
  obtain ⟨⟨hacc, hvalid⟩, hstep⟩ := Option.ite_none_right_eq_some.mp hstep
  obtain ⟨vbd, hvbd, rfl⟩ := Option.map_eq_some_iff.mp hstep
  obtain ⟨helper, hhelper, rfl⟩ := Option.map_eq_some_iff.mp hvbd
  have hnone : w.req = none := by
    cases hreq : w.req with
    | none => rfl
    | some req' =>
      have hbusy := h.busy req' hreq
      have hcurrent := hacc.1
      rw [hbusy.current, hbusy.valid] at hcurrent
      exact absurd hcurrent.symm Bool.false_ne_true
  have hidle := h.idle hnone
  have hmax : helper.maxLevel = req.maxLevel := by
    unfold TreeHelper.initializedObject at hhelper
    obtain ⟨degrLog2, -, hhelper⟩ := Option.bind_eq_some_iff.mp hhelper
    obtain ⟨degrMask, -, hhelper⟩ := Option.bind_eq_some_iff.mp hhelper
    rw [← Option.some.inj hhelper]
  refine { h with
    busy := fun r hr => ?_
    idle := fun hr => absurd hr (Option.some_ne_none req) }
  obtain rfl := Option.some.inj hr
  have hcache : w.vbd.cachePrimState ≠ .complete := by
    rw [hidle.cache]
    exact VbdCachePrimState.noConfusion
  have hroot : Function.update (fun _ : ℕ => type1NodeInvalid) helper.maxLevel req.root
      req.maxLevel = req.root := by
    rw [hmax]
    exact Function.update_self _ _ _
  have hbelow : ∀ lvl < helper.maxLevel,
      Function.update (fun _ : ℕ => type1NodeInvalid) helper.maxLevel req.root lvl
        = type1NodeInvalid := fun lvl hlvl => Function.update_of_ne (Nat.ne_of_lt hlvl) _ _
  exact {
    freeTree := hidle.freeTree
    valid := hvalid
    current := rfl
    keyId := rfl
    helper := hhelper
    proper := hproper
    level := hmax.le
    root := hroot
    below := hbelow
    avail := fun _ _ => rfl
    stage := .fetching hproper.root rfl (fun _ => rfl) (fun hc => absurd hc hcache)
      fun lvl hle hlt => absurd (lt_of_le_of_lt hle hlt) (by rw [← hmax]; exact Nat.lt_irrefl _) }

/-- The completed primitive is dropped. -/
theorem dropCompleted (h : w.Inv) {req : VbdRequest}
    (hbusy : Busy w.delivered req w.vbd w.transData) (hdata : w.vbd.trans.dataPba ≠ pbaInvalid) :
    w.dropCompleted.Inv := by
  obtain ⟨-, -, hnext, hcache, -⟩ := hbusy.ended_of_data hdata
  exact { h with
    busy := fun r hr => absurd hr (Option.not_mem_none r)
    idle := fun _ => ⟨hbusy.freeTree, rfl, hnext, rfl, hcache⟩ }

/-- The leaf of a completed request was come to by a checked walk. -/
theorem checkedLeaf {req : VbdRequest} (hbusy : Busy w.delivered req w.vbd w.transData)
    (hdata : w.vbd.trans.dataPba ≠ pbaInvalid) :
    CheckedLeaf w.delivered
      { req := req
        leaf := w.vbd.trans.walk w.vbd.trans.level
        prim := { req.prim with success := false, blockNumber := (w.vbd.trans.walk 0).pba }
        keyId := w.vbd.keyId } := by
  obtain ⟨hzero, -, -, -, hwalk⟩ := hbusy.ended_of_data hdata
  rw [hzero]
  exact ⟨⟨w.vbd.trans.walk, hwalk, rfl⟩, rfl, hbusy.keyId⟩

/-- **The leaf is read as zeros, or its block is asked for.** -/
theorem submitLeaf (h : w.Inv) {cryptoAcceptable : Bool}
    (hstep : w.submitLeaf cryptoAcceptable = some t) : t.Inv := by
  unfold ReadPath.submitLeaf at hstep
  obtain ⟨prim, hprim, hstep⟩ := Option.bind_eq_some_iff.mp hstep
  by_cases hcond : prim.valid = false ∨ prim.operation ≠ .read
  · rw [if_pos hcond] at hstep
    exact Option.some.inj hstep ▸ h
  rw [if_neg hcond] at hstep
  have hvalid : prim.valid = true := Bool.eq_true_of_not_eq_false (not_or.mp hcond).1
  obtain ⟨req, hreq, hbusy, hdata, rfl⟩ := h.completed hprim hvalid
  obtain ⟨gen, hgen, hstep⟩ := Option.bind_eq_some_iff.mp hstep
  obtain ⟨leaf, hleaf, hstep⟩ := Option.bind_eq_some_iff.mp hstep
  unfold Translation.peekCompletedGeneration at hgen
  rw [if_pos hdata] at hgen
  unfold leafRead at hleaf
  rw [hreq] at hleaf
  obtain rfl := Option.some.inj hgen
  have hchecked := checkedLeaf hbusy hdata
  obtain rfl := Option.some.inj hleaf
  have hdropped := h.dropCompleted hbusy hdata
  by_cases hzero : (w.vbd.trans.walk w.vbd.trans.level).gen = 0
  · -- a leaf that was never written
    rw [if_pos hzero] at hstep
    cases cryptoAcceptable with
    | false => exact Option.some.inj hstep ▸ h
    | true =>
      obtain rfl := Option.some.inj hstep
      exact { hdropped with
        zeroed := fun z hz => (List.mem_append.mp hz).elim (h.zeroed z) fun hz => by
          obtain rfl := List.mem_singleton.mp hz
          exact ⟨hchecked, hzero, rfl⟩ }
  · rw [if_neg hzero] at hstep
    by_cases hready : w.io.PrimitiveAcceptable
    · rw [if_pos hready] at hstep
      obtain ⟨hash, hhash, hstep⟩ := Option.bind_eq_some_iff.mp hstep
      unfold Translation.peekCompletedHash at hhash
      rw [if_pos hdata] at hhash
      obtain rfl := Option.some.inj hhash
      obtain ⟨⟨io, idx⟩, hio, hstep⟩ := Option.bind_eq_some_iff.mp hstep
      obtain rfl := Option.some.inj hstep
      exact { hdropped with
        io := h.io.submitPrimitiveDecrypt (a := ⟨req, w.vbd.trans.walk w.vbd.trans.level,
          { req.prim with success := false, blockNumber := (w.vbd.trans.walk 0).pba },
          w.vbd.keyId⟩) hvalid hio
        asked := fun a ha => (List.mem_append.mp ha).elim (h.asked a) fun ha => by
          obtain rfl := List.mem_singleton.mp ha
          exact ⟨hchecked, hzero⟩ }
    · rw [if_neg hready] at hstep
      exact Option.some.inj hstep ▸ h

/-- **`Execute_VBD`.** -/
theorem executeVbd (h : w.Inv) {cacheAcceptable cryptoAcceptable : Bool}
    (hstep : w.executeVbd cacheAcceptable cryptoAcceptable = some t) : t.Inv := by
  obtain ⟨⟨vbd, transData⟩, hvbd, hstep⟩ := Option.bind_eq_some_iff.mp hstep
  refine submitLeaf (h.of_vbd (fun req hreq => ?_) fun hreq => ?_) hstep
  · have hbusy : Busy w.delivered req vbd transData := (h.busy req hreq).execute hvbd
    cases cacheAcceptable with
    | false => exact hbusy
    | true => exact hbusy.dropGeneratedCachePrimitive
  · obtain ⟨rfl, rfl⟩ := Prod.mk.inj ((h.idle hreq).execute hvbd)
    have hidle := h.idle hreq
    cases cacheAcceptable with
    | false => exact hidle
    | true => exact hidle.dropGeneratedCachePrimitive

/-- **The cache delivers a block.** -/
theorem cacheCompleted (h : w.Inv) {success : Bool} {data : P.Block}
    (hstep : w.cacheCompleted success data = some t) : t.Inv := by
  obtain ⟨vbd, hvbd, rfl⟩ := Option.map_eq_some_iff.mp hstep
  have hsub : w.delivered ⊆ w.delivered ++ [data] := List.subset_append_left _ _
  exact { h with
    busy := fun req hreq => (h.busy req hreq).cacheCompleted hvbd
    idle := fun hreq => by
      obtain ⟨⟨hstate, -⟩, -⟩ := Option.ite_none_right_eq_some.mp hvbd
      exact VbdCachePrimState.noConfusion ((h.idle hreq).cache.symm.trans hstate)
    zeroed := fun z hz => ⟨(h.zeroed z hz).1.mono hsub, (h.zeroed z hz).2⟩
    asked := fun a ha => ⟨(h.asked a ha).1.mono hsub, (h.asked a ha).2⟩ }

/-- **`Execute_IO`.** -/
theorem executeIo (h : w.Inv) {cryptoAcceptable : Bool}
    (hstep : w.executeIo cryptoAcceptable = some t) : t.Inv := by
  unfold ReadPath.executeIo at hstep
  dsimp only at hstep
  by_cases hcomplete : (w.io.entries 0).state = .complete
  · rw [BlockIoObject.peekCompleted_eq, if_pos hcomplete] at hstep
    by_cases hvalid : (w.io.entries 0).prim.valid = false
    · rw [if_pos hvalid] at hstep
      exact Option.some.inj hstep ▸ h
    rw [if_neg hvalid] at hstep
    obtain ⟨hsuccess, hstep⟩ := Option.ite_none_left_eq_some.mp hstep
    by_cases htag : (w.io.entries 0).prim.tag = .decrypt
    · rw [if_pos htag] at hstep
      cases cryptoAcceptable with
      | false => exact Option.some.inj hstep ▸ h
      | true =>
        rw [if_pos rfl] at hstep
        obtain ⟨a, asked', hasked, hfits, hawaits⟩ := h.io.awaits htag
        rw [BlockIoObject.peekCompletedHash_self hcomplete hawaits.hashValid] at hstep
        obtain ⟨hhash, hstep⟩ := Option.ite_none_left_eq_some.mp hstep
        obtain ⟨tag, horig, hstep⟩ := Option.bind_eq_some_iff.mp hstep
        unfold BlockIoObject.peekCompletedTag at horig
        rw [BlockIoObject.completedIdx_self hcomplete] at horig
        obtain rfl := Option.some.inj horig
        obtain ⟨keyId, hkey, hstep⟩ := Option.bind_eq_some_iff.mp hstep
        unfold BlockIoObject.peekCompletedKeyId at hkey
        rw [BlockIoObject.completedIdx_self hcomplete] at hkey
        obtain rfl := Option.some.inj hkey
        obtain ⟨prim', hprim, hstep⟩ := Option.bind_eq_some_iff.mp hstep
        obtain rfl := Option.some.inj hstep
        have hfit : Fits a ⟨prim', (w.io.entries 0).keyId, w.ioBuf⟩ :=
          hawaits.fits hvalid hsuccess hprim (not_not.mp hhash)
        exact { h with
          io := IoSound.dropped (hasked ▸ List.rel_append hfits (.cons hfit .nil))
            (BlockIoObject.dropCompletedPrimitive_spec hcomplete) }
    · rw [if_neg htag] at hstep
      obtain rfl := Option.some.inj hstep
      exact { h with
        io := IoSound.dropped (h.io.idle htag)
          (BlockIoObject.dropCompletedPrimitive_spec hcomplete) }
  · rw [BlockIoObject.peekCompleted_eq, if_neg hcomplete] at hstep
    rw [if_pos (show IoPrimitive.invalidObject.valid = false from rfl)] at hstep
    exact Option.some.inj hstep ▸ h

/-- A completed write is taken over. -/
theorem dropWrite (h : w.Inv) {prim : IoPrimitive}
    (hprim : w.vbd.trans.peekCompletedPrimitive = some prim) (hvalid : prim.valid = true) :
    w.dropCompleted.Inv := by
  obtain ⟨req, -, hbusy, hdata, -⟩ := h.completed hprim hvalid
  exact h.dropCompleted hbusy hdata

/-- A translation is suspended or resumed. -/
theorem setSuspended (h : w.Inv) (suspended : Bool) :
    ({ w with
      vbd := { w.vbd with trans := { w.vbd.trans with suspended := suspended } } } :
        ReadPath P).Inv := by
  refine h.of_vbd (fun req hreq => ?_) fun hreq => ?_
  · have hbusy := h.busy req hreq
    refine { hbusy with stage := ?_ }
    cases hbusy.stage with
    | fetching next data avail cache checked => exact .fetching next data avail cache checked
    | arrived next data pos avail cache mem checked =>
      exact .arrived next data pos avail cache mem checked
    | stepping next data pos lt avail cache mem hash entry checked =>
      exact .stepping next data pos lt avail cache mem hash entry checked
    | ended next data zero cache checked => exact .ended next data zero cache checked
  · exact { h.idle hreq with }

/-- The block I/O goes on, and its data block changes. -/
theorem of_io (h : w.Inv) {io : BlockIoObject} {ioBuf : P.Block}
    (hio : IoSound io w.asked w.handed) : ({ w with io := io, ioBuf := ioBuf } : ReadPath P).Inv :=
  { h with io := hio }

end Inv

/-! ## Every run

The condition on a run is about the requests that are submitted, and about
nothing else. -/

/-- The request that an action submits. -/
def Action.submitted : Action P → Option VbdRequest
  | .submit req => some req
  | _ => none

/-- The requests that are submitted are of some kind. -/
def Submits (C : VbdRequest → Prop) (_ : ReadPath P) (a : Action P) : Prop :=
  ∀ req ∈ a.submitted, C req

instance (C : VbdRequest → Prop) [DecidablePred C] (w : ReadPath P) (a : Action P) :
    Decidable (Submits C w a) := inferInstanceAs (Decidable (∀ req ∈ a.submitted, C req))

/-- **A step preserves the invariant.** -/
theorem Inv.step {w t : ReadPath P} (h : w.Inv) {a : Action P}
    (hproper : Submits VbdRequest.Proper w a) (hstep : w.step a = some t) : t.Inv := by
  cases a with
  | submit req => exact h.submit (hproper req rfl) hstep
  | suspend => exact Option.some.inj hstep ▸ h.setSuspended true
  | resume => exact Option.some.inj hstep ▸ h.setSuspended false
  | executeVbd cacheAcceptable cryptoAcceptable => exact h.executeVbd hstep
  | cacheCompleted success data => exact h.cacheCompleted hstep
  | dropWrite =>
    obtain ⟨prim, hprim, hstep⟩ := Option.bind_eq_some_iff.mp hstep
    obtain ⟨⟨hvalid, -⟩, hstep⟩ := Option.ite_none_right_eq_some.mp hstep
    exact Option.some.inj hstep ▸ h.dropWrite hprim hvalid
  | submitIo tag prim data =>
    obtain ⟨htag, hstep⟩ := Option.ite_none_left_eq_some.mp hstep
    obtain ⟨⟨io, idx⟩, hio, rfl⟩ := Option.map_eq_some_iff.mp hstep
    exact h.of_io (h.io.submitPrimitive htag hio)
  | ioInProgress =>
    obtain ⟨io, hio, rfl⟩ := Option.map_eq_some_iff.mp hstep
    obtain ⟨-, hio⟩ := Option.ite_none_left_eq_some.mp hio
    have hentry : io.entries 0 = { w.io.entries 0 with
        prim := { (w.io.entries 0).prim with success := (w.io.entries 0).prim.success }
        state := .inProgress } := by
      rw [← Option.some.inj hio]
      exact BlockIoObject.setEntry_entries _ _ _
    exact h.of_io (h.io.goes_on BlockIoEntryState.noConfusion hentry)
  | ioCompleted success data =>
    obtain ⟨io, hio, rfl⟩ := Option.map_eq_some_iff.mp hstep
    obtain ⟨-, hio⟩ := Option.ite_none_left_eq_some.mp hio
    have hentry : io.entries 0 = { w.io.entries 0 with
        prim := { (w.io.entries 0).prim with success := success }
        state := .complete } := by
      rw [← Option.some.inj hio]
      exact BlockIoObject.setEntry_entries _ _ _
    exact h.of_io (h.io.goes_on BlockIoEntryState.noConfusion hentry)
  | executeIo cryptoAcceptable => exact h.executeIo hstep

/-- **Over every run the reads are checked**, if the requests are proper. -/
theorem sound_of_proper_run {t : ReadPath P}
    (h : Run step (Submits VbdRequest.Proper) (initial P) t) : t.Sound :=
  Inv.sound (h.invariant (I := Inv) (fun _ _ _ hI hproper hstep => hI.step hproper hstep)
    (Inv.initial P))

/-! ### Two reads

The same read from a tree of degree two and from one of degree three, whose
index function takes the digits to the base two. -/

/-- A read of the last leaf of a tree with one level, of a degree of at least two. -/
def sampleRequest (degree : ℕ) : VbdRequest where
  root := ⟨8, 1, 7⟩
  maxLevel := 1
  degree := degree
  leafs := degree
  prim := ⟨true, .read, false, .poolVbd, some 0, degree - 1, 0⟩
  rekeying := false
  rekeyingVba := 0
  previousKeyId := 0
  currentKeyId := 1

/-- The node block under the root, which is a block with the hash of each leaf as
well. -/
def sampleBlock : Platform.sample.Block := (fun i => ⟨4 + i, 1, 7⟩, [])

/-- The read from its submission to the decryption. -/
def sampleActions (degree : ℕ) : List (Action Platform.sample) :=
  [.submit (sampleRequest degree), .executeVbd true true, .cacheCompleted true sampleBlock,
    .executeVbd true true, .executeVbd true true, .ioInProgress, .ioCompleted true sampleBlock,
    .executeIo true]

/-- A read from a tree of degree two reaches the decryption, and is checked. -/
theorem sound_of_proper_run_sample :
    ∃ t : ReadPath Platform.sample,
      Run step (Submits VbdRequest.Proper) (initial Platform.sample) t ∧ t.handed.length = 1
        ∧ t.Sound :=
  have hrun : Run step (Submits VbdRequest.Proper) (initial Platform.sample)
      (after step (Submits VbdRequest.Proper) (initial Platform.sample) (sampleActions 2)) :=
    Run.after (by decide)
  ⟨_, hrun, by decide, sound_of_proper_run hrun⟩

/-- **In a tree of degree three** the read of the last leaf hands over the block of the
first one. -/
theorem not_sound_of_run :
    ¬ ∀ t : ReadPath Platform.sample,
      Run step (Submits VbdRequest.InRange) (initial Platform.sample) t → t.Sound := by
  intro hall
  have hrun : Run step (Submits VbdRequest.InRange) (initial Platform.sample)
      (after step (Submits VbdRequest.InRange) (initial Platform.sample) (sampleActions 3)) :=
    Run.after (by decide)
  have hsound := hall _ hrun
  obtain ⟨walk, hwalk, hleaf⟩ := (hsound.asked _ List.mem_cons_self).1.walk
  obtain ⟨blk, hmem, -, hentry⟩ := hwalk.checked 0 Nat.zero_lt_one
  obtain rfl := List.mem_singleton.mp hmem
  have hpba : (4 : ℕ) = 6 := congrArg Type1Node.pba (hleaf.trans hentry)
  exact absurd hpba (by decide)

end ReadPath

end Cbe
