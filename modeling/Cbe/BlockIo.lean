import Cbe.RequestPool

/-!
# The block I/O queue

The modules of the library hand their accesses to the backend over to the block
I/O module, which keeps each in an entry with the data block of the same index.
The backend side takes an entry by its index
(`BlockIoObject.dropGeneratedPrimitive2`,
`BlockIoObject.markGeneratedPrimitiveComplete`), the library finds a completed
one by the equality of its primitive (`BlockIoObject.completedIdx`). Both sides
raise on an entry in another state than they expect.

There is one entry. It is unused, pending, in progress or complete, and each
procedure moves it on from one of these states to the next; so what a procedure
does is said of the entry alone, and the searches over all entries come down to
one test.
-/

namespace Cbe

/-- `Cbe::BLOCK_SIZE`. -/
abbrev blockSize : ℕ := 4096

/-- The tags of the primitives of the library, of `Primitive.Tag_Type`, that pass
through the block I/O and the crypto module, and those of the init library. -/
inductive IoTag where
  | invalid
  | poolVbd
  | sbCtrlCryptoAddKey
  | sbCtrlCryptoRemoveKey
  | sbCtrlBlkIoWriteSb
  | sbCtrlBlkIoReadSb
  | sbCtrlBlkIoSync
  | vbdRkgBlkIo
  | vbdRkgCryptoEncrypt
  | vbdRkgCryptoDecrypt
  | io
  | writeBack
  | cache
  | cacheBlkIo
  | decrypt
  | encrypt
  | vbdCache
  | wbCache
  | libSbInit
  | sbInitVbdInit
  | sbInitFtInit
  | sbInitMtInit
  | sbInitBlkIo
  | sbInitTaCreateKey
  | sbInitTaEncryptKey
  | vbdInitBlkAlloc
  | vbdInitBlkIo
  | ftInitBlkAlloc
  | ftInitBlkIo
  deriving DecidableEq

/-- `Primitive.Object_Type`, with these tags. -/
structure IoPrimitive where
  /-- Whether there is a primitive. -/
  valid : Bool
  /-- A read, a write or a sync. -/
  operation : PrimitiveOperation
  /-- Whether it has succeeded. -/
  success : Bool
  /-- The module that it came from. -/
  tag : IoTag
  /-- The job of the request pool that it is for, if any. -/
  poolIdxSlot : Option PoolIndex
  /-- The block that it is for. -/
  blockNumber : ℕ
  /-- Its number in the request. -/
  index : ℕ
  deriving DecidableEq

namespace IoPrimitive

/-- `Primitive.Invalid_Object`. -/
def invalidObject : IoPrimitive :=
  { valid := false, operation := .read, success := false, tag := .invalid,
    poolIdxSlot := none, blockNumber := 0, index := 0 }

/-- `Primitive.Valid_Object_No_Pool_Idx`. -/
def validObjectNoPoolIdx (op : PrimitiveOperation) (succ : Bool) (tag : IoTag)
    (blockNumber index : ℕ) : Option IoPrimitive :=
  if tag = .invalid then none
  else
    some { valid := true, operation := op, success := succ, tag := tag,
           poolIdxSlot := none, blockNumber := blockNumber, index := index }

/-- `Primitive.Valid_Object`. -/
def validObject (op : PrimitiveOperation) (succ : Bool) (tag : IoTag) (poolIdx : PoolIndex)
    (blockNumber index : ℕ) : Option IoPrimitive :=
  if tag = .invalid then none
  else
    some { valid := true, operation := op, success := succ, tag := tag,
           poolIdxSlot := some poolIdx, blockNumber := blockNumber, index := index }

/-- `Primitive.Copy_Valid_Object_New_Tag`. -/
def copyValidObjectNewTag (prim : IoPrimitive) (tag : IoTag) : Option IoPrimitive :=
  if tag = .invalid then none else some { prim with valid := true, tag := tag }

/-- `Primitive.Copy_Valid_Object_New_Succ_Blk_Nr`. -/
def copyValidObjectNewSuccBlkNr (obj : IoPrimitive) (succ : Bool) (blockNumber : ℕ) :
    Option IoPrimitive :=
  if obj.tag = .invalid then none
  else some { obj with valid := true, success := succ, blockNumber := blockNumber }

/-- `Primitive.Equal`. -/
def Equal (p p' : IoPrimitive) : Prop :=
  p.blockNumber = p'.blockNumber ∧ p.index = p'.index ∧ p.tag = p'.tag ∧
    p.poolIdxSlot = p'.poolIdxSlot ∧ p.operation = p'.operation

instance (p p' : IoPrimitive) : Decidable (p.Equal p') :=
  inferInstanceAs (Decidable (_ ∧ _ ∧ _ ∧ _ ∧ _))

@[simp] theorem equal_refl (p : IoPrimitive) : p.Equal p := ⟨rfl, rfl, rfl, rfl, rfl⟩

end IoPrimitive

/-- `Num_Entries_Type'Last`: there is one entry for each data block. -/
abbrev numEntries : ℕ := 1

/-- `Data_Index_Type`. -/
abbrev DataIndex := Fin numEntries

instance : NeZero numEntries := ⟨by decide⟩

/-- `Entry_State_Type`. -/
inductive BlockIoEntryState where
  | unused
  | pending
  | inProgress
  | complete
  deriving DecidableEq

/-- `Entry_Type`. -/
structure BlockIoEntry where
  /-- The tag that the primitive came with. -/
  origTag : IoTag
  /-- The primitive. -/
  prim : IoPrimitive
  /-- The hash that the data of a read has to have. -/
  hash : Hash
  /-- Whether there is a hash to be checked. -/
  hashValid : Bool
  /-- How far the entry has come. -/
  state : BlockIoEntryState
  /-- The key that the data is to be decrypted with. -/
  keyId : ℕ

/-- `Invalid_Entry`. -/
def BlockIoEntry.invalid : BlockIoEntry :=
  { origTag := .invalid, prim := IoPrimitive.invalidObject, hash := 0, hashValid := false,
    state := .unused, keyId := 0 }

/-- `Block_IO.Object_Type`. -/
structure BlockIoObject where
  /-- The entries. -/
  entries : DataIndex → BlockIoEntry
  /-- How many of them are in use. -/
  usedEntries : ℕ

namespace BlockIoObject

/-- `Initialized_Object`. -/
def initializedObject : BlockIoObject :=
  { entries := fun _ => BlockIoEntry.invalid, usedEntries := 0 }

/-- `Primitive_Acceptable`. -/
def PrimitiveAcceptable (io : BlockIoObject) : Prop := io.usedEntries < numEntries

instance (io : BlockIoObject) : Decidable io.PrimitiveAcceptable :=
  inferInstanceAs (Decidable (_ < _))

/-- The first entry of a kind, as the loops over the entries find it. -/
def firstIdx (io : BlockIoObject) (p : BlockIoEntry → Bool) : Option DataIndex :=
  (List.finRange numEntries).find? fun idx => p (io.entries idx)

/-- The entry of an index is another one. -/
def setEntry (io : BlockIoObject) (idx : DataIndex) (entry : BlockIoEntry) : BlockIoObject :=
  { io with entries := Function.update io.entries idx entry }

/-- The loop that the three procedures to submit a primitive share: the first
unused entry takes it. It raises when there is none. -/
def submitEntry (io : BlockIoObject) (entry : BlockIoEntry) : Option (BlockIoObject × DataIndex) :=
  match io.firstIdx fun e => e.state = .unused with
  | none => none
  | some idx =>
    if io.usedEntries + 1 ≤ numEntries then
      some ({ io.setEntry idx entry with usedEntries := io.usedEntries + 1 }, idx)
    else none

/-- `Submit_Primitive`, without a data index. -/
def submitPrimitive (io : BlockIoObject) (tag : IoTag) (prim : IoPrimitive) :
    Option (BlockIoObject × DataIndex) :=
  (prim.copyValidObjectNewTag tag).bind fun prim' =>
    io.submitEntry
      { origTag := prim.tag, prim := prim', hash := 0, hashValid := false, state := .pending,
        keyId := 0 }

/-- `Submit_Primitive_Decrypt`. -/
def submitPrimitiveDecrypt (io : BlockIoObject) (prim : IoPrimitive) (hash : Hash) (keyId : ℕ) :
    Option (BlockIoObject × DataIndex) :=
  (prim.copyValidObjectNewTag .decrypt).bind fun prim' =>
    io.submitEntry
      { origTag := prim.tag, prim := prim', hash := hash, hashValid := true, state := .pending,
        keyId := keyId }

/-- `Submit_Primitive`, with a data index. -/
def submitPrimitiveDataIndex (io : BlockIoObject) (tag : IoTag) (prim : IoPrimitive) :
    Option (BlockIoObject × DataIndex) :=
  (IoPrimitive.validObjectNoPoolIdx prim.operation prim.success tag prim.blockNumber
      prim.index).bind fun prim' =>
    io.submitEntry
      { origTag := prim.tag, prim := prim', hash := 0, hashValid := false, state := .pending,
        keyId := 0 }

/-- `Peek_Completed_Primitive`. -/
def peekCompletedPrimitive (io : BlockIoObject) : IoPrimitive :=
  match io.firstIdx fun e => e.state = .complete with
  | none => IoPrimitive.invalidObject
  | some idx => (io.entries idx).prim

/-- The completed entry of a primitive, as the peeks at it and
`Drop_Completed_Primitive` find it. -/
def completedIdx (io : BlockIoObject) (prim : IoPrimitive) : Option DataIndex :=
  io.firstIdx fun e => e.state = .complete ∧ prim.Equal e.prim

/-- `Peek_Completed_Key_ID`. -/
def peekCompletedKeyId (io : BlockIoObject) (prim : IoPrimitive) : Option ℕ :=
  (io.completedIdx prim).map fun idx => (io.entries idx).keyId

/-- `Peek_Completed_Tag`. -/
def peekCompletedTag (io : BlockIoObject) (prim : IoPrimitive) : Option IoTag :=
  (io.completedIdx prim).map fun idx => (io.entries idx).origTag

/-- `Peek_Completed_Hash`, of an entry that has one. -/
def peekCompletedHash (io : BlockIoObject) (prim : IoPrimitive) : Option Hash :=
  (io.firstIdx fun e => e.state = .complete ∧ prim.Equal e.prim ∧ e.hashValid = true).map
    fun idx => (io.entries idx).hash

/-- `Drop_Completed_Primitive`. -/
def dropCompletedPrimitive (io : BlockIoObject) (prim : IoPrimitive) : BlockIoObject :=
  match io.completedIdx prim with
  | none => io
  | some idx => { io.setEntry idx BlockIoEntry.invalid with usedEntries := io.usedEntries - 1 }

/-- `Peek_Generated_Primitive`. -/
def peekGeneratedPrimitive (io : BlockIoObject) : IoPrimitive :=
  match io.firstIdx fun e => e.state = .pending with
  | none => IoPrimitive.invalidObject
  | some idx => (io.entries idx).prim

/-- `Peek_Generated_Data_Index`: unlike the primitive, it is also that of an
entry in progress. -/
def peekGeneratedDataIndex (io : BlockIoObject) (prim : IoPrimitive) : Option DataIndex :=
  io.firstIdx fun e => (e.state = .pending ∨ e.state = .inProgress) ∧ prim.Equal e.prim

/-- `Drop_Generated_Primitive_2`. -/
def dropGeneratedPrimitive2 (io : BlockIoObject) (idx : DataIndex) : Option BlockIoObject :=
  if (io.entries idx).state ≠ .pending then none
  else some (io.setEntry idx { io.entries idx with state := .inProgress })

/-- `Mark_Generated_Primitive_Complete`. -/
def markGeneratedPrimitiveComplete (io : BlockIoObject) (idx : DataIndex) (success : Bool) :
    Option BlockIoObject :=
  if (io.entries idx).state ≠ .inProgress then none
  else
    some (io.setEntry idx { io.entries idx with
      prim := { (io.entries idx).prim with success := success }
      state := .complete })

/-! ## The one entry

Each procedure that submits a primitive, or takes one, by what it does to the
entry. -/

/-- There is one entry only. -/
theorem firstIdx_eq (io : BlockIoObject) (p : BlockIoEntry → Bool) :
    io.firstIdx p = if p (io.entries 0) = true then some 0 else none := by
  show [(0 : DataIndex)].find? _ = _
  rw [List.find?_cons]
  cases p (io.entries 0) <;> rfl

@[simp] theorem setEntry_entries (io : BlockIoObject) (idx : DataIndex) (entry : BlockIoEntry) :
    (io.setEntry idx entry).entries 0 = entry := by
  rw [Subsingleton.elim 0 idx]
  exact Function.update_self _ _ _

@[simp] theorem setEntry_usedEntries (io : BlockIoObject) (idx : DataIndex) (entry : BlockIoEntry) :
    (io.setEntry idx entry).usedEntries = io.usedEntries := rfl

/-- **The backend takes the pending entry.** -/
theorem dropGeneratedPrimitive2_spec {io : BlockIoObject} (idx : DataIndex)
    (h : (io.entries 0).state = .pending) :
    ∃ io', io.dropGeneratedPrimitive2 idx = some io'
      ∧ io'.entries 0 = { io.entries 0 with state := .inProgress } := by
  unfold dropGeneratedPrimitive2
  rw [Subsingleton.elim idx 0, if_neg (not_not.mpr h)]
  exact ⟨_, rfl, setEntry_entries _ _ _⟩

/-- **The backend completes the entry in progress.** -/
theorem markGeneratedPrimitiveComplete_spec {io : BlockIoObject} (idx : DataIndex) (success : Bool)
    (h : (io.entries 0).state = .inProgress) :
    ∃ io', io.markGeneratedPrimitiveComplete idx success = some io'
      ∧ io'.entries 0 = { io.entries 0 with
        prim := { (io.entries 0).prim with success := success }
        state := .complete } := by
  unfold markGeneratedPrimitiveComplete
  rw [Subsingleton.elim idx 0, if_neg (not_not.mpr h)]
  exact ⟨_, rfl, setEntry_entries _ _ _⟩

/-- **A primitive is submitted** to the unused entry. -/
theorem submitEntry_spec {io io' : BlockIoObject} {entry : BlockIoEntry} {idx : DataIndex}
    (h : io.submitEntry entry = some (io', idx)) :
    (io.entries 0).state = .unused ∧ io'.entries 0 = entry
      ∧ io'.usedEntries = io.usedEntries + 1 := by
  unfold submitEntry at h
  rw [firstIdx_eq] at h
  by_cases hunused : (io.entries 0).state = .unused
  · rw [if_pos (decide_eq_true hunused)] at h
    dsimp only at h
    rw [Option.ite_none_right_eq_some] at h
    obtain ⟨rfl, -⟩ := Prod.mk.inj (Option.some.inj h.2)
    exact ⟨hunused, setEntry_entries io 0 entry, rfl⟩
  · rw [if_neg fun hd => hunused (of_decide_eq_true hd)] at h
    exact absurd h (by simp)

/-- An entry that a primitive was submitted to. -/
def Fresh (entry : BlockIoEntry) : Prop := entry.state = .pending ∧ entry.prim.valid = true

/-- A primitive is submitted to an unused entry, which is pending then. -/
theorem submitPrimitive_spec {io io' : BlockIoObject} {tag : IoTag} {prim : IoPrimitive}
    {idx : DataIndex}
    (h : io.submitPrimitive tag prim = some (io', idx)) :
    (io.entries 0).state = .unused ∧ Fresh (io'.entries 0) := by
  obtain ⟨prim', hprim, h⟩ := Option.bind_eq_some_iff.mp h
  obtain ⟨hunused, hentry, -⟩ := submitEntry_spec h
  obtain rfl := Option.some.inj (Option.ite_none_left_eq_some.mp hprim).2
  rw [hentry]
  exact ⟨hunused, rfl, rfl⟩

/-- So is a read whose data is to be decrypted. -/
theorem submitPrimitiveDecrypt_spec {io io' : BlockIoObject} {prim : IoPrimitive} {hash : Hash}
    {keyId : ℕ}
    {idx : DataIndex} (h : io.submitPrimitiveDecrypt prim hash keyId = some (io', idx)) :
    (io.entries 0).state = .unused ∧ Fresh (io'.entries 0) := by
  obtain ⟨prim', hprim, h⟩ := Option.bind_eq_some_iff.mp h
  obtain ⟨hunused, hentry, -⟩ := submitEntry_spec h
  obtain rfl := Option.some.inj (Option.ite_none_left_eq_some.mp hprim).2
  rw [hentry]
  exact ⟨hunused, rfl, rfl⟩

/-- So is a primitive whose caller wants the index of the data. -/
theorem submitPrimitiveDataIndex_spec {io io' : BlockIoObject} {tag : IoTag} {prim : IoPrimitive}
    {idx : DataIndex} (h : io.submitPrimitiveDataIndex tag prim = some (io', idx)) :
    (io.entries 0).state = .unused ∧ Fresh (io'.entries 0) := by
  obtain ⟨prim', hprim, h⟩ := Option.bind_eq_some_iff.mp h
  obtain ⟨hunused, hentry, -⟩ := submitEntry_spec h
  obtain rfl := Option.some.inj (Option.ite_none_left_eq_some.mp hprim).2
  rw [hentry]
  exact ⟨hunused, rfl, rfl⟩

/-- The first pending entry is the one there is. -/
theorem peekGenerated_eq (io : BlockIoObject) :
    io.peekGeneratedPrimitive
      = if (io.entries 0).state = .pending then (io.entries 0).prim
        else IoPrimitive.invalidObject := by
  unfold peekGeneratedPrimitive
  rw [firstIdx_eq]
  by_cases h : (io.entries 0).state = .pending
  · rw [if_pos (decide_eq_true h), if_pos h]
  · rw [if_neg fun hd => h (of_decide_eq_true hd), if_neg h]

/-- The first completed entry is the one there is. -/
theorem peekCompleted_eq (io : BlockIoObject) :
    io.peekCompletedPrimitive
      = if (io.entries 0).state = .complete then (io.entries 0).prim
        else IoPrimitive.invalidObject := by
  unfold peekCompletedPrimitive
  rw [firstIdx_eq]
  by_cases h : (io.entries 0).state = .complete
  · rw [if_pos (decide_eq_true h), if_pos h]
  · rw [if_neg fun hd => h (of_decide_eq_true hd), if_neg h]

/-- A completed entry is found by its own primitive. -/
theorem completedIdx_self {io : BlockIoObject} (h : (io.entries 0).state = .complete) :
    io.completedIdx (io.entries 0).prim = some 0 := by
  unfold completedIdx
  rw [firstIdx_eq, if_pos (decide_eq_true ⟨h, IoPrimitive.equal_refl _⟩)]

/-- The hash of a completed entry is found by its own primitive. -/
theorem peekCompletedHash_self {io : BlockIoObject} (h : (io.entries 0).state = .complete)
    (hvalid : (io.entries 0).hashValid = true) :
    io.peekCompletedHash (io.entries 0).prim = some (io.entries 0).hash := by
  unfold peekCompletedHash
  rw [firstIdx_eq, if_pos (decide_eq_true ⟨h, IoPrimitive.equal_refl _, hvalid⟩)]
  rfl

/-- **A completed entry is dropped** by its own primitive. -/
theorem dropCompletedPrimitive_spec {io : BlockIoObject} (h : (io.entries 0).state = .complete) :
    (io.dropCompletedPrimitive (io.entries 0).prim).entries 0 = BlockIoEntry.invalid := by
  unfold dropCompletedPrimitive
  rw [completedIdx_self h]
  exact setEntry_entries io 0 BlockIoEntry.invalid

end BlockIoObject

end Cbe
