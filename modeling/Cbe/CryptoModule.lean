import Cbe.BlockIo

/-!
# The crypto module

The modules of the library hand the blocks that are to be encrypted or decrypted, and the keys
that are to be added or removed, over to the crypto module, which keeps each primitive in an
item. The client takes an item by its index and reports it complete, the library finds a
completed one and takes its result from the buffer of the same index. One table serves keys,
encryptions and decryptions alike; they are told apart by tag and operation.
-/

namespace Cbe

/-- The number of values of `Item_Index_Type`. -/
abbrev numCryptoItems : ℕ := 1

/-- `Item_Index_Type`. -/
abbrev ItemIndex := Fin numCryptoItems

/-- `Item.State_Type`. -/
inductive CryptoItemState where
  | invalid
  | pending
  | inProgress
  | complete
  deriving DecidableEq

/-- `Item.Item_Type`. -/
structure CryptoItem where
  /-- Whether the item is in use, and how far it has come. -/
  state : CryptoItemState
  /-- The primitive that it is for. -/
  prim : IoPrimitive
  /-- The id of the key. -/
  keyId : ℕ
  /-- The value of the key, when one is to be added. -/
  keyValue : KeyValue
  deriving DecidableEq

namespace CryptoItem

/-- `Item.Invalid_Object`. -/
def invalidObject : CryptoItem :=
  { state := .invalid, prim := IoPrimitive.invalidObject, keyId := 0, keyValue := 0 }

/-- `Item.Pending_Object`. -/
def pendingObject (prim : IoPrimitive) (keyId : ℕ) : CryptoItem :=
  { state := .pending, prim := prim, keyId := keyId, keyValue := 0 }

/-- `Item.Pending_Object_Key`. -/
def pendingObjectKey (prim : IoPrimitive) (key : Key) : CryptoItem :=
  { state := .pending, prim := prim, keyId := key.id, keyValue := key.value }

/-- `Item.Completed_Object`. -/
def completedObject (prim : IoPrimitive) (keyId : ℕ) : CryptoItem :=
  { state := .complete, prim := prim, keyId := keyId, keyValue := 0 }

/-- `Item.Key`. -/
def key (item : CryptoItem) : Key := { value := item.keyValue, id := item.keyId }

/-- `Item.Mark_Completed_Primitive`. -/
def markCompletedPrimitive (item : CryptoItem) (success : Bool) : Option CryptoItem :=
  if item.state ≠ .inProgress then none
  else some { item with state := .complete, prim := { item.prim with success := success } }

end CryptoItem

/-- `Crypto.Object_Type`. -/
structure CryptoObject where
  /-- The items. -/
  items : ItemIndex → CryptoItem

namespace CryptoObject

/-- `Initialized_Object`. -/
def initializedObject : CryptoObject := { items := fun _ => CryptoItem.invalidObject }

/-- The first item of a kind, as the loops over the items find it. -/
def firstIdx (obj : CryptoObject) (p : CryptoItem → Bool) : Option ItemIndex :=
  (List.finRange numCryptoItems).find? fun idx => p (obj.items idx)

/-- The item of an index is another one. -/
def setItem (obj : CryptoObject) (idx : ItemIndex) (item : CryptoItem) : CryptoObject :=
  { obj with items := Function.update obj.items idx item }

/-- `Primitive_Acceptable`. -/
def PrimitiveAcceptable (obj : CryptoObject) : Prop :=
  ∃ idx, (obj.items idx).state = .invalid

instance (obj : CryptoObject) : Decidable obj.PrimitiveAcceptable :=
  inferInstanceAs (Decidable (∃ idx, (obj.items idx).state = .invalid))

/-- The loop that the procedures to submit a primitive share: the first invalid item takes it.
It raises when there is none. -/
def submitItem (obj : CryptoObject) (item : CryptoItem) : Option (CryptoObject × ItemIndex) :=
  (obj.firstIdx fun i => i.state = .invalid).map fun idx => (obj.setItem idx item, idx)

/-- `Submit_Primitive`. -/
def submitPrimitive (obj : CryptoObject) (prim : IoPrimitive) (keyId : ℕ) :
    Option (CryptoObject × ItemIndex) :=
  obj.submitItem (CryptoItem.pendingObject prim keyId)

/-- `Submit_Primitive_Key`. -/
def submitPrimitiveKey (obj : CryptoObject) (prim : IoPrimitive) (key : Key) :
    Option CryptoObject :=
  (obj.submitItem (CryptoItem.pendingObjectKey prim key)).map Prod.fst

/-- `Submit_Primitive_Key_ID`. -/
def submitPrimitiveKeyId (obj : CryptoObject) (prim : IoPrimitive) (keyId : ℕ) :
    Option CryptoObject :=
  (obj.submitItem (CryptoItem.pendingObject prim keyId)).map Prod.fst

/-- `Submit_Completed_Primitive`. -/
def submitCompletedPrimitive (obj : CryptoObject) (prim : IoPrimitive) (keyId : ℕ) :
    Option (CryptoObject × ItemIndex) :=
  obj.submitItem (CryptoItem.completedObject prim keyId)

/-- `Peek_Generated_Primitive`. -/
def peekGeneratedPrimitive (obj : CryptoObject) : ItemIndex × IoPrimitive :=
  match obj.firstIdx fun i => i.state = .pending with
  | none => (0, IoPrimitive.invalidObject)
  | some idx => (idx, (obj.items idx).prim)

/-- `Drop_Generated_Primitive`. -/
def dropGeneratedPrimitive (obj : CryptoObject) (idx : ItemIndex) : Option CryptoObject :=
  if (obj.items idx).state ≠ .pending then none
  else some (obj.setItem idx { obj.items idx with state := .inProgress })

/-- `Peek_Generated_Key_ID`. -/
def peekGeneratedKeyId (obj : CryptoObject) (idx : ItemIndex) : Option ℕ :=
  if (obj.items idx).state ≠ .pending then none else some (obj.items idx).keyId

/-- `Peek_Generated_Key`. -/
def peekGeneratedKey (obj : CryptoObject) (idx : ItemIndex) : Option Key :=
  if (obj.items idx).state ≠ .pending then none else some (obj.items idx).key

/-- `Peek_Completed_Primitive`. -/
def peekCompletedPrimitive (obj : CryptoObject) : IoPrimitive :=
  match obj.firstIdx fun i => i.state = .complete with
  | none => IoPrimitive.invalidObject
  | some idx => (obj.items idx).prim

/-- `Drop_Completed_Primitive`. -/
def dropCompletedPrimitive (obj : CryptoObject) : CryptoObject :=
  match obj.firstIdx fun i => i.state = .complete with
  | none => obj
  | some idx => obj.setItem idx CryptoItem.invalidObject

/-- `Mark_Completed_Primitive`. -/
def markCompletedPrimitive (obj : CryptoObject) (idx : ItemIndex) (success : Bool) :
    Option CryptoObject :=
  ((obj.items idx).markCompletedPrimitive success).map (obj.setItem idx)

/-- `Data_Index`. It raises when no item has the primitive. -/
def dataIndex (obj : CryptoObject) (prim : IoPrimitive) : Option ItemIndex :=
  obj.firstIdx fun i => i.prim.Equal prim

/-! ## The one item

Each procedure, on a table that consists of one item. -/

/-- The module with an item. -/
def ofItem (item : CryptoItem) : CryptoObject := { items := fun _ => item }

variable {item : CryptoItem} {idx : ItemIndex}

@[simp] theorem ofItem_items (item : CryptoItem) (idx : ItemIndex) :
    (ofItem item).items idx = item := rfl

/-- There is one item only. -/
theorem eq_ofItem (obj : CryptoObject) : obj = ofItem (obj.items 0) := by
  cases obj with
  | mk items =>
    refine congrArg CryptoObject.mk (funext fun idx => ?_)
    rw [Subsingleton.elim idx 0]

@[simp] theorem setItem_ofItem (item item' : CryptoItem) (idx : ItemIndex) :
    (ofItem item).setItem idx item' = ofItem item' := by
  rw [eq_ofItem ((ofItem item).setItem idx item')]
  refine congrArg ofItem ?_
  rw [Subsingleton.elim 0 idx]
  exact Function.update_self _ _ _

@[simp] theorem firstIdx_ofItem (item : CryptoItem) (p : CryptoItem → Bool) :
    (ofItem item).firstIdx p = if p item = true then some 0 else none := by
  show [(0 : ItemIndex)].find? _ = _
  rw [List.find?_cons, ofItem_items]
  cases p item <;> rfl

@[simp] theorem primitiveAcceptable_ofItem :
    (ofItem item).PrimitiveAcceptable ↔ item.state = .invalid :=
  ⟨fun h => h.choose_spec, fun h => ⟨0, h⟩⟩

/-- **A primitive is submitted** when the item is invalid. -/
theorem submitItem_ofItem (h : item.state = .invalid) (item' : CryptoItem) :
    (ofItem item).submitItem item' = some (ofItem item', 0) := by
  unfold submitItem
  rw [firstIdx_ofItem, if_pos (decide_eq_true h)]
  simp

/-- The pending item is offered. -/
theorem peekGenerated_ofItem (item : CryptoItem) :
    (ofItem item).peekGeneratedPrimitive
      = (0, if item.state = .pending then item.prim else IoPrimitive.invalidObject) := by
  unfold peekGeneratedPrimitive
  rw [firstIdx_ofItem]
  by_cases h : item.state = .pending
  · rw [if_pos (decide_eq_true h), if_pos h]
    rfl
  · rw [if_neg fun hd => h (of_decide_eq_true hd), if_neg h]

/-- The completed item is offered. -/
theorem peekCompleted_ofItem (item : CryptoItem) :
    (ofItem item).peekCompletedPrimitive
      = if item.state = .complete then item.prim else IoPrimitive.invalidObject := by
  unfold peekCompletedPrimitive
  rw [firstIdx_ofItem]
  by_cases h : item.state = .complete
  · rw [if_pos (decide_eq_true h), if_pos h]
    rfl
  · rw [if_neg fun hd => h (of_decide_eq_true hd), if_neg h]

theorem dropGenerated_ofItem (h : item.state = .pending) :
    (ofItem item).dropGeneratedPrimitive idx
      = some (ofItem { item with state := .inProgress }) := by
  unfold dropGeneratedPrimitive
  rw [ofItem_items, if_neg (not_not.mpr h), setItem_ofItem]

theorem peekGeneratedKeyId_ofItem (h : item.state = .pending) :
    (ofItem item).peekGeneratedKeyId idx = some item.keyId := by
  unfold peekGeneratedKeyId
  rw [ofItem_items, if_neg (not_not.mpr h)]

theorem peekGeneratedKey_ofItem (h : item.state = .pending) :
    (ofItem item).peekGeneratedKey idx = some item.key := by
  unfold peekGeneratedKey
  rw [ofItem_items, if_neg (not_not.mpr h)]

theorem dropCompleted_ofItem (h : item.state = .complete) :
    (ofItem item).dropCompletedPrimitive = ofItem CryptoItem.invalidObject := by
  unfold dropCompletedPrimitive
  rw [firstIdx_ofItem, if_pos (decide_eq_true h)]
  exact setItem_ofItem _ _ _

/-- **An item in progress is completed.** -/
theorem markCompleted_ofItem (h : item.state = .inProgress) (success : Bool) :
    (ofItem item).markCompletedPrimitive idx success
      = some (ofItem { item with
          state := .complete, prim := { item.prim with success := success } }) := by
  unfold markCompletedPrimitive CryptoItem.markCompletedPrimitive
  rw [ofItem_items, if_neg (not_not.mpr h), Option.map_some, setItem_ofItem]

/-- An item is found by its own primitive. -/
theorem dataIndex_ofItem {prim : IoPrimitive} (h : item.prim.Equal prim) :
    (ofItem item).dataIndex prim = some 0 := by
  unfold dataIndex
  rw [firstIdx_ofItem, if_pos (decide_eq_true h)]

end CryptoObject

end Cbe
