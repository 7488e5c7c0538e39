import Cbe.CryptoService

/-!
# The front end at the side of the crypto module

The front end comes first in a round: the modules offer their primitives,
completed ones go back to the modules of the library, the client fetches the
data of its reads and supplies that of its writes. What this does to the job in
the crypto module is `Fronts`, what it does to the wait of the library is
`ScdWaits`.

When the client asks for data, `Execute_Crypto` has just taken all completed
primitives but reads (`CryptoWorld.Through`). This is why the filter of
`Client_Data_Ready` never lets the job of another module through, and why
neither the offers nor `Execute_Crypto` ever raise. What is left to raise is
what the crypto module does not decide: whether the pool still has the job of
the read, at the head of its queue, and whether the client has a place for the
data (`CryptoWorld.ReadRefused`); and for a write, whether the pool has its job
and the client its data (`CryptoWorld.WriteRefused`).

The crypto module has one item. So an offer is either refused, because the item
is in use, or starts the only job there is; and what completes is the job that
was offered last. Each part of the pass through the front end has one statement
of the form "the part does not raise, or raises in this case, and what it does
is this relation between the state before and after". They are put one after the
other in `Carries.handleFrontEnd`.

The relations also say how far the job has to go (`left`). No part of the front
end changes this for a job that is under way, and what was delivered only grows;
a job that is complete is either left or delivered.
-/

namespace Cbe

namespace CryptoWorld

open CryptoObject Service

variable {B : Type} {aes : Aes B} {w w' : CryptoWorld B} {s : Submission B} {item : CryptoItem}

/-! ## Offers

The modules of the library offer what they have for the crypto module, each at
its place in `Execute`. The idle module takes the first one. -/

/-- The crypto module takes nothing while it has an item. -/
theorem offer_busy (hc : w.crypto = ofItem item) (hst : item.state ≠ .invalid)
    (s : Submission B) : offer aes w s = some w := by
  unfold offer
  rw [hc, if_pos (mt primitiveAcceptable_ofItem.mp hst)]

/-- What a completed item is, after the library took back what it has a place for: a read of the
client. -/
def Through (w : CryptoWorld B) : Prop :=
  (w.crypto.items 0).state = .complete → (w.crypto.items 0).prim.tag = .poolVbd

/-- **What a part of the front end does**: it leaves a job that is not complete alone, and
only adds to what was delivered. -/
structure Fronts (aes : Aes B) (w w' : CryptoWorld B) : Prop where
  /-- The invariant is kept. -/
  carries : w'.Carries aes
  /-- A job that is under way is as far as it was. -/
  underway : 1 < w.left → w'.left = w.left
  /-- Not less was delivered. -/
  delivered : w.delivered.length ≤ w'.delivered.length

/-- Nothing happened. -/
theorem Fronts.refl (h : w.Carries aes) : Fronts aes w w := ⟨h, fun _ => rfl, le_rfl⟩

/-- Two parts one after the other. -/
theorem Fronts.trans {w'' : CryptoWorld B} (h : Fronts aes w w') (h' : Fronts aes w' w'') :
    Fronts aes w w'' where
  carries := h'.carries
  underway hlt := (h'.underway (by rw [h.underway hlt]; exact hlt)).trans (h.underway hlt)
  delivered := h.delivered.trans h'.delivered

/-- **What the idle module does with an offer**: it takes the job. -/
structure Takes (aes : Aes B) (w w' : CryptoWorld B) : Prop where
  /-- The invariant is kept. -/
  carries : w'.Carries aes
  /-- Nothing is complete but reads of the client. -/
  through : w'.Through
  /-- Nothing was delivered. -/
  delivered : w'.delivered = w.delivered
  /-- The library waits for what it waited for. -/
  wait : SameWait w w'

/-- A job that waits from now on is taken. -/
theorem Takes.of_waits (hc : w'.crypto = ofItem s.item) (hbuf : w'.Holds s)
    (hdevice : w'.device = w.device) (hdev : w.device.Idle)
    (haccepted : w'.accepted = w.accepted ++ [s]) (hdelivered : w'.delivered = w.delivered)
    (hwait : SameWait w w') (hist : w.History aes w.device.keys none) : Takes aes w w' where
  carries := by
    refine .waits s hc hbuf (hdevice ▸ hdev) ?_
    unfold History
    rw [haccepted, hdelivered, hdevice]
    exact hist.accept s
  through hst := by
    rw [hc, ofItem_items, s.item_state] at hst
    cases hst
  delivered := hdelivered
  wait := hwait

/-- An item is taken by the idle module. -/
theorem offer_idle (hc : w.crypto = ofItem CryptoItem.invalidObject) (hdev : w.device.Idle)
    (hist : w.History aes w.device.keys none) (s : Submission B) :
    ∃ w', offer aes w s = some w' ∧ Takes aes w w' := by
  have hinv : CryptoItem.invalidObject.state = .invalid := rfl
  have hacc : ¬ ¬ w.crypto.PrimitiveAcceptable := by
    rw [hc]
    exact not_not.mpr (primitiveAcceptable_ofItem.mpr hinv)
  have hsub : ∀ item, w.crypto.submitItem item = some (ofItem item, 0) := by
    intro item
    rw [hc]
    exact submitItem_ofItem hinv item
  have htakes : ∀ s (w' : CryptoWorld B), w'.crypto = ofItem s.item → w'.Holds s →
      w'.device = w.device → w'.accepted = w.accepted ++ [s] → w'.delivered = w.delivered →
      SameWait w w' → Takes aes w w' := fun _ _ hc' hbuf hdevice ha hd hw =>
    .of_waits hc' hbuf hdevice hdev ha hd hw hist
  unfold offer
  rw [if_neg hacc]
  -- every job waits from now on, but the read of a block that was never written
  cases s with
  | addKey idx key =>
    unfold submitPrimitiveKey
    dsimp only
    rw [hsub]
    exact ⟨_, rfl, htakes (.addKey idx key) _ rfl trivial rfl rfl rfl (.refl w)⟩
  | removeKey idx keyId =>
    unfold submitPrimitiveKeyId
    dsimp only
    rw [hsub]
    exact ⟨_, rfl, htakes (.removeKey idx keyId) _ rfl trivial rfl rfl rfl (.refl w)⟩
  | rekeyDecrypt idx pba keyId data =>
    unfold submitPrimitive
    dsimp only
    rw [hsub]
    have hbuf := Function.update_self 0 data w.cipherBuf
    exact ⟨_, rfl, htakes (.rekeyDecrypt idx pba keyId data) _ rfl ((holds_decrypt rfl).mpr hbuf)
      rfl rfl rfl (.refl w)⟩
  | rekeyEncrypt idx pba keyId data =>
    unfold submitPrimitive
    dsimp only
    rw [hsub]
    have hbuf := Function.update_self 0 data w.plainBuf
    exact ⟨_, rfl, htakes (.rekeyEncrypt idx pba keyId data) _ rfl ((holds_encrypt rfl).mpr hbuf)
      rfl rfl rfl (.refl w)⟩
  | read pool idx pba keyId data =>
    unfold submitPrimitive
    dsimp only
    rw [hsub]
    have hbuf := Function.update_self 0 data w.cipherBuf
    exact ⟨_, rfl, htakes (.read pool idx pba keyId data) _ rfl ((holds_decrypt rfl).mpr hbuf)
      rfl rfl rfl (.refl w)⟩
  | writeBack pool pba keyId data =>
    unfold submitPrimitive
    dsimp only
    rw [hsub]
    have hbuf := Function.update_self 0 data w.plainBuf
    exact ⟨_, rfl, htakes (.writeBack pool pba keyId data) _ rfl ((holds_encrypt rfl).mpr hbuf)
      rfl rfl rfl (.refl w)⟩
  | readInitial pool idx pba keyId =>
    unfold submitCompletedPrimitive
    dsimp only
    rw [hsub]
    refine ⟨_, rfl, .complete (.readInitial pool idx pba keyId) w.device.keys rfl hdev
      (hist.accept _) ?_, fun _ => rfl, rfl, .refl w⟩
    rw [answer_initial rfl, result_initial rfl]
    simp

/-- **An offer** never raises. -/
theorem Carries.offer (h : w.Carries aes) (s : Submission B) :
    ∃ w', offer aes w s = some w' ∧ Fronts aes w w' ∧ (w.Through → w'.Through)
      ∧ SameWait w w' ∧ (0 < w.left → w' = w) := by
  have hbusy : ∀ {item}, w.crypto = ofItem item → item.state ≠ .invalid →
      ∃ w', CryptoWorld.offer aes w s = some w' ∧ Fronts aes w w' ∧ (w.Through → w'.Through)
        ∧ SameWait w w' ∧ (0 < w.left → w' = w) := fun hc hst =>
    ⟨w, offer_busy hc hst s, Fronts.refl h, id, .refl w, fun _ => rfl⟩
  cases h with
  | idle hc hdev hist =>
    obtain ⟨w', hw, ht⟩ := offer_idle hc hdev hist s
    have hleft : w.left = 0 := left_invalid hc
    exact ⟨w', hw, ⟨ht.carries, fun hlt => by omega, by rw [ht.delivered]⟩, fun _ => ht.through,
      ht.wait, fun hlt => by omega⟩
  | waits s' hc _ _ _ =>
    refine hbusy hc ?_
    rw [s'.item_state]
    decide
  | isAtDevice s' hc _ _ _ => exact hbusy hc (by rintro ⟨⟩)
  | complete s' _ hc _ _ _ => exact hbusy hc (by rintro ⟨⟩)

/-- **Offers** never raise. -/
theorem Carries.offerAll (h : w.Carries aes) (l : List (Submission B)) :
    ∃ w', offerAll aes w l = some w' ∧ Fronts aes w w' ∧ (w.Through → w'.Through)
      ∧ SameWait w w' ∧ (0 < w.left → w' = w) := by
  induction l generalizing w with
  | nil => exact ⟨w, rfl, Fronts.refl h, id, .refl w, fun _ => rfl⟩
  | cons s l ih =>
    obtain ⟨w₁, h₁, hf₁, ht₁, hw₁, hs₁⟩ := h.offer s
    obtain ⟨w₂, h₂, hf₂, ht₂, hw₂, hs₂⟩ := ih hf₁.carries
    refine ⟨w₂, ?_, hf₁.trans hf₂, fun ht => ht₂ (ht₁ ht), hw₁.trans hw₂, fun hlt => ?_⟩
    · unfold CryptoWorld.offerAll
      rw [List.foldlM_cons, h₁]
      exact h₂
    · have he := hs₁ hlt
      subst he
      exact hs₂ hlt

/-! ## What the library takes back

`Execute_Crypto` loops over the completed primitives. With one item, the loop
ends after one round at most: the item that was given back is not complete any
more. -/

/-- Without a completed item there is nothing to give back. -/
theorem executeCryptoOnce_stop (hc : w.crypto = ofItem item) (hst : item.state ≠ .complete) :
    executeCryptoOnce w = some none := by
  unfold executeCryptoOnce
  rw [hc, peekCompleted_ofItem, if_neg hst]
  rfl

/-- The primitive that is handed back for a submission. -/
theorem peekCompleted_done (hc : w.crypto = ofItem s.item.done) :
    w.crypto.peekCompletedPrimitive = { s.prim with success := true } := by
  rw [hc, peekCompleted_ofItem, if_pos s.item.done_state, ← s.item_prim]
  rfl

/-- It is found by its own primitive. -/
theorem dataIndex_done (hc : w.crypto = ofItem s.item.done) :
    w.crypto.dataIndex { s.prim with success := true } = some 0 := by
  rw [hc]
  refine dataIndex_ofItem ?_
  rw [← s.item_prim]
  exact ⟨rfl, rfl, rfl, rfl, rfl⟩

/-- **A completed primitive** goes back to where it came from, and a read stays for the
client. -/
theorem executeCryptoOnce_done (hc : w.crypto = ofItem s.item.done) :
    executeCryptoOnce w = some (if s.client = .frontEnd then none
      else some (w.deliver s.client { s.prim with success := true } (w.result s))) := by
  have hidx := dataIndex_done hc
  unfold executeCryptoOnce
  rw [peekCompleted_done hc]
  dsimp only
  rw [hidx]
  cases s <;> rfl

/-- The module is idle after it. -/
theorem deliver_crypto (hc : w.crypto = ofItem s.item.done) (client : CryptoClient)
    (prim : IoPrimitive) (data : Option B) :
    (w.deliver client prim data).crypto = ofItem CryptoItem.invalidObject := by
  show w.crypto.dropCompletedPrimitive = _
  rw [hc]
  exact dropCompleted_ofItem rfl

/-- The history after a delivery. -/
theorem deliver_carries {keys : ExternalKeys} (hc : w.crypto = ofItem s.item.done)
    (hdev : w.device.Idle) (hist : w.History aes keys (some s))
    (ha : (cryptoService aes).answer keys s
      = some (s.delivery (w.result s), w.device.keys)) :
    (w.deliver s.client { s.prim with success := true } (w.result s)).Carries aes :=
  .idle (deliver_crypto hc _ _ _) hdev (hist.answer ha)

/-- Without a completed item there is nothing to ask. -/
theorem through_of_ne (h : (w.crypto.items 0).state ≠ .complete) : w.Through :=
  fun hst => absurd hst h

/-- **`Execute_Crypto`** never raises, and leaves no completed primitive but a read of the
client. -/
theorem Carries.executeCrypto (h : w.Carries aes) :
    ∃ w', executeCrypto w = some w' ∧ Fronts aes w w' ∧ w'.Through ∧ SameWait w w'
      ∧ (w.left = 1 → w' = w ∨ w.delivered.length < w'.delivered.length) := by
  have hstop : ∀ {item}, w.crypto = ofItem item → item.state ≠ .complete →
      ∃ w', CryptoWorld.executeCrypto w = some w' ∧ Fronts aes w w' ∧ w'.Through
        ∧ SameWait w w' ∧ (w.left = 1 → w' = w ∨ w.delivered.length < w'.delivered.length) :=
    fun hc hst => ⟨w, whileLoop_stop (executeCryptoOnce_stop hc hst) _, Fronts.refl h,
      through_of_ne (by rw [hc]; exact hst), .refl w, fun _ => Or.inl rfl⟩
  have hrefl := Fronts.refl h
  cases h with
  | idle hc _ _ => exact hstop hc (by decide)
  | waits s hc _ _ _ => exact hstop hc (by rw [s.item_state]; decide)
  | isAtDevice s hc _ _ _ => exact hstop hc (by rintro ⟨⟩)
  | complete s keys hc hdev hist ha =>
    have honce := executeCryptoOnce_done hc
    by_cases hclient : s.client = .frontEnd
    · rw [if_pos hclient] at honce
      refine ⟨w, whileLoop_stop honce _, hrefl, fun _ => ?_, .refl w, fun _ => Or.inl rfl⟩
      rw [hc]
      show s.item.prim.tag = _
      rw [s.item_prim]
      cases s <;> first | rfl | cases hclient
    · rw [if_neg hclient] at honce
      have hcar := deliver_carries hc hdev hist ha
      have hcd := deliver_crypto hc s.client { s.prim with success := true } (w.result s)
      have hleft : w.left = 1 := left_done hc
      have hlen : (w.deliver s.client { s.prim with success := true }
          (w.result s)).delivered.length = w.delivered.length + 1 := by
        unfold deliver
        rw [List.length_append]
        rfl
      refine ⟨_, whileLoop_once honce (executeCryptoOnce_stop hcd (by decide)) _,
        ⟨hcar, fun hlt => by omega, by omega⟩, through_of_ne (by rw [hcd]; decide), .refl w,
        fun _ => Or.inr (by omega)⟩

/-! ## The data of the reads

The client is told of a read that is complete, and fetches its data in a second
call. The library raises in the first one if the pool has no such job, and in
the second one if the pool has it somewhere else than at the head. Between the
two the library waits for the client (`Wait_For_Front_End`). -/

/-- What the library waits for does not concern the jobs. -/
theorem Carries.withWait (h : w.Carries aes) (wait : WaitForEvent) (scdActive : Bool) :
    ({ w with wait := wait, scdActive := scdActive } : CryptoWorld B).Carries aes := by
  cases h with
  | idle hc hdev hist => exact .idle hc hdev hist
  | waits s hc hbuf hdev hist => exact .waits s hc hbuf hdev hist
  | isAtDevice s hc hhas hdev hist => exact .isAtDevice s hc hhas hdev hist
  | complete s keys hc hdev hist ha => exact .complete s keys hc hdev hist ha

/-- As a part of the front end, a change of the wait does nothing. -/
theorem Carries.fronts_withWait (h : w.Carries aes) (wait : WaitForEvent) (scdActive : Bool) :
    Fronts aes w { w with wait := wait, scdActive := scdActive } :=
  ⟨h.withWait wait scdActive, fun _ => rfl, le_rfl⟩

/-- **The data that was supplied is waited for.** This is why `Supply_Client_Data` never finds
`Execute_SCD` at work on the data of another write. -/
def ScdWaits (w : CryptoWorld B) : Prop :=
  w.scdActive = true → w.wait.prim.valid = true ∧ w.wait.event ≠ .obtainClientData

/-- A wait for the data of a read begins only when the library waits for nothing. -/
theorem ScdWaits.not_active (h : w.ScdWaits) (hw : w.wait.prim.valid ≠ true) :
    w.scdActive = false :=
  Bool.eq_false_iff.mpr fun hs => hw (h hs).1

/-- Without a completed primitive there is no data. -/
theorem clientDataReady_stop (hc : w.crypto = ofItem item) (hst : item.state ≠ .complete)
    (pool : RequestPool) :
    w.clientDataReady pool = some (Request.invalidObject, w) := by
  unfold clientDataReady
  rw [hc, peekCompleted_ofItem, if_neg hst]
  by_cases hw : w.wait.prim.valid = true
  · rw [if_pos hw]
  · rw [if_neg hw]
    rfl

/-- While the library waits for something else there is no data. -/
theorem clientDataReady_busy (h : w.wait.prim.valid = true) (pool : RequestPool) :
    w.clientDataReady pool = some (Request.invalidObject, w) := if_pos h

/-- Nothing is fetched when there is nothing to fetch. -/
theorem handleReadData_stop {pass : Pass B}
    (h : w.clientDataReady pass.pool = some (Request.invalidObject, w)) :
    w.handleReadData pass = some (true, w, pass.pool) := by
  unfold handleReadData
  rw [h]
  rfl

/-- A read of the client that is complete is announced, if the pool has its job. -/
theorem clientDataReady_read {slot : PoolIndex} (hw : w.wait.prim.valid ≠ true)
    (hc : w.crypto = ofItem s.item.done) (hclient : s.client = .frontEnd)
    (hslot : s.prim.poolIdxSlot = some slot) (pool : RequestPool) :
    w.clientDataReady pool = (pool.requestForIndex slot).map fun req =>
      (req, { w with
        wait := { req := req, prim := { s.prim with success := true }
                  event := .obtainClientData } }) := by
  unfold clientDataReady startWaitingForFrontEnd
  rw [if_neg hw, peekCompleted_done hc]
  cases s with
  | readInitial pool' idx pba keyId =>
    obtain rfl := Option.some.inj hslot
    exact Option.map_map _ _ _
  | read pool' idx pba keyId data =>
    obtain rfl := Option.some.inj hslot
    exact Option.map_map _ _ _
  | _ => cases hclient

/-- The index of a read is not the one that the client takes for an error: it has 32 bits. -/
theorem index_lt (s : Submission B) : s.prim.index < 2 ^ 32 := by
  cases s with
  | addKey idx | removeKey idx | rekeyDecrypt idx | rekeyEncrypt idx => exact idx.isLt
  | readInitial _ idx | read _ idx => exact idx.isLt
  | writeBack => exact Nat.two_pow_pos 32

/-- A read that the pool has at the head of its queue and in progress. -/
def InProgressAtHead (pool : RequestPool) (slot : PoolIndex) : Prop :=
  pool.indices.headItem = some slot ∧ (pool.jobs slot).state = .inProgress

/-- The pool takes the completion of a read if and only if it has the read at the head of its
queue and in progress. -/
theorem markComplete_eq_none_iff {pool : RequestPool} {slot : PoolIndex} (success : Bool)
    (hread : (pool.jobs slot).req.operation = .read) :
    pool.markGeneratedPrimitiveComplete slot success = none ↔ ¬ InProgressAtHead pool slot := by
  unfold RequestPool.markGeneratedPrimitiveComplete InProgressAtHead
  dsimp only
  by_cases hhead : pool.indices.headItem = some slot
  · rw [if_neg (not_not.mpr hhead), hread]
    by_cases hst : (pool.jobs slot).state = .inProgress
    · rw [hst]
      refine iff_of_false ?_ (not_not.mpr ⟨hhead, rfl⟩)
      dsimp only
      -- the head of the queue can leave it
      obtain ⟨l, hl⟩ : ∃ l, pool.indices.items = slot :: l := by
        rw [IndexQueue.headItem_eq] at hhead
        exact List.head?_eq_some_iff.mp hhead
      obtain ⟨q, hq, -⟩ := IndexQueue.dequeue_spec hl
      split_ifs
      · exact not_false
      · unfold RequestPool.dequeue
        rw [RequestPool.setJob_indices, hq]
        exact Option.some_ne_none _
    · refine iff_of_true ?_ fun h => hst h.2
      cases hs : (pool.jobs slot).state <;> first | exact absurd hs hst | rfl
  · rw [if_pos hhead]
    exact iff_of_true rfl fun h => hhead h.1

/-- **The client fetches the data** of its read, if the pool takes the completion. -/
theorem obtainClientData_read {slot : PoolIndex} (hc : w.crypto = ofItem s.item.done)
    (hslot : s.prim.poolIdxSlot = some slot) (pool : RequestPool) (req : Request) :
    obtainClientData { w with
        wait := { req := req, prim := { s.prim with success := true }
                  event := .obtainClientData } } pool req
      = (pool.markGeneratedPrimitiveComplete slot true).map fun pool =>
          ({ w.deliver .frontEnd { s.prim with success := true } (some (w.plainBuf 0)) with
              wait := WaitForEvent.invalid }, pool) := by
  unfold obtainClientData FrontEndBusyWithOtherRequest
  rw [if_neg fun h => h.elim (fun hne => hne ⟨rfl, rfl, rfl⟩) fun hne => hne rfl]
  dsimp only
  rw [dataIndex_done hc, hslot]
  rfl

/-- The request of the pool is a read where it belongs to a read that is complete. -/
def Expects (w : CryptoWorld B) (pool : RequestPool) : Prop :=
  (w.crypto.items 0).prim.operation = .read →
    ∀ slot, (w.crypto.items 0).prim.poolIdxSlot = some slot →
      (pool.jobs slot).req.valid = true ∧ (pool.jobs slot).req.operation = .read

/-- **The data of a read cannot be handed out**: there is some, and the library does not wait for
anything else, but the pool has no job for it (`Request_For_Index`), or it has one that it does
not want to be completed, or the client has no place for the data. -/
def ReadRefused (w : CryptoWorld B) (pass : Pass B) : Prop :=
  w.wait.prim.valid = false ∧ ∃ slot,
    let prim := w.crypto.peekCompletedPrimitive
    let job := pass.pool.jobs slot
    prim.valid = true ∧ prim.operation = .read ∧ prim.poolIdxSlot = some slot
      ∧ (job.state = .invalid ∨ job.req.valid = true ∧ job.req.operation = .read
        ∧ ¬ (HasBuffer pass.client.helperRead pass.client.frontEnd job.req prim.index
          ∧ InProgressAtHead pass.pool slot))

/-- A primitive with the tag of the pool is a read of the client. -/
theorem client_of_tag (h : s.prim.tag = .poolVbd) :
    s.client = .frontEnd ∧ ∃ slot, s.prim.poolIdxSlot = some slot := by
  cases s with
  | readInitial pool | read pool => exact ⟨rfl, pool, rfl⟩
  | _ => cases h

/-- What the client gets is the plaintext in the buffer. -/
theorem result_read (h : s.client = .frontEnd) : w.result s = some (w.plainBuf 0) := by
  cases s with
  | readInitial pool idx pba keyId => exact result_initial rfl
  | read pool idx pba keyId data => exact result_decrypt rfl
  | _ => cases h

/-- The state after the client fetched the data of its read. -/
def afterRead (w : CryptoWorld B) (s : Submission B) : CryptoWorld B :=
  { w.deliver .frontEnd { s.prim with success := true } (some (w.plainBuf 0)) with
    wait := WaitForEvent.invalid }

/-- One job more was delivered. -/
theorem length_afterRead (w : CryptoWorld B) (s : Submission B) :
    (w.afterRead s).delivered.length = w.delivered.length + 1 := by
  unfold afterRead deliver
  rw [List.length_append]
  rfl

/-- The history after the client fetched its data. -/
theorem afterRead_carries {keys : ExternalKeys} (hc : w.crypto = ofItem s.item.done)
    (hclient : s.client = .frontEnd) (hdev : w.device.Idle)
    (hist : w.History aes keys (some s))
    (ha : (cryptoService aes).answer keys s
      = some (s.delivery (w.result s), w.device.keys)) : (w.afterRead s).Carries aes := by
  have hcar := deliver_carries hc hdev hist ha
  rw [hclient, result_read hclient] at hcar
  exact hcar.withWait _ _

/-- What the client asks of the crypto module is a read. -/
theorem operation_of_client (h : s.client = .frontEnd) : s.prim.operation = .read := by
  cases s with
  | readInitial | read => rfl
  | _ => cases h

/-- What it takes to refuse the data of a read that is complete. -/
theorem readRefused_iff {slot : PoolIndex} (hc : w.crypto = ofItem s.item.done)
    (hclient : s.client = .frontEnd) (hslot : s.prim.poolIdxSlot = some slot)
    (hw : w.wait.prim.valid = false) (pass : Pass B) :
    w.ReadRefused pass ↔ (pass.pool.jobs slot).state = .invalid
      ∨ (pass.pool.jobs slot).req.valid = true ∧ (pass.pool.jobs slot).req.operation = .read
        ∧ ¬ (HasBuffer pass.client.helperRead pass.client.frontEnd (pass.pool.jobs slot).req
            s.prim.index ∧ InProgressAtHead pass.pool slot) := by
  have hvalid : s.prim.valid = true := by
    cases s <;> rfl
  unfold ReadRefused
  dsimp only
  rw [peekCompleted_done hc]
  constructor
  · rintro ⟨-, slot', -, -, hslot', h⟩
    obtain rfl := Option.some.inj (hslot.symm.trans hslot')
    exact h
  · exact fun h => ⟨hw, slot, hvalid, operation_of_client hclient, hslot, h⟩

/-- **What fetching the data of a read does**, when it does not raise. -/
structure ReadsData (aes : Aes B) (pass : Pass B) (w w' : CryptoWorld B) : Prop where
  /-- The data was not refused. -/
  accepted : ¬ w.ReadRefused pass
  /-- The job is left alone, or delivered. -/
  fronts : Fronts aes w w'
  /-- The data that was supplied is still waited for. -/
  scdWaits : w'.ScdWaits
  /-- A read that the pool expects is delivered, unless the library waits. -/
  delivered : w.left = 1 → w.wait.prim.valid = false → w.Expects pass.pool →
    w.delivered.length < w'.delivered.length

/-- There is nothing to fetch. -/
theorem ReadsData.stop (h : w.Carries aes) (hscd : w.ScdWaits) {pass : Pass B}
    (hrefused : ¬ w.ReadRefused pass) (hleft : w.left ≠ 1 ∨ w.wait.prim.valid = true) :
    ReadsData aes pass w w :=
  ⟨hrefused, Fronts.refl h, hscd, fun hone hfree _ => absurd hleft
    (by rw [not_or]; exact ⟨not_not.mpr hone, by rw [hfree]; decide⟩)⟩

/-- **A read that is complete** is fetched, unless the library waits for something else. The
front end raises where `ReadRefused` says so, and nowhere else. -/
theorem handleReadData_complete {keys : ExternalKeys} (h : w.Carries aes) (hscd : w.ScdWaits)
    (hc : w.crypto = ofItem s.item.done) (htag : s.prim.tag = .poolVbd) (hdev : w.device.Idle)
    (hist : w.History aes keys (some s))
    (ha : (cryptoService aes).answer keys s = some (s.delivery (w.result s), w.device.keys))
    (pass : Pass B) :
    w.handleReadData pass = none ∧ w.ReadRefused pass
      ∨ ∃ w' pool, w.handleReadData pass = some (true, w', pool) ∧ ReadsData aes pass w w' := by
  obtain ⟨hclient, slot, hslot⟩ := client_of_tag htag
  by_cases hw : w.wait.prim.valid = true
  · refine Or.inr ⟨w, _, handleReadData_stop (clientDataReady_busy hw _),
      .stop h hscd (fun hr => ?_) (Or.inr hw)⟩
    exact absurd (hw.symm.trans hr.1) (by decide)
  have hleft : w.left = 1 := left_done hc
  have hactive := hscd.not_active hw
  have hrefused := readRefused_iff hc hclient hslot (Bool.eq_false_iff.mpr hw) pass
  unfold handleReadData
  rw [clientDataReady_read hw hc hclient hslot]
  unfold RequestPool.requestForIndex
  by_cases hinv : (pass.pool.jobs slot).state = .invalid
  · rw [if_pos hinv]
    exact Or.inl ⟨rfl, hrefused.mpr (Or.inl hinv)⟩
  rw [if_neg hinv, Option.map_some, Option.bind_some]
  dsimp only
  by_cases hreq : (pass.pool.jobs slot).req.valid = true
      ∧ (pass.pool.jobs slot).req.operation = .read
  · have hindex : clientDataIndex { w with
          wait :=
            { req := (pass.pool.jobs slot).req, prim := { s.prim with success := true }
              event := .obtainClientData } } (pass.pool.jobs slot).req = s.prim.index :=
      if_neg (not_not.mpr ⟨rfl, rfl, rfl⟩)
    have hlt := index_lt s
    rw [if_pos hreq, hindex, if_neg (by omega), obtainClientData_read hc hslot]
    by_cases hbuf : HasBuffer pass.client.helperRead pass.client.frontEnd
        (pass.pool.jobs slot).req s.prim.index
    · rw [if_pos hbuf]
      cases hmark : pass.pool.markGeneratedPrimitiveComplete slot true with
      | none =>
        have hnot := (markComplete_eq_none_iff true hreq.2).mp hmark
        exact Or.inl ⟨rfl, hrefused.mpr (Or.inr ⟨hreq.1, hreq.2, fun hb => hnot hb.2⟩)⟩
      | some pool =>
        have hhead : InProgressAtHead pass.pool slot := by
          by_contra hnot
          have hnone := (markComplete_eq_none_iff true hreq.2).mpr hnot
          exact absurd (hmark.symm.trans hnone) (by simp)
        have hlen := length_afterRead w s
        refine Or.inr ⟨w.afterRead s, pool, rfl, ?_, ?_, ?_, fun _ _ _ => by omega⟩
        · rw [hrefused]
          rintro (hi | ⟨-, -, hb⟩)
          · exact hinv hi
          · exact hb ⟨hbuf, hhead⟩
        · exact ⟨afterRead_carries hc hclient hdev hist ha, fun hgt => by omega, by omega⟩
        · exact fun hs => absurd (hactive.symm.trans hs) (by decide)
    · rw [if_neg hbuf]
      exact Or.inl ⟨rfl, hrefused.mpr (Or.inr ⟨hreq.1, hreq.2, fun hb => hbuf hb.1⟩)⟩
  · rw [if_neg hreq]
    refine Or.inr ⟨_, _, rfl, ?_, h.fronts_withWait _ _, ?_,
      fun _ _ he => absurd (he ?_ slot ?_) hreq⟩
    · rw [hrefused]
      rintro (hi | ⟨hv, hop, -⟩)
      · exact hinv hi
      · exact hreq ⟨hv, hop⟩
    · exact fun hs => absurd (hactive.symm.trans hs) (by decide)
    · rw [hc, ← operation_of_client hclient, ← s.item_prim]
      rfl
    · rw [hc, ← hslot, ← s.item_prim]
      rfl

/-- **The front end fetches the data** of a read that is complete, unless the library waits for
something else, and raises if and only if that read is refused. -/
theorem Carries.handleReadData (h : w.Carries aes) (hthrough : w.Through) (hscd : w.ScdWaits)
    (pass : Pass B) :
    w.handleReadData pass = none ∧ w.ReadRefused pass
      ∨ ∃ w' pool, w.handleReadData pass = some (true, w', pool) ∧ ReadsData aes pass w w' := by
  have hstop : ∀ {item}, w.crypto = ofItem item → item.state ≠ .complete → w.left ≠ 1 →
      w.handleReadData pass = none ∧ w.ReadRefused pass
        ∨ ∃ w' pool, w.handleReadData pass = some (true, w', pool)
          ∧ ReadsData aes pass w w' := by
    intro item hc hst hleft
    refine Or.inr ⟨w, _, handleReadData_stop (clientDataReady_stop hc hst _),
      .stop h hscd ?_ (Or.inl hleft)⟩
    rintro ⟨-, slot, hv, -⟩
    rw [hc, peekCompleted_ofItem, if_neg hst] at hv
    cases hv
  have h' := h
  cases h with
  | idle hc _ _ => exact hstop hc (by decide) (by rw [left_invalid hc]; decide)
  | waits s hc _ _ _ =>
    exact hstop hc (by rw [s.item_state]; decide) (by rw [left_pending hc]; decide)
  | isAtDevice s hc _ _ _ => exact hstop hc (by rintro ⟨⟩) (by rw [left_inProgress hc]; decide)
  | complete s keys hc hdev hist ha =>
    have htag : s.prim.tag = .poolVbd := by
      have ht := hthrough (by rw [hc]; rfl)
      rw [hc] at ht
      rw [← s.item_prim]
      exact ht
    exact handleReadData_complete h' hscd hc htag hdev hist ha pass

/-! ## The data of the writes

The same for the writes: the client is told that a write needs its data, and
supplies it in a second call. -/

/-- **The data of a write cannot be asked for**: a write waits for it, and the library does not
wait for anything else, but the pool has no job for it, or the client has no such data. -/
def WriteRefused (w : CryptoWorld B) (pass : Pass B) (pool : RequestPool) : Prop :=
  w.wait.prim.valid = false ∧ pass.required.prim.valid = true
    ∧ ∀ slot, pass.required.prim.poolIdxSlot = some slot →
      (pool.jobs slot).state = .invalid
        ∨ (pool.jobs slot).req.valid = true ∧ (pool.jobs slot).req.operation = .write
          ∧ pass.required.prim.index ≠ 2 ^ 64 - 1
          ∧ ¬ HasBuffer pass.client.helperWrite pass.client.frontEnd (pool.jobs slot).req
            pass.required.prim.index

/-- **What supplying the data of a write does**, when it does not raise. -/
structure WritesData (aes : Aes B) (pass : Pass B) (pool : RequestPool) (w w' : CryptoWorld B) :
    Prop where
  /-- The data was not refused. -/
  accepted : ¬ w.WriteRefused pass pool
  /-- The job is left alone. -/
  fronts : Fronts aes w w'
  /-- The data that was supplied is waited for. -/
  scdWaits : w'.ScdWaits

/-- Data of a write is not waited for as that of a read. -/
theorem RequiredData.event_ne (required : RequiredData) : required.event ≠ .obtainClientData := by
  unfold RequiredData.event
  cases required.afterFt <;> decide

/-- **The front end supplies the data** of a write, and raises if and only if that write is
refused. `Supply_Client_Data` itself does not, because data is worked on only while the library
waits (`ScdWaits`). -/
theorem Carries.handleWriteData (h : w.Carries aes) (hscd : w.ScdWaits) (pass : Pass B)
    (pool : RequestPool) :
    w.handleWriteData pass pool = none ∧ w.WriteRefused pass pool
      ∨ ∃ w', w.handleWriteData pass pool = some w' ∧ WritesData aes pass pool w w' := by
  unfold CryptoWorld.handleWriteData clientDataRequired
  by_cases hw : w.wait.prim.valid = true ∨ pass.required.prim.valid = false
  · rw [if_pos hw]
    refine Or.inr ⟨w, rfl, fun hr => ?_, Fronts.refl h, hscd⟩
    rcases hw with hw | hw
    · exact absurd (hw.symm.trans hr.1) (by decide)
    · exact absurd (hw.symm.trans hr.2.1) (by decide)
  rw [if_neg hw]
  rw [not_or] at hw
  have hfree := Bool.eq_false_iff.mpr hw.1
  have hvalid := Bool.eq_true_of_not_eq_false hw.2
  have hactive := hscd.not_active hw.1
  unfold startWaitingForFrontEnd
  cases hslot : pass.required.prim.poolIdxSlot with
  | none => exact Or.inl ⟨rfl, hfree, hvalid, fun slot hs => absurd (hslot.symm.trans hs) (by simp)⟩
  | some slot =>
    have hrefused : w.WriteRefused pass pool ↔ (pool.jobs slot).state = .invalid
        ∨ (pool.jobs slot).req.valid = true ∧ (pool.jobs slot).req.operation = .write
          ∧ pass.required.prim.index ≠ 2 ^ 64 - 1
          ∧ ¬ HasBuffer pass.client.helperWrite pass.client.frontEnd (pool.jobs slot).req
            pass.required.prim.index := by
      refine ⟨fun hr => hr.2.2 slot hslot, fun hr => ⟨hfree, hvalid, fun slot' hs => ?_⟩⟩
      obtain rfl := Option.some.inj (hslot.symm.trans hs)
      exact hr
    rw [Option.bind_some]
    unfold RequestPool.requestForIndex
    by_cases hinv : (pool.jobs slot).state = .invalid
    · rw [if_pos hinv]
      exact Or.inl ⟨rfl, hrefused.mpr (Or.inl hinv)⟩
    rw [if_neg hinv, Option.map_some, Option.map_some, Option.bind_some]
    dsimp only
    have hindex : clientDataIndex { w with
          wait :=
            { req := (pool.jobs slot).req, prim := pass.required.prim
              event := pass.required.event } } (pool.jobs slot).req = pass.required.prim.index :=
      if_neg (not_not.mpr ⟨rfl, rfl, rfl⟩)
    rw [hindex]
    -- the data is not worked on until it is supplied
    have hwaits : ScdWaits { w with
        wait :=
          { req := (pool.jobs slot).req, prim := pass.required.prim
            event := pass.required.event } } :=
      fun hs => absurd (hactive.symm.trans hs) (by decide)
    split_ifs with hreq hlast hbuf
    · refine Or.inr ⟨_, rfl, ?_, h.fronts_withWait _ _, hwaits⟩
      rw [hrefused]
      rintro (hi | ⟨-, -, hne, -⟩)
      · exact hinv hi
      · exact hne hlast
    · unfold supplyClientData
      rw [if_neg (by rw [hactive]; decide)]
      refine Or.inr ⟨_, rfl, ?_, h.fronts_withWait _ _,
        fun _ => ⟨hvalid, pass.required.event_ne⟩⟩
      rw [hrefused]
      rintro (hi | ⟨-, -, -, hnot⟩)
      · exact hinv hi
      · exact hnot hbuf
    · exact Or.inl ⟨rfl, hrefused.mpr (Or.inr ⟨hreq.1, hreq.2, hlast, hbuf⟩)⟩
    · refine Or.inr ⟨_, rfl, ?_, h.fronts_withWait _ _, hwaits⟩
      rw [hrefused]
      rintro (hi | ⟨hv, hop, -⟩)
      · exact hinv hi
      · exact hreq ⟨hv, hop⟩

/-! ## A pass through the front end

All parts in the order of the source. -/

/-- A step of `Execute_SCD` does not touch the job. -/
theorem Carries.executeScd (h : w.Carries aes) (step : ScdStep) :
    Fronts aes w (w.executeScd step) ∧ (w.executeScd step).left = w.left
      ∧ (w.executeScd step).crypto = w.crypto
      ∧ (w.executeScd step).delivered = w.delivered := by
  unfold CryptoWorld.executeScd
  cases step with
  | stays => exact ⟨Fronts.refl h, rfl, rfl, rfl⟩
  | ends =>
    dsimp only
    split_ifs
    · exact ⟨h.fronts_withWait _ _, rfl, rfl, rfl⟩
    · exact ⟨Fronts.refl h, rfl, rfl, rfl⟩
  | givesUp => exact ⟨h.fronts_withWait w.wait false, rfl, rfl, rfl⟩

/-- Nor does it start to work on other data. -/
theorem ScdWaits.executeScd (h : w.ScdWaits) (step : ScdStep) : (w.executeScd step).ScdWaits := by
  unfold CryptoWorld.executeScd
  cases step with
  | stays => exact h
  | ends =>
    dsimp only
    split_ifs
    · exact fun hs => absurd hs Bool.false_ne_true
    · exact h
  | givesUp => exact fun hs => absurd hs Bool.false_ne_true

instance (w : CryptoWorld B) (pool : RequestPool) : Decidable (w.Expects pool) :=
  inferInstanceAs (Decidable (_ → ∀ slot : PoolIndex, _ = some slot → _ ∧ _))

/-- **A round in which the client gets what is complete**: it calls the library, which does not
wait for anything when it is asked for the data of a read, and the pool has the request of that
read. -/
def Attentive (w : CryptoWorld B) : Option (Pass B) → Prop
  | none => False
  | some pass => (w.executeScd pass.scd).wait.prim.valid = false ∧ w.Expects pass.pool

instance (w : CryptoWorld B) : DecidablePred w.Attentive
  | none => isFalse id
  | some _ => inferInstanceAs (Decidable (_ ∧ _))

/-- **What `Execute` does** with the crypto module: it leaves a job that is under way alone, and
takes back a job that it has a place for. -/
structure Executes (aes : Aes B) (pass : Pass B) (w w' : CryptoWorld B) : Prop where
  /-- The job is left alone, or delivered. -/
  fronts : Fronts aes w w'
  /-- Nothing is complete any more but reads of the client. -/
  through : w'.Through
  /-- The library waits for what `Execute_SCD` makes it wait for. -/
  wait : SameWait (w.executeScd pass.scd) w'
  /-- A job that is complete was taken back, or is as before. -/
  complete : w.left = 1 →
    w.delivered.length < w'.delivered.length ∨ w' = w.executeScd pass.scd

/-- The wait is as it was. -/
theorem Executes.scdWaits {pass : Pass B} (h : Executes aes pass w w') (hscd : w.ScdWaits) :
    w'.ScdWaits := by
  unfold ScdWaits
  rw [h.wait.1, h.wait.2]
  exact hscd.executeScd pass.scd

/-- **`Execute` never raises**, as far as it reaches the crypto module. -/
theorem Carries.execute (h : w.Carries aes) (pass : Pass B) :
    ∃ w', w.execute aes pass = some w' ∧ Executes aes pass w w' := by
  obtain ⟨hf₀, hleft₀, -, hdel₀⟩ := h.executeScd pass.scd
  obtain ⟨w₁, h₁, hf₁, -, hw₁, hs₁⟩ := hf₀.carries.offerAll pass.before
  obtain ⟨w₂, h₂, hf₂, ht₂, hw₂, hd₂⟩ := hf₁.carries.executeCrypto
  obtain ⟨w₃, h₃, hf₃, ht₃, hw₃, hs₃⟩ := hf₂.carries.offerAll pass.after
  refine ⟨w₃, ?_, ((hf₀.trans hf₁).trans hf₂).trans hf₃, ht₃ ht₂,
    (hw₁.trans hw₂).trans hw₃, fun hleft => ?_⟩
  · unfold CryptoWorld.execute
    rw [h₁, Option.bind_some, h₂, Option.bind_some, h₃]
  · rw [← hdel₀]
    -- nothing is taken while the job is there
    have he₁ : w₁ = w.executeScd pass.scd := hs₁ (by omega)
    subst he₁
    obtain rfl | hlt := hd₂ (by omega)
    · exact Or.inr (hs₃ (by omega))
    · exact Or.inl (hlt.trans_le hf₃.delivered)

/-- **The front end raises**: the data of a read cannot be handed out after `Execute`, or the
data of a write cannot be asked for after that. -/
def FrontEndRefused (aes : Aes B) (w : CryptoWorld B) (pass : Pass B) : Prop :=
  ∃ w₁, w.execute aes pass = some w₁ ∧ (w₁.ReadRefused pass
    ∨ ∃ w₂ pool, w₁.handleReadData pass = some (true, w₂, pool) ∧ w₂.WriteRefused pass pool)

/-- **What the front end does**, when it does not raise. -/
structure HandlesFrontEnd (aes : Aes B) (pass : Pass B) (w w' : CryptoWorld B) : Prop where
  /-- Neither of the two was refused. -/
  accepted : ¬ w.FrontEndRefused aes pass
  /-- The job is left alone, or delivered. -/
  fronts : Fronts aes w w'
  /-- The data that was supplied is waited for. -/
  scdWaits : w'.ScdWaits
  /-- A complete job of an attentive client is delivered. -/
  delivered : w.left = 1 → w.Attentive (some pass) → w.delivered.length < w'.delivered.length

/-- **The front end** raises if and only if it is refused the data of a read or of a write.
Otherwise it leaves a job that is under way alone, and takes back a job that is complete. -/
theorem Carries.handleFrontEnd (h : w.Carries aes) (hscd : w.ScdWaits) (pass : Pass B) :
    w.handleFrontEnd aes pass = none ∧ w.FrontEndRefused aes pass
      ∨ ∃ w', w.handleFrontEnd aes pass = some w' ∧ HandlesFrontEnd aes pass w w' := by
  obtain ⟨-, hleft₀, hcr₀, hdel₀⟩ := h.executeScd pass.scd
  obtain ⟨w₁, h₁, hx⟩ := h.execute pass
  unfold CryptoWorld.handleFrontEnd
  rw [h₁, Option.bind_some]
  obtain ⟨hnone, hr⟩ | ⟨w₂, pool, h₂, hread⟩ :=
    hx.fronts.carries.handleReadData hx.through (hx.scdWaits hscd) pass
  · rw [hnone]
    exact Or.inl ⟨rfl, w₁, h₁, Or.inl hr⟩
  rw [h₂, Option.bind_some, if_pos rfl]
  obtain ⟨hnone, hr⟩ | ⟨w₃, h₃, hwrite⟩ :=
    hread.fronts.carries.handleWriteData hread.scdWaits pass pool
  · exact Or.inl ⟨hnone, w₁, h₁, Or.inr ⟨w₂, pool, h₂, hr⟩⟩
  refine Or.inr ⟨w₃, h₃, ?_, (hx.fronts.trans hread.fronts).trans hwrite.fronts,
    hwrite.scdWaits, fun hleft hatt => ?_⟩
  · rintro ⟨w₁', h₁', hr⟩
    obtain rfl := Option.some.inj (h₁.symm.trans h₁')
    rcases hr with hr | ⟨w₂', pool', h₂', hr⟩
    · exact hread.accepted hr
    · obtain ⟨-, heq⟩ := Prod.mk.inj (Option.some.inj (h₂.symm.trans h₂'))
      obtain ⟨rfl, rfl⟩ := Prod.mk.inj heq
      exact hwrite.accepted hr
  · obtain ⟨hfree, hexp⟩ := hatt
    obtain hlt | heq := hx.complete hleft
    · exact hlt.trans_le (hread.fronts.delivered.trans hwrite.fronts.delivered)
    · rw [← heq] at hfree hleft₀ hcr₀ hdel₀
      rw [← hdel₀]
      refine (hread.delivered (hleft₀.trans hleft) hfree ?_).trans_le hwrite.fronts.delivered
      intro hop slot hslot
      rw [hcr₀] at hop hslot
      exact hexp hop slot hslot

/-- The front end of a round, if it does not raise. -/
structure PassesFrontEnd (aes : Aes B) (pass : Option (Pass B)) (w w' : CryptoWorld B) : Prop where
  /-- Nothing was refused. -/
  accepted : ∀ p, pass = some p → ¬ w.FrontEndRefused aes p
  /-- The job is left alone, or delivered. -/
  fronts : Fronts aes w w'
  /-- The data that was supplied is waited for. -/
  scdWaits : w'.ScdWaits
  /-- A complete job of an attentive client is delivered. -/
  delivered : w.left = 1 → w.Attentive pass → w.delivered.length < w'.delivered.length

/-- **The front end of a round**, in which the client may not call at all. -/
theorem Carries.frontEnd (h : w.Carries aes) (hscd : w.ScdWaits) (pass : Option (Pass B)) :
    w.frontEnd aes pass = none ∧ (∃ p, pass = some p ∧ w.FrontEndRefused aes p)
      ∨ ∃ w', w.frontEnd aes pass = some w' ∧ PassesFrontEnd aes pass w w' := by
  cases pass with
  | none =>
    exact Or.inr ⟨w, rfl, fun _ hp => absurd hp (by simp), Fronts.refl h, hscd,
      fun _ hatt => hatt.elim⟩
  | some pass =>
    obtain ⟨hnone, hr⟩ | ⟨w', hw', hh⟩ := h.handleFrontEnd hscd pass
    · exact Or.inl ⟨hnone, pass, rfl, hr⟩
    · refine Or.inr ⟨w', hw', fun p hp => ?_, hh.fronts, hh.scdWaits, hh.delivered⟩
      obtain rfl := Option.some.inj hp
      exact hh.accepted

end CryptoWorld

end Cbe
