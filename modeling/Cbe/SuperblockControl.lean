import Cbe.Snapshots

/-!
# Superblock control

The jobs that change the superblock and secure it. Each of the seven is an
asynchronous state machine: it prepares the superblock, hands primitives to
other modules, waits until they are marked complete and goes on. All of them
end with the same chain – encrypt the keys, synchronize the cache, write the
superblock, synchronize the block device, let the trust anchor secure the
hash – so the chain is one definition (`executeSecuringChain`) and each job
keeps its own preparation.

A state `X_Pending`, `X_In_Progress` or `X_Completed` of the source is
`JobState.pending`, `.inProgress` or `.primCompleted` applied to the
primitive `X`. An `Option` is `none` where the source raises.
-/

namespace Cbe

/-- `Init_SB_Ciphertext_Without_Key_Values`: everything but the values of the
two keys. `Init_SB_Plaintext_Without_Key_Values` copies the same fields the
other way. -/
def initSbWithoutKeyValues (sb : Superblock) : Superblock :=
  { sb with
    previousKey := { sb.previousKey with value := 0 }
    currentKey := { sb.currentKey with value := 0 } }

/-- **What the superblock-control jobs work on**: the superblock in memory,
the slot the next superblock goes to and the current generation. -/
structure Control where
  /-- The superblock in memory. -/
  sb : Superblock
  /-- The slot that the next superblock goes to. -/
  sbIdx : SuperblocksIndex
  /-- The generation that it gets. -/
  currGen : ℕ

/-- The jobs that secure a superblock. -/
inductive Operation where
  | sync
  | createSnapshot
  | discardSnapshot
  | initializeRekeying
  | rekeyVba
  | vbdExtensionStep
  | ftExtensionStep
  deriving DecidableEq

/-- The primitives that the jobs generate for other modules. -/
inductive GeneratedPrim where
  | createKey
  | addKeyAtCryptoModule
  | removePreviousKeyAtCryptoModule
  | rekeyVbaInVbd
  | vbdExtStepInVbd
  | ftExtStepInFt
  | encryptCurrentKey
  | encryptPreviousKey
  | syncCache
  | writeSb
  | syncBlkIo
  | secureSb
  deriving DecidableEq

/-- `Job_State_Type`. A completed primitive carries its success flag. -/
inductive JobState where
  | submitted
  | pending (prim : GeneratedPrim)
  | inProgress (prim : GeneratedPrim)
  | primCompleted (prim : GeneratedPrim) (success : Bool)
  | completed
  deriving DecidableEq

/-- `Job_Type`, with the fields the securing jobs use. `success` is the flag
of the submitted primitive. -/
structure Job where
  /-- What was asked for. -/
  operation : Operation
  /-- How far the job has come. -/
  state : JobState
  /-- Whether it has succeeded. -/
  success : Bool
  /-- The key whose value is to be encrypted. -/
  keyPlaintext : Key
  /-- The snapshot to discard, and later the generation for the trust anchor. -/
  generation : ℕ
  /-- The hash for the trust anchor. -/
  hash : Hash
  /-- The first block of the contingent. -/
  pba : ℕ
  /-- How many blocks it has. -/
  nrOfBlks : ℕ
  /-- How many leaves a step has added. -/
  nrOfLeaves : ℕ
  /-- The copy of the superblock that is written. -/
  sbCiphertext : SuperblockCiphertext
  /-- Whether the request has ended with this step. -/
  requestFinished : Bool
  /-- The table of the snapshots after a step. -/
  snapshots : Snapshots
  /-- The root of the free tree after a step. -/
  ftRoot : Type1Node
  /-- The level of this root. -/
  ftMaxLvlIdx : ℕ
  /-- The number of leaves of the free tree after a step. -/
  ftNrOfLeaves : ℕ
  /-- The key that is removed when a rekeying has finished. -/
  prevKeyPlaintext : Key

/-- `SB_Idx` moves on to the next slot of the ring. -/
def nextSbIdx (i : SuperblocksIndex) : SuperblocksIndex := i + 1

/-! ## The chain that secures a superblock

Each state goes on to the next one when its primitive has succeeded; the library
raises when one has failed. -/

/-- The end of every preparation: take the copy to be written and ask the
trust anchor to encrypt the current key for it. -/
def startSecuring (c : Control) (job : Job) : Control × Job :=
  (c, { job with
    sbCiphertext := initSbWithoutKeyValues c.sb
    keyPlaintext := c.sb.currentKey
    state := .pending .encryptCurrentKey })

/-- **The securing chain**, from the first completed primitive to the end of
the job. A completed primitive without success raises. Only the last rekeying
step skips the encryption of the previous key: by then there is none
(`skipPrevKey`). -/
def executeSecuringChain (P : Platform) (skipPrevKey : Bool) (c : Control) (job : Job) :
    Option (Control × Job) :=
  match job.state with
  | .primCompleted .encryptCurrentKey ok =>
    if ok = false then none
    else if skipPrevKey = true then
      some (c, { job with state := .pending .syncCache })
    else
      some (c, { job with
        keyPlaintext := c.sb.previousKey
        state := .pending .encryptPreviousKey })
  | .primCompleted .encryptPreviousKey ok =>
    if ok = false then none else some (c, { job with state := .pending .syncCache })
  | .primCompleted .syncCache ok =>
    if ok = false then none else some (c, { job with state := .pending .writeSb })
  | .primCompleted .writeSb ok =>
    if ok = false then none else some (c, { job with state := .pending .syncBlkIo })
  | .primCompleted .syncBlkIo ok =>
    if ok = false then none
    else
      some ({ c with
          sbIdx := nextSbIdx c.sbIdx
          currGen := nextGeneration c.currGen },
        { job with
          hash := P.hash (P.blockDataFromSuperblock c.sb)
          state := .pending .secureSb
          generation := c.currGen })
  | .primCompleted .secureSb ok =>
    if ok = false then none
    else
      some ({ c with sb := { c.sb with lastSecuredGeneration := job.generation } },
        { job with success := true, state := .completed })
  | _ => some (c, job)

/-! ## The preparations

What a job does to the superblock before its chain. -/

/-- The purge, the early update of the last secured generation and the
rewriting of the current generation that sync, create and discard share. -/
def purgeAndStamp (sb : Superblock) (currGen : ℕ) : Superblock :=
  { sb with
    snapshots := discardDisposableSnapshots sb.snapshots sb.lastSecuredGeneration currGen
    lastSecuredGeneration := currGen }.setCurrGen currGen

/-- `Execute_Sync`, `Submitted`. -/
def prepareSync (c : Control) : Control :=
  { c with sb := purgeAndStamp c.sb c.currGen }

/-- `Execute_Create_Snapshot`, `Submitted`: the current snapshot is kept. -/
def prepareCreateSnapshot (c : Control) : Control :=
  let sb := { c.sb with
    snapshots :=
      discardDisposableSnapshots c.sb.snapshots c.sb.lastSecuredGeneration c.currGen
    lastSecuredGeneration := c.currGen }
  { c with sb := (sb.setCurr { sb.curr with keep := true }).setCurrGen c.currGen }

/-- `Execute_Discard_Snapshot`, `Submitted`: nothing is prepared when no kept
snapshot has the generation. -/
def prepareDiscardSnapshot (c : Control) (gen : ℕ) : Option Control :=
  (keptSlotForGen c.sb.snapshots gen).map fun i =>
    let sb := { c.sb with
      snapshots :=
        Function.update c.sb.snapshots i { c.sb.snapshots i with valid := false } }
    { c with sb := purgeAndStamp sb c.currGen }

/-- `Key_ID_Type'Last`. -/
def keyIdLast : ℕ := 2 ^ 32 - 1

/-- `Superblock_Enter_Rekeying_State`, which raises unless the state is
normal. The key ids are a range of the source, whose end raises too. -/
def superblockEnterRekeyingState (sb : Superblock) (value : KeyValue) :
    Option Superblock :=
  if sb.state ≠ .normal then none
  else if sb.currentKey.id = keyIdLast then none
  else
    some { sb with
      state := .rekeying
      rekeyingVba := 0
      previousKey := sb.currentKey
      currentKey := { value := value, id := sb.currentKey.id + 1 } }

/-- `Execute_Rekey_VBA`, `Rekey_VBA_In_VBD_Completed`: take over the snapshots
of the virtual block device. The flag says whether VBAs remain; `none` is the
underflow of `Max_Nr_Of_Leafs - 1` for a table without leaves. -/
def rekeyVbaInVbdCompleted (sb : Superblock) (snaps : Snapshots) :
    Option (Superblock × Bool) :=
  if maxNrOfLeafs snaps = 0 then none
  else if sb.rekeyingVba < maxNrOfLeafs snaps - 1 then
    some ({ sb with snapshots := snaps, rekeyingVba := sb.rekeyingVba + 1 }, true)
  else some ({ sb with snapshots := snaps }, false)

/-- `Execute_Rekey_VBA`, `Remove_Previous_Key_At_Crypto_Module_Completed`. -/
def finishRekeying (sb : Superblock) : Superblock :=
  { sb with previousKey := keyInvalid, state := .normal }

/-- How many physical blocks there are behind the last one of the pool. -/
def nrOfUnusedPbas (sb : Superblock) : ℕ :=
  2 ^ 64 - 1 - (sb.firstPba + (sb.nrOfPbas - 1))

/-- The first physical block behind the pool. -/
def firstUnusedPba (sb : Superblock) : ℕ := sb.firstPba + (sb.nrOfPbas - 1) + 1

/-- The beginning of an extension: `Execute_VBD_Extension_Step` and
`Execute_FT_Extension_Step` in state `Normal`, for the state they enter. -/
def enterExtending (state : SuperblockState) (sb : Superblock) (nrOfBlks : ℕ) :
    Option Superblock :=
  if nrOfBlks > nrOfUnusedPbas sb then none
  else
    some { sb with
      state := state
      resizingNrOfPbas := nrOfBlks
      resizingNrOfLeaves := 0 }

/-- The accounting at the end of an extension step: the step must have used a
non-empty prefix of the contingent. -/
def addExtensionPbas (sb : Superblock) (pba nrOfBlks : ℕ) : Option Superblock :=
  if nrOfBlks ≥ sb.resizingNrOfPbas then none
  else
    let nrOfAddedPbas := sb.resizingNrOfPbas - nrOfBlks
    if pba ≠ sb.firstPba + (sb.nrOfPbas + nrOfAddedPbas) then none
    else some { sb with nrOfPbas := sb.nrOfPbas + nrOfAddedPbas }

/-- What the modules that do an extension step hand back. -/
structure ExtensionResult where
  /-- The first block that is left of the contingent. -/
  pba : ℕ
  /-- How many blocks are left of it. -/
  nrOfBlks : ℕ
  /-- How many leaves the step has added. -/
  nrOfLeaves : ℕ

/-- `Execute_VBD_Extension_Step`, `VBD_Ext_Step_In_VBD_Completed`. The flag
says whether the request is finished. -/
def vbdExtStepInVbdCompleted (sb : Superblock) (snaps : Snapshots)
    (res : ExtensionResult) : Option (Superblock × Bool) :=
  (addExtensionPbas sb res.pba res.nrOfBlks).bind fun sb =>
    (newestSnapshotIdx snaps).map fun newest =>
      let sb := { sb with snapshots := snaps, currSnap := newest }
      if res.nrOfBlks > 0 then
        ({ sb with
          resizingNrOfPbas := res.nrOfBlks
          resizingNrOfLeaves := sb.resizingNrOfLeaves + res.nrOfLeaves }, false)
      else ({ sb with state := .normal }, true)

/-- `Execute_FT_Extension_Step`, `FT_Ext_Step_In_FT_Completed`. -/
def ftExtStepInFtCompleted (sb : Superblock) (root : Type1Node)
    (maxLvlIdx nrOfLeaves : ℕ) (res : ExtensionResult) : Option (Superblock × Bool) :=
  (addExtensionPbas sb res.pba res.nrOfBlks).map fun sb =>
    let sb := { sb with
      freeGen := root.gen
      freeNumber := root.pba
      freeHash := root.hash
      freeMaxLevel := maxLvlIdx
      freeLeafs := nrOfLeaves
      resizingNrOfPbas := res.nrOfBlks
      resizingNrOfLeaves := sb.resizingNrOfLeaves + res.nrOfLeaves }
    if res.nrOfBlks = 0 then ({ sb with state := .normal }, true) else (sb, false)

/-! ### What the preparations do

One lemma for each, so that no later proof unfolds them. -/

/-- The keys and the state of a superblock whose rekeying begins. -/
theorem superblockEnterRekeyingState_spec {sb sb' : Superblock} {value : KeyValue}
    (h : superblockEnterRekeyingState sb value = some sb') :
    sb.state = .normal ∧ sb.currentKey.id ≠ keyIdLast
      ∧ sb' = { sb with
          state := .rekeying
          rekeyingVba := 0
          previousKey := sb.currentKey
          currentKey := { value := value, id := sb.currentKey.id + 1 } } := by
  unfold superblockEnterRekeyingState at h
  split_ifs at h with hs hk
  exact ⟨not_not.mp hs, hk, (Option.some.inj h).symm⟩

/-- The address that is next, or the end of the rekeying. -/
theorem rekeyVbaInVbdCompleted_spec {sb sb' : Superblock} {snaps : Snapshots} {more : Bool}
    (h : rekeyVbaInVbdCompleted sb snaps = some (sb', more)) :
    (more = true ↔ sb.rekeyingVba < maxNrOfLeafs snaps - 1)
      ∧ sb' = { sb with
          snapshots := snaps
          rekeyingVba := if more = true then sb.rekeyingVba + 1 else sb.rekeyingVba } := by
  unfold rekeyVbaInVbdCompleted at h
  split_ifs at h with h0 hlt <;> obtain ⟨rfl, rfl⟩ := Prod.mk.inj (Option.some.inj h)
  · exact ⟨by simp [hlt], rfl⟩
  · exact ⟨by simp [hlt], rfl⟩

/-- The state and the contingent of a superblock whose extension begins. -/
theorem enterExtending_spec {st : SuperblockState} {sb sb' : Superblock} {nrOfBlks : ℕ}
    (h : enterExtending st sb nrOfBlks = some sb') :
    nrOfBlks ≤ nrOfUnusedPbas sb
      ∧ sb' = { sb with
          state := st
          resizingNrOfPbas := nrOfBlks
          resizingNrOfLeaves := 0 } := by
  unfold enterExtending at h
  split_ifs at h with hn
  exact ⟨not_lt.mp hn, (Option.some.inj h).symm⟩

/-- What a step takes from the contingent is added to the pool. -/
theorem addExtensionPbas_spec {sb sb' : Superblock} {pba nrOfBlks : ℕ}
    (h : addExtensionPbas sb pba nrOfBlks = some sb') :
    nrOfBlks < sb.resizingNrOfPbas
      ∧ pba = sb.firstPba + (sb.nrOfPbas + (sb.resizingNrOfPbas - nrOfBlks))
      ∧ sb' = { sb with nrOfPbas := sb.nrOfPbas + (sb.resizingNrOfPbas - nrOfBlks) } := by
  unfold addExtensionPbas at h
  dsimp only at h
  split_ifs at h with hn hp
  exact ⟨not_le.mp hn, not_not.mp hp, (Option.some.inj h).symm⟩

/-- The new snapshots, and whether the extension has ended. -/
theorem vbdExtStepInVbdCompleted_spec {sb sb' : Superblock} {snaps : Snapshots}
    {res : ExtensionResult} {finished : Bool}
    (h : vbdExtStepInVbdCompleted sb snaps res = some (sb', finished)) :
    ∃ newest, newestSnapshotIdx snaps = some newest
      ∧ (finished = true ↔ res.nrOfBlks = 0)
      ∧ sb'.snapshots = snaps ∧ sb'.currSnap = newest
      ∧ sb'.lastSecuredGeneration = sb.lastSecuredGeneration
      ∧ sb'.rekeyingVba = sb.rekeyingVba ∧ sb'.currentKey = sb.currentKey
      ∧ sb'.previousKey = sb.previousKey
      ∧ sb'.state = if finished = true then .normal else sb.state := by
  unfold vbdExtStepInVbdCompleted at h
  obtain ⟨sb₁, hsb, h⟩ := Option.bind_eq_some_iff.mp h
  obtain ⟨-, -, rfl⟩ := addExtensionPbas_spec hsb
  obtain ⟨newest, hnewest, h⟩ := Option.map_eq_some_iff.mp h
  refine ⟨newest, hnewest, ?_⟩
  dsimp only at h
  split_ifs at h with hpos <;> obtain ⟨rfl, rfl⟩ := Prod.mk.inj h
  · simp [Nat.ne_of_gt hpos]
  · simp [Nat.eq_zero_of_not_pos hpos]

/-- The new root of the free tree, and whether the extension has ended. -/
theorem ftExtStepInFtCompleted_spec {sb sb' : Superblock} {root : Type1Node} {m l : ℕ}
    {res : ExtensionResult} {finished : Bool}
    (h : ftExtStepInFtCompleted sb root m l res = some (sb', finished)) :
    (finished = true ↔ res.nrOfBlks = 0)
      ∧ sb'.snapshots = sb.snapshots ∧ sb'.currSnap = sb.currSnap
      ∧ sb'.lastSecuredGeneration = sb.lastSecuredGeneration
      ∧ sb'.rekeyingVba = sb.rekeyingVba ∧ sb'.currentKey = sb.currentKey
      ∧ sb'.previousKey = sb.previousKey
      ∧ sb'.state = if finished = true then .normal else sb.state := by
  unfold ftExtStepInFtCompleted at h
  obtain ⟨sb₁, hsb, h⟩ := Option.map_eq_some_iff.mp h
  obtain ⟨-, -, rfl⟩ := addExtensionPbas_spec hsb
  dsimp only at h
  split_ifs at h with hzero <;> obtain ⟨rfl, rfl⟩ := Prod.mk.inj h <;> simp [hzero]

/-! ## The jobs

Each has its own states before the chain. -/

/-- `Execute_Sync`. -/
def executeSync (P : Platform) (c : Control) (job : Job) : Option (Control × Job) :=
  match job.state with
  | .submitted => some (startSecuring (prepareSync c) job)
  | _ => executeSecuringChain P false c job

/-- `Execute_Create_Snapshot`. -/
def executeCreateSnapshot (P : Platform) (c : Control) (job : Job) :
    Option (Control × Job) :=
  match job.state with
  | .submitted => some (startSecuring (prepareCreateSnapshot c) job)
  | _ => executeSecuringChain P false c job

/-- `Execute_Discard_Snapshot`: a generation that no kept snapshot has lets
the job complete without success. -/
def executeDiscardSnapshot (P : Platform) (c : Control) (job : Job) :
    Option (Control × Job) :=
  match job.state with
  | .submitted =>
    match prepareDiscardSnapshot c job.generation with
    | some c' => some (startSecuring c' job)
    | none => some (c, { job with success := false, state := .completed })
  | _ => executeSecuringChain P false c job

/-- `Execute_Initialize_Rekeying`. -/
def executeInitializeRekeying (P : Platform) (c : Control) (job : Job) :
    Option (Control × Job) :=
  match job.state with
  | .submitted => some (c, { job with state := .pending .createKey })
  | .primCompleted .createKey ok =>
    if ok = false then none
    else
      (superblockEnterRekeyingState c.sb job.keyPlaintext.value).map fun sb =>
        ({ c with sb := sb }, { job with
          keyPlaintext := sb.currentKey
          state := .pending .addKeyAtCryptoModule })
  | .primCompleted .addKeyAtCryptoModule ok =>
    if ok = false then none
    else some (startSecuring { c with sb := c.sb.setCurrGen c.currGen } job)
  | _ => executeSecuringChain P false c job

/-- `Execute_Rekey_VBA`. -/
def executeRekeyVba (P : Platform) (c : Control) (job : Job) : Option (Control × Job) :=
  match job.state with
  | .submitted =>
    if c.sb.state ≠ .rekeying then none
    else some (c, { job with state := .pending .rekeyVbaInVbd })
  | .primCompleted .rekeyVbaInVbd ok =>
    if ok = false then none
    else
      (rekeyVbaInVbdCompleted c.sb job.snapshots).map fun (sb, more) =>
        if more = true then
          startSecuring { c with sb := sb.setCurrGen c.currGen }
            { job with requestFinished := false }
        else
          ({ c with sb := sb }, { job with
            prevKeyPlaintext := { job.prevKeyPlaintext with id := sb.previousKey.id }
            state := .pending .removePreviousKeyAtCryptoModule })
  | .primCompleted .removePreviousKeyAtCryptoModule ok =>
    if ok = false then none
    else
      some (startSecuring { c with sb := (finishRekeying c.sb).setCurrGen c.currGen }
        { job with requestFinished := true })
  | _ => executeSecuringChain P job.requestFinished c job

/-- `Execute_VBD_Extension_Step`: the first call of a request only enters the
extending state, every later one does a step. -/
def executeVbdExtensionStep (P : Platform) (c : Control) (job : Job) :
    Option (Control × Job) :=
  match job.state with
  | .submitted =>
    match c.sb.state with
    | .normal =>
      (enterExtending .extendingVbd c.sb job.nrOfBlks).map fun sb =>
        startSecuring { c with sb := sb.setCurrGen c.currGen }
          { job with requestFinished := false, pba := firstUnusedPba c.sb }
    | .extendingVbd =>
      if c.sb.resizingNrOfPbas > nrOfUnusedPbas c.sb then none
      else
        some (c, { job with
          pba := firstUnusedPba c.sb
          nrOfBlks := c.sb.resizingNrOfPbas
          state := .pending .vbdExtStepInVbd })
    | _ => none
  | .primCompleted .vbdExtStepInVbd ok =>
    if ok = false then none
    else
      (vbdExtStepInVbdCompleted c.sb job.snapshots
          ⟨job.pba, job.nrOfBlks, job.nrOfLeaves⟩).map fun (sb, finished) =>
        startSecuring { c with sb := sb.setCurrGen c.currGen }
          { job with requestFinished := finished || job.requestFinished }
  | _ => executeSecuringChain P false c job

/-- `Execute_FT_Extension_Step`. -/
def executeFtExtensionStep (P : Platform) (c : Control) (job : Job) :
    Option (Control × Job) :=
  match job.state with
  | .submitted =>
    match c.sb.state with
    | .normal =>
      (enterExtending .extendingFt c.sb job.nrOfBlks).map fun sb =>
        startSecuring { c with sb := sb.setCurrGen c.currGen }
          { job with requestFinished := false, pba := firstUnusedPba c.sb }
    | .extendingFt =>
      if c.sb.resizingNrOfPbas > nrOfUnusedPbas c.sb then none
      else
        some (c, { job with
          pba := firstUnusedPba c.sb
          nrOfBlks := c.sb.resizingNrOfPbas
          state := .pending .ftExtStepInFt })
    | _ => none
  | .primCompleted .ftExtStepInFt ok =>
    if ok = false then none
    else
      (ftExtStepInFtCompleted c.sb job.ftRoot job.ftMaxLvlIdx job.ftNrOfLeaves
          ⟨job.pba, job.nrOfBlks, job.nrOfLeaves⟩).map fun (sb, finished) =>
        startSecuring { c with sb := sb.setCurrGen c.currGen }
          { job with requestFinished := finished || job.requestFinished }
  | _ => executeSecuringChain P false c job

/-- `Execute`, for the job of one slot. -/
def execute (P : Platform) (c : Control) (job : Job) : Option (Control × Job) :=
  match job.operation with
  | .sync => executeSync P c job
  | .createSnapshot => executeCreateSnapshot P c job
  | .discardSnapshot => executeDiscardSnapshot P c job
  | .initializeRekeying => executeInitializeRekeying P c job
  | .rekeyVba => executeRekeyVba P c job
  | .vbdExtensionStep => executeVbdExtensionStep P c job
  | .ftExtensionStep => executeFtExtensionStep P c job

end Cbe
