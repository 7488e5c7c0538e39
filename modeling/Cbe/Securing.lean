import Cbe.SuperblockControl
import Mathlib.Logic.Relation

/-!
# The order in which a superblock is secured

A securing job runs between four parties: the cache with its own sync job,
the block device, the trust anchor and, for rekeying and extensions, the
modules that work on the trees. `World` puts them side by side and `Step` is
one move of any of them, so a run is an arbitrary interleaving. The log lists
what the parties see: the cache reporting itself synchronized, the superblock
and the device sync handed to the block device and acknowledged by it, the
hash handed to the trust anchor and acknowledged, and every change of the last
secured generation in memory.

`Chain` says, for each state of the job, what the log, the superblock to be
written and the control are, in terms of the control `c` at the beginning of
the chain. It is kept by every step (`Chain.step`), so a completed job has
done exactly one pass through the chain (`completed_spec`). What can go wrong
is before and inside the pass: sync, create and discard of a snapshot change
the last secured generation before the pass begins, and the hash is that of
the superblock with plain keys while the block written has encrypted ones.

Both are conditions on what a job is submitted with (`SecurableInOrder`): the
operation and the generations in the control, and the superblocks that a job of
the operation can come to secure from there. They are exact
(`securedInOrder_iff`), since each of these superblocks is secured in some run
(`Prepared.canSecure`).
-/

namespace Cbe

open Relation

variable {n : ℕ}

/-! ## The cache

Only the states of the slots matter here: what has not reached the device yet.
-/

/-- `Slot_State_Type` of the cache. -/
inductive CacheSlotState where
  | invalid
  | readGenerated
  | readInProgress
  | clean
  | dirty
  | writeGenerated
  | writeInProgress
  deriving DecidableEq

/-- The slot holds data that has not reached the block device. -/
def CacheSlotState.Unwritten (s : CacheSlotState) : Prop :=
  s = .dirty ∨ s = .writeGenerated ∨ s = .writeInProgress

instance (s : CacheSlotState) : Decidable s.Unwritten :=
  inferInstanceAs (Decidable (_ ∨ _))

/-- `Dirty`: some slot of the cache holds unwritten data. -/
def cacheDirty (slots : Fin n → CacheSlotState) : Prop := ∃ i, (slots i).Unwritten

instance (slots : Fin n → CacheSlotState) : Decidable (cacheDirty slots) :=
  inferInstanceAs (Decidable (∃ _, _))

/-- The state of the cache's sync job. -/
inductive CacheJobState where
  | invalid
  | submitted
  | completed
  deriving DecidableEq

/-- **`Job_Execute_Sync`**: every dirty slot is to be written back; the job
completes when no slot holds unwritten data. -/
def jobExecuteSync (slots : Fin n → CacheSlotState) :
    (Fin n → CacheSlotState) × CacheJobState :=
  (fun i => if slots i = .dirty then .writeGenerated else slots i,
    if cacheDirty slots then .submitted else .completed)

/-- A slot whose primitive is taken over by the block device. -/
def CacheSlotState.dropGenerated : CacheSlotState → Option CacheSlotState
  | .readGenerated => some .readInProgress
  | .writeGenerated => some .writeInProgress
  | _ => none

/-- A slot whose primitive is marked complete. -/
def CacheSlotState.markCompleted : CacheSlotState → Option CacheSlotState
  | .readInProgress => some .clean
  | .writeInProgress => some .clean
  | _ => none

/-- A slot changed by one that holds no unwritten data keeps a clean cache
clean. -/
theorem not_cacheDirty_update {slots : Fin n → CacheSlotState} (h : ¬ cacheDirty slots)
    (i : Fin n) {s : CacheSlotState} (hs : ¬ s.Unwritten) :
    ¬ cacheDirty (Function.update slots i s) := by
  rintro ⟨j, hj⟩
  by_cases hij : j = i
  · subst hij
    rw [Function.update_self] at hj
    exact hs hj
  · rw [Function.update_of_ne hij] at hj
    exact h ⟨j, hj⟩

/-! ## The parties and their steps

A primitive of the job is handed over, and later comes back with a result. In
between, the other parties may take any steps. -/

/-- What the parties see of a securing job. -/
inductive Event (P : Platform) where
  | cacheSynced
  | writeSb (slot : SuperblocksIndex) (blk : P.Block) (cacheClean : Bool)
  | sbWritten (slot : SuperblocksIndex) (blk : P.Block)
  | syncBlkIo
  | blkIoSynced
  | secureSb (hash : Hash)
  | sbSecured (hash : Hash)
  | lastSecured (gen : ℕ)

/-- A securing job among its parties. -/
structure World (P : Platform) (n : ℕ) where
  /-- The superblock in memory, the next slot and the current generation. -/
  ctl : Control
  /-- The securing job. -/
  job : Job
  /-- The states of the slots of the cache. -/
  slots : Fin n → CacheSlotState
  /-- The sync job of the cache. -/
  cacheJob : CacheJobState
  /-- What the parties have seen. -/
  log : List (Event P)

variable {P : Platform}

/-- The roots of the free and the meta tree, which the library updates in the
superblock while the modules work. -/
structure TreeRoots where
  /-- The root of the free tree. -/
  free : Type1Node
  /-- The root of the meta tree. -/
  meta' : Type1Node

/-- `SB.Free_Gen`, `SB.Free_Number`, … after the modules worked. -/
def TreeRoots.apply (r : TreeRoots) (sb : Superblock) : Superblock :=
  { sb with
    freeGen := r.free.gen
    freeNumber := r.free.pba
    freeHash := r.free.hash
    metaGen := r.meta'.gen
    metaNumber := r.meta'.pba
    metaHash := r.meta'.hash }

/-- The roots a superblock has. -/
def TreeRoots.of (sb : Superblock) : TreeRoots where
  free := { pba := sb.freeNumber, gen := sb.freeGen, hash := sb.freeHash }
  meta' := { pba := sb.metaNumber, gen := sb.metaGen, hash := sb.metaHash }

/-- The roots that a superblock has change nothing. -/
@[simp] theorem TreeRoots.of_apply (sb : Superblock) : (TreeRoots.of sb).apply sb = sb := rfl

/-- The last roots count. -/
@[simp] theorem TreeRoots.apply_apply (r r' : TreeRoots) (sb : Superblock) :
    r.apply (r'.apply sb) = r.apply sb := rfl

/-- The data a module hands back with a completed primitive. -/
structure PrimResult where
  /-- A key value, generated, encrypted or decrypted. -/
  keyValue : KeyValue
  /-- The snapshots after a step of the rekeying module. -/
  snapshots : Snapshots
  /-- What an extension step has used up. -/
  ext : ExtensionResult
  /-- The root of the free tree after a step of its extension. -/
  ftRoot : Type1Node
  /-- The level of this root. -/
  ftMaxLvlIdx : ℕ
  /-- The number of leaves of the free tree then. -/
  ftNrOfLeaves : ℕ

/-- `Mark_Generated_Prim_Complete` and its variants with data: the trust
anchor returns the encrypted value of the key it was given. -/
def markGeneratedPrimComplete (P : Platform) (prim : GeneratedPrim) (ok : Bool)
    (r : PrimResult) (job : Job) : Job :=
  let job := { job with state := .primCompleted prim ok }
  match prim with
  | .createKey => { job with keyPlaintext := { job.keyPlaintext with value := r.keyValue } }
  | .encryptCurrentKey =>
    { job with sbCiphertext := { job.sbCiphertext with
        currentKey := { job.sbCiphertext.currentKey with
          value := P.encryptKey job.keyPlaintext.value } } }
  | .encryptPreviousKey =>
    { job with sbCiphertext := { job.sbCiphertext with
        previousKey := { job.sbCiphertext.previousKey with
          value := P.encryptKey job.keyPlaintext.value } } }
  | .rekeyVbaInVbd => { job with snapshots := r.snapshots }
  | .vbdExtStepInVbd =>
    { job with
      snapshots := r.snapshots
      pba := r.ext.pba
      nrOfBlks := r.ext.nrOfBlks
      nrOfLeaves := r.ext.nrOfLeaves }
  | .ftExtStepInFt =>
    { job with
      ftRoot := r.ftRoot
      ftMaxLvlIdx := r.ftMaxLvlIdx
      ftNrOfLeaves := r.ftNrOfLeaves
      pba := r.ext.pba
      nrOfBlks := r.ext.nrOfBlks
      nrOfLeaves := r.ext.nrOfLeaves }
  | _ => job

/-- The event of a change of the last secured generation in memory. -/
def advance (P : Platform) (sb sb' : Superblock) : List (Event P) :=
  if sb'.lastSecuredGeneration = sb.lastSecuredGeneration then []
  else [.lastSecured sb'.lastSecuredGeneration]

/-- The event of handing a primitive over. -/
def handedOver (w : World P n) : GeneratedPrim → List (Event P)
  | .writeSb =>
    [.writeSb w.ctl.sbIdx (P.blockDataFromSuperblock w.job.sbCiphertext)
      (decide ¬ cacheDirty w.slots)]
  | .syncBlkIo => [.syncBlkIo]
  | .secureSb => [.secureSb w.job.hash]
  | _ => []

/-- The event of a successful acknowledgement. -/
def acknowledged (w : World P n) : GeneratedPrim → List (Event P)
  | .syncCache => [.cacheSynced]
  | .writeSb =>
    [.sbWritten w.ctl.sbIdx (P.blockDataFromSuperblock w.job.sbCiphertext)]
  | .syncBlkIo => [.blkIoSynced]
  | .secureSb => [.sbSecured w.job.hash]
  | _ => []

/-- The primitives during which other modules work on the trees. -/
def GeneratedPrim.OnTrees (prim : GeneratedPrim) : Prop :=
  prim = .rekeyVbaInVbd ∨ prim = .vbdExtStepInVbd ∨ prim = .ftExtStepInFt

/-- **One step of one party.** The job executes; its pending primitive is
handed over; the primitive in progress is marked complete, the cache sync only
after the cache's job completed; the cache's sync job executes; a slot of the
cache is handed to the block device or acknowledged by it; while the modules
work on the trees, the slots and the roots of the trees change at will. -/
inductive Step : World P n → World P n → Prop
  | execute {w : World P n} {c : Control} {job : Job}
      (h : execute P w.ctl w.job = some (c, job)) :
      Step w { w with ctl := c, job := job, log := w.log ++ advance P w.ctl.sb c.sb }
  | generate {w : World P n} {prim : GeneratedPrim} (h : w.job.state = .pending prim) :
      Step w { w with
        job := { w.job with state := .inProgress prim }
        cacheJob := if prim = .syncCache then .submitted else w.cacheJob
        log := w.log ++ handedOver w prim }
  | complete {w : World P n} {prim : GeneratedPrim} (ok : Bool) (r : PrimResult)
      (h : w.job.state = .inProgress prim)
      (hsync : prim = .syncCache → w.cacheJob = .completed) :
      Step w { w with
        job := markGeneratedPrimComplete P prim ok r w.job
        log := w.log ++ if ok = true then acknowledged w prim else [] }
  | cacheSync {w : World P n} (h : w.cacheJob = .submitted) :
      Step w { w with
        slots := (jobExecuteSync w.slots).1
        cacheJob := (jobExecuteSync w.slots).2 }
  | cacheDropGenerated {w : World P n} (i : Fin n) {s : CacheSlotState}
      (h : (w.slots i).dropGenerated = some s) :
      Step w { w with slots := Function.update w.slots i s }
  | cacheMarkCompleted {w : World P n} (i : Fin n) {s : CacheSlotState}
      (h : (w.slots i).markCompleted = some s) :
      Step w { w with slots := Function.update w.slots i s }
  | modulesWork {w : World P n} {prim : GeneratedPrim} (slots : Fin n → CacheSlotState)
      (r : TreeRoots) (h : w.job.state = .inProgress prim) (hprim : prim.OnTrees) :
      Step w { w with slots := slots, ctl := { w.ctl with sb := r.apply w.ctl.sb } }

/-- A job that has just been submitted. -/
structure Submitted (w : World P n) : Prop where
  /-- The job has done nothing. -/
  state : w.job.state = .submitted
  /-- The cache has nothing to do. -/
  cacheJob : w.cacheJob = .invalid
  /-- Nothing was seen. -/
  log : w.log = []

/-! ## The preparation

What a job does before its chain depends on the operation. `Prepared` lists the
controls that come out of it, `Phase` the states on the way. -/

/-- The state concerns the primitive. -/
def JobState.IsAt (prim : GeneratedPrim) : JobState → Prop
  | .pending p | .inProgress p | .primCompleted p _ => p = prim
  | _ => False

/-- **The control a job has prepared** when its securing chain begins, from
the control at its submission, with what the other modules handed back. The
flag says that the chain skips the previous key. -/
inductive Prepared (c : Control) : Operation → ℕ → Bool → Control → Prop
  | sync {gen : ℕ} : Prepared c .sync gen false (prepareSync c)
  | createSnapshot {gen : ℕ} : Prepared c .createSnapshot gen false (prepareCreateSnapshot c)
  | discardSnapshot {gen : ℕ} {c' : Control} (h : prepareDiscardSnapshot c gen = some c') :
      Prepared c .discardSnapshot gen false c'
  | initializeRekeying {gen : ℕ} {sb : Superblock} (value : KeyValue)
      (h : superblockEnterRekeyingState c.sb value = some sb) :
      Prepared c .initializeRekeying gen false { c with sb := sb.setCurrGen c.currGen }
  | rekeyVba {gen : ℕ} {sb : Superblock} (r : TreeRoots) (snaps : Snapshots)
      (hstate : c.sb.state = .rekeying)
      (h : rekeyVbaInVbdCompleted (r.apply c.sb) snaps = some (sb, true)) :
      Prepared c .rekeyVba gen false { c with sb := sb.setCurrGen c.currGen }
  | rekeyLastVba {gen : ℕ} {sb : Superblock} (r : TreeRoots) (snaps : Snapshots)
      (hstate : c.sb.state = .rekeying)
      (h : rekeyVbaInVbdCompleted (r.apply c.sb) snaps = some (sb, false)) :
      Prepared c .rekeyVba gen true
        { c with sb := (finishRekeying sb).setCurrGen c.currGen }
  | enterVbdExtension {gen : ℕ} {sb : Superblock} (nrOfBlks : ℕ)
      (hstate : c.sb.state = .normal)
      (h : enterExtending .extendingVbd c.sb nrOfBlks = some sb) :
      Prepared c .vbdExtensionStep gen false { c with sb := sb.setCurrGen c.currGen }
  | vbdExtensionStep {gen : ℕ} {sb : Superblock} {finished : Bool} (r : TreeRoots)
      (snaps : Snapshots) (res : ExtensionResult) (hstate : c.sb.state = .extendingVbd)
      (hfits : c.sb.resizingNrOfPbas ≤ nrOfUnusedPbas c.sb)
      (h : vbdExtStepInVbdCompleted (r.apply c.sb) snaps res = some (sb, finished)) :
      Prepared c .vbdExtensionStep gen false { c with sb := sb.setCurrGen c.currGen }
  | enterFtExtension {gen : ℕ} {sb : Superblock} (nrOfBlks : ℕ)
      (hstate : c.sb.state = .normal)
      (h : enterExtending .extendingFt c.sb nrOfBlks = some sb) :
      Prepared c .ftExtensionStep gen false { c with sb := sb.setCurrGen c.currGen }
  | ftExtensionStep {gen : ℕ} {sb : Superblock} {finished : Bool} (r : TreeRoots)
      (root : Type1Node) (maxLvlIdx nrOfLeaves : ℕ) (res : ExtensionResult)
      (hstate : c.sb.state = .extendingFt)
      (hfits : c.sb.resizingNrOfPbas ≤ nrOfUnusedPbas c.sb)
      (h : ftExtStepInFtCompleted (r.apply c.sb) root maxLvlIdx nrOfLeaves res
        = some (sb, finished)) :
      Prepared c .ftExtensionStep gen false { c with sb := sb.setCurrGen c.currGen }

/-- The phases of a job before its securing chain, with the control in each
of them, from the control at the submission. -/
inductive Phase (c : Control) : Operation → JobState → Control → Prop
  | submitted {op : Operation} : Phase c op .submitted c
  | createKey {st : JobState} (hst : st.IsAt .createKey) :
      Phase c .initializeRekeying st c
  | addKey {st : JobState} {sb : Superblock} (hst : st.IsAt .addKeyAtCryptoModule)
      (value : KeyValue) (h : superblockEnterRekeyingState c.sb value = some sb) :
      Phase c .initializeRekeying st { c with sb := sb }
  | rekeyVba {st : JobState} (hst : st.IsAt .rekeyVbaInVbd) (r : TreeRoots)
      (hstate : c.sb.state = .rekeying) :
      Phase c .rekeyVba st { c with sb := r.apply c.sb }
  | removeKey {st : JobState} {sb : Superblock}
      (hst : st.IsAt .removePreviousKeyAtCryptoModule) (r : TreeRoots) (snaps : Snapshots)
      (hstate : c.sb.state = .rekeying)
      (h : rekeyVbaInVbdCompleted (r.apply c.sb) snaps = some (sb, false)) :
      Phase c .rekeyVba st { c with sb := sb }
  | vbdExt {st : JobState} (hst : st.IsAt .vbdExtStepInVbd) (r : TreeRoots)
      (hstate : c.sb.state = .extendingVbd)
      (hfits : c.sb.resizingNrOfPbas ≤ nrOfUnusedPbas c.sb) :
      Phase c .vbdExtensionStep st { c with sb := r.apply c.sb }
  | ftExt {st : JobState} (hst : st.IsAt .ftExtStepInFt) (r : TreeRoots)
      (hstate : c.sb.state = .extendingFt)
      (hfits : c.sb.resizingNrOfPbas ≤ nrOfUnusedPbas c.sb) :
      Phase c .ftExtensionStep st { c with sb := r.apply c.sb }

/-! ## The chain

The rest is the same for all operations. -/

/-- The state belongs to the securing chain. -/
def JobState.InChain (st : JobState) : Prop :=
  st.IsAt .encryptCurrentKey ∨ st.IsAt .encryptPreviousKey ∨ st.IsAt .syncCache
    ∨ st.IsAt .writeSb ∨ st.IsAt .syncBlkIo ∨ st.IsAt .secureSb ∨ st = .completed

/-- How many events of the chain the parties have seen in a state. -/
def JobState.progress : JobState → ℕ
  | .primCompleted .syncCache true | .pending .writeSb => 1
  | .inProgress .writeSb | .primCompleted .writeSb false => 2
  | .primCompleted .writeSb true | .pending .syncBlkIo => 3
  | .inProgress .syncBlkIo | .primCompleted .syncBlkIo false => 4
  | .primCompleted .syncBlkIo true | .pending .secureSb => 5
  | .inProgress .secureSb | .primCompleted .secureSb false => 6
  | .primCompleted .secureSb true | .completed => 7
  | _ => 0

/-- The superblock as it is written: with the key values encrypted by the
trust anchor, the previous one left out by the last rekeying step. -/
def cipherSuperblock (P : Platform) (skipPrevKey : Bool) (sb : Superblock) :
    SuperblockCiphertext :=
  { sb with
    previousKey := { sb.previousKey with
      value := if skipPrevKey = true then 0 else P.encryptKey sb.previousKey.value }
    currentKey := { sb.currentKey with value := P.encryptKey sb.currentKey.value } }

/-- The copy of the superblock that a job in the chain holds. -/
def ciphertextAt (P : Platform) (skipPrevKey : Bool) (sb : Superblock) :
    JobState → SuperblockCiphertext
  | .pending .encryptCurrentKey | .inProgress .encryptCurrentKey =>
    initSbWithoutKeyValues sb
  | .primCompleted .encryptCurrentKey _ | .pending .encryptPreviousKey
  | .inProgress .encryptPreviousKey => cipherSuperblock P true sb
  | _ => cipherSuperblock P skipPrevKey sb

/-- The control after the superblock was handed to the trust anchor. -/
def Control.next (c : Control) : Control :=
  { c with sbIdx := nextSbIdx c.sbIdx, currGen := nextGeneration c.currGen }

/-- **The control a completed securing job leaves**, from the one at the
beginning of its chain. -/
def Control.secured (c : Control) : Control :=
  { c.next with sb := { c.sb with lastSecuredGeneration := c.currGen } }

/-- The control in a state of the chain. -/
def controlAt (c : Control) : JobState → Control
  | .pending .secureSb | .inProgress .secureSb | .primCompleted .secureSb _ => c.next
  | .completed => c.secured
  | _ => c

/-- The events of the chain up to the trust anchor's acknowledgement, for the
block `blk` written to `slot` and the hash secured. -/
def chainEvents (P : Platform) (slot : SuperblocksIndex) (blk : P.Block) (hash : Hash) :
    List (Event P) :=
  [.cacheSynced, .writeSb slot blk true, .sbWritten slot blk, .syncBlkIo, .blkIoSynced,
    .secureSb hash, .sbSecured hash]

/-- **A job in its securing chain**, in terms of the control `c` at the
beginning of it; `early` is what was logged before. -/
structure Chain (P : Platform) (skipPrevKey : Bool) (early : List (Event P)) (c : Control)
    (w : World P n) : Prop where
  /-- The state is one of the chain. -/
  inChain : w.job.state.InChain
  /-- The previous key is left out after the last step of a rekeying only. -/
  skip : if w.job.operation = .rekeyVba then w.job.requestFinished = skipPrevKey
    else skipPrevKey = false
  /-- The control is the one of the state. -/
  ctl : w.ctl = controlAt c w.job.state
  /-- The copy of the superblock is as far as the state. -/
  ciphertext : w.job.sbCiphertext = ciphertextAt P skipPrevKey c.sb w.job.state
  /-- The first key that is encrypted is the current one. -/
  currentKey : w.job.state = .pending .encryptCurrentKey
    ∨ w.job.state = .inProgress .encryptCurrentKey → w.job.keyPlaintext = c.sb.currentKey
  /-- The second one is the previous key, unless it is left out. -/
  previousKey : w.job.state = .pending .encryptPreviousKey
    ∨ w.job.state = .inProgress .encryptPreviousKey →
      skipPrevKey = false ∧ w.job.keyPlaintext = c.sb.previousKey
  /-- The trust anchor gets the hash of the superblock in memory. -/
  secure : w.job.state.IsAt .secureSb →
    w.job.hash = P.hash (P.blockDataFromSuperblock c.sb) ∧ w.job.generation = c.currGen
  /-- A completed job has succeeded. -/
  success : w.job.state = .completed → w.job.success = true
  /-- A completed sync has left nothing unwritten. -/
  syncDone : w.cacheJob = .completed → ¬ cacheDirty w.slots
  /-- From the sync on, the cache has nothing unwritten. -/
  cacheClean : 1 ≤ w.job.state.progress → ¬ cacheDirty w.slots
  /-- What was seen is as far as the state. -/
  log : w.log = early
    ++ (chainEvents P c.sbIdx (P.blockDataFromSuperblock (cipherSuperblock P skipPrevKey c.sb))
          (P.hash (P.blockDataFromSuperblock c.sb))).take w.job.state.progress
    ++ if w.job.state = .completed then advance P c.sb c.secured.sb else []

/-- In the chain, every job executes the chain. -/
theorem execute_eq_executeSecuringChain {c : Control} {job : Job} {skipPrevKey : Bool}
    (hst : job.state.InChain)
    (hskip : if job.operation = .rekeyVba then job.requestFinished = skipPrevKey
      else skipPrevKey = false) :
    execute P c job = executeSecuringChain P skipPrevKey c job := by
  unfold execute
  cases hop : job.operation <;> rw [hop] at hskip <;> simp only [reduceCtorEq, if_false,
    if_true] at hskip <;> subst hskip
  all_goals
    simp only [executeSync, executeCreateSnapshot, executeDiscardSnapshot,
      executeInitializeRekeying, executeRekeyVba, executeVbdExtensionStep,
      executeFtExtensionStep]
    cases hj : job.state with
    | submitted => simp [JobState.InChain, JobState.IsAt, hj] at hst
    | completed => rfl
    | pending prim => rfl
    | inProgress prim => rfl
    | primCompleted prim ok =>
      cases prim <;> first
        | rfl
        | simp [JobState.InChain, JobState.IsAt, hj] at hst

/-- A superblock whose last secured generation is the same advances
nothing. -/
theorem advance_eq_nil {sb sb' : Superblock}
    (h : sb'.lastSecuredGeneration = sb.lastSecuredGeneration) : advance P sb sb' = [] :=
  if_pos h

/-- **The executing job keeps the chain.** -/
theorem Chain.execute {skipPrevKey : Bool} {early : List (Event P)} {c c' : Control}
    {w : World P n} {job' : Job} (h : Chain P skipPrevKey early c w)
    (hexec : Cbe.execute P w.ctl w.job = some (c', job')) :
    Chain P skipPrevKey early c
      { w with ctl := c', job := job', log := w.log ++ advance P w.ctl.sb c'.sb } := by
  rw [execute_eq_executeSecuringChain h.inChain h.skip] at hexec
  obtain ⟨inChain, skip, ctl, ciphertext, currentKey, previousKey, secure, success,
    syncDone, cacheClean, log⟩ := h
  -- a state that waits for another party is left as it is
  have hwait : c' = w.ctl → job' = w.job → Chain P skipPrevKey early c
      { w with ctl := c', job := job', log := w.log ++ advance P w.ctl.sb c'.sb } := by
    rintro rfl rfl
    rw [advance_eq_nil rfl, List.append_nil]
    exact ⟨inChain, skip, ctl, ciphertext, currentKey, previousKey, secure, success,
      syncDone, cacheClean, log⟩
  unfold executeSecuringChain at hexec
  cases hst : w.job.state with
  | submitted => simp [hst, JobState.InChain, JobState.IsAt] at inChain
  | completed =>
    rw [hst] at hexec
    simp only [Option.some.injEq, Prod.mk.injEq] at hexec
    exact hwait hexec.1.symm hexec.2.symm
  | pending prim =>
    rw [hst] at hexec
    simp only [Option.some.injEq, Prod.mk.injEq] at hexec
    exact hwait hexec.1.symm hexec.2.symm
  | inProgress prim =>
    rw [hst] at hexec
    simp only [Option.some.injEq, Prod.mk.injEq] at hexec
    exact hwait hexec.1.symm hexec.2.symm
  | primCompleted prim ok =>
    rw [hst] at hexec inChain ctl ciphertext currentKey previousKey secure
    rw [hst] at success cacheClean log
    cases ok with
    | false =>
      cases prim <;> simp [JobState.InChain, JobState.IsAt] at hexec inChain
    | true =>
      cases prim with
      | encryptCurrentKey =>
        cases hs : skipPrevKey <;> subst hs <;>
          simp only [Bool.true_eq_false, Bool.false_eq_true, if_false, if_true,
            Option.some.injEq, Prod.mk.injEq] at hexec <;> obtain ⟨rfl, rfl⟩ := hexec
        all_goals
          constructor <;>
            simp_all [JobState.InChain, JobState.IsAt, JobState.progress, controlAt,
              ciphertextAt, advance_eq_nil]
      | secureSb =>
        simp only [Bool.true_eq_false, if_false, Option.some.injEq, Prod.mk.injEq] at hexec
        obtain ⟨rfl, rfl⟩ := hexec
        constructor <;>
          simp_all [JobState.InChain, JobState.IsAt, JobState.progress, controlAt,
            ciphertextAt, Control.secured, Control.next]
      | encryptPreviousKey | syncCache | writeSb | syncBlkIo =>
        simp only [Bool.true_eq_false, if_false, Option.some.injEq, Prod.mk.injEq] at hexec
        obtain ⟨rfl, rfl⟩ := hexec
        constructor <;>
          simp_all [JobState.InChain, JobState.IsAt, JobState.progress, controlAt,
            ciphertextAt, advance_eq_nil, Control.next]
      | _ => simp [JobState.InChain, JobState.IsAt] at inChain

/-- Only the slots changed, and a clean cache stayed clean. -/
theorem Chain.of_slots {skipPrevKey : Bool} {early : List (Event P)} {c : Control}
    {w : World P n} {slots : Fin n → CacheSlotState} {cacheJob : CacheJobState}
    (h : Chain P skipPrevKey early c w) (hclean : ¬ cacheDirty w.slots → ¬ cacheDirty slots)
    (hjob : cacheJob = .completed → ¬ cacheDirty slots) :
    Chain P skipPrevKey early c { w with slots := slots, cacheJob := cacheJob } where
  inChain := h.inChain
  skip := h.skip
  ctl := h.ctl
  ciphertext := h.ciphertext
  currentKey := h.currentKey
  previousKey := h.previousKey
  secure := h.secure
  success := h.success
  syncDone := hjob
  cacheClean hp := hclean (h.cacheClean hp)
  log := h.log

/-- The cache's sync job completes only on a clean cache, and dirties no
slot. -/
theorem jobExecuteSync_clean (slots : Fin n → CacheSlotState) :
    ((jobExecuteSync slots).2 = .completed → ¬ cacheDirty (jobExecuteSync slots).1)
      ∧ (¬ cacheDirty slots → ¬ cacheDirty (jobExecuteSync slots).1) := by
  have hslots : ¬ cacheDirty slots → ¬ cacheDirty (jobExecuteSync slots).1 := by
    rintro hclean ⟨i, hi⟩
    refine hclean ⟨i, ?_⟩
    unfold jobExecuteSync at hi
    dsimp only at hi
    split_ifs at hi with hd
    · exact Or.inl hd
    · exact hi
  refine ⟨fun hdone => hslots fun hdirty => ?_, hslots⟩
  unfold jobExecuteSync at hdone
  rw [if_pos hdirty] at hdone
  exact CacheJobState.noConfusion hdone

/-- A slot handed over or acknowledged leaves a clean cache clean. -/
theorem not_cacheDirty_slotStep {slots : Fin n → CacheSlotState} {i : Fin n}
    {s : CacheSlotState}
    (h : (slots i).dropGenerated = some s ∨ (slots i).markCompleted = some s)
    (hclean : ¬ cacheDirty slots) : ¬ cacheDirty (Function.update slots i s) := by
  refine not_cacheDirty_update hclean i fun hs => hclean ⟨i, ?_⟩
  unfold CacheSlotState.dropGenerated CacheSlotState.markCompleted at h
  cases hi : slots i <;> rw [hi] at h <;>
    simp_all [CacheSlotState.Unwritten, eq_comm (b := s)]

/-- **Handing a primitive over keeps the chain.** -/
theorem Chain.generate {skipPrevKey : Bool} {early : List (Event P)} {c : Control}
    {w : World P n} {prim : GeneratedPrim} (h : Chain P skipPrevKey early c w)
    (hst : w.job.state = .pending prim) :
    Chain P skipPrevKey early c { w with
      job := { w.job with state := .inProgress prim }
      cacheJob := if prim = .syncCache then .submitted else w.cacheJob
      log := w.log ++ handedOver w prim } := by
  obtain ⟨inChain, skip, ctl, ciphertext, currentKey, previousKey, secure, success,
    syncDone, cacheClean, log⟩ := h
  rw [hst] at inChain ctl ciphertext currentKey previousKey secure
  rw [hst] at success cacheClean log
  cases prim <;> first
    | simp [JobState.InChain, JobState.IsAt] at inChain; done
    | constructor <;>
        simp_all [JobState.InChain, JobState.IsAt, JobState.progress, controlAt,
          ciphertextAt, handedOver, chainEvents]

/-- **Marking a primitive complete keeps the chain.** -/
theorem Chain.complete {skipPrevKey : Bool} {early : List (Event P)} {c : Control}
    {w : World P n} {prim : GeneratedPrim} (ok : Bool) (r : PrimResult)
    (h : Chain P skipPrevKey early c w) (hst : w.job.state = .inProgress prim)
    (hsync : prim = .syncCache → w.cacheJob = .completed) :
    Chain P skipPrevKey early c { w with
      job := markGeneratedPrimComplete P prim ok r w.job
      log := w.log ++ if ok = true then acknowledged w prim else [] } := by
  obtain ⟨inChain, skip, ctl, ciphertext, currentKey, previousKey, secure, success,
    syncDone, cacheClean, log⟩ := h
  rw [hst] at inChain ctl ciphertext currentKey previousKey secure
  rw [hst] at success cacheClean log
  cases prim <;> first
    | simp [JobState.InChain, JobState.IsAt] at inChain; done
    | cases ok <;> constructor <;>
        simp_all [JobState.InChain, JobState.IsAt, JobState.progress, controlAt,
          ciphertextAt, acknowledged, chainEvents, markGeneratedPrimComplete,
          cipherSuperblock, initSbWithoutKeyValues, Control.next]

/-- **Every step of every party keeps the chain.** -/
theorem Chain.step {skipPrevKey : Bool} {early : List (Event P)} {c : Control}
    {w w' : World P n} (h : Chain P skipPrevKey early c w) (hstep : Step w w') :
    Chain P skipPrevKey early c w' := by
  cases hstep with
  | execute hexec => exact h.execute hexec
  | generate hst => exact h.generate hst
  | complete ok r hst hsync => exact h.complete ok r hst hsync
  | cacheSync hjob =>
    exact h.of_slots (jobExecuteSync_clean w.slots).2 (jobExecuteSync_clean w.slots).1
  | cacheDropGenerated i hs =>
    exact h.of_slots (not_cacheDirty_slotStep (Or.inl hs))
      fun hj => not_cacheDirty_slotStep (Or.inl hs) (h.syncDone hj)
  | cacheMarkCompleted i hs =>
    exact h.of_slots (not_cacheDirty_slotStep (Or.inr hs))
      fun hj => not_cacheDirty_slotStep (Or.inr hs) (h.syncDone hj)
  | modulesWork slots r hst hprim =>
    have hin := h.inChain
    rw [hst] at hin
    rcases hprim with rfl | rfl | rfl <;> simp [JobState.InChain, JobState.IsAt] at hin

/-- **The chain begins** where a preparation ends. -/
theorem Chain.start {skipPrevKey : Bool} {c : Control} {w : World P n} {job : Job}
    (hskip : if job.operation = .rekeyVba then job.requestFinished = skipPrevKey
      else skipPrevKey = false)
    (hcache : w.cacheJob = .invalid) (hlog : w.log = []) (early : List (Event P)) :
    Chain P skipPrevKey early c
      { w with
        ctl := (startSecuring c job).1
        job := (startSecuring c job).2
        log := w.log ++ early } := by
  constructor
  case skip => exact hskip
  all_goals
    simp_all [startSecuring, JobState.InChain, JobState.IsAt, JobState.progress,
      controlAt, ciphertextAt]

/-! ## The preparation leads to the chain

A step of a preparing job leaves it preparing, begins the chain, or completes a
discard that has found no snapshot. -/

/-- **A job before its chain**: nothing was logged and the cache's sync job is
idle. -/
structure Preparing (w₀ w : World P n) : Prop where
  /-- The operation is the one that was asked for. -/
  operation : w.job.operation = w₀.job.operation
  /-- So is the generation that it is about. -/
  generation : w.job.generation = w₀.job.generation
  /-- The job is in one of the phases before its chain. -/
  phase : Phase w₀.ctl w₀.job.operation w.job.state w.ctl
  /-- The cache has nothing to do. -/
  cacheJob : w.cacheJob = .invalid
  /-- Nothing was seen. -/
  log : w.log = []

/-- **Where a job submitted in `w₀` can be**: preparing, in its chain, or
completed without success because there was no snapshot to discard. -/
inductive Progress (w₀ w : World P n) : Prop
  | preparing (h : Preparing w₀ w)
  | chain {skipPrevKey : Bool} {c : Control}
      (hp : Prepared w₀.ctl w₀.job.operation w₀.job.generation skipPrevKey c)
      (h : Chain P skipPrevKey (advance P w₀.ctl.sb c.sb) c w)
  | notFound (hop : w.job.operation = .discardSnapshot) (hst : w.job.state = .completed)
      (hsuccess : w.job.success = false) (hlog : w.log = [])

/-- No phase of a preparation changes the last secured generation. -/
theorem Phase.lastSecured {c c' : Control} {op : Operation} {st : JobState}
    (h : Phase c op st c') :
    c'.sb.lastSecuredGeneration = c.sb.lastSecuredGeneration := by
  cases h with
  | addKey _ _ h =>
    obtain ⟨-, -, rfl⟩ := superblockEnterRekeyingState_spec h
    rfl
  | removeKey _ _ _ _ h =>
    obtain ⟨-, rfl⟩ := rekeyVbaInVbdCompleted_spec h
    rfl
  | _ => rfl

/-- Changes are logged by what the last secured generation was and is. -/
theorem advance_congr {a b sb : Superblock}
    (h : a.lastSecuredGeneration = b.lastSecuredGeneration) :
    advance P a sb = advance P b sb := by
  unfold advance
  rw [h]

/-- A job and a control after the job has executed. -/
def World.executed (w : World P n) (c : Control) (job : Job) : World P n :=
  { w with ctl := c, job := job, log := w.log ++ advance P w.ctl.sb c.sb }

section Preparing

variable {w₀ w : World P n} {c' : Control} {job' : Job}

/-- **The preparation is done**: the chain begins, with the change of the last
secured generation logged. -/
theorem Preparing.start (h : Preparing w₀ w) {op : Operation} (hop : w₀.job.operation = op)
    {skipPrevKey : Bool} {c : Control} {job : Job}
    (hp : Prepared w₀.ctl op w₀.job.generation skipPrevKey c)
    (hskip : if job.operation = .rekeyVba then job.requestFinished = skipPrevKey
      else skipPrevKey = false) (heq : startSecuring c job = (c', job')) :
    Progress w₀ (w.executed c' job') := by
  have hchain := Chain.start (P := P) (c := c) (w := w) hskip h.cacheJob h.log
    (advance P w₀.ctl.sb c.sb)
  obtain rfl : c = c' := congrArg Prod.fst heq
  obtain rfl : (startSecuring c job).2 = job' := congrArg Prod.snd heq
  unfold World.executed
  rw [advance_congr h.phase.lastSecured]
  subst hop
  exact .chain hp hchain

/-- **The preparation goes on** with its next phase. -/
theorem Preparing.goOn (h : Preparing w₀ w) {op : Operation} (hop : w₀.job.operation = op)
    (hop' : job'.operation = w₀.job.operation) (hgen : job'.generation = w₀.job.generation)
    (hphase : Phase w₀.ctl op job'.state c') : Progress w₀ (w.executed c' job') := by
  subst hop
  refine .preparing ⟨hop', hgen, hphase, h.cacheJob, ?_⟩
  show w.log ++ advance P w.ctl.sb c'.sb = []
  rw [h.log, advance_eq_nil (hphase.lastSecured.trans h.phase.lastSecured.symm)]
  rfl

/-- A job that waits for another party is left as it is. -/
theorem Preparing.wait (h : Preparing w₀ w) (heq : some (w.ctl, w.job) = some (c', job')) :
    Progress w₀ (w.executed c' job') := by
  obtain ⟨rfl, rfl⟩ := Prod.mk.inj (Option.some.inj heq)
  exact h.goOn rfl h.operation h.generation h.phase

/-- A discard that finds no snapshot gives up, every other one begins its
chain. -/
theorem Preparing.executeDiscardSnapshot (h : Preparing w₀ w)
    (hop : w₀.job.operation = .discardSnapshot)
    (hexec : Cbe.executeDiscardSnapshot P w.ctl w.job = some (c', job')) :
    Progress w₀ (w.executed c' job') := by
  obtain ⟨hop', hgen, hphase, hcache, hlog⟩ := id h
  generalize hst : w.job.state = st at hphase
  generalize hctl : w.ctl = c₁ at hphase
  generalize hopr : w₀.job.operation = op at hphase
  obtain rfl := hopr.symm.trans hop
  cases hphase with
  | submitted =>
    simp only [Cbe.executeDiscardSnapshot, hst, hctl] at hexec
    cases hd : prepareDiscardSnapshot w₀.ctl w.job.generation with
    | none =>
      rw [hd] at hexec
      obtain ⟨rfl, rfl⟩ := Prod.mk.inj (Option.some.inj hexec)
      refine .notFound (hop'.trans hop) rfl rfl ?_
      show w.log ++ advance P w.ctl.sb w₀.ctl.sb = []
      rw [hlog, advance_eq_nil (congrArg _ (congrArg Control.sb hctl.symm))]
      rfl
    | some c₂ =>
      rw [hd] at hexec
      rw [hgen] at hd
      refine h.start hop (.discardSnapshot hd) ?_ (Option.some.inj hexec)
      simp [hop', hop]

/-- The start of a rekeying creates a key, has it added at the crypto module
and then begins its chain. -/
theorem Preparing.executeInitializeRekeying (h : Preparing w₀ w)
    (hop : w₀.job.operation = .initializeRekeying)
    (hexec : Cbe.executeInitializeRekeying P w.ctl w.job = some (c', job')) :
    Progress w₀ (w.executed c' job') := by
  obtain ⟨hop', hgen, hphase, -, -⟩ := id h
  generalize hst : w.job.state = st at hphase
  generalize hctl : w.ctl = c₁ at hphase
  generalize hopr : w₀.job.operation = op at hphase
  obtain rfl := hopr.symm.trans hop
  cases hphase with
  | submitted =>
    simp only [Cbe.executeInitializeRekeying, hst, Option.some.injEq, Prod.mk.injEq,
      hctl] at hexec
    obtain ⟨rfl, rfl⟩ := hexec
    exact h.goOn hop hop' hgen (.createKey rfl)
  | createKey hat =>
    cases st with
    | submitted | completed => exact absurd hat (by simp [JobState.IsAt])
    | pending | inProgress =>
      simp only [Cbe.executeInitializeRekeying, hst, executeSecuringChain] at hexec
      exact h.wait hexec
    | primCompleted prim ok =>
      obtain rfl : prim = .createKey := hat
      simp only [Cbe.executeInitializeRekeying, hst, hctl] at hexec
      split_ifs at hexec
      obtain ⟨sb, hsb, heq⟩ := Option.map_eq_some_iff.mp hexec
      obtain ⟨rfl, rfl⟩ := Prod.mk.inj heq
      refine h.goOn hop hop' hgen (.addKey ?_ _ hsb)
      show JobState.IsAt _ (.pending .addKeyAtCryptoModule)
      rfl
  | addKey hat value hsb =>
    cases st with
    | submitted | completed => exact absurd hat (by simp [JobState.IsAt])
    | pending | inProgress =>
      simp only [Cbe.executeInitializeRekeying, hst, executeSecuringChain] at hexec
      exact h.wait hexec
    | primCompleted prim ok =>
      obtain rfl : prim = .addKeyAtCryptoModule := hat
      simp only [Cbe.executeInitializeRekeying, hst, hctl] at hexec
      split_ifs at hexec
      refine h.start hop (.initializeRekeying value hsb) ?_ (Option.some.inj hexec)
      simp [hop', hop]

/-- A step of a rekeying has one address rekeyed in all snapshots and begins its
chain, the last one after it has had the previous key removed. -/
theorem Preparing.executeRekeyVba (h : Preparing w₀ w) (hop : w₀.job.operation = .rekeyVba)
    (hexec : Cbe.executeRekeyVba P w.ctl w.job = some (c', job')) :
    Progress w₀ (w.executed c' job') := by
  obtain ⟨hop', hgen, hphase, -, -⟩ := id h
  generalize hst : w.job.state = st at hphase
  generalize hctl : w.ctl = c₁ at hphase
  generalize hopr : w₀.job.operation = op at hphase
  obtain rfl := hopr.symm.trans hop
  cases hphase with
  | submitted =>
    simp only [Cbe.executeRekeyVba, hst, hctl] at hexec
    split_ifs at hexec with hs
    obtain ⟨rfl, rfl⟩ := Prod.mk.inj (Option.some.inj hexec)
    refine h.goOn hop hop' hgen (.rekeyVba ?_ (TreeRoots.of _) (not_not.mp hs))
    show JobState.IsAt _ (.pending .rekeyVbaInVbd)
    rfl
  | rekeyVba hat r hstate =>
    cases st with
    | submitted | completed => exact absurd hat (by simp [JobState.IsAt])
    | pending | inProgress =>
      simp only [Cbe.executeRekeyVba, hst, executeSecuringChain] at hexec
      exact h.wait hexec
    | primCompleted prim ok =>
      obtain rfl : prim = .rekeyVbaInVbd := hat
      simp only [Cbe.executeRekeyVba, hst, hctl] at hexec
      split_ifs at hexec
      obtain ⟨⟨sb, more⟩, hsb, heq⟩ := Option.map_eq_some_iff.mp hexec
      cases more with
      | true =>
        refine h.start hop (.rekeyVba r _ hstate hsb) ?_ heq
        simp [hop', hop]
      | false =>
        obtain ⟨rfl, rfl⟩ := Prod.mk.inj heq
        refine h.goOn hop hop' hgen (.removeKey ?_ r _ hstate hsb)
        show JobState.IsAt _ (.pending .removePreviousKeyAtCryptoModule)
        rfl
  | removeKey hat r snaps hstate hsb =>
    cases st with
    | submitted | completed => exact absurd hat (by simp [JobState.IsAt])
    | pending | inProgress =>
      simp only [Cbe.executeRekeyVba, hst, executeSecuringChain] at hexec
      exact h.wait hexec
    | primCompleted prim ok =>
      obtain rfl : prim = .removePreviousKeyAtCryptoModule := hat
      simp only [Cbe.executeRekeyVba, hst, hctl] at hexec
      split_ifs at hexec
      refine h.start hop (.rekeyLastVba r snaps hstate hsb) ?_ (Option.some.inj hexec)
      simp [hop', hop]

/-- A step of an extension of the virtual block device enters the extending
state, or has the device extended, and then begins its chain. -/
theorem Preparing.executeVbdExtensionStep (h : Preparing w₀ w)
    (hop : w₀.job.operation = .vbdExtensionStep)
    (hexec : Cbe.executeVbdExtensionStep P w.ctl w.job = some (c', job')) :
    Progress w₀ (w.executed c' job') := by
  obtain ⟨hop', hgen, hphase, -, -⟩ := id h
  generalize hst : w.job.state = st at hphase
  generalize hctl : w.ctl = c₁ at hphase
  generalize hopr : w₀.job.operation = op at hphase
  obtain rfl := hopr.symm.trans hop
  cases hphase with
  | submitted =>
    simp only [Cbe.executeVbdExtensionStep, hst, hctl] at hexec
    split at hexec
    · next hstate =>
      obtain ⟨sb, hsb, heq⟩ := Option.map_eq_some_iff.mp hexec
      refine h.start hop (.enterVbdExtension _ hstate hsb) ?_ heq
      simp [hop', hop]
    · next hstate =>
      split_ifs at hexec with hfits
      obtain ⟨rfl, rfl⟩ := Prod.mk.inj (Option.some.inj hexec)
      refine h.goOn hop hop' hgen (.vbdExt ?_ (TreeRoots.of _) hstate (not_lt.mp hfits))
      show JobState.IsAt _ (.pending .vbdExtStepInVbd)
      rfl
    · exact absurd hexec (by simp)
  | vbdExt hat r hstate hfits =>
    cases st with
    | submitted | completed => exact absurd hat (by simp [JobState.IsAt])
    | pending | inProgress =>
      simp only [Cbe.executeVbdExtensionStep, hst, executeSecuringChain] at hexec
      exact h.wait hexec
    | primCompleted prim ok =>
      obtain rfl : prim = .vbdExtStepInVbd := hat
      simp only [Cbe.executeVbdExtensionStep, hst, hctl] at hexec
      split_ifs at hexec
      obtain ⟨⟨sb, fin⟩, hsb, heq⟩ := Option.map_eq_some_iff.mp hexec
      refine h.start hop (.vbdExtensionStep r _ _ hstate hfits hsb) ?_ heq
      simp [hop', hop]

/-- So does a step of an extension of the free tree. -/
theorem Preparing.executeFtExtensionStep (h : Preparing w₀ w)
    (hop : w₀.job.operation = .ftExtensionStep)
    (hexec : Cbe.executeFtExtensionStep P w.ctl w.job = some (c', job')) :
    Progress w₀ (w.executed c' job') := by
  obtain ⟨hop', hgen, hphase, -, -⟩ := id h
  generalize hst : w.job.state = st at hphase
  generalize hctl : w.ctl = c₁ at hphase
  generalize hopr : w₀.job.operation = op at hphase
  obtain rfl := hopr.symm.trans hop
  cases hphase with
  | submitted =>
    simp only [Cbe.executeFtExtensionStep, hst, hctl] at hexec
    split at hexec
    · next hstate =>
      obtain ⟨sb, hsb, heq⟩ := Option.map_eq_some_iff.mp hexec
      refine h.start hop (.enterFtExtension _ hstate hsb) ?_ heq
      simp [hop', hop]
    · next hstate =>
      split_ifs at hexec with hfits
      obtain ⟨rfl, rfl⟩ := Prod.mk.inj (Option.some.inj hexec)
      refine h.goOn hop hop' hgen (.ftExt ?_ (TreeRoots.of _) hstate (not_lt.mp hfits))
      show JobState.IsAt _ (.pending .ftExtStepInFt)
      rfl
    · exact absurd hexec (by simp)
  | ftExt hat r hstate hfits =>
    cases st with
    | submitted | completed => exact absurd hat (by simp [JobState.IsAt])
    | pending | inProgress =>
      simp only [Cbe.executeFtExtensionStep, hst, executeSecuringChain] at hexec
      exact h.wait hexec
    | primCompleted prim ok =>
      obtain rfl : prim = .ftExtStepInFt := hat
      simp only [Cbe.executeFtExtensionStep, hst, hctl] at hexec
      split_ifs at hexec
      obtain ⟨⟨sb, fin⟩, hsb, heq⟩ := Option.map_eq_some_iff.mp hexec
      refine h.start hop (.ftExtensionStep r _ _ _ _ hstate hfits hsb) ?_ heq
      simp [hop', hop]

/-- **An executing job stays in its preparation, begins its chain, or gives
up.** A sync and the creation of a snapshot begin their chain at once. -/
theorem Preparing.execute (h : Preparing w₀ w)
    (hexec : Cbe.execute P w.ctl w.job = some (c', job')) :
    Progress w₀ (w.executed c' job') := by
  unfold Cbe.execute at hexec
  rw [h.operation] at hexec
  have hopr := h.operation
  cases hop : w₀.job.operation <;> rw [hop] at hexec hopr <;> dsimp only at hexec
  case discardSnapshot => exact h.executeDiscardSnapshot hop hexec
  case initializeRekeying => exact h.executeInitializeRekeying hop hexec
  case rekeyVba => exact h.executeRekeyVba hop hexec
  case vbdExtensionStep => exact h.executeVbdExtensionStep hop hexec
  case ftExtensionStep => exact h.executeFtExtensionStep hop hexec
  all_goals
    obtain ⟨-, -, hphase, -, -⟩ := id h
    generalize hst : w.job.state = st at hphase
    generalize hctl : w.ctl = c₁ at hphase
    rw [hop] at hphase
    cases hphase
  case sync =>
    simp only [executeSync, hst, Option.some.injEq, hctl] at hexec
    exact h.start hop (.sync) (by simp [hopr]) hexec
  case createSnapshot =>
    simp only [executeCreateSnapshot, hst, Option.some.injEq, hctl] at hexec
    exact h.start hop (.createSnapshot) (by simp [hopr]) hexec

end Preparing

/-- Within one primitive the phase is the same. -/
theorem Phase.of_isAt {c c' : Control} {op : Operation} {st st' : JobState}
    {prim : GeneratedPrim} (h : Phase c op st c') (hst : st.IsAt prim)
    (hst' : st'.IsAt prim) : Phase c op st' c' := by
  have hsame : ∀ q, st.IsAt q → st'.IsAt q := by
    intro q hq
    have : q = prim := by
      cases st <;> simp_all [JobState.IsAt]
    rw [this]
    exact hst'
  cases h with
  | submitted => exact absurd hst (by simp [JobState.IsAt])
  | createKey h => exact .createKey (hsame _ h)
  | addKey h v hv => exact .addKey (hsame _ h) v hv
  | rekeyVba h r hr => exact .rekeyVba (hsame _ h) r hr
  | removeKey h r s hr hs => exact .removeKey (hsame _ h) r s hr hs
  | vbdExt h r hr hf => exact .vbdExt (hsame _ h) r hr hf
  | ftExt h r hr hf => exact .ftExt (hsame _ h) r hr hf

/-- The primitives of a preparation are not those of the chain. -/
theorem Phase.not_chain {c c' : Control} {op : Operation} {st : JobState}
    {prim : GeneratedPrim} (h : Phase c op st c') (hst : st.IsAt prim) :
    prim ≠ .syncCache ∧ prim ≠ .writeSb ∧ prim ≠ .syncBlkIo ∧ prim ≠ .secureSb := by
  have hprim : ∀ q, st.IsAt q → prim = q := by
    intro q hq
    cases st <;> simp_all [JobState.IsAt]
  cases h with
  | submitted => exact absurd hst (by simp [JobState.IsAt])
  | createKey h | addKey h | rekeyVba h | removeKey h | vbdExt h | ftExt h =>
    rw [hprim _ h]
    decide

/-- A preparing job is not completed. -/
theorem Phase.ne_completed {c c' : Control} {op : Operation} {st : JobState}
    (h : Phase c op st c') : st ≠ .completed := by
  rintro rfl
  cases h <;> exact absurd ‹JobState.IsAt _ _› (by simp [JobState.IsAt])

/-- While the modules work on the trees, the phase follows the roots. -/
theorem Phase.modulesWork {c c' : Control} {op : Operation} {st : JobState}
    {prim : GeneratedPrim} (h : Phase c op st c') (hst : st.IsAt prim)
    (hprim : prim.OnTrees) (r : TreeRoots) :
    Phase c op st { c' with sb := r.apply c'.sb } := by
  have heq : ∀ q, st.IsAt q → prim = q := by
    intro q hq
    cases st <;> simp_all [JobState.IsAt]
  cases h with
  | submitted => exact absurd hst (by simp [JobState.IsAt])
  | createKey h | addKey h | removeKey h =>
    rw [heq _ h] at hprim
    rcases hprim with hp | hp | hp <;> exact absurd hp (by decide)
  | rekeyVba h r' hr => exact .rekeyVba h r hr
  | vbdExt h r' hr hf => exact .vbdExt h r hr hf
  | ftExt h r' hr hf => exact .ftExt h r hr hf

/-- **Every step of every party leaves a preparing job preparing, unless the
job goes on.** -/
theorem Preparing.step {w₀ w w' : World P n} (h : Preparing w₀ w) (hstep : Step w w') :
    Progress w₀ w' := by
  cases hstep with
  | execute hexec => exact h.execute hexec
  | @generate prim hst =>
    have hat : w.job.state.IsAt prim := by rw [hst]; rfl
    obtain ⟨hsync, hwrite, hblk, hsec⟩ := h.phase.not_chain hat
    refine .preparing ⟨h.operation, h.generation, h.phase.of_isAt hat rfl, ?_, ?_⟩
    · show (if prim = .syncCache then CacheJobState.submitted else w.cacheJob) = _
      rw [if_neg hsync, h.cacheJob]
    · show w.log ++ handedOver w prim = []
      rw [h.log]
      cases prim <;> simp_all [handedOver]
  | @complete prim ok r hst hsync =>
    have hat : w.job.state.IsAt prim := by rw [hst]; rfl
    obtain ⟨hsync, hwrite, hblk, hsec⟩ := h.phase.not_chain hat
    have hjob : ∀ j : Job, (markGeneratedPrimComplete P prim ok r j).operation = j.operation
        ∧ (markGeneratedPrimComplete P prim ok r j).generation = j.generation
        ∧ (markGeneratedPrimComplete P prim ok r j).state = .primCompleted prim ok := by
      intro j
      cases prim <;> exact ⟨rfl, rfl, rfl⟩
    obtain ⟨hop, hgen, hstate⟩ := hjob w.job
    refine .preparing ⟨hop.trans h.operation, hgen.trans h.generation, ?_, h.cacheJob, ?_⟩
    · refine h.phase.of_isAt hat ?_
      show (markGeneratedPrimComplete P prim ok r w.job).state.IsAt prim
      rw [hstate]
      rfl
    · show (w.log ++ if ok = true then acknowledged w prim else []) = []
      rw [h.log]
      cases prim <;> simp_all [acknowledged]
  | cacheSync hjob =>
    rw [h.cacheJob] at hjob
    exact CacheJobState.noConfusion hjob
  | cacheDropGenerated i hs =>
    exact .preparing ⟨h.operation, h.generation, h.phase, h.cacheJob, h.log⟩
  | cacheMarkCompleted i hs =>
    exact .preparing ⟨h.operation, h.generation, h.phase, h.cacheJob, h.log⟩
  | @modulesWork prim slots r hst hprim =>
    have hat : w.job.state.IsAt prim := by rw [hst]; rfl
    exact .preparing ⟨h.operation, h.generation, h.phase.modulesWork hat hprim r,
      h.cacheJob, h.log⟩

/-- **Every step keeps the job on its way.** -/
theorem Progress.step {w₀ w w' : World P n} (h : Progress w₀ w) (hstep : Step w w') :
    Progress w₀ w' := by
  cases h with
  | preparing h => exact h.step hstep
  | chain hp h => exact .chain hp (h.step hstep)
  | notFound hop hst hsuccess hlog =>
    cases hstep with
    | execute hexec =>
      unfold execute at hexec
      rw [hop] at hexec
      simp only [executeDiscardSnapshot, hst, executeSecuringChain] at hexec
      obtain ⟨rfl, rfl⟩ := Prod.mk.inj (Option.some.inj hexec)
      refine .notFound hop hst hsuccess ?_
      show w.log ++ _ = []
      rw [hlog, advance_eq_nil rfl]
      rfl
    | generate h | complete _ _ h | modulesWork _ _ h =>
      rw [hst] at h
      exact JobState.noConfusion h
    | cacheSync | cacheDropGenerated | cacheMarkCompleted =>
      exact .notFound hop hst hsuccess hlog

/-- **A submitted job is on its way in every state of every run.** -/
theorem progress_of_run {w₀ w : World P n} (hinit : Submitted w₀)
    (hrun : ReflTransGen Step w₀ w) : Progress w₀ w := by
  induction hrun with
  | refl =>
    refine .preparing ⟨rfl, rfl, ?_, hinit.cacheJob, hinit.log⟩
    rw [hinit.state]
    exact .submitted
  | tail _ hstep ih => exact ih.step hstep

/-- **What a completed securing job leaves**: the control of its preparation,
secured; and the parties saw one full pass through the chain. -/
theorem completed_spec {w₀ w : World P n} (hinit : Submitted w₀)
    (hrun : ReflTransGen Step w₀ w) (hdone : w.job.state = .completed)
    (hsuccess : w.job.success = true) :
    ∃ skipPrevKey c, Prepared w₀.ctl w₀.job.operation w₀.job.generation skipPrevKey c
      ∧ w.ctl = c.secured
      ∧ w.job.sbCiphertext = cipherSuperblock P skipPrevKey c.sb
      ∧ w.log = advance P w₀.ctl.sb c.sb
        ++ chainEvents P c.sbIdx
            (P.blockDataFromSuperblock (cipherSuperblock P skipPrevKey c.sb))
            (P.hash (P.blockDataFromSuperblock c.sb))
        ++ advance P c.sb c.secured.sb := by
  cases progress_of_run hinit hrun with
  | preparing h =>
    exact absurd hdone h.phase.ne_completed
  | notFound _ _ h => rw [h] at hsuccess; exact absurd hsuccess (by simp)
  | @chain skipPrevKey c hp h =>
    refine ⟨skipPrevKey, c, hp, ?_, ?_, ?_⟩
    · rw [h.ctl, hdone]
      rfl
    · rw [h.ciphertext, hdone]
      rfl
    · rw [h.log, hdone, if_pos rfl]
      rfl

/-! ## Securing in order

The order is read off the log of a completed job. There are two ways to violate
it, and both are decided by what the job was submitted with. -/

/-- The operations that leave the last secured generation alone until the
trust anchor acknowledged; sync, create and discard set it to the current
generation at once. -/
def Operation.AdvancesLate : Operation → Prop
  | .sync | .createSnapshot | .discardSnapshot => False
  | _ => True

instance (op : Operation) : Decidable op.AdvancesLate := by
  unfold Operation.AdvancesLate
  cases op <;> infer_instance

/-- **The write ordering of securing**: for some slot and some superblock, the
parties have seen a beginning of this and nothing else – the cache is
synchronized; the superblock is written to the slot with no unwritten data in
the cache; the write completes; the device sync is issued and completes; the
trust anchor is given the hash of the block written and acknowledges it; the
last secured generation becomes that of the superblock. A job that completed
with success has gone through all of it up to the acknowledgement. -/
def SecuredInOrder (w : World P n) : Prop :=
  (∃ slot ct, w.log <+: chainEvents P slot (P.blockDataFromSuperblock ct)
      (P.hash (P.blockDataFromSuperblock ct)) ++ [.lastSecured ct.curr.gen])
    ∧ (w.job.state = .completed → w.job.success = true → 7 ≤ w.log.length)

/-- The hash of a superblock does not show whether its key values are
encrypted. -/
def Platform.HidesKeys (P : Platform) (skipPrevKey : Bool) (sb : Superblock) : Prop :=
  P.hash (P.blockDataFromSuperblock sb)
    = P.hash (P.blockDataFromSuperblock (cipherSuperblock P skipPrevKey sb))

/-- **The control lets an operation be secured in order**: it is one that leaves
the last secured generation alone, or there is nothing to change in it; and
every superblock that a job of it can have prepared, whatever the other modules
hand back, hashes alike with plain and with encrypted keys. An operation that
cannot be prepared at all, such as the discarding of a generation that no
snapshot has, secures nothing. -/
def SecurableInOrder (P : Platform) (c : Control) (op : Operation) (gen : ℕ) : Prop :=
  ∀ skipPrevKey c', Prepared c op gen skipPrevKey c' →
    (op.AdvancesLate ∨ c.sb.lastSecuredGeneration = c.currGen) ∧ P.HidesKeys skipPrevKey c'.sb

/-- What the preparation does to the last secured generation. -/
theorem Prepared.lastSecured {c c' : Control} {op : Operation} {gen : ℕ} {skip : Bool}
    (h : Prepared c op gen skip c') :
    c'.sb.lastSecuredGeneration
      = if op.AdvancesLate then c.sb.lastSecuredGeneration else c.currGen := by
  cases h with
  | sync => rfl
  | createSnapshot => rfl
  | discardSnapshot h =>
    obtain ⟨i, -, rfl⟩ := Option.map_eq_some_iff.mp h
    rfl
  | initializeRekeying v h =>
    obtain ⟨-, -, rfl⟩ := superblockEnterRekeyingState_spec h
    rfl
  | rekeyVba r s _ h | rekeyLastVba r s _ h =>
    obtain ⟨-, rfl⟩ := rekeyVbaInVbdCompleted_spec h
    rfl
  | enterVbdExtension _ _ h | enterFtExtension _ _ h =>
    obtain ⟨-, rfl⟩ := enterExtending_spec h
    rfl
  | vbdExtensionStep r s res _ _ h =>
    obtain ⟨newest, -, -, -, -, hlast, -⟩ := vbdExtStepInVbdCompleted_spec h
    exact hlast
  | ftExtensionStep r root m l res _ _ h =>
    obtain ⟨-, -, -, hlast, -⟩ := ftExtStepInFtCompleted_spec h
    exact hlast

/-- Every preparation stamps the current snapshot with the current
generation. -/
theorem Prepared.curr_gen {c c' : Control} {op : Operation} {gen : ℕ} {skip : Bool}
    (h : Prepared c op gen skip c') : c'.sb.curr.gen = c'.currGen := by
  cases h with
  | sync => simp [prepareSync, purgeAndStamp]
  | createSnapshot => simp [prepareCreateSnapshot]
  | discardSnapshot h =>
    obtain ⟨i, -, rfl⟩ := Option.map_eq_some_iff.mp h
    simp [purgeAndStamp]
  | _ => simp

/-- **An ordered chain**: with nothing logged before it and equal hashes, the
chain is a beginning of the order. -/
theorem Chain.securedInOrder {skipPrevKey : Bool} {c : Control} {w : World P n}
    (h : Chain P skipPrevKey [] c w) (hgen : c.sb.curr.gen = c.currGen)
    (hhash : P.HidesKeys skipPrevKey c.sb) : SecuredInOrder w := by
  have hlog := h.log
  rw [List.nil_append, hhash] at hlog
  have hcurr : (cipherSuperblock P skipPrevKey c.sb).curr.gen = c.currGen := hgen
  refine ⟨⟨c.sbIdx, cipherSuperblock P skipPrevKey c.sb, ?_⟩, fun hdone _ => ?_⟩
  · rw [hlog]
    by_cases hdone : w.job.state = .completed
    · rw [if_pos hdone, hdone, hcurr]
      refine (List.prefix_append_right_inj _).mpr ?_
      unfold advance
      split_ifs
      · exact List.nil_prefix
      · exact List.prefix_rfl
    · rw [if_neg hdone, List.append_nil]
      exact (List.take_prefix _ _).trans (List.prefix_append _ _)
  · rw [hlog, hdone]
    simp [JobState.progress, chainEvents]

/-- **A job is secured in order in every state of every run** if the control it
was submitted in allows it. -/
theorem Progress.securedInOrder {w₀ w : World P n} (h : Progress w₀ w)
    (hsecurable : SecurableInOrder P w₀.ctl w₀.job.operation w₀.job.generation) :
    SecuredInOrder w := by
  cases h with
  | preparing h =>
    refine ⟨⟨0, w₀.ctl.sb, ?_⟩, fun hdone => absurd hdone h.phase.ne_completed⟩
    rw [h.log]
    exact List.nil_prefix
  | notFound _ _ hsuccess hlog =>
    refine ⟨⟨0, w₀.ctl.sb, ?_⟩, fun _ hs => absurd (hsuccess.symm.trans hs) (by simp)⟩
    rw [hlog]
    exact List.nil_prefix
  | @chain skipPrevKey c hp h =>
    obtain ⟨hlate, hhash⟩ := hsecurable skipPrevKey c hp
    have hearly : advance P w₀.ctl.sb c.sb = [] := by
      refine advance_eq_nil ?_
      rw [hp.lastSecured]
      split_ifs with hop
      · rfl
      · exact (hlate.resolve_left hop).symm
    rw [hearly] at h
    exact h.securedInOrder hp.curr_gen hhash

/-! ### A job that runs to its end

Every control that a job can prepare is prepared in some run, and from there the
job is secured. So the conditions of `SecurableInOrder` are exact. There is a
lemma for each operation, which names the run: on a clean cache, with every
primitive successful. -/

/-- Every step keeps the chain, so every run does. -/
theorem Chain.run {skipPrevKey : Bool} {early : List (Event P)} {c : Control} {w w' : World P n}
    (h : Chain P skipPrevKey early c w) (hrun : ReflTransGen Step w w') :
    Chain P skipPrevKey early c w' := by
  induction hrun with
  | refl => exact h
  | tail _ hstep ih => exact ih.step hstep

/-- No slot of the cache is in use for data that is on its way. -/
def World.Clean (w : World P n) : Prop := ∀ i, w.slots i = .clean

/-- A sync of clean slots leaves them clean and completes. -/
theorem jobExecuteSync_of_clean {slots : Fin n → CacheSlotState} (h : ∀ i, slots i = .clean) :
    (∀ i, (jobExecuteSync slots).1 i = .clean) ∧ (jobExecuteSync slots).2 = .completed := by
  have hnot : ¬ cacheDirty slots := by
    rintro ⟨i, hi⟩
    rw [h i] at hi
    exact absurd hi (by decide)
  refine ⟨fun i => ?_, if_neg hnot⟩
  unfold jobExecuteSync
  dsimp only
  rw [h i]
  rfl

/-- The state that the chain goes on with after a primitive. -/
def GeneratedPrim.nextState (skipPrevKey : Bool) : GeneratedPrim → JobState
  | .encryptCurrentKey =>
    if skipPrevKey = true then .pending .syncCache else .pending .encryptPreviousKey
  | .encryptPreviousKey => .pending .syncCache
  | .syncCache => .pending .writeSb
  | .writeSb => .pending .syncBlkIo
  | .syncBlkIo => .pending .secureSb
  | _ => .completed

/-- What a module may hand back. -/
def PrimResult.of (value : KeyValue) (snapshots : Snapshots) (ext : ExtensionResult)
    (root : Type1Node) (maxLvlIdx nrOfLeaves : ℕ) : PrimResult where
  keyValue := value
  snapshots := snapshots
  ext := ext
  ftRoot := root
  ftMaxLvlIdx := maxLvlIdx
  ftNrOfLeaves := nrOfLeaves

/-- A pending primitive of the chain is served with success, and the job goes on
with the next one. -/
theorem Chain.exists_next {skipPrevKey : Bool} {early : List (Event P)} {c : Control}
    {w : World P n} {prim : GeneratedPrim} (h : Chain P skipPrevKey early c w) (hclean : w.Clean)
    (hst : w.job.state = .pending prim) (r : PrimResult) :
    ∃ w', ReflTransGen Step w w' ∧ w'.Clean ∧ w'.job.state = prim.nextState skipPrevKey := by
  -- the other party serves the primitive
  obtain ⟨w₁, hrun, hclean₁, hst₁⟩ : ∃ w₁, ReflTransGen Step w w₁ ∧ w₁.Clean
      ∧ w₁.job.state = .primCompleted prim true := by
    have hmark : ∀ job : Job,
        (markGeneratedPrimComplete P prim true r job).state = .primCompleted prim true := by
      intro job
      cases prim <;> rfl
    by_cases hsync : prim = .syncCache
    · subst hsync
      obtain ⟨hslots, hdone⟩ := jobExecuteSync_of_clean hclean
      exact ⟨_, .tail (.tail (.single (.generate hst)) (.cacheSync rfl))
        (.complete true r rfl fun _ => hdone), hslots, hmark _⟩
    · exact ⟨_, .tail (.single (.generate hst)) (.complete true r rfl fun h => absurd h hsync),
        hclean, hmark _⟩
  -- the job goes on
  have h₁ := h.run hrun
  obtain ⟨⟨c₂, job₂⟩, hexec, hnext⟩ : ∃ r, Cbe.execute P w₁.ctl w₁.job = some r
      ∧ r.2.state = prim.nextState skipPrevKey := by
    rw [execute_eq_executeSecuringChain h₁.inChain h₁.skip]
    unfold executeSecuringChain
    have hin := h₁.inChain
    rw [hst₁] at hin ⊢
    cases prim with
    | encryptCurrentKey => cases skipPrevKey <;> exact ⟨_, rfl, rfl⟩
    | encryptPreviousKey | syncCache | writeSb | syncBlkIo | secureSb => exact ⟨_, rfl, rfl⟩
    | _ => exact absurd hin (by simp [JobState.InChain, JobState.IsAt])
  exact ⟨_, hrun.tail (.execute hexec), hclean₁, hnext⟩

/-- **A chain that has begun on a clean cache can be completed.** -/
theorem Chain.exists_completed {skipPrevKey : Bool} {early : List (Event P)} {c : Control}
    {w : World P n} (h : Chain P skipPrevKey early c w) (hclean : w.Clean)
    (hst : w.job.state = .pending .encryptCurrentKey) :
    ∃ w', ReflTransGen Step w w' ∧ w'.job.state = .completed := by
  let r := PrimResult.of 0 (fun _ => snapshotInvalid) ⟨0, 0, 0⟩ type1NodeInvalid 0 0
  obtain ⟨w₁, hrun₁, hclean₁, hst₁⟩ : ∃ w₁, ReflTransGen Step w w₁ ∧ w₁.Clean
      ∧ w₁.job.state = .pending .syncCache := by
    obtain ⟨w₁, hrun₁, hclean₁, hst₁⟩ := h.exists_next hclean hst r
    cases hs : skipPrevKey <;> rw [hs] at hst₁
    · obtain ⟨w₂, hrun₂, hclean₂, hst₂⟩ := (h.run hrun₁).exists_next hclean₁ hst₁ r
      exact ⟨w₂, hrun₁.trans hrun₂, hclean₂, hst₂⟩
    · exact ⟨w₁, hrun₁, hclean₁, hst₁⟩
  have h₁ := h.run hrun₁
  obtain ⟨w₂, hrun₂, hclean₂, hst₂⟩ := h₁.exists_next hclean₁ hst₁ r
  have h₂ := h₁.run hrun₂
  obtain ⟨w₃, hrun₃, hclean₃, hst₃⟩ := h₂.exists_next hclean₂ hst₂ r
  have h₃ := h₂.run hrun₃
  obtain ⟨w₄, hrun₄, hclean₄, hst₄⟩ := h₃.exists_next hclean₃ hst₃ r
  obtain ⟨w₅, hrun₅, -, hst₅⟩ := (h₃.run hrun₄).exists_next hclean₄ hst₄ r
  exact ⟨w₅, (((hrun₁.trans hrun₂).trans hrun₃).trans hrun₄).trans hrun₅, hst₅⟩

/-- A world in which a job has just been submitted, with a clean cache. -/
def submittedWorld (P : Platform) (n : ℕ) (c : Control) (op : Operation) (gen nrOfBlks : ℕ) :
    World P n where
  ctl := c
  job :=
    { operation := op, state := .submitted, success := false, keyPlaintext := keyInvalid,
      generation := gen, hash := 0, pba := 0, nrOfBlks := nrOfBlks, nrOfLeaves := 0,
      sbCiphertext := c.sb, requestFinished := false,
      snapshots := fun _ => snapshotInvalid, ftRoot := type1NodeInvalid, ftMaxLvlIdx := 0,
      ftNrOfLeaves := 0, prevKeyPlaintext := keyInvalid }
  slots _ := .clean
  cacheJob := .invalid
  log := []

/-- **A job that is being prepared for a chain** on a clean cache. -/
structure Underway (w₀ w : World P n) : Prop where
  /-- A run leads there. -/
  run : ReflTransGen Step w₀ w
  /-- The job is before its chain. -/
  preparing : Preparing w₀ w
  /-- The cache is clean. -/
  clean : w.Clean

section Underway

variable {w₀ w w' : World P n}

/-- A job that was just submitted. -/
theorem underway_submittedWorld (c : Control) (op : Operation) (gen nrOfBlks : ℕ) :
    Underway (submittedWorld P n c op gen nrOfBlks) (submittedWorld P n c op gen nrOfBlks) where
  run := .refl
  preparing := ⟨rfl, rfl, .submitted, rfl, rfl⟩
  clean _ := rfl

/-- A step that neither begins the chain nor gives up keeps a job underway. -/
theorem Underway.step (h : Underway w₀ w) (hstep : Step w w') (hclean : w'.Clean)
    (hst : ¬ w'.job.state.InChain) : Underway w₀ w' := by
  refine ⟨h.run.tail hstep, ?_, hclean⟩
  cases h.preparing.step hstep with
  | preparing hp => exact hp
  | chain _ hc => exact absurd hc.inChain hst
  | notFound _ hdone =>
    rw [hdone] at hst
    exact absurd (by simp [JobState.InChain]) hst

/-- The states of one primitive belong to the chain together. -/
theorem GeneratedPrim.not_inChain {prim : GeneratedPrim} (h : ¬ JobState.InChain (.pending prim)) :
    ¬ JobState.InChain (.inProgress prim) ∧ ∀ ok, ¬ JobState.InChain (.primCompleted prim ok) := by
  simp only [JobState.InChain, JobState.IsAt, reduceCtorEq, or_false] at h ⊢
  exact ⟨h, fun _ => h⟩

/-- **Another party serves a primitive of the preparation** with success, and
hands back what it likes. -/
theorem Underway.serve (h : Underway w₀ w) {prim : GeneratedPrim}
    (hst : w.job.state = .pending prim) (hprim : ¬ JobState.InChain (.pending prim))
    (r : TreeRoots) (hr : prim.OnTrees ∨ r.apply w.ctl.sb = w.ctl.sb) (res : PrimResult) :
    ∃ w', Underway w₀ w' ∧ w'.ctl = { w.ctl with sb := r.apply w.ctl.sb }
      ∧ w'.job = markGeneratedPrimComplete P prim true res
        { w.job with state := .inProgress prim } := by
  obtain ⟨hinProgress, hprimCompleted⟩ := GeneratedPrim.not_inChain hprim
  have hsync : prim ≠ .syncCache := by
    rintro rfl
    exact hprim (by simp [JobState.InChain, JobState.IsAt])
  have hmark : ∀ job : Job,
      ¬ (markGeneratedPrimComplete P prim true res job).state.InChain := by
    intro job
    have hstate : (markGeneratedPrimComplete P prim true res job).state
        = .primCompleted prim true := by
      cases prim <;> rfl
    rw [hstate]
    exact hprimCompleted true
  have h₁ := h.step (.generate hst) h.clean hinProgress
  rcases hr with htrees | hsame
  · have h₂ := h₁.step (.modulesWork w.slots r rfl htrees) h.clean hinProgress
    exact ⟨_, h₂.step (.complete true res rfl fun hs => absurd hs hsync) h.clean (hmark _), rfl,
      rfl⟩
  · refine ⟨_, h₁.step (.complete true res rfl fun hs => absurd hs hsync) h.clean (hmark _), ?_,
      rfl⟩
    rw [hsame]

/-- **A job that has prepared a control secures it.** -/
theorem Underway.exists_completed (h : Underway w₀ w) {skipPrevKey : Bool} {c : Control}
    {j : Job} (hexec : execute P w.ctl w.job = some (startSecuring c j))
    (hskip : if j.operation = .rekeyVba then j.requestFinished = skipPrevKey
      else skipPrevKey = false) :
    ∃ w', ReflTransGen Step w₀ w' ∧ Chain P skipPrevKey (advance P w₀.ctl.sb c.sb) c w'
      ∧ w'.job.state = .completed := by
  have hchain := Chain.start (P := P) (c := c) (w := w) hskip h.preparing.cacheJob
    h.preparing.log (advance P w₀.ctl.sb c.sb)
  rw [← advance_congr h.preparing.phase.lastSecured] at hchain ⊢
  obtain ⟨w', hrun, hdone⟩ := hchain.exists_completed h.clean rfl
  exact ⟨w', (h.run.tail (.execute hexec)).trans hrun, hchain.run hrun, hdone⟩

end Underway

/-- The primitives of the preparations are not those of the chain. -/
theorem GeneratedPrim.OnTrees.not_inChain {prim : GeneratedPrim} (h : prim.OnTrees) :
    ¬ JobState.InChain (.pending prim) := by
  rcases h with rfl | rfl | rfl <;> simp [JobState.InChain, JobState.IsAt]

/-- A job of the operation, submitted in the control, can secure the prepared
one. -/
def CanSecure (P : Platform) (n : ℕ) (c : Control) (op : Operation) (gen : ℕ)
    (skipPrevKey : Bool) (c' : Control) : Prop :=
  ∃ nrOfBlks w, ReflTransGen Step (submittedWorld P n c op gen nrOfBlks) w
    ∧ Chain P skipPrevKey (advance P c.sb c'.sb) c' w ∧ w.job.state = .completed

section CanSecure

variable {c : Control} {gen : ℕ} {sb : Superblock}

/-- The job that begins a rekeying asks for a key, which it stores. -/
theorem canSecure_initializeRekeying (value : KeyValue)
    (h : superblockEnterRekeyingState c.sb value = some sb) :
    CanSecure P n c .initializeRekeying gen false { c with sb := sb.setCurrGen c.currGen } := by
  have hcreate : ¬ JobState.InChain (.pending .createKey) := by
    simp [JobState.InChain, JobState.IsAt]
  have hadd : ¬ JobState.InChain (.pending .addKeyAtCryptoModule) := by
    simp [JobState.InChain, JobState.IsAt]
  have h₁ := (underway_submittedWorld (P := P) (n := n) c .initializeRekeying gen 0).step
    (.execute (c := c) rfl) (fun _ => rfl) hcreate
  obtain ⟨w₂, h₂, hctl₂, hjob₂⟩ := h₁.serve rfl hcreate (TreeRoots.of c.sb) (.inr rfl)
    (PrimResult.of value (fun _ => snapshotInvalid) ⟨0, 0, 0⟩ type1NodeInvalid 0 0)
  have hexec₂ : execute P w₂.ctl w₂.job = some ({ c with sb := sb }, { w₂.job with
      keyPlaintext := sb.currentKey
      state := .pending .addKeyAtCryptoModule }) := by
    rw [hctl₂, hjob₂]
    exact congrArg (Option.map _) h
  have h₃ := h₂.step (.execute hexec₂) h₂.clean hadd
  obtain ⟨w₄, h₄, hctl₄, hjob₄⟩ := h₃.serve rfl hadd (TreeRoots.of sb) (.inr rfl)
    (PrimResult.of value (fun _ => snapshotInvalid) ⟨0, 0, 0⟩ type1NodeInvalid 0 0)
  refine ⟨0, h₄.exists_completed (j := w₄.job) ?_ ?_⟩
  · rw [hctl₄, hjob₄, hjob₂]
    rfl
  · rw [hjob₄, hjob₂]
    rfl

/-- The modules have rekeyed an address in all snapshots. -/
theorem exists_underway_rekeyVba (gen : ℕ) (r : TreeRoots) (snaps : Snapshots)
    (hstate : c.sb.state = .rekeying) :
    ∃ w, Underway (submittedWorld P n c .rekeyVba gen 0) w
      ∧ w.ctl = { c with sb := r.apply c.sb }
      ∧ w.job = { (submittedWorld P n c .rekeyVba gen 0).job with
          state := .primCompleted .rekeyVbaInVbd true
          snapshots := snaps } := by
  have htrees : GeneratedPrim.OnTrees .rekeyVbaInVbd := .inl rfl
  have hexec : execute P c (submittedWorld P n c .rekeyVba gen 0).job
      = some (c, { (submittedWorld P n c .rekeyVba gen 0).job with
          state := .pending .rekeyVbaInVbd }) := if_neg (not_not.mpr hstate)
  have h₁ := (underway_submittedWorld (P := P) (n := n) c .rekeyVba gen 0).step
    (.execute hexec) (fun _ => rfl) htrees.not_inChain
  obtain ⟨w₂, h₂, hctl₂, hjob₂⟩ := h₁.serve rfl htrees.not_inChain r (.inl htrees)
    (PrimResult.of 0 snaps ⟨0, 0, 0⟩ type1NodeInvalid 0 0)
  exact ⟨w₂, h₂, hctl₂, hjob₂⟩

/-- A step of a rekeying that is not the last one. -/
theorem canSecure_rekeyVba (r : TreeRoots) (snaps : Snapshots) (hstate : c.sb.state = .rekeying)
    (h : rekeyVbaInVbdCompleted (r.apply c.sb) snaps = some (sb, true)) :
    CanSecure P n c .rekeyVba gen false { c with sb := sb.setCurrGen c.currGen } := by
  obtain ⟨w, hw, hctl, hjob⟩ := exists_underway_rekeyVba (P := P) (n := n) gen r snaps
    hstate
  refine ⟨0, hw.exists_completed (j := { w.job with requestFinished := false }) ?_ ?_⟩
  · rw [hctl, hjob]
    exact congrArg (Option.map _) h
  · rw [hjob]
    rfl

/-- The last step of a rekeying has the previous key removed. -/
theorem canSecure_rekeyLastVba (r : TreeRoots) (snaps : Snapshots)
    (hstate : c.sb.state = .rekeying)
    (h : rekeyVbaInVbdCompleted (r.apply c.sb) snaps = some (sb, false)) :
    CanSecure P n c .rekeyVba gen true
      { c with sb := (finishRekeying sb).setCurrGen c.currGen } := by
  have hremove : ¬ JobState.InChain (.pending .removePreviousKeyAtCryptoModule) := by
    simp [JobState.InChain, JobState.IsAt]
  obtain ⟨w, hw, hctl, hjob⟩ := exists_underway_rekeyVba (P := P) (n := n) gen r snaps
    hstate
  have hexec : execute P w.ctl w.job = some ({ c with sb := sb }, { w.job with
      prevKeyPlaintext := { w.job.prevKeyPlaintext with id := sb.previousKey.id }
      state := .pending .removePreviousKeyAtCryptoModule }) := by
    rw [hctl, hjob]
    exact congrArg (Option.map _) h
  have h₁ := hw.step (.execute hexec) hw.clean hremove
  obtain ⟨w₂, h₂, hctl₂, hjob₂⟩ := h₁.serve rfl hremove (TreeRoots.of sb) (.inr rfl)
    (PrimResult.of 0 snaps ⟨0, 0, 0⟩ type1NodeInvalid 0 0)
  refine ⟨0, h₂.exists_completed (j := { w₂.job with requestFinished := true }) ?_ ?_⟩
  · rw [hctl₂, hjob₂, hjob]
    rfl
  · rw [hjob₂, hjob]
    rfl

/-- The first call of an extension of the virtual block device. -/
theorem canSecure_enterVbdExtension (nrOfBlks : ℕ) (hstate : c.sb.state = .normal)
    (h : enterExtending .extendingVbd c.sb nrOfBlks = some sb) :
    CanSecure P n c .vbdExtensionStep gen false { c with sb := sb.setCurrGen c.currGen } := by
  refine ⟨nrOfBlks, (underway_submittedWorld c .vbdExtensionStep gen nrOfBlks).exists_completed
    (j := { (submittedWorld P n c .vbdExtensionStep gen nrOfBlks).job with
      requestFinished := false
      pba := firstUnusedPba c.sb }) ?_ rfl⟩
  unfold execute executeVbdExtensionStep
  dsimp only [submittedWorld]
  rw [hstate]
  dsimp only
  rw [h]
  rfl

/-- The first call of an extension of the free tree. -/
theorem canSecure_enterFtExtension (nrOfBlks : ℕ) (hstate : c.sb.state = .normal)
    (h : enterExtending .extendingFt c.sb nrOfBlks = some sb) :
    CanSecure P n c .ftExtensionStep gen false { c with sb := sb.setCurrGen c.currGen } := by
  refine ⟨nrOfBlks, (underway_submittedWorld c .ftExtensionStep gen nrOfBlks).exists_completed
    (j := { (submittedWorld P n c .ftExtensionStep gen nrOfBlks).job with
      requestFinished := false
      pba := firstUnusedPba c.sb }) ?_ rfl⟩
  unfold execute executeFtExtensionStep
  dsimp only [submittedWorld]
  rw [hstate]
  dsimp only
  rw [h]
  rfl

/-- A later call, with the result of the rekeying module. -/
theorem canSecure_vbdExtensionStep {finished : Bool} (r : TreeRoots) (snaps : Snapshots)
    (res : ExtensionResult) (hstate : c.sb.state = .extendingVbd)
    (hfits : c.sb.resizingNrOfPbas ≤ nrOfUnusedPbas c.sb)
    (h : vbdExtStepInVbdCompleted (r.apply c.sb) snaps res = some (sb, finished)) :
    CanSecure P n c .vbdExtensionStep gen false { c with sb := sb.setCurrGen c.currGen } := by
  have htrees : GeneratedPrim.OnTrees .vbdExtStepInVbd := .inr (.inl rfl)
  have hexec : execute P c (submittedWorld P n c .vbdExtensionStep gen 0).job
      = some (c, { (submittedWorld P n c .vbdExtensionStep gen 0).job with
          pba := firstUnusedPba c.sb
          nrOfBlks := c.sb.resizingNrOfPbas
          state := .pending .vbdExtStepInVbd }) := by
    unfold execute executeVbdExtensionStep
    dsimp only [submittedWorld]
    rw [hstate]
    exact if_neg (not_lt.mpr hfits)
  have h₁ := (underway_submittedWorld (P := P) (n := n) c .vbdExtensionStep gen 0).step
    (.execute hexec) (fun _ => rfl) htrees.not_inChain
  obtain ⟨w₂, h₂, hctl₂, hjob₂⟩ := h₁.serve rfl htrees.not_inChain r (.inl htrees)
    (PrimResult.of 0 snaps res type1NodeInvalid 0 0)
  refine ⟨0, h₂.exists_completed (j := { w₂.job with
    requestFinished := finished || w₂.job.requestFinished }) ?_ ?_⟩
  · rw [hctl₂, hjob₂]
    exact congrArg (Option.map _) h
  · rw [hjob₂]
    rfl

/-- A later call, with the result of the module of the free tree. -/
theorem canSecure_ftExtensionStep {finished : Bool} (r : TreeRoots) (root : Type1Node)
    (maxLvlIdx nrOfLeaves : ℕ) (res : ExtensionResult) (hstate : c.sb.state = .extendingFt)
    (hfits : c.sb.resizingNrOfPbas ≤ nrOfUnusedPbas c.sb)
    (h : ftExtStepInFtCompleted (r.apply c.sb) root maxLvlIdx nrOfLeaves res
      = some (sb, finished)) :
    CanSecure P n c .ftExtensionStep gen false { c with sb := sb.setCurrGen c.currGen } := by
  have htrees : GeneratedPrim.OnTrees .ftExtStepInFt := .inr (.inr rfl)
  have hexec : execute P c (submittedWorld P n c .ftExtensionStep gen 0).job
      = some (c, { (submittedWorld P n c .ftExtensionStep gen 0).job with
          pba := firstUnusedPba c.sb
          nrOfBlks := c.sb.resizingNrOfPbas
          state := .pending .ftExtStepInFt }) := by
    unfold execute executeFtExtensionStep
    dsimp only [submittedWorld]
    rw [hstate]
    exact if_neg (not_lt.mpr hfits)
  have h₁ := (underway_submittedWorld (P := P) (n := n) c .ftExtensionStep gen 0).step
    (.execute hexec) (fun _ => rfl) htrees.not_inChain
  obtain ⟨w₂, h₂, hctl₂, hjob₂⟩ := h₁.serve rfl htrees.not_inChain r (.inl htrees)
    (PrimResult.of 0 (fun _ => snapshotInvalid) res root maxLvlIdx nrOfLeaves)
  refine ⟨0, h₂.exists_completed (j := { w₂.job with
    requestFinished := finished || w₂.job.requestFinished }) ?_ ?_⟩
  · rw [hctl₂, hjob₂]
    exact congrArg (Option.map _) h
  · rw [hjob₂]
    rfl

/-- **Every control that a job can prepare is secured in some run.** -/
theorem Prepared.canSecure {c' : Control} {op : Operation} {skipPrevKey : Bool}
    (h : Prepared c op gen skipPrevKey c') (P : Platform) (n : ℕ) :
    CanSecure P n c op gen skipPrevKey c' := by
  cases h with
  | sync => exact ⟨0, (underway_submittedWorld c .sync gen 0).exists_completed rfl rfl⟩
  | createSnapshot =>
    exact ⟨0, (underway_submittedWorld c .createSnapshot gen 0).exists_completed rfl rfl⟩
  | discardSnapshot hd =>
    refine ⟨0, (underway_submittedWorld c .discardSnapshot gen 0).exists_completed
      (j := (submittedWorld P n c .discardSnapshot gen 0).job) ?_ rfl⟩
    unfold execute executeDiscardSnapshot
    dsimp only [submittedWorld]
    rw [hd]
  | initializeRekeying value hsb => exact canSecure_initializeRekeying value hsb
  | rekeyVba r snaps hstate hsb => exact canSecure_rekeyVba r snaps hstate hsb
  | rekeyLastVba r snaps hstate hsb => exact canSecure_rekeyLastVba r snaps hstate hsb
  | enterVbdExtension nrOfBlks hstate hsb => exact canSecure_enterVbdExtension nrOfBlks hstate hsb
  | vbdExtensionStep r snaps res hstate hfits hsb =>
    exact canSecure_vbdExtensionStep r snaps res hstate hfits hsb
  | enterFtExtension nrOfBlks hstate hsb => exact canSecure_enterFtExtension nrOfBlks hstate hsb
  | ftExtensionStep r root maxLvlIdx nrOfLeaves res hstate hfits hsb =>
    exact canSecure_ftExtensionStep r root maxLvlIdx nrOfLeaves res hstate hfits hsb

end CanSecure

/-- **A job that was secured in order** logged nothing before its chain, and the
hash of its superblock did not show the keys. -/
theorem Chain.of_securedInOrder {skipPrevKey : Bool} {c₀ c : Control} {w : World P n}
    (h : Chain P skipPrevKey (advance P c₀.sb c.sb) c w) (hdone : w.job.state = .completed)
    (hord : SecuredInOrder w) :
    c.sb.lastSecuredGeneration = c₀.sb.lastSecuredGeneration ∧ P.HidesKeys skipPrevKey c.sb := by
  obtain ⟨⟨slot, ct, hpre⟩, -⟩ := hord
  rw [h.log, hdone] at hpre
  -- the first event seen is the synchronized cache, so nothing came before it
  have hlast : c.sb.lastSecuredGeneration = c₀.sb.lastSecuredGeneration := by
    by_contra hne
    unfold advance at hpre
    rw [if_neg hne] at hpre
    simp [chainEvents, JobState.progress] at hpre
  refine ⟨hlast, ?_⟩
  rw [advance_eq_nil hlast] at hpre
  simp only [chainEvents, JobState.progress, List.take, List.nil_append, List.cons_append,
    List.cons_prefix_cons, true_and, Event.writeSb.injEq, Event.sbWritten.injEq,
    Event.secureSb.injEq, and_true] at hpre
  obtain ⟨⟨-, hblk⟩, -, hhash, -⟩ := hpre
  unfold Platform.HidesKeys
  rw [hhash, hblk]

/-- **When securing is in order.** In every state of every run of every job of
an operation, submitted in a control, the parties have seen the order if and
only if the control lets the operation be secured in order. -/
theorem securedInOrder_iff (P : Platform) (n : ℕ) (c : Control) (op : Operation) (gen : ℕ) :
    (∀ w₀ w : World P n, Submitted w₀ → w₀.ctl = c → w₀.job.operation = op →
        w₀.job.generation = gen → ReflTransGen Step w₀ w → SecuredInOrder w)
      ↔ SecurableInOrder P c op gen := by
  constructor
  · intro hruns skipPrevKey c' hp
    obtain ⟨nrOfBlks, w, hrun, hchain, hdone⟩ := hp.canSecure P n
    have hord := hruns (submittedWorld P n c op gen nrOfBlks) w ⟨rfl, rfl, rfl⟩ rfl rfl rfl hrun
    obtain ⟨hlast, hhides⟩ := hchain.of_securedInOrder hdone hord
    refine ⟨?_, hhides⟩
    rw [hp.lastSecured] at hlast
    split_ifs at hlast with hop
    · exact .inl hop
    · exact .inr hlast.symm
  · rintro hsecurable w₀ w hinit rfl rfl rfl hrun
    exact (progress_of_run hinit hrun).securedInOrder hsecurable

/-- A job submitted on a fresh device whose only snapshot is of generation 0. -/
def freshWorld (op : Operation) : World Platform.sample 1 where
  ctl := { sb := Superblock.sample 0, sbIdx := 0, currGen := 1 }
  job :=
    { operation := op, state := .submitted, success := false, keyPlaintext := keyInvalid,
      generation := 0, hash := 0, pba := 0, nrOfBlks := 0, nrOfLeaves := 0,
      sbCiphertext := Superblock.sample 0, requestFinished := false,
      snapshots := fun _ => snapshotInvalid, ftRoot := type1NodeInvalid, ftMaxLvlIdx := 0,
      ftNrOfLeaves := 0, prevKeyPlaintext := keyInvalid }
  slots _ := .clean
  cacheJob := .invalid
  log := []

/-- On a fresh device a sync advances the last secured generation as its very
first step. -/
theorem not_securedInOrder_sync :
    Submitted (freshWorld .sync)
      ∧ ∃ w, ReflTransGen Step (freshWorld .sync) w ∧ ¬ SecuredInOrder w := by
  refine ⟨⟨rfl, rfl, rfl⟩, _, .single (.execute rfl), ?_⟩
  rintro ⟨⟨slot, ct, hpre⟩, -⟩
  have hlog : advance Platform.sample (freshWorld .sync).ctl.sb
      (prepareSync (freshWorld .sync).ctl).sb = [.lastSecured 1] := rfl
  rw [show (freshWorld .sync).log = [] from rfl, hlog] at hpre
  simp [chainEvents] at hpre

end Cbe
