import Cbe.Startup
import Cbe.Securing
import Cbe.VbdExtension
import Cbe.FtResizing
import Cbe.Support.Runs

/-!
# The device

The state of the whole device between two requests, and what a request does to
it. The library executes its requests one after the other – a rekeying and an
extension go on in steps between which other requests are served – so a
completed request, or a completed step of one, is an `Action`, and a run is a
sequence of actions (`Run`).

The securing actions are those of the jobs of `Cbe.SuperblockControl` that run
to their end: what each of them secures is what its job has prepared
(`Device.step_secures`). An interruption between the parts of a securing is the
subject of `Cbe.InterruptedSecuring`.

The meta tree is an input of an action (`MetaTree`): the blocks that it will
hand out one after the other and the root that it has afterwards. So is what a
restart finds on the block device apart from the superblock slots.

A step raises or waits for ever in many places, and none of them leaves a state
behind: the library stops serving. So `step` is a partial function, and what is
proved of all runs is proved of those that did not stop.

For each action there is a lemma that says what a step must have done, with the
tests that it has passed. The modules that follow start from these, or from
`Effect`, which is what an action does to the memory of the library and to the
slots.
-/

namespace Cbe

variable {P : Platform}

/-- What the meta tree contributes to an action: the blocks that it will hand
out and the root that it has afterwards. No block has the address 0. -/
structure MetaTree where
  /-- The blocks that it will hand out, one after the other. -/
  pbas : List ℕ
  /-- Its root afterwards. -/
  root : Type1Node
  /-- None of the blocks has the address that means none. -/
  pba_ne_zero : ∀ pba ∈ pbas, pba ≠ 0

/-- A meta tree that hands out nothing and keeps the root of a superblock. -/
def MetaTree.none (sb : Superblock) : MetaTree where
  pbas := []
  root := (TreeRoots.of sb).meta'
  pba_ne_zero := by simp

/-- **The device.** Besides the memory of the library (the superblock in
memory with its slot index and the current generation, the job of the rekeying
module) and the blocks, it records which slot holds the superblock that was
secured with the trust anchor most recently. -/
structure Device (P : Platform) where
  /-- The superblock in memory, the next slot and the current generation. -/
  ctl : Control
  /-- The blocks of the virtual block device, with what was written to them. -/
  store : Store P
  /-- The free tree. -/
  free : FtNode
  /-- What the free tree has written to its own blocks. -/
  freeWrites : List (ℕ × P.Block)
  /-- The superblock slots. -/
  slots : SuperblocksIndex → SuperblockCiphertext
  /-- The job of the rekeying module. -/
  rkg : RekeyingJob P
  /-- The slot of the superblock that the trust anchor has the hash of. -/
  securedSlot : Option SuperblocksIndex

/-- The requests, and the steps of those that take several. -/
inductive Action (P : Platform) where
  | write (vba : ℕ) (data : P.Block) (mt : MetaTree)
  | sync
  | createSnapshot
  | discardSnapshot (gen : ℕ)
  | initializeRekeying (value : KeyValue)
  | rekeyVba (mt : MetaTree)
  | vbdExtensionStep (nrOfBlks : ℕ) (mt : MetaTree)
  | ftExtensionStep (nrOfBlks : ℕ) (mt : MetaTree)
  | restart (store : Store P) (free : FtNode)

/-- **What a securing job has prepared** when its chain begins: the device as
the other modules left it, the control with the superblock to be secured, and
whether the chain leaves out the previous key. -/
structure Preparation (P : Platform) where
  /-- The device as the other modules left it. -/
  dev : Device P
  /-- Whether the previous key is left out. -/
  skipPrevKey : Bool
  /-- The control with the superblock to be secured. -/
  ctl : Control

namespace Device

/-- The superblock in memory. -/
def sb (d : Device P) : Superblock := d.ctl.sb

/-- **A superblock is secured**: the slot at hand takes its encoding with
encrypted keys, and the trust anchor its hash. This is the securing chain run
to its end; `Cbe.InterruptedSecuring` takes it apart into the write of the
slot, the sync of the block device and the hash handed to the trust anchor,
with a restart possible between any two of them. -/
def secure (d : Device P) (skipPrevKey : Bool) (c : Control) : Device P :=
  { d with
    ctl := c.secured
    slots := Function.update d.slots c.sbIdx (cipherSuperblock P skipPrevKey c.sb)
    securedSlot := some c.sbIdx }

end Device

/-- The chain of a prepared job run to its end. -/
def Preparation.secured (p : Preparation P) : Device P := p.dev.secure p.skipPrevKey p.ctl

namespace Device

/-- What the rekeying module works on. -/
def workspace (d : Device P) (mt : MetaTree) : Workspace P where
  store := d.store
  pools := { freeRoot := d.sb.freeRoot, freeTree := d.free, metaPbas := mt.pbas }
  freeWrites := d.freeWrites

/-- What the library adds to a request of the rekeying module for the free
tree. -/
def allocContext (d : Device P) : AllocContext where
  vbdHighestVba := maxVba d.sb
  rekeying := decide (d.sb.state = .rekeying)
  activeSnaps := d.sb.snapshots
  lastSecuredGen := d.sb.lastSecuredGeneration

/-- The rekeying module has worked: the device has its store, its free tree
and its job. -/
def withWorkspace (d : Device P) (ws : Workspace P) (job : RekeyingJob P) : Device P :=
  { d with
    store := ws.store
    free := ws.pools.freeTree
    freeWrites := ws.freeWrites
    rkg := job }

/-- The roots of the trees after the rekeying module has worked. -/
def rootsOf (ws : Workspace P) (mt : MetaTree) : TreeRoots where
  free := ws.pools.freeRoot
  meta' := mt.root

/-- A write of a block that completes. -/
def write (d : Device P) (vba : ℕ) (data : P.Block) (mt : MetaTree) : Option (Device P) :=
  (writeVba d.store d.sb d.ctl.currGen d.free mt.pbas vba data).map fun res =>
    { d with
      ctl := { d.ctl with sb := { TreeRoots.of res.sb with meta' := mt.root }.apply res.sb }
      store := res.store
      free := res.free
      freeWrites := d.freeWrites ++ res.freeWrites }

/-- `Initialize_Rekeying` up to its chain. -/
def prepareInitializeRekeying (d : Device P) (value : KeyValue) : Option (Preparation P) :=
  (superblockEnterRekeyingState d.sb value).map fun sb =>
    { dev := d
      skipPrevKey := false
      ctl := { d.ctl with sb := sb.setCurrGen d.ctl.currGen } }

/-- The superblock that a step of a rekeying prepares; after the last one the
rekeying is finished. -/
def rekeyed (sb : Superblock) (more : Bool) (currGen : ℕ) : Superblock :=
  (if more = true then sb else finishRekeying sb).setCurrGen currGen

/-- One step of a rekeying up to its chain. -/
def prepareRekeyVba (d : Device P) (mt : MetaTree) : Option (Preparation P) :=
  if d.sb.state ≠ .rekeying then none
  else
    (executeRekeyVbaInVbd d.allocContext (d.workspace mt)
        (submitRekeying d.rkg d.sb d.ctl.currGen)).bind fun (ws, job) =>
      (rekeyVbaInVbdCompleted ((rootsOf ws mt).apply d.sb) job.snapshots).map
        fun (sb, more) =>
          { dev := d.withWorkspace ws job
            skipPrevKey := !more
            ctl := { d.ctl with sb := rekeyed sb more d.ctl.currGen } }

/-- One call of an extension of the virtual block device up to its chain: the
first one enters the extending state, every later one does a step. -/
def prepareVbdExtensionStep (d : Device P) (nrOfBlks : ℕ) (mt : MetaTree) :
    Option (Preparation P) :=
  match d.sb.state with
  | .normal =>
    (enterExtending .extendingVbd d.sb nrOfBlks).map fun sb =>
      { dev := d
        skipPrevKey := false
        ctl := { d.ctl with sb := sb.setCurrGen d.ctl.currGen } }
  | .extendingVbd =>
    if d.sb.resizingNrOfPbas > nrOfUnusedPbas d.sb then none
    else
      (executeVbdExtensionStepInVbd d.allocContext (d.workspace mt)
          (submitResizing d.rkg d.sb d.ctl.currGen (firstUnusedPba d.sb)
            d.sb.resizingNrOfPbas)).bind fun (ws, job) =>
        (vbdExtStepInVbdCompleted ((rootsOf ws mt).apply d.sb) job.snapshots
            ⟨job.pba, job.nrOfPbas, job.nrOfLeaves⟩).map fun (sb, _) =>
          { dev := d.withWorkspace ws job
            skipPrevKey := false
            ctl := { d.ctl with sb := sb.setCurrGen d.ctl.currGen } }
  | _ => none

/-- What the extension of the free tree is given. -/
def ftExtState (d : Device P) (mt : MetaTree) : FtExtState P where
  pba := firstUnusedPba d.sb
  nrOfPbas := d.sb.resizingNrOfPbas
  nrOfLeaves := 0
  metaPbas := mt.pbas
  writes := []

/-- One call of an extension of the free tree up to its chain. -/
def prepareFtExtensionStep (d : Device P) (nrOfBlks : ℕ) (mt : MetaTree) :
    Option (Preparation P) :=
  match d.sb.state with
  | .normal =>
    (enterExtending .extendingFt d.sb nrOfBlks).map fun sb =>
      { dev := d
        skipPrevKey := false
        ctl := { d.ctl with sb := sb.setCurrGen d.ctl.currGen } }
  | .extendingFt =>
    if d.sb.resizingNrOfPbas > nrOfUnusedPbas d.sb then none
    else
      (executeFtExtensionStepInFt P d.sb.freeDegree d.ctl.currGen d.sb.freeLeafs
          d.sb.freeMaxLevel d.free d.sb.freeRoot
          (d.ftExtState mt)).bind fun res =>
        (ftExtStepInFtCompleted
            ({ TreeRoots.of d.sb with meta' := mt.root }.apply d.sb) res.root
            res.maxLvlIdx (d.sb.freeLeafs + res.state.nrOfLeaves)
            ⟨res.state.pba, res.state.nrOfPbas, res.state.nrOfLeaves⟩).map fun (sb, _) =>
          { dev := { d with
              free := res.tree
              freeWrites := d.freeWrites ++ res.state.writes }
            skipPrevKey := false
            ctl := { d.ctl with sb := sb.setCurrGen d.ctl.currGen } }
  | _ => none

/-- **What an action prepares for securing.** It is `none` for the actions
that secure nothing, for a discard that finds no snapshot, and where the
library raises or waits for ever before the chain begins. -/
def prepare (d : Device P) : Action P → Option (Preparation P)
  | .write _ _ _ | .restart _ _ => none
  | .sync => some { dev := d, skipPrevKey := false, ctl := prepareSync d.ctl }
  | .createSnapshot => some { dev := d, skipPrevKey := false, ctl := prepareCreateSnapshot d.ctl }
  | .discardSnapshot gen =>
    (prepareDiscardSnapshot d.ctl gen).map fun c => { dev := d, skipPrevKey := false, ctl := c }
  | .initializeRekeying value => d.prepareInitializeRekeying value
  | .rekeyVba mt => d.prepareRekeyVba mt
  | .vbdExtensionStep nrOfBlks mt => d.prepareVbdExtensionStep nrOfBlks mt
  | .ftExtensionStep nrOfBlks mt => d.prepareFtExtensionStep nrOfBlks mt

/-- `Initialize_Rekeying`. -/
def initializeRekeying (d : Device P) (value : KeyValue) : Option (Device P) :=
  (d.prepareInitializeRekeying value).map Preparation.secured

/-- One step of a rekeying. -/
def rekeyVba (d : Device P) (mt : MetaTree) : Option (Device P) :=
  (d.prepareRekeyVba mt).map Preparation.secured

/-- One call of an extension of the virtual block device. -/
def vbdExtensionStep (d : Device P) (nrOfBlks : ℕ) (mt : MetaTree) : Option (Device P) :=
  (d.prepareVbdExtensionStep nrOfBlks mt).map Preparation.secured

/-- One call of an extension of the free tree. -/
def ftExtensionStep (d : Device P) (nrOfBlks : ℕ) (mt : MetaTree) : Option (Device P) :=
  (d.prepareFtExtensionStep nrOfBlks mt).map Preparation.secured

/-- The library starts on the blocks that it finds. -/
def restart (d : Device P) (store : Store P) (free : FtNode) : Option (Device P) :=
  (executeInitialize P d.slots).map fun c =>
    { d with
      ctl := c
      store := store
      free := free
      freeWrites := []
      rkg := RekeyingJob.initial P }

/-- **One action.** It is `none` where the library raises or waits for ever;
a discard that finds no snapshot completes without success and changes
nothing. -/
def step (d : Device P) : Action P → Option (Device P)
  | .write vba data mt => d.write vba data mt
  | .sync => some (d.secure false (prepareSync d.ctl))
  | .createSnapshot => some (d.secure false (prepareCreateSnapshot d.ctl))
  | .discardSnapshot gen =>
    match prepareDiscardSnapshot d.ctl gen with
    | some c => some (d.secure false c)
    | none => some d
  | .initializeRekeying value => d.initializeRekeying value
  | .rekeyVba mt => d.rekeyVba mt
  | .vbdExtensionStep nrOfBlks mt => d.vbdExtensionStep nrOfBlks mt
  | .ftExtensionStep nrOfBlks mt => d.ftExtensionStep nrOfBlks mt
  | .restart store free => d.restart store free

/-! ## What an action does

One inversion lemma for each action; no later proof unfolds `step`. -/

variable {d d' : Device P}

/-- A write that completes has replaced the branch of its address. -/
theorem write_spec {vba : ℕ} {data : P.Block} {mt : MetaTree}
    (h : d.write vba data mt = some d') :
    ∃ res, writeVba d.store d.sb d.ctl.currGen d.free mt.pbas vba data = some res
      ∧ d' = { d with
          ctl := { d.ctl with sb := { TreeRoots.of res.sb with meta' := mt.root }.apply res.sb }
          store := res.store
          free := res.free
          freeWrites := d.freeWrites ++ res.freeWrites } := by
  obtain ⟨res, hres, rfl⟩ := Option.map_eq_some_iff.mp h
  exact ⟨res, hres, rfl⟩

/-- A rekeying begins with a new key and is secured. -/
theorem initializeRekeying_spec {value : KeyValue}
    (h : d.initializeRekeying value = some d') :
    ∃ sb, superblockEnterRekeyingState d.sb value = some sb
      ∧ d' = d.secure false { d.ctl with sb := sb.setCurrGen d.ctl.currGen } := by
  obtain ⟨p, hp, rfl⟩ := Option.map_eq_some_iff.mp h
  obtain ⟨sb, hsb, rfl⟩ := Option.map_eq_some_iff.mp hp
  exact ⟨sb, hsb, rfl⟩

/-- A step of a rekeying needs the state of one, and the rekeying module to
complete. -/
theorem prepareRekeyVba_spec {mt : MetaTree} {p : Preparation P}
    (h : d.prepareRekeyVba mt = some p) :
    d.sb.state = .rekeying
      ∧ ∃ ws job sb more,
        executeRekeyVbaInVbd d.allocContext (d.workspace mt)
            (submitRekeying d.rkg d.sb d.ctl.currGen) = some (ws, job)
          ∧ rekeyVbaInVbdCompleted ((rootsOf ws mt).apply d.sb) job.snapshots = some (sb, more)
          ∧ p = {
              dev := d.withWorkspace ws job
              skipPrevKey := !more
              ctl := { d.ctl with sb := rekeyed sb more d.ctl.currGen } } := by
  unfold prepareRekeyVba at h
  split_ifs at h with hst
  obtain ⟨⟨ws, job⟩, hrun, h⟩ := Option.bind_eq_some_iff.mp h
  obtain ⟨⟨sb, more⟩, hsb, rfl⟩ := Option.map_eq_some_iff.mp h
  exact ⟨not_not.mp hst, ws, job, sb, more, hrun, hsb, rfl⟩

/-- It is secured. -/
theorem rekeyVba_spec {mt : MetaTree} (h : d.rekeyVba mt = some d') :
    d.sb.state = .rekeying
      ∧ ∃ ws job sb more,
        executeRekeyVbaInVbd d.allocContext (d.workspace mt)
            (submitRekeying d.rkg d.sb d.ctl.currGen) = some (ws, job)
          ∧ rekeyVbaInVbdCompleted ((rootsOf ws mt).apply d.sb) job.snapshots = some (sb, more)
          ∧ d' = (d.withWorkspace ws job).secure (!more)
              { d.ctl with sb := rekeyed sb more d.ctl.currGen } := by
  obtain ⟨p, hp, rfl⟩ := Option.map_eq_some_iff.mp h
  obtain ⟨hst, ws, job, sb, more, hrun, hsb, rfl⟩ := prepareRekeyVba_spec hp
  exact ⟨hst, ws, job, sb, more, hrun, hsb, rfl⟩

/-- The first call of an extension enters the state, a later one needs the
rekeying module to complete. -/
theorem prepareVbdExtensionStep_spec {nrOfBlks : ℕ} {mt : MetaTree} {p : Preparation P}
    (h : d.prepareVbdExtensionStep nrOfBlks mt = some p) :
    (d.sb.state = .normal ∧ ∃ sb, enterExtending .extendingVbd d.sb nrOfBlks = some sb
        ∧ p = {
            dev := d
            skipPrevKey := false
            ctl := { d.ctl with sb := sb.setCurrGen d.ctl.currGen } })
      ∨ (d.sb.state = .extendingVbd ∧ d.sb.resizingNrOfPbas ≤ nrOfUnusedPbas d.sb
        ∧ ∃ ws job sb finished,
          executeVbdExtensionStepInVbd d.allocContext (d.workspace mt)
              (submitResizing d.rkg d.sb d.ctl.currGen (firstUnusedPba d.sb)
                d.sb.resizingNrOfPbas) = some (ws, job)
            ∧ vbdExtStepInVbdCompleted ((rootsOf ws mt).apply d.sb) job.snapshots
                ⟨job.pba, job.nrOfPbas, job.nrOfLeaves⟩ = some (sb, finished)
            ∧ p = {
                dev := d.withWorkspace ws job
                skipPrevKey := false
                ctl := { d.ctl with sb := sb.setCurrGen d.ctl.currGen } }) := by
  unfold prepareVbdExtensionStep at h
  split at h
  · next hst =>
    obtain ⟨sb, hsb, rfl⟩ := Option.map_eq_some_iff.mp h
    exact Or.inl ⟨hst, sb, hsb, rfl⟩
  · next hst =>
    split_ifs at h with hle
    obtain ⟨⟨ws, job⟩, hrun, h⟩ := Option.bind_eq_some_iff.mp h
    obtain ⟨⟨sb, finished⟩, hsb, rfl⟩ := Option.map_eq_some_iff.mp h
    exact Or.inr ⟨hst, not_lt.mp hle, ws, job, sb, finished, hrun, hsb, rfl⟩
  · exact absurd h (by simp)

/-- Both are secured. -/
theorem vbdExtensionStep_spec {nrOfBlks : ℕ} {mt : MetaTree}
    (h : d.vbdExtensionStep nrOfBlks mt = some d') :
    (d.sb.state = .normal ∧ ∃ sb, enterExtending .extendingVbd d.sb nrOfBlks = some sb
        ∧ d' = d.secure false { d.ctl with sb := sb.setCurrGen d.ctl.currGen })
      ∨ (d.sb.state = .extendingVbd ∧ d.sb.resizingNrOfPbas ≤ nrOfUnusedPbas d.sb
        ∧ ∃ ws job sb finished,
          executeVbdExtensionStepInVbd d.allocContext (d.workspace mt)
              (submitResizing d.rkg d.sb d.ctl.currGen (firstUnusedPba d.sb)
                d.sb.resizingNrOfPbas) = some (ws, job)
            ∧ vbdExtStepInVbdCompleted ((rootsOf ws mt).apply d.sb) job.snapshots
                ⟨job.pba, job.nrOfPbas, job.nrOfLeaves⟩ = some (sb, finished)
            ∧ d' = (d.withWorkspace ws job).secure false
                { d.ctl with sb := sb.setCurrGen d.ctl.currGen }) := by
  obtain ⟨p, hp, rfl⟩ := Option.map_eq_some_iff.mp h
  rcases prepareVbdExtensionStep_spec hp with
    ⟨hst, sb, hsb, rfl⟩ | ⟨hst, hle, ws, job, sb, finished, hrun, hsb, rfl⟩
  · exact Or.inl ⟨hst, sb, hsb, rfl⟩
  · exact Or.inr ⟨hst, hle, ws, job, sb, finished, hrun, hsb, rfl⟩

/-- The same for the free tree. -/
theorem prepareFtExtensionStep_spec {nrOfBlks : ℕ} {mt : MetaTree} {p : Preparation P}
    (h : d.prepareFtExtensionStep nrOfBlks mt = some p) :
    (d.sb.state = .normal ∧ ∃ sb, enterExtending .extendingFt d.sb nrOfBlks = some sb
        ∧ p = {
            dev := d
            skipPrevKey := false
            ctl := { d.ctl with sb := sb.setCurrGen d.ctl.currGen } })
      ∨ (d.sb.state = .extendingFt ∧ d.sb.resizingNrOfPbas ≤ nrOfUnusedPbas d.sb
        ∧ ∃ res sb finished,
          executeFtExtensionStepInFt P d.sb.freeDegree d.ctl.currGen d.sb.freeLeafs
              d.sb.freeMaxLevel d.free d.sb.freeRoot (d.ftExtState mt) = some res
            ∧ ftExtStepInFtCompleted ({ TreeRoots.of d.sb with meta' := mt.root }.apply d.sb)
                res.root res.maxLvlIdx (d.sb.freeLeafs + res.state.nrOfLeaves)
                ⟨res.state.pba, res.state.nrOfPbas, res.state.nrOfLeaves⟩
              = some (sb, finished)
            ∧ p = {
                dev := { d with
                  free := res.tree
                  freeWrites := d.freeWrites ++ res.state.writes }
                skipPrevKey := false
                ctl := { d.ctl with sb := sb.setCurrGen d.ctl.currGen } }) := by
  unfold prepareFtExtensionStep at h
  split at h
  · next hst =>
    obtain ⟨sb, hsb, rfl⟩ := Option.map_eq_some_iff.mp h
    exact Or.inl ⟨hst, sb, hsb, rfl⟩
  · next hst =>
    split_ifs at h with hle
    obtain ⟨res, hrun, h⟩ := Option.bind_eq_some_iff.mp h
    obtain ⟨⟨sb, finished⟩, hsb, rfl⟩ := Option.map_eq_some_iff.mp h
    exact Or.inr ⟨hst, not_lt.mp hle, res, sb, finished, hrun, hsb, rfl⟩
  · exact absurd h (by simp)

/-- Both are secured. -/
theorem ftExtensionStep_spec {nrOfBlks : ℕ} {mt : MetaTree}
    (h : d.ftExtensionStep nrOfBlks mt = some d') :
    (d.sb.state = .normal ∧ ∃ sb, enterExtending .extendingFt d.sb nrOfBlks = some sb
        ∧ d' = d.secure false { d.ctl with sb := sb.setCurrGen d.ctl.currGen })
      ∨ (d.sb.state = .extendingFt ∧ d.sb.resizingNrOfPbas ≤ nrOfUnusedPbas d.sb
        ∧ ∃ res sb finished,
          executeFtExtensionStepInFt P d.sb.freeDegree d.ctl.currGen d.sb.freeLeafs
              d.sb.freeMaxLevel d.free d.sb.freeRoot (d.ftExtState mt) = some res
            ∧ ftExtStepInFtCompleted ({ TreeRoots.of d.sb with meta' := mt.root }.apply d.sb)
                res.root res.maxLvlIdx (d.sb.freeLeafs + res.state.nrOfLeaves)
                ⟨res.state.pba, res.state.nrOfPbas, res.state.nrOfLeaves⟩
              = some (sb, finished)
            ∧ d' = { d with
                free := res.tree
                freeWrites := d.freeWrites ++ res.state.writes }.secure false
                { d.ctl with sb := sb.setCurrGen d.ctl.currGen }) := by
  obtain ⟨p, hp, rfl⟩ := Option.map_eq_some_iff.mp h
  rcases prepareFtExtensionStep_spec hp with
    ⟨hst, sb, hsb, rfl⟩ | ⟨hst, hle, res, sb, finished, hrun, hsb, rfl⟩
  · exact Or.inl ⟨hst, sb, hsb, rfl⟩
  · exact Or.inr ⟨hst, hle, res, sb, finished, hrun, hsb, rfl⟩

/-- A restart takes the control that the slots give. -/
theorem restart_spec {store : Store P} {free : FtNode} (h : d.restart store free = some d') :
    ∃ c, executeInitialize P d.slots = some c
      ∧ d' = { d with
          ctl := c
          store := store
          free := free
          freeWrites := []
          rkg := RekeyingJob.initial P } := by
  obtain ⟨c, hc, rfl⟩ := Option.map_eq_some_iff.mp h
  exact ⟨c, hc, rfl⟩

/-- **An action that prepares a superblock secures it.** -/
theorem step_of_prepare {a : Action P} {p : Preparation P} (h : d.prepare a = some p) :
    d.step a = some p.secured := by
  cases a with
  | write | restart => exact absurd h (by simp [prepare])
  | sync | createSnapshot =>
    obtain rfl := Option.some.inj h
    rfl
  | discardSnapshot gen =>
    obtain ⟨c, hc, rfl⟩ := Option.map_eq_some_iff.mp h
    unfold step
    dsimp only
    rw [hc]
    rfl
  | initializeRekeying | rekeyVba | vbdExtensionStep | ftExtensionStep =>
    exact Option.map_eq_some_iff.mpr ⟨p, h, rfl⟩

end Device

/-- The jobs of the actions that secure a superblock. -/
def Action.operation : Action P → Option Operation
  | .write _ _ _ | .restart _ _ => none
  | .sync => some .sync
  | .createSnapshot => some .createSnapshot
  | .discardSnapshot _ => some .discardSnapshot
  | .initializeRekeying _ => some .initializeRekeying
  | .rekeyVba _ => some .rekeyVba
  | .vbdExtensionStep _ _ => some .vbdExtensionStep
  | .ftExtensionStep _ _ => some .ftExtensionStep

/-- **A securing action is its job run to the end**: the control it leaves and
the slot it writes are those that every completed run of the job has
(`completed_spec`), unless it is a discard that found nothing. -/
theorem Device.prepared_of_step {d d' : Device P} {a : Action P} {op : Operation}
    (h : d.step a = some d') (hop : a.operation = some op) :
    d' = d ∨ ∃ gen skipPrevKey c, Prepared d.ctl op gen skipPrevKey c ∧ d'.ctl = c.secured
      ∧ d'.slots = Function.update d.slots c.sbIdx (cipherSuperblock P skipPrevKey c.sb)
      ∧ d'.securedSlot = some c.sbIdx := by
  cases a with
  | write | restart => exact absurd hop (by simp [Action.operation])
  | sync =>
    obtain rfl := Option.some.inj hop
    obtain rfl := Option.some.inj h
    exact Or.inr ⟨0, false, _, .sync, rfl, rfl, rfl⟩
  | createSnapshot =>
    obtain rfl := Option.some.inj hop
    obtain rfl := Option.some.inj h
    exact Or.inr ⟨0, false, _, .createSnapshot, rfl, rfl, rfl⟩
  | discardSnapshot gen =>
    obtain rfl := Option.some.inj hop
    unfold Device.step at h
    dsimp only at h
    split at h
    · next c hc =>
      obtain rfl := Option.some.inj h
      exact Or.inr ⟨gen, false, c, .discardSnapshot hc, rfl, rfl, rfl⟩
    · exact Or.inl (Option.some.inj h).symm
  | initializeRekeying value =>
    obtain rfl := Option.some.inj hop
    obtain ⟨sb, hsb, rfl⟩ := Device.initializeRekeying_spec h
    exact Or.inr ⟨0, false, _, .initializeRekeying value hsb, rfl, rfl, rfl⟩
  | rekeyVba mt =>
    obtain rfl := Option.some.inj hop
    obtain ⟨hst, ws, job, sb, more, -, hsb, rfl⟩ := Device.rekeyVba_spec h
    refine Or.inr ⟨0, !more, _, ?_, rfl, rfl, rfl⟩
    cases more with
    | true => exact .rekeyVba _ _ hst hsb
    | false => exact .rekeyLastVba _ _ hst hsb
  | vbdExtensionStep nrOfBlks mt =>
    obtain rfl := Option.some.inj hop
    rcases Device.vbdExtensionStep_spec h with
      ⟨hst, sb, hsb, rfl⟩ | ⟨hst, hfits, ws, job, sb, finished, -, hsb, rfl⟩
    · exact Or.inr ⟨0, false, _, .enterVbdExtension nrOfBlks hst hsb, rfl, rfl, rfl⟩
    · exact Or.inr ⟨0, false, _, .vbdExtensionStep _ _ _ hst hfits hsb, rfl, rfl, rfl⟩
  | ftExtensionStep nrOfBlks mt =>
    obtain rfl := Option.some.inj hop
    rcases Device.ftExtensionStep_spec h with
      ⟨hst, sb, hsb, rfl⟩ | ⟨hst, hfits, res, sb, finished, -, hsb, rfl⟩
    · exact Or.inr ⟨0, false, _, .enterFtExtension nrOfBlks hst hsb, rfl, rfl, rfl⟩
    · exact Or.inr ⟨0, false, _, .ftExtensionStep _ _ _ _ _ hst hfits hsb, rfl, rfl, rfl⟩

/-! ## The snapshot table

What happens to the snapshots is the part of an action that most invariants
need. -/

/-- The same snapshot table with the same last secured generation. -/
structure SameTable (sb sb' : Superblock) : Prop where
  /-- The same snapshots. -/
  snapshots : sb'.snapshots = sb.snapshots
  /-- The same current one. -/
  currSnap : sb'.currSnap = sb.currSnap
  /-- The same last secured generation. -/
  lastSecured : sb'.lastSecuredGeneration = sb.lastSecuredGeneration

/-- The table after the purge that begins a step of the rekeying module. -/
def purgedSnapshots (c : Control) : Snapshots :=
  discardDisposableSnapshots c.sb.snapshots c.currGen c.sb.lastSecuredGeneration

/-- **The snapshot table that an action prepares** for the superblock to be
secured. -/
inductive TablePrepared (c : Control) : Action P → Superblock → Prop
  | sync : TablePrepared c .sync (prepareSync c).sb
  | createSnapshot : TablePrepared c .createSnapshot (prepareCreateSnapshot c).sb
  | discardSnapshot {gen : ℕ} {i : SnapshotsIndex}
      (hi : keptSlotForGen c.sb.snapshots gen = some i) :
      TablePrepared c (.discardSnapshot gen) (purgeAndStamp { c.sb with
        snapshots :=
          Function.update c.sb.snapshots i { c.sb.snapshots i with valid := false } } c.currGen)
  | initializeRekeying {value : KeyValue} {sb : Superblock} (h : SameTable c.sb sb) :
      TablePrepared c (.initializeRekeying value) (sb.setCurrGen c.currGen)
  | rekeyVba {mt : MetaTree} {sb : Superblock}
      (hsnaps : Relocated (purgedSnapshots c) sb.snapshots)
      (hcurr : sb.currSnap = c.sb.currSnap)
      (hlast : sb.lastSecuredGeneration = c.sb.lastSecuredGeneration) :
      TablePrepared c (.rekeyVba mt) (sb.setCurrGen c.currGen)
  | enterVbdExtension {nrOfBlks : ℕ} {mt : MetaTree} {sb : Superblock}
      (h : SameTable c.sb sb) :
      TablePrepared c (.vbdExtensionStep nrOfBlks mt) (sb.setCurrGen c.currGen)
  | vbdExtensionStep {nrOfBlks : ℕ} {mt : MetaTree} {sb : Superblock}
      {newest slot : SnapshotsIndex}
      (hnewest : newestSnapshotIdx (purgedSnapshots c) = some newest)
      (hslot : extendedSlot (purgedSnapshots c) newest c.currGen c.sb.lastSecuredGeneration
        = some slot)
      (hput : PutInto (purgedSnapshots c) sb.snapshots slot c.currGen)
      (hcurr : newestSnapshotIdx sb.snapshots = some sb.currSnap)
      (hlast : sb.lastSecuredGeneration = c.sb.lastSecuredGeneration) :
      TablePrepared c (.vbdExtensionStep nrOfBlks mt) (sb.setCurrGen c.currGen)
  | ftExtensionStep {nrOfBlks : ℕ} {mt : MetaTree} {sb : Superblock}
      (h : SameTable c.sb sb) :
      TablePrepared c (.ftExtensionStep nrOfBlks mt) (sb.setCurrGen c.currGen)

/-- **What an action does to the memory of the library and to the slots.** -/
inductive Effect (d : Device P) : Action P → Device P → Prop
  | write {vba : ℕ} {data : P.Block} {mt : MetaTree} {d' : Device P} {slot : SnapshotsIndex}
      {pba : ℕ} {hash : Hash} (hslot : writtenSlot d.sb d.ctl.currGen = some slot)
      (hsnaps : d'.sb.snapshots = Function.update d.sb.snapshots slot
        (writtenSnapshot d.sb d.ctl.currGen pba hash))
      (hcurr : d'.sb.currSnap = slot)
      (hlast : d'.sb.lastSecuredGeneration = d.sb.lastSecuredGeneration)
      (hgen : d'.ctl.currGen = d.ctl.currGen) (hidx : d'.ctl.sbIdx = d.ctl.sbIdx)
      (hslots : d'.slots = d.slots) (hsecured : d'.securedSlot = d.securedSlot) :
      Effect d (.write vba data mt) d'
  | notFound {gen : ℕ} (h : keptSlotForGen d.sb.snapshots gen = none) :
      Effect d (.discardSnapshot gen) d
  | restart {store : Store P} {free : FtNode} {d' : Device P}
      (hctl : executeInitialize P d.slots = some d'.ctl)
      (hslots : d'.slots = d.slots) (hsecured : d'.securedSlot = d.securedSlot) :
      Effect d (.restart store free) d'
  | secured {a : Action P} {d' : Device P} {sb : Superblock} {skipPrevKey : Bool}
      (hprep : TablePrepared d.ctl a sb) (hctl : d'.ctl = { d.ctl with sb := sb }.secured)
      (hslots : d'.slots = Function.update d.slots d.ctl.sbIdx
        (cipherSuperblock P skipPrevKey sb))
      (hsecured : d'.securedSlot = some d.ctl.sbIdx) :
      Effect d a d'

/-- **What every action prepares**: its snapshot table in the superblock; the
other modules have touched neither the slots nor the rest of the control. -/
theorem Device.tablePrepared_of_prepare {d : Device P} {a : Action P} {p : Preparation P}
    (h : d.prepare a = some p) :
    ∃ sb, p.ctl = { d.ctl with sb := sb } ∧ TablePrepared d.ctl a sb
      ∧ p.dev.slots = d.slots ∧ p.dev.securedSlot = d.securedSlot := by
  cases a with
  | write | restart => exact absurd h (by simp [Device.prepare])
  | sync =>
    obtain rfl := Option.some.inj h
    exact ⟨_, rfl, .sync, rfl, rfl⟩
  | createSnapshot =>
    obtain rfl := Option.some.inj h
    exact ⟨_, rfl, .createSnapshot, rfl, rfl⟩
  | discardSnapshot gen =>
    obtain ⟨c, hc, rfl⟩ := Option.map_eq_some_iff.mp h
    obtain ⟨i, hi, rfl⟩ := Option.map_eq_some_iff.mp hc
    exact ⟨_, rfl, .discardSnapshot hi, rfl, rfl⟩
  | initializeRekeying value =>
    obtain ⟨sb, hsb, rfl⟩ := Option.map_eq_some_iff.mp h
    obtain ⟨-, -, hsb⟩ := superblockEnterRekeyingState_spec hsb
    have hsame : SameTable d.sb sb := by rw [hsb]; exact ⟨rfl, rfl, rfl⟩
    exact ⟨_, rfl, .initializeRekeying hsame, rfl, rfl⟩
  | rekeyVba mt =>
    obtain ⟨-, ws, job, sb, more, hrun, hsb, rfl⟩ := Device.prepareRekeyVba_spec h
    obtain ⟨-, hsb⟩ := rekeyVbaInVbdCompleted_spec hsb
    have hsnaps : Relocated (purgedSnapshots d.ctl) job.snapshots :=
      executeRekeyVbaInVbd_relocated hrun
    refine ⟨_, rfl, ?_, rfl, rfl⟩
    unfold Device.rekeyed
    rw [hsb]
    refine .rekeyVba ?_ ?_ ?_
    all_goals cases more
    all_goals first
      | exact hsnaps
      | rfl
  | vbdExtensionStep nrOfBlks mt =>
    rcases Device.prepareVbdExtensionStep_spec h with
      ⟨-, sb, hsb, rfl⟩ | ⟨-, -, ws, job, sb, finished, hrun, hsb, rfl⟩
    · obtain ⟨-, hsb⟩ := enterExtending_spec hsb
      have hsame : SameTable d.sb sb := by rw [hsb]; exact ⟨rfl, rfl, rfl⟩
      exact ⟨_, rfl, .enterVbdExtension hsame, rfl, rfl⟩
    · obtain ⟨newest, hnewest, -, hsnaps, hcurr, hlast, -⟩ := vbdExtStepInVbdCompleted_spec hsb
      obtain ⟨old, slot, hold, hslot, hput⟩ := executeVbdExtensionStepInVbd_snapshots hrun
      rw [← hsnaps] at hput hnewest
      rw [← hcurr] at hnewest
      exact ⟨_, rfl, .vbdExtensionStep hold hslot hput hnewest hlast, rfl, rfl⟩
  | ftExtensionStep nrOfBlks mt =>
    rcases Device.prepareFtExtensionStep_spec h with
      ⟨-, sb, hsb, rfl⟩ | ⟨-, -, res, sb, finished, hrun, hsb, rfl⟩
    · obtain ⟨-, hsb⟩ := enterExtending_spec hsb
      have hsame : SameTable d.sb sb := by rw [hsb]; exact ⟨rfl, rfl, rfl⟩
      exact ⟨_, rfl, .ftExtensionStep hsame, rfl, rfl⟩
    · obtain ⟨-, hsnaps, hcurr, hlast, -⟩ := ftExtStepInFtCompleted_spec hsb
      have hsame : SameTable d.sb sb := ⟨hsnaps, hcurr, hlast⟩
      exact ⟨_, rfl, .ftExtensionStep hsame, rfl, rfl⟩

/-- Securing what an action prepares has the effect of the action. -/
theorem Device.effect_of_prepare {d : Device P} {a : Action P} {p : Preparation P}
    (h : d.prepare a = some p) : Effect d a p.secured := by
  obtain ⟨sb, hctl, hprep, hslots, -⟩ := Device.tablePrepared_of_prepare h
  have hslots' : p.secured.slots = Function.update d.slots d.ctl.sbIdx
      (cipherSuperblock P p.skipPrevKey sb) := by
    show Function.update p.dev.slots p.ctl.sbIdx (cipherSuperblock P p.skipPrevKey p.ctl.sb) = _
    rw [hslots, hctl]
  refine .secured hprep ?_ hslots' ?_
  · rw [← hctl]
    rfl
  · show some p.ctl.sbIdx = _
    rw [hctl]

/-- **Every action has its effect.** -/
theorem Device.effect_of_step {d d' : Device P} {a : Action P} (h : d.step a = some d') :
    Effect d a d' := by
  -- a securing action secures what it prepares
  have hsecures : ∀ p, d.prepare a = some p → p.secured = d' → Effect d a d' := by
    rintro p hp rfl
    exact Device.effect_of_prepare hp
  cases a with
  | write vba data mt =>
    obtain ⟨res, hres, rfl⟩ := Device.write_spec h
    obtain ⟨walk, alloc, s', hash, slot, -, -, -, -, hslot, rfl⟩ := writeVba_spec hres
    exact .write hslot rfl rfl rfl rfl rfl rfl rfl
  | restart store free =>
    obtain ⟨c, hc, rfl⟩ := Device.restart_spec h
    exact .restart hc rfl rfl
  | sync | createSnapshot => exact hsecures _ rfl (Option.some.inj h)
  | discardSnapshot gen =>
    unfold Device.step at h
    dsimp only at h
    split at h
    · next c hc =>
      exact hsecures _ (Option.map_eq_some_iff.mpr ⟨c, hc, rfl⟩) (Option.some.inj h)
    · next hc =>
      obtain rfl := Option.some.inj h
      exact .notFound (Option.map_eq_none_iff.mp hc)
  | initializeRekeying | rekeyVba | vbdExtensionStep | ftExtensionStep =>
    obtain ⟨p, hp, hd⟩ := Option.map_eq_some_iff.mp h
    exact hsecures p hp hd

/-! ## Runs

A run starts on a new image, or goes on from any device. -/

/-- **A run of the device** whose actions all meet a condition in the state in
which they begin. -/
abbrev Device.Run (C : Device P → Action P → Prop) : Device P → Device P → Prop :=
  Runs.Run Device.step C

/-- The device after some actions, if none of them raises. -/
def Device.after (d : Device P) (l : List (Action P)) : Device P :=
  (l.foldlM Device.step d).getD d

/-- Actions of which none raises are a run. -/
theorem Device.run_after {d : Device P} {l : List (Action P)}
    (h : (l.foldlM Device.step d).isSome = true) :
    Device.Run (fun _ _ => True) d (d.after l) := by
  obtain ⟨d', hd'⟩ := Option.isSome_iff_exists.mp h
  unfold Device.after
  rw [hd']
  exact Runs.Run.of_foldlM l hd'

/-- **The superblock that the initializer writes**, as far as the snapshots,
the keys and the generations go. -/
structure InitialSuperblock (ct : SuperblockCiphertext) : Prop where
  /-- Nothing is in progress. -/
  state : ct.state = .normal
  /-- The current snapshot is in the first slot. -/
  currSnap : ct.currSnap = 0
  /-- The current snapshot is valid. -/
  curr_valid : ct.curr.valid = true
  /-- It has the generation zero. -/
  curr_gen : ct.curr.gen = 0
  /-- It is not kept. -/
  curr_keep : ct.curr.keep = false
  /-- There is no other one. -/
  other_invalid : ∀ i, i ≠ ct.currSnap → (ct.snapshots i).valid = false
  /-- Nothing was secured yet. -/
  lastSecured : ct.lastSecuredGeneration = 0
  /-- The first key. -/
  currentKey : ct.currentKey.id = 1
  /-- No key before it. -/
  previousKey : ct.previousKey = keyInvalid

/-- The superblock slots of a new image: the initializer's superblock in the
first one, the others invalid. -/
structure InitialSlots (slots : SuperblocksIndex → SuperblockCiphertext) : Prop where
  /-- The superblock of the initializer. -/
  first : InitialSuperblock (slots 0)
  /-- No other superblock. -/
  other : ∀ i, i ≠ 0 → ¬ (slots i).Valid

/-- **A device that has just started on a new image**; nothing was secured with
the trust anchor yet. -/
structure Device.Fresh (d : Device P) : Prop where
  /-- The slots are those of a new image. -/
  slots : InitialSlots d.slots
  /-- The control is what the startup makes of them. -/
  ctl : executeInitialize P d.slots = some d.ctl
  /-- The rekeying module has done nothing. -/
  rkg : d.rkg = RekeyingJob.initial P
  /-- The trust anchor has no hash yet. -/
  secured : d.securedSlot = none

/-- The slots of the sample image. -/
def sampleSlots : SuperblocksIndex → SuperblockCiphertext := fun i =>
  if i = 0 then Superblock.sample 0 else { Superblock.sample 0 with state := .invalid }

/-- The blocks of the sample image: a tree of two leaves that were never
written, in the blocks 8 to 11. -/
def sampleStore : Store Platform.sample where
  blocks pba :=
    if pba = 8 then (fun i => if i = 0 then ⟨9, 0, 0⟩ else type1NodeInvalid, [])
    else if pba = 9 then
      (fun i => if i = 0 then ⟨10, 0, 0⟩ else if i = 1 then ⟨11, 0, 0⟩ else type1NodeInvalid,
        [])
    else (fun _ => type1NodeInvalid, [])
  written := []

/-- The free tree of the sample image: one level-1 node with the blocks 14 to
29. -/
def sampleFree : FtNode :=
  .inner (fun i => if i = 0 then ⟨13, 0, 0⟩ else type1NodeInvalid) fun _ =>
    .leafs fun i => if i.val < 16 then { type2NodeInvalid with pba := 14 + i.val }
      else type2NodeInvalid

/-- **A device to compute with**, just started on the sample image. -/
def Device.sample : Device Platform.sample where
  ctl :=
    { sb := (adoptSuperblock Platform.sample (Superblock.sample 0)).getD (Superblock.sample 0)
      sbIdx := 0
      currGen := 1 }
  store := sampleStore
  free := sampleFree
  freeWrites := []
  slots := sampleSlots
  rkg := RekeyingJob.initial Platform.sample
  securedSlot := none

/-- The sample device has just started on a new image. -/
theorem Device.sample_fresh : Device.sample.Fresh where
  slots :=
    { first := ⟨rfl, rfl, rfl, rfl, rfl, by decide, rfl, rfl, rfl⟩
      other := by decide }
  ctl := by
    have hselect : selectSuperblock sampleSlots
        = some { sbFound := true, generation := 0, sbIdx := 0 } := by decide
    show executeInitialize Platform.sample sampleSlots = _
    unfold executeInitialize
    rw [hselect]
    rfl
  rkg := rfl
  secured := rfl

end Cbe
