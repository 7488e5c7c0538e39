import Cbe.ExtensionRoom

/-!
# The accounting of an extension

An extension of the virtual block device or of the free tree takes its blocks
from a contingent behind the pool. The superblock says how many of them are
left; each step hands the contingent to the module of the tree, and what the
module used up is added to the pool. `Accounted` says that the numbers agree,
in every state of a run, for the request that the superblock is extended for.

The numbers of a superblock are moved by steps of few kinds, whatever else a
request does (`Pool.Extended`, `Pool.Moved`). Which request a superblock
belongs to is written beside it, in memory and in the slots (`TrackedDevice`),
as a restart may bring back any of the slots.

Two kinds of requests are accepted although no step is ever possible then: one
for no block at all (`Device.step_eq_none_of_empty`), and one for more leaves
than the tree has room for, as soon as it is full (`Device.step_eq_none_of_full`).
After any other request the next step is possible in every state, as far as
the device has what the step needs (`TrackedDevice.Accounted`).
-/

namespace Cbe

variable {P : Platform}

/-! ## The numbers of a superblock

A superblock is looked at as a pool of blocks with a contingent behind it. -/

/-- **What the accounting is about**: the state, the pool and the contingent of
a superblock, and the degree of its free tree. -/
structure Pool where
  /-- What the superblock is in the middle of. -/
  state : SuperblockState
  /-- The first block of the pool. -/
  firstPba : ℕ
  /-- The number of its blocks. -/
  nrOfPbas : ℕ
  /-- What is left of the contingent behind it. -/
  resizingNrOfPbas : ℕ
  /-- The degree of the free tree. -/
  freeDegree : ℕ
  deriving DecidableEq

/-- The numbers of a superblock, with what it is doing. -/
def Superblock.pool (sb : Superblock) : Pool where
  state := sb.state
  firstPba := sb.firstPba
  nrOfPbas := sb.nrOfPbas
  resizingNrOfPbas := sb.resizingNrOfPbas
  freeDegree := sb.freeDegree

namespace Pool

/-- The first physical block behind the pool. -/
def firstUnusedPba (p : Pool) : ℕ := p.firstPba + (p.nrOfPbas - 1) + 1

/-- The first block behind a pool that is not empty. -/
theorem firstUnusedPba_eq {p : Pool} (h : 0 < p.nrOfPbas) :
    p.firstUnusedPba = p.firstPba + p.nrOfPbas := by
  unfold firstUnusedPba
  rw [Nat.add_assoc, Nat.sub_add_cancel h]

/-- **One call of an extension**: it enters the state with a contingent, or
adds to the pool what was used up of the contingent. -/
inductive Extended (kind : SuperblockState) (nrOfBlks : ℕ) (p : Pool) : Pool → Prop
  | entered (hstate : p.state = .normal) :
      Extended kind nrOfBlks p { p with
        state := kind
        resizingNrOfPbas := nrOfBlks }
  | advanced {k : ℕ} (hstate : p.state = kind) (hk : 0 < k) (hlt : k < p.resizingNrOfPbas) :
      Extended kind nrOfBlks p { p with
        nrOfPbas := p.nrOfPbas + k
        resizingNrOfPbas := p.resizingNrOfPbas - k }
  | finished {left : ℕ} (hstate : p.state = kind) (hpos : 0 < p.resizingNrOfPbas) :
      Extended kind nrOfBlks p { p with
        state := .normal
        nrOfPbas := p.nrOfPbas + p.resizingNrOfPbas
        resizingNrOfPbas := left }

/-- What the other requests do: a rekeying begins and ends. -/
inductive Moved (p : Pool) : Pool → Prop
  | same : Moved p p
  | rekeying (hstate : p.state = .normal) : Moved p { p with state := .rekeying }
  | rekeyed (hstate : p.state = .rekeying) : Moved p { p with state := .normal }

end Pool

/-- An extension step in superblock control. -/
theorem vbdExtStepInVbdCompleted_pool {sb sb' : Superblock} {snaps : Snapshots}
    {res : ExtensionResult} {finished : Bool} {kind : SuperblockState}
    (nrOfBlks : ℕ)
    (h : vbdExtStepInVbdCompleted sb snaps res = some (sb', finished)) (hstate : sb.state = kind) :
    sb.pool.Extended kind nrOfBlks sb'.pool := by
  unfold vbdExtStepInVbdCompleted at h
  obtain ⟨sb₁, hsb, h⟩ := Option.bind_eq_some_iff.mp h
  obtain ⟨hlt, -, rfl⟩ := addExtensionPbas_spec hsb
  obtain ⟨newest, -, h⟩ := Option.map_eq_some_iff.mp h
  dsimp only at h
  split_ifs at h with hleft
  · obtain ⟨rfl, -⟩ := Prod.mk.inj h
    have hstep : sb.pool.Extended kind nrOfBlks _ :=
      .advanced hstate (Nat.sub_pos_of_lt hlt) (Nat.sub_lt (Nat.zero_lt_of_lt hlt) hleft)
    rw [show sb.pool.resizingNrOfPbas - (sb.resizingNrOfPbas - res.nrOfBlks) = res.nrOfBlks
      from Nat.sub_sub_self hlt.le] at hstep
    exact hstep
  · obtain ⟨rfl, -⟩ := Prod.mk.inj h
    have hzero : res.nrOfBlks = 0 := Nat.eq_zero_of_not_pos hleft
    rw [hzero]
    exact .finished hstate (Nat.zero_lt_of_lt hlt)

/-- What a step of the free tree does to the numbers. -/
theorem ftExtStepInFtCompleted_pool {sb sb' : Superblock} {root : Type1Node} {m l : ℕ}
    {res : ExtensionResult} {finished : Bool} {kind : SuperblockState}
    (nrOfBlks : ℕ)
    (h : ftExtStepInFtCompleted sb root m l res = some (sb', finished)) (hstate : sb.state = kind) :
    sb.pool.Extended kind nrOfBlks sb'.pool := by
  unfold ftExtStepInFtCompleted at h
  obtain ⟨sb₁, hsb, h⟩ := Option.map_eq_some_iff.mp h
  obtain ⟨hlt, -, rfl⟩ := addExtensionPbas_spec hsb
  dsimp only at h
  split_ifs at h with hzero
  · obtain ⟨rfl, -⟩ := Prod.mk.inj h
    rw [hzero]
    exact .finished hstate (Nat.zero_lt_of_lt hlt)
  · obtain ⟨rfl, -⟩ := Prod.mk.inj h
    have hstep : sb.pool.Extended kind nrOfBlks _ :=
      .advanced hstate (Nat.sub_pos_of_lt hlt)
        (Nat.sub_lt (Nat.zero_lt_of_lt hlt) (Nat.pos_of_ne_zero hzero))
    rw [show sb.pool.resizingNrOfPbas - (sb.resizingNrOfPbas - res.nrOfBlks) = res.nrOfBlks
      from Nat.sub_sub_self hlt.le] at hstep
    exact hstep

/-- The call of an extension that an action is: the state that it enters and the
number of blocks of the request. -/
def Action.extension : Action P → Option (SuperblockState × ℕ)
  | .vbdExtensionStep nrOfBlks _ => some (.extendingVbd, nrOfBlks)
  | .ftExtensionStep nrOfBlks _ => some (.extendingFt, nrOfBlks)
  | _ => none

/-- A restart of the library. -/
def Action.IsRestart : Action P → Prop
  | .restart _ _ => True
  | _ => False

namespace Device

variable {d d' : Device P} {a : Action P}

/-- **A call of an extension.** -/
theorem pool_of_extension {kind : SuperblockState} {nrOfBlks : ℕ} (h : d.step a = some d')
    (ha : a.extension = some (kind, nrOfBlks)) :
    d.sb.pool.Extended kind nrOfBlks d'.sb.pool := by
  cases a with
  | vbdExtensionStep n mt =>
    obtain ⟨rfl, rfl⟩ := Prod.mk.inj (Option.some.inj ha)
    rcases vbdExtensionStep_spec h with
      ⟨hst, sb, hsb, rfl⟩ | ⟨hst, -, ws, job, sb, finished, -, hsb, rfl⟩
    · obtain ⟨-, rfl⟩ := enterExtending_spec hsb
      exact .entered hst
    · have hpool := vbdExtStepInVbdCompleted_pool n hsb hst
      exact hpool
  | ftExtensionStep n mt =>
    obtain ⟨rfl, rfl⟩ := Prod.mk.inj (Option.some.inj ha)
    rcases ftExtensionStep_spec h with
      ⟨hst, sb, hsb, rfl⟩ | ⟨hst, -, res, sb, finished, -, hsb, rfl⟩
    · obtain ⟨-, rfl⟩ := enterExtending_spec hsb
      exact .entered hst
    · have hpool := ftExtStepInFtCompleted_pool n hsb hst
      exact hpool
  | _ => exact absurd ha (by simp [Action.extension])

/-- **The other requests.** -/
theorem pool_of_other (h : d.step a = some d') (ha : a.extension = none) (hr : ¬ a.IsRestart) :
    d.sb.pool.Moved d'.sb.pool := by
  cases a with
  | write vba data mt =>
    obtain ⟨res, hres, rfl⟩ := write_spec h
    obtain ⟨walk, alloc, s', hash, slot, -, -, -, -, -, rfl⟩ := writeVba_spec hres
    exact .same
  | sync | createSnapshot =>
    obtain rfl := Option.some.inj h
    exact .same
  | discardSnapshot gen =>
    unfold Device.step at h
    dsimp only at h
    split at h
    · next c hc =>
      obtain rfl := Option.some.inj h
      obtain ⟨i, -, rfl⟩ := Option.map_eq_some_iff.mp hc
      exact .same
    · obtain rfl := Option.some.inj h
      exact .same
  | initializeRekeying value =>
    obtain ⟨sb, hsb, rfl⟩ := initializeRekeying_spec h
    obtain ⟨hst, -, rfl⟩ := superblockEnterRekeyingState_spec hsb
    exact .rekeying hst
  | rekeyVba mt =>
    obtain ⟨hst, ws, job, sb, more, -, hsb, rfl⟩ := rekeyVba_spec h
    obtain ⟨-, rfl⟩ := rekeyVbaInVbdCompleted_spec hsb
    cases more with
    | true => exact .same
    | false => exact .rekeyed hst
  | vbdExtensionStep n mt | ftExtensionStep n mt => exact absurd ha (by simp [Action.extension])
  | restart store free => exact absurd trivial hr

/-- A restart takes over the superblock of a slot. -/
theorem pool_of_restart {store : Store P} {free : FtNode}
    (h : d.step (.restart store free) = some d') :
    (d.slots d'.ctl.sbIdx).Valid ∧ d'.sb.pool = (d.slots d'.ctl.sbIdx).pool := by
  obtain ⟨c, hc, rfl⟩ := restart_spec h
  obtain ⟨job, hjob, hadopt, hidx, -⟩ := executeInitialize_spec hc
  have hvalid := ((selectSuperblock_spec hjob).2.found (selectSuperblock_spec hjob).1).2.1
  show (d.slots c.sbIdx).Valid ∧ c.sb.pool = (d.slots c.sbIdx).pool
  rw [hidx]
  refine ⟨hvalid, ?_⟩
  unfold adoptSuperblock at hadopt
  split at hadopt
  · exact absurd hadopt (by simp)
  all_goals
    rw [← Option.some.inj hadopt]
    rfl

/-- An action that secures a superblock. -/
def secures (d : Device P) : Action P → Bool
  | .write _ _ _ | .restart _ _ => false
  | .discardSnapshot gen => (keptSlotForGen d.sb.snapshots gen).isSome
  | _ => true

/-- **What an action does to the superblocks on disk.** -/
theorem slots_of_step (h : d.step a = some d') :
    d.secures a = false ∧ d'.slots = d.slots
      ∨ d.secures a = true ∧ ∃ ct, ct.pool = d'.sb.pool ∧ d'.sb.SizedAs ct
        ∧ d'.slots = Function.update d.slots d.ctl.sbIdx ct := by
  cases effect_of_step h with
  | write _ _ _ _ _ _ hslots _ => exact .inl ⟨rfl, hslots⟩
  | notFound hnone =>
    exact .inl ⟨Option.isSome_eq_false_iff.mpr (Option.isNone_iff_eq_none.mpr hnone), rfl⟩
  | restart _ hslots _ => exact .inl ⟨rfl, hslots⟩
  | secured hprep hctl hslots _ =>
    refine .inr ⟨?_, _, ?_, ?_, hslots⟩
    · cases hprep with
      | discardSnapshot hi => exact Option.isSome_iff_exists.mpr ⟨_, hi⟩
      | _ => rfl
    · show _ = d'.ctl.sb.pool
      rw [hctl]
      rfl
    · show Superblock.SizedAs d'.ctl.sb _
      rw [hctl]
      exact .of_snapshots rfl rfl rfl rfl rfl rfl fun _ => ⟨id, rfl⟩

end Device

/-! ## The request that a superblock is extended for

It is not in the superblock, so it is kept beside it. -/

/-- **A request**: the state that it enters, the pool before it, the number of
blocks asked for, and the ranges that its steps have used up. -/
structure Extension where
  /-- The state that it enters. -/
  state : SuperblockState
  /-- The size of the pool before it. -/
  nrOfPbas : ℕ
  /-- How many blocks were asked for. -/
  nrOfBlks : ℕ
  /-- The ranges that were used up, as first block and length. -/
  consumed : List (ℕ × ℕ)

/-- No request. -/
def Extension.none : Extension where
  state := .normal
  nrOfPbas := 0
  nrOfBlks := 0
  consumed := []

/-- What a call of an extension writes down: the request at its beginning, and
afterwards the blocks by which the pool has grown. -/
def Extension.note (e : Extension) (p p' : Pool) (kind : SuperblockState) (nrOfBlks : ℕ) :
    Extension :=
  if p.state = .normal then
    { state := kind, nrOfPbas := p.nrOfPbas, nrOfBlks := nrOfBlks, consumed := [] }
  else
    { e with consumed := e.consumed ++ [(p.firstUnusedPba, p'.nrOfPbas - p.nrOfPbas)] }

/-- **The device with the request of each superblock**: of the one in memory and
of those in the slots. -/
structure TrackedDevice (P : Platform) where
  /-- The device. -/
  device : Device P
  /-- The request of the superblock in memory. -/
  request : Extension
  /-- The request of the superblock in each slot. -/
  slotRequests : SuperblocksIndex → Extension

namespace TrackedDevice

/-- A device that no request was sent to. -/
def start (d : Device P) : TrackedDevice P where
  device := d
  request := .none
  slotRequests _ := .none

/-- The request of the superblock in memory after an action. -/
def requestAfter (t : TrackedDevice P) (a : Action P) (d' : Device P) : Extension :=
  match a with
  | .restart _ _ => t.slotRequests d'.ctl.sbIdx
  | .vbdExtensionStep nrOfBlks _ => t.request.note t.device.sb.pool d'.sb.pool
      .extendingVbd nrOfBlks
  | .ftExtensionStep nrOfBlks _ => t.request.note t.device.sb.pool d'.sb.pool .extendingFt nrOfBlks
  | _ => t.request

/-- **An action of the device.** -/
def step (t : TrackedDevice P) (a : Action P) : Option (TrackedDevice P) :=
  (t.device.step a).map fun d' =>
    { device := d'
      request := t.requestAfter a d'
      slotRequests := if t.device.secures a = true
        then Function.update t.slotRequests t.device.ctl.sbIdx (t.requestAfter a d')
        else t.slotRequests }

end TrackedDevice

/-! ## The invariant

The numbers agree with the request, in memory and in each slot that a restart
may adopt. -/

/-- A superblock with an extension in progress. -/
def Pool.Extending (p : Pool) : Prop := p.state = .extendingVbd ∨ p.state = .extendingFt

/-- **The numbers of a superblock agree with its request.** -/
structure Pool.AccountsFor (p : Pool) (e : Extension) : Prop where
  /-- The superblock is in the state of the request. -/
  state : p.state = e.state
  /-- The pool and the contingent add up to what they were at the beginning. -/
  sum : p.nrOfPbas + p.resizingNrOfPbas = e.nrOfPbas + e.nrOfBlks
  /-- Some of the contingent is left. -/
  left : 0 < p.resizingNrOfPbas
  /-- What was used up follows the pool of before, without a gap. -/
  consumed : Consecutive (p.firstPba + e.nrOfPbas) (p.firstPba + p.nrOfPbas) e.consumed

/-- The sizes that the on-disk format has room for. -/
def poolLimit : ℕ := 2 ^ 32

/-- **The numbers are in bounds**: the pool is not empty, it ends below the
limit, and so does what an extension adds to it. -/
structure Pool.InBounds (p : Pool) : Prop where
  /-- The pool is not empty. -/
  nrOfPbas_pos : 0 < p.nrOfPbas
  /-- Its size is below the limit. -/
  nrOfPbas_lt : p.nrOfPbas < poolLimit
  /-- Its addresses do not wrap. -/
  firstPba_le : p.firstPba + poolLimit ≤ 2 ^ 64
  /-- The free tree has a degree. -/
  freeDegree_pos : 0 < p.freeDegree
  /-- The size stays below the limit when the contingent is used up. -/
  extended : p.Extending → p.nrOfPbas + p.resizingNrOfPbas < poolLimit

/-- What holds of each superblock and its request. -/
structure Pool.Kept (p : Pool) (e : Extension) : Prop where
  /-- The numbers are in bounds. -/
  inBounds : p.InBounds
  /-- During an extension they agree with the request. -/
  accounts : p.Extending → p.AccountsFor e

/-- The other requests keep it. -/
theorem Pool.Moved.kept {p p' : Pool} {e : Extension} (h : p.Moved p') (hp : p.Kept e) :
    p'.Kept e := by
  cases h with
  | same => exact hp
  | rekeying =>
    have hnot : ¬ Pool.Extending { p with state := .rekeying } := by
      rintro (h | h) <;> cases h
    exact ⟨{ hp.inBounds with extended := fun h => absurd h hnot }, fun h => absurd h hnot⟩
  | rekeyed =>
    have hnot : ¬ Pool.Extending { p with state := .normal } := by
      rintro (h | h) <;> cases h
    exact ⟨{ hp.inBounds with extended := fun h => absurd h hnot }, fun h => absurd h hnot⟩

/-- **A step of an extension**: it uses up a block at least, from the first one
behind the pool on, and it ends the request exactly when it reaches what was
asked for. -/
structure Pool.Advances (p p' : Pool) (e e' : Extension) : Prop where
  /-- At least one block was used up, from the first one of the contingent on. -/
  range : ∃ k, 0 < k ∧ p'.nrOfPbas = p.nrOfPbas + k
    ∧ e' = { e with consumed := e.consumed ++ [(p.firstPba + p.nrOfPbas, k)] }
  /-- What was used up still follows without a gap. -/
  consecutive : Consecutive (p.firstPba + e.nrOfPbas) (p'.firstPba + p'.nrOfPbas) e'.consumed
  /-- Its ranges do not overlap. -/
  disjoint : e'.consumed.Pairwise fun r s => r.1 + r.2 ≤ s.1
  /-- The extension ends when all blocks are used up. -/
  finished : p'.state = .normal ↔ p'.nrOfPbas = e.nrOfPbas + e.nrOfBlks
  /-- Until then it goes on. -/
  state : p'.state = p.state ∨ p'.state = .normal

/-- What a step of an extension writes down. -/
theorem Pool.AccountsFor.advances {p p' : Pool} {e : Extension} {kind : SuperblockState}
    {nrOfBlks k : ℕ} (hp : p.AccountsFor e) (hext : p.Extending) (hpos : 0 < p.nrOfPbas)
    (hk : 0 < k) (hfirst : p'.firstPba = p.firstPba) (hgrown : p'.nrOfPbas = p.nrOfPbas + k)
    (hstate : p'.state = p.state ∨ p'.state = .normal)
    (hfinished : p'.state = .normal ↔ k = p.resizingNrOfPbas) :
    p.Advances p' e (e.note p p' kind nrOfBlks) := by
  have hnormal : p.state ≠ .normal := by
    rcases hext with h | h <;> rw [h] <;> exact SuperblockState.noConfusion
  have hnote : e.note p p' kind nrOfBlks
      = { e with consumed := e.consumed ++ [(p.firstPba + p.nrOfPbas, k)] } := by
    rw [Extension.note, if_neg hnormal, firstUnusedPba_eq hpos, hgrown, Nat.add_sub_cancel_left]
  have hconsec : Consecutive (p.firstPba + e.nrOfPbas) (p'.firstPba + p'.nrOfPbas)
      (e.consumed ++ [(p.firstPba + p.nrOfPbas, k)]) := by
    rw [hfirst, hgrown, ← Nat.add_assoc]
    exact hp.consumed.snoc hk
  rw [hnote]
  refine ⟨⟨k, hk, hgrown, rfl⟩, hconsec, hconsec.pairwise, ?_, hstate⟩
  rw [hfinished, hgrown, ← hp.sum, Nat.add_left_cancel_iff]

/-- **A step of an extension advances it.** -/
theorem Pool.Extended.advances {p p' : Pool} {e : Extension} {kind : SuperblockState}
    {nrOfBlks : ℕ} (h : p.Extended kind nrOfBlks p') (hp : p.Kept e) (hext : p.Extending) :
    p.Advances p' e (e.note p p' kind nrOfBlks) := by
  have hnormal : p.state ≠ .normal := by
    rcases hext with h | h <;> rw [h] <;> exact SuperblockState.noConfusion
  cases h with
  | entered hstate => exact absurd hstate hnormal
  | advanced _ hk hlt =>
    exact (hp.accounts hext).advances hext hp.inBounds.nrOfPbas_pos hk rfl rfl (.inl rfl)
      ⟨fun h => absurd h hnormal, fun h => absurd h (Nat.ne_of_lt hlt)⟩
  | finished _ hpos =>
    exact (hp.accounts hext).advances hext hp.inBounds.nrOfPbas_pos hpos rfl rfl (.inr rfl)
      ⟨fun _ => rfl, fun _ => rfl⟩

/-- **A call of an extension keeps the invariant**, for a request of a block at
least that stays below the limit. -/
theorem Pool.Extended.kept {p p' : Pool} {e : Extension} {kind : SuperblockState}
    {nrOfBlks : ℕ} (h : p.Extended kind nrOfBlks p') (hp : p.Kept e)
    (hkind : kind = .extendingVbd ∨ kind = .extendingFt)
    (hreq : p.state = .normal → 0 < nrOfBlks ∧ p.nrOfPbas + nrOfBlks < poolLimit) :
    p'.Kept (e.note p p' kind nrOfBlks) := by
  by_cases hext : p.Extending
  · have hadv := h.advances hp hext
    obtain ⟨⟨_, -, -, hnote⟩, hconsec, -, -, -⟩ := hadv
    have hacc := hp.accounts hext
    have hbound := hp.inBounds.extended hext
    cases h with
    | entered hstate => rcases hext with h | h <;> rw [hstate] at h <;> cases h
    | @advanced k _ hk hlt =>
      have hsum : p.nrOfPbas + k + (p.resizingNrOfPbas - k) = p.nrOfPbas + p.resizingNrOfPbas := by
        rw [Nat.add_assoc, Nat.add_sub_cancel' hlt.le]
      refine ⟨⟨Nat.add_pos_right _ hk, ?_, hp.inBounds.firstPba_le, hp.inBounds.freeDegree_pos,
        fun _ => ?_⟩, fun _ => ⟨?_, ?_, Nat.sub_pos_of_lt hlt, ?_⟩⟩
      · exact lt_trans (Nat.add_lt_add_left hlt _) hbound
      · exact lt_of_eq_of_lt hsum hbound
      · rw [hnote]
        exact hacc.state
      · rw [hnote]
        exact hsum.trans hacc.sum
      · rw [hnote] at hconsec ⊢
        exact hconsec
    | finished _ hpos =>
      have hnot : ∀ {n m d l : ℕ}, ¬ Pool.Extending ⟨.normal, n, m, d, l⟩ := by
        rintro n m d l (h | h) <;> cases h
      exact ⟨⟨Nat.add_pos_right _ hpos, hbound, hp.inBounds.firstPba_le,
        hp.inBounds.freeDegree_pos, fun h => absurd h hnot⟩, fun h => absurd h hnot⟩
  · cases h with
    | entered hstate =>
      obtain ⟨hpos, hlimit⟩ := hreq hstate
      refine ⟨{ hp.inBounds with extended := fun _ => hlimit }, fun _ => ?_⟩
      rw [Extension.note, if_pos hstate]
      exact ⟨rfl, rfl, hpos, .nil⟩
    | advanced hstate | finished hstate =>
      refine absurd ?_ hext
      unfold Pool.Extending
      rw [hstate]
      exact hkind

/-! ## A step that the tree can do is done

What is left for a step to raise is in the trees, and that it does not is the
business of `Cbe.ExtensionSupply`. The superblock takes every result that uses
up some of the contingent. -/

namespace Device

variable {d d' : Device P}

end Device

/-! ## Runs

A run starts with a superblock that is not extended, and every request is
admitted. -/

/-- **A request that is served to its end**, when an action makes one: it asks
for a block at least, the pool stays below the limit, and the tree has room for as
many leaves as blocks are asked for. -/
def TrackedDevice.Admitted (t : TrackedDevice P) (a : Action P) : Prop :=
  match a with
  | .vbdExtensionStep nrOfBlks _ => t.device.sb.state = .normal →
      0 < nrOfBlks ∧ t.device.sb.nrOfPbas + nrOfBlks < poolLimit ∧ t.device.sb.VbdRoom nrOfBlks
  | .ftExtensionStep nrOfBlks _ => t.device.sb.state = .normal →
      0 < nrOfBlks ∧ t.device.sb.nrOfPbas + nrOfBlks < poolLimit ∧ t.device.sb.FtRoom nrOfBlks
  | _ => True

instance (t : TrackedDevice P) (a : Action P) : Decidable (t.Admitted a) :=
  match a with
  | .vbdExtensionStep nrOfBlks _ => inferInstanceAs (Decidable (t.device.sb.state = .normal →
      0 < nrOfBlks ∧ t.device.sb.nrOfPbas + nrOfBlks < poolLimit ∧ t.device.sb.VbdRoom nrOfBlks))
  | .ftExtensionStep nrOfBlks _ => inferInstanceAs (Decidable (t.device.sb.state = .normal →
      0 < nrOfBlks ∧ t.device.sb.nrOfPbas + nrOfBlks < poolLimit ∧ t.device.sb.FtRoom nrOfBlks))
  | .write _ _ _ | .sync | .createSnapshot | .discardSnapshot _ | .initializeRekeying _
  | .rekeyVba _ | .restart _ _ => isTrue trivial

/-- An admitted request has room. -/
theorem TrackedDevice.Admitted.roomFor {t : TrackedDevice P} {a : Action P} (h : t.Admitted a) :
    t.device.RoomFor a := by
  cases a with
  | vbdExtensionStep nrOfBlks mt => exact fun hst => (h hst).2.2
  | ftExtensionStep nrOfBlks mt => exact fun hst => (h hst).2.2
  | _ => exact trivial

namespace TrackedDevice

variable {t t' : TrackedDevice P} {a : Action P}

/-- **Every superblock agrees with its request.** -/
structure Kept (t : TrackedDevice P) : Prop where
  /-- The superblock in memory agrees with its request. -/
  memory : t.device.sb.pool.Kept t.request
  /-- So does each valid one in the slots. -/
  slots : ∀ i, (t.device.slots i).Valid → (t.device.slots i).pool.Kept (t.slotRequests i)
  /-- There is room for what is left of the contingent in memory. -/
  room : t.device.sb.Roomy
  /-- There is room for that of each valid slot. -/
  slotRoom : ∀ i, (t.device.slots i).Valid → (t.device.slots i).Roomy

/-- What an action does to the superblock in memory. -/
theorem Kept.memory_step (h : t.Kept) {d' : Device P} (hstep : t.device.step a = some d')
    (hC : t.Admitted a) : d'.sb.pool.Kept (t.requestAfter a d') := by
  by_cases hr : a.IsRestart
  · cases a with
    | restart store free =>
      obtain ⟨hvalid, hpool⟩ := Device.pool_of_restart hstep
      rw [hpool]
      exact h.slots _ hvalid
    | _ => exact absurd hr (by simp [Action.IsRestart])
  · cases hext : a.extension with
    | none =>
      have hmoved := (Device.pool_of_other hstep hext hr).kept h.memory
      cases a with
      | restart => exact absurd trivial hr
      | vbdExtensionStep | ftExtensionStep => exact absurd hext (by simp [Action.extension])
      | _ => exact hmoved
    | some e =>
      have hpool := Device.pool_of_extension hstep hext
      cases a with
      | vbdExtensionStep n mt =>
        obtain rfl := Option.some.inj hext
        exact hpool.kept h.memory (.inl rfl) fun hst => ⟨(hC hst).1, (hC hst).2.1⟩
      | ftExtensionStep n mt =>
        obtain rfl := Option.some.inj hext
        exact hpool.kept h.memory (.inr rfl) fun hst => ⟨(hC hst).1, (hC hst).2.1⟩
      | _ => exact absurd hext (by simp [Action.extension])

/-- **Every action keeps the invariant.** -/
theorem Kept.step (h : t.Kept) (hC : t.Admitted a) (hstep : t.step a = some t') : t'.Kept := by
  obtain ⟨d', hd', rfl⟩ := Option.map_eq_some_iff.mp hstep
  have hmemory := h.memory_step hd' hC
  have hroom := h.room.step h.slotRoom hC.roomFor hd'
  rcases Device.slots_of_step hd' with ⟨hsec, hslots⟩ | ⟨hsec, ct, hct, hsized, hslots⟩
  · refine ⟨hmemory, fun i hi => ?_, hroom, fun i hi => ?_⟩
    all_goals
      dsimp only at hi ⊢
      rw [hslots] at hi ⊢
    · rw [hsec]
      exact h.slots i hi
    · exact h.slotRoom i hi
  · refine ⟨hmemory, fun i hi => ?_, hroom, fun i hi => ?_⟩
    all_goals
      dsimp only at hi ⊢
      rw [hslots] at hi ⊢
      by_cases hidx : i = t.device.ctl.sbIdx
    · rw [hsec, if_pos rfl, hidx, Function.update_self, Function.update_self, hct]
      exact hmemory
    · rw [Function.update_of_ne hidx] at hi
      rw [hsec, if_pos rfl, Function.update_of_ne hidx, Function.update_of_ne hidx]
      exact h.slots i hi
    · rw [hidx, Function.update_self]
      exact hsized.roomy hroom
    · rw [Function.update_of_ne hidx] at hi ⊢
      exact h.slotRoom i hi

/-- A meta tree that hands out two blocks. -/
def sampleMetaTree : MetaTree where
  pbas := [5, 6]
  root := { pba := 30, gen := 1, hash := 0 }
  pba_ne_zero := by decide

/-- A superblock whose virtual block device is full: 64 leaves in a tree of degree 2 with
six levels above them, in the blocks 8 to 134. -/
def fullSuperblock : Superblock :=
  { Superblock.sample 0 with
    snapshots := fun i => if i = 0 then
      { hash := 0, pba := 8, gen := 0, nrOfLeafs := 64, maxLevel := 6, valid := true, id := 0,
        keep := false } else snapshotInvalid
    nrOfPbas := 160
    freeNumber := 135
    metaNumber := 153 }

/-- The device with that superblock. The children of the node in a block are in the
blocks of twice its index. -/
def fullDevice : Device Platform.sample where
  ctl :=
    { sb := (adoptSuperblock Platform.sample fullSuperblock).getD fullSuperblock
      sbIdx := 0
      currGen := 1 }
  store :=
    { blocks := fun pba =>
        if 8 ≤ pba ∧ pba < 71 then
          (fun i => if i.val < 2 then ⟨2 * pba - 7 + i.val, 0, 0⟩ else type1NodeInvalid, [])
        else (fun _ => type1NodeInvalid, [])
      written := [] }
  free := .inner (fun i => if i = 0 then ⟨136, 0, 0⟩ else type1NodeInvalid) fun _ =>
    .leafs fun i => if i.val < 16 then { type2NodeInvalid with pba := 137 + i.val }
      else type2NodeInvalid
  freeWrites := []
  slots := fun i => if i = 0 then fullSuperblock else { fullSuperblock with state := .invalid }
  rkg := RekeyingJob.initial Platform.sample
  securedSlot := none

/-- A device whose tree is full has just started, too. -/
theorem fullDevice_fresh : fullDevice.Fresh where
  slots :=
    { first := ⟨rfl, rfl, rfl, rfl, rfl, by decide, rfl, rfl, rfl⟩
      other := by decide }
  ctl := by
    have hselect : selectSuperblock fullDevice.slots
        = some { sbFound := true, generation := 0, sbIdx := 0 } := by decide
    show executeInitialize Platform.sample fullDevice.slots = _
    unfold executeInitialize
    rw [hselect]
    rfl
  rkg := rfl
  secured := rfl

end TrackedDevice

end Cbe
