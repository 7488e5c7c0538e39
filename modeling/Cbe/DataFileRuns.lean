import Cbe.DataFile
import Cbe.Support.Runs

/-!
# The data file is a file of bytes

One handle of the data file in use: its client seeks, changes its memory, reads
and writes, and calls again as long as it is told to. The run is compared with a
file of bytes (`ByteFile.Access.Serves`). An access goes through a few stages,
each of which is passed on its way through `_handle_cbe_frontend` (`FileStage`,
`Vfs.At`); what a round of the loop makes of a stage is put together from what
its parts make of it.

An access that begins at a block and whose whole blocks reach beyond the device
is rejected, and reported with no bytes, though its first block may be there; so
not every access inside the device transfers something. A request that the
library fails is reported like one that it served
(`Vfs.answer_completeRequests_failed`).

There are two ways through the plugin. An access to whole blocks becomes a
request of the frontend; the library asks for the blocks one at a time and in
any order, and the memory and the device change as it does, so a stage has to
say which of the blocks were moved. An access that does not begin at a block, or
is shorter than one, goes through a helper that reads the block, and for a write
through a second one that writes it back with the bytes changed. It is cut down
to the end of its block.

What is promised of an access is stated of the bytes it reports: a read has
returned the bytes of the file, and a write has changed these and no others. The
client has to repeat a call that was queued, and has to leave its memory alone
until it returns (`Served`). Calls that go wrong by a slip of the source are
left out by a condition of their own (`Proper`).
-/

namespace Cbe

open ByteFile (Direction Access bytes patch)
open ByteWalk (Byte)
open Runs

/-- The operation of the requests for an access. -/
def directionOperation : Direction → RequestOperation
  | .read => .read
  | .write => .write

/-! ## Calls

A call is recorded with the memory and the device as they were when it was
accepted, so that what a stage says of the bytes can be compared with the
beginning. -/

/-- **A call** that was accepted: what was asked for, and the memory of the client
and the device as they were then. -/
structure FileCall where
  /-- A read or a write. -/
  dir : Direction
  /-- Where it begins in the file. -/
  offset : ℕ
  /-- Where its data is in the memory of the client. -/
  data : ℕ
  /-- How many bytes were asked for. -/
  count : ℕ
  /-- The memory of the client. -/
  mem : ℕ → Byte
  /-- The blocks of the device. -/
  blocks : ℕ → BlockData

namespace FileCall

variable (c : FileCall)

/-- Does the access go through the helpers? -/
def Unaligned : Prop := c.offset % blockSize ≠ 0 ∨ c.count < blockSize

instance : Decidable c.Unaligned := inferInstanceAs (Decidable (_ ∨ _))

/-- The block that the access begins in. -/
def block : ℕ := c.offset / blockSize

/-- The number of bytes that the access is cut down to. -/
def out : ℕ :=
  if c.Unaligned then
    if blockSize - c.offset % blockSize ≤ c.count then blockSize - c.offset % blockSize
    else c.count
  else c.count - c.count % blockSize

/-- The request of the frontend. -/
def request : Request :=
  clientRequest (directionOperation c.dir) c.block c.data (c.count / blockSize % 2 ^ 32)

/-- The request of the helper that reads. -/
def helperRead : Request := clientRequest .read c.block 0 1

/-- The request of the helper that writes. -/
def helperWrite : Request := clientRequest .write c.block 0 1

/-- The bytes that an access transfers, for the memory of the client at its end. -/
def transferred (mem : ℕ → Byte) : ℕ → Byte :=
  match c.dir with
  | .read => fun j => mem (c.data + j)
  | .write => fun j => c.mem (c.data + j)

/-- The access as it is reported. -/
def access (out : ℕ) (mem : ℕ → Byte) : Access Byte where
  dir := c.dir
  offset := c.offset
  count := c.count
  out := out
  data := c.transferred mem

/-- The bytes of the device when the call was accepted. -/
def file : ℕ → Byte := ByteFile.flat blockSize c.blocks

/-- The memory of the client at the end of the call. -/
def memAfter : ℕ → Byte :=
  match c.dir with
  | .read => patch c.mem c.data c.out fun j => c.file (c.offset + j)
  | .write => c.mem

/-- The bytes of the device at the end of the call. -/
def fileAfter : ℕ → Byte :=
  match c.dir with
  | .read => c.file
  | .write => patch c.file c.offset c.out fun j => c.mem (c.data + j)

end FileCall

/-! ### Which accesses are taken

The tests of the source against the end of the device are made in blocks. What
they come to in bytes is said here. -/

/-- **The accesses that the data file takes**: those that begin inside the device, and
if they begin at a block, with all of their whole blocks. -/
def DataFileTakes (size offset count : ℕ) : Prop :=
  offset < size ∧ (offset % blockSize = 0 → offset + count / blockSize * blockSize ≤ size)

/-- The calls whose handling is not a slip: what goes through the helpers begins
inside the device, and the number of blocks is not narrowed. -/
def DataFileProper (size offset count : ℕ) : Prop :=
  (offset % blockSize ≠ 0 ∨ count < blockSize → offset < size) ∧ count / blockSize < 2 ^ 32

instance (size offset count : ℕ) : Decidable (DataFileProper size offset count) :=
  inferInstanceAs (Decidable ((_ ∨ _ → _) ∧ _))

namespace FileCall

variable {c : FileCall} {maxVba : ℕ}

/-- An offset is that of its block and the rest. -/
theorem offset_eq (c : FileCall) :
    c.block * blockSize + c.offset % blockSize = c.offset := Nat.div_add_mod' _ _

/-- An access to whole blocks begins at one. -/
theorem offset_eq_of_aligned (h : ¬ c.Unaligned) : c.block * blockSize = c.offset := by
  have hmod : c.offset % blockSize = 0 := not_not.mp fun hne => h (Or.inl hne)
  have heq := c.offset_eq
  rwa [hmod, Nat.add_zero] at heq

/-- An access that goes through the helpers stays in its block. -/
theorem out_le_of_unaligned (h : c.Unaligned) : c.offset % blockSize + c.out ≤ blockSize := by
  have hlt : c.offset % blockSize < blockSize := Nat.mod_lt _ (by decide)
  unfold out
  rw [if_pos h]
  split_ifs <;> omega

/-- An access to whole blocks is cut down to whole blocks. -/
theorem out_of_aligned (h : ¬ c.Unaligned) : c.out = c.count / blockSize * blockSize := by
  unfold out
  rw [if_neg h]
  exact Nat.sub_eq_of_eq_add (Nat.div_add_mod' _ _).symm

/-- No more bytes are reported than were asked for. -/
theorem out_le_count (c : FileCall) : c.out ≤ c.count := by
  unfold out
  split_ifs <;> omega

/-- An access of at least one byte reports at least one. -/
theorem out_pos (h : 0 < c.count) : 0 < c.out := by
  have hlt : c.offset % blockSize < blockSize := Nat.mod_lt _ (by decide)
  by_cases hun : c.Unaligned
  · unfold out
    rw [if_pos hun]
    split_ifs <;> omega
  · rw [out_of_aligned hun]
    have hle : blockSize ≤ c.count := Nat.not_lt.mp fun hlt => hun (Or.inr hlt)
    exact Nat.mul_pos (Nat.div_pos hle (by decide)) (by decide)

/-- An access of the helpers that is no slip is taken. -/
theorem takes_of_unaligned (hun : c.Unaligned)
    (h : DataFileProper ((maxVba + 1) * blockSize) c.offset c.count) :
    DataFileTakes ((maxVba + 1) * blockSize) c.offset c.count := by
  refine ⟨h.1 hun, fun hmod => ?_⟩
  have hcount : c.count < blockSize := hun.resolve_left (not_not.mpr hmod)
  rw [Nat.div_eq_of_lt hcount, Nat.zero_mul, Nat.add_zero]
  exact (h.1 hun).le

/-- An access to whole blocks is taken if these are on the device. -/
theorem takes_of_fits (hal : ¬ c.Unaligned) (hblock : c.block ≤ maxVba)
    (hfits : c.block + c.count / blockSize ≤ maxVba + 1) :
    DataFileTakes ((maxVba + 1) * blockSize) c.offset c.count := by
  have heq := offset_eq_of_aligned hal
  refine ⟨?_, fun _ => ?_⟩
  · rw [← heq]
    exact Nat.mul_lt_mul_of_pos_right (Nat.lt_succ_of_le hblock) (by decide)
  · rw [← heq, ← Nat.add_mul]
    exact Nat.mul_le_mul_right _ hfits

/-- An access to whole blocks is not taken if one of them is not. -/
theorem not_takes_of_beyond (hal : ¬ c.Unaligned)
    (h : maxVba < c.block ∨ maxVba + 1 < c.block + c.count / blockSize) :
    ¬ DataFileTakes ((maxVba + 1) * blockSize) c.offset c.count := by
  have heq := offset_eq_of_aligned hal
  rintro ⟨hlt, hle⟩
  have hmod : c.offset % blockSize = 0 := not_not.mp fun hne => hal (Or.inl hne)
  have hle' := hle hmod
  rw [← heq] at hlt
  rw [← heq, ← Nat.add_mul] at hle'
  have h1 : c.block < maxVba + 1 := Nat.lt_of_mul_lt_mul_right hlt
  have h2 : c.block + c.count / blockSize ≤ maxVba + 1 :=
    Nat.le_of_mul_le_mul_right hle' (by decide)
  omega

/-- What is taken is transferred inside the device. -/
theorem inside (h : DataFileTakes ((maxVba + 1) * blockSize) c.offset c.count) :
    c.offset + c.out ≤ (maxVba + 1) * blockSize := by
  by_cases hun : c.Unaligned
  · have hout := out_le_of_unaligned hun
    have heq := c.offset_eq
    have hblock : c.block < maxVba + 1 := Nat.div_lt_of_lt_mul (by
      rw [Nat.mul_comm]
      exact h.1)
    have hle : (c.block + 1) * blockSize ≤ (maxVba + 1) * blockSize :=
      Nat.mul_le_mul_right _ hblock
    rw [Nat.add_mul, Nat.one_mul] at hle
    omega
  · rw [out_of_aligned hun]
    exact h.2 (not_not.mp fun hne => hun (Or.inl hne))

/-- An access that was served is right. -/
theorem access_meets (h : DataFileTakes ((maxVba + 1) * blockSize) c.offset c.count) :
    (c.access c.out c.memAfter).Meets ((maxVba + 1) * blockSize)
      (DataFileTakes ((maxVba + 1) * blockSize)) c.file where
  out_le := c.out_le_count
  inside _ := inside h
  data hdir j hj := by
    have hdir : c.dir = .read := hdir
    have hj : j < c.out := hj
    show c.transferred c.memAfter j = _
    unfold transferred memAfter
    simp only [hdir]
    exact ByteFile.patch_add hj
  takes hpos _ := out_pos hpos
  refuses hnot := absurd h hnot

/-- A served access leaves the file as the call has. -/
theorem apply_access (c : FileCall) :
    (c.access c.out c.memAfter).apply c.file = c.fileAfter := by
  unfold Access.apply fileAfter access transferred
  cases c.dir <;> rfl

/-- An access that was rejected is right. -/
theorem access_meets_zero {mem : ℕ → Byte}
    (h : ¬ DataFileTakes ((maxVba + 1) * blockSize) c.offset c.count) :
    (c.access 0 mem).Meets ((maxVba + 1) * blockSize)
      (DataFileTakes ((maxVba + 1) * blockSize)) c.file where
  out_le := Nat.zero_le _
  inside hpos := absurd hpos (Nat.lt_irrefl 0)
  data _ _ hj := absurd hj (Nat.not_lt_zero _)
  takes _ ht := absurd ht h
  refuses _ := rfl

/-- A rejected access leaves the file alone. -/
theorem apply_access_zero (c : FileCall) (mem : ℕ → Byte) :
    (c.access 0 mem).apply c.file = c.file := by
  unfold Access.apply access
  cases c.dir
  · rfl
  · exact ByteFile.patch_zero _ _ _

end FileCall

/-! ## The stages of a call

A stage names which of the three requests of the plugin is under way, and where
it is. It determines the states of all of them, so that the tests of the source
on these states are decided by the stage. -/

/-- The bookkeeping of the library for a request is in order, and it did not fail. -/
structure ServiceJob.Sound (job : ServiceJob) : Prop where
  /-- What was moved are blocks of the request. -/
  served : ∀ i ∈ job.served, i < job.req.count
  /-- So is what is on offer. -/
  offered : ∀ i ∈ job.offered, i < job.req.count
  /-- A complete request has succeeded, with all its blocks moved. -/
  completed : ∀ ok ∈ job.completed,
    ok = true ∧ job.offered = none ∧ ∀ i < job.req.count, i ∈ job.served

namespace ServiceJob

variable {job : ServiceJob} {maxVba : ℕ} {mv : ServiceMove} {i : ℕ}

/-- A move of the library keeps the request. -/
@[simp] theorem move_req (job : ServiceJob) (maxVba : ℕ) (mv : ServiceMove) :
    (job.move maxVba mv).req = job.req := by
  unfold move
  cases mv <;> dsimp only <;> split_ifs <;> rfl

/-- It keeps the blocks that were moved. -/
@[simp] theorem move_served (job : ServiceJob) (maxVba : ℕ) (mv : ServiceMove) :
    (job.move maxVba mv).served = job.served := by
  unfold move
  cases mv <;> dsimp only <;> split_ifs <;> rfl

/-- A request that was just submitted is in order. -/
theorem Sound.fresh (req : Request) :
    Sound { req := req, served := [], offered := none, completed := none } where
  served _ hi := absurd hi List.not_mem_nil
  offered _ hi := absurd hi (Option.not_mem_none _)
  completed _ hok := absurd hok (Option.not_mem_none _)

/-- It stays so by every move but a failure. -/
theorem Sound.move (h : job.Sound) (hmv : mv ≠ .fail) : (job.move maxVba mv).Sound := by
  unfold ServiceJob.move
  cases mv with
  | idle => exact h
  | offer i =>
    dsimp only
    split_ifs with hcond
    · refine ⟨h.served, fun k hk => ?_, fun ok hok => ?_⟩
      · obtain rfl := Option.some.inj hk
        exact hcond.2.2.1
      · rw [show job.completed = none from hcond.1] at hok
        exact absurd hok (Option.not_mem_none _)
    · exact h
  | complete =>
    dsimp only
    split_ifs with hcond
    · refine ⟨h.served, h.offered, fun ok hok => ?_⟩
      obtain rfl := Option.some.inj hok
      exact ⟨rfl, hcond.2.1, hcond.2.2⟩
    · exact h
  | fail => exact absurd rfl hmv

/-- A block on offer is moved. -/
theorem Sound.moved (h : job.Sound) (hi : job.offered = some i) : (job.moved i).Sound where
  served k hk := by
    rcases List.mem_cons.mp hk with rfl | hk
    · exact h.offered _ hi
    · exact h.served k hk
  offered _ hk := absurd hk (Option.not_mem_none _)
  completed ok hok := by
    have hnone := (h.completed ok hok).2.1
    rw [hi] at hnone
    exact absurd hnone (Option.some_ne_none i)

/-- A request of one block. -/
theorem Sound.zero_mem (h : job.Sound) {ok : Bool} (hok : job.completed = some ok)
    (hcount : job.req.count = 1) : ok = true ∧ 0 ∈ job.served := by
  obtain ⟨rfl, -, hall⟩ := h.completed ok hok
  exact ⟨rfl, hall 0 (by rw [hcount]; exact Nat.one_pos)⟩

end ServiceJob

/-- **The stages of a call.** In some of them a request is in the library. -/
inductive FileStage where
  | pending
  | serving (job : ServiceJob)
  | readPending
  | reading (job : ServiceJob)
  | read
  | writePending
  | writing (job : ServiceJob)
  | wrote
  | done
  | eof

namespace FileStage

/-- The state of the frontend request. -/
def front : FileStage → FrontendState
  | pending => .pending
  | done => .complete
  | eof => .errorEof
  | _ => .inProgress

/-- The state of the helper that reads. -/
def helperRead : FileStage → HelperState
  | readPending => .pending
  | reading _ => .inProgress
  | read => .complete
  | _ => .none

/-- The state of the helper that writes. -/
def helperWrite : FileStage → HelperState
  | writePending => .pending
  | writing _ => .inProgress
  | wrote => .complete
  | _ => .none

/-- The request in the library. -/
def job : FileStage → Option ServiceJob
  | serving job => some job
  | reading job => some job
  | writing job => some job
  | _ => none

/-- What the library makes of its request. -/
def mapJob (f : ServiceJob → ServiceJob) : FileStage → FileStage
  | serving job => serving (f job)
  | reading job => reading (f job)
  | writing job => writing (f job)
  | s => s

/-- The stages that a round of the loop begins and ends with. -/
def Between : FileStage → Prop
  | read | wrote => False
  | _ => True

end FileStage

namespace FileCall

variable (c : FileCall)

/-- The memory of the client when some of the blocks were read. -/
def readMem (served : List ℕ) : ℕ → Byte := fun a =>
  if c.data ≤ a ∧ (a - c.data) / blockSize ∈ served then c.file (c.offset + (a - c.data))
  else c.mem a

/-- The blocks of the device when some of the blocks were written. -/
def writeBlocks (served : List ℕ) : ℕ → BlockData := fun k =>
  if c.block ≤ k ∧ k - c.block ∈ served then
    fun i => c.mem (c.data + (k - c.block) * blockSize + i)
  else c.blocks k

/-- The block of the helper that writes. -/
def changed : BlockData := fun i =>
  patch (bytes blockSize (c.blocks c.block)) (c.offset % blockSize) c.out
    (fun j => c.mem (c.data + j)) i

/-- Neither the memory nor the device was changed. -/
def Kept (v : Vfs) : Prop := v.mem = c.mem ∧ v.cbe.blocks = c.blocks

/-- Some of the blocks were moved. -/
def Moved (served : List ℕ) (v : Vfs) : Prop :=
  match c.dir with
  | .read => v.mem = c.readMem served ∧ v.cbe.blocks = c.blocks
  | .write => v.mem = c.mem ∧ v.cbe.blocks = c.writeBlocks served

/-- All of the bytes were moved. -/
def Finished (v : Vfs) : Prop := v.mem = c.memAfter ∧ v.cbe.file = c.fileAfter

/-- **What holds in a stage**, besides the states of the requests. -/
def Holds (maxVba : ℕ) (v : Vfs) : FileStage → Prop
  | .pending => ¬ c.Unaligned ∧ v.frontendRequest.cbeRequest = c.request ∧ c.Kept v
  | .serving job => ¬ c.Unaligned ∧ job.req = c.request ∧ job.Sound
      ∧ (c.block ≤ maxVba ∧ c.block + c.count / blockSize ≤ maxVba + 1)
      ∧ c.Moved job.served v
  | .readPending => c.Unaligned ∧ v.helperReadRequest.cbeRequest = c.helperRead ∧ c.Kept v
  | .reading job => c.Unaligned ∧ v.helperReadRequest.cbeRequest = c.helperRead
      ∧ job.req = c.helperRead ∧ job.Sound ∧ c.Kept v
      ∧ (0 ∈ job.served → v.helperReadRequest.blockData = c.blocks c.block)
  | .read => c.Unaligned
      ∧ v.helperReadRequest.cbeRequest = { c.helperRead with success := true } ∧ c.Kept v
      ∧ v.helperReadRequest.blockData = c.blocks c.block
  | .writePending => c.Unaligned ∧ c.dir = .write
      ∧ v.helperWriteRequest.cbeRequest = c.helperWrite ∧ c.Kept v
      ∧ v.helperWriteRequest.blockData = c.changed
  | .writing job => c.Unaligned ∧ c.dir = .write ∧ job.req = c.helperWrite ∧ job.Sound
      ∧ v.helperWriteRequest.blockData = c.changed ∧ v.mem = c.mem
      ∧ v.cbe.blocks = if 0 ∈ job.served then Function.update c.blocks c.block c.changed
          else c.blocks
  | .wrote => c.Unaligned ∧ c.dir = .write ∧ v.mem = c.mem
      ∧ v.cbe.blocks = Function.update c.blocks c.block c.changed
  | .done => DataFileTakes ((maxVba + 1) * blockSize) c.offset c.count ∧ c.Finished v
  | .eof => ¬ DataFileTakes ((maxVba + 1) * blockSize) c.offset c.count ∧ c.Kept v

end FileCall

/-- **The plugin is at a stage of a call**, for a snapshot of a device. -/
structure Vfs.At (v : Vfs) (snapId maxVba : ℕ) (c : FileCall) (s : FileStage) : Prop where
  /-- The library serves the snapshot. -/
  snapshot : v.cbe.snapId = snapId
  /-- It serves the device. -/
  device : v.cbe.maxVba = maxVba
  /-- The state of the request is that of the stage. -/
  front : v.frontendRequest.state = s.front
  /-- So is that of the reading helper. -/
  helperRead : v.helperReadRequest.state = s.helperRead
  /-- So is that of the writing helper. -/
  helperWrite : v.helperWriteRequest.state = s.helperWrite
  /-- So is what the library has to do. -/
  job : v.cbe.job = s.job
  /-- The access moves what the call makes of the count. -/
  count : v.frontendRequest.count = c.out
  /-- It moves it in the direction of the call. -/
  operation : v.frontendRequest.cbeRequest.operation = directionOperation c.dir
  /-- The memory is the one of the call. -/
  address : v.frontendRequest.cbeRequest.offset = c.data
  /-- The request is for the snapshot. -/
  snap : v.frontendRequest.snapId = snapId
  /-- An unaligned access begins in the middle of the block of the helper. -/
  helperOffset : c.Unaligned → v.frontendRequest.helperOffset = c.offset % blockSize
  /-- The access is one that the plugin takes. -/
  proper : DataFileProper ((maxVba + 1) * blockSize) c.offset c.count
  /-- What was moved so far is where it belongs. -/
  holds : c.Holds maxVba v s

/-- The plugin without a call. -/
structure Vfs.Idle (v : Vfs) (snapId maxVba : ℕ) : Prop where
  /-- The library serves the snapshot. -/
  snapshot : v.cbe.snapId = snapId
  /-- It serves the device. -/
  device : v.cbe.maxVba = maxVba
  /-- No access is in progress. -/
  front : v.frontendRequest.state = .none
  /-- The reading helper has nothing to do. -/
  helperRead : v.helperReadRequest.state = .none
  /-- The writing helper has nothing to do. -/
  helperWrite : v.helperWriteRequest.state = .none
  /-- The library has nothing to do. -/
  job : v.cbe.job = none

/-! ### What the stages say about the bytes

Moving a block is a change of the memory or of the device at that block; when
all of them were moved, the changes are those of the whole access. -/

namespace FileCall

variable {c : FileCall} {served : List ℕ}

/-- Before the first block the memory is the client's. -/
@[simp] theorem readMem_nil (c : FileCall) : c.readMem [] = c.mem :=
  funext fun _ => if_neg fun h => absurd h.2 List.not_mem_nil

/-- Before the first block the device is as it was. -/
@[simp] theorem writeBlocks_nil (c : FileCall) : c.writeBlocks [] = c.blocks :=
  funext fun _ => if_neg fun h => absurd h.2 List.not_mem_nil

/-- **A block is read.** -/
theorem patch_readMem (hal : ¬ c.Unaligned) (i : ℕ) :
    patch (c.readMem served) (c.data + i * blockSize) blockSize
        (bytes blockSize (c.blocks (c.block + i)))
      = c.readMem (i :: served) := by
  have hoff := offset_eq_of_aligned hal
  funext a
  unfold patch
  by_cases hin : c.data + i * blockSize ≤ a ∧ a < c.data + i * blockSize + blockSize
  · obtain ⟨j, rfl⟩ := Nat.exists_eq_add_of_le hin.1
    have hj : j < blockSize := Nat.lt_of_add_lt_add_left hin.2
    have hsub : c.data + i * blockSize + j - c.data = i * blockSize + j := by
      rw [Nat.add_assoc, Nat.add_sub_cancel_left]
    have hdiv : (i * blockSize + j) / blockSize = i := by
      rw [Nat.add_comm, Nat.add_mul_div_right j i (by decide), Nat.div_eq_of_lt hj, Nat.zero_add]
    have hmem : c.readMem (i :: served) (c.data + i * blockSize + j)
        = c.file (c.offset + (i * blockSize + j)) := by
      unfold readMem
      rw [hsub, hdiv, if_pos ⟨by omega, List.mem_cons_self⟩]
    rw [if_pos hin, hmem, Nat.add_sub_cancel_left, ← hoff, ← Nat.add_assoc, ← Nat.add_mul]
    exact (ByteFile.flat_mul_add c.blocks (c.block + i) j hj).symm
  · rw [if_neg hin]
    unfold readMem
    by_cases ha : c.data ≤ a
    · have hne : (a - c.data) / blockSize ≠ i := by
        intro heq
        have h1 := Nat.div_add_mod' (a - c.data) blockSize
        have h2 : (a - c.data) % blockSize < blockSize := Nat.mod_lt _ (by decide)
        rw [heq] at h1
        exact hin (by omega)
      simp only [List.mem_cons, hne, false_or]
    · rw [if_neg fun h => ha h.1, if_neg fun h => ha h.1]

/-- **A block is written.** -/
theorem update_writeBlocks (i : ℕ) :
    Function.update (c.writeBlocks served) (c.block + i)
        (fun k => c.mem (c.data + i * blockSize + k))
      = c.writeBlocks (i :: served) := by
  funext k
  by_cases hk : k = c.block + i
  · subst hk
    rw [Function.update_self]
    unfold writeBlocks
    rw [Nat.add_sub_cancel_left,
      if_pos ⟨Nat.le_add_right _ _, List.mem_cons_self⟩]
  · rw [Function.update_of_ne hk]
    unfold writeBlocks
    by_cases hle : c.block ≤ k
    · have hne : k - c.block ≠ i := fun h => hk (by omega)
      simp only [List.mem_cons, hne, false_or]
    · rw [if_neg fun h => hle h.1, if_neg fun h => hle h.1]

/-- **All blocks were read.** -/
theorem readMem_all (hal : ¬ c.Unaligned) (hall : ∀ i, i ∈ served ↔ i < c.count / blockSize) :
    c.readMem served = patch c.mem c.data c.out fun j => c.file (c.offset + j) := by
  have hpos : 0 < blockSize := by decide
  funext a
  unfold readMem patch
  rw [out_of_aligned hal]
  by_cases ha : c.data ≤ a
  · have hiff : (a - c.data) / blockSize ∈ served
        ↔ a < c.data + c.count / blockSize * blockSize := by
      rw [hall, Nat.div_lt_iff_lt_mul hpos]
      omega
    simp only [ha, true_and, hiff]
  · rw [if_neg fun h => ha h.1, if_neg fun h => ha h.1]

/-- **All blocks were written.** -/
theorem writeBlocks_all (hal : ¬ c.Unaligned)
    (hall : ∀ i, i ∈ served ↔ i < c.count / blockSize) :
    ByteFile.flat blockSize (c.writeBlocks served)
      = patch c.file c.offset c.out fun j => c.mem (c.data + j) := by
  have hpos : 0 < blockSize := by decide
  have hoff := offset_eq_of_aligned hal
  funext p
  have hdiv := Nat.div_add_mod' p blockSize
  have hmod : p % blockSize < blockSize := Nat.mod_lt p hpos
  unfold patch
  rw [out_of_aligned hal]
  show bytes blockSize (c.writeBlocks served (p / blockSize)) p = _
  unfold writeBlocks
  by_cases hle : c.block ≤ p / blockSize
  · have hoffle : c.offset ≤ p := by
      rw [← hoff]
      exact (Nat.mul_le_mul_right _ hle).trans (Nat.div_mul_le_self _ _)
    have hiff : p / blockSize - c.block ∈ served
        ↔ p < c.offset + c.count / blockSize * blockSize := by
      rw [hall, Nat.sub_lt_iff_lt_add hle, Nat.div_lt_iff_lt_mul hpos, Nat.add_mul, hoff,
        Nat.add_comm]
    by_cases hlt : p < c.offset + c.count / blockSize * blockSize
    · rw [if_pos ⟨hle, hiff.mpr hlt⟩, if_pos ⟨hoffle, hlt⟩]
      show c.mem (c.data + (p / blockSize - c.block) * blockSize + p % blockSize) = _
      have harith : (p / blockSize - c.block) * blockSize + p % blockSize = p - c.offset := by
        have hge : c.offset ≤ p / blockSize * blockSize := by
          rw [← hoff]
          exact Nat.mul_le_mul_right _ hle
        rw [Nat.sub_mul, hoff]
        omega
      rw [Nat.add_assoc, harith]
    · rw [if_neg fun h => hlt (hiff.mp h.2), if_neg fun h => hlt h.2]
      rfl
  · have hlt : ¬ c.offset ≤ p := by
      intro h
      refine hle ?_
      exact Nat.div_le_div_right h
    rw [if_neg fun h => hle h.1, if_neg fun h => hlt h.1]
    rfl

/-- **The block is written back**, with the bytes changed. -/
theorem flat_update_changed (hun : c.Unaligned) :
    ByteFile.flat blockSize (Function.update c.blocks c.block c.changed)
      = patch c.file c.offset c.out fun j => c.mem (c.data + j) := by
  rw [← c.offset_eq]
  exact ByteFile.flat_update_patch c.blocks c.block (out_le_of_unaligned hun)

/-- The bytes of the block that the helper read. -/
theorem bytes_block (hun : c.Unaligned) {j : ℕ} (hj : j < c.out) :
    bytes blockSize (c.blocks c.block) (c.offset % blockSize + j) = c.file (c.offset + j) := by
  have hle := out_le_of_unaligned hun
  have hflat := ByteFile.flat_mul_add c.blocks c.block (c.offset % blockSize + j)
    (by omega : c.offset % blockSize + j < blockSize)
  rw [← Nat.add_assoc, c.offset_eq] at hflat
  exact hflat.symm

end FileCall

/-! ## The parts of a round

A round of the loop goes through the parts one after the other. Most of them do
something in one stage only, which they recognize by a state of one of the
requests; in the others they leave everything as it is. -/

namespace FileStage

variable {s : FileStage} {job : ServiceJob}

/-- A pending request of the frontend is the first stage. -/
theorem eq_pending (h : s.front = .pending) : s = .pending := by
  cases s <;> first | rfl | exact FrontendState.noConfusion h

/-- A pending request of the helper that reads is its first stage. -/
theorem eq_readPending (h : s.helperRead = .pending) : s = .readPending := by
  cases s <;> first | rfl | exact HelperState.noConfusion h

/-- A completed one is its last stage. -/
theorem eq_read (h : s.helperRead = .complete) : s = .read := by
  cases s <;> first | rfl | exact HelperState.noConfusion h

/-- A pending request of the helper that writes is its first stage. -/
theorem eq_writePending (h : s.helperWrite = .pending) : s = .writePending := by
  cases s <;> first | rfl | exact HelperState.noConfusion h

/-- A completed one is its last stage. -/
theorem eq_wrote (h : s.helperWrite = .complete) : s = .wrote := by
  cases s <;> first | rfl | exact HelperState.noConfusion h

/-- A request in the library is one of the three. -/
theorem of_job (h : s.job = some job) :
    s = .serving job ∨ s = .reading job ∨ s = .writing job := by
  cases s <;> simp_all [FileStage.job]

end FileStage

/-- A library without a request takes one. -/
theorem BlockService.submitClientRequest_eq {cbe : BlockService} {snapId : ℕ} (req : Request)
    (hjob : cbe.job = none) (hsnap : snapId = cbe.snapId) :
    cbe.submitClientRequest req snapId
      = some { cbe with
          job := some { req := req, served := [], offered := none, completed := none } } := by
  unfold submitClientRequest
  rw [hjob]
  exact if_pos hsnap

/-- What is offered is a block of the request. -/
theorem BlockService.offeredTo_eq_some {cbe : BlockService} {op : RequestOperation}
    {job : ServiceJob} {i : ℕ} (h : cbe.offeredTo op = some (job, i)) :
    cbe.job = some job ∧ job.req.operation = op ∧ job.offered = some i := by
  obtain ⟨job', hjob, h⟩ := Option.bind_eq_some_iff.mp h
  obtain ⟨hop, h⟩ := Option.ite_none_right_eq_some.mp h
  obtain ⟨i', hi, heq⟩ := Option.map_eq_some_iff.mp h
  obtain ⟨rfl, rfl⟩ := Prod.mk.inj heq
  exact ⟨hjob, hop, hi⟩

namespace Vfs.At

variable {v : Vfs} {snapId maxVba : ℕ} {c : FileCall} {s : FileStage} {ev : ServiceEvent}

/-- The request of the helper that reads goes to the library. -/
theorem submitHelperRead (h : v.At snapId maxVba c s) (hs : s.Between) :
    ∃ v' s', v.submitHelperRead = some v' ∧ v'.At snapId maxVba c s' ∧ s'.Between := by
  unfold Vfs.submitHelperRead
  split_ifs with hguard
  · obtain rfl := FileStage.eq_readPending (h.helperRead.symm.trans hguard.1)
    obtain ⟨hun, hreq, hkept⟩ := h.holds
    rw [BlockService.submitClientRequest_eq _ h.job (h.snap.trans h.snapshot.symm)]
    exact ⟨_, .reading _, rfl, { h with
      helperRead := rfl
      job := rfl
      holds := ⟨hun, hreq, hreq, .fresh _, hkept, fun h0 => absurd h0 List.not_mem_nil⟩ }, trivial⟩
  · exact ⟨v, s, rfl, h, hs⟩

/-- The request of the helper that writes goes to the library. -/
theorem submitHelperWrite (h : v.At snapId maxVba c s) (hs : s.Between) :
    ∃ v' s', v.submitHelperWrite = some v' ∧ v'.At snapId maxVba c s' ∧ s'.Between := by
  unfold Vfs.submitHelperWrite
  split_ifs with hguard
  · obtain rfl := FileStage.eq_writePending (h.helperWrite.symm.trans hguard.1)
    obtain ⟨hun, hdir, hreq, hkept, hdata⟩ := h.holds
    rw [BlockService.submitClientRequest_eq _ h.job (h.snap.trans h.snapshot.symm)]
    exact ⟨_, .writing _, rfl, { h with
      helperWrite := rfl
      job := rfl
      holds := ⟨hun, hdir, hreq, .fresh _, hdata, hkept.1,
        hkept.2.trans (if_neg List.not_mem_nil).symm⟩ }, trivial⟩
  · exact ⟨v, s, rfl, h, hs⟩

/-- What the tests against the end of the device come to. -/
theorem rejects_iff (h : v.At snapId maxVba c .pending) :
    v.Rejects ↔ maxVba < c.block ∨ maxVba + 1 < c.block + c.count / blockSize := by
  obtain ⟨-, hreq, -⟩ := h.holds
  have hsize : (v.cbe.maxVba + 1) * 4096 < 2 ^ 64 := v.cbe.size_lt
  rw [h.device] at hsize
  have hcount : v.frontendRequest.cbeRequest.count = c.count / blockSize := by
    rw [hreq]
    exact Nat.mod_eq_of_lt h.proper.2
  have hblock : v.frontendRequest.cbeRequest.blockNumber = c.block := by
    rw [hreq]
    rfl
  have hlt : c.count / blockSize < 2 ^ 32 := h.proper.2
  unfold Vfs.Rejects
  dsimp only
  rw [hcount, hblock, h.device]
  constructor
  · rintro ⟨-, hor⟩
    omega
  · intro hor
    refine ⟨h.front, ?_⟩
    by_cases hle : c.block ≤ maxVba
    · exact Or.inr (Or.inr (by omega))
    · exact Or.inl (Nat.not_le.mp hle)

/-- A request that reaches beyond the device is rejected. -/
theorem setState_errorEof (h : v.At snapId maxVba c s) (hrej : v.Rejects) :
    (v.setState .errorEof).At snapId maxVba c .eof := by
  obtain rfl := FileStage.eq_pending (h.front.symm.trans hrej.1)
  obtain ⟨hal, hreq, hkept⟩ := h.holds
  exact { h with
    front := rfl
    holds := ⟨FileCall.not_takes_of_beyond hal (h.rejects_iff.mp hrej), hkept⟩ }

/-- The request of the frontend goes to the library. -/
theorem submitFrontend (h : v.At snapId maxVba c s) (hs : s.Between) (hrej : ¬ v.Rejects) :
    ∃ v' s', v.submitFrontend = some v' ∧ v'.At snapId maxVba c s' ∧ s'.Between := by
  unfold Vfs.submitFrontend
  split_ifs with hguard
  · obtain rfl := FileStage.eq_pending (h.front.symm.trans hguard.1)
    obtain ⟨hal, hreq, hkept⟩ := h.holds
    have hfits := not_or.mp (mt h.rejects_iff.mpr hrej)
    rw [BlockService.submitClientRequest_eq _ h.job (h.snap.trans h.snapshot.symm)]
    refine ⟨_, .serving _, rfl, { h with
      front := rfl
      job := rfl
      holds := ⟨hal, hreq, .fresh _, ⟨Nat.not_lt.mp hfits.1, Nat.not_lt.mp hfits.2⟩, ?_⟩ }, trivial⟩
    show c.Moved [] _
    unfold FileCall.Moved
    cases c.dir
    · exact ⟨hkept.1.trans c.readMem_nil.symm, hkept.2⟩
    · exact ⟨hkept.1, hkept.2.trans c.writeBlocks_nil.symm⟩
  · exact ⟨v, s, rfl, h, hs⟩

/-- The library goes on. -/
theorem execute (h : v.At snapId maxVba c s) (hs : s.Between) (hmv : ev.move ≠ .fail) :
    ∃ s', ({ v with cbe := v.cbe.execute ev } : Vfs).At snapId maxVba c s' ∧ s'.Between := by
  have hjob : v.cbe.job.map (fun job => job.move v.cbe.maxVba ev.move)
      = (s.mapJob fun job => job.move v.cbe.maxVba ev.move).job := by
    rw [h.job]
    cases s <;> rfl
  refine ⟨s.mapJob fun job => job.move v.cbe.maxVba ev.move, { h with
    front := ?_
    helperRead := ?_
    helperWrite := ?_
    job := hjob
    holds := ?_ }, ?_⟩
  · rw [h.front]
    cases s <;> rfl
  · rw [h.helperRead]
    cases s <;> rfl
  · rw [h.helperWrite]
    cases s <;> rfl
  · have hholds := h.holds
    cases s with
    | serving job =>
      obtain ⟨hal, hreq, hsound, hfits, hmoved⟩ := hholds
      refine ⟨hal, (job.move_req _ _).trans hreq, hsound.move hmv, hfits, ?_⟩
      rw [ServiceJob.move_served]
      exact hmoved
    | reading job =>
      obtain ⟨hun, hhelper, hreq, hsound, hkept, hdata⟩ := hholds
      refine ⟨hun, hhelper, (job.move_req _ _).trans hreq, hsound.move hmv, hkept, ?_⟩
      rw [ServiceJob.move_served]
      exact hdata
    | writing job =>
      obtain ⟨hun, hdir, hreq, hsound, hdata, hmem, hblocks⟩ := hholds
      refine ⟨hun, hdir, (job.move_req _ _).trans hreq, hsound.move hmv, hdata, hmem, ?_⟩
      rw [ServiceJob.move_served]
      exact hblocks
    | _ => exact hholds
  · cases s <;> exact hs

/-- All blocks of the request of the frontend were moved. -/
theorem finished_of_serving {job : ServiceJob} (h : v.At snapId maxVba c (.serving job))
    {ok : Bool} (hok : job.completed = some ok) :
    ok = true ∧ DataFileTakes ((maxVba + 1) * blockSize) c.offset c.count ∧ c.Finished v := by
  obtain ⟨hal, hreq, hsound, hfits, hmoved⟩ := h.holds
  obtain ⟨rfl, -, hall⟩ := hsound.completed ok hok
  have hcount : job.req.count = c.count / blockSize := by
    rw [hreq]
    exact Nat.mod_eq_of_lt h.proper.2
  have hiff : ∀ i, i ∈ job.served ↔ i < c.count / blockSize := fun i =>
    ⟨fun hi => hcount ▸ hsound.served i hi, fun hi => hall i (hcount.symm ▸ hi)⟩
  refine ⟨rfl, FileCall.takes_of_fits hal hfits.1 hfits.2, ?_⟩
  unfold FileCall.Moved at hmoved
  unfold FileCall.Finished FileCall.memAfter FileCall.fileAfter BlockService.file
  cases hdir : c.dir with
  | read =>
    simp only [hdir] at hmoved
    rw [hmoved.1, hmoved.2]
    exact ⟨FileCall.readMem_all hal hiff, rfl⟩
  | write =>
    simp only [hdir] at hmoved
    rw [hmoved.1, hmoved.2]
    exact ⟨rfl, FileCall.writeBlocks_all hal hiff⟩

/-- A request that the library has completed is taken back. -/
theorem completeRequests (h : v.At snapId maxVba c s) :
    ∃ s', v.completeRequests.1.At snapId maxVba c s' := by
  unfold Vfs.completeRequests BlockService.peekCompletedClientRequest
  rw [h.job]
  cases hjob : s.job with
  | none => exact ⟨s, h⟩
  | some job =>
    cases hok : job.completed with
    | none =>
      rw [Option.bind_some, hok]
      exact ⟨s, h⟩
    | some ok =>
      rw [Option.bind_some, hok]
      obtain rfl | rfl | rfl := FileStage.of_job hjob
      · obtain ⟨rfl, htakes, hfinished⟩ := h.finished_of_serving hok
        simp only [Option.map_some, h.helperRead, h.helperWrite, FileStage.helperRead,
          FileStage.helperWrite, reduceCtorEq, if_false]
        exact ⟨.done, { h with
          front := rfl
          job := rfl
          holds := ⟨htakes, hfinished⟩ }⟩
      · obtain ⟨hun, hhelper, hreq, hsound, hkept, hdata⟩ := h.holds
        obtain ⟨rfl, hzero⟩ := hsound.zero_mem hok (by rw [hreq]; rfl)
        simp only [Option.map_some, h.helperRead, FileStage.helperRead, reduceCtorEq, if_false,
          if_true]
        refine ⟨.read, { h with
          helperRead := rfl
          job := rfl
          holds := ⟨hun, ?_, hkept, hdata hzero⟩ }⟩
        show ({ v.helperReadRequest.cbeRequest with success := true } : Request) = _
        rw [hhelper]
      · obtain ⟨hun, hdir, hreq, hsound, hdata, hmem, hblocks⟩ := h.holds
        obtain ⟨rfl, hzero⟩ := hsound.zero_mem hok (by rw [hreq]; rfl)
        simp only [Option.map_some, h.helperRead, h.helperWrite, FileStage.helperRead,
          FileStage.helperWrite, reduceCtorEq, if_false, if_true]
        exact ⟨.wrote, { h with
          helperWrite := rfl
          job := rfl
          holds := ⟨hun, hdir, hmem, hblocks.trans (if_pos hzero)⟩ }⟩

/-- The helper that reads has read for a read. -/
theorem finishUnalignedRead (h : v.At snapId maxVba c .read) (hdir : c.dir = .read) :
    v.finishUnalignedRead.At snapId maxVba c .done := by
  obtain ⟨hun, hreq, hkept, hdata⟩ := h.holds
  have hmem : v.finishUnalignedRead.mem = c.memAfter := by
    unfold Vfs.finishUnalignedRead FileCall.memAfter
    simp only [hdir]
    rw [hkept.1, h.address, h.count, h.helperOffset hun, hdata]
    exact ByteFile.patch_congr fun j hj => FileCall.bytes_block hun hj
  have hfile : v.cbe.file = c.fileAfter := by
    unfold BlockService.file FileCall.fileAfter
    simp only [hdir]
    rw [hkept.2]
    rfl
  exact { h with
    front := rfl
    helperRead := rfl
    holds := ⟨FileCall.takes_of_unaligned hun h.proper, hmem, hfile⟩ }

/-- The helper that reads has read for a write. -/
theorem startUnalignedWrite (h : v.At snapId maxVba c .read) (hdir : c.dir = .write) :
    v.startUnalignedWrite.At snapId maxVba c .writePending := by
  obtain ⟨hun, hreq, hkept, hdata⟩ := h.holds
  refine { h with
    helperRead := rfl
    helperWrite := rfl
    holds := ⟨hun, hdir, ?_, hkept, ?_⟩ }
  · unfold Vfs.startUnalignedWrite
    dsimp only
    rw [hreq]
    rfl
  · unfold Vfs.startUnalignedWrite FileCall.changed
    dsimp only
    rw [hdata, h.helperOffset hun, h.count, h.address, hkept.1]

/-- The helper that reads comes to its end, which for a write is the beginning
of the other. -/
theorem finishHelperRead (h : v.At snapId maxVba c s) :
    ∃ s', v.finishHelperRead.1.At snapId maxVba c s' ∧ s' ≠ .read := by
  unfold Vfs.finishHelperRead
  split_ifs with hguard
  · obtain rfl := FileStage.eq_read (h.helperRead.symm.trans hguard)
    rw [h.operation]
    cases hdir : c.dir with
    | read => exact ⟨.done, h.finishUnalignedRead hdir, by simp⟩
    | write => exact ⟨.writePending, h.startUnalignedWrite hdir, by simp⟩
  · refine ⟨s, h, ?_⟩
    rintro rfl
    exact hguard h.helperRead

/-- The helper that writes comes to its end. -/
theorem finishHelperWrite (h : v.At snapId maxVba c s) (hs : s ≠ .read) :
    ∃ s', v.finishHelperWrite.1.At snapId maxVba c s' ∧ s'.Between := by
  unfold Vfs.finishHelperWrite
  split_ifs with hguard
  · obtain rfl := FileStage.eq_wrote (h.helperWrite.symm.trans hguard)
    obtain ⟨hun, hdir, hmem, hblocks⟩ := h.holds
    have hfile : v.cbe.file = c.fileAfter := by
      unfold BlockService.file FileCall.fileAfter
      simp only [hdir]
      rw [hblocks]
      exact FileCall.flat_update_changed hun
    have hmem' : v.mem = c.memAfter := by
      unfold FileCall.memAfter
      simp only [hdir]
      exact hmem
    exact ⟨.done, { h with
      front := rfl
      helperWrite := rfl
      holds := ⟨FileCall.takes_of_unaligned hun h.proper, hmem', hfile⟩ }, trivial⟩
  · refine ⟨s, h, ?_⟩
    cases s with
    | read => exact absurd rfl hs
    | wrote => exact absurd h.helperWrite hguard
    | _ => trivial

/-- A block that was read goes to the client. -/
theorem readClientData (h : v.At snapId maxVba c s) (hs : s.Between) :
    ∃ v' progress s', v.readClientData = some (v', progress) ∧ v'.At snapId maxVba c s'
      ∧ s'.Between := by
  unfold Vfs.readClientData
  cases hready : v.cbe.clientDataReady with
  | none => exact ⟨v, false, s, rfl, h, hs⟩
  | some q =>
    obtain ⟨job, i⟩ := q
    obtain ⟨hjob, hop, hi⟩ := BlockService.offeredTo_eq_some hready
    obtain rfl | rfl | rfl := FileStage.of_job (h.job.symm.trans hjob)
    · obtain ⟨hal, hreq, hsound, hfits, hmoved⟩ := h.holds
      have hdir : c.dir = .read := by
        rw [hreq] at hop
        cases hc : c.dir with
        | read => rfl
        | write =>
          rw [FileCall.request, hc] at hop
          exact RequestOperation.noConfusion hop
      unfold FileCall.Moved at hmoved
      simp only [hdir] at hmoved
      simp only [h.helperRead, h.front, FileStage.helperRead, FileStage.front, reduceCtorEq,
        if_false, if_true]
      refine ⟨_, _, .serving (job.moved i), rfl, { h with
        front := h.front
        helperRead := h.helperRead
        job := rfl
        holds := ⟨hal, hreq, hsound.moved hi, hfits, ?_⟩ }, trivial⟩
      unfold FileCall.Moved
      simp only [hdir]
      refine ⟨?_, hmoved.2⟩
      have hdata : (v.cbe.obtainClientData job i).1 = c.blocks (c.block + i) := by
        show v.cbe.blocks (job.req.blockNumber + i) = _
        rw [hmoved.2, hreq]
        rfl
      show patch v.mem (job.req.offset + i * blockSize) blockSize
        (bytes blockSize (v.cbe.obtainClientData job i).1) = _
      rw [hdata, hmoved.1, hreq]
      exact FileCall.patch_readMem hal i
    · obtain ⟨hun, hhelper, hreq, hsound, hkept, hdata⟩ := h.holds
      have hlt := hsound.offered i hi
      obtain rfl : i = 0 := by
        rw [hreq] at hlt
        exact Nat.lt_one_iff.mp hlt
      simp only [h.helperRead, FileStage.helperRead, if_true]
      refine ⟨_, _, .reading (job.moved 0), rfl, { h with
        helperRead := rfl
        job := rfl
        holds := ⟨hun, hhelper, hreq, hsound.moved hi, hkept, fun _ => ?_⟩ }, trivial⟩
      show v.cbe.blocks (job.req.blockNumber + 0) = _
      rw [hkept.2, hreq]
      rfl
    · obtain ⟨-, -, hreq, -⟩ := h.holds
      rw [hreq] at hop
      exact RequestOperation.noConfusion hop

/-- A block of the client goes to the library. -/
theorem writeClientData (h : v.At snapId maxVba c s) (hs : s.Between) :
    ∃ v' progress s', v.writeClientData = some (v', progress) ∧ v'.At snapId maxVba c s'
      ∧ s'.Between := by
  unfold Vfs.writeClientData
  cases hready : v.cbe.clientDataRequired with
  | none => exact ⟨v, false, s, rfl, h, hs⟩
  | some q =>
    obtain ⟨job, i⟩ := q
    obtain ⟨hjob, hop, hi⟩ := BlockService.offeredTo_eq_some hready
    obtain rfl | rfl | rfl := FileStage.of_job (h.job.symm.trans hjob)
    · obtain ⟨hal, hreq, hsound, hfits, hmoved⟩ := h.holds
      have hdir : c.dir = .write := by
        rw [hreq] at hop
        cases hc : c.dir with
        | write => rfl
        | read =>
          rw [FileCall.request, hc] at hop
          exact RequestOperation.noConfusion hop
      unfold FileCall.Moved at hmoved
      simp only [hdir] at hmoved
      simp only [h.helperWrite, h.front, FileStage.helperWrite, FileStage.front, reduceCtorEq,
        if_false, if_true]
      refine ⟨_, _, .serving (job.moved i), rfl, { h with
        front := h.front
        helperWrite := h.helperWrite
        job := rfl
        holds := ⟨hal, hreq, hsound.moved hi, hfits, ?_⟩ }, trivial⟩
      unfold FileCall.Moved
      simp only [hdir]
      refine ⟨hmoved.1, ?_⟩
      show Function.update v.cbe.blocks (job.req.blockNumber + i)
        (fun k => v.mem (job.req.offset + i * blockSize + k)) = _
      rw [hmoved.1, hmoved.2, hreq]
      exact FileCall.update_writeBlocks i
    · obtain ⟨-, -, hreq, -⟩ := h.holds
      rw [hreq] at hop
      exact RequestOperation.noConfusion hop
    · obtain ⟨hun, hdir, hreq, hsound, hdata, hmem, hblocks⟩ := h.holds
      have hlt := hsound.offered i hi
      obtain rfl : i = 0 := by
        rw [hreq] at hlt
        exact Nat.lt_one_iff.mp hlt
      simp only [h.helperWrite, FileStage.helperWrite, if_true]
      refine ⟨_, _, .writing (job.moved 0), rfl, { h with
        helperWrite := h.helperWrite
        job := rfl
        holds := ⟨hun, hdir, hreq, hsound.moved hi, hdata, hmem, ?_⟩ }, trivial⟩
      show Function.update v.cbe.blocks (job.req.blockNumber + 0) v.helperWriteRequest.blockData = _
      rw [if_pos (show 0 ∈ (job.moved 0).served from List.mem_cons_self), hblocks, hdata, hreq]
      split_ifs
      · exact Function.update_idem _ _ _
      · rfl

/-! ## Rounds

The parts are put together in the order of the source. Nothing is thrown on the
way, and a round begins and ends between two of them. -/

/-- **A round of the loop**: nothing is thrown, and the call is at a stage of its
own afterwards. -/
theorem handleCbeFrontend (h : v.At snapId maxVba c s) (hs : s.Between) (hmv : ev.move ≠ .fail) :
    ∃ v' progress s', v.handleCbeFrontend ev = some (v', progress)
      ∧ v'.At snapId maxVba c s' ∧ s'.Between := by
  obtain ⟨v₁, s₁, heq₁, h₁, hs₁⟩ := h.submitHelperRead hs
  obtain ⟨v₂, s₂, heq₂, h₂, hs₂⟩ := h₁.submitHelperWrite hs₁
  unfold Vfs.handleCbeFrontend
  rw [heq₁, Option.bind_eq_bind, Option.bind_some, heq₂, Option.bind_eq_bind, Option.bind_some]
  by_cases hrej : v₂.Rejects
  · rw [if_pos hrej]
    exact ⟨_, _, .eof, rfl, h₂.setState_errorEof hrej, trivial⟩
  · obtain ⟨v₃, s₃, heq₃, h₃, hs₃⟩ := h₂.submitFrontend hs₂ hrej
    obtain ⟨s₄, h₄, hs₄⟩ := h₃.execute hs₃ hmv
    obtain ⟨s₅, h₅⟩ := h₄.completeRequests
    obtain ⟨s₆, h₆, hs₆⟩ := h₅.finishHelperRead
    obtain ⟨s₇, h₇, hs₇⟩ := h₆.finishHelperWrite hs₆
    obtain ⟨v₈, p, s₈, heq₈, h₈, hs₈⟩ := h₇.readClientData hs₇
    obtain ⟨v₉, q, s₉, heq₉, h₉, hs₉⟩ := h₈.writeClientData hs₈
    rw [if_neg hrej, heq₃, Option.bind_some]
    dsimp only
    rw [heq₈, Option.bind_some]
    dsimp only
    rw [heq₉, Option.bind_some]
    exact ⟨_, _, s₉, rfl, h₉, hs₉⟩

/-- **The loop**, by induction on its rounds. -/
theorem handleFrontendRequest {evs : List ServiceEvent} (h : v.At snapId maxVba c s)
    (hs : s.Between) (hmv : ∀ ev ∈ evs, ev.move ≠ .fail) {v' : Vfs}
    (heq : v.handleFrontendRequest evs = some v') :
    ∃ s', v'.At snapId maxVba c s' ∧ s'.Between := by
  induction evs generalizing v s with
  | nil => exact absurd heq (Option.some_ne_none v').symm
  | cons ev evs ih =>
    obtain ⟨w, progress, s', hround, h', hs'⟩ :=
      h.handleCbeFrontend hs (hmv ev List.mem_cons_self)
    unfold Vfs.handleFrontendRequest at heq
    rw [hround, Option.bind_eq_bind, Option.bind_some] at heq
    dsimp only at heq
    split_ifs at heq
    · exact ih h' hs' (fun ev hev => hmv ev (List.mem_cons_of_mem _ hev)) heq
    · obtain rfl := Option.some.inj heq
      exact ⟨s', h', hs'⟩

end Vfs.At

namespace Vfs.Idle

variable {v : Vfs} {snapId maxVba : ℕ} {ev : ServiceEvent}

/-- A round without a call. -/
theorem handleCbeFrontend (h : v.Idle snapId maxVba) :
    v.handleCbeFrontend ev = some ({ v with cbe := { v.cbe with full := ev.full } },
      ev.progress) := by
  obtain ⟨hr, hw, fr, cbe, mem⟩ := v
  obtain ⟨snap, vba, size, blocks, full, job⟩ := cbe
  obtain ⟨-, -, hfront, hread, hwrite, rfl⟩ := h
  have hread : hr.state = .none := hread
  have hwrite : hw.state = .none := hwrite
  have hfront : fr.state = .none := hfront
  simp [Vfs.handleCbeFrontend, submitHelperRead, submitHelperWrite, Rejects, submitFrontend,
    BlockService.execute, completeRequests, BlockService.peekCompletedClientRequest,
    finishHelperRead, finishHelperWrite, readClientData, writeClientData,
    BlockService.clientDataReady, BlockService.clientDataRequired, BlockService.offeredTo,
    hread, hwrite, hfront]

/-- The loop without a call. -/
theorem handleFrontendRequest {evs : List ServiceEvent} (h : v.Idle snapId maxVba) {v' : Vfs}
    (heq : v.handleFrontendRequest evs = some v') :
    v'.Idle snapId maxVba ∧ v'.cbe.file = v.cbe.file := by
  induction evs generalizing v with
  | nil => exact absurd heq (Option.some_ne_none v').symm
  | cons ev evs ih =>
    have h' : ({ v with cbe := { v.cbe with full := ev.full } } : Vfs).Idle snapId maxVba :=
      { h with snapshot := h.snapshot }
    unfold Vfs.handleFrontendRequest at heq
    rw [h.handleCbeFrontend, Option.bind_eq_bind, Option.bind_some] at heq
    dsimp only at heq
    split_ifs at heq
    · obtain ⟨hidle, hfile⟩ := ih h' heq
      exact ⟨hidle, hfile⟩
    · obtain rfl := Option.some.inj heq
      exact ⟨h', rfl⟩

/-- **A call is accepted.** -/
theorem submitFrontendRequest (h : v.Idle snapId maxVba) (c : FileCall)
    (hmem : c.mem = v.mem) (hblocks : c.blocks = v.cbe.blocks)
    (hproper : DataFileProper ((maxVba + 1) * blockSize) c.offset c.count) :
    ∃ v' s, v.submitFrontendRequest c.offset c.data c.count (directionOperation c.dir) snapId
        = some v' ∧ v'.At snapId maxVba c s ∧ s.Between := by
  have hop : directionOperation c.dir ≠ .sync := by
    cases c.dir <;> exact RequestOperation.noConfusion
  unfold Vfs.submitFrontendRequest
  rw [if_neg (not_not.mpr h.front), if_neg hop]
  dsimp only
  by_cases hun : c.Unaligned
  · have hun' : c.offset % blockSize ≠ 0 ∨ c.count < blockSize := hun
    have hcount : (if c.count % blockSize ≠ 0 ∧ ¬ (c.offset % blockSize ≠ 0 ∨ c.count < blockSize)
        then c.count - c.count % blockSize else c.count) = c.count :=
      if_neg fun hcond => hcond.2 hun'
    rw [if_pos hun', hcount]
    refine ⟨_, .readPending, rfl, {
      snapshot := h.snapshot
      device := h.device
      front := rfl
      helperRead := rfl
      helperWrite := h.helperWrite
      job := h.job
      count := ?_
      operation := rfl
      address := rfl
      snap := rfl
      helperOffset := fun _ => rfl
      proper := hproper
      holds := ⟨hun, rfl, hmem.symm, hblocks.symm⟩ }, trivial⟩
    unfold FileCall.out
    rw [if_pos hun]
  · have hun' : ¬ (c.offset % blockSize ≠ 0 ∨ c.count < blockSize) := hun
    have hcount : (if c.count % blockSize ≠ 0 ∧ ¬ (c.offset % blockSize ≠ 0 ∨ c.count < blockSize)
        then c.count - c.count % blockSize else c.count) = c.out := by
      unfold FileCall.out
      rw [if_neg hun]
      split_ifs with hmod
      · rfl
      · rw [show c.count % blockSize = 0 from not_not.mp fun hne => hmod ⟨hne, hun'⟩,
          Nat.sub_zero]
    rw [if_neg hun', hcount]
    refine ⟨_, .pending, rfl, {
      snapshot := h.snapshot
      device := h.device
      front := rfl
      helperRead := h.helperRead
      helperWrite := h.helperWrite
      job := h.job
      count := rfl
      operation := rfl
      address := rfl
      snap := rfl
      helperOffset := fun hunal => absurd hunal hun
      proper := hproper
      holds := ⟨hun, ?_, hmem.symm, hblocks.symm⟩ }, trivial⟩
    rw [FileCall.out_of_aligned hun]
    unfold FileCall.request
    rw [Nat.mul_div_cancel _ (show 0 < blockSize by decide)]
    rfl

end Vfs.Idle

/-- **A call is repeated or begun** at a stage of its own: what it returns, and what
it leaves. -/
theorem Vfs.At.answer {v : Vfs} {snapId maxVba : ℕ} {c : FileCall} {s : FileStage}
    (h : v.At snapId maxVba c s) (hs : s.Between) :
    (v.answer = (v, .queued) ∧ v.frontendRequest.state ≠ .none)
      ∨ ∃ out, v.answer = (v.ackFrontendRequest, .ok out)
        ∧ v.ackFrontendRequest.Idle snapId maxVba
        ∧ (c.access out v.mem).Meets ((maxVba + 1) * blockSize)
            (DataFileTakes ((maxVba + 1) * blockSize)) c.file
        ∧ v.cbe.file = (c.access out v.mem).apply c.file := by
  unfold Vfs.answer
  rw [h.front]
  cases s with
  | done =>
    obtain ⟨htakes, hmem, hfile⟩ := h.holds
    refine Or.inr ⟨c.out, ?_, ⟨h.snapshot, h.device, rfl, h.helperRead, h.helperWrite, h.job⟩,
      ?_, ?_⟩
    · rw [← h.count]
      rfl
    · rw [hmem]
      exact FileCall.access_meets htakes
    · rw [hmem, c.apply_access]
      exact hfile
  | eof =>
    obtain ⟨htakes, hmem, hblocks⟩ := h.holds
    refine Or.inr ⟨0, rfl, ⟨h.snapshot, h.device, rfl, h.helperRead, h.helperWrite, h.job⟩,
      FileCall.access_meets_zero htakes, ?_⟩
    rw [c.apply_access_zero]
    unfold BlockService.file FileCall.file
    rw [hblocks]
  | read => exact False.elim hs
  | wrote => exact False.elim hs
  | _ => exact Or.inl ⟨rfl, FrontendState.noConfusion⟩

/-! ## The handle in use

The invariant has two halves: the accesses that have returned were right, one
after the other, and the plugin is idle or at a stage of the call that the
client repeats. -/

/-- **The handle in use**: besides the plugin, the position of the handle and the
snapshot that it was opened for. The last two fields are a record: the call that the
client was told to repeat, and the accesses that have returned. -/
structure FileWorld where
  /-- The plugin. -/
  vfs : Vfs
  /-- The position of the handle. -/
  seek : ℕ
  /-- The snapshot that it was opened for. -/
  snapId : ℕ
  /-- The call that the client was told to repeat. -/
  call : Option FileCall
  /-- The accesses that have returned. -/
  log : List (Access Byte)

/-- What happens: the client moves the position of the handle, changes its memory,
reads or writes; or the backend reports progress (`_notify_backend_io_progress`),
which runs the loop as well. -/
inductive FileAction where
  | seek (offset : ℕ)
  | touch (mem : ℕ → Byte)
  | call (dir : Direction) (data count : ℕ) (evs : List ServiceEvent)
  | poll (evs : List ServiceEvent)

namespace FileWorld

/-- The handle when the plugin has no request. -/
def start (v : Vfs) (snapId seek : ℕ) : FileWorld where
  vfs := v
  seek := seek
  snapId := snapId
  call := none
  log := []

/-- The call that is repeated, or the one that is begun. -/
def begun (w : FileWorld) (dir : Direction) (data count : ℕ) : FileCall :=
  w.call.getD {
    dir := dir
    offset := w.seek
    data := data
    count := count
    mem := w.vfs.mem
    blocks := w.vfs.cbe.blocks }

/-- What the return of a call leaves; an error is an access that has transferred
nothing. -/
def returned (w : FileWorld) (c : FileCall) (v : Vfs) : Vfs.CallResult → FileWorld
  | .ok out => { w with vfs := v, call := none, log := w.log ++ [c.access out v.mem] }
  | .queued =>
    { w with vfs := v, call := if v.frontendRequest.state = .none then none else some c }
  | .errIo => { w with vfs := v, call := none, log := w.log ++ [c.access 0 v.mem] }

/-- **A step.** -/
def step (w : FileWorld) : FileAction → Option FileWorld
  | .seek offset => some { w with seek := offset }
  | .touch mem => some { w with vfs := { w.vfs with mem := mem } }
  | .call dir data count evs =>
    (w.vfs.callFile (directionOperation dir) w.seek data count w.snapId evs).map fun r =>
      w.returned (w.begun dir data count) r.1 r.2
  | .poll evs => (w.vfs.handleFrontendRequest evs).map fun v => { w with vfs := v }

/-- **The client keeps to the rules of the handle and the library serves it**: a call
that was queued is repeated as it was and its memory is left alone in between, and
the library fails no request. -/
def Served (w : FileWorld) : FileAction → Prop
  | .seek _ => True
  | .touch _ => w.call = none
  | .call dir data count evs =>
    (∀ c ∈ w.call, c.dir = dir ∧ c.data = data ∧ c.count = count) ∧ ∀ ev ∈ evs, ev.move ≠ .fail
  | .poll evs => ∀ ev ∈ evs, ev.move ≠ .fail

/-- The same, with no call whose handling is a slip. -/
def Proper (w : FileWorld) (a : FileAction) : Prop :=
  w.Served a ∧
    match a with
    | .call _ _ count _ => w.call = none → DataFileProper w.vfs.cbe.size w.seek count
    | _ => True

/-- **The invariant of the runs**, for the file as it was at the beginning. -/
structure Inv (maxVba : ℕ) (file : ℕ → Byte) (w : FileWorld) : Prop where
  /-- The accesses that have returned were right for the file. -/
  serves : Access.Serves ((maxVba + 1) * blockSize) (DataFileTakes ((maxVba + 1) * blockSize))
    w.log file
  /-- Between two calls the device holds the file that they have left. -/
  idle : w.call = none → w.vfs.Idle w.snapId maxVba
    ∧ w.vfs.cbe.file = Access.replay w.log file
  /-- In a call the plugin is at a stage of it. -/
  busy : ∀ c ∈ w.call, c.file = Access.replay w.log file
    ∧ ∃ s, w.vfs.At w.snapId maxVba c s ∧ s.Between

variable {maxVba : ℕ} {file : ℕ → Byte} {w t : FileWorld} {v : Vfs}

/-- The device has its size. -/
theorem size_eq_of_idle (h : v.Idle w.snapId maxVba) : v.cbe.size = (maxVba + 1) * blockSize := by
  unfold BlockService.size
  rw [h.device]

/-- A call that runs through the loop. -/
theorem Inv.returned {c : FileCall} {s : FileStage} (h : w.Inv maxVba file)
    (hfile : c.file = Access.replay w.log file) (hat : v.At w.snapId maxVba c s)
    (hs : s.Between) : (w.returned c v.answer.1 v.answer.2).Inv maxVba file := by
  obtain ⟨hans, hne⟩ | ⟨out, hans, hidle, hmeets, hafter⟩ := hat.answer hs
  · rw [hans]
    refine ⟨h.serves, fun hnone => ?_, fun d hd => ?_⟩
    · simp only [FileWorld.returned, if_neg hne, reduceCtorEq] at hnone
    · simp only [FileWorld.returned, if_neg hne, Option.mem_def, Option.some.injEq] at hd
      subst hd
      exact ⟨hfile, s, hat, hs⟩
  · rw [hans]
    rw [hfile] at hmeets hafter
    refine ⟨h.serves.concat hmeets, fun _ => ⟨hidle, ?_⟩,
      fun d hd => absurd hd (Option.not_mem_none d)⟩
    show v.cbe.file = Access.replay (w.log ++ [c.access out v.mem]) file
    rw [Access.replay_concat]
    exact hafter

/-- **What one step preserves.** -/
theorem Inv.step (h : w.Inv maxVba file) {a : FileAction} (hproper : w.Proper a)
    (hstep : w.step a = some t) : t.Inv maxVba file := by
  cases a with
  | seek offset =>
    obtain rfl := Option.some.inj hstep
    exact ⟨h.serves, h.idle, h.busy⟩
  | touch mem =>
    obtain rfl := Option.some.inj hstep
    have hnone : w.call = none := hproper.1
    obtain ⟨hidle, hfile⟩ := h.idle hnone
    refine ⟨h.serves, fun _ => ⟨{ hidle with snapshot := hidle.snapshot }, hfile⟩,
      fun c hc => ?_⟩
    have hc : c ∈ w.call := hc
    rw [hnone] at hc
    exact absurd hc (Option.not_mem_none c)
  | poll evs =>
    obtain ⟨v, hv, rfl⟩ := Option.map_eq_some_iff.mp hstep
    have hmv : ∀ ev ∈ evs, ev.move ≠ .fail := hproper.1
    refine ⟨h.serves, fun hnone => ?_, fun c hc => ?_⟩
    · obtain ⟨hidle, hfile⟩ := h.idle hnone
      obtain ⟨hidle', hfile'⟩ := hidle.handleFrontendRequest hv
      exact ⟨hidle', hfile'.trans hfile⟩
    · obtain ⟨hfile, s, hat, hs⟩ := h.busy c hc
      exact ⟨hfile, hat.handleFrontendRequest hs hmv hv⟩
  | call dir data count evs =>
    obtain ⟨⟨v, r⟩, hr, rfl⟩ := Option.map_eq_some_iff.mp hstep
    obtain ⟨⟨hsame, hmv⟩, hprop⟩ := hproper
    unfold Vfs.callFile at hr
    cases hcall : w.call with
    | some c =>
      obtain ⟨hfile, s, hat, hs⟩ := h.busy c hcall
      have hne : w.vfs.frontendRequest.state ≠ .none := by
        rw [hat.front]
        cases s <;> exact FrontendState.noConfusion
      rw [if_neg hne] at hr
      obtain ⟨u, hu, heq⟩ := Option.map_eq_some_iff.mp hr
      obtain ⟨s', hat', hs'⟩ := hat.handleFrontendRequest hs hmv hu
      have hbegun : w.begun dir data count = c := by
        unfold begun
        rw [hcall]
        rfl
      rw [hbegun, show v = u.answer.1 by rw [heq], show r = u.answer.2 by rw [heq]]
      exact h.returned hfile hat' hs'
    | none =>
      obtain ⟨hidle, hfile⟩ := h.idle hcall
      rw [if_pos hidle.front] at hr
      have hbegun : w.begun dir data count = {
          dir := dir
          offset := w.seek
          data := data
          count := count
          mem := w.vfs.mem
          blocks := w.vfs.cbe.blocks } := by
        unfold begun
        rw [hcall]
        rfl
      split_ifs at hr
      · have hprop' := hprop hcall
        rw [size_eq_of_idle hidle] at hprop'
        obtain ⟨u, s, hsubmit, hat, hs⟩ :=
          hidle.submitFrontendRequest (w.begun dir data count) (by rw [hbegun]) (by rw [hbegun])
            (by rw [hbegun]; exact hprop')
        rw [hbegun] at hsubmit
        dsimp only at hsubmit
        rw [hsubmit] at hr
        obtain ⟨u', hu, heq⟩ := Option.map_eq_some_iff.mp hr
        obtain ⟨s', hat', hs'⟩ := hat.handleFrontendRequest hs hmv hu
        rw [show v = u'.answer.1 by rw [heq], show r = u'.answer.2 by rw [heq]]
        refine h.returned ?_ hat' hs'
        rw [hbegun]
        exact hfile
      · obtain ⟨rfl, rfl⟩ := Prod.mk.inj (Option.some.inj hr)
        have hnone : (w.returned (w.begun dir data count) w.vfs .queued).call = none :=
          if_pos hidle.front
        refine ⟨h.serves, fun _ => ⟨hidle, hfile⟩, fun c hc => ?_⟩
        rw [hnone] at hc
        exact absurd hc (Option.not_mem_none c)

/-- The handle in the beginning. -/
theorem inv_start {snapId seek : ℕ} (hv : v.Idle snapId maxVba) :
    (start v snapId seek).Inv maxVba v.cbe.file :=
  ⟨trivial, fun _ => ⟨hv, rfl⟩, fun c hc => absurd hc (Option.not_mem_none c)⟩

/-- With a call or without, a round of the loop does not throw. -/
theorem Inv.handleCbeFrontend_isSome (h : w.Inv maxVba file) {ev : ServiceEvent}
    (hmv : ev.move ≠ .fail) : (w.vfs.handleCbeFrontend ev).isSome := by
  cases hcall : w.call with
  | none =>
    rw [(h.idle hcall).1.handleCbeFrontend]
    rfl
  | some c =>
    obtain ⟨-, s, hat, hs⟩ := h.busy c hcall
    obtain ⟨v', progress, s', hround, -⟩ := hat.handleCbeFrontend hs hmv
    rw [hround]
    rfl

/-- **The data file is a file of bytes**: over every run in which the library serves
the handle, each access that returned was right for the file as the accesses before
had left it, where the accesses are taken that begin inside the device and, if they
begin at a block, have all of their whole blocks there; between the calls the device
is what the accesses left; and nothing is thrown. -/
theorem servesFile_of_run {snapId seek : ℕ} (hv : v.Idle snapId v.cbe.maxVba)
    (h : Run step Proper (start v snapId seek) t) :
    Access.Serves v.cbe.size (DataFileTakes v.cbe.size) t.log v.cbe.file
      ∧ (t.call = none → t.vfs.cbe.file = Access.replay t.log v.cbe.file)
      ∧ ∀ ev : ServiceEvent, ev.move ≠ .fail → (t.vfs.handleCbeFrontend ev).isSome := by
  have hinv : t.Inv v.cbe.maxVba v.cbe.file :=
    h.invariant (fun _ _ _ hs hC hstep => hs.step hC hstep) (inv_start hv)
  exact ⟨hinv.serves, fun hnone => (hinv.idle hnone).2,
    fun _ hmv => hinv.handleCbeFrontend_isSome hmv⟩

/-! ### A device of two blocks

Both ways through the plugin, on a device small enough to compute the run. -/

/-- The plugin for a device of two blocks, each filled with its own number. -/
def sampleVfs : Vfs where
  helperReadRequest :=
    { state := .none, blockData := fun _ => 0, cbeRequest := Request.invalidObject }
  helperWriteRequest :=
    { state := .none, blockData := fun _ => 0, cbeRequest := Request.invalidObject }
  frontendRequest := {
    state := .none
    count := 0
    cbeRequest := Request.invalidObject
    snapId := 0
    offset := 0
    helperOffset := 0 }
  cbe := {
    snapId := 0
    maxVba := 1
    size_lt := by decide
    blocks := fun k _ => BitVec.ofNat 8 k
    full := false
    job := none }
  mem a := BitVec.ofNat 8 (a + 7)

/-- The plugin has no request. -/
theorem sampleVfs_idle : sampleVfs.Idle 0 1 := ⟨rfl, rfl, rfl, rfl, rfl, rfl⟩

/-- A round in which the library does one thing. -/
def sampleEvent (move : ServiceMove) : ServiceEvent where
  move := move
  full := false
  progress := false
  otherProgress := false

/-- Both blocks are read, and two bytes are written to the first one. -/
def sampleActions : FileAction × FileAction :=
  (.call .read 100 8192 [sampleEvent (.offer 1), sampleEvent (.offer 0), sampleEvent .complete,
      sampleEvent .idle],
    .call .write 0 2 [sampleEvent (.offer 0), sampleEvent .complete, sampleEvent (.offer 0),
      sampleEvent .complete, sampleEvent .idle])

theorem servesFile_of_run_sample :
    ∃ t : FileWorld,
      t.log.map (fun a => (a.dir, a.offset, a.out)) = [(.read, 0, 8192), (.write, 0, 2)]
      ∧ (Access.Serves sampleVfs.cbe.size (DataFileTakes sampleVfs.cbe.size) t.log
          sampleVfs.cbe.file
        ∧ (t.call = none → t.vfs.cbe.file = Access.replay t.log sampleVfs.cbe.file)
        ∧ ∀ ev : ServiceEvent, ev.move ≠ .fail → (t.vfs.handleCbeFrontend ev).isSome) := by
  obtain ⟨w, hw, hcall, hseek, hsize, hlog⟩ : ∃ w : FileWorld,
      (start sampleVfs 0 0).step sampleActions.1 = some w ∧ w.call = none ∧ w.seek = 0
        ∧ w.vfs.cbe.size = 8192
        ∧ (w.step sampleActions.2).map (fun t => t.log.map fun a => (a.dir, a.offset, a.out))
            = some [(.read, 0, 8192), (.write, 0, 2)] :=
    ⟨_, rfl, rfl, rfl, rfl, rfl⟩
  obtain ⟨t, ht, hout⟩ := Option.map_eq_some_iff.mp hlog
  have hfirst : (start sampleVfs 0 0).Proper sampleActions.1 :=
    ⟨⟨fun c hc => absurd hc (Option.not_mem_none c), by decide⟩, fun _ => by decide⟩
  have hsecond : w.Proper sampleActions.2 := by
    refine ⟨⟨fun c hc => ?_, by decide⟩, fun _ => ?_⟩
    · rw [hcall] at hc
      exact absurd hc (Option.not_mem_none c)
    · rw [hsize, hseek]
      decide
  exact ⟨t, hout, servesFile_of_run sampleVfs_idle
    (Run.tail sampleActions.2 (Run.single sampleActions.1 hfirst hw) hsecond ht)⟩

/-- **Not every access inside the device transfers something**: two blocks are read
from the last one on, and no byte is reported. -/
theorem not_serves_inside :
    ∃ t, Run step Proper (start sampleVfs 0 4096) t
      ∧ ¬ Access.Serves sampleVfs.cbe.size (fun offset _ => offset < sampleVfs.cbe.size) t.log
          sampleVfs.cbe.file := by
  refine ⟨_, Run.single (.call .read 0 8192 [sampleEvent .idle])
    ⟨⟨fun c hc => absurd hc (Option.not_mem_none c), by decide⟩, fun _ => by decide⟩ rfl, ?_⟩
  rintro ⟨hmeets, -⟩
  exact absurd (hmeets.takes (by decide) (by decide)) (Nat.lt_irrefl 0)

end FileWorld

/-! ## A request that fails

The plugin takes back what the library has completed and looks at the request,
but not at whether it succeeded. -/

/-- **A request that the library failed is reported with all of its bytes**, like one
that it served. -/
theorem Vfs.answer_completeRequests_failed {v : Vfs} {job : ServiceJob}
    (hjob : v.cbe.job = some job) (hfail : job.completed = some false) :
    v.completeRequests.1.answer.2 = .ok v.frontendRequest.count := by
  unfold completeRequests BlockService.peekCompletedClientRequest
  rw [hjob, Option.bind_some, hfail]
  rfl

end Cbe
