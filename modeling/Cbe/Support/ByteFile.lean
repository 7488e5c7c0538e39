import Mathlib.Logic.Function.Basic
import Mathlib.Tactic.Ring

/-!
# A file of bytes over blocks

What `memcpy` does to a memory (`patch`), the bytes of a device that consists of
blocks (`flat`), and what reads and writes make of a file of bytes: `Serves` says of
a list of accesses that each was right for the file as the accesses before had left
it. Which accesses are taken is a parameter, since a device may refuse some.
-/

namespace ByteFile

variable {α : Type*}

/-! ## Memory

A copy from one memory into another. -/

/-- **`memcpy`**: the first `n` cells of `src` go to the cells from `dst` on. -/
def patch (m : ℕ → α) (dst n : ℕ) (src : ℕ → α) : ℕ → α :=
  fun a => if dst ≤ a ∧ a < dst + n then src (a - dst) else m a

/-- What was copied. -/
theorem patch_add {m : ℕ → α} {dst n j : ℕ} {src : ℕ → α} (h : j < n) :
    patch m dst n src (dst + j) = src j := by
  unfold patch
  rw [if_pos ⟨Nat.le_add_right dst j, Nat.add_lt_add_left h dst⟩, Nat.add_sub_cancel_left]

@[simp] theorem patch_zero (m : ℕ → α) (dst : ℕ) (src : ℕ → α) : patch m dst 0 src = m :=
  funext fun _ => if_neg fun h => absurd h.2 (Nat.not_lt_of_le h.1)

/-- Only the cells that are copied matter. -/
theorem patch_congr {m : ℕ → α} {dst n : ℕ} {src src' : ℕ → α} (h : ∀ j < n, src j = src' j) :
    patch m dst n src = patch m dst n src' := by
  funext a
  unfold patch
  split_ifs with ha
  · exact h _ (by omega)
  · rfl

/-- A part of a stretch is changed, and the stretch is put back. -/
theorem patch_patch_self {m : ℕ → α} {dst b r n : ℕ} {src : ℕ → α} (h : r + n ≤ b) :
    patch m dst b (patch (fun j => m (dst + j)) r n src) = patch m (dst + r) n src := by
  funext a
  unfold patch
  by_cases hin : dst ≤ a ∧ a < dst + b
  · have ha : dst + (a - dst) = a := Nat.add_sub_cancel' hin.1
    rw [if_pos hin]
    by_cases hr : r ≤ a - dst ∧ a - dst < r + n
    · rw [if_pos hr, if_pos (by omega), Nat.sub_sub]
    · rw [if_neg hr, if_neg (by omega)]
      show m (dst + (a - dst)) = m a
      rw [ha]
  · rw [if_neg hin, if_neg (by omega)]

/-! ## Blocks

The bytes of all blocks in a row. -/

section

variable (b : ℕ) [NeZero b]

/-- The bytes of a block. -/
def bytes (blk : Fin b → α) : ℕ → α := fun j => blk (Fin.ofNat b j)

/-- **The bytes of a device of blocks.** -/
def flat (blocks : ℕ → Fin b → α) : ℕ → α := fun p => bytes b (blocks (p / b)) p

variable {b}

theorem bytes_mk (f : ℕ → α) {j : ℕ} (h : j < b) : bytes b (fun i => f i) j = f j := by
  show f (j % b) = f j
  rw [Nat.mod_eq_of_lt h]

/-- A byte of a block is at the offset of the block. -/
theorem flat_mul_add (blocks : ℕ → Fin b → α) (k j : ℕ) (h : j < b) :
    flat b blocks (k * b + j) = bytes b (blocks k) j := by
  unfold flat bytes
  rw [show (k * b + j) / b = k by
      rw [Nat.add_comm, Nat.add_mul_div_right j k (NeZero.pos b), Nat.div_eq_of_lt h, Nat.zero_add],
    show Fin.ofNat b (k * b + j) = Fin.ofNat b j from
      Fin.ext (by simp [Fin.ofNat, Nat.add_mod, Nat.mul_mod_left])]

/-- A block that is written is a stretch of bytes that is copied. -/
theorem flat_update (blocks : ℕ → Fin b → α) (k : ℕ) (blk : Fin b → α) :
    flat b (Function.update blocks k blk) = patch (flat b blocks) (k * b) b (bytes b blk) := by
  funext p
  have hpos : 0 < b := NeZero.pos b
  have hmod : p / b * b + p % b = p := Nat.div_add_mod' p b
  have hlt : p % b < b := Nat.mod_lt p hpos
  unfold patch
  by_cases hk : p / b = k
  · subst hk
    rw [if_pos (by omega)]
    show bytes b (Function.update blocks (p / b) blk (p / b)) p = _
    rw [Function.update_self]
    show blk (Fin.ofNat b p) = blk (Fin.ofNat b (p - p / b * b))
    congr 1
    refine Fin.ext ?_
    show p % b = (p - p / b * b) % b
    rw [show p - p / b * b = p % b by omega, Nat.mod_mod]
  · have hout : ¬ (k * b ≤ p ∧ p < k * b + b) := by
      rintro ⟨hle, hlt⟩
      refine hk (Nat.div_eq_of_lt_le hle ?_)
      rwa [Nat.succ_mul]
    rw [if_neg hout]
    show bytes b (Function.update blocks k blk (p / b)) p = _
    rw [Function.update_of_ne hk]
    rfl

/-- **Read, change and write back**: a part of a block is changed, and no other
byte of the device. -/
theorem flat_update_patch (blocks : ℕ → Fin b → α) (k : ℕ) {r n : ℕ} {src : ℕ → α}
    (h : r + n ≤ b) :
    flat b (Function.update blocks k fun i => patch (bytes b (blocks k)) r n src i)
      = patch (flat b blocks) (k * b + r) n src := by
  rw [flat_update, ← patch_patch_self h]
  refine patch_congr fun j hj => ?_
  rw [bytes_mk _ hj]
  unfold patch
  split_ifs
  · rfl
  · exact (flat_mul_add blocks k j hj).symm

end

/-! ## Accesses

What a list of reads and writes leaves of a file. -/

inductive Direction where
  | read
  | write
  deriving DecidableEq

/-- **An access**: where it was asked for and for how many bytes, how many it was
reported to have transferred, and the bytes that were read or that were to be
written. -/
structure Access (α : Type*) where
  /-- A read or a write. -/
  dir : Direction
  /-- Where it begins. -/
  offset : ℕ
  /-- How many bytes were asked for. -/
  count : ℕ
  /-- How many were transferred. -/
  out : ℕ
  /-- The bytes. -/
  data : ℕ → α

namespace Access

variable {size : ℕ} {Takes : ℕ → ℕ → Prop} {file : ℕ → α} {l : List (Access α)} {a : Access α}

/-- What an access leaves of a file. -/
def apply (a : Access α) (file : ℕ → α) : ℕ → α :=
  match a.dir with
  | .read => file
  | .write => patch file a.offset a.out a.data

/-- **An access is right** for a file of a size: what it reports it has transferred
lies in the file and in what was asked for, a read returns the bytes of the file, and
something is transferred exactly if the access is one that is taken. -/
structure Meets (size : ℕ) (Takes : ℕ → ℕ → Prop) (a : Access α) (file : ℕ → α) : Prop where
  /-- No more bytes than asked for. -/
  out_le : a.out ≤ a.count
  /-- None that is not in the file. -/
  inside : 0 < a.out → a.offset + a.out ≤ size
  /-- What is read is what the file has. -/
  data : a.dir = .read → ∀ j < a.out, a.data j = file (a.offset + j)
  /-- An access that is taken transfers something. -/
  takes : 0 < a.count → Takes a.offset a.count → 0 < a.out
  /-- One that is not transfers nothing. -/
  refuses : ¬ Takes a.offset a.count → a.out = 0

/-- What a list of accesses leaves of a file. -/
def replay (l : List (Access α)) (file : ℕ → α) : ℕ → α := l.foldl (fun f a => a.apply f) file

/-- **Each access of a list is right** for the file as the accesses before left it. -/
def Serves (size : ℕ) (Takes : ℕ → ℕ → Prop) : List (Access α) → (ℕ → α) → Prop
  | [], _ => True
  | a :: l, file => a.Meets size Takes file ∧ Serves size Takes l (a.apply file)

@[simp] theorem replay_nil (file : ℕ → α) : replay [] file = file := rfl

/-- One access more. -/
@[simp] theorem replay_concat (l : List (Access α)) (a : Access α) (file : ℕ → α) :
    replay (l ++ [a]) file = a.apply (replay l file) := by
  unfold replay
  rw [List.foldl_append]
  rfl

/-- One more access. -/
theorem Serves.concat (h : Serves size Takes l file) (ha : a.Meets size Takes (replay l file)) :
    Serves size Takes (l ++ [a]) file := by
  induction l generalizing file with
  | nil => exact ⟨ha, trivial⟩
  | cons c l ih => exact ⟨h.1, ih h.2 ha⟩

end Access

end ByteFile
