import Mathlib.Data.List.FinRange
import Mathlib.Logic.Function.Basic
import Mathlib.Tactic.Ring

/-!
# Walks over a buffer of bytes

A record is put into a buffer of a fixed size field by field, at an offset that
moves on. `Writes` says what such a walk does between two offsets: it succeeds,
leaves the bytes outside alone, and every buffer that has the same bytes in
between has a property, typically that a field can be read back from it. Two
walks that follow each other are one walk (`Writes.bind`), and so is a loop
over an array of records of one width (`Writes.foldlM`).

A buffer under construction remembers the ranges that were written, in their
order.
-/

namespace ByteWalk

/-- `Byte_Type`. -/
abbrev Byte := BitVec 8

/-! ## Little-endian numbers

The bytes of a number, the least one first. -/

/-- The bytes of a number, the lowest one first. -/
def leBytes : ℕ → ℕ → List Byte
  | 0, _ => []
  | width + 1, n => BitVec.ofNat 8 n :: leBytes width (n / 2 ^ 8)

/-- The number of some bytes. -/
def ofLeBytes : List Byte → ℕ
  | [] => 0
  | b :: bs => b.toNat + 2 ^ 8 * ofLeBytes bs

/-- A number of a width has as many bytes. -/
@[simp] theorem leBytes_length (width n : ℕ) : (leBytes width n).length = width := by
  induction width generalizing n with
  | zero => rfl
  | succ width ih => rw [leBytes, List.length_cons, ih]

/-- **A number that fits is read back.** -/
theorem ofLeBytes_leBytes {width n : ℕ} (h : n < (2 ^ 8) ^ width) :
    ofLeBytes (leBytes width n) = n := by
  induction width generalizing n with
  | zero =>
    rw [pow_zero, Nat.lt_one_iff] at h
    rw [h]
    rfl
  | succ width ih =>
    have hdiv : n / 2 ^ 8 < (2 ^ 8) ^ width := by
      rw [Nat.div_lt_iff_lt_mul (by norm_num), ← pow_succ]
      exact h
    rw [leBytes, ofLeBytes, ih hdiv, BitVec.toNat_ofNat, Nat.mod_add_div]

/-! ## Buffers

A write beyond the end of a buffer has no result, and so has a read. -/

variable {size : ℕ} {α : Type*}

/-- **A buffer under construction**, with the ranges written so far: offset and
width. -/
structure Buffer (size : ℕ) where
  /-- The bytes. -/
  data : Fin size → Byte
  /-- The ranges written so far. -/
  ranges : List (ℕ × ℕ)

namespace Buffer

/-- A buffer of zeros. -/
def zeros (size : ℕ) : Buffer size := { data := fun _ => 0, ranges := [] }

/-- Put bytes at an offset. Beyond the end of the buffer there is nothing to
write to. -/
def write (buf : Buffer size) (off : ℕ) (bytes : List Byte) : Option (Buffer size) :=
  if off + bytes.length ≤ size then
    some {
      data := fun i => if off ≤ i ∧ i < off + bytes.length then bytes.getD (i - off) 0
        else buf.data i
      ranges := buf.ranges ++ [(off, bytes.length)] }
  else none

end Buffer

/-- The bytes at an offset. -/
def readBytes (data : Fin size → Byte) (off width : ℕ) : Option (List Byte) :=
  if h : off + width ≤ size then
    some (List.ofFn fun i : Fin width =>
      data ⟨off + i, Nat.lt_of_lt_of_le (Nat.add_lt_add_left i.isLt off) h⟩)
  else none

/-- The number of a width at an offset. -/
def readUnsigned (width : ℕ) (data : Fin size → Byte) (off : ℕ) : Option ℕ :=
  (readBytes data off width).map ofLeBytes

/-- The byte at an offset. -/
def readByte (data : Fin size → Byte) (off : ℕ) : Option Byte :=
  if h : off < size then some (data ⟨off, h⟩) else none

/-- The first of some bytes. -/
theorem readByte_of_readBytes {data : Fin size → Byte} {off : ℕ} {b : Byte} {bs : List Byte}
    (h : readBytes data off (bs.length + 1) = some (b :: bs)) : readByte data off = some b := by
  unfold readBytes at h
  split_ifs at h with hle
  rw [List.ofFn_succ] at h
  rw [readByte, dif_pos (by omega)]
  exact congrArg some (List.cons.inj (Option.some.inj h)).1

/-- As many bytes are read as asked for. -/
theorem readBytes_length {data : Fin size → Byte} {off width : ℕ} {bytes : List Byte}
    (h : readBytes data off width = some bytes) : bytes.length = width := by
  unfold readBytes at h
  split_ifs at h
  rw [← Option.some.inj h, List.length_ofFn]

/-- The lowest byte of a number. -/
theorem readByte_of_readUnsigned {data : Fin size → Byte} {off width n : ℕ}
    (h : readUnsigned (width + 1) data off = some n) :
    readByte data off = some (BitVec.ofNat 8 n) := by
  obtain ⟨bytes, hbytes, rfl⟩ := Option.map_eq_some_iff.mp h
  have hlen : bytes.length = width + 1 := readBytes_length hbytes
  cases bytes with
  | nil => exact absurd hlen (by simp)
  | cons b bs =>
    have hwidth : bs.length = width := Nat.succ.inj hlen
    rw [← hwidth] at hbytes
    rw [readByte_of_readBytes hbytes, ofLeBytes]
    refine congrArg some (BitVec.eq_of_toNat_eq ?_)
    rw [BitVec.toNat_ofNat, Nat.add_mul_mod_self_left, Nat.mod_eq_of_lt b.isLt]

/-- A conversion to an unsigned type of a width in bytes, and the number put
at an offset. It raises for a number that does not fit. -/
def Buffer.writeUnsigned (width : ℕ) (buf : Buffer size) (off n : ℕ) : Option (Buffer size) :=
  if n < (2 ^ 8) ^ width then buf.write off (leBytes width n) else none

/-! ## Ranges

Written one behind the other, the ranges do not overlap. -/

/-- The ranges follow each other between two offsets. -/
def Ascending : ℕ → ℕ → List (ℕ × ℕ) → Prop
  | lo, hi, [] => lo ≤ hi
  | lo, hi, (off, width) :: ranges => lo ≤ off ∧ Ascending (off + width) hi ranges

theorem Ascending.le {lo hi : ℕ} {ranges : List (ℕ × ℕ)} (h : Ascending lo hi ranges) :
    lo ≤ hi := by
  induction ranges generalizing lo with
  | nil => exact h
  | cons r ranges ih => exact le_trans h.1 (le_trans (Nat.le_add_right _ _) (ih h.2))

/-- Ranges that follow other ones. -/
theorem Ascending.append {lo mid hi : ℕ} {ranges ranges' : List (ℕ × ℕ)}
    (h : Ascending lo mid ranges) (h' : Ascending mid hi ranges') :
    Ascending lo hi (ranges ++ ranges') := by
  induction ranges generalizing lo with
  | nil =>
    cases ranges' with
    | nil => exact le_trans h h'
    | cons r ranges' => exact ⟨le_trans h h'.1, h'.2⟩
  | cons r ranges ih => exact ⟨h.1, ih h.2⟩

/-- Such ranges lie between the two offsets. -/
theorem Ascending.mem {lo hi : ℕ} {ranges : List (ℕ × ℕ)} (h : Ascending lo hi ranges)
    {r : ℕ × ℕ} (hr : r ∈ ranges) : lo ≤ r.1 ∧ r.1 + r.2 ≤ hi := by
  induction ranges generalizing lo with
  | nil => exact absurd hr List.not_mem_nil
  | cons s ranges ih =>
    cases List.mem_cons.mp hr with
    | inl heq =>
      subst heq
      exact ⟨h.1, h.2.le⟩
    | inr hmem =>
      have hrec := ih h.2 hmem
      exact ⟨le_trans h.1 (le_trans (Nat.le_add_right _ _) hrec.1), hrec.2⟩

/-- **No two of them overlap.** -/
theorem Ascending.pairwise {lo hi : ℕ} {ranges : List (ℕ × ℕ)} (h : Ascending lo hi ranges) :
    ranges.Pairwise fun r s => r.1 + r.2 ≤ s.1 := by
  induction ranges generalizing lo with
  | nil => exact List.Pairwise.nil
  | cons r ranges ih => exact List.Pairwise.cons (fun s hs => (h.2.mem hs).1) (ih h.2)

/-! ## Walks

What two walks leave in between is what each of them leaves, since none of them
writes where the other one does. -/

/-- **A walk from one offset to another**, and what it leaves in between. It
succeeds when the second offset is not beyond the end of the buffer. -/
structure Writes (lo hi : ℕ) (f : Buffer size → Option (Buffer size))
    (Q : (Fin size → Byte) → Prop) : Prop where
  /-- The walk goes upward. -/
  le : lo ≤ hi
  /-- It succeeds within the buffer. -/
  isSome : hi ≤ size → ∀ buf, (f buf).isSome = true
  /-- The bytes outside stay. -/
  frame : ∀ buf buf', f buf = some buf' →
    ∀ i : Fin size, i < lo ∨ hi ≤ i → buf'.data i = buf.data i
  /-- What it leaves is determined by the bytes inside. -/
  content : ∀ buf buf', f buf = some buf' →
    ∀ data : Fin size → Byte, (∀ i : Fin size, lo ≤ i → i < hi → data i = buf'.data i) → Q data
  /-- The new ranges lie inside, in order. -/
  ranges : ∀ buf buf', f buf = some buf' →
    ∃ new, buf'.ranges = buf.ranges ++ new ∧ Ascending lo hi new

variable {lo mid hi : ℕ} {f g : Buffer size → Option (Buffer size)}
  {Q R : (Fin size → Byte) → Prop}

/-- A walk may stop short of where the next one begins. -/
theorem Writes.mono (h : Writes lo mid f Q) (hle : mid ≤ hi) : Writes lo hi f Q where
  le := le_trans h.le hle
  isSome hhi := h.isSome (le_trans hle hhi)
  frame buf buf' hf i hi' := h.frame buf buf' hf i (hi'.imp id (le_trans hle))
  content buf buf' hf data hdata :=
    h.content buf buf' hf data fun i hlo hmid => hdata i hlo (lt_of_lt_of_le hmid hle)
  ranges buf buf' hf := by
    obtain ⟨new, hnew, hasc⟩ := h.ranges buf buf' hf
    refine ⟨new, hnew, ?_⟩
    rw [← List.append_nil new]
    exact hasc.append hle

/-- **A walk that another one follows.** -/
theorem Writes.bind (hf : Writes lo mid f Q) (hg : Writes mid hi g R) :
    Writes lo hi (fun buf => (f buf).bind g) fun data => Q data ∧ R data where
  le := le_trans hf.le hg.le
  isSome hhi buf := by
    obtain ⟨buf₁, h₁⟩ := Option.isSome_iff_exists.mp (hf.isSome (le_trans hg.le hhi) buf)
    rw [h₁]
    exact hg.isSome hhi buf₁
  frame buf buf' h i hi' := by
    obtain ⟨buf₁, h₁, h₂⟩ := Option.bind_eq_some_iff.mp h
    rw [hg.frame _ _ h₂ i (hi'.imp (fun hlt => lt_of_lt_of_le hlt hf.le) id),
      hf.frame _ _ h₁ i (hi'.imp id (le_trans hg.le))]
  content buf buf' h data hdata := by
    obtain ⟨buf₁, h₁, h₂⟩ := Option.bind_eq_some_iff.mp h
    refine ⟨hf.content _ _ h₁ data fun i hlo hmid => ?_,
      hg.content _ _ h₂ data fun i hmid hhi => hdata i (le_trans hf.le hmid) hhi⟩
    rw [hdata i hlo (lt_of_lt_of_le hmid hg.le), hg.frame _ _ h₂ i (.inl hmid)]
  ranges buf buf' h := by
    obtain ⟨buf₁, h₁, h₂⟩ := Option.bind_eq_some_iff.mp h
    obtain ⟨new₁, hnew₁, hasc₁⟩ := hf.ranges _ _ h₁
    obtain ⟨new₂, hnew₂, hasc₂⟩ := hg.ranges _ _ h₂
    refine ⟨new₁ ++ new₂, ?_, hasc₁.append hasc₂⟩
    rw [hnew₂, hnew₁, List.append_assoc]

/-- A weaker property of what a walk leaves. -/
theorem Writes.imp (h : Writes lo hi f Q) (himp : ∀ data, Q data → R data) :
    Writes lo hi f R where
  le := h.le
  isSome := h.isSome
  frame := h.frame
  content buf buf' hf data hdata := himp data (h.content buf buf' hf data hdata)
  ranges := h.ranges

/-- What a write that succeeds leaves. -/
theorem Buffer.write_eq_some {buf buf' : Buffer size} {off : ℕ} {bytes : List Byte}
    (h : buf.write off bytes = some buf') :
    off + bytes.length ≤ size
      ∧ (∀ i : Fin size, buf'.data i = if off ≤ i ∧ i < off + bytes.length
          then bytes.getD (i - off) 0 else buf.data i)
      ∧ buf'.ranges = buf.ranges ++ [(off, bytes.length)] := by
  unfold Buffer.write at h
  split_ifs at h with hle
  rw [← Option.some.inj h]
  exact ⟨hle, fun _ => rfl, rfl⟩

/-- The range that a number takes. -/
theorem Buffer.writeUnsigned_ranges {buf buf' : Buffer size} {width off n : ℕ}
    (h : buf.writeUnsigned width off n = some buf') :
    buf'.ranges = buf.ranges ++ [(off, width)] := by
  have hwrite := (Option.ite_none_right_eq_some.mp h).2
  rw [(Buffer.write_eq_some hwrite).2.2, leBytes_length]

/-- **Some bytes are read back.** -/
theorem writes_bytes (off : ℕ) (bytes : List Byte) :
    Writes off (off + bytes.length) (fun buf : Buffer size => buf.write off bytes)
      fun data => readBytes data off bytes.length = some bytes where
  le := Nat.le_add_right _ _
  isSome hle buf := by
    rw [Buffer.write, if_pos hle]
    rfl
  frame buf buf' hf i hi' := by
    rw [(Buffer.write_eq_some hf).2.1]
    exact if_neg fun hin => hi'.elim (Nat.not_lt.mpr hin.1) (Nat.not_le.mpr hin.2)
  content buf buf' hf data hdata := by
    obtain ⟨hle, hwritten, -⟩ := Buffer.write_eq_some hf
    rw [readBytes, dif_pos hle]
    refine congrArg some (List.ext_getElem (by simp) fun i hi₁ hi₂ => ?_)
    rw [List.getElem_ofFn, hdata _ (Nat.le_add_right _ _) (Nat.add_lt_add_left hi₂ off),
      hwritten, if_pos ⟨Nat.le_add_right _ _, Nat.add_lt_add_left hi₂ off⟩]
    show bytes.getD (off + i - off) 0 = bytes[i]
    rw [Nat.add_sub_cancel_left]
    exact (List.getElem_eq_getD 0).symm
  ranges buf buf' hf :=
    ⟨_, (Buffer.write_eq_some hf).2.2, le_refl off, le_refl _⟩

/-- **A number that fits is read back.** -/
theorem writes_unsigned (off width : ℕ) {n : ℕ} (hn : n < (2 ^ 8) ^ width) :
    Writes off (off + width) (fun buf : Buffer size => buf.writeUnsigned width off n)
      fun data => readUnsigned width data off = some n := by
  have hbytes := @writes_bytes size off (leBytes width n)
  rw [leBytes_length] at hbytes
  have hwrite : (fun buf : Buffer size => buf.writeUnsigned width off n)
      = fun buf => buf.write off (leBytes width n) :=
    funext fun buf => if_pos hn
  rw [hwrite]
  refine hbytes.imp fun data hdata => ?_
  rw [readUnsigned, hdata]
  exact congrArg some (ofLeBytes_leBytes hn)

/-- **A loop over an array of records of one width.** -/
theorem Writes.foldlM (off : ℕ) {width n : ℕ} {f : Fin n → Buffer size → Option (Buffer size)}
    {Q : Fin n → (Fin size → Byte) → Prop}
    (h : ∀ i : Fin n, Writes (off + i * width) (off + i * width + width) (f i) (Q i)) :
    Writes off (off + n * width)
      (fun buf => (List.finRange n).foldlM (fun buf i => f i buf) buf)
      fun data => ∀ i, Q i data := by
  induction n with
  | zero =>
    rw [Nat.zero_mul, Nat.add_zero]
    refine ⟨le_refl off, fun _ buf => rfl, fun buf buf' hf i _ => ?_,
      fun _ _ _ _ _ i => i.elim0, fun buf buf' hf => ⟨[], ?_, le_refl off⟩⟩
    · rw [← Option.some.inj hf]
    · rw [← Option.some.inj hf, List.append_nil]
  | succ n ih =>
    have hinit := ih fun i => h i.castSucc
    have hlast := h (Fin.last n)
    have hstep : Writes off _ _ fun data => ∀ i, Q i data :=
      (hinit.bind hlast).imp fun data hdata i => Fin.lastCases hdata.2 hdata.1 i
    have hfold : (fun buf => (List.finRange (n + 1)).foldlM (fun buf i => f i buf) buf)
        = fun buf : Buffer size =>
          ((List.finRange n).foldlM (fun buf i => f i.castSucc buf) buf).bind
            (f (Fin.last n)) := by
      funext buf
      rw [List.finRange_succ_last, List.foldlM_append, List.foldlM_map]
      exact congrArg _ (funext fun buf => bind_pure (f (Fin.last n) buf))
    rw [hfold, Nat.succ_mul, ← Nat.add_assoc]
    exact hstep

/-- The ranges that a loop leaves behind: those of its steps, one after the
other. -/
theorem ranges_foldlM {β : Type*} {step : Buffer size → β → Option (Buffer size)}
    {ranges : β → List (ℕ × ℕ)}
    (h : ∀ buf b buf', step buf b = some buf' → buf'.ranges = buf.ranges ++ ranges b)
    (l : List β) {buf buf' : Buffer size} (hfold : l.foldlM step buf = some buf') :
    buf'.ranges = buf.ranges ++ l.flatMap ranges := by
  induction l generalizing buf with
  | nil =>
    rw [← Option.some.inj hfold, List.flatMap_nil, List.append_nil]
  | cons b l ih =>
    rw [List.foldlM_cons] at hfold
    obtain ⟨buf₁, hstep, hrest⟩ := Option.bind_eq_some_iff.mp hfold
    rw [ih hrest, h _ _ _ hstep, List.flatMap_cons, List.append_assoc]

/-- A loop that reads all entries of an array. -/
theorem foldlM_update {n : ℕ} {g : Fin n → Option α} {s : Fin n → α} (t : Fin n → α)
    (h : ∀ i, g i = some (s i)) :
    (List.finRange n).foldlM (fun t i => (g i).map (Function.update t i)) t = some s := by
  have hlist : ∀ (l : List (Fin n)) (t : Fin n → α),
      l.foldlM (fun t i => (g i).map (Function.update t i)) t
        = some fun i => if i ∈ l then s i else t i := by
    intro l
    induction l with
    | nil => exact fun t => congrArg some (funext fun i => (if_neg List.not_mem_nil).symm)
    | cons j l ih =>
      intro t
      rw [List.foldlM_cons, h j]
      show List.foldlM _ (Function.update t j (s j)) l = _
      rw [ih]
      refine congrArg some (funext fun i => ?_)
      by_cases hij : i = j
      · subst hij
        rw [Function.update_self, ite_self, if_pos List.mem_cons_self]
      · rw [Function.update_of_ne hij]
        exact if_congr (by rw [List.mem_cons, or_iff_right hij]) rfl rfl
  rw [hlist]
  exact congrArg some (funext fun i => if_pos (List.mem_finRange i))

end ByteWalk
