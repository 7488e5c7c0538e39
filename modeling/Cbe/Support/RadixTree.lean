import Mathlib.Algebra.Order.Ring.Nat
import Mathlib.Order.Interval.Set.Basic

/-!
# Radix trees in a store

A tree of degree `d` lives in a store: a node is a block at an address, a
block is a table of child entries, and an entry carries the address of the
child. A key `v` selects at each level the child given by its digit in base
`d`, so a node at level `l` is the one that all keys with the same `v / d ^ l`
share.

`entryAt child addr d root top v l` is the entry met at level `l` on the way
of `v`, starting from the entry `root` of the root node at level `top`. Two
facts carry everything: the entry depends on the key only through `v / d ^ l`
(`entryAt_congr`), and copy-on-write along one path changes exactly the
entries on that path (`entryAt_of_path`).

The store is a function `child` from addresses and digits to entries, so the
module speaks about any block format.
-/

namespace RadixTree

variable {α ε : Type}

/-- The entry met after `k` steps down from the root. -/
def descend (child : α → ℕ → ε) (addr : ε → α) (d : ℕ) (root : ε) (top v : ℕ) :
    ℕ → ε
  | 0 => root
  | k + 1 => child (addr (descend child addr d root top v k)) (v / d ^ (top - (k + 1)) % d)

/-- **The entry met at a level** on the way of a key. -/
def entryAt (child : α → ℕ → ε) (addr : ε → α) (d : ℕ) (root : ε) (top v l : ℕ) : ε :=
  descend child addr d root top v (top - l)

variable {child child' : α → ℕ → ε} {addr : ε → α} {d : ℕ} {root root' : ε}
  {top v w l : ℕ}

/-- The root's entry is met at the top. -/
@[simp] theorem entryAt_top : entryAt child addr d root top v top = root := by
  unfold entryAt
  rw [Nat.sub_self]
  rfl

/-- Below the top, the entry is found in the block of the entry above. -/
theorem entryAt_of_lt (h : l < top) :
    entryAt child addr d root top v l
      = child (addr (entryAt child addr d root top v (l + 1))) (v / d ^ l % d) := by
  have hk : top - l = (top - (l + 1)) + 1 := by omega
  have hl : top - ((top - (l + 1)) + 1) = l := by omega
  unfold entryAt
  rw [hk, descend, hl]

/-- Keys that agree above a level agree at it one level further up. -/
theorem div_pow_succ_congr (h : v / d ^ l = w / d ^ l) :
    v / d ^ (l + 1) = w / d ^ (l + 1) := by
  rw [pow_succ, ← Nat.div_div_eq_div_mul, ← Nat.div_div_eq_div_mul, h]

/-- Keys that agree at a level agree at every level above it. -/
theorem div_pow_congr {l' : ℕ} (hl : l ≤ l') (h : v / d ^ l = w / d ^ l) :
    v / d ^ l' = w / d ^ l' := by
  induction l', hl using Nat.le_induction with
  | base => exact h
  | succ n _ ih => exact div_pow_succ_congr ih

/-- A key and its digit at a level determine it one level further down. -/
theorem div_pow_eq_of_digit (hup : v / d ^ (l + 1) = w / d ^ (l + 1))
    (hdigit : v / d ^ l % d = w / d ^ l % d) : v / d ^ l = w / d ^ l := by
  rw [pow_succ, ← Nat.div_div_eq_div_mul, ← Nat.div_div_eq_div_mul] at hup
  rw [← Nat.div_add_mod (v / d ^ l) d, ← Nat.div_add_mod (w / d ^ l) d, hup, hdigit]

/-- **The digits from a level on determine a key there**, among the keys that a
tree has room for. -/
theorem div_pow_eq_iff (hv : v < d ^ top) (hw : w < d ^ top) (hl : l ≤ top) :
    v / d ^ l = w / d ^ l ↔ ∀ j, l ≤ j → j < top → v / d ^ j % d = w / d ^ j % d := by
  constructor
  · intro h j hj _
    rw [div_pow_congr hj h]
  · intro h
    induction hl using Nat.decreasingInduction with
    | self => rw [Nat.div_eq_of_lt hv, Nat.div_eq_of_lt hw]
    | of_succ k hk ih =>
      exact div_pow_eq_of_digit (ih fun j hj => h j (Nat.le_of_succ_le hj)) (h k (le_refl k) hk)

/-- **An entry depends on the key only through the node it is in.** -/
theorem entryAt_congr (hl : l ≤ top) (h : v / d ^ l = w / d ^ l) :
    entryAt child addr d root top v l = entryAt child addr d root top w l := by
  induction hl using Nat.decreasingInduction with
  | self => rw [entryAt_top, entryAt_top]
  | of_succ l hlt ih =>
    rw [entryAt_of_lt hlt, entryAt_of_lt hlt, ih (div_pow_succ_congr h), h]

/-- A key that a tree has no room for has the digits of its remainder. -/
theorem digit_mod (hl : l < top) : v % d ^ top / d ^ l % d = v / d ^ l % d := by
  have hsplit : d ^ top = d ^ l * d ^ (top - l) := by
    rw [← pow_add, Nat.add_sub_cancel' hl.le]
  rw [hsplit, Nat.mod_mul_right_div_self]
  exact Nat.mod_mod_of_dvd _ (dvd_pow_self d (by omega))

/-- Keys with the same digits down to a level have the same entry there. -/
theorem entryAt_digit_congr (hl : l ≤ top)
    (h : ∀ j, l ≤ j → j < top → v / d ^ j % d = w / d ^ j % d) :
    entryAt child addr d root top v l = entryAt child addr d root top w l := by
  induction hl using Nat.decreasingInduction with
  | self => rw [entryAt_top, entryAt_top]
  | of_succ l hlt ih =>
    rw [entryAt_of_lt hlt, entryAt_of_lt hlt, ih fun j hj => h j (Nat.le_of_succ_le hj),
      h l (le_refl l) hlt]

/-- Only the address of the root's entry matters below it. -/
theorem entryAt_root_congr (haddr : addr root = addr root') (hl : l < top) :
    entryAt child addr d root top v l = entryAt child addr d root' top v l := by
  have hle : l + 1 ≤ top := hl
  have key : ∀ j, j ≤ top → addr (entryAt child addr d root top v j)
      = addr (entryAt child addr d root' top v j) := by
    intro j hj
    induction hj using Nat.decreasingInduction with
    | self => rw [entryAt_top, entryAt_top, haddr]
    | of_succ j hlt ih => rw [entryAt_of_lt hlt, entryAt_of_lt hlt, ih]
  rw [entryAt_of_lt hl, entryAt_of_lt hl, key (l + 1) hle]

/-- **A store that agrees on the nodes of the way gives the same entries.** -/
theorem entryAt_store_congr
    (h : ∀ j, l < j → j ≤ top →
      child' (addr (entryAt child addr d root top v j))
        = child (addr (entryAt child addr d root top v j))) (hl : l ≤ top) :
    entryAt child' addr d root top v l = entryAt child addr d root top v l := by
  induction hl using Nat.decreasingInduction with
  | self => rw [entryAt_top, entryAt_top]
  | of_succ l hlt ih =>
    have ih' := ih fun j hj hjt => h j (by omega) hjt
    rw [entryAt_of_lt hlt, entryAt_of_lt hlt, ih', h (l + 1) (by omega) hlt]

/-- **Copy-on-write along one path.** Let `new` give the entries of a new path
for the key `v` from the top down to level `lo`: each new node is the old one
with the child on the path replaced by the next new entry, the lowest one is a
copy of the old one. If the store is otherwise the same on the way of the key
`w`, then that key meets the new entries on the path and the old ones
elsewhere. -/
theorem entryAt_of_path {lo : ℕ} {new : ℕ → ε} (hroot : new top = root')
    (htop : w / d ^ top = v / d ^ top) (hlo : lo ≤ top)
    (hnode : ∀ j, lo ≤ j → j < top →
      child' (addr (new (j + 1))) (w / d ^ j % d)
        = if w / d ^ j % d = v / d ^ j % d then new j
          else child (addr (entryAt child addr d root top v (j + 1))) (w / d ^ j % d))
    (hcopy : ∀ j, j + 1 = lo →
      child' (addr (new lo)) (w / d ^ j % d)
        = child (addr (entryAt child addr d root top v lo)) (w / d ^ j % d))
    (hoff : ∀ j, l < j → j ≤ top → ¬ (lo ≤ j ∧ w / d ^ j = v / d ^ j) →
      child' (addr (entryAt child addr d root top w j))
        = child (addr (entryAt child addr d root top w j)))
    (hl : l ≤ top) :
    entryAt child' addr d root' top w l
      = if lo ≤ l ∧ w / d ^ l = v / d ^ l then new l
        else entryAt child addr d root top w l := by
  induction hl using Nat.decreasingInduction with
  | self => rw [entryAt_top, if_pos ⟨hlo, htop⟩, hroot]
  | of_succ l hlt ih =>
    have ih' := ih fun j hj => hoff j (by omega)
    rw [entryAt_of_lt hlt, entryAt_of_lt hlt, ih']
    by_cases hup : lo ≤ l + 1 ∧ w / d ^ (l + 1) = v / d ^ (l + 1)
    · rw [if_pos hup, entryAt_congr hlt hup.2]
      by_cases hlol : lo ≤ l
      · -- the node one level up is on the path: its block is the new one
        rw [hnode l hlol hlt]
        by_cases hdigit : w / d ^ l % d = v / d ^ l % d
        · rw [if_pos hdigit, if_pos ⟨hlol, div_pow_eq_of_digit hup.2 hdigit⟩]
        · rw [if_neg hdigit, if_neg fun h => hdigit (by rw [h.2])]
      · -- it is the lowest one of the new path, a copy
        have heq : lo = l + 1 := by omega
        have hblk := hcopy l heq.symm
        rw [heq] at hblk
        rw [if_neg fun h => hlol h.1, hblk]
    · -- off the path nothing changed
      rw [if_neg hup, if_neg fun h => hup ⟨by omega, div_pow_succ_congr h.2⟩]
      rw [hoff (l + 1) (by omega) hlt hup]

end RadixTree
