import Cbe.CheckLibraryRuns

/-!
# What a check of a tree accepts

The check of a tree meets the entries for the leaves in their order, counts down
the number of leaves that is recorded and hashes each node block once its
children are done. `checkNode_eq_some` takes the two apart: the count is a walk
along the list of entries, the hashes are a property of all node blocks.

What is left is a list of conditions (`PassedTree`). They are weaker than those
of a `SoundTree` in some places and stronger in others; `UnseenFault` and
`RefusedFeature` name these places.

From the trees the statement goes up to the superblock, which is checked if it
is valid (`checkSb_isSome`), and from there to the device. The library inspects
all slots first, and remembers the first slot with the greatest generation, but
only one above zero: it starts from generation zero and asks for a greater one.
Without such a slot it checks the slot whose number was in the memory of the
object from before. So the verdict is stated for every content of this memory
(`completes_iff_soundDevice_iff`).

A device for which the verdict depends on that memory is easy to build: a
superblock of generation zero whose free tree cannot be right, beside slots that
are not valid (`rootlessDevice`). The check of a slot that is not valid
completes.
-/

namespace Cbe

open LevelScan ByteWalk

variable {Leaf : Type}

/-! ## The entries are counted

The state of the count is the number of leaves that are still expected. An entry
takes it down by one, or has to be unused when nothing is left. -/

section

/-- **What a count asks for**: the entries up to the number are there with data
that is as it should be, those after it are not in use. -/
structure Counts (kind : NodeKind Leaf) (dataOk : Leaf → Prop) (n : ℕ)
    (es : List (Option Leaf)) : Prop where
  /-- The leaves are there up to the number. -/
  present : ∀ i < n, es[i]? ≠ some none
  /-- Their data is as it should be. -/
  data : ∀ i < n, ∀ leaf, es[i]? = some (some leaf) → dataOk leaf
  /-- The other entries are not in use. -/
  unused : ∀ i ≥ n, ∀ leaf, es[i]? = some (some leaf) → leaf = kind.invalid

variable {kind : NodeKind Leaf} {dataOk : Leaf → Prop}

/-- Nothing is asked of no entries. -/
theorem Counts.nil (n : ℕ) : Counts kind dataOk n [] where
  present _ _ := by simp
  data _ _ _ h := by simp at h
  unused _ _ _ h := by simp at h

/-- An entry that is to be counted. -/
theorem counts_succ_cons {n : ℕ} {entry : Option Leaf} {es : List (Option Leaf)} :
    Counts kind dataOk (n + 1) (entry :: es)
      ↔ (∃ leaf, entry = some leaf ∧ dataOk leaf) ∧ Counts kind dataOk n es := by
  constructor
  · intro h
    refine ⟨?_, ⟨fun i hi => h.present (i + 1) (by omega), fun i hi => h.data (i + 1) (by omega),
      fun i hi => h.unused (i + 1) (by omega)⟩⟩
    cases entry with
    | none => exact absurd rfl (h.present 0 (Nat.succ_pos n))
    | some leaf => exact ⟨leaf, rfl, h.data 0 (Nat.succ_pos n) leaf rfl⟩
  · rintro ⟨⟨leaf, rfl, hdata⟩, h⟩
    refine ⟨fun i hi => ?_, fun i hi leaf' hleaf => ?_, fun i hi leaf' hleaf => ?_⟩
    · cases i with
      | zero => simp
      | succ i => exact h.present i (by omega)
    · cases i with
      | zero =>
        obtain rfl : leaf = leaf' := Option.some.inj (Option.some.inj hleaf)
        exact hdata
      | succ i => exact h.data i (by omega) leaf' hleaf
    · cases i with
      | zero => omega
      | succ i => exact h.unused i (by omega) leaf' hleaf

/-- An entry when nothing is left to count. -/
theorem counts_zero_cons {entry : Option Leaf} {es : List (Option Leaf)} :
    Counts kind dataOk 0 (entry :: es)
      ↔ (∀ leaf, entry = some leaf → leaf = kind.invalid) ∧ Counts kind dataOk 0 es := by
  constructor
  · intro h
    refine ⟨fun leaf hleaf => h.unused 0 (le_refl 0) leaf (by rw [hleaf]; rfl), ?_⟩
    exact ⟨fun i hi => absurd hi (Nat.not_lt_zero i), fun i hi => absurd hi (Nat.not_lt_zero i),
      fun i _ => h.unused (i + 1) (Nat.zero_le _)⟩
  · rintro ⟨hentry, h⟩
    refine ⟨fun i hi => absurd hi (Nat.not_lt_zero i), fun i hi => absurd hi (Nat.not_lt_zero i),
      fun i _ leaf hleaf => ?_⟩
    cases i with
    | zero => exact hentry leaf (Option.some.inj hleaf)
    | succ i => exact h.unused i (Nat.zero_le i) leaf hleaf

end

section

variable [DecidableEq Leaf] (kind : NodeKind Leaf) (dataOk : Leaf → Prop) [DecidablePred dataOk]

/-- What is left to count after an entry. -/
def countEntry (n : ℕ) : Option Leaf → Option ℕ
  | none => if n = 0 then some 0 else none
  | some leaf => checkLeaf kind dataOk n leaf

/-- What is left to count after some entries. -/
def countEntries (n : ℕ) (es : List (Option Leaf)) : Option ℕ :=
  es.foldlM (countEntry kind dataOk) n

/-- The walk along two lists is one walk after the other. -/
theorem countEntries_append (n : ℕ) (es es' : List (Option Leaf)) :
    countEntries kind dataOk n (es ++ es')
      = (countEntries kind dataOk n es).bind fun n => countEntries kind dataOk n es' :=
  List.foldlM_append

/-- Entries that are not in use pass when nothing is left to count. -/
theorem countEntries_replicate (n c : ℕ) :
    countEntries kind dataOk n (List.replicate (c + 1) none)
      = if n = 0 then some 0 else none := by
  rw [countEntries, List.replicate_succ, List.foldlM_cons, countEntry]
  by_cases hn : n = 0
  · rw [if_pos hn]
    show (List.replicate c none).foldlM (countEntry kind dataOk) 0 = some 0
    induction c with
    | zero => rfl
    | succ c ih =>
      rw [List.replicate_succ, List.foldlM_cons]
      exact ih
  · rw [if_neg hn]
    rfl

variable {kind dataOk}

/-- **The walk along the entries** gets to their end exactly when they are as
the count asks for. -/
theorem countEntries_isSome (n : ℕ) (es : List (Option Leaf)) :
    (countEntries kind dataOk n es).isSome ↔ Counts kind dataOk n es := by
  induction es generalizing n with
  | nil => exact ⟨fun _ => .nil n, fun _ => rfl⟩
  | cons entry es ih =>
    have hcons : countEntries kind dataOk n (entry :: es)
        = (countEntry kind dataOk n entry).bind fun n => countEntries kind dataOk n es :=
      List.foldlM_cons
    rw [hcons]
    cases n with
    | zero =>
      rw [counts_zero_cons, ← ih]
      cases entry with
      | none => simp [countEntry]
      | some leaf => by_cases h : leaf = kind.invalid <;> simp [countEntry, checkLeaf, h]
    | succ n =>
      rw [counts_succ_cons, ← ih]
      cases entry with
      | none => simp [countEntry]
      | some leaf => by_cases h : dataOk leaf <;> simp [countEntry, checkLeaf, h]

end

/-! ## The count and the hashes

A check of a node splits into the count of the entries below it and a property
of the node blocks, if the check of a child does. The induction is on the level.
-/

/-- The hash of a node block as the checks compare it: not at all for a node of
generation zero, and that of the block its entries would be encoded as. -/
def PassedHash (_block : BlockData) (hash : Option Hash) (node : Type1Node) : Prop :=
  node.gen = 0 ∨ hash = some node.hash

section

variable [DecidableEq Leaf] {kind : NodeKind Leaf} {dataOk : Leaf → Prop}
  [DecidablePred dataOk] {sha : BlockData → Hash} {disk : Disk} {m : ℕ} {α : Type}

/-- A check of a child counts the entries below it and looks at a property of
the node blocks. -/
def Splits (kind : NodeKind Leaf) (dataOk : Leaf → Prop) [DecidablePred dataOk]
    (check : ℕ → α → Option ℕ) (childLeafs : α → Option (List (Option Leaf)))
    (childOk : α → Prop) : Prop :=
  ∀ n child n', check n child = some n' ↔ ∃ es, childLeafs child = some es
    ∧ countEntries kind dataOk n es = some n' ∧ childOk child

/-- The children of a node one after the other. -/
theorem Splits.children {check : ℕ → α → Option ℕ}
    {childLeafs : α → Option (List (Option Leaf))} {childOk : α → Prop}
    (h : Splits kind dataOk check childLeafs childOk) (nodes : Fin nodesPerBlock → α)
    (l : List (Fin nodesPerBlock)) (n n' : ℕ) :
    l.foldlM (fun n i => check n (nodes i)) n = some n'
      ↔ ∃ ess, l.mapM (fun i => childLeafs (nodes i)) = some ess
        ∧ countEntries kind dataOk n ess.flatten = some n' ∧ ∀ i ∈ l, childOk (nodes i) := by
  induction l generalizing n with
  | nil => simp [countEntries]
  | cons i l ih =>
    have hmap : (i :: l).mapM (fun i => childLeafs (nodes i))
        = (childLeafs (nodes i)).bind fun es =>
          (l.mapM fun i => childLeafs (nodes i)).map (es :: ·) := by
      rw [List.mapM_cons]
      cases childLeafs (nodes i) with
      | none => rfl
      | some es => cases l.mapM fun i => childLeafs (nodes i) <;> rfl
    have hfold : (i :: l).foldlM (fun n i => check n (nodes i)) n
        = (check n (nodes i)).bind fun n => l.foldlM (fun n i => check n (nodes i)) n :=
      List.foldlM_cons
    rw [hfold, hmap]
    simp only [Option.bind_eq_some_iff, Option.map_eq_some_iff]
    constructor
    · rintro ⟨n₁, hcheck, hrest⟩
      obtain ⟨es, hes, hcount, hok⟩ := (h _ _ _).mp hcheck
      obtain ⟨ess, hess, hcounts, hoks⟩ := (ih n₁).mp hrest
      refine ⟨es :: ess, ⟨es, hes, ess, hess, rfl⟩, ?_, List.forall_mem_cons.mpr ⟨hok, hoks⟩⟩
      rw [List.flatten_cons, countEntries_append, hcount]
      exact hcounts
    · rintro ⟨_, ⟨es, hes, ess, hess, rfl⟩, hcounts, hoks⟩
      rw [List.flatten_cons, countEntries_append] at hcounts
      obtain ⟨n₁, hcount, hcounts⟩ := Option.bind_eq_some_iff.mp hcounts
      obtain ⟨hok, hoks⟩ := List.forall_mem_cons.mp hoks
      exact ⟨n₁, (h _ _ _).mpr ⟨es, hes, hcount, hok⟩, (ih n₁).mpr ⟨ess, hess, hcounts, hoks⟩⟩

/-- **A node**, given the check of its children. -/
theorem Splits.inner {kind' : NodeKind α} {check : ℕ → α → Option ℕ}
    {childLeafs : α → Option (List (Option Leaf))} {childOk : α → Prop}
    (h : Splits kind dataOk check childLeafs childOk) {capacity : ℕ} (hcap : 0 < capacity) :
    Splits kind dataOk (checkInner (checkChildren kind' sha disk m check))
      (leafsBelow kind' disk m childLeafs capacity)
      (EveryInnerBelow kind' sha disk m PassedHash childOk) := by
  intro n node n'
  rw [checkInner, leafsBelow]
  by_cases hvalid : node.Valid
  · rw [if_neg (not_not.mpr hvalid), if_pos hvalid]
    simp only [checkChildren, Option.bind_eq_some_iff, Option.map_eq_some_iff, EveryInnerBelow,
      hvalid, true_implies]
    constructor
    · rintro ⟨r, ⟨nodes, hnodes, n₁, hfold, hr⟩, hnode⟩
      obtain rfl := Option.some.inj hr
      obtain ⟨hhash, hn⟩ := Option.ite_none_right_eq_some.mp hnode
      obtain rfl : n₁ = n' := Option.some.inj hn
      obtain ⟨ess, hess, hcount, hoks⟩ := (h.children nodes _ n n₁).mp hfold
      refine ⟨ess.flatten, ⟨nodes, hnodes, ess, hess, rfl⟩, hcount, fun nodes' hnodes' => ?_⟩
      obtain rfl := Option.some.inj (hnodes.symm.trans hnodes')
      exact ⟨hhash, hoks⟩
    · rintro ⟨_, ⟨nodes, hnodes, ess, hess, rfl⟩, hcount, hinner⟩
      obtain ⟨hhash, hoks⟩ := hinner nodes hnodes
      exact ⟨(n', kind'.hashOf sha nodes), ⟨nodes, hnodes, n',
        (h.children nodes _ n n').mpr ⟨ess, hess, hcount, hoks⟩, rfl⟩, if_pos hhash⟩
  · rw [if_pos hvalid, if_neg hvalid]
    obtain ⟨c, rfl⟩ := Nat.exists_eq_succ_of_ne_zero hcap.ne'
    constructor
    · intro hn
      exact ⟨_, rfl, (countEntries_replicate kind dataOk n c).trans hn,
        fun hv => absurd hv hvalid⟩
    · rintro ⟨es, hes, hcount, -⟩
      obtain rfl := Option.some.inj hes
      exact (countEntries_replicate kind dataOk n c).symm.trans hcount

/-- A node has room for a leaf. -/
theorem leafCapacity_pos (m lvl : ℕ) : 0 < leafCapacity m lvl := by
  have hmem : (0 : Fin nodesPerBlock) ∈ childIdxs nodesPerBlock m :=
    mem_childIdxs.mpr (Nat.zero_le m)
  exact Nat.pow_pos (List.length_pos_of_mem hmem)

/-- **The check of a node counts the entries below it and compares the hashes.** -/
theorem checkNode_splits (lvl : ℕ) :
    Splits kind dataOk (checkNode kind sha disk m (checkLeaf kind dataOk) lvl)
      (leafs kind disk m lvl) (EveryInner kind sha disk m PassedHash lvl) := by
  induction lvl with
  | zero =>
    refine Splits.inner (fun n leaf n' => ?_) (leafCapacity_pos m 0)
    have hone : countEntries kind dataOk n [some leaf] = checkLeaf kind dataOk n leaf := by
      rw [countEntries, List.foldlM_cons]
      exact Option.bind_fun_some _
    constructor
    · exact fun h => ⟨_, rfl, hone.trans h, trivial⟩
    · rintro ⟨es, hes, h, -⟩
      obtain rfl := Option.some.inj hes
      exact hone.symm.trans h
  | succ lvl ih => exact Splits.inner ih (leafCapacity_pos m (lvl + 1))

end

/-! ## Trees

What passes is compared with what is sound, the conditions one by one. A sound
tree that has nothing the check refuses passes, and what passed is sound unless
it has a fault that is not seen. -/

/-- **A tree the check finds no fault in.** -/
structure PassedTree (kind : NodeKind Leaf) (sha : BlockData → Hash) (disk : Disk)
    (dataOk : Leaf → Prop) (ref : TreeRef) : Prop where
  /-- The tree has the levels that the check needs. -/
  minLevel : kind.minMaxLevel ≤ ref.maxLvlIdx
  /-- It has no more than the check can hold. -/
  maxLevel : ref.maxLvlIdx + 1 ≤ treeMaxMaxLevel
  /-- Its leaves are as the number asks for. -/
  entries : ∃ es, leafs kind disk ref.maxChildIdx (ref.maxLvlIdx - 1) ref.root = some es
    ∧ Counts kind dataOk ref.nrOfLeafs es
  /-- The check accepts the hash of every inner node. -/
  hashed : EveryInner kind sha disk ref.maxChildIdx PassedHash (ref.maxLvlIdx - 1) ref.root

/-- **The faults the check does not see**: an entry among the first ones that is
not in use, a number of leaves the tree cannot hold, and a node block that does
not hash to its entry although the comparison of the check passes. -/
inductive UnseenFault (kind : NodeKind Leaf) (sha : BlockData → Hash) (disk : Disk)
    (ref : TreeRef) : Prop
  | missing {es : List (Option Leaf)} {i : ℕ} {leaf : Leaf}
      (hes : leafs kind disk ref.maxChildIdx (ref.maxLvlIdx - 1) ref.root = some es)
      (hi : i < ref.nrOfLeafs) (hleaf : es[i]? = some (some leaf)) (hinvalid : ¬ kind.Valid leaf)
  | overfull (h : leafCapacity ref.maxChildIdx (ref.maxLvlIdx - 1) < ref.nrOfLeafs)
  | hash (h : ¬ EveryInner kind sha disk ref.maxChildIdx
      (fun block hash node => PassedHash block hash node → sha block = node.hash)
      (ref.maxLvlIdx - 1) ref.root)

/-- **What the check refuses although it is no fault**: a tree of the greatest
level there is, and a node block with other bytes than its entries are encoded
as. -/
inductive RefusedFeature (kind : NodeKind Leaf) (sha : BlockData → Hash) (disk : Disk)
    (ref : TreeRef) : Prop
  | level (h : treeMaxMaxLevel ≤ ref.maxLvlIdx)
  | bytes (h : ¬ EveryInner kind sha disk ref.maxChildIdx
      (fun block hash node => sha block = node.hash → PassedHash block hash node)
      (ref.maxLvlIdx - 1) ref.root)

section

variable {kind : NodeKind Leaf} {dataOk : Leaf → Prop} {sha : BlockData → Hash} {disk : Disk}

/-- **The check of a tree finds no fault** exactly in a tree that is as listed.
-/
theorem checkTree_isSome [DecidableEq Leaf] [DecidablePred dataOk] (ref : TreeRef) :
    (checkTree kind sha disk dataOk ref).isSome ↔ PassedTree kind sha disk dataOk ref := by
  rw [checkTree]
  by_cases hlevel : kind.minMaxLevel ≤ ref.maxLvlIdx ∧ ref.maxLvlIdx + 1 ≤ treeMaxMaxLevel
  · rw [if_pos hlevel, Option.isSome_map, Option.isSome_iff_exists]
    constructor
    · rintro ⟨n, hn⟩
      obtain ⟨es, hes, hcount, hhash⟩ := (checkNode_splits _ _ _ _).mp hn
      exact ⟨hlevel.1, hlevel.2, ⟨es, hes, (countEntries_isSome _ es).mp (by rw [hcount]; rfl)⟩,
        hhash⟩
    · rintro ⟨-, -, ⟨es, hes, hcounts⟩, hhash⟩
      obtain ⟨n, hcount⟩ := Option.isSome_iff_exists.mp ((countEntries_isSome _ es).mpr hcounts)
      exact ⟨n, (checkNode_splits _ _ _ _).mpr ⟨es, hes, hcount, hhash⟩⟩
  · rw [if_neg hlevel]
    exact ⟨fun h => absurd h (by simp), fun h => absurd ⟨h.minLevel, h.maxLevel⟩ hlevel⟩

/-- The entries below a node are as many as those below a child, times the number
of children. -/
theorem leafsBelow_length {α : Type} {kind' : NodeKind α} {m k capacity : ℕ}
    {childLeafs : α → Option (List (Option Leaf))}
    (hchild : ∀ child es, childLeafs child = some es → es.length = k)
    (hcap : capacity = (childIdxs nodesPerBlock m).length * k) {node : Type1Node}
    {es : List (Option Leaf)} (h : leafsBelow kind' disk m childLeafs capacity node = some es) :
    es.length = capacity := by
  have hflat : ∀ (nodes : Fin nodesPerBlock → α) (l : List (Fin nodesPerBlock))
      (ess : List (List (Option Leaf))), l.mapM (fun i => childLeafs (nodes i)) = some ess →
      ess.flatten.length = l.length * k := by
    intro nodes l
    induction l with
    | nil =>
      intro ess hess
      obtain rfl : [] = ess := Option.some.inj hess
      simp
    | cons i l ih =>
      intro ess hess
      rw [List.mapM_cons] at hess
      obtain ⟨es, hes, hess⟩ := Option.bind_eq_some_iff.mp hess
      obtain ⟨ess', hess', hess⟩ := Option.bind_eq_some_iff.mp hess
      obtain rfl := Option.some.inj hess
      rw [List.flatten_cons, List.length_append, hchild _ _ hes, ih _ hess', List.length_cons,
        Nat.succ_mul, Nat.add_comm]
  unfold leafsBelow at h
  by_cases hvalid : node.Valid
  · rw [if_pos hvalid] at h
    obtain ⟨nodes, -, h⟩ := Option.bind_eq_some_iff.mp h
    obtain ⟨ess, hess, rfl⟩ := Option.map_eq_some_iff.mp h
    rw [hflat nodes _ ess hess, hcap]
  · rw [if_neg hvalid] at h
    obtain rfl := Option.some.inj h
    exact List.length_replicate

/-- As many entries as the tree can hold. -/
theorem leafs_length {m lvl : ℕ} {node : Type1Node} {es : List (Option Leaf)}
    (h : leafs kind disk m lvl node = some es) : es.length = leafCapacity m lvl := by
  induction lvl generalizing node es with
  | zero =>
    refine leafsBelow_length (k := 1) (fun leaf es hes => ?_) ?_ h
    · obtain rfl := Option.some.inj hes
      rfl
    · rw [leafCapacity, Nat.zero_add, Nat.pow_one, Nat.mul_one]
  | succ lvl ih =>
    exact leafsBelow_length (fun child es hes => ih hes)
      (show _ = _ * leafCapacity m lvl from Nat.pow_succ') h

/-- Properties of all node blocks are combined block by block. -/
theorem EveryInner.imp {m lvl : ℕ} {node : Type1Node}
    {C C' D : BlockData → Option Hash → Type1Node → Prop}
    (himp : ∀ block hash node, C block hash node → C' block hash node → D block hash node)
    (h : EveryInner kind sha disk m C lvl node) (h' : EveryInner kind sha disk m C' lvl node) :
    EveryInner kind sha disk m D lvl node := by
  induction lvl generalizing node with
  | zero =>
    intro hvalid nodes hnodes
    exact ⟨himp _ _ _ (h hvalid nodes hnodes).1 (h' hvalid nodes hnodes).1, fun _ _ => trivial⟩
  | succ lvl ih =>
    intro hvalid nodes hnodes
    exact ⟨himp _ _ _ (h hvalid nodes hnodes).1 (h' hvalid nodes hnodes).1, fun i hi =>
      ih ((h hvalid nodes hnodes).2 i hi) ((h' hvalid nodes hnodes).2 i hi)⟩

/-- **A tree that passed is sound** unless it has a fault that is not seen. -/
theorem PassedTree.sound {ref : TreeRef} (h : PassedTree kind sha disk dataOk ref)
    (hunseen : ¬ UnseenFault kind sha disk ref) : SoundTree kind sha disk dataOk ref := by
  obtain ⟨es, hes, hcounts⟩ := h.entries
  refine ⟨h.minLevel, ⟨es, hes, fun i hi => ?_, hcounts.unused⟩, ?_⟩
  · have hlen : i < es.length := by
      rw [leafs_length hes]
      exact lt_of_lt_of_le hi (not_lt.mp fun h => hunseen (.overfull h))
    have hentry : es[i]? = some es[i] := List.getElem?_eq_getElem hlen
    cases hleaf : es[i] with
    | none => exact absurd (by rw [hentry, hleaf]) (hcounts.present i hi)
    | some leaf =>
      rw [hleaf] at hentry
      exact ⟨leaf, hentry, not_not.mp fun hinv => hunseen (.missing hes hi hentry hinv),
        hcounts.data i hi leaf hentry⟩
  · have hseen := not_not.mp fun hhash => hunseen (.hash hhash)
    exact h.hashed.imp (fun _ _ _ hpassed himp => himp hpassed) hseen

/-- **A sound tree passes** unless it has something that is refused. -/
theorem SoundTree.passed {ref : TreeRef} (h : SoundTree kind sha disk dataOk ref)
    (hrefused : ¬ RefusedFeature kind sha disk ref) : PassedTree kind sha disk dataOk ref := by
  obtain ⟨es, hes, hused, hunused⟩ := h.entries
  refine ⟨h.level, not_le.mp fun hlevel => hrefused (.level hlevel), ⟨es, hes, ?_⟩, ?_⟩
  · refine ⟨fun i hi hnone => ?_, fun i hi leaf hleaf => ?_, hunused⟩
    · obtain ⟨leaf, hleaf, -⟩ := hused i hi
      rw [hnone] at hleaf
      exact absurd (Option.some.inj hleaf) nofun
    · obtain ⟨leaf', hleaf', -, hdata⟩ := hused i hi
      obtain rfl : leaf = leaf' := Option.some.inj (Option.some.inj (hleaf.symm.trans hleaf'))
      exact hdata
  · have htaken := not_not.mp fun hbytes => hrefused (.bytes hbytes)
    exact h.hashed.imp (fun _ _ _ hsound himp => himp hsound) htaken

/-- A sound tree has no fault. -/
theorem SoundTree.not_unseenFault {ref : TreeRef} (h : SoundTree kind sha disk dataOk ref) :
    ¬ UnseenFault kind sha disk ref := by
  obtain ⟨es, hes, hused, -⟩ := h.entries
  rintro (⟨hes', hi, hleaf, hinvalid⟩ | hover | hhash)
  · obtain rfl := Option.some.inj (hes.symm.trans hes')
    obtain ⟨leaf', hleaf', hvalid, -⟩ := hused _ hi
    obtain rfl := Option.some.inj (Option.some.inj (hleaf.symm.trans hleaf'))
    exact hinvalid hvalid
  · rw [← leafs_length hes] at hover
    obtain ⟨leaf, hleaf, -⟩ := hused es.length hover
    rw [List.getElem?_eq_none (le_refl _)] at hleaf
    exact absurd hleaf nofun
  · exact hhash (h.hashed.imp (fun _ _ _ hsound _ _ => hsound) h.hashed)

/-- What passed has nothing that is refused. -/
theorem PassedTree.not_refusedFeature {ref : TreeRef} (h : PassedTree kind sha disk dataOk ref) :
    ¬ RefusedFeature kind sha disk ref := by
  rintro (hlevel | hbytes)
  · exact absurd hlevel (not_le.mpr h.maxLevel)
  · exact hbytes (h.hashed.imp (fun _ _ _ hpassed _ _ => hpassed) h.hashed)

end

/-! ## Superblocks

The same for all trees of a superblock: those of its valid snapshots, the free
tree and the meta tree. -/

/-- A property of the trees of a superblock: `P` of the trees of the valid
snapshots, `Q` of the free tree and the meta tree. -/
structure Superblock.EveryTree (sb : Superblock) (P Q : TreeRef → Prop) : Prop where
  /-- It holds of the trees of the valid snapshots. -/
  snaps : ∀ i, (sb.snapshots i).valid = true → P (sb.snapRef i)
  /-- It holds of the free tree. -/
  freeTree : Q sb.freeRef
  /-- It holds of the meta tree. -/
  metaTree : Q sb.metaRef

/-- The trees of a superblock are as they have to be. -/
def SoundTrees (sha : BlockData → Hash) (disk : Disk) (sb : Superblock) : Prop :=
  sb.EveryTree (SoundTree NodeKind.type1 sha disk (VbdDataOk sha disk))
    (SoundTree NodeKind.type2 sha disk fun _ => True)

/-- The check finds no fault in the trees of a superblock. -/
def PassedTrees (sha : BlockData → Hash) (disk : Disk) (sb : Superblock) : Prop :=
  sb.EveryTree (PassedTree NodeKind.type1 sha disk (VbdDataOk sha disk))
    (PassedTree NodeKind.type2 sha disk fun _ => True)

/-- There is no fault that the check does not see. -/
def NothingUnseen (sha : BlockData → Hash) (disk : Disk) (sb : Superblock) : Prop :=
  sb.EveryTree (fun ref => ¬ UnseenFault NodeKind.type1 sha disk ref)
    fun ref => ¬ UnseenFault NodeKind.type2 sha disk ref

/-- There is nothing that the check refuses although it is no fault. -/
def NothingRefused (sha : BlockData → Hash) (disk : Disk) (sb : Superblock) : Prop :=
  sb.EveryTree (fun ref => ¬ RefusedFeature NodeKind.type1 sha disk ref)
    fun ref => ¬ RefusedFeature NodeKind.type2 sha disk ref

variable {sha : BlockData → Hash} {disk : Disk} {sb : Superblock}

/-- Sound trees pass, if nothing is in them that is refused. -/
theorem SoundTrees.passed (h : SoundTrees sha disk sb) (hrefused : NothingRefused sha disk sb) :
    PassedTrees sha disk sb where
  snaps i hi := (h.snaps i hi).passed (hrefused.snaps i hi)
  freeTree := h.freeTree.passed hrefused.freeTree
  metaTree := h.metaTree.passed hrefused.metaTree

/-- Trees that passed are sound, if nothing is in them that is not seen. -/
theorem PassedTrees.sound (h : PassedTrees sha disk sb) (hunseen : NothingUnseen sha disk sb) :
    SoundTrees sha disk sb where
  snaps i hi := (h.snaps i hi).sound (hunseen.snaps i hi)
  freeTree := h.freeTree.sound hunseen.freeTree
  metaTree := h.metaTree.sound hunseen.metaTree

/-- Sound trees have no fault, seen or not. -/
theorem SoundTrees.nothingUnseen (h : SoundTrees sha disk sb) : NothingUnseen sha disk sb where
  snaps i hi := (h.snaps i hi).not_unseenFault
  freeTree := h.freeTree.not_unseenFault
  metaTree := h.metaTree.not_unseenFault

/-- In trees that passed there is nothing that is refused. -/
theorem PassedTrees.nothingRefused (h : PassedTrees sha disk sb) :
    NothingRefused sha disk sb where
  snaps i hi := (h.snaps i hi).not_refusedFeature
  freeTree := h.freeTree.not_refusedFeature
  metaTree := h.metaTree.not_refusedFeature

/-- **Passing means being sound** exactly when an unseen fault comes with one that
is seen, and what is refused comes with a fault. -/
theorem passedTrees_iff_soundTrees : (PassedTrees sha disk sb ↔ SoundTrees sha disk sb)
    ↔ (PassedTrees sha disk sb → NothingUnseen sha disk sb)
      ∧ (SoundTrees sha disk sb → NothingRefused sha disk sb) := by
  constructor
  · exact fun h => ⟨fun hpassed => (h.mp hpassed).nothingUnseen,
      fun hsound => (h.mpr hsound).nothingRefused⟩
  · exact fun h => ⟨fun hpassed => hpassed.sound (h.1 hpassed),
      fun hsound => hsound.passed (h.2 hsound)⟩

/-- A loop that has no result but its end. -/
theorem isSome_foldlM_unit {α : Type} (f : α → Option Unit) (l : List α) :
    (l.foldlM (fun _ a => f a) ()).isSome ↔ ∀ a ∈ l, (f a).isSome := by
  induction l with
  | nil => simp
  | cons a l ih =>
    rw [List.foldlM_cons, List.forall_mem_cons, ← ih]
    cases f a <;> simp

/-- **The check of a superblock.** -/
theorem checkSb_isSome : (checkSb sha disk sb).isSome ↔ (sb.Valid → PassedTrees sha disk sb) := by
  rw [checkSb]
  by_cases hvalid : sb.Valid
  · rw [if_pos hvalid]
    have hsnaps : ((List.finRange superblockNrOfSnapshots).foldlM
        (fun _ i => checkSnap sha disk sb i) ()).isSome
        ↔ ∀ i, (sb.snapshots i).valid = true →
          PassedTree NodeKind.type1 sha disk (VbdDataOk sha disk) (sb.snapRef i) := by
      rw [isSome_foldlM_unit]
      refine ⟨fun h i hi => ?_, fun h i _ => ?_⟩
      · have hi' := h i (List.mem_finRange i)
        rw [checkSnap, if_pos hi] at hi'
        exact (checkTree_isSome _).mp hi'
      · rw [checkSnap]
        split_ifs with hi
        · exact (checkTree_isSome _).mpr (h i hi)
        · rfl
    have hseq : ∀ a b c : Option Unit,
        (a.bind fun _ => b.bind fun _ => c).isSome ↔ a.isSome ∧ b.isSome ∧ c.isSome := by
      rintro (_ | _) (_ | _) (_ | _) <;> simp
    rw [hseq, hsnaps, checkFt, checkFt, checkTree_isSome, checkTree_isSome]
    exact ⟨fun h _ => ⟨h.1, h.2.1, h.2.2⟩,
      fun h => ⟨(h hvalid).snaps, (h hvalid).freeTree, (h hvalid).metaTree⟩⟩
  · rw [if_neg hvalid]
    exact ⟨fun _ h => absurd h hvalid, fun _ => rfl⟩

/-! ## The search for the superblock

The search goes over all slots and keeps the best one so far, with its
generation. What it knows after some slots is `Inspected`. -/

/-- **The valid superblock whose current snapshot has the greatest generation**:
the first one, if there are several. -/
structure Newest (disk : Disk) (i : SuperblocksIndex) (sb : Superblock) : Prop where
  /-- The superblock is in the slot. -/
  slot : disk.slot i = some sb
  /-- It is valid. -/
  valid : sb.Valid
  /-- No valid superblock has a greater generation. -/
  le : ∀ j sb', disk.slot j = some sb' → sb'.Valid → sb'.curr.gen ≤ sb.curr.gen
  /-- Those in the slots before it have smaller ones. -/
  first : ∀ j < i, ∀ sb', disk.slot j = some sb' → sb'.Valid → sb'.curr.gen < sb.curr.gen

/-- What the search knows after the slots `seen`. -/
structure Inspected (disk : Disk) (slot : SuperblocksIndex) (seen : List SuperblocksIndex)
    (best : ℕ × SuperblocksIndex) : Prop where
  /-- No valid one that was seen has a greater generation. -/
  le : ∀ j ∈ seen, ∀ sb, disk.slot j = some sb → sb.Valid → sb.curr.gen ≤ best.1
  /-- It is the first with this generation, or none was seen that counts. -/
  found : best = (0, slot) ∨ 0 < best.1 ∧ best.2 ∈ seen
    ∧ (∃ sb, disk.slot best.2 = some sb ∧ sb.Valid ∧ sb.curr.gen = best.1)
    ∧ ∀ j ∈ seen, j < best.2 → ∀ sb, disk.slot j = some sb → sb.Valid → sb.curr.gen < best.1

/-- **One more slot.** -/
theorem Inspected.step {slot i : SuperblocksIndex} {seen : List SuperblocksIndex}
    {best : ℕ × SuperblocksIndex} (h : Inspected disk slot seen best)
    (hi : ∀ j ∈ seen, j < i) (hslot : disk.slot i = some sb) :
    Inspected disk slot (seen ++ [i])
      (if sb.Valid ∧ sb.curr.gen > best.1 then (sb.curr.gen, i) else best) := by
  have hmem : ∀ j ∈ seen ++ [i], j ∈ seen ∨ j = i := fun j hj => by simpa using hj
  by_cases hnew : sb.Valid ∧ sb.curr.gen > best.1
  · rw [if_pos hnew]
    obtain ⟨hvalid, hgen⟩ := hnew
    refine ⟨fun j hj sb' hsb' hv => ?_, .inr ⟨lt_of_le_of_lt (Nat.zero_le _) hgen, by simp,
      ⟨sb, hslot, hvalid, rfl⟩, fun j hj hji sb' hsb' hv => ?_⟩⟩
    · rcases hmem j hj with hj | rfl
      · exact (lt_of_le_of_lt (h.le j hj sb' hsb' hv) hgen).le
      · obtain rfl := Option.some.inj (hslot.symm.trans hsb')
        exact le_refl _
    · rcases hmem j hj with hj | rfl
      · exact lt_of_le_of_lt (h.le j hj sb' hsb' hv) hgen
      · exact absurd hji (lt_irrefl _)
  · rw [if_neg hnew]
    refine ⟨fun j hj sb' hsb' hv => ?_, h.found.imp_right ?_⟩
    · rcases hmem j hj with hj | rfl
      · exact h.le j hj sb' hsb' hv
      · obtain rfl := Option.some.inj (hslot.symm.trans hsb')
        exact not_lt.mp fun hgen => hnew ⟨hv, hgen⟩
    · rintro ⟨hpos, hbest, hsb, hfirst⟩
      refine ⟨hpos, List.mem_append_left _ hbest, hsb, fun j hj hlt => ?_⟩
      rcases hmem j hj with hj | rfl
      · exact hfirst j hj hlt
      · exact absurd hlt (lt_asymm (hi _ hbest))

/-- All slots can be decoded. -/
def Readable (disk : Disk) : Prop := ∀ i, (disk.slot i).isSome

/-- The search raises at a slot that cannot be decoded, and nowhere else. -/
theorem inspectSlot_foldlM_isSome (l : List SuperblocksIndex) (best : ℕ × SuperblocksIndex) :
    (l.foldlM (inspectSlot disk) best).isSome ↔ ∀ i ∈ l, (disk.slot i).isSome := by
  induction l generalizing best with
  | nil => simp
  | cons i l ih =>
    have hcons : (i :: l).foldlM (inspectSlot disk) best
        = (inspectSlot disk best i).bind fun best => l.foldlM (inspectSlot disk) best :=
      List.foldlM_cons
    rw [hcons, List.forall_mem_cons, inspectSlot]
    cases disk.slot i with
    | none => simp
    | some sb =>
      rw [Option.map_some, Option.bind_some, ih]
      simp

/-- **The whole search.** -/
theorem Inspected.foldlM {slot : SuperblocksIndex} {l seen : List SuperblocksIndex}
    {best best' : ℕ × SuperblocksIndex} (h : Inspected disk slot seen best)
    (hsorted : (seen ++ l).Pairwise (· < ·))
    (hrun : l.foldlM (inspectSlot disk) best = some best') :
    Inspected disk slot (seen ++ l) best' := by
  induction l generalizing seen best with
  | nil =>
    obtain rfl := Option.some.inj hrun
    rw [List.append_nil]
    exact h
  | cons i l ih =>
    rw [List.foldlM_cons] at hrun
    obtain ⟨best₁, hstep, hrun⟩ := Option.bind_eq_some_iff.mp hrun
    obtain ⟨sb, hslot, rfl⟩ := Option.map_eq_some_iff.mp hstep
    have hlt : ∀ j ∈ seen, j < i := fun j hj =>
      (List.pairwise_append.mp hsorted).2.2 j hj i List.mem_cons_self
    have hassoc : seen ++ i :: l = seen ++ [i] ++ l := List.append_cons seen i l
    rw [hassoc] at hsorted ⊢
    exact ih (h.step hlt hslot) hsorted hrun

/-- What the search has found once all slots could be decoded. -/
theorem exists_inspected (hread : Readable disk) (slot : SuperblocksIndex) :
    ∃ best, (List.finRange nrOfSuperblockSlots).foldlM (inspectSlot disk) (0, slot) = some best
      ∧ Inspected disk slot (List.finRange nrOfSuperblockSlots) best := by
  obtain ⟨best, hbest⟩ := Option.isSome_iff_exists.mp
    ((inspectSlot_foldlM_isSome _ (0, slot)).mpr fun i _ => hread i)
  have hinit : Inspected disk slot [] (0, slot) :=
    ⟨fun j hj => absurd hj List.not_mem_nil, .inl rfl⟩
  exact ⟨best, hbest, hinit.foldlM (List.pairwise_lt_finRange _) hbest⟩

/-- No valid superblock has a current snapshot with a generation above zero. -/
def AllZero (disk : Disk) : Prop := ∀ i sb, disk.slot i = some sb → sb.Valid → sb.curr.gen = 0

/-- There is one superblock to check. -/
theorem Newest.unique {i j : SuperblocksIndex} {sb' : Superblock} (h : Newest disk i sb)
    (h' : Newest disk j sb') : i = j ∧ sb = sb' := by
  have hij : i = j := by
    rcases lt_trichotomy i j with hlt | heq | hgt
    · exact absurd (h'.first i hlt sb h.slot h.valid) (not_lt.mpr (h.le j sb' h'.slot h'.valid))
    · exact heq
    · exact absurd (h.first j hgt sb' h'.slot h'.valid) (not_lt.mpr (h'.le i sb h.slot h.valid))
  subst hij
  exact ⟨rfl, Option.some.inj (h.slot.symm.trans h'.slot)⟩

/-- A slot that is remembered is the one to check. -/
theorem Inspected.newest {slot : SuperblocksIndex} {best : ℕ × SuperblocksIndex}
    (h : Inspected disk slot (List.finRange nrOfSuperblockSlots) best) :
    best = (0, slot) ∧ AllZero disk ∨ ∃ sb, Newest disk best.2 sb ∧ 0 < sb.curr.gen := by
  rcases h.found with rfl | ⟨hpos, -, ⟨sb, hslot, hvalid, hgen⟩, hfirst⟩
  · exact .inl ⟨rfl, fun i sb hsb hv => Nat.le_zero.mp (h.le i (List.mem_finRange i) sb hsb hv)⟩
  · rw [← hgen] at hpos
    refine .inr ⟨sb, ⟨hslot, hvalid, fun j sb' hsb' hv => ?_, fun j hj sb' hsb' hv => ?_⟩, hpos⟩
    · rw [hgen]
      exact h.le j (List.mem_finRange j) sb' hsb' hv
    · rw [hgen]
      exact hfirst j (List.mem_finRange j) hj sb' hsb' hv

/-- **The check of a device where a slot is remembered** is the check of the
superblock it has to check. -/
theorem checkDevice_newest {i : SuperblocksIndex} (hread : Readable disk)
    (hnew : Newest disk i sb) (hgen : 0 < sb.curr.gen) (slot : SuperblocksIndex) :
    (checkDevice sha disk slot).isSome ↔ PassedTrees sha disk sb := by
  obtain ⟨best, hbest, hinsp⟩ := exists_inspected hread slot
  rcases hinsp.newest with ⟨-, hzero⟩ | ⟨sb', hnew', -⟩
  · exact absurd (hzero i sb hnew.slot hnew.valid) hgen.ne'
  · obtain ⟨-, rfl⟩ := hnew.unique hnew'
    rw [checkDevice, hbest, Option.bind_some, hnew'.slot, Option.bind_some, checkSb_isSome]
    exact ⟨fun h => h hnew.valid, fun h _ => h⟩

/-- **The check of a device where no slot is remembered** is the check of the slot
whose number was in memory. -/
theorem checkDevice_allZero {slot : SuperblocksIndex} (hread : Readable disk)
    (hzero : AllZero disk) (hslot : disk.slot slot = some sb) :
    (checkDevice sha disk slot).isSome ↔ (sb.Valid → PassedTrees sha disk sb) := by
  obtain ⟨best, hbest, hinsp⟩ := exists_inspected hread slot
  rcases hinsp.newest with ⟨rfl, -⟩ | ⟨sb', hnew', hgen⟩
  · rw [checkDevice, hbest, Option.bind_some, hslot, Option.bind_some, checkSb_isSome]
  · exact absurd (hzero _ sb' hnew'.slot hnew'.valid) hgen.ne'

/-- A device with such a slot does not pass. -/
theorem not_checkDevice_of_not_readable (hread : ¬ Readable disk) (slot : SuperblocksIndex) :
    ¬ (checkDevice sha disk slot).isSome := by
  intro h
  obtain ⟨_, hsome⟩ := Option.isSome_iff_exists.mp h
  obtain ⟨best, hbest, -⟩ := Option.bind_eq_some_iff.mp hsome
  exact hread fun i => (inspectSlot_foldlM_isSome _ _).mp (by rw [hbest]; rfl) i
    (List.mem_finRange i)

/-! ## The verdict

There are three kinds of devices: those with a slot that cannot be decoded,
those with a superblock that the search remembers, and those where it remembers
none. -/

/-- **A device as it has to be**: there is a valid superblock, and the trees of the
one whose current snapshot has the greatest generation are sound. -/
def SoundDevice (sha : BlockData → Hash) (disk : Disk) : Prop :=
  ∃ i sb, Newest disk i sb ∧ SoundTrees sha disk sb

/-- With a superblock to check, the device is as sound as its trees. -/
theorem soundDevice_iff {i : SuperblocksIndex} (hnew : Newest disk i sb) :
    SoundDevice sha disk ↔ SoundTrees sha disk sb := by
  refine ⟨?_, fun h => ⟨i, sb, hnew, h⟩⟩
  rintro ⟨j, sb', hnew', h⟩
  obtain ⟨-, rfl⟩ := hnew.unique hnew'
  exact h

/-- **The devices the check is right about.** A slot that cannot be decoded has to
come with an unsound device. With a generation above zero, a fault that the
check does not see has to come with one it sees, and what it refuses with a
fault. Without one each slot is checked for some content of the memory, so all of
them have to get the same verdict, which an invalid superblock gets as well. -/
inductive RightlyChecked (sha : BlockData → Hash) (disk : Disk) : Prop
  | unreadable (hread : ¬ Readable disk) (hsound : ¬ SoundDevice sha disk)
  | newest {i : SuperblocksIndex} {sb : Superblock} (hread : Readable disk)
      (hnew : Newest disk i sb) (hgen : 0 < sb.curr.gen)
      (hunseen : PassedTrees sha disk sb → NothingUnseen sha disk sb)
      (hrefused : SoundTrees sha disk sb → NothingRefused sha disk sb)
  | zeroSound (hread : Readable disk) (hzero : AllZero disk) (hsound : SoundDevice sha disk)
      (hslots : ∀ i sb, disk.slot i = some sb → sb.Valid → PassedTrees sha disk sb)
  | zeroUnsound (hread : Readable disk) (hzero : AllZero disk) (hsound : ¬ SoundDevice sha disk)
      (hslots : ∀ i sb, disk.slot i = some sb → sb.Valid ∧ ¬ PassedTrees sha disk sb)

/-- Any slot number may be in the memory. -/
theorem exists_memory (slot : SuperblocksIndex) :
    ∃ memory : SuperblockCheck, memory.lastSbSlotIdx = slot := by
  let memory : SuperblockCheck := {
    state := .inspectSbs
    highestGen := 0
    lastSbSlotIdx := slot
    sbSlotState := .init
    sbSlotIdx := 0
    sbSlot := superblockInvalid
    snapIdx := 0
    ft := type1NodeInvalid
    mt := type1NodeInvalid
    generatedPrim := none
    submittedPrim := none }
  exact ⟨memory, rfl⟩

/-- **On these devices the check is right**, whatever is in the memory. -/
theorem completes_iff_of_rightlyChecked (h : RightlyChecked sha disk) (memory : SuperblockCheck)
    (buf : BlockData) : CheckLibrary.Completes sha disk memory buf ↔ SoundDevice sha disk := by
  rw [completes_iff]
  cases h with
  | unreadable hread hsound =>
    exact ⟨fun h => absurd h (not_checkDevice_of_not_readable hread _),
      fun h => absurd h hsound⟩
  | newest hread hnew hgen hunseen hrefused =>
    exact (checkDevice_newest hread hnew hgen _).trans
      ((passedTrees_iff_soundTrees.mpr ⟨hunseen, hrefused⟩).trans (soundDevice_iff hnew).symm)
  | zeroSound hread hzero hsound hslots =>
    obtain ⟨sb, hsb⟩ := Option.isSome_iff_exists.mp (hread memory.lastSbSlotIdx)
    exact ⟨fun _ => hsound,
      fun _ => (checkDevice_allZero hread hzero hsb).mpr (hslots _ sb hsb)⟩
  | zeroUnsound hread hzero hsound hslots =>
    obtain ⟨sb, hsb⟩ := Option.isSome_iff_exists.mp (hread memory.lastSbSlotIdx)
    obtain ⟨hvalid, hfails⟩ := hslots _ sb hsb
    exact ⟨fun h => absurd ((checkDevice_allZero hread hzero hsb).mp h hvalid) hfails,
      fun h => absurd h hsound⟩

/-- **There are no others** on which it is right for every content of the memory. -/
theorem rightlyChecked_of_completes_iff
    (h : ∀ memory buf, CheckLibrary.Completes sha disk memory buf ↔ SoundDevice sha disk) :
    RightlyChecked sha disk := by
  have hslot : ∀ slot, (checkDevice sha disk slot).isSome ↔ SoundDevice sha disk := fun slot => by
    obtain ⟨memory, rfl⟩ := exists_memory slot
    rw [← completes_iff sha disk memory fun _ => 0]
    exact h memory fun _ => 0
  by_cases hread : Readable disk
  · obtain ⟨best, -, hinsp⟩ := exists_inspected hread 0
    rcases hinsp.newest with ⟨-, hzero⟩ | ⟨sb, hnew, hgen⟩
    · by_cases hsound : SoundDevice sha disk
      · refine .zeroSound hread hzero hsound fun i sb hi => ?_
        exact (checkDevice_allZero hread hzero hi).mp ((hslot i).mpr hsound)
      · refine .zeroUnsound hread hzero hsound fun i sb hi => ?_
        have hfails : ¬ (sb.Valid → PassedTrees sha disk sb) := fun hpassed =>
          hsound ((hslot i).mp ((checkDevice_allZero hread hzero hi).mpr hpassed))
        exact Classical.not_imp.mp hfails
    · have hiff : PassedTrees sha disk sb ↔ SoundTrees sha disk sb :=
        (checkDevice_newest hread hnew hgen 0).symm.trans
          ((hslot 0).trans (soundDevice_iff hnew))
      obtain ⟨hunseen, hrefused⟩ := passedTrees_iff_soundTrees.mp hiff
      exact .newest hread hnew hgen hunseen hrefused
  · refine .unreadable hread fun hsound => ?_
    exact not_checkDevice_of_not_readable hread 0 ((hslot 0).mpr hsound)

/-- **The check library is sound and complete for a device**, whatever is in the
memory of its objects, exactly when the device is one of those. -/
theorem completes_iff_soundDevice_iff (sha : BlockData → Hash) (disk : Disk) :
    (∀ memory buf, CheckLibrary.Completes sha disk memory buf ↔ SoundDevice sha disk)
      ↔ RightlyChecked sha disk :=
  ⟨rightlyChecked_of_completes_iff, fun h => completes_iff_of_rightlyChecked h⟩

/-- An unused snapshot can be encoded. -/
theorem snapshotInvalid_inRange : snapshotInvalid.InRange :=
  ⟨by decide, by decide, by decide, by decide, by decide⟩

/-- So can an unused superblock. -/
theorem superblockInvalid_inRange : superblockInvalid.InRange where
  rekeyingVba := by decide
  resizingNrOfPbas := by decide
  resizingNrOfLeaves := by decide
  previousKey := by decide
  currentKey := by decide
  snapshots _ := snapshotInvalid_inRange
  lastSecuredGeneration := by decide
  degree := by decide
  firstPba := by decide
  nrOfPbas := by decide
  freeGen := by decide
  freeNumber := by decide
  freeMaxLevel := by decide
  freeDegree := by decide
  freeLeafs := by decide
  metaGen := by decide
  metaNumber := by decide
  metaMaxLevel := by decide
  metaDegree := by decide
  metaLeafs := by decide

/-- The block a superblock is encoded as. -/
def superblockData (sb : Superblock) : BlockData :=
  ((blockDataFromSuperblock sb).map Buffer.data).getD fun _ => 0

/-- A superblock in range is decoded from its block. -/
theorem superblockFromBlockData_superblockData (hrange : sb.InRange)
    (hpool : sb.nrOfPbas < 2 ^ 32) :
    superblockFromBlockData (superblockData sb) = some sb := by
  obtain ⟨buf, hbuf⟩ : ∃ buf, RoundTrips blockDataFromSuperblock superblockFromBlockData sb buf :=
    RoundTrips.of_lt (fun off _ hid => writes_key off hid) hrange hpool
  have hdata : superblockData sb = buf.data := by
    rw [superblockData, hbuf.encoded]
    rfl
  rw [hdata]
  exact hbuf.decoded

/-- A superblock of generation zero whose free tree has one leaf and no root. -/
def rootlessSuperblock : Superblock :=
  { superblockInvalid with
    state := .normal
    snapshots := fun i =>
      if i = 0 then { snapshotInvalid with valid := true, gen := 0 } else snapshotInvalid
    freeMaxLevel := 2
    freeLeafs := 1 }

/-- The superblock without a root can be encoded. -/
theorem rootlessSuperblock_inRange : rootlessSuperblock.InRange :=
  { superblockInvalid_inRange with
    snapshots := fun i => by
      show (if i = 0 then _ else snapshotInvalid : Snapshot).InRange
      split_ifs
      · exact ⟨by decide, by decide, by decide, by decide, by decide⟩
      · exact snapshotInvalid_inRange
    freeMaxLevel := by decide
    freeLeafs := by decide }

/-- A device with that superblock in the first slot and no other one. -/
def rootlessDevice : Disk := fun n =>
  superblockData (if n = 0 then rootlessSuperblock else superblockInvalid)

/-- What the slots of the device hold. -/
theorem slot_rootlessDevice (i : SuperblocksIndex) :
    rootlessDevice.slot i = some (if i.val = 0 then rootlessSuperblock else superblockInvalid) := by
  rw [Disk.slot, rootlessDevice]
  split_ifs
  · exact superblockFromBlockData_superblockData rootlessSuperblock_inRange (by decide)
  · exact superblockFromBlockData_superblockData superblockInvalid_inRange (by decide)

/-- The first slot is the only valid one. -/
theorem rootlessDevice_valid {i : SuperblocksIndex} (h : rootlessDevice.slot i = some sb)
    (hvalid : sb.Valid) : sb = rootlessSuperblock := by
  rw [slot_rootlessDevice] at h
  split_ifs at h
  · exact (Option.some.inj h).symm
  · obtain rfl := Option.some.inj h
    exact absurd rfl hvalid

/-- **The check completes on this device**, when the memory happens to hold the
number of another slot, whatever the hash function is. -/
theorem not_completes_iff_rootlessDevice (sha : BlockData → Hash) : ¬ ∀ memory buf,
    (CheckLibrary.Completes sha rootlessDevice memory buf ↔ SoundDevice sha rootlessDevice) := by
  intro h
  obtain ⟨memory, hmemory⟩ := exists_memory 1
  have hread : Readable rootlessDevice := fun i => by rw [slot_rootlessDevice]; rfl
  have hzero : AllZero rootlessDevice := fun i sb hsb hv => by
    rw [rootlessDevice_valid hsb hv]
    rfl
  have hcompletes : CheckLibrary.Completes sha rootlessDevice memory fun _ => 0 := by
    refine (completes_iff _ _ _ _).mpr ?_
    rw [hmemory]
    exact (checkDevice_allZero hread hzero (slot_rootlessDevice 1)).mpr fun hv => absurd rfl hv
  obtain ⟨i, sb, hnew, hsound⟩ := (h memory fun _ => 0).mp hcompletes
  obtain rfl := rootlessDevice_valid hnew.slot hnew.valid
  obtain ⟨es, hes, hused, -⟩ := hsound.freeTree.entries
  obtain ⟨leaf, hleaf, -⟩ := hused 0 (by decide)
  have hnone : leafs NodeKind.type2 rootlessDevice 0 1 rootlessSuperblock.freeRef.root
      = some (List.replicate (leafCapacity 0 1) none) := by
    rw [leafs, leafsBelow]
    exact if_neg fun hv => hv rfl
  obtain rfl := Option.some.inj (hnone.symm.trans hes)
  rw [List.getElem?_replicate, if_pos (leafCapacity_pos 0 1)] at hleaf
  exact absurd (Option.some.inj hleaf) nofun

/-- With a hash function that says zero for every block. -/
theorem completes_rootlessDevice : ¬ ∀ memory buf,
    (CheckLibrary.Completes (fun _ => 0) rootlessDevice memory buf
      ↔ SoundDevice (fun _ => 0) rootlessDevice) :=
  not_completes_iff_rootlessDevice fun _ => 0

end Cbe
