import Cbe.TreeBuilding
import Cbe.CheckVerdict

/-!
# Trees that were built

A tree that was built in one go is read back from the block device: its entries
are the leaves that were placed, in the first places, and nothing else, every
node block hashes to the entry in its parent, and the addresses in use are the
ones that were handed out, without a gap (`Reads`). This holds on every disk
that agrees with the one the tree was built on at these addresses, so what is
written elsewhere later does not matter.

The proof follows the construction. How an entry is read is a record
(`Reading`): the leaves below it, the addresses it uses, and what is asked of
the node blocks. A leaf has such a reading, a node has one given that of its
children (`Reading.node`), and so a tree of any height has one by recursion on
the level. What was built between two stocks of addresses is read back level by
level (`reads_makeNode`), the children of a node one after the other
(`reads_threaded`).

The initializers of the virtual block device and the free tree differ in the
leaves alone: the type of their nodes and the entry of a leaf that was just
placed. What is asked of these is `ReadsBack`, and a tree of either initializer
is then sound by one statement (`soundTree_of_make`).
-/

namespace Cbe

open LevelScan BottomUp ByteWalk

variable {α Leaf : Type}

/-! ## The addresses of a tree

Which addresses a tree uses is a recursion over its levels, as its leaves are.
-/

/-- The addresses in use below a node, given those below a child, and its own. -/
def usedBelow (kind : NodeKind α) (disk : Disk) (m : ℕ) (childUsed : α → Option (List ℕ))
    (node : Type1Node) : Option (List ℕ) :=
  if node.Valid then
    (kind.fromBlockData (disk node.pba)).bind fun nodes =>
      ((childIdxs nodesPerBlock m).mapM fun i => childUsed (nodes i)).map fun used =>
        used.flatten ++ [node.pba]
  else some []

/-- **The addresses of the inner nodes and the leaves of a tree**, children first. The lowest
nodes have level 0; a leaf with the address 0 is not in use. -/
def usedPbas (kind : NodeKind Leaf) (pbaOf : Leaf → ℕ) (disk : Disk) (m : ℕ) :
    ℕ → Type1Node → Option (List ℕ)
  | 0 => usedBelow kind disk m fun leaf => some (if pbaOf leaf ≠ 0 then [pbaOf leaf] else [])
  | lvl + 1 => usedBelow NodeKind.type1 disk m (usedPbas kind pbaOf disk m lvl)

/-! ## The entries of a tree

The leaves are placed from the left until none is left to place. -/

/-- **Entries of which the first are leaves with an address**, with the number of leaves to
place before and after them. -/
def Places (k : TreeInitKind Leaf) (left left' : ℕ) (es : List (Option Leaf)) : Prop :=
  ∃ leaves rest, es = List.map some leaves ++ rest ∧ leaves.length + left' = left
    ∧ (∀ leaf ∈ leaves, ∃ a, a ≠ 0 ∧ leaf = k.leafAt a)
    ∧ (∀ e ∈ rest, e = none ∨ e = some k.kind.invalid) ∧ (rest ≠ [] → left' = 0)

namespace Places

variable {k : TreeInitKind Leaf} {left left' left'' : ℕ} {es es' : List (Option Leaf)}

/-- No entries place nothing. -/
theorem nil (k : TreeInitKind Leaf) (left : ℕ) : Places k left left [] :=
  ⟨[], [], rfl, Nat.zero_add _, by simp, by simp, by simp⟩

/-- A leaf is placed. -/
theorem single {a : ℕ} (ha : a ≠ 0) : Places k (left + 1) left [some (k.leafAt a)] :=
  ⟨[k.leafAt a], [], rfl, Nat.add_comm _ _,
    fun _ hleaf => ⟨a, ha, List.mem_singleton.mp hleaf⟩, by simp, by simp⟩

/-- Nothing is placed any more. -/
theorem unused (h : ∀ e ∈ es, e = none ∨ e = some k.kind.invalid) : Places k 0 0 es :=
  ⟨[], es, rfl, rfl, by simp, h, fun _ => rfl⟩

/-- The entries of one child follow those of the one before. -/
theorem append (h : Places k left left' es) (h' : Places k left' left'' es') :
    Places k left left'' (es ++ es') := by
  obtain ⟨leaves, rest, rfl, hlen, hvalid, hinvalid, hrest⟩ := h
  obtain ⟨leaves', rest', rfl, hlen', hvalid', hinvalid', hrest'⟩ := h'
  by_cases hnil : rest = []
  · subst hnil
    refine ⟨leaves ++ leaves', rest', by simp, by rw [List.length_append]; omega, ?_, hinvalid',
      hrest'⟩
    exact fun leaf hleaf => (List.mem_append.mp hleaf).elim (hvalid leaf) (hvalid' leaf)
  · have hzero := hrest hnil
    obtain rfl : leaves' = [] := List.eq_nil_of_length_eq_zero (by omega)
    refine ⟨leaves, rest ++ rest', by simp, by simp at hlen'; omega, hvalid, ?_, fun _ => by omega⟩
    exact fun e he => (List.mem_append.mp he).elim (hinvalid e) (hinvalid' e)

end Places

/-! ## Reading a tree

The disk is not the one of the stock, but any that agrees with it at the
addresses that were handed out in between. -/

/-- **How an entry is read**: the leaves below it, the addresses it uses, what is asked for
of the node blocks, and the values that can be encoded. -/
structure Reading (α Leaf : Type) where
  /-- The leaves below the entry. -/
  leafs : Disk → α → Option (List (Option Leaf))
  /-- The addresses that it uses. -/
  used : Disk → α → Option (List ℕ)
  /-- What is asked for of its node blocks. -/
  ok : Disk → α → Prop
  /-- The values that can be encoded. -/
  inRange : α → Prop

/-- **A node block of a new tree** hashes to its entry, which has the generation
zero. -/
def NewBlock (sha : BlockData → Hash) (block : BlockData) (_hash : Option Hash)
    (node : Type1Node) : Prop :=
  sha block = node.hash ∧ node.gen = 0

/-- How the entry of a node is read. -/
def Reading.node (rd : Reading α Leaf) (kind : NodeKind α) (sha : BlockData → Hash)
    (m capacity : ℕ) : Reading Type1Node Leaf where
  leafs disk := leafsBelow kind disk m (rd.leafs disk) capacity
  used disk := usedBelow kind disk m (rd.used disk)
  ok disk := EveryInnerBelow kind sha disk m (NewBlock sha) (rd.ok disk)
  inRange := Type1Node.InRange

/-- The disk is the one of a stock from one address to another. -/
def Agrees (s s' : Stock BlockData) (disk : Disk) : Prop :=
  ∀ a, s.next ≤ a → a < s'.next → disk a = s'.disk a

/-- **What was built between two stocks is read back**, as long as the addresses are ones of
the type. -/
def Reads (rd : Reading α Leaf) (k : TreeInitKind Leaf) (x : α) (s s' : Stock BlockData) : Prop :=
  0 < s.next → s'.next ≤ 2 ^ 64 → rd.inRange x ∧ ∃ es, Places k s.left s'.left es
    ∧ ∀ disk, Agrees s s' disk → rd.leafs disk x = some es
      ∧ rd.used disk x = some (List.range' s.next (s'.next - s.next)) ∧ rd.ok disk x

/-- The addresses of one part follow those of the part before it. -/
theorem range'_split {a b c : ℕ} (hab : a ≤ b) (hbc : b ≤ c) :
    List.range' a (b - a) ++ List.range' b (c - b) = List.range' a (c - a) := by
  have hb : b = a + (b - a) := (Nat.add_sub_cancel' hab).symm
  conv_lhs => rw [hb]
  rw [Nat.add_sub_cancel_left, List.range'_append_1]
  congr 1
  omega

variable {rd : Reading α Leaf} {k : TreeInitKind Leaf}

/-- **The children of a node are read back**, one after the other. -/
theorem reads_threaded {xs : List α} {s s' : Stock BlockData}
    (h : Threaded (fun x s s' => s.Grows s' ∧ Reads rd k x s s') xs s s') :
    s.Grows s' ∧ (0 < s.next → s'.next ≤ 2 ^ 64 → (∀ x ∈ xs, rd.inRange x) ∧
      ∃ es, Places k s.left s'.left es ∧ ∀ disk, Agrees s s' disk →
        (xs.mapM (rd.leafs disk)).map List.flatten = some es
          ∧ (xs.mapM (rd.used disk)).map List.flatten
            = some (List.range' s.next (s'.next - s.next))
          ∧ ∀ x ∈ xs, rd.ok disk x) := by
  induction h with
  | nil s =>
    refine ⟨Stock.Grows.refl s,
      fun _ _ => ⟨by simp, [], .nil k _, fun disk _ => ⟨rfl, ?_, by simp⟩⟩⟩
    rw [Nat.sub_self]
    rfl
  | @cons x xs s s₁ s₂ hx hxs ih =>
    obtain ⟨hgrows, hreads⟩ := hx
    obtain ⟨hgrows', hrest⟩ := ih
    refine ⟨hgrows.trans hgrows', fun hpos hle => ?_⟩
    obtain ⟨hrange, es, hes, hread⟩ := hreads hpos (le_trans hgrows'.next hle)
    obtain ⟨hranges, es', hes', hread'⟩ := hrest (lt_of_lt_of_le hpos hgrows.next) hle
    refine ⟨List.forall_mem_cons.mpr ⟨hrange, hranges⟩, es ++ es', hes.append hes',
      fun disk hdisk => ?_⟩
    have hfirst : Agrees s s₁ disk := fun a ha ha' => by
      rw [hdisk a ha (lt_of_lt_of_le ha' hgrows'.next)]
      exact hgrows'.disk a (Or.inl ha')
    have hnext : Agrees s₁ s₂ disk := fun a ha ha' => hdisk a (le_trans hgrows.next ha) ha'
    obtain ⟨hleafs, hused, hok⟩ := hread disk hfirst
    obtain ⟨hleafs', hused', hok'⟩ := hread' disk hnext
    obtain ⟨ess, hess, rfl⟩ := Option.map_eq_some_iff.mp hleafs'
    obtain ⟨uss, huss, hflat⟩ := Option.map_eq_some_iff.mp hused'
    refine ⟨?_, ?_, List.forall_mem_cons.mpr ⟨hok, hok'⟩⟩
    · rw [List.mapM_cons, hleafs, hess]
      rfl
    · rw [List.mapM_cons, hused, huss]
      show some (List.range' s.next (s₁.next - s.next) ++ uss.flatten) = _
      rw [hflat, range'_split hgrows.next hgrows'.next]

/-- The entry that is not in use. -/
theorem not_valid_type1NodeInvalid : ¬ type1NodeInvalid.Valid := fun h => h rfl

/-- An entry that is not in use can be encoded. -/
theorem type1NodeInvalid_inRange : type1NodeInvalid.InRange := ⟨by decide, by decide⟩

/-- Nothing is read below a node that is not in use. -/
theorem reads_noNode {kind' : NodeKind α} {sha : BlockData → Hash} {m capacity : ℕ}
    {s : Stock BlockData} (hleft : s.left = 0) :
    Reads (rd.node kind' sha m capacity) k type1NodeInvalid s s := by
  refine fun _ _ => ⟨type1NodeInvalid_inRange, List.replicate capacity none, ?_,
    fun disk _ => ⟨?_, ?_, ?_⟩⟩
  · rw [hleft]
    exact .unused fun e he => Or.inl (List.eq_of_mem_replicate he)
  · show leafsBelow kind' disk m (rd.leafs disk) capacity type1NodeInvalid = _
    rw [leafsBelow, if_neg not_valid_type1NodeInvalid]
  · show usedBelow kind' disk m (rd.used disk) type1NodeInvalid = _
    rw [usedBelow, if_neg not_valid_type1NodeInvalid, Nat.sub_self]
    rfl
  · exact fun hvalid => absurd hvalid not_valid_type1NodeInvalid

/-- **A node that was built is read back.** -/
theorem reads_makeNode {kind' : NodeKind α} {sha : BlockData → Hash}
    {m capacity : ℕ} {f : Stock BlockData → α × Stock BlockData} {none' : α}
    {below : Stock BlockData → BlockData × Stock BlockData}
    (hbelow : ∀ s, below s =
      (kind'.dataOf (each (fun _ _ => f) (childIdxs nodesPerBlock m) (fun _ => none') s).1,
        (each (fun _ _ => f) (childIdxs nodesPerBlock m) (fun _ => none') s).2))
    (hf : ∀ s, s.Grows (f s).2 ∧ Reads rd k (f s).1 s (f s).2) (hnone : rd.inRange none')
    (hdecode : ∀ nodes, (∀ i, rd.inRange (nodes i)) →
      kind'.fromBlockData (kind'.dataOf nodes) = some nodes) (s : Stock BlockData) :
    s.Grows ((k.maker sha).makeNode below s).2
      ∧ Reads (rd.node kind' sha m capacity) k ((k.maker sha).makeNode below s).1 s
        ((k.maker sha).makeNode below s).2 := by
  unfold Maker.makeNode
  by_cases hleft : s.left = 0
  · rw [if_pos hleft]
    exact ⟨Stock.Grows.refl s, reads_noNode hleft⟩
  rw [if_neg hleft, hbelow]
  have hnodup : (childIdxs nodesPerBlock m).Nodup :=
    (pairwise_childIdxs nodesPerBlock m).imp fun h => ne_of_lt h
  obtain ⟨hgrows, hchildren⟩ := reads_threaded
    (each_threaded (f := fun _ _ => f) (fun _ _ s => hf s) hnodup (fun _ => none') s)
  generalize heach : each (fun _ _ => f) (childIdxs nodesPerBlock m) (fun _ => none') s = r
  rw [heach] at hgrows hchildren
  obtain ⟨nodes, t⟩ := r
  have hput := Maker.grows_putNode (k.maker sha) (kind'.dataOf nodes) t
  refine ⟨hgrows.trans hput, fun hpos hle => ?_⟩
  have hle' : t.next + 1 ≤ 2 ^ 64 := hle
  obtain ⟨hranges, es, hes, hread⟩ := hchildren hpos (le_trans (Nat.le_succ _) hle')
  have hinRange : ∀ i, rd.inRange (nodes i) := fun i => by
    by_cases hi : i ∈ childIdxs nodesPerBlock m
    · exact hranges _ (List.mem_map_of_mem hi)
    · have hsame := each_of_not_mem (f := fun _ _ => f) hi (fun _ => none') s
      rw [heach] at hsame
      rw [show nodes i = none' from hsame]
      exact hnone
  have hvalid : Type1Node.Valid ⟨t.next, 0, sha (kind'.dataOf nodes)⟩ :=
    (lt_of_lt_of_le hpos hgrows.next).ne'
  refine ⟨⟨Nat.lt_of_succ_le hle', show 0 < 2 ^ 64 by decide⟩, es, hes, fun disk hdisk => ?_⟩
  have hat : disk t.next = kind'.dataOf nodes :=
    (hdisk t.next hgrows.next (Nat.lt_succ_self _)).trans (Function.update_self _ _ _)
  have hagrees : Agrees s t disk := fun a ha ha' =>
    (hdisk a ha (Nat.lt_succ_of_lt ha')).trans (Function.update_of_ne ha'.ne _ _)
  have hblock : kind'.fromBlockData (disk t.next) = some nodes := by
    rw [hat]
    exact hdecode nodes hinRange
  obtain ⟨hleafs, hused, hok⟩ := hread disk hagrees
  rw [List.mapM_map] at hleafs hused
  refine ⟨?_, ?_, fun _ nodes' hnodes' => ?_⟩
  · show leafsBelow kind' disk m (rd.leafs disk) capacity ⟨t.next, 0, _⟩ = some es
    rw [leafsBelow, if_pos hvalid]
    show (kind'.fromBlockData (disk t.next)).bind _ = _
    rw [hblock]
    exact hleafs
  · obtain ⟨uss, huss, hflat⟩ := Option.map_eq_some_iff.mp hused
    show usedBelow kind' disk m (rd.used disk) ⟨t.next, 0, _⟩ = _
    rw [usedBelow, if_pos hvalid]
    show (kind'.fromBlockData (disk t.next)).bind _ = _
    rw [hblock]
    show (((childIdxs nodesPerBlock m).mapM (rd.used disk ∘ nodes)).map _) = _
    rw [huss]
    show some (uss.flatten ++ [t.next]) = some (List.range' s.next (t.next + 1 - s.next))
    rw [hflat, Nat.succ_sub hgrows.next, List.range'_1_concat, Nat.add_sub_cancel' hgrows.next]
  · obtain rfl := Option.some.inj (hblock.symm.trans hnodes')
    exact ⟨⟨congrArg sha hat, rfl⟩, fun i hi => hok _ (List.mem_map_of_mem hi)⟩

/-! ## Whole trees

The step from one level to the next is `reads_makeNode`; here the recursion is
closed. -/

/-- **What the leaves of a tree have to satisfy** for the tree to be read back. -/
structure TreeInitKind.ReadsBack (k : TreeInitKind Leaf) (pbaOf : Leaf → ℕ)
    (inRange : Leaf → Prop) : Prop where
  /-- The entry of a leaf is valid. -/
  valid : ∀ a, a ≠ 0 → k.kind.Valid (k.leafAt a)
  /-- It has the address of the leaf. -/
  pba : ∀ a, pbaOf (k.leafAt a) = a
  /-- The entry that is not in use has the address zero. -/
  pba_invalid : pbaOf k.kind.invalid = 0
  /-- The entry of a leaf can be encoded. -/
  leafInRange : ∀ a, a < 2 ^ 64 → inRange (k.leafAt a)
  /-- So can the one that is not in use. -/
  invalidInRange : inRange k.kind.invalid
  /-- A block of such entries is read back. -/
  decode : ∀ nodes, (∀ i, inRange (nodes i)) →
    k.kind.fromBlockData (k.kind.dataOf nodes) = some nodes

/-- How a leaf is read. -/
def leafReading (pbaOf : Leaf → ℕ) (inRange : Leaf → Prop) : Reading Leaf Leaf where
  leafs _ leaf := some [some leaf]
  used _ leaf := some (if pbaOf leaf ≠ 0 then [pbaOf leaf] else [])
  ok _ _ := True
  inRange := inRange

/-- How a node of a level is read. -/
def treeReading (kind : NodeKind Leaf) (pbaOf : Leaf → ℕ) (inRange : Leaf → Prop)
    (sha : BlockData → Hash) (m : ℕ) : ℕ → Reading Type1Node Leaf
  | 0 => (leafReading pbaOf inRange).node kind sha m (leafCapacity m 0)
  | d + 1 =>
    (treeReading kind pbaOf inRange sha m d).node NodeKind.type1 sha m (leafCapacity m (d + 1))

/-- The reading of a node is that of its children, one level up. -/
theorem treeReading_eq (kind : NodeKind Leaf) (pbaOf : Leaf → ℕ) (inRange : Leaf → Prop)
    (sha : BlockData → Hash) (m d : ℕ) : treeReading kind pbaOf inRange sha m d = {
      leafs := fun disk => leafs kind disk m d
      used := fun disk => usedPbas kind pbaOf disk m d
      ok := fun disk => EveryInner kind sha disk m (NewBlock sha) d
      inRange := Type1Node.InRange } := by
  induction d with
  | zero => rfl
  | succ d ih =>
    rw [treeReading, ih]
    rfl

/-- A block of the first type is decoded. -/
theorem type1_decode {nodes : Fin nodesPerBlock → Type1Node} (h : ∀ i, (nodes i).InRange) :
    NodeKind.type1.fromBlockData (NodeKind.type1.dataOf nodes) = some nodes := by
  obtain ⟨buf, hbuf⟩ := type1NodeBlock_roundtrip h
  rw [NodeKind.dataOf_eq (congrArg (Option.map Buffer.data) hbuf.encoded)]
  exact hbuf.decoded

/-- So is one of the second type. -/
theorem type2_decode {nodes : Fin nodesPerBlock → Type2Node} (h : ∀ i, (nodes i).InRange) :
    NodeKind.type2.fromBlockData (NodeKind.type2.dataOf nodes) = some nodes := by
  obtain ⟨buf, hbuf⟩ := type2NodeBlock_roundtrip h
  rw [NodeKind.dataOf_eq (congrArg (Option.map Buffer.data) hbuf.encoded)]
  exact hbuf.decoded

/-- The leaves of the virtual block device are read back. -/
theorem vbdInitializer_readsBack : vbdInitializer.ReadsBack Type1Node.pba Type1Node.InRange where
  valid _ ha := ha
  pba _ := rfl
  pba_invalid := rfl
  leafInRange _ ha := ⟨ha, show 0 < 2 ^ 64 by decide⟩
  invalidInRange := type1NodeInvalid_inRange
  decode _ h := type1_decode h

/-- So are those of the free tree. -/
theorem freeTreeInitializer_readsBack :
    freeTreeInitializer.ReadsBack Type2Node.pba Type2Node.InRange where
  valid _ ha := ha
  pba _ := rfl
  pba_invalid := rfl
  leafInRange _ ha := ⟨ha, Nat.zero_le _, show 0 < 2 ^ 64 by decide, show 0 < 2 ^ 64 by decide,
    show 0 < 2 ^ 32 by decide⟩
  invalidInRange := ⟨by decide, by decide, by decide, by decide, by decide⟩
  decode _ h := type2_decode h

section

variable {pbaOf : Leaf → ℕ} {inRange : Leaf → Prop}

/-- **A leaf is read back.** -/
theorem reads_makeLeaf (hk : k.ReadsBack pbaOf inRange) (sha : BlockData → Hash)
    (s : Stock BlockData) : s.Grows ((k.maker sha).makeLeaf s).2
      ∧ Reads (leafReading pbaOf inRange) k ((k.maker sha).makeLeaf s).1 s
        ((k.maker sha).makeLeaf s).2 := by
  refine ⟨Maker.grows_makeLeaf _ s, ?_⟩
  unfold Maker.makeLeaf
  by_cases hleft : s.left = 0
  · rw [if_pos hleft]
    refine fun _ _ => ⟨hk.invalidInRange, [some k.kind.invalid], ?_,
      fun disk _ => ⟨rfl, ?_, trivial⟩⟩
    · rw [hleft]
      exact .unused fun e he => Or.inr (List.mem_singleton.mp he)
    · show some (if pbaOf k.kind.invalid ≠ 0 then _ else _) = _
      rw [hk.pba_invalid, Nat.sub_self]
      rfl
  · rw [if_neg hleft]
    refine fun hpos hle => ⟨hk.leafInRange _ (Nat.lt_of_succ_le hle), [some (k.leafAt s.next)], ?_,
      fun disk _ => ⟨rfl, ?_, trivial⟩⟩
    · have hone : s.left = s.left - 1 + 1 :=
        (Nat.sub_add_cancel (Nat.one_le_iff_ne_zero.mpr hleft)).symm
      rw [hone]
      exact .single hpos.ne'
    · show some (if pbaOf (k.leafAt s.next) ≠ 0 then [pbaOf (k.leafAt s.next)] else [])
        = some (List.range' s.next (s.next + 1 - s.next))
      rw [hk.pba, if_pos hpos.ne', Nat.add_sub_cancel_left]
      rfl

/-- **A tree is read back.** -/
theorem reads_make (hk : k.ReadsBack pbaOf inRange) (sha : BlockData → Hash) (m d : ℕ)
    (s : Stock BlockData) : s.Grows ((k.maker sha).make m d s).2
      ∧ Reads (treeReading k.kind pbaOf inRange sha m d) k ((k.maker sha).make m d s).1 s
        ((k.maker sha).make m d s).2 := by
  induction d generalizing s with
  | zero =>
    exact reads_makeNode (k := k) (fun _ => rfl) (reads_makeLeaf hk sha) hk.invalidInRange
      hk.decode s
  | succ d ih =>
    have hrange : (treeReading k.kind pbaOf inRange sha m d).inRange = Type1Node.InRange := by
      rw [treeReading_eq]
    refine reads_makeNode (k := k) (fun _ => rfl) ih ?_ (fun nodes h => ?_) s
    · rw [hrange]
      exact type1NodeInvalid_inRange
    · rw [hrange] at h
      exact type1_decode h

/-- **A tree that can hold its leaves** is sound once it is built, and all its
entries have the generation zero. -/
theorem soundTree_of_make (hk : k.ReadsBack pbaOf inRange) {sha : BlockData → Hash}
    (ref : TreeRef)
    {s s' : Stock BlockData} {disk : Disk} {dataOk : Leaf → Prop}
    (hmake : (k.maker sha).make ref.maxChildIdx (ref.maxLvlIdx - 1) s = (ref.root, s'))
    (hleft : s.left = ref.nrOfLeafs) (hpos : 0 < s.next) (hle : s'.next ≤ 2 ^ 64)
    (hlevel : k.kind.minMaxLevel ≤ ref.maxLvlIdx)
    (hfits : ref.nrOfLeafs ≤ leafCapacity ref.maxChildIdx (ref.maxLvlIdx - 1))
    (hdata : ∀ a, dataOk (k.leafAt a)) (hagrees : Agrees s s' disk) :
    ref.root.InRange ∧ SoundTree k.kind sha disk dataOk ref
      ∧ usedPbas k.kind pbaOf disk ref.maxChildIdx (ref.maxLvlIdx - 1) ref.root
        = some (List.range' s.next (s'.next - s.next))
      ∧ EveryInner k.kind sha disk ref.maxChildIdx (NewBlock sha) (ref.maxLvlIdx - 1)
        ref.root := by
  have hreads := (reads_make hk sha ref.maxChildIdx (ref.maxLvlIdx - 1) s).2
  rw [hmake, treeReading_eq] at hreads
  obtain ⟨hroot, es, hplaces, hread⟩ := hreads hpos hle
  obtain ⟨hleafs, hused, hnew⟩ := hread disk hagrees
  refine ⟨hroot, ⟨hlevel, ⟨es, hleafs, ?_⟩, hnew.imp (fun _ _ _ h _ => h.1) hnew⟩, hused, hnew⟩
  have hlength := leafs_length hleafs
  obtain ⟨leaves, rest, rfl, hcount, hleaves, hinvalid, hrest⟩ := hplaces
  rw [List.length_append, List.length_map] at hlength
  have hall : leaves.length = ref.nrOfLeafs := by
    by_cases hnil : rest = []
    · rw [hnil, List.length_nil] at hlength
      omega
    · have hzero := hrest hnil
      omega
  refine ⟨fun i hi => ?_, fun i hi leaf hleaf => ?_⟩
  · have hlt : i < leaves.length := by omega
    obtain ⟨a, ha, heq⟩ := hleaves leaves[i] (List.getElem_mem hlt)
    refine ⟨leaves[i], ?_, ?_, ?_⟩
    · rw [List.getElem?_append_left (by rw [List.length_map]; exact hlt), List.getElem?_map,
        List.getElem?_eq_getElem hlt]
      rfl
    · rw [heq]
      exact hk.valid a ha
    · rw [heq]
      exact hdata a
  · rw [List.getElem?_append_right (by rw [List.length_map]; omega)] at hleaf
    rcases hinvalid _ (List.mem_of_getElem? hleaf) with hnone | hsome
    · exact absurd hnone (by simp)
    · exact Option.some.inj hsome

/-- **The check refuses nothing in a new tree**: it does not compare the hash of
a node of generation zero. -/
theorem not_refusedFeature_of_new {kind : NodeKind Leaf} {sha : BlockData → Hash} {disk : Disk}
    {ref : TreeRef} (hlevel : ref.maxLvlIdx < treeMaxMaxLevel)
    (hnew : EveryInner kind sha disk ref.maxChildIdx (NewBlock sha) (ref.maxLvlIdx - 1)
      ref.root) : ¬ RefusedFeature kind sha disk ref := by
  rintro (hmax | hbytes)
  · exact absurd hlevel (not_lt.mpr hmax)
  · exact hbytes (hnew.imp (fun _ _ _ h _ _ => Or.inl h.2) hnew)

end

end Cbe
