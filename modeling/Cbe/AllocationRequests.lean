import Cbe.RekeyingBranch
import Cbe.VbdExtension
import Cbe.NewFreeTreeAgreement

/-!
# The requests to the free tree

Three places prepare a request for blocks: the write path, level by level while
the cache delivers the nodes of the branch (`Scd`), and the two `Set_Args`
procedures of the rekeying module, with one loop over all levels (`forEachLvl`).
Each clears the entries of `New_PBAs` that need a block and counts them on the
side. The update of the free tree ends when the count is reached, so the two
must agree (`AllocArgs.WellCounted`, `AllocSituation.wellCounted_iff`).

They do for a tree of every depth but the last: the write path counts its level
in a variable of the type of a level, and steps it past the root.

The two procedures set each level in one go, so that the count and the entry are
two parts of one value (`LvlArgs`), and what has to be shown of a level is that
a level which is counted is cleared and one which is not counted has a block.
For the procedure of the rekeying this needs the levels below the lowest one at
hand to have their blocks from the branch before, because the entry of the
request before is taken for them. That it is so in a rekeying step is the last
part: the branches of a step go from the newest snapshot to the oldest, and an
older tree is not deeper (`Layered`).

The write path has no such loop. Its counters go on from call to call, and the
induction is on the number of levels that were delivered.
-/

namespace Cbe

variable {P : Platform}

/-- **The arguments of a request for blocks**, as a caller prepares them. -/
structure AllocArgs where
  /-- The nodes on the way to the block. -/
  walk : Type1NodeWalk
  /-- The addresses that are known already. -/
  newPbas : NewPbas
  /-- How many blocks are asked for. -/
  nrOfBlks : ℕ

/-- **As many blocks are requested as entries are zero** up to the level of the
root. -/
def AllocArgs.WellCounted (args : AllocArgs) (maxLevel : ℕ) : Prop :=
  args.nrOfBlks = ((List.range (maxLevel + 1)).filter fun lvl => args.newPbas lvl = 0).length

/-- Counting those that are counted among some gives all of them exactly when
each is. -/
theorem length_filter_eq_iff {α : Type*} {p q : α → Bool} {l : List α}
    (h : ∀ x ∈ l, p x = true → q x = true) :
    (l.filter p).length = (l.filter q).length ↔ ∀ x ∈ l, q x = true → p x = true := by
  have hsub : l.filter p = (l.filter q).filter p := by
    rw [List.filter_filter]
    refine List.filter_congr fun x hx => ?_
    by_cases hp : p x = true
    · rw [hp, h x hx hp]
      rfl
    · rw [Bool.not_eq_true] at hp
      rw [hp, Bool.false_and]
  rw [hsub, List.length_filter_eq_length_iff]
  exact ⟨fun hall x hx hq => hall x (List.mem_filter.mpr ⟨hx, hq⟩),
    fun hall x hx => hall x (List.mem_filter.mp hx).1 (List.mem_filter.mp hx).2⟩

/-! ## The loop over all levels

What the loop does to a level is decided by that level alone. -/

/-- What a procedure sets for a level, and whether it counts a block for it. -/
structure LvlArgs where
  /-- The entry of the level. -/
  node : Type1Node
  /-- The address of the level. -/
  newPba : ℕ
  /-- Whether a block is asked for. -/
  counted : Bool

/-- One level of `For_Each_Lvl`; `New_PBAs` still has the entry of an earlier
request. -/
def AllocArgs.setLvl (lvlArgs : ℕ → ℕ → LvlArgs) (args : AllocArgs) (lvl : ℕ) : AllocArgs :=
  let lvlArgs := lvlArgs lvl (args.newPbas lvl)
  { walk := Function.update args.walk lvl lvlArgs.node
    newPbas := Function.update args.newPbas lvl lvlArgs.newPba
    nrOfBlks := args.nrOfBlks + if lvlArgs.counted = true then 1 else 0 }

/-- **`For_Each_Lvl`**, over the levels below a number. -/
def forEachLvlBelow (lvlArgs : ℕ → ℕ → LvlArgs) (args : AllocArgs) (n : ℕ) : AllocArgs :=
  (List.range n).foldl (AllocArgs.setLvl lvlArgs) args

/-- One level more. -/
theorem forEachLvlBelow_succ (lvlArgs : ℕ → ℕ → LvlArgs) (args : AllocArgs) (n : ℕ) :
    forEachLvlBelow lvlArgs args (n + 1) = (forEachLvlBelow lvlArgs args n).setLvl lvlArgs n := by
  unfold forEachLvlBelow
  rw [List.range_succ, List.foldl_append]
  rfl

/-- **What the loop leaves**: each level by itself, from the entry that was there
before, and a count of those that count. -/
theorem forEachLvlBelow_spec (lvlArgs : ℕ → ℕ → LvlArgs) (args : AllocArgs) (n : ℕ) :
    (∀ lvl, (forEachLvlBelow lvlArgs args n).walk lvl
        = if lvl < n then (lvlArgs lvl (args.newPbas lvl)).node else args.walk lvl)
      ∧ (∀ lvl, (forEachLvlBelow lvlArgs args n).newPbas lvl
        = if lvl < n then (lvlArgs lvl (args.newPbas lvl)).newPba else args.newPbas lvl)
      ∧ (forEachLvlBelow lvlArgs args n).nrOfBlks = args.nrOfBlks
        + ((List.range n).filter fun lvl => (lvlArgs lvl (args.newPbas lvl)).counted).length := by
  induction n with
  | zero => exact ⟨fun _ => rfl, fun _ => rfl, rfl⟩
  | succ n ih =>
    obtain ⟨hwalk, hnew, hcount⟩ := ih
    have hentry : (forEachLvlBelow lvlArgs args n).newPbas n = args.newPbas n := by
      rw [hnew, if_neg (lt_irrefl n)]
    rw [forEachLvlBelow_succ]
    unfold AllocArgs.setLvl
    rw [hentry]
    refine ⟨fun lvl => ?_, fun lvl => ?_, ?_⟩
    · dsimp only
      rw [Function.update_apply, hwalk]
      split_ifs with h1 h2 h3 <;> first | rfl | omega | rw [h1]
    · dsimp only
      rw [Function.update_apply, hnew]
      split_ifs with h1 h2 h3 <;> first | rfl | omega | rw [h1]
    · dsimp only
      rw [hcount, List.range_succ, List.filter_append, List.length_append, Nat.add_assoc]
      congr 2
      by_cases hc : (lvlArgs n (args.newPbas n)).counted = true
      · rw [if_pos hc, List.filter_cons, if_pos hc]
        rfl
      · rw [if_neg hc, List.filter_cons, if_neg hc]
        rfl

/-- **`For_Each_Lvl`** over all levels, with the count at zero. -/
def forEachLvl (lvlArgs : ℕ → ℕ → LvlArgs) (args : AllocArgs) : AllocArgs :=
  forEachLvlBelow lvlArgs { args with nrOfBlks := 0 } (treeMaxMaxLevel + 1)

/-- When only levels up to the root are counted, and only with a cleared entry,
the count is right exactly when every cleared entry is counted. -/
theorem forEachLvl_wellCounted_iff {lvlArgs : ℕ → ℕ → LvlArgs} {args : AllocArgs} {maxLevel : ℕ}
    (hmax : maxLevel ≤ treeMaxMaxLevel)
    (hcounted : ∀ lvl old, (lvlArgs lvl old).counted = true →
      lvl ≤ maxLevel ∧ (lvlArgs lvl old).newPba = 0) :
    (forEachLvl lvlArgs args).WellCounted maxLevel
      ↔ ∀ lvl ≤ maxLevel, (lvlArgs lvl (args.newPbas lvl)).newPba = 0 →
        (lvlArgs lvl (args.newPbas lvl)).counted = true := by
  obtain ⟨-, hnew, hcount⟩ :=
    forEachLvlBelow_spec lvlArgs { args with nrOfBlks := 0 } (treeMaxMaxLevel + 1)
  have hup : (List.range (treeMaxMaxLevel + 1)).filter
        (fun lvl => (lvlArgs lvl (args.newPbas lvl)).counted)
      = (List.range (maxLevel + 1)).filter
        fun lvl => (lvlArgs lvl (args.newPbas lvl)).counted := by
    obtain ⟨k, hk⟩ := Nat.exists_eq_add_of_le (Nat.succ_le_succ hmax)
    rw [Nat.succ_eq_add_one, Nat.succ_eq_add_one] at hk
    have habove : ((List.range k).map (maxLevel + 1 + ·)).filter
        (fun lvl => (lvlArgs lvl (args.newPbas lvl)).counted) = [] := by
      rw [List.filter_eq_nil_iff]
      intro lvl hlvl hc
      obtain ⟨j, -, rfl⟩ := List.mem_map.mp hlvl
      have := (hcounted _ _ hc).1
      omega
    rw [hk, List.range_add, List.filter_append, habove, List.append_nil]
  have hzero : (List.range (maxLevel + 1)).filter
        (fun lvl => (forEachLvl lvlArgs args).newPbas lvl = 0)
      = (List.range (maxLevel + 1)).filter
        fun lvl => (lvlArgs lvl (args.newPbas lvl)).newPba = 0 := by
    refine List.filter_congr fun lvl hlvl => ?_
    unfold forEachLvl
    rw [hnew, if_pos (Nat.lt_of_lt_of_le (List.mem_range.mp hlvl) (Nat.succ_le_succ hmax))]
  unfold AllocArgs.WellCounted
  rw [hzero]
  unfold forEachLvl
  rw [hcount, hup, Nat.zero_add, length_filter_eq_iff]
  · refine ⟨fun h lvl hlvl h0 => h lvl (List.mem_range.mpr (Nat.lt_succ_of_le hlvl))
      (decide_eq_true h0), fun h lvl hlvl h0 => ?_⟩
    exact h lvl (Nat.le_of_lt_succ (List.mem_range.mp hlvl)) (of_decide_eq_true h0)
  · exact fun lvl _ hc => decide_eq_true (hcounted lvl _ hc).2

/-! ## The two procedures of the rekeying module

They differ in what they do below the lowest level that needs a block. -/

/-- What `Set_Args_For_Alloc_Of_New_PBAs_For_Resizing` sets for a level. -/
def lvlArgsForResizing (job : RekeyingJob P) (minLvl lvl _old : ℕ) : LvlArgs :=
  if lvl > job.snapshot.maxLevel then { node := type1NodeInvalid, newPba := 0, counted := false }
  else if lvl = job.snapshot.maxLevel then
    { node := job.snapshot.root, newPba := 0, counted := true }
  else if lvl ≥ minLvl then { node := job.child (lvl + 1), newPba := 0, counted := true }
  else if (job.child (lvl + 1)).pba = 0 then
    { node := { job.child (lvl + 1) with pba := pbaInvalid }
      newPba := pbaInvalid
      counted := false }
  else
    { node := job.child (lvl + 1), newPba := (job.child (lvl + 1)).pba, counted := false }

/-- **`Set_Args_For_Alloc_Of_New_PBAs_For_Resizing`.** -/
def setArgsForAllocOfNewPbasForResizing (job : RekeyingJob P) (minLvl : ℕ) (args : AllocArgs) :
    Option AllocArgs :=
  if minLvl > job.snapshot.maxLevel then none
  else some (forEachLvl (lvlArgsForResizing job minLvl) args)

/-- What `Set_Args_For_Alloc_Of_New_PBAs_For_Rekeying` sets for a level. Below
the lowest level that needs a block, the entry of the request before is taken
for the address of the node. -/
def lvlArgsForRekeying (job : RekeyingJob P) (minLvl lvl old : ℕ) : LvlArgs :=
  if lvl > job.snapshot.maxLevel then { node := type1NodeInvalid, newPba := 0, counted := false }
  else if lvl = job.snapshot.maxLevel then
    { node := job.snapshot.root, newPba := 0, counted := true }
  else if lvl ≥ minLvl then { node := job.child (lvl + 1), newPba := 0, counted := true }
  else { node := { job.child (lvl + 1) with pba := old }, newPba := old, counted := false }

/-- **`Set_Args_For_Alloc_Of_New_PBAs_For_Rekeying`.** -/
def setArgsForAllocOfNewPbasForRekeying (job : RekeyingJob P) (minLvl : ℕ) (args : AllocArgs) :
    Option AllocArgs :=
  if minLvl > job.snapshot.maxLevel then none
  else some (forEachLvl (lvlArgsForRekeying job minLvl) args)

/-- The arguments agree with those of a request on the levels there are. -/
def AllocArgs.Matches (args : AllocArgs) (req : AllocRequest) (newPbas : NewPbas) : Prop :=
  (∀ lvl ≤ treeMaxMaxLevel, args.walk lvl = req.oldBlocks lvl ∧ args.newPbas lvl = newPbas lvl)
    ∧ args.nrOfBlks = req.requestedBlocks

/-- How many levels there are from one up to the root. -/
theorem length_lvls_from {minLvl maxLevel : ℕ} (hmin : minLvl ≤ maxLevel) {c : ℕ → Bool}
    (hmax : maxLevel ≤ treeMaxMaxLevel) (hc : ∀ lvl, c lvl = true ↔ minLvl ≤ lvl ∧ lvl ≤ maxLevel) :
    ((List.range (treeMaxMaxLevel + 1)).filter c).length = maxLevel - minLvl + 1 := by
  obtain ⟨k, hk⟩ := Nat.exists_eq_add_of_le (Nat.succ_le_succ hmax)
  rw [Nat.succ_eq_add_one, Nat.succ_eq_add_one] at hk
  have habove : ((List.range k).map (maxLevel + 1 + ·)).filter c = [] := by
    rw [List.filter_eq_nil_iff]
    intro lvl hlvl hcl
    obtain ⟨j, -, rfl⟩ := List.mem_map.mp hlvl
    have := ((hc _).mp hcl).2
    omega
  rw [hk, List.range_add, List.filter_append, habove, List.append_nil,
    filter_range_eq_lvlsFrom (q := minLvl) c (Nat.le_succ_of_le hmin) fun lvl hlvl => by
      rw [hc]
      exact ⟨fun h => h.1, fun h => ⟨h, hlvl⟩⟩]
  unfold lvlsFrom
  rw [List.length_range']
  omega

/-- **The resizing asks for what it prepares**: the request that the extension
makes. -/
theorem setArgsForResizing_matches (ctx : AllocContext) {job : RekeyingJob P} {minLvl : ℕ}
    {args args' : AllocArgs} (hmax : job.snapshot.maxLevel ≤ treeMaxMaxLevel)
    (h : setArgsForAllocOfNewPbasForResizing job minLvl args = some args') :
    args'.Matches (resizingRequest ctx job minLvl) (newPbasForResizing job minLvl) := by
  unfold setArgsForAllocOfNewPbasForResizing at h
  obtain ⟨hmin, h⟩ := Option.ite_none_left_eq_some.mp h
  obtain rfl := Option.some.inj h
  obtain ⟨hwalk, hnew, hcount⟩ := forEachLvlBelow_spec (lvlArgsForResizing job minLvl)
    { args with nrOfBlks := 0 } (treeMaxMaxLevel + 1)
  refine ⟨fun lvl hlvl => ?_, ?_⟩
  · unfold forEachLvl
    rw [hwalk, hnew, if_pos (Nat.lt_succ_of_le hlvl), if_pos (Nat.lt_succ_of_le hlvl)]
    show _ = walkForResizing job minLvl lvl ∧ _
    unfold lvlArgsForResizing walkForResizing newPbasForResizing
    split_ifs <;> exact ⟨rfl, rfl⟩
  · unfold forEachLvl
    rw [hcount, Nat.zero_add]
    refine length_lvls_from (not_lt.mp hmin) hmax fun lvl => ?_
    unfold lvlArgsForResizing
    split_ifs <;> simp <;> omega

/-- **The rekeying asks for what it prepares**: the request that it makes for a
branch. -/
theorem setArgsForRekeying_matches (ctx : AllocContext) {job : RekeyingJob P} {minLvl : ℕ}
    {args args' : AllocArgs} (hmax : job.snapshot.maxLevel ≤ treeMaxMaxLevel)
    (hold : args.newPbas = job.newPbas)
    (h : setArgsForAllocOfNewPbasForRekeying job minLvl args = some args') :
    args'.Matches (rekeyingRequest ctx job minLvl) (newPbasForRekeying job minLvl) := by
  unfold setArgsForAllocOfNewPbasForRekeying at h
  obtain ⟨hmin, h⟩ := Option.ite_none_left_eq_some.mp h
  obtain rfl := Option.some.inj h
  obtain ⟨hwalk, hnew, hcount⟩ := forEachLvlBelow_spec (lvlArgsForRekeying job minLvl)
    { args with nrOfBlks := 0 } (treeMaxMaxLevel + 1)
  refine ⟨fun lvl hlvl => ?_, ?_⟩
  · unfold forEachLvl
    rw [hwalk, hnew, if_pos (Nat.lt_succ_of_le hlvl), if_pos (Nat.lt_succ_of_le hlvl)]
    dsimp only
    rw [hold]
    show _ = walkForRekeying job minLvl lvl ∧ _
    unfold lvlArgsForRekeying walkForRekeying newPbasForRekeying
    split_ifs <;> exact ⟨rfl, rfl⟩
  · unfold forEachLvl
    rw [hcount, Nat.zero_add]
    refine length_lvls_from (not_lt.mp hmin) hmax fun lvl => ?_
    unfold lvlArgsForRekeying
    split_ifs <;> simp <;> omega

/-! ## The write path

The walk of the translation is given, from the leaf to the root, and the cache
delivers the blocks of its nodes in this order. -/

/-- **What `Execute_SCD` keeps** from call to call. -/
structure Scd where
  /-- The level at hand. -/
  currLvl : ℕ
  /-- The addresses so far. -/
  newPbas : NewPbas
  /-- How many blocks are asked for. -/
  newBlocks : ℕ
  /-- How many are given up. -/
  freeBlocks : ℕ

/-- `Supply_Client_Data`. -/
def Scd.supplied : Scd where
  currLvl := 1
  newPbas _ := 0
  newBlocks := 0
  freeBlocks := 0

/-- **The write of a virtual block** that is to be prepared: the blocks of the
device, the current snapshot and the walk of the translation. -/
structure ScdBranch (P : Platform) where
  /-- The blocks of the device. -/
  store : Store P
  /-- The degree of its tree. -/
  degree : ℕ
  /-- The current snapshot. -/
  snap : Snapshot
  /-- The address that is written. -/
  vba : ℕ
  /-- The nodes on the way to it. -/
  walk : Type1NodeWalk
  /-- The current generation. -/
  currGen : ℕ

namespace ScdBranch

variable (br : ScdBranch P)

/-- The generation in the entry for the node of a level, as the block above has
it. -/
def entryGen (lvl : ℕ) : ℕ :=
  (br.store.type1NodeBlock (br.walk (lvl + 1)).pba (childIdxForVba br.vba (lvl + 1) br.degree)).gen

/-- Is the node of a level changed in place? For the root this depends on its
own generation, for the others on that in the entry above. -/
def InPlace (lvl : ℕ) : Prop :=
  if lvl = br.snap.maxLevel then (br.walk lvl).gen = 0 ∨ (br.walk lvl).gen = br.currGen
  else br.entryGen lvl = br.currGen ∨ lvl = 0 ∧ br.entryGen lvl = 0

instance (lvl : ℕ) : Decidable (br.InPlace lvl) := by
  unfold InPlace
  infer_instance

/-- **One call of `Execute_SCD`** with the node of its level delivered. Two of the
counters are of the type of a level, and stepping one past the last raises. -/
def executeLvl (scd : Scd) : Option Scd :=
  let lvl := scd.currLvl - 1
  let gen := br.entryGen lvl
  (if gen = br.currGen ∨ (scd.currLvl = 1 ∧ gen = 0) then
    some { scd with newPbas := Function.update scd.newPbas lvl (br.walk lvl).pba }
  else if scd.freeBlocks + 1 ≤ treeMaxMaxLevel then
    some { scd with
      freeBlocks := scd.freeBlocks + 1
      newBlocks := scd.newBlocks + 1 }
  else none).bind fun scd =>
    if scd.currLvl + 1 ≤ treeMaxMaxLevel then some { scd with currLvl := scd.currLvl + 1 } else none

/-- The calls for the levels from the first one on. -/
def executeLvls : ℕ → Option Scd
  | 0 => some Scd.supplied
  | n + 1 => (executeLvls n).bind br.executeLvl

/-- The check of the root. -/
def checkRoot (scd : Scd) : Scd :=
  let maxLevel := br.snap.maxLevel
  if (br.walk maxLevel).gen = 0 ∨ (br.walk maxLevel).gen = br.currGen then
    { scd with newPbas := Function.update scd.newPbas maxLevel (br.walk maxLevel).pba }
  else { scd with newBlocks := scd.newBlocks + 1 }

/-- **`Execute_SCD`**, from the first call on a branch to the request. It raises
when the walk does not start at the root of the current snapshot. -/
def executeScd : Option AllocArgs :=
  if (br.walk br.snap.maxLevel).pba ≠ br.snap.pba then none
  else
    (br.executeLvls br.snap.maxLevel).map fun scd =>
      { walk := br.walk
        newPbas := (br.checkRoot scd).newPbas
        nrOfBlks := (br.checkRoot scd).newBlocks }

/-- **What the calls leave** while no counter is at its end. -/
theorem executeLvls_spec {n : ℕ} (hn : n < treeMaxMaxLevel) (hmax : n ≤ br.snap.maxLevel) :
    ∃ scd, br.executeLvls n = some scd ∧ scd.currLvl = n + 1 ∧ scd.freeBlocks ≤ n
      ∧ (∀ lvl, scd.newPbas lvl = if lvl < n ∧ br.InPlace lvl then (br.walk lvl).pba else 0)
      ∧ scd.newBlocks = ((List.range n).filter fun lvl => ¬ br.InPlace lvl).length := by
  induction n with
  | zero => exact ⟨_, rfl, rfl, le_refl _, fun lvl => by simp [Scd.supplied], rfl⟩
  | succ n ih =>
    obtain ⟨scd, hrun, hlvl, hfree, hnew, hblocks⟩ :=
      ih (Nat.lt_of_succ_lt hn) (Nat.le_of_succ_le hmax)
    have hinplace : br.InPlace n
        ↔ br.entryGen n = br.currGen ∨ scd.currLvl = 1 ∧ br.entryGen n = 0 := by
      unfold InPlace
      rw [if_neg (Nat.ne_of_lt hmax), hlvl, Nat.add_eq_right]
    rw [executeLvls, hrun, Option.bind_some]
    unfold executeLvl
    rw [show scd.currLvl - 1 = n by rw [hlvl]; rfl]
    dsimp only
    by_cases h : br.InPlace n
    · rw [if_pos (hinplace.mp h), Option.bind_some]
      dsimp only
      rw [if_pos (by rw [hlvl]; exact hn)]
      refine ⟨_, rfl, by rw [hlvl], Nat.le_succ_of_le hfree, fun lvl => ?_, ?_⟩
      · dsimp only
        rw [Function.update_apply, hnew]
        by_cases heq : lvl = n
        · rw [if_pos heq, heq, if_pos ⟨Nat.lt_succ_self n, h⟩]
        · rw [if_neg heq]
          exact if_congr (and_congr_left fun _ => by omega) rfl rfl
      · dsimp only
        rw [hblocks, List.range_succ, List.filter_append]
        simp [h]
    · rw [if_neg fun h' => h (hinplace.mpr h'), if_pos (by omega), Option.bind_some]
      dsimp only
      rw [if_pos (by rw [hlvl]; exact hn)]
      refine ⟨_, rfl, by rw [hlvl], Nat.succ_le_succ hfree, fun lvl => ?_, ?_⟩
      · dsimp only
        rw [hnew]
        by_cases heq : lvl = n
        · rw [heq, if_neg fun h' => lt_irrefl n h'.1, if_neg fun h' => h h'.2]
        · exact if_congr (and_congr_left fun _ => by omega) rfl rfl
      · dsimp only
        rw [hblocks, List.range_succ, List.filter_append]
        simp [h]

/-- **On a tree of all levels the write path raises** after the last node. -/
theorem executeLvls_last (hmax : br.snap.maxLevel = treeMaxMaxLevel) :
    br.executeLvls treeMaxMaxLevel = none := by
  obtain ⟨scd, hrun, hlvl, -⟩ := br.executeLvls_spec (n := 5) (by decide) (by rw [hmax]; decide)
  show (br.executeLvls 5).bind br.executeLvl = none
  rw [hrun, Option.bind_some]
  unfold executeLvl
  rw [Option.bind_eq_none_iff]
  intro scd' hscd'
  have hlvl' : scd'.currLvl = scd.currLvl := by
    split_ifs at hscd' <;> obtain rfl := Option.some.inj hscd' <;> rfl
  rw [hlvl', hlvl]
  rfl

/-- **The write path asks for what it prepares**, unless the tree has all the
levels there can be. -/
theorem executeScd_wellCounted_iff (hmax : br.snap.maxLevel ≤ treeMaxMaxLevel) :
    (∃ args, br.executeScd = some args ∧ args.WellCounted br.snap.maxLevel)
      ↔ (br.walk br.snap.maxLevel).pba = br.snap.pba ∧ br.snap.maxLevel < treeMaxMaxLevel
        ∧ ∀ lvl ≤ br.snap.maxLevel, br.InPlace lvl → (br.walk lvl).pba ≠ 0 := by
  unfold executeScd
  by_cases hroot : (br.walk br.snap.maxLevel).pba ≠ br.snap.pba
  · rw [if_pos hroot]
    exact ⟨fun ⟨_, h, _⟩ => absurd h (by simp), fun h => absurd h.1 hroot⟩
  rw [if_neg hroot]
  rcases Nat.lt_or_eq_of_le hmax with hlt | heq
  · obtain ⟨scd, hrun, hlvl, hfree, hnew, hblocks⟩ := br.executeLvls_spec hlt (le_refl _)
    set m := br.snap.maxLevel with hm
    have hrootIn : br.InPlace m
        ↔ (br.walk m).gen = 0 ∨ (br.walk m).gen = br.currGen := by
      unfold InPlace
      rw [if_pos hm]
    have hpbas : ∀ lvl ≤ m, (br.checkRoot scd).newPbas lvl
        = if br.InPlace lvl then (br.walk lvl).pba else 0 := by
      intro lvl hle
      unfold checkRoot
      rw [← hm]
      by_cases h : br.InPlace m
      · rw [if_pos (hrootIn.mp h)]
        dsimp only
        rw [Function.update_apply, hnew]
        by_cases hl : lvl = m
        · rw [if_pos hl, hl, if_pos h]
        · rw [if_neg hl]
          exact if_congr (and_iff_right (Nat.lt_of_le_of_ne hle hl)) rfl rfl
      · rw [if_neg fun h' => h (hrootIn.mpr h'), hnew]
        by_cases hl : lvl = m
        · rw [hl, if_neg fun h' => lt_irrefl m h'.1, if_neg h]
        · exact if_congr (and_iff_right (Nat.lt_of_le_of_ne hle hl)) rfl rfl
    have hcount : (br.checkRoot scd).newBlocks
        = ((List.range (m + 1)).filter fun lvl => ¬ br.InPlace lvl).length := by
      unfold checkRoot
      rw [← hm, List.range_succ, List.filter_append, List.length_append]
      by_cases h : br.InPlace m
      · rw [if_pos (hrootIn.mp h), hblocks]
        simp [h]
      · rw [if_neg fun h' => h (hrootIn.mpr h')]
        dsimp only
        rw [hblocks]
        simp [h]
    have hiff : (br.checkRoot scd).newBlocks
        = ((List.range (m + 1)).filter fun lvl => (br.checkRoot scd).newPbas lvl = 0).length
        ↔ ∀ lvl ≤ m, br.InPlace lvl → (br.walk lvl).pba ≠ 0 := by
      rw [hcount, length_filter_eq_iff]
      · constructor
        · intro h lvl hle hin h0
          have hz : (br.checkRoot scd).newPbas lvl = 0 := by rw [hpbas lvl hle, if_pos hin, h0]
          exact of_decide_eq_true (h lvl (List.mem_range.mpr (Nat.lt_succ_of_le hle))
            (decide_eq_true hz)) hin
        · intro h lvl hmem hz
          have hle := Nat.le_of_lt_succ (List.mem_range.mp hmem)
          rw [decide_eq_true_eq, hpbas lvl hle] at hz
          refine decide_eq_true fun hin => ?_
          rw [if_pos hin] at hz
          exact h lvl hle hin hz
      · intro lvl hmem hnot
        have hle := Nat.le_of_lt_succ (List.mem_range.mp hmem)
        rw [decide_eq_true_eq, hpbas lvl hle, if_neg (of_decide_eq_true hnot)]
    rw [hrun]
    refine ⟨fun ⟨args, h, hw⟩ => ?_, fun ⟨_, _, h⟩ => ⟨_, rfl, hiff.mpr h⟩⟩
    obtain rfl := Option.some.inj h
    exact ⟨not_not.mp hroot, hlt, hiff.mp hw⟩
  · rw [heq, br.executeLvls_last heq]
    exact ⟨fun ⟨_, h, _⟩ => absurd h (by simp), fun h => absurd h.2.1 (lt_irrefl _)⟩

end ScdBranch

/-! ## All requests

The three callers as cases of one type, with one condition for each. -/

/-- **A caller about to ask the free tree for blocks.** The two procedures of the
rekeying module get the arguments as the request before has left them. -/
inductive AllocSituation (P : Platform) where
  | scd (br : ScdBranch P)
  | resizing (job : RekeyingJob P) (minLvl : ℕ) (args : AllocArgs)
  | rekeying (job : RekeyingJob P) (minLvl : ℕ) (args : AllocArgs)

namespace AllocSituation

/-- The level of the root of the tree that needs the blocks. -/
def maxLevel : AllocSituation P → ℕ
  | .scd br => br.snap.maxLevel
  | .resizing job _ _ | .rekeying job _ _ => job.snapshot.maxLevel

/-- The arguments that the caller prepares; `none` where it raises. -/
def prepares : AllocSituation P → Option AllocArgs
  | .scd br => br.executeScd
  | .resizing job minLvl args => setArgsForAllocOfNewPbasForResizing job minLvl args
  | .rekeying job minLvl args => setArgsForAllocOfNewPbasForRekeying job minLvl args

/-- **The request can be counted**: the walk is one of the current snapshot, the
lowest level is one of the tree, and a level that keeps its block has one. The
write path also needs a tree below the last level. -/
def Countable : AllocSituation P → Prop
  | .scd br => (br.walk br.snap.maxLevel).pba = br.snap.pba ∧ br.snap.maxLevel < treeMaxMaxLevel
      ∧ ∀ lvl ≤ br.snap.maxLevel, br.InPlace lvl → (br.walk lvl).pba ≠ 0
  | .resizing job minLvl _ => minLvl ≤ job.snapshot.maxLevel
  | .rekeying job minLvl args => minLvl ≤ job.snapshot.maxLevel
      ∧ ∀ lvl < minLvl, args.newPbas lvl ≠ 0

end AllocSituation

/-- **The exchange ends when all levels have a block**: whatever an update that
starts with the arguments has done, it has exchanged as many blocks as were
requested exactly when no level up to the root is left without one. -/
def AllocArgs.EndsFilled (P : Platform) (args : AllocArgs) (maxLevel : ℕ) : Prop :=
  ∀ (req : AllocRequest) (tree tree' : FtNode) (node node' : Type1Node) (metaPbas : List ℕ)
    (st : UpdateState P), req.maxLevel = maxLevel → req.requestedBlocks = args.nrOfBlks →
    (∀ pba ∈ metaPbas, pba ≠ 0) →
    tree.executeUpdate req node
      { newPbas := args.newPbas, exchanged := 0, metaPbas := metaPbas, writes := [] }
      = some (tree', node', st) →
    (st.exchanged = req.requestedBlocks ↔ ∀ lvl ≤ maxLevel, st.newPbas lvl ≠ 0)

/-- A request that is well counted ends with all levels filled. -/
theorem AllocArgs.WellCounted.endsFilled {args : AllocArgs} {maxLevel : ℕ}
    (h : args.WellCounted maxLevel) : args.EndsFilled P maxLevel := by
  rintro req tree tree' node node' metaPbas st rfl hblks hmeta hupd
  obtain ⟨⟨lvls, hp, hn, -⟩, -⟩ := FtNode.executeUpdate_spec hupd hmeta
  have hlen : args.nrOfBlks = lvls.length + (st.pending req).length := by
    rw [← List.length_append, ← hp]
    exact h
  have hn : st.exchanged = lvls.length := by
    rw [hn]
    exact Nat.zero_add _
  calc st.exchanged = req.requestedBlocks
    _ ↔ (st.pending req).length = 0 := by
      rw [hn, hblks, hlen]
      omega
    _ ↔ ∀ lvl ≤ req.maxLevel, st.newPbas lvl ≠ 0 := by
      rw [List.length_eq_zero_iff]
      unfold UpdateState.pending
      rw [List.filter_eq_nil_iff]
      simp only [List.mem_range, Nat.lt_succ_iff, decide_eq_true_eq]

/-- **A resizing is well counted** whatever the entries of the request before:
a node without an address gets the invalid one. -/
theorem setArgsForResizing_wellCounted {job : RekeyingJob P} {minLvl : ℕ} {args args' : AllocArgs}
    (hmax : job.snapshot.maxLevel ≤ treeMaxMaxLevel)
    (h : setArgsForAllocOfNewPbasForResizing job minLvl args = some args') :
    args'.WellCounted job.snapshot.maxLevel := by
  unfold setArgsForAllocOfNewPbasForResizing at h
  obtain ⟨-, h⟩ := Option.ite_none_left_eq_some.mp h
  obtain rfl := Option.some.inj h
  rw [forEachLvl_wellCounted_iff hmax fun lvl old hc => by
    revert hc
    unfold lvlArgsForResizing
    split_ifs <;> simp <;> omega]
  intro lvl hlvl h0
  revert h0
  unfold lvlArgsForResizing
  rw [if_neg (not_lt.mpr hlvl)]
  split_ifs with hroot hmin hpba
  · exact fun _ => rfl
  · exact fun _ => rfl
  · exact fun h0 => absurd h0 (by decide : pbaInvalid ≠ 0)
  · exact fun h0 => absurd h0 hpba

/-- **A rekeying is well counted** exactly when the request before has left a
block for every level below. -/
theorem setArgsForRekeying_wellCounted_iff {job : RekeyingJob P} {minLvl : ℕ}
    {args args' : AllocArgs} (hmax : job.snapshot.maxLevel ≤ treeMaxMaxLevel)
    (h : setArgsForAllocOfNewPbasForRekeying job minLvl args = some args') :
    args'.WellCounted job.snapshot.maxLevel ↔ ∀ lvl < minLvl, args.newPbas lvl ≠ 0 := by
  unfold setArgsForAllocOfNewPbasForRekeying at h
  obtain ⟨hmin, h⟩ := Option.ite_none_left_eq_some.mp h
  obtain rfl := Option.some.inj h
  have hmin := not_lt.mp hmin
  rw [forEachLvl_wellCounted_iff hmax fun lvl old hc => by
    revert hc
    unfold lvlArgsForRekeying
    split_ifs <;> simp <;> omega]
  constructor
  · intro hall lvl hlvl h0
    have hc := hall lvl (hlvl.le.trans hmin)
    unfold lvlArgsForRekeying at hc
    rw [if_neg (by omega), if_neg (by omega), if_neg (by omega)] at hc
    exact absurd (hc h0) (by simp)
  · intro hkept lvl hlvl
    unfold lvlArgsForRekeying
    rw [if_neg (not_lt.mpr hlvl)]
    split_ifs with hroot hge
    · exact fun _ => rfl
    · exact fun _ => rfl
    · exact fun h0 => absurd h0 (hkept lvl (not_le.mp hge))

/-- **When requests are well counted**: on a tree of every depth, every caller
asks for as many blocks as it clears entries, and so the update of the free tree
ends with all levels filled, exactly when the request can be counted. -/
theorem AllocSituation.wellCounted_iff (s : AllocSituation P)
    (hmax : s.maxLevel ≤ treeMaxMaxLevel) :
    (∃ args, s.prepares = some args ∧ args.WellCounted s.maxLevel
      ∧ args.EndsFilled P s.maxLevel) ↔ s.Countable := by
  have hends : ∀ args, s.prepares = some args ∧ args.WellCounted s.maxLevel
      ∧ args.EndsFilled P s.maxLevel ↔ s.prepares = some args ∧ args.WellCounted s.maxLevel :=
    fun args => and_congr_right fun _ => and_iff_left_of_imp AllocArgs.WellCounted.endsFilled
  rw [exists_congr hends]
  cases s with
  | scd br => exact br.executeScd_wellCounted_iff hmax
  | resizing job minLvl args =>
    refine ⟨fun ⟨args', h, _⟩ => ?_, fun h => ?_⟩
    · exact not_lt.mp (Option.ite_none_left_eq_some.mp h).1
    · have hsome : setArgsForAllocOfNewPbasForResizing job minLvl args
          = some (forEachLvl (lvlArgsForResizing job minLvl) args) := if_neg (not_lt.mpr h)
      exact ⟨_, hsome, setArgsForResizing_wellCounted hmax hsome⟩
  | rekeying job minLvl args =>
    refine ⟨fun ⟨args', h, hw⟩ => ?_, fun ⟨h, hkept⟩ => ?_⟩
    · exact ⟨not_lt.mp (Option.ite_none_left_eq_some.mp h).1,
        (setArgsForRekeying_wellCounted_iff hmax h).mp hw⟩
    · have hsome : setArgsForAllocOfNewPbasForRekeying job minLvl args
          = some (forEachLvl (lvlArgsForRekeying job minLvl) args) := if_neg (not_lt.mpr h)
      exact ⟨_, hsome, (setArgsForRekeying_wellCounted_iff hmax hsome).mpr hkept⟩

/-- A write to the first virtual block of a tree of two children a node: the nodes
are in the blocks from 16 on, the leaf first, and the entries have addresses and the
generation 1. -/
def sampleBranch (maxLevel : ℕ) : ScdBranch Platform.sample where
  store :=
    { blocks := fun pba => (fun i => if i = 0 then ⟨pba - 1, 1, 0⟩ else type1NodeInvalid, [])
      written := [] }
  degree := 2
  snap :=
    { snapshotInvalid with
      pba := 16 + maxLevel
      gen := 1
      nrOfLeafs := 2 ^ maxLevel
      maxLevel := maxLevel
      valid := true }
  vba := 0
  walk lvl := ⟨16 + lvl, 1, 0⟩
  currGen := 2

/-- Its nodes have blocks. -/
theorem sampleBranch_pba_ne_zero (maxLevel lvl : ℕ) :
    ((sampleBranch maxLevel).walk lvl).pba ≠ 0 := by
  show 16 + lvl ≠ 0
  omega

/-- Of a tree of five levels the write path asks for the whole branch. -/
theorem AllocSituation.wellCounted_iff_sample :
    ∃ args, (AllocSituation.scd (sampleBranch 5)).prepares = some args ∧ args.WellCounted 5
      ∧ args.EndsFilled Platform.sample 5 :=
  ((AllocSituation.scd (sampleBranch 5)).wellCounted_iff (by decide)).mpr
    ⟨rfl, by decide, fun lvl _ _ => sampleBranch_pba_ne_zero 5 lvl⟩

/-- **Of a tree of all levels it asks for nothing**: the walk starts at the root and
every node has an address, but the write path raises. -/
theorem AllocSituation.not_wellCounted :
    (sampleBranch 6).snap.maxLevel ≤ treeMaxMaxLevel
      ∧ ((sampleBranch 6).walk 6).pba = (sampleBranch 6).snap.pba
      ∧ (∀ lvl ≤ 6, ((sampleBranch 6).walk lvl).pba ≠ 0)
      ∧ (AllocSituation.scd (sampleBranch 6)).prepares = none
      ∧ ¬ ∃ args, (AllocSituation.scd (sampleBranch 6)).prepares = some args
        ∧ args.WellCounted 6 ∧ args.EndsFilled Platform.sample 6 := by
  have hnone : (sampleBranch 6).executeScd = none := by
    have hroot : ((sampleBranch 6).walk (sampleBranch 6).snap.maxLevel).pba
        = (sampleBranch 6).snap.pba := rfl
    unfold ScdBranch.executeScd
    rw [if_neg (not_not.mpr hroot)]
    exact congrArg (Option.map _) ((sampleBranch 6).executeLvls_last rfl)
  refine ⟨by decide, rfl, fun lvl _ => sampleBranch_pba_ne_zero 6 lvl, hnone,
    fun ⟨args, h, _⟩ => ?_⟩
  exact absurd (hnone.symm.trans h) (by simp)

/-! ## The requests of a rekeying step

The branches of a step share what the job remembers of the newer ones, so the
entries below the lowest level that needs a block are those of the branch
before. -/

/-- What a branch asks for: the job at the request, and the lowest level that
needs a block. -/
def rekeyBranchAsk (ws : Workspace P) (job : RekeyingJob P) : Option (RekeyingJob P × ℕ) :=
  (rekeyDescend ws.store job.snapshot.maxLevel
    (job.readNode ws.store job.snapshot.maxLevel job.snapshot.pba)).map
      fun (stop, job) => (job, stop.minLvl)

/-- What the snapshots that are left ask for, after `rekeySnapshots`. -/
def rekeySnapshotsAsks (ctx : AllocContext) :
    ℕ → Workspace P → RekeyingJob P → List (RekeyingJob P × ℕ)
  | 0, _, _ => []
  | n + 1, ws, job =>
    let job := rekeySetRoot job
    match nextSnapshotIdx job with
    | none => []
    | some i =>
      let job := { job with
        snapshotIdx := i
        firstSnapshot := false
        t1BlkIdx := (job.snapshots i).maxLevel }
      if job.t1BlksOldPbas job.t1BlkIdx = job.snapshot.pba then
        rekeySnapshotsAsks ctx n ws job
      else
        (rekeyBranchAsk ws job).toList ++
          match rekeyBranch ctx ws job with
          | none => []
          | some (ws, job) => rekeySnapshotsAsks ctx n ws job

/-- **What a rekeying step asks for**, after `executeRekeyVbaInVbd`. -/
def executeRekeyVbaAsks (ctx : AllocContext) (ws : Workspace P) (job : RekeyingJob P) :
    List (RekeyingJob P × ℕ) :=
  let job := { job with
    snapshots := discardDisposableSnapshots job.snapshots job.currGen job.lastSecuredGen }
  match newestSnapshotIdx job.snapshots with
  | none => []
  | some i =>
    let job := { job with snapshotIdx := i, firstSnapshot := true }
    (rekeyBranchAsk ws job).toList ++
      match rekeyBranch ctx ws job with
      | none => []
      | some (ws, job) => rekeySnapshotsAsks ctx superblockNrOfSnapshots ws job

/-- A descent keeps the entries, and it goes down to the leaf in the newest
snapshot. -/
theorem rekeyDescend_ask {s : Store P} {lvl : ℕ} {job job' : RekeyingJob P} {stop : RekeyingStop}
    (h : rekeyDescend s lvl job = some (stop, job')) :
    job'.newPbas = job.newPbas ∧ stop.minLvl ≤ lvl
      ∧ (job.firstSnapshot = true → stop.minLvl = 0) := by
  fun_induction rekeyDescend s lvl job with
  | case1 | case2 | case5 | case7 => exact absurd h (by simp)
  | case3 job _ hsh | case8 _ job _ hsh =>
    obtain ⟨rfl, rfl⟩ := Prod.mk.inj (Option.some.inj h)
    exact ⟨rfl, le_rfl, fun hf => absurd (hf.symm.trans hsh.1) (by decide)⟩
  | case4 | case6 =>
    obtain ⟨rfl, rfl⟩ := Prod.mk.inj (Option.some.inj h)
    exact ⟨rfl, Nat.zero_le 1, fun _ => rfl⟩
  | case9 lvl job _ _ ih =>
    obtain ⟨hnew, hmin, hfirst⟩ := ih h
    exact ⟨hnew, hmin.trans (Nat.le_succ _), hfirst⟩

/-- The blocks that the meta tree will hand out are fewer after a request. -/
theorem mem_metaPbas_of_allocate {req : AllocRequest} {newPbas : NewPbas} {root : Type1Node}
    {tree : FtNode} {metaPbas : List ℕ} {res : Allocation P}
    (h : allocate P req newPbas root tree metaPbas = some res)
    (hmeta : ∀ pba ∈ metaPbas, pba ≠ 0) {pba : ℕ} (hpba : pba ∈ res.metaPbas) :
    pba ∈ metaPbas := by
  unfold allocate at h
  obtain ⟨found, -, h⟩ := Option.bind_eq_some_iff.mp h
  split_ifs at h
  obtain ⟨⟨tree', root', st⟩, hupd, h⟩ := Option.bind_eq_some_iff.mp h
  dsimp only at h
  split_ifs at h
  obtain rfl := Option.some.inj h
  obtain ⟨⟨lvls, -, -, -, -, hless⟩, -⟩ := FtNode.executeUpdate_spec hupd hmeta
  exact hless pba hpba

/-- The climb keeps the entries. -/
theorem rekeyClimb_newPbas (n : ℕ) (s : Store P) (job : RekeyingJob P) :
    (rekeyClimb n s job).2.newPbas = job.newPbas := by
  induction n generalizing s job with
  | zero => rfl
  | succ n ih => exact (ih _ _).trans rfl

namespace RekeyingJob

/-- Every level up to the root has a block. -/
def Filled (job : RekeyingJob P) : Prop := ∀ lvl ≤ job.snapshot.maxLevel, job.newPbas lvl ≠ 0

/-- **The request of a job can be counted.** -/
def AsksCountable (ask : RekeyingJob P × ℕ) : Prop :=
  ∀ args : AllocArgs, args.newPbas = ask.1.newPbas →
    (AllocSituation.rekeying ask.1 ask.2 args).Countable

end RekeyingJob

/-- After a descent, every level without a block is to be asked for. -/
theorem rekeyDescend_countable {s : Store P} {job job' : RekeyingJob P} {stop : RekeyingStop}
    (hkept : job.firstSnapshot = true ∨ job.Filled)
    (h : rekeyDescend s job.snapshot.maxLevel
      (job.readNode s job.snapshot.maxLevel job.snapshot.pba) = some (stop, job')) :
    RekeyingJob.AsksCountable (job', stop.minLvl) := by
  obtain ⟨hnew, hmin, hfirst⟩ := rekeyDescend_ask h
  have hsnap : job'.snapshot = job.snapshot := (rekeyDescend_frame h).snapshot
  intro args hargs
  refine ⟨by rw [hsnap]; exact hmin, fun lvl hlvl => ?_⟩
  rw [hargs, hnew]
  rcases hkept with hf | hfilled
  · rw [hfirst hf] at hlvl
    exact absurd hlvl (Nat.not_lt_zero lvl)
  · exact hfilled lvl (hlvl.le.trans hmin)

/-- A branch asks for a block for every level without one. -/
theorem rekeyBranchAsk_countable {ws : Workspace P} {job : RekeyingJob P}
    (hkept : job.firstSnapshot = true ∨ job.Filled) {ask : RekeyingJob P × ℕ}
    (h : rekeyBranchAsk ws job = some ask) : RekeyingJob.AsksCountable ask := by
  obtain ⟨⟨stop, job₁⟩, hdesc, h⟩ := Option.map_eq_some_iff.mp h
  rw [← h]
  exact rekeyDescend_countable hkept hdesc

/-- A request of a job leaves a block for every level. -/
theorem rekeyAlloc_filled {ctx : AllocContext} {ws ws' : Workspace P} {job job' : RekeyingJob P}
    {q : ℕ} (h : rekeyAlloc ctx ws job q = some (ws', job'))
    (hmeta : ∀ pba ∈ ws.pools.metaPbas, pba ≠ 0) (hkept : ∀ k, k < q → job.newPbas k ≠ 0) :
    job'.Filled ∧ ∀ pba ∈ ws'.pools.metaPbas, pba ≠ 0 := by
  have hframe := rekeyAlloc_frame h
  unfold rekeyAlloc at h
  obtain ⟨hq, h⟩ := Option.ite_none_left_eq_some.mp h
  obtain ⟨⟨newPbas, ws₁⟩, halloc, h⟩ := Option.map_eq_some_iff.mp h
  obtain ⟨rfl, rfl⟩ := Prod.mk.inj h
  obtain ⟨res, hres, hpair⟩ := Option.map_eq_some_iff.mp halloc
  obtain ⟨rfl, rfl⟩ := Prod.mk.inj hpair
  obtain ⟨hpend, hcount⟩ := pendingLevels_rekeyingRequest ctx (not_lt.mp hq) hkept
  obtain ⟨hx, hother⟩ := allocate_spec hres hmeta hcount
  rw [hpend] at hx hother
  refine ⟨fun lvl hlvl => ?_, fun pba hpba => hmeta pba (mem_metaPbas_of_allocate hres hmeta hpba)⟩
  rw [hframe.snapshot] at hlvl
  show res.newPbas lvl ≠ 0
  by_cases hmem : lvl ∈ lvlsFrom q job.snapshot.maxLevel
  · obtain ⟨a, -, b, -, husable, -, heq⟩ := hx.exists_of_mem hmem
    rw [heq]
    exact husable.1
  · have hlt : lvl < q := by
      rw [mem_lvlsFrom, not_and_or] at hmem
      omega
    rw [hother lvl hmem]
    unfold newPbasForRekeying
    rw [if_neg (not_lt.mpr hlvl), if_neg (by omega), if_neg (not_le.mpr hlt)]
    exact hkept lvl hlt

/-- **A branch leaves a block for every level.** -/
theorem rekeyBranch_filled {ctx : AllocContext} {ws ws' : Workspace P} {job job' : RekeyingJob P}
    (h : rekeyBranch ctx ws job = some (ws', job'))
    (hmeta : ∀ pba ∈ ws.pools.metaPbas, pba ≠ 0)
    (hkept : job.firstSnapshot = true ∨ job.Filled) :
    job'.Filled ∧ ∀ pba ∈ ws'.pools.metaPbas, pba ≠ 0 := by
  have hframe := rekeyBranch_frame h
  unfold rekeyBranch at h
  obtain ⟨⟨stop, job₁⟩, hdesc, h⟩ := Option.bind_eq_some_iff.mp h
  obtain ⟨⟨ws₂, job₂⟩, halloc, h⟩ := Option.map_eq_some_iff.mp h
  obtain ⟨rfl, rfl⟩ := Prod.mk.inj h
  have hask := rekeyDescend_countable hkept hdesc
    { walk := fun _ => type1NodeInvalid, newPbas := job₁.newPbas, nrOfBlks := 0 } rfl
  obtain ⟨hfilled, hmeta'⟩ := rekeyAlloc_filled halloc hmeta hask.2
  refine ⟨fun lvl hlvl => ?_, hmeta'⟩
  have hsnap : job₂.snapshot = job.snapshot :=
    (rekeyAlloc_frame halloc).snapshot.trans (rekeyDescend_frame hdesc).snapshot
  rw [hframe.snapshot] at hlvl
  dsimp only
  rw [rekeyClimb_newPbas]
  show (rekeyLeaf stop ws₂.store job₂).2.newPbas lvl ≠ 0
  rw [rekeyLeaf_newPbas]
  exact hfilled lvl (by rw [hsnap]; exact hlvl)

/-- **Older snapshots are not deeper**: the tree only grows. -/
def Layered (snaps : Snapshots) : Prop :=
  ∀ i j, (snaps i).valid = true → (snaps j).valid = true → (snaps i).gen < (snaps j).gen →
    (snaps i).maxLevel ≤ (snaps j).maxLevel

/-- A step only gives snapshots new roots. -/
theorem Layered.relocated {snaps snaps' : Snapshots} (h : Layered snaps)
    (hr : Relocated snaps snaps') : Layered snaps' := by
  intro i j hi hj hlt
  rw [hr.valid] at hi hj
  rw [hr.gen, hr.gen] at hlt
  rw [hr.maxLevel, hr.maxLevel]
  exact h i j hi hj hlt

/-- So does the purge leave the depths. -/
theorem Layered.discardDisposableSnapshots {snaps : Snapshots} (h : Layered snaps) (a b : ℕ) :
    Layered (Cbe.discardDisposableSnapshots snaps a b) := by
  intro i j hi hj hlt
  rw [discardDisposableSnapshots_gen, discardDisposableSnapshots_gen] at hlt
  rw [discardDisposableSnapshots_eq snaps a b i, discardDisposableSnapshots_eq snaps a b j]
  exact h i j (discardDisposableSnapshots_valid hi) (discardDisposableSnapshots_valid hj) hlt

/-- The snapshots that are left ask for what can be counted. -/
theorem rekeySnapshotsAsks_countable {ctx : AllocContext} {n : ℕ} {ws : Workspace P}
    {job : RekeyingJob P} (hmeta : ∀ pba ∈ ws.pools.metaPbas, pba ≠ 0)
    (hlayered : Layered job.snapshots) (hvalid : job.snapshot.valid = true)
    (hfilled : job.Filled) :
    ∀ ask ∈ rekeySnapshotsAsks ctx n ws job, RekeyingJob.AsksCountable ask := by
  induction n generalizing ws job with
  | zero => exact fun ask h => absurd h (List.not_mem_nil)
  | succ n ih =>
    intro ask hask
    unfold rekeySnapshotsAsks at hask
    have hr := rekeySetRoot_relocated job
    dsimp only at hask
    split at hask
    · exact absurd hask (List.not_mem_nil)
    · rename_i i hnext
      obtain ⟨-, ⟨hv, -, hgen⟩, -⟩ := Selection.firstMax_spec hnext
      have hlay := hlayered.relocated hr
      have hlower : ((rekeySetRoot job).snapshots i).maxLevel ≤ job.snapshot.maxLevel := by
        have hcurr : ((rekeySetRoot job).snapshots job.snapshotIdx).maxLevel
            = job.snapshot.maxLevel := hr.maxLevel job.snapshotIdx
        rw [← hcurr]
        refine hlay i job.snapshotIdx hv ?_ hgen
        rw [hr.valid]
        exact hvalid
      have hfilled' : RekeyingJob.Filled { rekeySetRoot job with
          snapshotIdx := i
          firstSnapshot := false
          t1BlkIdx := ((rekeySetRoot job).snapshots i).maxLevel } :=
        fun lvl hlvl => hfilled lvl (hlvl.trans hlower)
      split_ifs at hask
      · refine ih hmeta ?_ ?_ hfilled' ask hask
        · exact hlay
        · exact hv
      · rcases List.mem_append.mp hask with hask | hask
        · exact rekeyBranchAsk_countable (Or.inr hfilled') (Option.mem_toList.mp hask)
        · split at hask
          · exact absurd hask (List.not_mem_nil)
          · rename_i ws₁ job₁ hbranch
            have hframe := rekeyBranch_frame hbranch
            obtain ⟨hfilled₁, hmeta₁⟩ := rekeyBranch_filled hbranch hmeta (Or.inr hfilled')
            refine ih hmeta₁ ?_ ?_ hfilled₁ ask hask
            · rw [hframe.snapshots]
              exact hlay
            · rw [hframe.snapshot]
              exact hv

/-- **A rekeying step asks for what can be counted**, in all of its snapshots. -/
theorem executeRekeyVbaAsks_countable {ctx : AllocContext} {ws : Workspace P}
    {job : RekeyingJob P} (hmeta : ∀ pba ∈ ws.pools.metaPbas, pba ≠ 0)
    (hlayered : Layered job.snapshots) :
    ∀ ask ∈ executeRekeyVbaAsks ctx ws job, RekeyingJob.AsksCountable ask := by
  intro ask hask
  unfold executeRekeyVbaAsks at hask
  have hlay := hlayered.discardDisposableSnapshots job.currGen job.lastSecuredGen
  dsimp only at hask
  split at hask
  · exact absurd hask (List.not_mem_nil)
  · rename_i i hnewest
    rcases List.mem_append.mp hask with hask | hask
    · exact rekeyBranchAsk_countable (Or.inl rfl) (Option.mem_toList.mp hask)
    · split at hask
      · exact absurd hask (List.not_mem_nil)
      · rename_i ws₁ job₁ hbranch
        have hframe := rekeyBranch_frame hbranch
        obtain ⟨hfilled₁, hmeta₁⟩ := rekeyBranch_filled hbranch hmeta (Or.inl rfl)
        refine rekeySnapshotsAsks_countable hmeta₁ ?_ ?_ hfilled₁ ask hask
        · rw [hframe.snapshots]
          exact hlay
        · rw [hframe.snapshot]
          exact (newestSnapshotIdx_spec hnewest).1

end Cbe
