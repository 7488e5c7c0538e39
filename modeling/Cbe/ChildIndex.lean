import Cbe.FreeTree
import Cbe.SuperblockCodec

/-!
# Child indices with the arithmetic of the source

The tree helper and the rekeying compute a child index by a shift and a mask,
on unsigned numbers of a fixed width; the free tree computes the first and the
last virtual block address below a node by masks as well, and the greatest
address of a tree is a power of the degree. The initializer and the check use
the degree itself as the radix.

The two agree for a degree that is a power of two. For any other degree the
shift uses a smaller radix, so that two addresses of a tree select the same
path; and with the greatest degree and six levels above the leaves, the powers
leave the type of the addresses (`childIndicesAreDigits_iff`).
-/

namespace Cbe

/-- `Tree_Max_Degree_Log_2`; the least logarithm is 0. -/
abbrev treeMaxDegreeLog2 : ℕ := 6

/-- `Log_2`: the loop over the bits, the highest one first. -/
def log2 (value : BitVec 32) : Option ℕ :=
  if value = 0 then none
  else (List.range 32).reverse.find? fun bitIndex => value &&& (1 : BitVec 32) <<< bitIndex ≠ 0

/-- The conversion to `Natural`. -/
def toNatural (n : BitVec 32) : Option ℕ := toRange 0 (2 ^ 31 - 1) n.toNat

/-- The conversion of a degree to its logarithm. -/
def degreeLog2 (degr : ℕ) : Option ℕ :=
  (log2 (BitVec.ofNat 32 degr)).bind (toRange 0 treeMaxDegreeLog2)

/-- The mask that belongs to the logarithm of a degree. -/
def degreeMask (degrLog2 : ℕ) : Option ℕ :=
  toRange 0 (2 ^ treeMaxDegreeLog2 - 1) ((1 : BitVec 32) <<< degrLog2 - 1).toNat

/-- The address shifted down to a level, and masked. -/
def shiftAndMask (degrLog2 degrMask vba lvl : ℕ) : Option ℕ := do
  let amount ← toNatural (BitVec.ofNat 32 degrLog2 * (BitVec.ofNat 32 lvl - 1))
  toRange 0 (nodesPerBlock - 1) (BitVec.ofNat 64 vba >>> amount &&& BitVec.ofNat 64 degrMask).toNat

namespace TreeHelper

/-- `Tree_Helper.Object_Type`. -/
structure Object where
  /-- How many children a node has. -/
  degree : ℕ
  /-- The level of the root. -/
  maxLevel : ℕ
  /-- The number of leaves. -/
  leafs : ℕ
  /-- The logarithm of the degree. -/
  degreeLog2 : ℕ
  /-- The mask of a child index. -/
  degreeMask : ℕ

/-- `Tree_Helper.Initialized_Object`. -/
def initializedObject (degr maxLvl lfs : ℕ) : Option Object := do
  let degrLog2 ← Cbe.degreeLog2 degr
  let degrMask ← Cbe.degreeMask degrLog2
  some {
    degree := degr
    maxLevel := maxLvl
    leafs := lfs
    degreeLog2 := degrLog2
    degreeMask := degrMask }

/-- `Tree_Helper.Index`. -/
def index (obj : Object) (vba level : ℕ) : Option ℕ :=
  shiftAndMask obj.degreeLog2 obj.degreeMask vba level

end TreeHelper

namespace VbdRekeying

/-- `VBD_Rekeying.Child_Idx_For_VBA`, for a level above the leaves. -/
def childIdxForVba (vba lvl degr : ℕ) : Option ℕ := do
  let lvl ← toRange 1 treeMaxMaxLevel lvl
  let degrLog2 ← degreeLog2 degr
  let degrMask ← degreeMask degrLog2
  shiftAndMask degrLog2 degrMask vba lvl

/-- `Tree_Max_Max_VBA`. A power beyond the base type of the addresses is beyond
their range as well. -/
def treeMaxMaxVba (degree maxLvlIdx : ℕ) : Option ℕ :=
  toRange 0 treeMaxNumberOfLeafs (degree ^ maxLvlIdx - 1)

end VbdRekeying

namespace NewFreeTree

/-- `VBD_Node_Lowest_VBA`. -/
def vbdNodeLowestVba (vbdDegreeLog2 vbdLevel vbdLeafVba : ℕ) : Option ℕ := do
  let amount ← toNatural (BitVec.ofNat 32 vbdDegreeLog2 * BitVec.ofNat 32 vbdLevel)
  toRange 0 treeMaxNumberOfLeafs
    (BitVec.ofNat 64 vbdLeafVba &&& BitVec.allOnes 64 <<< amount).toNat

/-- `VBD_Node_Nr_Of_VBAs`. -/
def vbdNodeNrOfVbas (vbdDegreeLog2 vbdLevel : ℕ) : Option ℕ :=
  toRange 0 treeMaxNumberOfLeafs ((1 : BitVec 64) <<< (vbdLevel * vbdDegreeLog2)).toNat

/-- `VBD_Node_Highest_VBA`. -/
def vbdNodeHighestVba (vbdDegreeLog2 vbdLevel vbdLeafVba : ℕ) : Option ℕ := do
  let lowest ← vbdNodeLowestVba vbdDegreeLog2 vbdLevel vbdLeafVba
  let nrOfVbas ← vbdNodeNrOfVbas vbdDegreeLog2 vbdLevel
  toRange 0 treeMaxNumberOfLeafs (lowest + nrOfVbas - 1)

end NewFreeTree

/-! ## What the arithmetic computes -/

theorem toRange_of_le {first last n : ℕ} (hfirst : first ≤ n) (hlast : n ≤ last) :
    toRange first last n = some n := if_pos ⟨hfirst, hlast⟩

theorem log2_le {degree : ℕ} (h : DegreeAdmitted degree) : Nat.log2 degree ≤ treeMaxDegreeLog2 := by
  have hlt : Nat.log2 degree < treeMaxDegreeLog2 + 1 :=
    (Nat.log2_lt (Nat.one_le_iff_ne_zero.mp h.1)).mpr (lt_of_le_of_lt h.2 (by decide))
  exact Nat.le_of_lt_succ hlt

/-- **The loop over the bits computes the logarithm.** -/
theorem degreeLog2_eq {degree : ℕ} (h : DegreeAdmitted degree) :
    degreeLog2 degree = some (Nat.log2 degree) := by
  have hall : ∀ d : Fin (nodesPerBlock + 1), 1 ≤ d.val →
      log2 (BitVec.ofNat 32 d) = some (Nat.log2 d) := by decide +kernel
  unfold degreeLog2
  rw [hall ⟨degree, Nat.lt_succ_of_le h.2⟩ h.1]
  exact toRange_of_le (Nat.zero_le _) (log2_le h)

theorem degreeMask_eq {degree : ℕ} (h : DegreeAdmitted degree) :
    degreeMask (Nat.log2 degree) = some (treeRadix degree - 1) := by
  have hall : ∀ k : Fin (treeMaxDegreeLog2 + 1), degreeMask k = some (2 ^ k.val - 1) := by decide
  exact hall ⟨Nat.log2 degree, Nat.lt_succ_of_le (log2_le h)⟩

/-- **The shift and the mask compute a digit.** -/
theorem shiftAndMask_eq {degree : ℕ} (h : DegreeAdmitted degree) {vba lvl : ℕ}
    (hvba : vba ≤ treeMaxNumberOfLeafs) (hlvl : lvl < treeMaxMaxLevel) :
    shiftAndMask (Nat.log2 degree) (treeRadix degree - 1) vba (lvl + 1)
      = some (vba / treeRadix degree ^ lvl % treeRadix degree) := by
  have hamount : ∀ (k : Fin (treeMaxDegreeLog2 + 1)) (l : Fin treeMaxMaxLevel),
      toNatural (BitVec.ofNat 32 k * (BitVec.ofNat 32 (l + 1) - 1))
        = some (k.val * l.val) := by decide
  have hshift := hamount ⟨Nat.log2 degree, Nat.lt_succ_of_le (log2_le h)⟩ ⟨lvl, hlvl⟩
  have hmask : treeRadix degree - 1 < 2 ^ 64 :=
    lt_of_le_of_lt (le_trans (Nat.sub_le _ _) (treeRadix_le h)) (by decide)
  have hdigit : (BitVec.ofNat 64 vba >>> (Nat.log2 degree * lvl)
      &&& BitVec.ofNat 64 (treeRadix degree - 1)).toNat
        = vba / treeRadix degree ^ lvl % treeRadix degree := by
    rw [BitVec.toNat_and, BitVec.toNat_ushiftRight, BitVec.toNat_ofNat, BitVec.toNat_ofNat,
      Nat.mod_eq_of_lt hmask, Nat.mod_eq_of_lt (lt_of_le_of_lt hvba (by decide)),
      Nat.shiftRight_eq_div_pow, two_pow_log2_mul]
    exact Nat.and_two_pow_sub_one_eq_mod _ _
  have hlt : vba / treeRadix degree ^ lvl % treeRadix degree < nodesPerBlock :=
    lt_of_lt_of_le (Nat.mod_lt _ (treeRadix_pos degree)) (treeRadix_le h)
  unfold shiftAndMask
  rw [show toNatural _ = some (Nat.log2 degree * lvl) from hshift]
  show toRange 0 (nodesPerBlock - 1) _ = _
  rw [hdigit]
  exact toRange_of_le (Nat.zero_le _) (Nat.le_sub_one_of_lt hlt)

/-- The index function of the tree helper. -/
def treeIndex (degree maxLevel leafs vba lvl : ℕ) : Option ℕ :=
  (TreeHelper.initializedObject degree maxLevel leafs).bind fun obj => TreeHelper.index obj vba lvl

theorem treeIndex_eq {degree : ℕ} (h : DegreeAdmitted degree) (maxLevel leafs : ℕ) {vba lvl : ℕ}
    (hvba : vba ≤ treeMaxNumberOfLeafs) (hlvl : lvl < treeMaxMaxLevel) :
    treeIndex degree maxLevel leafs vba (lvl + 1)
      = some (vba / treeRadix degree ^ lvl % treeRadix degree) := by
  unfold treeIndex TreeHelper.initializedObject
  rw [degreeLog2_eq h]
  show ((degreeMask (Nat.log2 degree)).bind _).bind _ = _
  rw [degreeMask_eq h]
  exact shiftAndMask_eq h hvba hlvl

theorem VbdRekeying.childIdxForVba_eq {degree : ℕ} (h : DegreeAdmitted degree) {vba lvl : ℕ}
    (hvba : vba ≤ treeMaxNumberOfLeafs) (hlvl : lvl < treeMaxMaxLevel) :
    childIdxForVba vba (lvl + 1) degree
      = some (vba / treeRadix degree ^ lvl % treeRadix degree) := by
  unfold childIdxForVba
  rw [toRange_of_le (Nat.succ_le_succ (Nat.zero_le lvl)) hlvl, degreeLog2_eq h]
  show (degreeMask (Nat.log2 degree)).bind _ = _
  rw [degreeMask_eq h]
  exact shiftAndMask_eq h hvba hlvl

/-- The mask of the lowest address clears the digits below the level. -/
theorem NewFreeTree.vbdNodeLowestVba_eq {degree : ℕ} (h : DegreeAdmitted degree) {vba lvl : ℕ}
    (hvba : vba ≤ treeMaxNumberOfLeafs) (hlvl : lvl ≤ treeMaxMaxLevel) :
    vbdNodeLowestVba (Nat.log2 degree) lvl vba = some (Cbe.vbdNodeLowestVba degree lvl vba) := by
  have hamount : ∀ (k : Fin (treeMaxDegreeLog2 + 1)) (l : Fin (treeMaxMaxLevel + 1)),
      toNatural (BitVec.ofNat 32 k * BitVec.ofNat 32 l) = some (k.val * l.val) := by decide
  have hmul := hamount ⟨Nat.log2 degree, Nat.lt_succ_of_le (log2_le h)⟩
    ⟨lvl, Nat.lt_succ_of_le hlvl⟩
  have hle : Cbe.vbdNodeLowestVba degree lvl vba ≤ vba := Nat.div_mul_le_self _ _
  have hfit : Cbe.vbdNodeLowestVba degree lvl vba < 2 ^ 64 :=
    lt_of_le_of_lt (le_trans hle hvba) (by decide)
  have hmask : (BitVec.ofNat 64 vba &&& BitVec.allOnes 64 <<< (Nat.log2 degree * lvl)).toNat
      = Cbe.vbdNodeLowestVba degree lvl vba := by
    rw [← BitVec.shiftLeft_ushiftRight, BitVec.toNat_shiftLeft, BitVec.toNat_ushiftRight,
      BitVec.toNat_ofNat, Nat.mod_eq_of_lt (lt_of_le_of_lt hvba (by decide)),
      Nat.shiftRight_eq_div_pow, Nat.shiftLeft_eq]
    exact Nat.mod_eq_of_lt hfit
  unfold vbdNodeLowestVba
  rw [show toNatural _ = some (Nat.log2 degree * lvl) from hmul]
  show toRange 0 treeMaxNumberOfLeafs _ = _
  rw [hmask]
  exact toRange_of_le (Nat.zero_le _) (le_trans hle hvba)

/-- The number of addresses below a node, where it is one of the type. -/
theorem NewFreeTree.vbdNodeNrOfVbas_eq {degree : ℕ} (h : DegreeAdmitted degree) {lvl : ℕ}
    (hlvl : lvl ≤ treeMaxMaxLevel) :
    vbdNodeNrOfVbas (Nat.log2 degree) lvl
      = toRange 0 treeMaxNumberOfLeafs (Cbe.vbdNodeNrOfVbas degree lvl) := by
  have hall : ∀ (k : Fin (treeMaxDegreeLog2 + 1)) (l : Fin (treeMaxMaxLevel + 1)),
      ((1 : BitVec 64) <<< (l.val * k.val)).toNat = 2 ^ (l.val * k.val) := by decide
  exact congrArg (toRange 0 treeMaxNumberOfLeafs)
    (hall ⟨Nat.log2 degree, Nat.lt_succ_of_le (log2_le h)⟩ ⟨lvl, Nat.lt_succ_of_le hlvl⟩)

theorem vbdNodeNrOfVbas_eq_pow (degree lvl : ℕ) :
    vbdNodeNrOfVbas degree lvl = treeRadix degree ^ lvl := by
  unfold vbdNodeNrOfVbas
  rw [Nat.mul_comm, two_pow_log2_mul]

/-- The addresses between the first and the last one of a node are those below
it. -/
theorem mem_node_iff (degree lvl vba w : ℕ) :
    vbdNodeLowestVba degree lvl vba ≤ w ∧ w ≤ vbdNodeHighestVba degree lvl vba
      ↔ sameNode degree lvl w vba := by
  have hpos : 0 < treeRadix degree ^ lvl := Nat.pow_pos (treeRadix_pos degree)
  unfold vbdNodeHighestVba vbdNodeLowestVba sameNode
  rw [vbdNodeNrOfVbas_eq_pow, two_pow_log2_mul, Nat.div_eq_iff hpos]

/-! ## The digits of an address -/

/-- The virtual block addresses of a tree. -/
def VbaOfTree (degree maxLevel vba : ℕ) : Prop :=
  vba < degree ^ maxLevel ∧ vba ≤ treeMaxNumberOfLeafs

instance (degree maxLevel vba : ℕ) : Decidable (VbaOfTree degree maxLevel vba) :=
  inferInstanceAs (Decidable (_ ∧ _))

/-- The way of an address from the root down to the node of a level is that of
another address. -/
def SameWay (degree maxLevel lvl w vba : ℕ) : Prop :=
  ∀ l, lvl < l → l ≤ maxLevel →
    VbdRekeying.childIdxForVba w l degree = VbdRekeying.childIdxForVba vba l degree

/-- **The child indices of a geometry are the digits of an address to the base
of the degree**: the index functions agree and compute them, different
addresses have different ways, the first and the last address of a node enclose
those below it, and no number on the way leaves its type. -/
structure ChildIndicesAreDigits (degree maxLevel : ℕ) : Prop where
  /-- The tree helper computes the digit. -/
  treeIndex : ∀ leafs vba lvl, VbaOfTree degree maxLevel vba → 1 ≤ lvl → lvl ≤ maxLevel →
    treeIndex degree maxLevel leafs vba lvl = some (vba / degree ^ (lvl - 1) % degree)
  /-- So does the rekeying. -/
  childIdx : ∀ vba lvl, VbaOfTree degree maxLevel vba → 1 ≤ lvl → lvl ≤ maxLevel →
    VbdRekeying.childIdxForVba vba lvl degree = some (vba / degree ^ (lvl - 1) % degree)
  /-- Two addresses with the same digits are the same. -/
  injective : ∀ v w, VbaOfTree degree maxLevel v → VbaOfTree degree maxLevel w →
    SameWay degree maxLevel 0 v w → v = w
  /-- The lowest and the highest address enclose those below the node. -/
  bracket : ∀ vba lvl, VbaOfTree degree maxLevel vba → lvl ≤ maxLevel →
    ∃ degrLog2 lowest nrOfVbas highest, degreeLog2 degree = some degrLog2
      ∧ NewFreeTree.vbdNodeLowestVba degrLog2 lvl vba = some lowest
      ∧ NewFreeTree.vbdNodeNrOfVbas degrLog2 lvl = some nrOfVbas
      ∧ NewFreeTree.vbdNodeHighestVba degrLog2 lvl vba = some highest
      ∧ lowest + nrOfVbas ≤ treeMaxNumberOfLeafs
      ∧ ∀ w, lowest ≤ w ∧ w ≤ highest ↔ VbaOfTree degree maxLevel w
          ∧ SameWay degree maxLevel lvl w vba
  /-- The greatest address is within its type. -/
  maxVba : degree ^ maxLevel ≤ treeMaxNumberOfLeafs
    ∧ VbdRekeying.treeMaxMaxVba degree maxLevel = some (degree ^ maxLevel - 1)

variable {degree maxLevel lvl vba v w : ℕ}

/-- The way down to a level is shared by the addresses below one node. -/
theorem sameWay_iff (h : DegreeAdmitted degree) (hmax : maxLevel ≤ treeMaxMaxLevel)
    (hcap : treeRadix degree ^ maxLevel ≤ treeMaxNumberOfLeafs) (hlvl : lvl ≤ maxLevel)
    (hw : w < treeRadix degree ^ maxLevel) (hvba : vba < treeRadix degree ^ maxLevel) :
    SameWay degree maxLevel lvl w vba ↔ sameNode degree lvl w vba := by
  have hidx : ∀ {u j : ℕ}, u < treeRadix degree ^ maxLevel → j < maxLevel →
      VbdRekeying.childIdxForVba u (j + 1) degree
        = some (u / treeRadix degree ^ j % treeRadix degree) := fun hu hj =>
    VbdRekeying.childIdxForVba_eq h (le_trans hu.le hcap) (lt_of_lt_of_le hj hmax)
  unfold sameNode
  rw [RadixTree.div_pow_eq_iff hw hvba hlvl]
  constructor
  · intro hway j hj hjm
    have hstep := hway (j + 1) (Nat.lt_succ_of_le hj) hjm
    rw [hidx hw hjm, hidx hvba hjm] at hstep
    exact Option.some.inj hstep
  · intro hdigits l hl hlm
    obtain ⟨j, rfl⟩ := Nat.exists_eq_succ_of_ne_zero (Nat.ne_zero_of_lt hl)
    rw [hidx hw hlm, hidx hvba hlm, hdigits j (Nat.le_of_lt_succ hl) hlm]

/-- Below a node there is no address beyond the room of the tree. -/
theorem vbdNodeLowestVba_add_le (hlvl : lvl ≤ maxLevel) (hvba : vba < treeRadix degree ^ maxLevel) :
    vbdNodeLowestVba degree lvl vba + vbdNodeNrOfVbas degree lvl
      ≤ treeRadix degree ^ maxLevel := by
  have hpow : treeRadix degree ^ maxLevel
      = treeRadix degree ^ (maxLevel - lvl) * treeRadix degree ^ lvl := by
    rw [← pow_add, Nat.sub_add_cancel hlvl]
  have hdiv : vba / treeRadix degree ^ lvl < treeRadix degree ^ (maxLevel - lvl) := by
    rw [Nat.div_lt_iff_lt_mul (Nat.pow_pos (treeRadix_pos degree)), ← hpow]
    exact hvba
  unfold vbdNodeLowestVba
  rw [vbdNodeNrOfVbas_eq_pow, two_pow_log2_mul, ← Nat.succ_mul, hpow]
  exact Nat.mul_le_mul_right _ hdiv

/-- **The first and the last address of a node** are computed without a raise
where the room of the tree is within the type of the addresses. -/
theorem NewFreeTree.bracket (h : DegreeAdmitted degree) (hmax : maxLevel ≤ treeMaxMaxLevel)
    (hcap : treeRadix degree ^ maxLevel ≤ treeMaxNumberOfLeafs) (hlvl : lvl ≤ maxLevel)
    (hvba : vba < treeRadix degree ^ maxLevel) :
    vbdNodeLowestVba (Nat.log2 degree) lvl vba = some (Cbe.vbdNodeLowestVba degree lvl vba)
      ∧ vbdNodeNrOfVbas (Nat.log2 degree) lvl = some (Cbe.vbdNodeNrOfVbas degree lvl)
      ∧ vbdNodeHighestVba (Nat.log2 degree) lvl vba
        = some (Cbe.vbdNodeHighestVba degree lvl vba) := by
  have hadd := le_trans (vbdNodeLowestVba_add_le hlvl hvba) hcap
  have hlowest := vbdNodeLowestVba_eq h (le_trans hvba.le hcap) (le_trans hlvl hmax)
  have hnr : vbdNodeNrOfVbas (Nat.log2 degree) lvl = some (Cbe.vbdNodeNrOfVbas degree lvl) := by
    rw [vbdNodeNrOfVbas_eq h (le_trans hlvl hmax)]
    exact toRange_of_le (Nat.zero_le _) (le_trans (Nat.le_add_left _ _) hadd)
  refine ⟨hlowest, hnr, ?_⟩
  unfold vbdNodeHighestVba
  rw [hlowest, hnr]
  exact toRange_of_le (Nat.zero_le _) (le_trans (Nat.sub_le _ _) hadd)

/-- With a power of two as the degree, the room of a tree is that of its radix. -/
theorem treeRadix_pow (hr : maxLevel = 0 ∨ treeRadix degree = degree) :
    treeRadix degree ^ maxLevel = degree ^ maxLevel := by
  cases hr with
  | inl hzero => rw [hzero, pow_zero, pow_zero]
  | inr hpow => rw [hpow]

/-- **A power of two with its power in the type of the addresses** as the degree
has the digits as child indices. -/
theorem ChildIndicesAreDigits.of_radix (h : DegreeAdmitted degree)
    (hmax : maxLevel ≤ treeMaxMaxLevel) (hr : maxLevel = 0 ∨ treeRadix degree = degree)
    (hcap : degree ^ maxLevel ≤ treeMaxNumberOfLeafs) : ChildIndicesAreDigits degree maxLevel := by
  have hpow := treeRadix_pow hr
  have hradixCap : treeRadix degree ^ maxLevel ≤ treeMaxNumberOfLeafs := by
    rw [hpow]
    exact hcap
  have hroom : ∀ {u}, VbaOfTree degree maxLevel u ↔ u < treeRadix degree ^ maxLevel := by
    intro u
    rw [hpow]
    exact ⟨And.left, fun hu => ⟨hu, le_trans hu.le hcap⟩⟩
  have hradix : ∀ {l}, 1 ≤ l → l ≤ maxLevel → treeRadix degree = degree := fun hl hlm =>
    hr.resolve_left (Nat.one_le_iff_ne_zero.mp (le_trans hl hlm))
  constructor
  case treeIndex =>
    intro leafs u l hu hl hlm
    obtain ⟨j, rfl⟩ := Nat.exists_eq_add_of_le' hl
    rw [treeIndex_eq h maxLevel leafs hu.2 (le_trans hlm hmax), hradix hl hlm]
    rfl
  case childIdx =>
    intro u l hu hl hlm
    obtain ⟨j, rfl⟩ := Nat.exists_eq_add_of_le' hl
    rw [VbdRekeying.childIdxForVba_eq h hu.2 (le_trans hlm hmax), hradix hl hlm]
    rfl
  case injective =>
    intro u u' hu hu' hway
    exact sameNode_zero.mp
      ((sameWay_iff h hmax hradixCap (Nat.zero_le _) (hroom.mp hu) (hroom.mp hu')).mp hway)
  case bracket =>
    intro u l hu hlm
    obtain ⟨hlowest, hnr, hhighest⟩ := NewFreeTree.bracket h hmax hradixCap hlm (hroom.mp hu)
    refine ⟨_, _, _, _, degreeLog2_eq h, hlowest, hnr, hhighest,
      le_trans (vbdNodeLowestVba_add_le hlm (hroom.mp hu)) hradixCap, fun u' => ?_⟩
    rw [mem_node_iff]
    constructor
    · intro hnode
      have hu' : u' < treeRadix degree ^ maxLevel := hnode.symm.lt hlm (hroom.mp hu)
      exact ⟨hroom.mpr hu', (sameWay_iff h hmax hradixCap hlm hu' (hroom.mp hu)).mpr hnode⟩
    · rintro ⟨hu', hway⟩
      exact (sameWay_iff h hmax hradixCap hlm (hroom.mp hu') (hroom.mp hu)).mp hway
  case maxVba =>
    exact ⟨hcap, toRange_of_le (Nat.zero_le _) (le_trans (Nat.sub_le _ _) hcap)⟩

/-- Beyond the room of the radix, the ways start over: the first address there
has the way of address zero. -/
theorem sameWay_pow (h : DegreeAdmitted degree) (hmax : maxLevel ≤ treeMaxMaxLevel)
    (hcap : treeRadix degree ^ maxLevel ≤ treeMaxNumberOfLeafs) :
    SameWay degree maxLevel 0 (treeRadix degree ^ maxLevel) 0 := by
  intro l hl hlm
  obtain ⟨j, rfl⟩ := Nat.exists_eq_succ_of_ne_zero (Nat.ne_zero_of_lt hl)
  have hj : j < treeMaxMaxLevel := le_trans hlm hmax
  have hdvd : treeRadix degree ∣ treeRadix degree ^ maxLevel / treeRadix degree ^ j := by
    rw [Nat.pow_div (Nat.le_of_succ_le hlm) (treeRadix_pos degree)]
    exact dvd_pow_self _ (Nat.sub_ne_zero_of_lt hlm)
  rw [VbdRekeying.childIdxForVba_eq h hcap hj, VbdRekeying.childIdxForVba_eq h (Nat.zero_le _) hj,
    Nat.mod_eq_zero_of_dvd hdvd, Nat.zero_div, Nat.zero_mod]

/-- **The child indices are the digits of an address** exactly for the trees of
a single node and for the degrees that are a power of two, as long as the room
of the tree is within the type of the addresses. -/
theorem childIndicesAreDigits_iff (h : DegreeAdmitted degree) (hmax : maxLevel ≤ treeMaxMaxLevel) :
    ChildIndicesAreDigits degree maxLevel
      ↔ (maxLevel = 0 ∨ treeRadix degree = degree) ∧ degree ^ maxLevel ≤ treeMaxNumberOfLeafs := by
  constructor
  · intro hdigits
    have hcap := hdigits.maxVba.1
    refine ⟨?_, hcap⟩
    by_contra hne
    obtain ⟨hzero, hradix⟩ := not_or.mp hne
    have hlt : treeRadix degree < degree :=
      lt_of_le_of_ne (Nat.log2_self_le (Nat.one_le_iff_ne_zero.mp h.1)) hradix
    have hpow : treeRadix degree ^ maxLevel < degree ^ maxLevel :=
      Nat.pow_lt_pow_left hlt hzero
    have hradixCap := le_trans hpow.le hcap
    have heq := hdigits.injective (treeRadix degree ^ maxLevel) 0 ⟨hpow, hradixCap⟩
      ⟨Nat.pow_pos h.1, Nat.zero_le _⟩ (sameWay_pow h hmax hradixCap)
    exact absurd heq (Nat.pow_pos (treeRadix_pos degree)).ne'
  · rintro ⟨hr, hcap⟩
    exact ChildIndicesAreDigits.of_radix h hmax hr hcap

/-- The widest degree with five levels above the leaves. -/
theorem childIndicesAreDigits_widest : ChildIndicesAreDigits 64 5 :=
  (childIndicesAreDigits_iff ⟨by decide, by decide⟩ (by decide)).mpr ⟨.inr (by decide), by decide⟩

/-- **A tree of degree three**: its addresses 0 and 2 have the same way. -/
theorem not_childIndicesAreDigits :
    ¬ ∀ degree maxLevel, DegreeAdmitted degree → maxLevel ≤ treeMaxMaxLevel →
      ChildIndicesAreDigits degree maxLevel := by
  intro hall
  have hdigits := hall 3 1 ⟨by decide, by decide⟩ (by decide)
  have hway : SameWay 3 1 0 0 2 := by
    intro l hl hlm
    rw [Nat.le_antisymm hlm hl]
    decide
  exact absurd (hdigits.injective 0 2 (by decide) (by decide) hway) (by decide)

end Cbe
