import Cbe.SuperblockControl

/-!
# Startup

`Execute_Initialize` reads the eight superblock slots one after the other,
compares the generation of each valid one with that of the slot chosen so
far, reads the chosen slot once more and adopts it.

The comparison keeps the *smaller* generation and raises when a slot repeats
the generation of the chosen one (`loadedSlot_spec`,
`loadedSlot_eq_none_of_repeated`); the sibling loop of the check library keeps
the greater one. The slot adopted is also the one the next superblock is
written to (`executeInitialize_sbIdx`).
-/

namespace Cbe

/-- The fields of the initialization job that the scan of the slots uses. -/
structure InitializeJob where
  /-- Whether a valid superblock was found. -/
  sbFound : Bool
  /-- Its generation. -/
  generation : ℕ
  /-- Its slot. -/
  sbIdx : SuperblocksIndex
  deriving DecidableEq

/-- The generation by which startup orders the slots: that of the newest
snapshot. It raises when the superblock has no valid snapshot. -/
def sbGeneration (ct : SuperblockCiphertext) : Option ℕ :=
  (newestSnapshotIdx ct.snapshots).map fun i => (ct.snapshots i).gen

/-- `Read_SB_Completed`, for the slot `i`. -/
def readSbCompleted (slots : SuperblocksIndex → SuperblockCiphertext)
    (job : InitializeJob) (i : SuperblocksIndex) : Option InitializeJob :=
  if (slots i).Valid then
    (sbGeneration (slots i)).bind fun gen =>
      if job.sbFound = true then
        if job.generation > gen then
          some { job with generation := gen, sbIdx := i }
        else if job.generation = gen then none
        else some job
      else some { sbFound := true, generation := gen, sbIdx := i }
  else some job

/-- The scan over all slots, and the raise when it found none. -/
def selectSuperblock (slots : SuperblocksIndex → SuperblockCiphertext) :
    Option InitializeJob :=
  ((List.finRange nrOfSuperblockSlots).foldlM (readSbCompleted slots)
    { sbFound := false, generation := 0, sbIdx := 0 }).bind fun job =>
      if job.sbFound = true then some job else none

/-- The slot that is read back as the current superblock. -/
def loadedSlot (slots : SuperblocksIndex → SuperblockCiphertext) :
    Option SuperblocksIndex :=
  (selectSuperblock slots).map InitializeJob.sbIdx

/-- The superblock in memory after the keys were decrypted: the previous key
only while rekeying. -/
def adoptSuperblock (P : Platform) (ct : SuperblockCiphertext) : Option Superblock :=
  let sb := { initSbWithoutKeyValues ct with
    currentKey := { ct.currentKey with value := P.decryptKey ct.currentKey.value } }
  match ct.state with
  | .invalid => none
  | .rekeying =>
    some { sb with
      previousKey := { ct.previousKey with value := P.decryptKey ct.previousKey.value } }
  | _ => some sb

/-- **`Execute_Initialize`**, on the content of the eight slots. -/
def executeInitialize (P : Platform) (slots : SuperblocksIndex → SuperblockCiphertext) :
    Option Control :=
  (selectSuperblock slots).bind fun job =>
    (adoptSuperblock P (slots job.sbIdx)).bind fun sb =>
      if sb.freeMaxLevel < freeTreeMinMaxLevel then none
      else
        some { sb := sb, sbIdx := job.sbIdx, currGen := nextGeneration job.generation }

/-! ## What the scan selects

The scan keeps one slot and its generation. -/

/-- What the scan knows after the slots `seen`: the chosen slot is one of
them, it is valid and its generation is strictly below that of every other
valid one. -/
structure ScanInvariant (slots : SuperblocksIndex → SuperblockCiphertext)
    (seen : List SuperblocksIndex) (job : InitializeJob) : Prop where
  /-- What was found is a valid superblock that was seen. -/
  found : job.sbFound = true →
    job.sbIdx ∈ seen ∧ (slots job.sbIdx).Valid
      ∧ sbGeneration (slots job.sbIdx) = some job.generation
  /-- Every valid one has a greater generation. -/
  least : ∀ i ∈ seen, (slots i).Valid → job.sbFound = true
    ∧ (i = job.sbIdx ∨ ∃ g, sbGeneration (slots i) = some g ∧ job.generation < g)

/-- **Reading one more slot keeps the scan's invariant.** A generation equal
to the chosen one raises, so what survives is strict. -/
theorem ScanInvariant.readSbCompleted
    {slots : SuperblocksIndex → SuperblockCiphertext} {seen : List SuperblocksIndex}
    {job job' : InitializeJob} {i : SuperblocksIndex}
    (h : ScanInvariant slots seen job)
    (hstep : Cbe.readSbCompleted slots job i = some job') :
    ScanInvariant slots (seen ++ [i]) job' := by
  unfold Cbe.readSbCompleted at hstep
  by_cases hv : (slots i).Valid
  · rw [if_pos hv] at hstep
    obtain ⟨gen, hgen, hstep⟩ := Option.bind_eq_some_iff.mp hstep
    by_cases hf : job.sbFound = true
    · rw [if_pos hf] at hstep
      split_ifs at hstep with hlt heq
      · -- a smaller generation: the slot at hand is chosen
        obtain rfl := Option.some.inj hstep
        refine ⟨fun _ => ⟨by simp, hv, hgen⟩, fun j hj hvj => ⟨hf, ?_⟩⟩
        rcases List.mem_append.mp hj with hj | hj
        · obtain ⟨-, rfl | ⟨g, hg, hlt'⟩⟩ := h.least j hj hvj
          · exact Or.inr ⟨job.generation, (h.found hf).2.2, hlt⟩
          · exact Or.inr ⟨g, hg, by simp only; omega⟩
        · exact Or.inl (by simpa using hj)
      · -- a greater generation: the choice stays
        obtain rfl := Option.some.inj hstep
        refine ⟨fun _ => ?_, fun j hj hvj => ⟨hf, ?_⟩⟩
        · obtain ⟨hmem, hrest⟩ := h.found hf
          exact ⟨by simp [hmem], hrest⟩
        · rcases List.mem_append.mp hj with hj | hj
          · exact (h.least j hj hvj).2
          · obtain rfl : j = i := by simpa using hj
            exact Or.inr ⟨gen, hgen, by omega⟩
    · -- the first valid slot
      rw [if_neg hf] at hstep
      obtain rfl := Option.some.inj hstep
      refine ⟨fun _ => ⟨by simp, hv, hgen⟩, fun j hj hvj => ⟨rfl, ?_⟩⟩
      rcases List.mem_append.mp hj with hj | hj
      · exact absurd (h.least j hj hvj).1 hf
      · exact Or.inl (by simpa using hj)
  · rw [if_neg hv] at hstep
    obtain rfl := Option.some.inj hstep
    refine ⟨fun hf => ?_, fun j hj hvj => ?_⟩
    · obtain ⟨hmem, hrest⟩ := h.found hf
      exact ⟨by simp [hmem], hrest⟩
    · rcases List.mem_append.mp hj with hj | hj
      · exact h.least j hj hvj
      · obtain rfl : j = i := by simpa using hj
        exact absurd hvj hv

/-- The whole scan keeps its invariant. -/
theorem ScanInvariant.foldlM {slots : SuperblocksIndex → SuperblockCiphertext}
    {l seen : List SuperblocksIndex} {job job' : InitializeJob}
    (h : ScanInvariant slots seen job)
    (hrun : l.foldlM (Cbe.readSbCompleted slots) job = some job') :
    ScanInvariant slots (seen ++ l) job' := by
  induction l generalizing seen job with
  | nil =>
    obtain rfl := Option.some.inj hrun
    simpa using h
  | cons i l ih =>
    rw [List.foldlM_cons] at hrun
    obtain ⟨job₁, hstep, hrun⟩ := Option.bind_eq_some_iff.mp hrun
    have := ih (h.readSbCompleted hstep) hrun
    simpa using this

/-- The slot found holds the invariant with respect to all slots. -/
theorem selectSuperblock_spec {slots : SuperblocksIndex → SuperblockCiphertext}
    {job : InitializeJob} (h : selectSuperblock slots = some job) :
    job.sbFound = true
      ∧ ScanInvariant slots (List.finRange nrOfSuperblockSlots) job := by
  unfold selectSuperblock at h
  obtain ⟨job₁, hrun, h⟩ := Option.bind_eq_some_iff.mp h
  split_ifs at h with hf
  obtain rfl := Option.some.inj h
  have hinit : ScanInvariant slots []
      { sbFound := false, generation := 0, sbIdx := 0 } := ⟨by simp, by simp⟩
  exact ⟨hf, by simpa using hinit.foldlM hrun⟩

/-- **Startup loads the oldest state**: the slot it loads is valid and its
generation is strictly below that of every other valid slot. -/
theorem loadedSlot_spec {slots : SuperblocksIndex → SuperblockCiphertext}
    {i : SuperblocksIndex} (h : loadedSlot slots = some i) :
    ∃ g, (slots i).Valid ∧ sbGeneration (slots i) = some g
      ∧ ∀ j, (slots j).Valid → j ≠ i → ∃ g', sbGeneration (slots j) = some g' ∧ g < g' := by
  obtain ⟨job, hjob, rfl⟩ := Option.map_eq_some_iff.mp h
  obtain ⟨hf, hinv⟩ := selectSuperblock_spec hjob
  obtain ⟨-, hv, hg⟩ := hinv.found hf
  refine ⟨job.generation, hv, hg, fun j hj hne => ?_⟩
  exact (hinv.least j (List.mem_finRange j) hj).2.resolve_left hne

/-- **Startup raises on a repeated oldest generation.** -/
theorem loadedSlot_eq_none_of_repeated
    {slots : SuperblocksIndex → SuperblockCiphertext} {i j : SuperblocksIndex} {g : ℕ}
    (hij : i ≠ j) (hi : (slots i).Valid) (hj : (slots j).Valid)
    (hgi : sbGeneration (slots i) = some g) (hgj : sbGeneration (slots j) = some g)
    (hmin : ∀ k g', (slots k).Valid → sbGeneration (slots k) = some g' → g ≤ g') :
    loadedSlot slots = none := by
  rw [Option.eq_none_iff_forall_ne_some]
  intro k hk
  obtain ⟨gk, hkv, hkg, hlt⟩ := loadedSlot_spec hk
  have hle : g ≤ gk := hmin k gk hkv hkg
  -- at least one of the two slots is not the one loaded, and it is not above it
  have habove : ∀ l, (slots l).Valid → sbGeneration (slots l) = some g → l = k := by
    intro l hl hgl
    by_contra hne
    obtain ⟨g', hg', hlt'⟩ := hlt l hl hne
    rw [hgl] at hg'
    obtain rfl := Option.some.inj hg'
    omega
  exact hij ((habove i hi hgi).trans (habove j hj hgj).symm)

/-- One more slot is read if its generation is known and no slot seen so far
has it. -/
theorem ScanInvariant.readSbCompleted_isSome
    {slots : SuperblocksIndex → SuperblockCiphertext} {seen : List SuperblocksIndex}
    {job : InitializeJob} {i : SuperblocksIndex} (h : ScanInvariant slots seen job)
    (hgen : (slots i).Valid → (sbGeneration (slots i)).isSome = true)
    (hdistinct : ∀ j ∈ seen, (slots j).Valid → (slots i).Valid →
      sbGeneration (slots j) ≠ sbGeneration (slots i)) :
    (Cbe.readSbCompleted slots job i).isSome = true := by
  unfold Cbe.readSbCompleted
  split_ifs with hv hf
  · obtain ⟨gen, hg⟩ := Option.isSome_iff_exists.mp (hgen hv)
    obtain ⟨hmem, hvj, hgj⟩ := h.found hf
    have hne : job.generation ≠ gen := by
      rintro rfl
      exact hdistinct job.sbIdx hmem hvj hv (hgj.trans hg.symm)
    rw [hg, Option.bind_some, if_neg hne]
    split_ifs <;> rfl
  · obtain ⟨gen, hg⟩ := Option.isSome_iff_exists.mp (hgen hv)
    rw [hg]
    rfl
  · rfl

/-- The scan goes through slots of distinct generations. -/
theorem ScanInvariant.foldlM_isSome {slots : SuperblocksIndex → SuperblockCiphertext}
    (hgen : ∀ i, (slots i).Valid → (sbGeneration (slots i)).isSome = true)
    (hdistinct : ∀ i j, i ≠ j → (slots i).Valid → (slots j).Valid →
      sbGeneration (slots i) ≠ sbGeneration (slots j))
    {l seen : List SuperblocksIndex} {job : InitializeJob} (h : ScanInvariant slots seen job)
    (hnodup : (seen ++ l).Nodup) :
    (l.foldlM (Cbe.readSbCompleted slots) job).isSome = true := by
  induction l generalizing seen job with
  | nil => rfl
  | cons i l ih =>
    have hnew : i ∉ seen := fun hi =>
      (List.nodup_append.mp hnodup).2.2 i hi i (List.mem_cons_self ..) rfl
    have hread := h.readSbCompleted_isSome (hgen i) fun j hj hvj hvi =>
      hdistinct j i (fun heq => hnew (heq ▸ hj)) hvj hvi
    obtain ⟨job', hjob'⟩ := Option.isSome_iff_exists.mp hread
    rw [List.foldlM_cons, hjob']
    refine ih (h.readSbCompleted hjob') ?_
    rw [List.append_assoc]
    exact hnodup

/-- **Startup can order slots of distinct generations**: if there is a valid slot
it loads one. -/
theorem loadedSlot_isSome {slots : SuperblocksIndex → SuperblockCiphertext}
    (hgen : ∀ i, (slots i).Valid → (sbGeneration (slots i)).isSome = true)
    (hdistinct : ∀ i j, i ≠ j → (slots i).Valid → (slots j).Valid →
      sbGeneration (slots i) ≠ sbGeneration (slots j))
    (hvalid : ∃ i, (slots i).Valid) : (loadedSlot slots).isSome = true := by
  have hinit : ScanInvariant slots []
      { sbFound := false, generation := 0, sbIdx := 0 } := ⟨by simp, by simp⟩
  have hscan : ((List.finRange nrOfSuperblockSlots).foldlM (Cbe.readSbCompleted slots)
      { sbFound := false, generation := 0, sbIdx := 0 }).isSome = true :=
    hinit.foldlM_isSome hgen hdistinct (List.nodup_finRange nrOfSuperblockSlots)
  obtain ⟨job, hrun⟩ := Option.isSome_iff_exists.mp hscan
  obtain ⟨i, hi⟩ := hvalid
  have hfound : job.sbFound = true :=
    ((hinit.foldlM hrun).least i (List.mem_finRange i) hi).1
  unfold loadedSlot selectSuperblock
  rw [hrun, Option.bind_some, if_pos hfound]
  rfl

/-! ## What is adopted

The chosen slot is read a second time, and its keys are decrypted. -/

/-- What an initialization leaves: the adopted slot, and the generation after
the one of that slot. -/
theorem executeInitialize_spec {P : Platform}
    {slots : SuperblocksIndex → SuperblockCiphertext} {c : Control}
    (h : executeInitialize P slots = some c) :
    ∃ job, selectSuperblock slots = some job
      ∧ adoptSuperblock P (slots job.sbIdx) = some c.sb
      ∧ c.sbIdx = job.sbIdx ∧ c.currGen = nextGeneration job.generation := by
  unfold executeInitialize at h
  obtain ⟨job, hjob, h⟩ := Option.bind_eq_some_iff.mp h
  obtain ⟨sb, hsb, h⟩ := Option.bind_eq_some_iff.mp h
  split_ifs at h
  obtain rfl := Option.some.inj h
  exact ⟨job, hjob, hsb, rfl, rfl⟩

/-- **The next superblock goes to the slot just loaded.** -/
theorem executeInitialize_sbIdx {P : Platform}
    {slots : SuperblocksIndex → SuperblockCiphertext} {c : Control}
    (h : executeInitialize P slots = some c) : loadedSlot slots = some c.sbIdx := by
  obtain ⟨job, hjob, -, hidx, -⟩ := executeInitialize_spec h
  rw [loadedSlot, hjob, hidx]
  rfl

/-- The adopted superblock has the snapshot table of the slot. -/
theorem adoptSuperblock_snapshots {P : Platform} {ct : SuperblockCiphertext}
    {sb : Superblock} (h : adoptSuperblock P ct = some sb) :
    sb.snapshots = ct.snapshots ∧ sb.currSnap = ct.currSnap
      ∧ sb.lastSecuredGeneration = ct.lastSecuredGeneration ∧ sb.state = ct.state := by
  unfold adoptSuperblock at h
  split at h
  · exact absurd h (by simp)
  all_goals
    obtain rfl := Option.some.inj h
    exact ⟨rfl, rfl, rfl, rfl⟩

/-! ## Startup from the newest state

What the scan would have to select, and when it does. -/

/-- **Startup from the newest state**: the slot loaded is a valid one whose
current snapshot has the greatest generation of all valid slots, the next
superblock goes to another slot, and the current generation is above every
generation in any valid slot. -/
def StartsFromNewest (P : Platform) (slots : SuperblocksIndex → SuperblockCiphertext) :
    Prop :=
  ∃ i c, loadedSlot slots = some i ∧ executeInitialize P slots = some c
    ∧ (slots i).Valid
    ∧ (∀ j, (slots j).Valid → (slots j).curr.gen ≤ (slots i).curr.gen)
    ∧ c.sbIdx ≠ i
    ∧ ∀ j, (slots j).Valid → (slots j).curr.gen < c.currGen

/-- **No content of the slots makes startup load the newest state and spare
its slot.** -/
theorem not_startsFromNewest (P : Platform)
    (slots : SuperblocksIndex → SuperblockCiphertext) : ¬ StartsFromNewest P slots := by
  rintro ⟨i, c, hload, hinit, -, -, hne, -⟩
  rw [executeInitialize_sbIdx hinit] at hload
  exact hne (Option.some.inj hload)

/-- Slots 0 and 1 after two secured superblocks, of the generations 1 and 2. -/
def twoSecuredSlots : SuperblocksIndex → SuperblockCiphertext := fun i =>
  if i = 0 then Superblock.sample 1
  else if i = 1 then Superblock.sample 2
  else { Superblock.sample 0 with state := .invalid }

/-- With two secured superblocks, startup loads the older one. -/
theorem not_startsFromNewest_twoSecuredSlots :
    ¬ StartsFromNewest Platform.sample twoSecuredSlots := by
  rintro ⟨i, c, hload, -, -, hnewest, -, -⟩
  have hslot : loadedSlot twoSecuredSlots = some 0 := by decide
  rw [hslot] at hload
  obtain rfl := Option.some.inj hload
  exact absurd (hnewest 1 (by decide)) (by decide)

end Cbe
