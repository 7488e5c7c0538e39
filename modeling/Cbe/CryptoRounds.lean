import Cbe.CryptoFrontEnd

/-!
# Rounds of the client

In a round the client calls the front end and then works on the crypto module. Three things hold
of every run of rounds, whatever is offered to the crypto module in the meantime. Each primitive
that it accepted comes back once, in order, with what the device makes of it
(`served_of_rounds`). A round raises only where the pool, the client or the device refuses
(`round_eq_none_iff`). And a job that waits comes back within three rounds of a client that takes
what is ready (`delivered_of_rounds`): each round delivers the job or brings it one place further
(`CryptoWorld.left`).
-/

namespace Cbe

namespace CryptoWorld

open CryptoObject Service

variable {B : Type} {aes : Aes B} {w w' : CryptoWorld B} {s : Submission B} {item : CryptoItem}

/-- **A round** leads from a place of the job to the next. -/
theorem Carries.round (h : w.Carries aes) (hscd : w.ScdWaits) {pass : Option (Pass B)}
    (hw : w.round aes pass = some w') :
    (w'.Carries aes ∧ w'.ScdWaits) ∧ w.delivered.length ≤ w'.delivered.length
      ∧ (w.Attentive pass → 0 < w.left → w.delivered.length < w'.delivered.length
        ∨ 0 < w'.left ∧ w'.left < w.left) := by
  unfold CryptoWorld.round at hw
  obtain ⟨w₁, h₁, hw⟩ := Option.bind_eq_some_iff.mp hw
  obtain ⟨hnone, -⟩ | ⟨w₁', h₁', hp⟩ := h.frontEnd hscd pass
  · exact absurd (hnone.symm.trans h₁) (by simp)
  obtain rfl := Option.some.inj (h₁.symm.trans h₁')
  obtain ⟨hnone, -⟩ | ⟨w₂, h₂, -, hh⟩ := hp.fronts.carries.outcome
  · exact absurd (hnone.symm.trans hw) (by simp)
  obtain rfl := Option.some.inj (h₂.symm.trans hw)
  rw [hh.delivered]
  refine ⟨⟨hh.carries, ?_⟩, hp.fronts.delivered, fun ha hpos => ?_⟩
  · unfold ScdWaits
    rw [hh.wait.1, hh.wait.2]
    exact hp.scdWaits
  · by_cases hone : w.left = 1
    · exact Or.inl (hp.delivered hone ha)
    -- the front end leaves a job that is under way alone, the client takes it further
    · have hlt : 1 < w.left := by omega
      have heq := hp.fronts.underway hlt
      have hleft := hh.left (by omega)
      exact Or.inr ⟨hleft.1, by omega⟩

/-- **The run lemma** of the invariant of the crypto module and of the wait. -/
theorem carries_of_run (h : Runs.Run (round aes) (fun _ _ => True) (initial aes) w) :
    w.Carries aes ∧ w.ScdWaits :=
  h.invariant (I := fun w => w.Carries aes ∧ w.ScdWaits)
    (fun _ _ _ hs _ hstep => (hs.1.round hs.2 hstep).1)
    ⟨initial_carries aes, fun hs => absurd hs Bool.false_ne_true⟩

/-- **Every crypto job is done once**, in the order in which the jobs were accepted, and goes back
to where it came from with what the device makes of it. -/
theorem served_of_rounds (h : Runs.Run (round aes) (fun _ _ => True) (initial aes) w) :
    ∃ keys waiting,
      (cryptoService aes).Served noKeys w.accepted w.delivered keys waiting := by
  cases (carries_of_run h).1 with
  | idle _ _ hist => exact ⟨_, _, hist⟩
  | waits _ _ _ _ hist => exact ⟨_, _, hist⟩
  | isAtDevice _ _ _ _ hist => exact ⟨_, _, hist⟩
  | complete _ _ _ _ hist _ => exact ⟨_, _, hist⟩

/-- A cipher to compute with. -/
def sampleAes : Aes ℕ where
  zero := 0
  encrypt key block x := x + key.toNat + block
  decrypt key block x := x - key.toNat - block

/-- A pool that has a read in progress in its slot 2. -/
def samplePool : RequestPool :=
  let job := { PoolJob.invalid with
    state := .inProgress
    req := { Request.invalidObject with
      valid := true
      offset := 8192
      count := 1 } }
  let pool := RequestPool.empty.setJob 2 job
  (pool.enqueue 2).getD pool

/-- A pass of a client that waits for a read. -/
def samplePass (before after : List (Submission ℕ)) : Option (Pass ℕ) :=
  some
    { scd := .stays, before := before, after := after
      client := { helperRead := false, helperWrite := false, frontEnd := true }
      pool := samplePool
      required := RequiredData.invalid }

/-- A key is added, a block is written under it and read back, and the key is removed. -/
def sampleRounds : List (Option (Pass ℕ)) :=
  [samplePass [.addKey 0 { value := 7, id := 1 }] [],
    samplePass [] [.writeBack 0 30 1 100],
    samplePass [.removeKey 0 1] [], samplePass [] [],
    samplePass [.read 2 0 30 1 137] [],
    samplePass [.removeKey 0 1] [], none, samplePass [.removeKey 0 1] [],
    samplePass [.removeKey 0 1] [], samplePass [] [.readInitial 2 0 31 1]]

/-- The block is stored as 137 and read as 100, and a block that was not written reads as zero. -/
theorem served_of_rounds_sample :
    let w := Runs.after (round sampleAes) (fun _ _ => True) (initial sampleAes) sampleRounds
    w.delivered.map Delivery.data = [none, some 137, some 100, none, some 0]
      ∧ ∃ keys waiting,
        (cryptoService sampleAes).Served noKeys w.accepted w.delivered keys waiting :=
  ⟨by decide +kernel, served_of_rounds (Runs.Run.after (by decide +kernel))⟩

/-- **When a round raises**: the front end is refused the data of a read or of a write
(`FrontEndRefused`), or it comes to its end and the device refuses what the client is about to do
(`Refused`): to add a key under an id that the device has, to remove one that it does not have,
or a job under a key that it does not have. The modules' offers, `Execute_Crypto` and the crypto
module never raise. -/
theorem round_eq_none_iff (h : Runs.Run (round aes) (fun _ _ => True) (initial aes) w)
    (pass : Option (Pass B)) :
    w.round aes pass = none ↔ (∃ p, pass = some p ∧ w.FrontEndRefused aes p)
      ∨ ∃ w', w.frontEnd aes pass = some w' ∧ w'.Refused := by
  obtain ⟨hcar, hscd⟩ := carries_of_run h
  unfold CryptoWorld.round
  obtain ⟨hnone, hr⟩ | ⟨w₁, h₁, hp⟩ := hcar.frontEnd hscd pass
  · rw [hnone]
    exact ⟨fun _ => Or.inl hr, fun _ => rfl⟩
  rw [h₁, Option.bind_some]
  have haccepted : ¬ ∃ p, pass = some p ∧ w.FrontEndRefused aes p := by
    rintro ⟨p, hpass, hr⟩
    exact hp.accepted p hpass hr
  obtain ⟨hnone, href⟩ | ⟨w₂, h₂, href, -⟩ := hp.fronts.carries.outcome
  · exact ⟨fun _ => Or.inr ⟨w₁, rfl, href⟩, fun _ => hnone⟩
  · refine ⟨fun hnone => absurd (h₂.symm.trans hnone) (by simp), ?_⟩
    rintro (hr | ⟨w', he, hr⟩)
    · exact absurd hr haccepted
    · obtain rfl := Option.some.inj he
      exact absurd hr href

/-- A pass of a client that has no request in progress. -/
def samplePassIdle : Pass ℕ :=
  { scd := .stays, before := [.readInitial 2 0 31 1], after := []
    client := { helperRead := false, helperWrite := false, frontEnd := false }
    pool := samplePool
    required := RequiredData.invalid }

/-- A block is to be written under a key that is not there: the round in which the device takes
it comes to its end, the next one does not. And a round does not come to its end in which the
data of a read is ready that the client does not have in progress. -/
theorem round_eq_none_iff_sample :
    let w := Runs.after (round sampleAes) (fun _ _ => True) (initial sampleAes)
      [samplePass [.writeBack 0 30 1 100] []]
    (w.round sampleAes none = none ∧ ∃ w', w.frontEnd sampleAes none = some w' ∧ w'.Refused)
      ∧ (initial sampleAes).round sampleAes (some samplePassIdle) = none
      ∧ (initial sampleAes).FrontEndRefused sampleAes samplePassIdle := by
  have hdevice : (Runs.after (round sampleAes) (fun _ _ => True) (initial sampleAes)
      [samplePass [.writeBack 0 30 1 100] []]).round sampleAes none = none :=
    Option.isNone_iff_eq_none.mp (by decide +kernel)
  have hclient : (initial sampleAes).round sampleAes (some samplePassIdle) = none :=
    Option.isNone_iff_eq_none.mp (by decide +kernel)
  refine ⟨⟨hdevice, ?_⟩, hclient, ?_⟩
  · rcases (round_eq_none_iff (Runs.Run.after (by decide +kernel)) none).mp hdevice with
      ⟨p, hp, -⟩ | hr
    · exact absurd hp (by simp)
    · exact hr
  · rcases (round_eq_none_iff (.refl _) (some samplePassIdle)).mp hclient with
      ⟨p, hp, hr⟩ | ⟨w', hw', -⟩
    · obtain rfl := Option.some.inj hp
      exact hr
    · exact absurd (hw'.symm.trans (Option.isNone_iff_eq_none.mp (by decide +kernel))) (by simp)

/-- There is something to do while a job waits. -/
theorem Carries.left_pos (h : w.Carries aes) (hwait : w.delivered.length < w.accepted.length) :
    0 < w.left := by
  cases h with
  | idle _ _ hist =>
    have hlen := hist.length_eq
    rw [Option.toList_none, List.length_nil] at hlen
    omega
  | waits _ hc _ _ _ => rw [left_pending hc]; decide
  | isAtDevice _ hc _ _ _ => rw [left_inProgress hc]; decide
  | complete _ _ hc _ _ _ => rw [left_done hc]; decide

/-- A job is at most three places from its end. -/
theorem left_le (w : CryptoWorld B) : w.left ≤ 3 := by
  unfold left
  cases (w.crypto.items 0).state <;> decide

/-- What was delivered stays so. -/
theorem le_of_trace {C : CryptoWorld B → Option (Pass B) → Prop} {l : List (Option (Pass B))}
    (ht : Runs.Trace (round aes) C w l w') (h : w.Carries aes) (hscd : w.ScdWaits) :
    w.delivered.length ≤ w'.delivered.length := by
  induction ht with
  | nil => exact le_rfl
  | cons pass l _ hstep _ ih =>
    obtain ⟨⟨hcar, hscd'⟩, hle, -⟩ := h.round hscd hstep
    exact hle.trans (ih hcar hscd')

/-- As many rounds as the job has to go bring it back. -/
theorem delivered_of_trace {l : List (Option (Pass B))}
    (ht : Runs.Trace (round aes) Attentive w l w') (h : w.Carries aes) (hscd : w.ScdWaits)
    (hpos : 0 < w.left) (hl : w.left ≤ l.length) : w.delivered.length < w'.delivered.length := by
  -- on the rounds: each one delivers the job or brings it closer
  induction ht with
  | nil =>
    rw [List.length_nil] at hl
    omega
  | @cons w₁ w₂ w₃ pass l hatt hstep htail ih =>
    obtain ⟨⟨hcar, hscd'⟩, hle, hgo⟩ := h.round hscd hstep
    rw [List.length_cons] at hl
    obtain hlt | ⟨hpos', hlt⟩ := hgo hatt hpos
    · exact hlt.trans_le (le_of_trace htail hcar hscd')
    · exact hle.trans_lt (ih hcar hscd' hpos' (by omega))

/-- **No job stays long**: in three rounds of an attentive client the job that waits comes
back. -/
theorem delivered_of_rounds (h : Runs.Run (round aes) (fun _ _ => True) (initial aes) w)
    (hwait : w.delivered.length < w.accepted.length) {l : List (Option (Pass B))}
    (ht : Runs.Trace (round aes) Attentive w l w') (hl : 3 ≤ l.length) :
    w.delivered.length < w'.delivered.length :=
  have hcar := (carries_of_run h).1
  have hscd := (carries_of_run h).2
  delivered_of_trace ht hcar hscd (hcar.left_pos hwait) ((left_le w).trans hl)

/-- The encryption of a block takes three rounds, and every round in them offers another job. -/
theorem delivered_of_rounds_sample :
    let w := Runs.after (round sampleAes) (fun _ _ => True) (initial sampleAes)
      [samplePass [.addKey 0 { value := 7, id := 1 }] [], samplePass [] [.writeBack 0 30 1 100]]
    w.delivered.length
      < (Runs.after (round sampleAes) Attentive w
        (List.replicate 3 (samplePass [.removeKey 0 1] []))).delivered.length :=
  delivered_of_rounds (Runs.Run.after (by decide +kernel)) (by decide +kernel)
    (Runs.Trace.after (by decide +kernel)) (by decide)

end CryptoWorld

end Cbe
