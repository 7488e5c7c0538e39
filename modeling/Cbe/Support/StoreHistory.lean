import Mathlib.Data.List.Induction
import Mathlib.Logic.Function.Basic

/-!
# Histories of a store

A store maps keys to values. A history of it lists the accesses in the order in
which they take effect; the content after a history is what its writes leave.
A history is faithful when each read in it has returned the content at its
place, which is the value of the latest write of the key before it, or the
first content where there was none.
-/

namespace StoreHistory

variable {κ α : Type*}

/-- An access to a store, with the value that was read or written. -/
inductive Access (κ α : Type*) where
  | read (key : κ) (value : α)
  | write (key : κ) (value : α)

/-- A place in a longer history is one in the history, or the last. -/
theorem append_singleton_split {log pre post : List (Access κ α)} {a b : Access κ α}
    (h : log ++ [a] = pre ++ b :: post) :
    (∃ post', log = pre ++ b :: post') ∨ log = pre ∧ a = b := by
  cases List.eq_nil_or_concat post with
  | inl hnil =>
    rw [hnil] at h
    obtain ⟨h₁, h₂⟩ := List.append_inj' h rfl
    exact .inr ⟨h₁, List.singleton_inj.mp h₂⟩
  | inr hconcat =>
    obtain ⟨post', c, rfl⟩ := hconcat
    rw [List.concat_eq_append, ← List.cons_append, ← List.append_assoc] at h
    exact .inl ⟨post', (List.append_inj' h rfl).1⟩

variable [DecidableEq κ]

/-- What one access leaves. -/
def Access.apply (content : κ → α) : Access κ α → κ → α
  | .read _ _ => content
  | .write key value => Function.update content key value

/-- **The content after a history.** -/
def contentAfter (content : κ → α) (log : List (Access κ α)) : κ → α :=
  log.foldl Access.apply content

variable {content : κ → α} {log : List (Access κ α)} {key : κ} {value : α}

@[simp] theorem contentAfter_nil : contentAfter content ([] : List (Access κ α)) = content := rfl

/-- A read leaves the content. -/
@[simp] theorem contentAfter_append_read :
    contentAfter content (log ++ [.read key value]) = contentAfter content log := by
  unfold contentAfter
  rw [List.foldl_append]
  rfl

/-- A write changes it at its key. -/
@[simp] theorem contentAfter_append_write :
    contentAfter content (log ++ [.write key value])
      = Function.update (contentAfter content log) key value := by
  unfold contentAfter
  rw [List.foldl_append]
  rfl

/-- **The value of the latest write** of a key in a history, or the first
content when there is none. -/
inductive Latest (content : κ → α) (log : List (Access κ α)) (key : κ) : α → Prop
  | write (value : α) (pre post : List (Access κ α)) (hlog : log = pre ++ .write key value :: post)
      (hpost : ∀ v, .write key v ∉ post) : Latest content log key value
  | unwritten (hlog : ∀ v, .write key v ∉ log) : Latest content log key (content key)

omit [DecidableEq κ] in
/-- An access that does not write the key changes nothing. -/
theorem Latest.append (h : Latest content log key value) {a : Access κ α}
    (ha : ∀ v, a ≠ .write key v) : Latest content (log ++ [a]) key value := by
  have hkept : ∀ l : List (Access κ α), (∀ v, .write key v ∉ l) → ∀ v, .write key v ∉ l ++ [a] := by
    intro l hl v hv
    rcases List.mem_append.mp hv with hv | hv
    · exact hl v hv
    · exact ha v (List.mem_singleton.mp hv).symm
  cases h with
  | write _ pre post hlog hpost =>
    refine .write value pre (post ++ [a]) ?_ (hkept post hpost)
    rw [hlog, List.append_assoc, List.cons_append]
  | unwritten hlog => exact .unwritten (hkept log hlog)

/-- **The content after a history is that of the latest writes.** -/
theorem latest_contentAfter : Latest content log key (contentAfter content log key) := by
  induction log using List.reverseRecOn with
  | nil => exact .unwritten fun v => List.not_mem_nil
  | append_singleton log a ih =>
    cases a with
    | read k v =>
      rw [contentAfter_append_read]
      exact ih.append fun _ => nofun
    | write k v =>
      rw [contentAfter_append_write]
      by_cases hk : key = k
      · subst hk
        rw [Function.update_self]
        exact .write v log [] rfl fun _ => List.not_mem_nil
      · rw [Function.update_of_ne hk]
        refine ih.append fun v' heq => ?_
        obtain ⟨rfl, -⟩ := Access.write.inj heq
        exact hk rfl

/-- **Each read has returned the content at its place.** -/
def Faithful (content : κ → α) (log : List (Access κ α)) : Prop :=
  ∀ pre key value post, log = pre ++ .read key value :: post → value = contentAfter content pre key

/-- Nothing was read. -/
theorem Faithful.nil : Faithful content ([] : List (Access κ α)) := by
  intro pre k v post h
  exact absurd h (by simp)

/-- A read that returns the content keeps a history faithful. -/
theorem Faithful.append_read (h : Faithful content log)
    (hvalue : value = contentAfter content log key) :
    Faithful content (log ++ [.read key value]) := by
  intro pre k v post hsplit
  rcases append_singleton_split hsplit with ⟨post', hlog⟩ | ⟨rfl, heq⟩
  · exact h pre k v post' hlog
  · obtain ⟨rfl, rfl⟩ := Access.read.inj heq
    exact hvalue

/-- So does any write. -/
theorem Faithful.append_write (h : Faithful content log) :
    Faithful content (log ++ [.write key value]) := by
  intro pre k v post hsplit
  rcases append_singleton_split hsplit with ⟨post', hlog⟩ | ⟨-, heq⟩
  · exact h pre k v post' hlog
  · exact absurd heq (by simp)

end StoreHistory
