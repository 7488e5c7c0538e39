import Mathlib.Data.List.Perm.Basic
import Mathlib.Data.List.Nodup
import Mathlib.Data.List.Basic

/-!
# Exchanging elements of a list

An allocator that works by exchange takes, for each of its requests, one
element out of its stock and puts another one in its place. `Exchanges R is l l'`
says that this happened for the requests `is`, one exchange each, and that the
stock went from `l` to `l'`; `R i a b` is what an exchange of `a` for `b` on
behalf of `i` has to satisfy. The order of the stock is of no concern.

Exchanges compose along the parts of a stock (`Exchanges.append`) and inside a
larger one (`Exchanges.frame`), which is what an allocator that walks a tree
needs.
-/

variable {ι α : Type}

/-- **The stock `l` became `l'` by one exchange for each request.** -/
def Exchanges (R : ι → α → α → Prop) (is : List ι) (l l' : List α) : Prop :=
  ∃ (sel : List (ι × α × α)) (rest : List α), sel.map (fun x => x.1) = is
    ∧ (∀ x ∈ sel, R x.1 x.2.1 x.2.2)
    ∧ l.Perm (sel.map (fun x => x.2.1) ++ rest)
    ∧ l'.Perm (sel.map (fun x => x.2.2) ++ rest)

namespace Exchanges

variable {R R' : ι → α → α → Prop} {is js : List ι} {l l' m m' : List α}

/-- No request, no change. -/
theorem refl (l : List α) : Exchanges R [] l l :=
  ⟨[], l, rfl, by simp, List.Perm.refl _, List.Perm.refl _⟩

/-- One exchange at the head of the stock. -/
theorem single {i : ι} {a b : α} (h : R i a b) (l : List α) :
    Exchanges R [i] (a :: l) (b :: l) :=
  ⟨[(i, a, b)], l, rfl, by simpa using h, List.Perm.refl _, List.Perm.refl _⟩

/-- What an exchange satisfies may be weakened for the requests at hand. -/
theorem mono (h : Exchanges R is l l')
    (hR : ∀ i a b, i ∈ is → a ∈ l → R i a b → R' i a b) : Exchanges R' is l l' := by
  obtain ⟨sel, rest, hsel, hx, hl, hl'⟩ := h
  refine ⟨sel, rest, hsel, fun x hm => hR _ _ _ ?_ ?_ (hx x hm), hl, hl'⟩
  · rw [← hsel]
    exact List.mem_map_of_mem hm
  · rw [hl.mem_iff]
    exact List.mem_append_left _ (List.mem_map_of_mem hm)

/-- The order of the stock does not matter. -/
theorem perm (h : Exchanges R is l l') (hl : m.Perm l) (hl' : m'.Perm l') :
    Exchanges R is m m' := by
  obtain ⟨sel, rest, hsel, hx, h₁, h₂⟩ := h
  exact ⟨sel, rest, hsel, hx, hl.trans h₁, hl'.trans h₂⟩

/-- **Exchanges on two parts of a stock are exchanges on the whole.** -/
theorem append (h : Exchanges R is l l') (h' : Exchanges R js m m') :
    Exchanges R (is ++ js) (l ++ m) (l' ++ m') := by
  obtain ⟨sel, rest, hsel, hx, hl, hl'⟩ := h
  obtain ⟨sel', rest', hsel', hx', hm, hm'⟩ := h'
  have swap : ∀ a b c d : List α, ((a ++ b) ++ (c ++ d)).Perm ((a ++ c) ++ (b ++ d)) := by
    intro a b c d
    rw [List.append_assoc, List.append_assoc, ← List.append_assoc b, ← List.append_assoc c]
    exact List.Perm.append_left _ (List.Perm.append_right _ List.perm_append_comm)
  refine ⟨sel ++ sel', rest ++ rest', by rw [List.map_append, hsel, hsel'], ?_, ?_, ?_⟩
  · intro x hmem
    exact (List.mem_append.mp hmem).elim (hx x) (hx' x)
  · rw [List.map_append]
    exact (hl.append hm).trans (swap _ _ _ _)
  · rw [List.map_append]
    exact (hl'.append hm').trans (swap _ _ _ _)

/-- Exchanges on a part of a stock leave the rest alone. -/
theorem frame (h : Exchanges R is l l') (m : List α) : Exchanges R is (l ++ m) (l' ++ m) := by
  simpa using h.append (refl m)

/-- Every request got its exchange. -/
theorem exists_of_mem (h : Exchanges R is l l') {i : ι} (hi : i ∈ is) :
    ∃ a ∈ l, ∃ b ∈ l', R i a b := by
  obtain ⟨sel, rest, rfl, hx, hl, hl'⟩ := h
  obtain ⟨x, hmem, rfl⟩ := List.mem_map.mp hi
  refine ⟨x.2.1, ?_, x.2.2, ?_, hx x hmem⟩
  · rw [hl.mem_iff]
    exact List.mem_append_left _ (List.mem_map_of_mem hmem)
  · rw [hl'.mem_iff]
    exact List.mem_append_left _ (List.mem_map_of_mem hmem)

/-- **A value of the elements is conserved** but for what the requests take out
and put in. -/
theorem map_perm {κ : Type} (f : α → κ) (key out : ι → κ) (h : Exchanges R is l l')
    (hR : ∀ i a b, R i a b → f a = key i ∧ f b = out i) :
    (l'.map f ++ is.map key).Perm (l.map f ++ is.map out) := by
  obtain ⟨sel, rest, rfl, hx, hl, hl'⟩ := h
  have hkey : (sel.map fun x => x.2.1).map f = (sel.map fun x => x.1).map key := by
    rw [List.map_map, List.map_map]
    exact List.map_congr_left fun x hmem => (hR _ _ _ (hx x hmem)).1
  have hout : (sel.map fun x => x.2.2).map f = (sel.map fun x => x.1).map out := by
    rw [List.map_map, List.map_map]
    exact List.map_congr_left fun x hmem => (hR _ _ _ (hx x hmem)).2
  have hperm := hl.map f
  have hperm' := hl'.map f
  rw [List.map_append, hkey] at hperm
  rw [List.map_append, hout] at hperm'
  refine (hperm'.append_right _).trans (List.Perm.trans ?_ (hperm.append_right _).symm)
  rw [List.append_assoc]
  refine List.perm_append_comm.trans ?_
  exact List.Perm.append_right _ List.perm_append_comm

/-! ## Elements with keys

Where some of the elements (those that satisfy `p`) have keys that are pairwise
distinct, and the element that a request takes out is known by its key, the
stock before and after the exchanges can be told apart by keys. -/

section Keys

variable {κ : Type} {p : α → Prop} [DecidablePred p] {f : α → κ} {key : ι → κ}

/-- The elements taken out have distinct keys, which no element left has. -/
theorem keys_nodup (out : ι → κ) (h : Exchanges R is l l') (hnd : ((l.filter p).map f).Nodup)
    (hkey : ∀ i a b, R i a b → p a ∧ f a = key i) :
    ∃ rest : List α, (is.map key ++ (rest.filter p).map f).Nodup
      ∧ (∀ a ∈ rest, a ∈ l ∧ a ∈ l')
      ∧ (∀ b ∈ l', b ∈ rest ∨ ∃ i ∈ is, ∃ a ∈ l, R i a b)
      ∧ (∀ a ∈ l, a ∈ rest ∨ ∃ i ∈ is, p a ∧ f a = key i)
      ∧ ∀ (_ : ∀ i a b, R i a b → p b ∧ f b = out i),
        ((l'.filter p).map f).Perm (is.map out ++ (rest.filter p).map f) := by
  obtain ⟨sel, rest, rfl, hx, hl, hl'⟩ := h
  have hsel : ((sel.map fun x => x.2.1).filter p) = sel.map fun x => x.2.1 :=
    List.filter_eq_self.mpr fun a ha => by
      obtain ⟨x, hmem, rfl⟩ := List.mem_map.mp ha
      exact decide_eq_true (hkey _ _ _ (hx x hmem)).1
  have hmapkey : (sel.map fun x => x.2.1).map f = (sel.map fun x => x.1).map key := by
    rw [List.map_map, List.map_map]
    exact List.map_congr_left fun x hmem => (hkey _ _ _ (hx x hmem)).2
  refine ⟨rest, ?_, fun a ha => ⟨?_, ?_⟩, fun b hb => ?_, fun a ha => ?_, fun hout => ?_⟩
  · have hperm := (hl.filter p).map f
    rw [List.filter_append, List.map_append, hsel, hmapkey] at hperm
    exact hperm.nodup_iff.mp hnd
  · rw [hl.mem_iff]
    exact List.mem_append_right _ ha
  · rw [hl'.mem_iff]
    exact List.mem_append_right _ ha
  · rw [hl'.mem_iff] at hb
    rcases List.mem_append.mp hb with hb | hb
    · obtain ⟨x, hmem, rfl⟩ := List.mem_map.mp hb
      refine Or.inr ⟨x.1, List.mem_map_of_mem hmem, x.2.1, ?_, hx x hmem⟩
      rw [hl.mem_iff]
      exact List.mem_append_left _ (List.mem_map_of_mem hmem)
    · exact Or.inl hb
  · rw [hl.mem_iff] at ha
    rcases List.mem_append.mp ha with ha | ha
    · obtain ⟨x, hmem, rfl⟩ := List.mem_map.mp ha
      exact Or.inr ⟨x.1, List.mem_map_of_mem hmem, hkey _ _ _ (hx x hmem)⟩
    · exact Or.inl ha
  · have hsel' : ((sel.map fun x => x.2.2).filter p) = sel.map fun x => x.2.2 :=
      List.filter_eq_self.mpr fun a ha => by
        obtain ⟨x, hmem, rfl⟩ := List.mem_map.mp ha
        exact decide_eq_true (hout _ _ _ (hx x hmem)).1
    have hmapout : (sel.map fun x => x.2.2).map f = (sel.map fun x => x.1).map out := by
      rw [List.map_map, List.map_map]
      exact List.map_congr_left fun x hmem => (hout _ _ _ (hx x hmem)).2
    have hperm := (hl'.filter p).map f
    rwa [List.filter_append, List.map_append, hsel', hmapout] at hperm

/-- Two requests get elements with different keys. -/
theorem key_injOn (h : Exchanges R is l l') (hnd : ((l.filter p).map f).Nodup)
    (hkey : ∀ i a b, R i a b → p a ∧ f a = key i) {i j : ι} (hi : i ∈ is) (hj : j ∈ is)
    (heq : key i = key j) : i = j := by
  obtain ⟨rest, hnodup, -⟩ := h.keys_nodup key hnd hkey
  exact List.inj_on_of_nodup_map (List.nodup_append.mp hnodup).1 hi hj heq

/-- **What is in the stock afterwards** was in it before and was not taken out,
or came in by an exchange. -/
theorem mem_of_mem_keys (h : Exchanges R is l l') (hnd : ((l.filter p).map f).Nodup)
    (hkey : ∀ i a b, R i a b → p a ∧ f a = key i) {b : α} (hb : b ∈ l') :
    (b ∈ l ∧ (p b → ∀ i ∈ is, f b ≠ key i)) ∨ ∃ i ∈ is, ∃ a ∈ l, R i a b := by
  obtain ⟨rest, hnodup, hrest, hmem, -, -⟩ := h.keys_nodup key hnd hkey
  rcases hmem b hb with hb | hb
  · refine Or.inl ⟨(hrest b hb).1, fun hp i hi heq => ?_⟩
    refine (List.nodup_append.mp hnodup).2.2 (key i) (List.mem_map_of_mem hi) (f b) ?_ heq.symm
    exact List.mem_map_of_mem (List.mem_filter.mpr ⟨hb, decide_eq_true hp⟩)
  · exact Or.inr hb

/-- **What is not taken out stays.** -/
theorem mem_of_keys (h : Exchanges R is l l') (hnd : ((l.filter p).map f).Nodup)
    (hkey : ∀ i a b, R i a b → p a ∧ f a = key i) {a : α} (ha : a ∈ l)
    (hne : p a → ∀ i ∈ is, f a ≠ key i) : a ∈ l' := by
  obtain ⟨rest, -, hrest, -, hmem, -⟩ := h.keys_nodup key hnd hkey
  rcases hmem a ha with ha | ⟨i, hi, hp, heq⟩
  · exact (hrest a ha).2
  · exact absurd heq (hne hp i hi)

/-- **The keys stay distinct** when the elements that come in have distinct new
keys. -/
theorem nodup_of_keys (out : ι → κ) (h : Exchanges R is l l') (hnd : ((l.filter p).map f).Nodup)
    (hkey : ∀ i a b, R i a b → p a ∧ f a = key i)
    (hout : ∀ i a b, R i a b → p b ∧ f b = out i) (houtnd : (is.map out).Nodup)
    (hdisj : ∀ i ∈ is, ∀ a ∈ l, p a → (∀ j ∈ is, f a ≠ key j) → f a ≠ out i) :
    ((l'.filter p).map f).Nodup := by
  obtain ⟨rest, hnodup, hrest, -, -, hperm⟩ := h.keys_nodup out hnd hkey
  rw [(hperm hout).nodup_iff]
  obtain ⟨-, hrestnd, hne⟩ := List.nodup_append.mp hnodup
  refine List.nodup_append.mpr ⟨houtnd, hrestnd, ?_⟩
  rintro x hx y hy rfl
  obtain ⟨i, hi, rfl⟩ := List.mem_map.mp hx
  obtain ⟨a, ha, heq⟩ := List.mem_map.mp hy
  obtain ⟨ha, hp⟩ := List.mem_filter.mp ha
  refine hdisj i hi a (hrest a ha).1 (of_decide_eq_true hp) (fun j hj hjeq => ?_) heq
  exact hne (key j) (List.mem_map_of_mem hj) (f a)
    (List.mem_map_of_mem (List.mem_filter.mpr ⟨ha, hp⟩)) hjeq.symm

end Keys

end Exchanges
