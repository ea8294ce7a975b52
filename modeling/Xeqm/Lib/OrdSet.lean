import Mathlib.Data.List.Sort
import Mathlib.Data.List.Pairwise

/-!
# Sets ordered by a key

An ordered container in the style of `std::set` and `std::map`: its elements are
kept strictly increasing in a key, so two elements never share a key and an
iteration visits them in key order. Inserting at a key that is already present
is a no-op. A map is the same container with the key being the first component
of a pair.
-/

namespace Xeqm.Lib

open List

/-- A finite collection kept strictly increasing in `key`. -/
structure OrdSet {α κ : Type} [LinearOrder κ] (key : α → κ) where
  /-- The elements in iteration order. -/
  toList : List α
  /-- Iteration order is strict key order. -/
  sorted : toList.Pairwise (fun a b => key a < key b)

namespace OrdSet

variable {α κ : Type} [LinearOrder κ] {key : α → κ}

instance [DecidableEq α] : DecidableEq (OrdSet key) := fun s t =>
  decidable_of_iff (s.toList = t.toList) ⟨fun h => by cases s; cases t; simpa using h,
    fun h => by rw [h]⟩

instance : Membership α (OrdSet key) := ⟨fun s a => a ∈ s.toList⟩

variable {s : OrdSet key} {a : α} {a b : α}

/-- Membership is membership in the iteration order. -/
theorem mem_def : a ∈ s ↔ a ∈ s.toList := Iff.rfl

instance [DecidableEq α] (a : α) (s : OrdSet key) : Decidable (a ∈ s) :=
  inferInstanceAs (Decidable (a ∈ s.toList))

instance (s : OrdSet key) (p : α → Prop) [DecidablePred p] : Decidable (∀ a ∈ s, p a) :=
  inferInstanceAs (Decidable (∀ a ∈ s.toList, p a))

/-- The container without elements. -/
def empty : OrdSet key := ⟨[], Pairwise.nil⟩

/-- The number of elements. -/
def size (s : OrdSet key) : ℕ := s.toList.length

/-- The element stored under a key. -/
def find? (s : OrdSet key) (k : κ) : Option α := s.toList.find? (fun a => key a = k)

/-- Keep the elements that satisfy `p`. -/
def filter (p : α → Bool) (s : OrdSet key) : OrdSet key :=
  ⟨s.toList.filter p, s.sorted.filter p⟩

/-- Remove the element stored under a key, if any. -/
def erase (s : OrdSet key) (k : κ) : OrdSet key := s.filter (fun a => key a ≠ k)

/-- Remove every element whose key lies above `k`. -/
def eraseAbove (s : OrdSet key) (k : κ) : OrdSet key := s.filter (fun a => key a ≤ k)

/-- Remove every element whose key lies below `k`. -/
def eraseBelow (s : OrdSet key) (k : κ) : OrdSet key := s.filter (fun a => k ≤ key a)

/-- Distinct elements of a strictly ordered list have distinct keys. -/
private theorem key_inj_of_sorted {l : List α} (hl : l.Pairwise (fun a b => key a < key b))
    (ha : a ∈ l) (hb : b ∈ l) (hkey : key a = key b) : a = b := by
  induction l with
  | nil => exact absurd ha (not_mem_nil)
  | cons _ _ ih =>
    obtain ⟨hx, hxs⟩ := pairwise_cons.mp hl
    rcases mem_cons.mp ha with rfl | ha' <;> rcases mem_cons.mp hb with rfl | hb'
    · rfl
    · exact absurd hkey (hx b hb').ne
    · exact absurd hkey (hx a ha').ne'
    · exact ih hxs ha' hb'

/-- Two elements under the same key are the same element. -/
theorem eq_of_key_eq (ha : a ∈ s) (hb : b ∈ s) (hkey : key a = key b) : a = b :=
  key_inj_of_sorted s.sorted ha hb hkey

/-- What holds of all elements under a key holds of the one that is there. -/
theorem forall_key_eq_iff {P : α → Prop} (ha : a ∈ s) : (∀ b ∈ s, key b = key a → P b) ↔ P a :=
  ⟨fun h => h a ha rfl, fun h _ hb hkey => eq_of_key_eq hb ha hkey ▸ h⟩

/-- No element occurs twice. -/
theorem toList_nodup (s : OrdSet key) : s.toList.Nodup :=
  s.sorted.imp fun hlt heq => absurd (congrArg key heq) hlt.ne

/-- A container is determined by its elements. -/
@[ext]
theorem ext {t : OrdSet key} (h : ∀ a, a ∈ s ↔ a ∈ t) : s = t := by
  have hperm : s.toList.Perm t.toList := (perm_ext_iff_of_nodup s.toList_nodup t.toList_nodup).mpr h
  have hlist : s.toList = t.toList :=
    hperm.eq_of_pairwise (fun a b _ _ hab hba => absurd hba hab.asymm) s.sorted t.sorted
  cases s
  cases t
  simpa using hlist

@[simp]
theorem not_mem_empty {a : α} : a ∉ (empty : OrdSet key) := not_mem_nil

@[simp]
theorem mem_filter {p : α → Bool} : a ∈ s.filter p ↔ a ∈ s ∧ p a = true := List.mem_filter

variable {k : κ}

@[simp]
theorem mem_erase : a ∈ s.erase k ↔ a ∈ s ∧ key a ≠ k := by
  simp [erase]

@[simp]
theorem mem_eraseAbove : a ∈ s.eraseAbove k ↔ a ∈ s ∧ key a ≤ k := by
  simp [eraseAbove]

@[simp]
theorem mem_eraseBelow : a ∈ s.eraseBelow k ↔ a ∈ s ∧ k ≤ key a := by
  simp [eraseBelow]

/-- A lookup returns the element that carries the key. -/
theorem find?_eq_some_iff : s.find? k = some a ↔ a ∈ s ∧ key a = k := by
  constructor
  · intro h
    exact ⟨mem_of_find?_eq_some h, by simpa using find?_some h⟩
  · rintro ⟨ha, rfl⟩
    cases hfind : s.find? (key a) with
    | none => simpa using find?_eq_none.mp hfind a ha
    | some b =>
      have hb : b ∈ s := mem_of_find?_eq_some hfind
      have hkey : key b = key a := by simpa using find?_some hfind
      rw [eq_of_key_eq hb ha hkey]

/-- A lookup fails exactly when no element carries the key. -/
theorem find?_eq_none_iff : s.find? k = none ↔ ∀ a ∈ s, key a ≠ k := by
  simp [find?, find?_eq_none, mem_def]

/-- The elements up to the first without a property: those that have it and come after none that
does not. -/
theorem mem_takeWhile_iff {p : α → Bool} (ha : a ∈ s) :
    a ∈ s.toList.takeWhile p ↔ p a = true ∧ ∀ b ∈ s, key b < key a → p b = true := by
  obtain ⟨l, hl⟩ := s
  change a ∈ l.takeWhile p ↔ _ ∧ ∀ b ∈ l, _
  induction l with
  | nil => cases ha
  | cons first _ ih =>
    obtain ⟨hfirst, hl⟩ := pairwise_cons.mp hl
    cases hp : p first with
    | false =>
      rw [takeWhile_cons_of_neg (by simp [hp])]
      refine iff_of_false (by simp) fun h => ?_
      rcases mem_cons.mp ha with rfl | ha
      · exact absurd h.1 (by simp [hp])
      · exact absurd (h.2 first mem_cons_self (hfirst a ha)) (by simp [hp])
    | true =>
      rw [takeWhile_cons_of_pos hp]
      rcases mem_cons.mp ha with rfl | ha
      · refine iff_of_true mem_cons_self ⟨hp, fun b hb hlt => ?_⟩
        rcases mem_cons.mp hb with rfl | hb
        · exact hp
        · exact absurd hlt (hfirst b hb).asymm
      · have hne : a ≠ first := fun heq => (hfirst a ha).ne (by rw [heq])
        simp [hne, ih hl ha, hp]

/-- Insert an element; nothing happens when its key is already present. -/
def insert (a : α) (s : OrdSet key) : OrdSet key :=
  match h : s.find? (key a) with
  | some _ => s
  | none =>
    { toList := s.toList.orderedInsert (fun x y => key x ≤ key y) a
      sorted := by
        have hfresh := find?_eq_none_iff.mp h
        have hle : (s.toList.orderedInsert (fun x y => key x ≤ key y) a).Pairwise
            (fun x y => key x ≤ key y) :=
          haveI : IsTrans α (fun x y => key x ≤ key y) := ⟨fun _ _ _ => le_trans⟩
          haveI : Std.Total (fun x y : α => key x ≤ key y) := ⟨fun x y => le_total _ _⟩
          (s.sorted.imp le_of_lt).orderedInsert a _
        have hne : (s.toList.orderedInsert (fun x y => key x ≤ key y) a).Pairwise
            (fun x y => key x ≠ key y) := by
          refine (Perm.pairwise_iff (fun h => h.symm)
            (perm_orderedInsert _ a s.toList)).mpr ?_
          exact pairwise_cons.mpr ⟨fun b hb => (hfresh b hb).symm,
            s.sorted.imp (fun h => h.ne)⟩
        exact (hle.and hne).imp (fun h => lt_of_le_of_ne h.1 h.2) }

/-- Inserting at a key that is present changes nothing. -/
theorem insert_eq_self (hb : b ∈ s) (hkey : key b = key a) : s.insert a = s := by
  have hfind : s.find? (key a) = some b := find?_eq_some_iff.mpr ⟨hb, hkey⟩
  unfold insert
  split
  · rfl
  · simp_all

/-- Inserting at a fresh key adds the element in its place. -/
theorem toList_insert_perm (hfresh : ∀ b ∈ s, key b ≠ key a) :
    (s.insert a).toList.Perm (a :: s.toList) := by
  have hfind : s.find? (key a) = none := find?_eq_none_iff.mpr hfresh
  unfold insert
  split
  · simp_all
  · exact perm_orderedInsert _ a s.toList

/-- An insertion adds its element only at a fresh key. -/
theorem mem_insert : b ∈ s.insert a ↔ b ∈ s ∨ (b = a ∧ ∀ c ∈ s, key c ≠ key a) := by
  by_cases hfresh : ∀ c ∈ s, key c ≠ key a
  · rw [mem_def, (toList_insert_perm hfresh).mem_iff, mem_cons]
    constructor
    · rintro (rfl | hb)
      · exact .inr ⟨rfl, hfresh⟩
      · exact .inl hb
    · rintro (hb | ⟨rfl, _⟩)
      · exact .inr hb
      · exact .inl rfl
  · obtain ⟨c, hc, hkey⟩ : ∃ c ∈ s, key c = key a := by simpa using hfresh
    rw [insert_eq_self hc hkey]
    exact ⟨.inl, fun h => h.elim id (fun hfresh => absurd hkey (hfresh.2 c hc))⟩

/-- Apply `f` to the element stored under a key. The key itself may not change. -/
def modify (k : κ) (f : α → α) (hf : ∀ a, key (f a) = key a) (s : OrdSet key) : OrdSet key where
  toList := s.toList.map (fun a => if key a = k then f a else a)
  sorted := by
    refine pairwise_map.mpr (s.sorted.imp ?_)
    intro a b hlt
    have hkey (c : α) : key (if key c = k then f c else c) = key c := by
      split
      · exact hf c
      · rfl
    rw [hkey, hkey]
    exact hlt

/-- Around one element the iteration order splits, and a modification of that
element leaves both sides alone. -/
theorem modify_split (ha : a ∈ s) :
    ∃ before after, s.toList = before ++ a :: after ∧
      (∀ b ∈ before, key b ≠ key a) ∧ (∀ b ∈ after, key b ≠ key a) ∧
      ∀ (f : α → α) (hf : ∀ x, key (f x) = key x),
        (s.modify (key a) f hf).toList = before ++ f a :: after := by
  obtain ⟨before, after, hsplit⟩ := append_of_mem ha
  have hsorted := s.sorted
  rw [hsplit, pairwise_append, pairwise_cons] at hsorted
  obtain ⟨_, ⟨hafter, _⟩, hbefore⟩ := hsorted
  have hb : ∀ b ∈ before, key b ≠ key a :=
    fun b hb => (hbefore b hb a mem_cons_self).ne
  have hc : ∀ b ∈ after, key b ≠ key a := fun b hb => (hafter b hb).ne'
  refine ⟨before, after, hsplit, hb, hc, fun f hf => ?_⟩
  have hkeep (l : List α) (hl : ∀ b ∈ l, key b ≠ key a) :
      l.map (fun x => if key x = key a then f x else x) = l := by
    conv_rhs => rw [← map_id l]
    exact map_congr_left fun b hb => by simp [hl b hb]
  simp [modify, hsplit, hkeep before hb, hkeep after hc]

/-- Around one element the iteration order splits, and erasing its key removes
just that element. -/
theorem erase_split (ha : a ∈ s) :
    ∃ before after, s.toList = before ++ a :: after ∧
      (s.erase (key a)).toList = before ++ after := by
  obtain ⟨before, after, hsplit, hbefore, hafter, _⟩ := modify_split ha
  refine ⟨before, after, hsplit, ?_⟩
  have hkeep (l : List α) (hl : ∀ b ∈ l, key b ≠ key a) :
      l.filter (fun x => decide (key x ≠ key a)) = l :=
    filter_eq_self.mpr fun b hb => by simpa using hl b hb
  simp only [erase, filter, hsplit, filter_append, hkeep before hbefore]
  rw [filter_cons_of_neg (by simp), hkeep after hafter]

/-- An element and the others. -/
theorem toList_perm_cons_erase (ha : a ∈ s) : s.toList.Perm (a :: (s.erase (key a)).toList) := by
  obtain ⟨before, after, hsplit, herase⟩ := erase_split ha
  rw [hsplit, herase]
  exact perm_middle

end OrdSet

end Xeqm.Lib
