import Mathlib.Data.List.Perm.Subperm
import Mathlib.Data.List.TakeWhile
import Mathlib.Order.Lattice

/-!
# Insertion into a sorted list

A list sorted by a key, into which an element is put at its lower bound unless there is
one with its key.
-/

namespace Xeqm.Lib

open List

variable {α κ : Type*} [LinearOrder κ]

/-- The keys of a list ascend. -/
def SortedBy (key : α → κ) (l : List α) : Prop := l.Pairwise (fun a b => key a < key b)

instance (key : α → κ) (l : List α) : Decidable (SortedBy key l) :=
  inferInstanceAs (Decidable (l.Pairwise _))

/-- The element inserted at its `std::lower_bound`, and whether it was: not if there is an
element with its key. -/
def insertUnique (key : α → κ) (a : α) (l : List α) : List α × Bool :=
  let before := l.takeWhile (fun b => key b < key a)
  let rest := l.dropWhile (fun b => key b < key a)
  if rest.head?.any (fun b => key b = key a) then (l, false) else (before ++ a :: rest, true)

variable {key : α → κ} {a : α} {l : List α}

/-- From the lower bound on the keys are not below. -/
theorem le_key_of_mem_dropWhile {k : κ} (h : SortedBy key l) {b : α}
    (hb : b ∈ l.dropWhile (fun b => key b < k)) : k ≤ key b := by
  induction l with
  | nil => cases hb
  | cons c rest ih =>
    obtain ⟨hc, hrest⟩ := pairwise_cons.mp h
    rw [dropWhile_cons] at hb
    split at hb
    · exact ih hrest hb
    · rename_i hnot
      have hle : k ≤ key c := not_lt.mp (by simpa using hnot)
      rcases mem_cons.mp hb with rfl | hb
      · exact hle
      · exact hle.trans (hc b hb).le

/-- The list is left as it is because of an element with the key, or the element stands
between those below and those above it. -/
theorem insertUnique_cases (key : α → κ) (a : α) (l : List α) :
    insertUnique key a l = (l, false) ∧ (∃ b ∈ l, key b = key a) ∨
    ∃ before rest, l = before ++ rest ∧ insertUnique key a l = (before ++ a :: rest, true) ∧
      (∀ b ∈ before, key b < key a) ∧ (SortedBy key l → ∀ b ∈ rest, key a < key b) := by
  unfold insertUnique
  dsimp only
  split
  · rename_i hfound
    obtain ⟨b, hb, hkey⟩ := (Option.any_eq_true _ _).mp hfound
    exact .inl ⟨rfl, b, dropWhile_subset _ (mem_of_mem_head? hb), by simpa using hkey⟩
  rename_i hfresh
  refine .inr ⟨_, _, takeWhile_append_dropWhile.symm, rfl, fun b hb => ?_, fun hsorted b hb => ?_⟩
  · simpa using mem_takeWhile_imp hb
  -- the first of the rest has another key, and the others lie above it
  have hrest : SortedBy key (l.dropWhile (fun b => key b < key a)) :=
    Pairwise.sublist (dropWhile_sublist _) hsorted
  have hle := le_key_of_mem_dropWhile hsorted hb
  cases hdrop : l.dropWhile (fun b => key b < key a) with
  | nil =>
    rw [hdrop] at hb
    cases hb
  | cons c =>
    have hc : key a ≤ key c := le_key_of_mem_dropWhile hsorted (hdrop ▸ mem_cons_self)
    rw [hdrop] at hb hrest hfresh
    have hne : key c ≠ key a := by simpa using hfresh
    rcases mem_cons.mp hb with rfl | hb
    · exact lt_of_le_of_ne hle hne.symm
    · exact hc.trans_lt ((pairwise_cons.mp hrest).1 b hb)

theorem insertUnique_sorted (h : SortedBy key l) : SortedBy key (insertUnique key a l).1 := by
  obtain ⟨heq, -⟩ | ⟨before, rest, rfl, heq, hbefore, hrest⟩ := insertUnique_cases key a l <;> rw [heq]
  · exact h
  · obtain ⟨hleft, hright, hcross⟩ := pairwise_append.mp h
    refine pairwise_append.mpr ⟨hleft, pairwise_cons.mpr ⟨hrest h, hright⟩, ?_⟩
    intro b hb c hc
    rcases mem_cons.mp hc with rfl | hc
    · exact hbefore b hb
    · exact hcross b hb c hc

/-- An element is inserted exactly if its key is new. -/
theorem insertUnique_added_iff (h : SortedBy key l) :
    (insertUnique key a l).2 = true ↔ ∀ b ∈ l, key b ≠ key a := by
  obtain ⟨heq, b, hb, hkey⟩ | ⟨before, rest, rfl, heq, hbefore, hrest⟩ :=
    insertUnique_cases key a l <;> rw [heq]
  · exact iff_of_false Bool.false_ne_true fun hne => hne b hb hkey
  · refine iff_of_true rfl fun b hb => ?_
    rcases mem_append.mp hb with hb | hb
    · exact (hbefore b hb).ne
    · exact (hrest h b hb).ne'

/-- What is in the list afterwards was there before or is the element. -/
theorem mem_insertUnique {b : α} (h : b ∈ (insertUnique key a l).1) : b = a ∨ b ∈ l := by
  obtain ⟨heq, -⟩ | ⟨before, rest, rfl, heq, -⟩ := insertUnique_cases key a l <;> rw [heq] at h
  · exact .inr h
  · simpa [or_left_comm] using h

/-- Nothing is lost. -/
theorem subset_insertUnique : l ⊆ (insertUnique key a l).1 := by
  obtain ⟨heq, -⟩ | ⟨before, rest, rfl, heq, -⟩ := insertUnique_cases key a l <;> rw [heq]
  · exact Subset.refl l
  · exact (Sublist.append_left (sublist_cons_self a rest) before).subset

/-- The key of the element is there afterwards. -/
theorem exists_key_insertUnique : ∃ b ∈ (insertUnique key a l).1, key b = key a := by
  obtain ⟨heq, hkey⟩ | ⟨before, rest, rfl, heq, -⟩ := insertUnique_cases key a l <;> rw [heq]
  · exact hkey
  · exact ⟨a, mem_append_right _ mem_cons_self, rfl⟩

/-- Keys that ascend are different. -/
theorem SortedBy.nodup (h : SortedBy key l) : (l.map key).Nodup :=
  pairwise_map.mpr (h.imp (fun hlt => hlt.ne))

/-- A sorted list is no longer than one that has all its keys. -/
theorem SortedBy.length_le {β : Type*} {key' : β → κ} {l' : List β} (h : SortedBy key l)
    (hkeys : ∀ a ∈ l, ∃ b ∈ l', key' b = key a) : l.length ≤ l'.length := by
  have hsub : l.map key ⊆ l'.map key' := by
    intro k hk
    obtain ⟨a, ha, rfl⟩ := mem_map.mp hk
    obtain ⟨b, hb, hkey⟩ := hkeys a ha
    exact mem_map.mpr ⟨b, hb, hkey⟩
  simpa using (h.nodup.subperm hsub).length_le

end Xeqm.Lib
