import Mathlib.Data.List.Basic
import Mathlib.Data.List.Pairwise
import Mathlib.Order.MinMax

/-!
# Rows of a table

A table is the list of its rows, in the order in which they were inserted. Keys
are handed out as one more than the largest key still in use, so a key is fresh
among the rows that are left, whatever was deleted before.
-/

namespace Xeqm.Lib

open List

variable {α : Type} {key : α → ℕ} {rows : List α} {n : ℕ}

/-- `COALESCE(MAX(key) + 1, 0)`. -/
def nextKey (key : α → ℕ) : List α → ℕ
  | [] => 0
  | row :: rows => max (key row + 1) (nextKey key rows)

@[simp]
theorem nextKey_nil : nextKey key [] = 0 := rfl

/-- The next key is the least number above all keys in use. -/
theorem nextKey_le_iff : nextKey key rows ≤ n ↔ ∀ row ∈ rows, key row < n := by
  induction rows with
  | nil => simp
  | cons _ _ ih =>
    rw [nextKey, max_le_iff, ih, forall_mem_cons]
    exact Iff.rfl

/-- A key in use lies below the next one. -/
theorem lt_nextKey {row : α} (h : row ∈ rows) : key row < nextKey key rows :=
  nextKey_le_iff.mp le_rfl row h

/-- Rows numbered in order hand out their number next. -/
theorem nextKey_of_map_eq_range (h : rows.map key = List.range n) : nextKey key rows = n := by
  have hmem (i : ℕ) : i < n ↔ ∃ row ∈ rows, key row = i := by
    rw [← mem_range, ← h, mem_map]
  apply le_antisymm
  · exact nextKey_le_iff.mpr fun row hrow => (hmem _).mpr ⟨row, hrow, rfl⟩
  · by_contra hlt
    obtain ⟨row, hrow, heq⟩ := (hmem (nextKey key rows)).mp (not_le.mp hlt)
    have := @lt_nextKey α key rows row hrow
    omega

/-- Without the last of them, rows numbered in order are still numbered in order. -/
theorem map_filter_ne_of_map_eq_range (h : rows.map key = List.range (n + 1)) :
    (rows.filter (fun row => key row ≠ n)).map key = List.range n := by
  have hkeys : (rows.filter (fun row => key row ≠ n)).map key =
      (rows.map key).filter (fun i => i ≠ n) := by
    rw [filter_map]
    rfl
  rw [hkeys, h, range_succ, filter_append]
  have hbelow : (List.range n).filter (fun i => i ≠ n) = List.range n := by
    apply filter_eq_self.mpr
    intro i hi
    have := mem_range.mp hi
    simp only [ne_eq, decide_not, Bool.not_eq_eq_eq_not, Bool.not_true, decide_eq_false_iff_not]
    omega
  rw [hbelow]
  simp

/-- A key that no row has finds none. -/
theorem filter_key_eq_nil {β : Type} [DecidableEq β] {key : α → β} {k : β}
    (h : ∀ row ∈ rows, key row ≠ k) : rows.filter (fun r => key r = k) = [] := by
  apply filter_eq_nil_iff.mpr
  intro row hrow
  simpa using h row hrow

/-- A key that no other row has finds its row. -/
theorem filter_key_eq_singleton {β : Type} [DecidableEq β] {key : α → β} {row : α}
    (h : (rows.map key).Nodup) (hrow : row ∈ rows) :
    rows.filter (fun r => key r = key row) = [row] := by
  induction rows with
  | nil => cases hrow
  | cons first rows ih =>
    rw [map_cons, nodup_cons] at h
    rcases mem_cons.mp hrow with rfl | hrow
    · have hnone : rows.filter (fun r => key r = key row) = [] := by
        apply filter_key_eq_nil
        intro r hr heq
        exact h.1 (heq ▸ mem_map_of_mem hr)
      simp [hnone]
    · have hne : key first ≠ key row := fun heq => h.1 (heq ▸ mem_map_of_mem hrow)
      rw [filter_cons_of_neg (by simpa using hne)]
      exact ih h.2 hrow

/-- Of two different rows one comes first. -/
theorem pairwise_or {R : α → α → Prop} (h : rows.Pairwise R) {row row' : α}
    (hrow : row ∈ rows) (hrow' : row' ∈ rows) (hne : row ≠ row') : R row row' ∨ R row' row := by
  have hsymm : Std.Symm (fun a b => R a b ∨ R b a) := ⟨fun _ _ hab => hab.symm⟩
  exact (h.imp (S := fun a b => R a b ∨ R b a) .inl).forall hrow hrow' hne

/-- Deleting the rows of the last part leaves the first part. -/
theorem filter_append_eq_left {rows' : List α} {p : α → Bool} (h : ∀ row ∈ rows, p row = true)
    (h' : ∀ row ∈ rows', p row = false) : (rows ++ rows').filter p = rows := by
  rw [filter_append, filter_eq_self.mpr h, filter_eq_nil_iff.mpr, append_nil]
  intro row hrow
  simp [h' row hrow]

/-- Two deletions, one after the other, are one. -/
theorem filter_filter_of_iff {p q r : α → Prop} [DecidablePred p] [DecidablePred q]
    [DecidablePred r] (h : ∀ row, p row ∧ q row ↔ r row) {rows : List α} :
    (rows.filter (p ·)).filter (q ·) = rows.filter (r ·) := by
  rw [filter_filter]
  refine filter_congr fun row _ => ?_
  rw [Bool.eq_iff_iff, Bool.and_eq_true, decide_eq_true_eq, decide_eq_true_eq, decide_eq_true_eq,
    ← h row, and_comm]

end Xeqm.Lib
