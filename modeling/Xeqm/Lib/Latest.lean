import Mathlib.Data.List.Basic

/-!
# The latest version of a record

A record that is changed by adding versions of it: the one that counts is the one with the
largest height.
-/

namespace Xeqm.Lib

open List

variable {α β : Type*}

/-- The element of the largest height. -/
def latestBy (height : α → ℕ) : List α → Option α
  | [] => none
  | a :: rest =>
    match latestBy height rest with
    | none => some a
    | some b => if height a < height b then some b else some a

variable {height : α → ℕ} {l : List α} {a : α}

@[simp]
theorem latestBy_nil : latestBy height ([] : List α) = none := rfl

/-- Only an empty list has no latest element. -/
@[simp]
theorem latestBy_eq_none_iff : latestBy height l = none ↔ l = [] := by
  cases l with
  | nil => simp
  | cons =>
    simp only [latestBy, reduceCtorEq, iff_false]
    split
    · exact Option.some_ne_none _
    · split <;> exact Option.some_ne_none _

/-- The latest element is one of the list. -/
theorem mem_of_latestBy (h : latestBy height l = some a) : a ∈ l := by
  induction l with
  | nil => cases h
  | cons b rest ih =>
    simp only [latestBy] at h
    split at h
    · cases h
      exact mem_cons_self
    · rename_i c hc
      split at h
      · cases h
        exact mem_cons_of_mem _ (ih hc)
      · cases h
        exact mem_cons_self

/-- An element above all others is the latest once it is added. -/
theorem latestBy_concat (h : ∀ b ∈ l, height b < height a) :
    latestBy height (l ++ [a]) = some a := by
  induction l with
  | nil => rfl
  | cons b _ ih =>
    simp only [cons_append, latestBy, ih (fun c hc => h c (mem_cons_of_mem _ hc))]
    rw [if_pos (h b mem_cons_self)]

/-- No element is above the latest one. -/
theorem le_of_latestBy (h : latestBy height l = some a) : ∀ b ∈ l, height b ≤ height a := by
  induction l generalizing a with
  | nil => cases h
  | cons b rest ih =>
    simp only [latestBy] at h
    split at h <;> grind [latestBy_eq_none_iff]

/-- The latest element is also the latest of those that are chosen, if it is one. -/
theorem latestBy_filter {p : α → Bool} (h : latestBy height l = some a) (ha : p a = true) :
    latestBy height (l.filter p) = some a := by
  induction l with
  | nil => cases h
  | cons b rest ih =>
    -- an element of the same height that comes later does not count
    have hle := fun c hc => @le_of_latestBy _ height rest c hc
    have hmem := fun c hc => @mem_of_latestBy _ height (rest.filter p) c hc
    simp only [latestBy] at h
    split at h <;> grind [latestBy, latestBy_eq_none_iff]

/-- The latest element of an image is the image of the latest element. -/
theorem latestBy_map {f : α → β} {height' : β → ℕ} (h : ∀ a ∈ l, height' (f a) = height a) :
    latestBy height' (l.map f) = (latestBy height l).map f := by
  induction l with
  | nil => rfl
  | cons a rest ih =>
    have hrest : ∀ b ∈ rest, height' (f b) = height b := fun b hb =>
      h b (mem_cons_of_mem _ hb)
    simp only [map_cons, latestBy, ih hrest]
    cases hlatest : latestBy height rest with
    | none => rfl
    | some b =>
      simp only [Option.map_some]
      rw [h a mem_cons_self, hrest b (mem_of_latestBy hlatest)]
      split <;> rfl

end Xeqm.Lib
