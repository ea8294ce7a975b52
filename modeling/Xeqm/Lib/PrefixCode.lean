import Mathlib.Data.List.Basic

/-!
# Concatenations of a prefix code

An encoding whose words are no prefixes of one another can be read back from a concatenation
of its words, as far as a word determines what it encodes.
-/

namespace Xeqm.Lib

open List

variable {α β γ : Type*}

/-- A word followed by something determines the key of what it encodes and what follows. -/
def PrefixFree (encode : α → List β) (key : α → γ) : Prop :=
  ∀ a b x y, encode a ++ x = encode b ++ y → key a = key b ∧ x = y

/-- A concatenation of words determines the keys of what they encode. -/
theorem PrefixFree.map_eq_of_flatMap_eq {encode : α → List β} {key : α → γ}
    (h : PrefixFree encode key) (hne : ∀ a, encode a ≠ []) {as bs : List α}
    (heq : as.flatMap encode = bs.flatMap encode) : as.map key = bs.map key := by
  induction as generalizing bs with
  | nil =>
    cases bs with
    | nil => rfl
    | cons b => exact absurd (append_eq_nil_iff.mp heq.symm).1 (hne b)
  | cons a _ ih =>
    cases bs with
    | nil => exact absurd (append_eq_nil_iff.mp heq).1 (hne a)
    | cons b =>
      obtain ⟨hkey, hrest⟩ := h a b _ _ heq
      rw [map_cons, map_cons, hkey, ih hrest]

end Xeqm.Lib
