import Mathlib.Data.Fintype.Card

/-!
# Votes of a finite set of voters

Two large sets of voters have voters in common, more than any small set of exceptions
can hold.
-/

namespace Xeqm.Lib

open List

variable {V : Type*} [Fintype V] [DecidableEq V]

/-- How many voters two sets have in common. -/
theorem card_add_card_le (A B : Finset V) : A.card + B.card ≤ (A ∩ B).card + Fintype.card V := by
  have hunion := Finset.card_union_add_card_inter A B
  have hle := Finset.card_le_univ (A ∪ B)
  omega

/-- Two sets that are large enough have a voter in common that is no exception. -/
theorem exists_common_voter {A B E : Finset V} (h : Fintype.card V + E.card < A.card + B.card) :
    ∃ v, v ∈ A ∧ v ∈ B ∧ v ∉ E := by
  have hcommon : E.card < (A ∩ B).card := by
    have := card_add_card_le A B
    omega
  obtain ⟨v, hv, hE⟩ := Finset.exists_mem_notMem_of_card_lt_card hcommon
  obtain ⟨hA, hB⟩ := Finset.mem_inter.mp hv
  exact ⟨v, hA, hB, hE⟩

/-- Counting along the list of all voters counts the set. -/
theorem countP_finRange_eq_card {n : ℕ} (p : Fin n → Bool) :
    (List.finRange n).countP p = (Finset.univ.filter (fun v => p v = true)).card := by
  have hset : Finset.univ.filter (fun v => p v = true) = ((List.finRange n).filter p).toFinset := by
    ext v
    simp
  rw [hset, toFinset_card_of_nodup ((nodup_finRange n).filter p), countP_eq_length_filter]

end Xeqm.Lib
