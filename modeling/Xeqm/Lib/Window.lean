import Mathlib.Data.List.DropRight

/-!
# The last entries of a list

A window over the last entries of a list that grows at its end can be kept by appending what is new
and cutting it to size again.
-/

namespace Xeqm.Lib

open List

variable {α β : Type*}

/-- The last `n` entries, or all if there are fewer. -/
def lastN (n : ℕ) (l : List α) : List α := l.drop (l.length - n)

theorem length_lastN (n : ℕ) (l : List α) : (lastN n l).length = min n l.length := by
  unfold lastN
  rw [length_drop]
  omega

theorem lastN_of_length_le {n : ℕ} {l : List α} (h : l.length ≤ n) : lastN n l = l := by
  unfold lastN
  rw [Nat.sub_eq_zero_of_le h, drop_zero]

theorem map_lastN {f : α → β} {n : ℕ} {l : List α} : (lastN n l).map f = lastN n (l.map f) := by
  unfold lastN
  rw [map_drop, length_map]

end Xeqm.Lib
