import Mathlib.Data.UInt

/-!
# Medians

`tools::median` of `common/median.h`.
-/

namespace Xeqm.Tools

/-- The values in ascending order. -/
def sortValues (values : List UInt64) : List UInt64 :=
  values.insertionSort (fun a b => a.toNat ≤ b.toNat)

/-- `median`: the middle value, or the mean of the two middle ones. -/
def median (values : List UInt64) : UInt64 :=
  let size := values.length
  if size = 0 then 0
  else
    let sorted := sortValues values
    let mid := sorted.getD ((size - 1) / 2) 0
    if size % 2 = 1 then mid else (mid + sorted.getD ((size - 1) / 2 + 1) 0) / 2

example : median [5, 1, 3] = 3 ∧ median [4, 1, 3, 9] = 3 := by decide +kernel

end Xeqm.Tools
