import Mathlib.Algebra.GroupWithZero.Nat
import Mathlib.Data.Fintype.Card

/-!
# Sets of small numbers as the bits of a word

A set of members numbered below sixteen, kept as the bits of a 16-bit word, and the
count of its members.
-/

namespace Xeqm.Lib

open List

/-- Whether the bit of a number is set. -/
def hasBit (bits : UInt16) (i : ℕ) : Bool := bits.toNat.testBit i

/-- `1 << i`. -/
def bitOf (i : ℕ) : UInt16 := 1 <<< UInt16.ofNat i

/-- `std::popcount`. -/
def popcount (bits : UInt16) : ℕ := (List.range 16).countP (hasBit bits)

section

variable {a b : UInt16} {i j : ℕ}

@[simp]
theorem hasBit_zero (i : ℕ) : hasBit 0 i = false := Nat.zero_testBit i

@[simp]
theorem hasBit_or (a b : UInt16) (i : ℕ) : hasBit (a ||| b) i = (hasBit a i || hasBit b i) := by
  simp [hasBit, UInt16.toNat_or]

theorem hasBit_bitOf (hi : i < 16) : hasBit (bitOf i) j = decide (i = j) := by
  have hnat : ∀ k : Fin 16, (bitOf k).toNat = 2 ^ k.val := by decide
  rw [hasBit, hnat ⟨i, hi⟩, Nat.testBit_two_pow]

/-- Without high bits only the lower ones count. -/
theorem popcount_eq_countP {n : ℕ} (hn : n ≤ 16) (hhigh : ∀ i, n ≤ i → hasBit a i = false) :
    popcount a = (List.finRange n).countP (fun i : Fin n => hasBit a i) := by
  obtain ⟨m, hm⟩ := Nat.exists_eq_add_of_le hn
  have hrest : ((List.range m).map (n + ·)).countP (hasBit a) = 0 := by
    rw [countP_eq_zero]
    intro i hi
    obtain ⟨j, -, rfl⟩ := mem_map.mp hi
    rw [hhigh _ (Nat.le_add_right n j)]
    decide
  rw [popcount, hm, range_add, countP_append, hrest, add_zero,
    ← map_coe_finRange_eq_range, countP_map]
  rfl

/-- Without high bits a word is small. -/
theorem toNat_lt_of_hasBit {n : ℕ} (hhigh : ∀ i, n ≤ i → hasBit a i = false) :
    a.toNat < 2 ^ n := Nat.lt_pow_two_of_testBit _ hhigh

end

end Xeqm.Lib
