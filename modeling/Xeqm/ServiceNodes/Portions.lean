import Mathlib.Algebra.Order.Floor.Div
import Mathlib.Data.UInt
import Xeqm.ServiceNodes.Rules

/-!
# Portions of a stake

128-bit arithmetic in 64-bit words (`int-util.h`) and the conversion between amounts and
portions that is built on it (`service_node_rules.cpp`).
-/

namespace Xeqm.ServiceNodes

/-- The number of a high and a low word. -/
def words (hi lo : UInt64) : ℕ := hi.toNat * 2 ^ 64 + lo.toNat

/-- The high and the low word of a number. -/
def toWords (n : ℕ) : UInt64 × UInt64 := (UInt64.ofNat (n / 2 ^ 64), UInt64.ofNat n)

/-- `mul128`. -/
def mul128 (multiplier multiplicand : UInt64) : UInt64 × UInt64 :=
  toWords (multiplier.toNat * multiplicand.toNat)

/-- `div128_64`. -/
def div128_64 (hi lo divisor : UInt64) : UInt64 × UInt64 := toWords (words hi lo / divisor.toNat)

/-- `portions_to_amount`. -/
def portionsToAmount (portions stakingRequirement : UInt64) : UInt64 :=
  mul128Div64 stakingRequirement portions stakingPortions

/-- `get_portions_to_make_amount`. -/
def getPortionsToMakeAmount (stakingRequirement amount : UInt64)
    (maxPortions : UInt64 := stakingPortions) : UInt64 :=
  let (hi, lo) := mul128 amount maxPortions
  let hi := if lo > 0xFFFFFFFFFFFFFFFF - (stakingRequirement - 1) then hi + 1 else hi
  let lo := lo + (stakingRequirement - 1)
  (div128_64 hi lo stakingRequirement).2

variable {requirement amount : UInt64}

/-- The sum of the product and what rounds it up fits into two words. -/
theorem words_roundedUp (hpos : 0 < requirement.toNat) :
    let (hi, lo) := mul128 amount stakingPortions
    words (if lo > 0xFFFFFFFFFFFFFFFF - (requirement - 1) then hi + 1 else hi)
        (lo + (requirement - 1)) =
      amount.toNat * stakingPortions.toNat + requirement.toNat - 1 := by
  have hfits := requirement.toNat_lt
  have hone : (requirement - 1).toNat = requirement.toNat - 1 :=
    UInt64.toNat_sub_of_le _ _ (UInt64.le_iff_toNat_le.mpr hpos)
  have hgap : (0xFFFFFFFFFFFFFFFF - (requirement - 1)).toNat = 2 ^ 64 - requirement.toNat := by
    simp only [UInt64.toNat_sub, hone, UInt64.reduceToNat]
    omega
  have hhigh : amount.toNat * stakingPortions.toNat / 2 ^ 64 + 1 < 2 ^ 64 := by
    have := amount.toNat_lt
    rw [show stakingPortions.toNat = 2 ^ 64 - 4 from rfl]
    omega
  simp only [mul128, toWords, words, gt_iff_lt, UInt64.lt_iff_toNat_lt, UInt64.toNat_add,
    apply_ite UInt64.toNat, UInt64.toNat_ofNat', UInt64.reduceToNat, hone, hgap,
    Nat.mod_eq_of_lt hhigh, Nat.mod_eq_of_lt (Nat.lt_of_succ_lt hhigh)]
  split_ifs <;> omega

/-- The quotient rounded up fits into one word. -/
theorem toNat_getPortionsToMakeAmount (hpos : 0 < requirement.toNat)
    (hle : amount.toNat ≤ requirement.toNat) :
    (getPortionsToMakeAmount requirement amount).toNat =
      (amount.toNat * stakingPortions.toNat) ⌈/⌉ requirement.toNat := by
  have hfits : (amount.toNat * stakingPortions.toNat) ⌈/⌉ requirement.toNat < 2 ^ 64 :=
    lt_of_le_of_lt ((ceilDiv_le_iff_le_mul hpos).mpr (Nat.mul_le_mul_right _ hle))
      stakingPortions.toNat_lt
  simp only [getPortionsToMakeAmount, div128_64, words_roundedUp hpos, toWords, UInt64.toNat_ofNat']
  exact Nat.mod_eq_of_lt hfits

/-- Portions up to the whole are worth an amount that fits into a word. -/
theorem toNat_portionsToAmount {portions : UInt64} (hle : portions ≤ stakingPortions) :
    (portionsToAmount portions requirement).toNat =
      requirement.toNat * portions.toNat / stakingPortions.toNat := by
  rw [portionsToAmount, mul128Div64, UInt64.toNat_ofNat']
  refine Nat.mod_eq_of_lt (lt_of_le_of_lt (Nat.div_le_of_le_mul ?_) requirement.toNat_lt)
  rw [mul_comm]
  exact Nat.mul_le_mul_right _ (UInt64.le_iff_toNat_le.mp hle)

/-- The portions for an amount are the least that are worth at least the amount, and no
conversion overflows. -/
theorem getPortionsToMakeAmount_isLeast (hpos : 0 < requirement) (hle : amount ≤ requirement) :
    IsLeast { p | amount ≤ portionsToAmount p requirement }
      (getPortionsToMakeAmount requirement amount) ∧
    (getPortionsToMakeAmount requirement amount).toNat =
      (amount.toNat * stakingPortions.toNat) ⌈/⌉ requirement.toNat ∧
    (portionsToAmount (getPortionsToMakeAmount requirement amount) requirement).toNat =
      requirement.toNat * (getPortionsToMakeAmount requirement amount).toNat /
        stakingPortions.toNat := by
  replace hpos : 0 < requirement.toNat := UInt64.lt_iff_toNat_lt.mp hpos
  replace hle := UInt64.le_iff_toNat_le.mp hle
  have hceil := toNat_getPortionsToMakeAmount hpos hle
  generalize getPortionsToMakeAmount requirement amount = portions at hceil ⊢
  have hwhole : portions ≤ stakingPortions := by
    rw [UInt64.le_iff_toNat_le, hceil, ceilDiv_le_iff_le_mul hpos]
    exact Nat.mul_le_mul_right _ hle
  have hworth {p : UInt64} (hp : p ≤ stakingPortions) :
      amount ≤ portionsToAmount p requirement ↔ portions ≤ p := by
    rw [UInt64.le_iff_toNat_le, toNat_portionsToAmount hp, Nat.le_div_iff_mul_le (by decide),
      UInt64.le_iff_toNat_le, hceil, ceilDiv_le_iff_le_mul hpos]
  refine ⟨⟨(hworth hwhole).mpr (UInt64.le_refl _), fun p hp => ?_⟩, hceil,
    toNat_portionsToAmount hwhole⟩
  by_contra hlt
  have hp' := UInt64.le_of_lt (UInt64.not_le.mp hlt)
  exact hlt ((hworth (UInt64.le_trans hp' hwhole)).mp hp)

theorem getPortionsToMakeAmount_isLeast_five : (0 : UInt64) < 5 ∧ (3 : UInt64) ≤ 5 ∧
    IsLeast { p | 3 ≤ portionsToAmount p 5 } (getPortionsToMakeAmount 5 3) :=
  ⟨by decide, by decide, (getPortionsToMakeAmount_isLeast (by decide) (by decide)).1⟩

end Xeqm.ServiceNodes
