import Mathlib.Tactic.Abel
import Xeqm.Rewards.Shares

/-!
# Block rewards

The reward of a block and its split: `get_base_block_reward` with the penalty for heavy blocks,
`get_oxen_block_reward`, and the distribution of an amount by the portions of a payout. Amounts and
weights are unsigned 64-bit numbers.
-/

namespace Xeqm.Coinbase

open Cryptonote Lib ServiceNodes Rewards List
open UInt64 (le_iff_toNat_le lt_iff_toNat_lt toNat_sub_of_le toNat_mul)

/-! ## Payouts -/

/-- `payout_entry`. -/
structure PayoutEntry where
  address : AccountPublicAddress
  portions : UInt64
  deriving DecidableEq

/-- `payout`. -/
structure Payout where
  key : PublicKey := 0
  payouts : List PayoutEntry := []
  deriving DecidableEq

/-- `null_payout`. -/
def nullPayout : Payout := { payouts := [⟨nullAddress, stakingPortions⟩] }

/-- The entry of a contributor in `service_node_payout_portions`. -/
def payoutEntry (info : ServiceNodeInfo) (contributor : Contributor) : PayoutEntry :=
  let portionsAfterFee := stakingPortions - info.portionsForOperator
  let portion := mul128Div64 contributor.amount portionsAfterFee info.stakingRequirement
  { address := contributor.address
    portions :=
      if contributor.address = info.operatorAddress then portion + info.portionsForOperator
      else portion }

/-- `service_node_payout_portions`. -/
def serviceNodePayoutPortions (key : PublicKey) (info : ServiceNodeInfo) : Payout :=
  if info.stakingRequirement = 0 then { key }
  else { key, payouts := info.contributors.map (payoutEntry info) }

/-- `get_portion_of_reward`. -/
def getPortionOfReward (portions totalServiceNodeReward : UInt64) : UInt64 :=
  mul128Div64 totalServiceNodeReward portions stakingPortions

/-- `distribute_reward_by_portions`. -/
def distributeRewardByPortions (payout : List PayoutEntry) (totalReward : UInt64)
    (distributeRemainder : Bool) : List UInt64 :=
  let result := payout.map (fun entry => getPortionOfReward entry.portions totalReward)
  let paidReward := result.sum
  match distributeRemainder, result with
  | true, first :: rest => (first + (totalReward - paidReward)) :: rest
  | _, result => result

/-- `calculate_sum_of_portions`. -/
def calculateSumOfPortions (payout : List PayoutEntry) (totalServiceNodeReward : UInt64) : UInt64 :=
  (payout.map (fun entry => getPortionOfReward entry.portions totalServiceNodeReward)).sum

/-! ## Amounts -/

/-- `BLOCK_REWARD_HF15`. -/
def blockRewardHf15 : UInt64 := 25000000000

/-- `SN_REWARD_HF15`. -/
def snRewardHf15 : UInt64 := blockRewardHf15 * 66 / 100

/-- `FOUNDATION_REWARD_HF15`. -/
def foundationRewardHf15 : UInt64 := blockRewardHf15 * 10 / 100

/-- `CHAINFLIP_LIQUIDITY_HF16`. -/
def chainflipLiquidityHf16 : UInt64 := blockRewardHf15 * 24 / 100

/-- `BLOCK_REWARD_HF17`. -/
def blockRewardHf17 : UInt64 := 18333333333

/-- `FOUNDATION_REWARD_HF17`. -/
def foundationRewardHf17 : UInt64 := 1833333333

/-- `SN_REWARD_HF19`. -/
def snRewardHf19 : UInt64 := 8250000000

/-- `FOUNDATION_REWARD_HF19`. -/
def foundationRewardHf19 : UInt64 := 12400000000

/-- `BLOCK_REWARD_HF19`. -/
def blockRewardHf19 : UInt64 := snRewardHf19 + foundationRewardHf19

/-- `BLOCK_GRANTED_FULL_REWARD_ZONE_V5`, which `get_min_block_weight` returns. -/
def fullRewardZone : UInt64 := 300000

/-- `governance_reward_formula`. -/
def governanceRewardFormula (hfVersion : Hf) (baseReward : UInt64) : UInt64 :=
  if hfVersion ≥ ethBls then 0
  else if hfVersion ≥ Hf.hf19RewardBatching then foundationRewardHf19
  else if hfVersion ≥ Hf.hf17 then foundationRewardHf17
  else if hfVersion ≥ Hf.hf16Pulse then foundationRewardHf15 + chainflipLiquidityHf16
  else if hfVersion ≥ Hf.hf15Ons then foundationRewardHf15
  else baseReward / 20

/-- `service_node_reward_formula`. -/
def serviceNodeRewardFormula (baseReward : UInt64) (hfVersion : Hf) : UInt64 :=
  if hfVersion ≥ Hf.hf19RewardBatching then snRewardHf19
  else if hfVersion ≥ Hf.hf15Ons then snRewardHf15
  else if hfVersion ≥ Hf.hf9ServiceNodes then baseReward / 2
  else 0

/-- `block_reward_unpenalized_formula_v7`. -/
def blockRewardUnpenalizedFormulaV7 (alreadyGeneratedCoins : UInt64) : UInt64 :=
  let emissionLinearBase : UInt64 := 2 ^ 61
  let emissionSupplyComponent := alreadyGeneratedCoins * 19 / 10
  if emissionSupplyComponent > emissionLinearBase then 0
  else (emissionLinearBase - emissionSupplyComponent) / 2000000

/-- The reward of the first block with coins. -/
def premine : UInt64 := 276786541324700000

/-! ## The reward of a block -/

/-- The penalized reward of a block that is heavier than the median. The median is cut to 32 bits
for the divisions. -/
def penalizedReward (baseReward medianWeight currentBlockWeight : UInt64) : UInt64 :=
  let multiplicand := (2 * medianWeight - currentBlockWeight) * currentBlockWeight
  let divisor := medianWeight.toNat % 2 ^ 32
  UInt64.ofNat (baseReward.toNat * multiplicand.toNat / divisor / divisor)

/-- `get_base_block_reward`: the reward and the reward without the penalty. The formula of HF8
computes with floating point numbers, and the premine has no reward without a penalty. -/
def getBaseBlockReward (formulaV8 : ℕ → UInt64)
    (medianWeight currentBlockWeight alreadyGeneratedCoins : UInt64) (version : Hf) (height : ℕ) :
    Option (UInt64 × UInt64) :=
  if alreadyGeneratedCoins = 0 then some (premine, 0)
  else
    let baseReward :=
      if version ≥ Hf.hf19RewardBatching then blockRewardHf19
      else if version ≥ Hf.hf17 then blockRewardHf17
      else if version ≥ Hf.hf15Ons then blockRewardHf15
      else if version ≥ Hf.hf8 then formulaV8 height
      else blockRewardUnpenalizedFormulaV7 alreadyGeneratedCoins
    let medianWeight := max medianWeight fullRewardZone
    if currentBlockWeight ≤ medianWeight then some (baseReward, baseReward)
    else if currentBlockWeight > 2 * medianWeight then none
    else some (penalizedReward baseReward medianWeight currentBlockWeight, baseReward)

/-- `block_reward_parts`. -/
structure BlockRewardParts where
  serviceNodeTotal : UInt64 := 0
  governanceDue : UInt64 := 0
  governancePaid : UInt64 := 0
  baseMiner : UInt64 := 0
  minerFee : UInt64 := 0
  originalBaseReward : UInt64 := 0
  deriving DecidableEq

/-- `oxen_block_reward_context`. -/
structure BlockRewardContext where
  height : ℕ
  fee : UInt64
  batchedGovernance : UInt64
  blockLeaderPayouts : List PayoutEntry := []

/-- `get_oxen_block_reward`. -/
def getOxenBlockReward (formulaV8 : ℕ → UInt64)
    (medianWeight currentBlockWeight alreadyGeneratedCoins : UInt64) (hfVersion : Hf)
    (context : BlockRewardContext) : Option BlockRewardParts :=
  if hfVersion ≥ ethBls then none
  else
    match getBaseBlockReward formulaV8 medianWeight currentBlockWeight alreadyGeneratedCoins
        hfVersion context.height with
    | none => none
    | some (baseReward, baseRewardUnpenalized) =>
      if baseReward = 0 then none
      else if alreadyGeneratedCoins = 0 then
        some { originalBaseReward := baseReward, baseMiner := baseReward }
      else
        let originalBaseReward :=
          if hfVersion ≥ Hf.hf13EnforceCheckpoints then baseRewardUnpenalized else baseReward
        let governanceDue := governanceRewardFormula hfVersion originalBaseReward
        let governancePaid :=
          if hfVersion ≥ Hf.hf10Bulletproofs then context.batchedGovernance else governanceDue
        let serviceNodeReward := serviceNodeRewardFormula originalBaseReward hfVersion
        if hfVersion < Hf.hf16Pulse then
          let serviceNodeTotal :=
            calculateSumOfPortions context.blockLeaderPayouts serviceNodeReward
          let nonMinerAmounts := governanceDue + serviceNodeTotal
          some
            { serviceNodeTotal, governanceDue, governancePaid, originalBaseReward
              baseMiner := if baseReward > nonMinerAmounts then baseReward - nonMinerAmounts else 0
              minerFee := context.fee }
        else
          let penalty := baseRewardUnpenalized - baseReward
          let allocated := governanceDue + serviceNodeReward
          let remainder := baseRewardUnpenalized - allocated
          if allocated > baseRewardUnpenalized ∨ remainder ≠ 0 then none
          else
            some
              { serviceNodeTotal := serviceNodeReward
                governanceDue, governancePaid, originalBaseReward
                minerFee := if penalty ≥ context.fee then 0 else context.fee - penalty }

/-! ## The penalty -/

/-- The larger of the median and the full reward zone. -/
abbrev effectiveMedian (medianWeight : UInt64) : UInt64 := max medianWeight fullRewardZone

theorem le_effectiveMedian (medianWeight : UInt64) : medianWeight ≤ effectiveMedian medianWeight := by
  change medianWeight ≤ if medianWeight ≤ fullRewardZone then fullRewardZone else medianWeight
  split
  · assumption
  · exact UInt64.le_refl _

section

variable {medianWeight coins : UInt64}

/-- No intermediate value of the penalty overflows, is below zero or is cut off. -/
structure PenaltyFits (baseReward medianWeight weight : UInt64) : Prop where
  double : (2 * medianWeight).toNat = 2 * medianWeight.toNat
  room : (2 * medianWeight - weight).toNat + weight.toNat = 2 * medianWeight.toNat
  multiplicand : ((2 * medianWeight - weight) * weight).toNat =
    (2 * medianWeight.toNat - weight.toNat) * weight.toNat
  divisor : medianWeight.toNat % 2 ^ 32 = medianWeight.toNat
  quotient : baseReward.toNat * ((2 * medianWeight - weight) * weight).toNat /
    medianWeight.toNat / medianWeight.toNat < 2 ^ 64

theorem toNat_double (hmedian : medianWeight.toNat < 2 ^ 32) :
    (2 * medianWeight).toNat = 2 * medianWeight.toNat := by
  change 2 * medianWeight.toNat % 2 ^ 64 = _
  omega

/-- The heavier the block, the smaller the factor of the penalty. -/
theorem penaltyFactor_antitone {m w w' : ℕ} (hm : m ≤ w) (hw : w ≤ w') :
    (2 * m - w') * w' ≤ (2 * m - w) * w := by
  by_cases hle : w' ≤ 2 * m
  · zify [hle, hw.trans hle]
    nlinarith
  · simp [show 2 * m - w' = 0 by omega]

theorem penaltyFactor_le {m w : ℕ} (hm : m ≤ w) : (2 * m - w) * w ≤ m ^ 2 := by
  have hfactor := penaltyFactor_antitone (le_refl m) hm
  rwa [show 2 * m - m = m by omega, ← Nat.pow_two] at hfactor

section

variable {medianWeight weight : UInt64} (hmedian : medianWeight.toNat < 2 ^ 32)
  (hgt : medianWeight < weight) (hle : weight ≤ 2 * medianWeight) (baseReward : UInt64)

include hmedian hgt hle

/-- The penalty is exact. -/
theorem penaltyFits : PenaltyFits baseReward medianWeight weight ∧
    (penalizedReward baseReward medianWeight weight).toNat = baseReward.toNat *
      ((2 * medianWeight.toNat - weight.toNat) * weight.toNat) / medianWeight.toNat ^ 2 := by
  have hdouble := toNat_double hmedian
  have hfactor := penaltyFactor_le (lt_iff_toNat_lt.mp hgt).le
  have hroom := toNat_sub_of_le _ _ hle
  have hle' := le_iff_toNat_le.mp hle
  rw [hdouble] at hroom hle'
  have hsmall : medianWeight.toNat ^ 2 < 2 ^ 64 := Nat.pow_lt_pow_left hmedian (by decide)
  have hmultiplicand : ((2 * medianWeight - weight) * weight).toNat =
      (2 * medianWeight.toNat - weight.toNat) * weight.toNat := by
    rw [toNat_mul, hroom, Nat.mod_eq_of_lt (hfactor.trans_lt hsmall)]
  have hquotient : baseReward.toNat * ((2 * medianWeight.toNat - weight.toNat) * weight.toNat) /
      medianWeight.toNat ^ 2 < 2 ^ 64 := by
    refine (Nat.div_le_of_le_mul ?_).trans_lt baseReward.toNat_lt
    rw [mul_comm]
    exact Nat.mul_le_mul_right _ hfactor
  have hdivisor := Nat.mod_eq_of_lt hmedian
  constructor
  · refine ⟨hdouble, by omega, hmultiplicand, hdivisor, ?_⟩
    rwa [hmultiplicand, Nat.div_div_eq_div_mul, ← Nat.pow_two]
  · rw [penalizedReward, UInt64.toNat_ofNat', hdivisor, hmultiplicand, Nat.div_div_eq_div_mul,
      ← Nat.pow_two, Nat.mod_eq_of_lt hquotient]

/-- The reward of a heavy block is not above the base reward. -/
theorem penalizedReward_le : penalizedReward baseReward medianWeight weight ≤ baseReward := by
  rw [le_iff_toNat_le, (penaltyFits hmedian hgt hle baseReward).2]
  refine Nat.div_le_of_le_mul ?_
  rw [mul_comm]
  exact Nat.mul_le_mul_right _ (penaltyFactor_le (lt_iff_toNat_lt.mp hgt).le)

end

/-- The reward of a block that is not the first, by its weight. -/
theorem getBaseBlockReward_eq (formulaV8 : ℕ → UInt64) (medianWeight : UInt64) (hcoins : coins ≠ 0)
    (hfVersion : Hf) (height : ℕ) :
    ∃ base, ∀ weight, getBaseBlockReward formulaV8 medianWeight weight coins hfVersion height =
      if weight ≤ effectiveMedian medianWeight then some (base, base)
      else if weight > 2 * effectiveMedian medianWeight then none
      else some (penalizedReward base (effectiveMedian medianWeight) weight, base) := by
  simp only [getBaseBlockReward, if_neg hcoins]
  exact ⟨_, fun _ => rfl⟩

theorem effectiveMedian_lt (hmedian : medianWeight.toNat < 2 ^ 32) :
    (effectiveMedian medianWeight).toNat < 2 ^ 32 := by
  change (if medianWeight ≤ fullRewardZone then fullRewardZone else medianWeight).toNat < _
  split
  · decide
  · exact hmedian

/-- A block that is rewarded gets the base reward up to the median, and above it exactly the part
of it that the penalty leaves. Heavier blocks do not get more. -/
theorem getBaseBlockReward_exact {formulaV8 : ℕ → UInt64} {medianWeight weight : UInt64} {height : ℕ}
    {reward base : UInt64} (hmedian : medianWeight.toNat < 2 ^ 32) (hcoins : coins ≠ 0)
    (h : getBaseBlockReward formulaV8 medianWeight weight coins hfVersion height =
      some (reward, base)) :
    (weight ≤ effectiveMedian medianWeight → reward = base) ∧
    (effectiveMedian medianWeight < weight →
      PenaltyFits base (effectiveMedian medianWeight) weight ∧
      reward.toNat = base.toNat * ((2 * (effectiveMedian medianWeight).toNat - weight.toNat) *
        weight.toNat) / (effectiveMedian medianWeight).toNat ^ 2) ∧
    reward ≤ base ∧
    ∀ weight' reward' base', weight ≤ weight' →
      getBaseBlockReward formulaV8 medianWeight weight' coins hfVersion height =
        some (reward', base') → base' = base ∧ reward' ≤ reward := by
  obtain ⟨base₀, heq⟩ := getBaseBlockReward_eq formulaV8 medianWeight hcoins hfVersion height
  have hsmall := effectiveMedian_lt hmedian
  simp only [heq] at h ⊢
  split at h
  · rename_i hlight
    cases h
    refine ⟨fun _ => rfl, fun hgt => absurd hlight (UInt64.not_le.mpr hgt), UInt64.le_refl _, ?_⟩
    intro weight' reward' base' _ h'
    split at h'
    · cases h'
      exact ⟨rfl, UInt64.le_refl _⟩
    · rename_i hheavy
      split at h'
      · cases h'
      rename_i hfits
      cases h'
      exact ⟨rfl, penalizedReward_le hsmall (UInt64.not_le.mp hheavy) (UInt64.not_lt.mp hfits) _⟩
  · rename_i hheavy
    have hgt := UInt64.not_le.mp hheavy
    split at h
    · cases h
    rename_i hfits
    have hle := UInt64.not_lt.mp hfits
    cases h
    refine ⟨fun hlight => absurd hlight hheavy, fun _ => penaltyFits hsmall hgt hle _,
      penalizedReward_le hsmall hgt hle _, ?_⟩
    intro weight' reward' base' hweight h'
    have hgt' := UInt64.lt_of_lt_of_le hgt hweight
    rw [if_neg (UInt64.not_le.mpr hgt')] at h'
    split at h'
    · cases h'
    rename_i hfits'
    cases h'
    rw [le_iff_toNat_le, (penaltyFits hsmall hgt' (UInt64.not_lt.mp hfits') _).2,
      (penaltyFits hsmall hgt hle _).2]
    exact ⟨rfl, Nat.div_le_div_right (Nat.mul_le_mul_left _ (penaltyFactor_antitone
      (lt_iff_toNat_lt.mp hgt).le (le_iff_toNat_le.mp hweight)))⟩

/-- A block of one and a sixth of the median. -/
theorem getBaseBlockReward_exact_heavy :
    ∃ reward, getBaseBlockReward (fun _ => 0) 300000 350000 1 Hf.hf19RewardBatching 0 =
      some (reward, blockRewardHf19) ∧ reward ≤ blockRewardHf19 := by
  have h : getBaseBlockReward (fun _ => 0) 300000 350000 1 Hf.hf19RewardBatching 0 =
      some (penalizedReward blockRewardHf19 300000 350000, blockRewardHf19) := by decide +kernel
  exact ⟨_, h, (getBaseBlockReward_exact (by decide) (by decide) h).2.2.1⟩

end

/-! ## Splits -/

/-- The first recipient takes what the rounding leaves. -/
theorem distributeRewardByPortions_cons (entry : PayoutEntry) (rest : List PayoutEntry)
    (total : UInt64) :
    distributeRewardByPortions (entry :: rest) total true =
      (getPortionOfReward entry.portions total + (total - (getPortionOfReward entry.portions total +
        (rest.map (fun entry => getPortionOfReward entry.portions total)).sum))) ::
      rest.map (fun entry => getPortionOfReward entry.portions total) := rfl

variable {payout : List PayoutEntry}

/-- The remainder completes a split, whatever the portions are. -/
theorem sum_distributeRewardByPortions (hne : payout ≠ []) (total : UInt64) :
    (distributeRewardByPortions payout total true).sum = total := by
  obtain ⟨entry, rest, rfl⟩ := exists_cons_of_ne_nil hne
  rw [distributeRewardByPortions_cons, sum_cons]
  abel

/-- Portions of a total come to at most the portions of the sum. -/
theorem sum_getPortionOfReward_le (payout : List PayoutEntry) (total : UInt64) :
    ((payout.map (fun entry => getPortionOfReward entry.portions total)).map UInt64.toNat).sum ≤
      total.toNat * (payout.map (fun entry => entry.portions.toNat)).sum /
        stakingPortions.toNat := by
  induction payout with
  | nil => simp
  | cons entry rest ih =>
    simp only [map_cons, sum_cons] at ih ⊢
    have hone := mul128Div64_le total entry.portions stakingPortions
    have hsum := @Nat.div_add_div_le_add_div (total.toNat * entry.portions.toNat)
      (total.toNat * (rest.map (fun entry => entry.portions.toNat)).sum) stakingPortions.toNat
    rw [← Nat.mul_add] at hsum
    unfold getPortionOfReward at ih ⊢
    omega

/-- The portions of a payout are at most the whole. -/
def WithinWhole (payout : List PayoutEntry) : Prop :=
  (payout.map (fun entry => entry.portions.toNat)).sum ≤ stakingPortions.toNat

/-- Such a payout leaves a remainder and no debt. -/
theorem WithinWhole.paid_le (h : WithinWhole payout) (total : UInt64) :
    ((payout.map (fun entry => getPortionOfReward entry.portions total)).map UInt64.toNat).sum ≤
      total.toNat := by
  refine (sum_getPortionOfReward_le payout total).trans ?_
  refine Nat.div_le_of_le_mul ?_
  rw [mul_comm]
  exact Nat.mul_le_mul_right _ h

/-- The parts add up to the total as numbers. -/
theorem WithinWhole.sum_eq (h : WithinWhole payout) (hne : payout ≠ []) (total : UInt64) :
    ((distributeRewardByPortions payout total true).map UInt64.toNat).sum = total.toNat := by
  have hpaid := h.paid_le total
  have hlt := total.toNat_lt
  obtain ⟨entry, rest, rfl⟩ := exists_cons_of_ne_nil hne
  rw [distributeRewardByPortions_cons]
  simp only [map_cons, sum_cons] at hpaid ⊢
  have hrest := @toNat_sum_of_lt (rest.map (fun entry => getPortionOfReward entry.portions total))
    (by omega)
  have hsum : (getPortionOfReward entry.portions total +
      (rest.map (fun entry => getPortionOfReward entry.portions total)).sum).toNat =
      (getPortionOfReward entry.portions total).toNat +
        ((rest.map (fun entry => getPortionOfReward entry.portions total)).map
          UInt64.toNat).sum := by
    rw [UInt64.toNat_add, hrest, Nat.mod_eq_of_lt (by omega)]
  have hle : getPortionOfReward entry.portions total +
      (rest.map (fun entry => getPortionOfReward entry.portions total)).sum ≤ total := by
    rw [UInt64.le_iff_toNat_le, hsum]
    exact hpaid
  rw [UInt64.toNat_add, UInt64.toNat_sub_of_le _ _ hle, hsum, Nat.mod_eq_of_lt (by omega)]
  omega

/-- What a payout by stakes needs: the stakes are recorded and at most the requirement, the fee is
at most everything, and no address occurs twice. -/
structure PayableStakes (info : ServiceNodeInfo) : Prop extends FairShares info where
  contributed : info.totalContributed.toNat =
    (info.contributors.map (fun c => c.amount.toNat)).sum
  addresses : (info.contributors.map Contributor.address).Nodup
  requirement_ne : info.stakingRequirement ≠ 0

variable {info : ServiceNodeInfo}

/-- A node whose books are in order can be paid. -/
theorem payableStakes_of_soundStakes (h : SoundStakes info)
    (hfee : info.portionsForOperator ≤ stakingPortions) (hne : info.stakingRequirement ≠ 0) :
    PayableStakes info :=
  { fairShares_of_soundStakes h hfee with
    contributed := h.contributed, addresses := h.addresses, requirement_ne := hne }

/-- The portions of some contributors with different addresses: their stakes of what is left after
the fee, and the fee if the operator is one of them. -/
theorem sum_payoutEntry_le (info : ServiceNodeInfo) {contributors : List Contributor}
    (hnodup : (contributors.map Contributor.address).Nodup) :
    (contributors.map (fun c => (payoutEntry info c).portions.toNat)).sum ≤
      (contributors.map (fun c => c.amount.toNat)).sum *
          (stakingPortions - info.portionsForOperator).toNat / info.stakingRequirement.toNat +
        (if info.operatorAddress ∈ contributors.map Contributor.address then
          info.portionsForOperator.toNat else 0) := by
  induction contributors with
  | nil => simp
  | cons c rest ih =>
    rw [map_cons, nodup_cons] at hnodup
    have hih := ih hnodup.2
    simp only [map_cons, sum_cons, mem_cons]
    have hshare := mul128Div64_le c.amount (stakingPortions - info.portionsForOperator)
      info.stakingRequirement
    have hsum := @Nat.div_add_div_le_add_div
      (c.amount.toNat * (stakingPortions - info.portionsForOperator).toNat)
      ((rest.map (fun c => c.amount.toNat)).sum *
        (stakingPortions - info.portionsForOperator).toNat) info.stakingRequirement.toNat
    rw [← Nat.add_mul] at hsum
    by_cases hoperator : c.address = info.operatorAddress
    · have hnot : info.operatorAddress ∉ rest.map Contributor.address := hoperator ▸ hnodup.1
      have hone : (payoutEntry info c).portions.toNat ≤
          (mul128Div64 c.amount (stakingPortions - info.portionsForOperator)
            info.stakingRequirement).toNat + info.portionsForOperator.toNat := by
        unfold payoutEntry
        dsimp only
        rw [if_pos hoperator, UInt64.toNat_add]
        exact Nat.mod_le _ _
      rw [if_neg hnot] at hih
      rw [if_pos (.inl hoperator.symm)]
      omega
    · have hone : (payoutEntry info c).portions = mul128Div64 c.amount
          (stakingPortions - info.portionsForOperator) info.stakingRequirement := by
        unfold payoutEntry
        dsimp only
        rw [if_neg hoperator]
      rw [hone]
      have hiff : (info.operatorAddress = c.address ∨
          info.operatorAddress ∈ rest.map Contributor.address) ↔
          info.operatorAddress ∈ rest.map Contributor.address :=
        or_iff_right fun heq => hoperator heq.symm
      rw [if_congr hiff rfl rfl]
      omega

/-- The portions of a payable node are at most the whole. -/
theorem PayableStakes.withinWhole (h : PayableStakes info) (key : PublicKey) :
    WithinWhole (serviceNodePayoutPortions key info).payouts := by
  unfold serviceNodePayoutPortions WithinWhole
  rw [if_neg h.requirement_ne, map_map]
  refine (sum_payoutEntry_le info h.addresses).trans ?_
  have hfee := UInt64.le_iff_toNat_le.mp h.fee_le
  have hafter := UInt64.toNat_sub_of_le _ _ h.fee_le
  have hshares : (info.contributors.map (fun c => c.amount.toNat)).sum *
      (stakingPortions - info.portionsForOperator).toNat / info.stakingRequirement.toNat ≤
      (stakingPortions - info.portionsForOperator).toNat := by
    refine Nat.div_le_of_le_mul ?_
    exact Nat.mul_le_mul_right _ h.contributed_le
  split <;> omega

/-- A node that is funded has contributors to pay. -/
theorem PayableStakes.payouts_ne_nil (h : PayableStakes info) (hfunded : info.isFullyFunded = true)
    (key : PublicKey) :
    (serviceNodePayoutPortions key info).payouts ≠ [] := by
  unfold serviceNodePayoutPortions
  rw [if_neg h.requirement_ne]
  intro hnil
  have hnone : info.contributors = [] := map_eq_nil_iff.mp hnil
  have htotal := h.contributed
  rw [hnone] at htotal
  have hle := UInt64.le_iff_toNat_le.mp (of_decide_eq_true hfunded)
  have hzero : info.stakingRequirement.toNat = 0 := by
    change info.totalContributed.toNat = 0 at htotal
    omega
  exact h.requirement_ne (UInt64.toNat_inj.mp hzero)

/-- Everything goes to one address if there is no leader. -/
theorem withinWhole_nullPayout : WithinWhole nullPayout.payouts := by
  simp [WithinWhole, nullPayout]

end Xeqm.Coinbase
