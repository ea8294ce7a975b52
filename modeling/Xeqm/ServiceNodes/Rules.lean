import Xeqm.ServiceNodes.Info

/-!
# Staking rules

The amounts of `service_node_rules.cpp`: the staking requirement, the smallest
and largest contribution a node accepts, and the check of the stakes that a
registration reserves. All amounts are unsigned 64-bit numbers and wrap around
as they do in the source.
-/

namespace Xeqm.ServiceNodes

open Cryptonote

/-- `COIN`. -/
def coin : UInt64 := 1000000000

/-- `OXEN_STAKING_REQUIREMENT`. -/
def oxenStakingRequirement : UInt64 := 200000 * coin

/-- `OXEN_STAKING_REQUIREMENT_TESTNET`. -/
def oxenStakingRequirementTestnet : UInt64 := 100000 * coin

/-- `SESH_STAKING_REQUIREMENT`, the same on every network. -/
def seshStakingRequirement : UInt64 := 100000 * coin

/-- `MAX_CONTRIBUTORS_HF19`. -/
def maxContributorsHf19 : ℕ := 11

/-- `MAX_CONTRIBUTORS_V1`. -/
def maxContributorsV1 : ℕ := 4

/-- `old::STAKING_PORTIONS`. -/
def stakingPortions : UInt64 := 0xfffffffffffffffc

/-- `STAKING_FEE_BASIS`. -/
def stakingFeeBasis : UInt64 := 10000

/-- `MINIMUM_OPERATOR_CONTRIBUTION`. -/
def minimumOperatorContribution (stakingRequirement : UInt64) : UInt64 := stakingRequirement / 2

/-- `mul128_div64`: the low 64 bits of a 128-bit product divided. -/
def mul128Div64 (a b c : UInt64) : UInt64 := UInt64.ofNat (a.toNat * b.toNat / c.toNat)

/-- `get_default_staking_requirement` for a hard fork. -/
def getDefaultStakingRequirement (nettype : NetworkType) (hardfork : Hf) : UInt64 :=
  if hardfork < Hf.hf16Pulse then
    if nettype = .mainnet then oxenStakingRequirement else oxenStakingRequirementTestnet
  else if hardfork ≥ ethBls then seshStakingRequirement
  else if nettype = .mainnet then oxenStakingRequirement
  else oxenStakingRequirementTestnet

/-- `get_max_node_contribution`. -/
def getMaxNodeContribution (version : Hf) (stakingRequirement totalReserved : UInt64) : UInt64 :=
  if version ≥ Hf.hf16Pulse then (stakingRequirement - totalReserved) * 101 / 100
  else 0xffffffffffffffff

/-- `get_min_node_contribution_pre_v11`. -/
def getMinNodeContributionPreV11 (stakingRequirement totalReserved : UInt64) : UInt64 :=
  min (stakingRequirement - totalReserved)
    (stakingRequirement / UInt64.ofNat maxContributorsV1)

/-- `get_min_node_contribution`. -/
def getMinNodeContribution (version : Hf) (stakingRequirement totalReserved : UInt64)
    (numContributions : ℕ) : UInt64 :=
  if version < Hf.hf11InfiniteStaking then
    getMinNodeContributionPreV11 stakingRequirement totalReserved
  else
    let needed := stakingRequirement - totalReserved
    let maxContributors :=
      if version ≥ Hf.hf19RewardBatching then maxContributorsHf19 else maxContributorsV1
    if maxContributors ≤ numContributions then 0xffffffffffffffff
    else if version ≥ ethBls then 1
    else needed / UInt64.ofNat (maxContributors - numContributions)

/-- The loop of `check_service_node_stakes` from the `i`-th stake on. It returns
what is left of the requirement, or `none` when a stake is refused. -/
def checkStakesFrom (hfVersion : Hf) (stakingRequirement : UInt64) :
    ℕ → UInt64 → UInt64 → List UInt64 → Option UInt64
  | _, _, remaining, [] => some remaining
  | i, reserved, remaining, stake :: rest =>
    let minStake :=
      if i = 0 then minimumOperatorContribution stakingRequirement
      else getMinNodeContribution hfVersion stakingRequirement reserved i
    if stake < minStake then none
    else if stake > remaining then none
    else checkStakesFrom hfVersion stakingRequirement (i + 1) (reserved + stake)
      (remaining - stake) rest

/-- `check_service_node_stakes`. -/
def checkServiceNodeStakes (hfVersion : Hf) (stakingRequirement : UInt64)
    (stakes : List UInt64) : Bool :=
  if hfVersion < Hf.hf19RewardBatching then false
  else if stakes.length > maxContributorsHf19 then false
  else
    match checkStakesFrom hfVersion stakingRequirement 0 0 stakingRequirement stakes with
    | none => false
    | some remaining => if hfVersion ≥ ethBls then remaining = 0 else true

/-- The loop of `check_service_node_portions`. -/
def checkPortionsFrom (hfVersion : Hf) : ℕ → UInt64 → UInt64 → List UInt64 → Bool
  | _, _, _, [] => true
  | i, reserved, remaining, portion :: rest =>
    if portion < getMinNodeContribution hfVersion stakingPortions reserved i then false
    else if portion > remaining then false
    else checkPortionsFrom hfVersion (i + 1) (reserved + portion) (remaining - portion) rest

/-- `check_service_node_portions`: portions are always checked by the rules of
HF18, and are refused after HF19. -/
def checkServiceNodePortions (hfVersion : Hf) (portions : List UInt64) : Bool :=
  if hfVersion > Hf.hf19RewardBatching then false
  else
    let hfVersion := if hfVersion = Hf.hf19RewardBatching then Hf.hf18 else hfVersion
    if portions.length > maxContributorsV1 then false
    else checkPortionsFrom hfVersion 0 0 stakingPortions portions

end Xeqm.ServiceNodes
