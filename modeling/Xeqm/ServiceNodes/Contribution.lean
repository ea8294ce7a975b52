import Xeqm.ServiceNodes.Registration

/-!
# Contributions

`state_t::process_contribution_tx`: how a stake is checked against the slots and
the amounts that a node has left, and how it is booked.
-/

namespace Xeqm.ServiceNodes

open Cryptonote Lib

variable (hfVersion : Hf) (info : ServiceNodeInfo)

/-- What the scan over the contributors finds out for one staker. -/
structure StakerSlots where
  /-- Where the staker stands among the contributors, `none` for a new one. -/
  position : Option ℕ := none
  /-- What the staker has reserved and not filled. -/
  unfilledReserved : UInt64 := 0
  /-- How many others have a reservation to fill. -/
  otherReservations : ℕ := 0
  deriving DecidableEq

/-- The scan over the contributors from the `i`-th one on. -/
def scanContributors (address : AccountPublicAddress) :
    ℕ → List Contributor → StakerSlots → StakerSlots
  | _, [], slots => slots
  | i, c :: rest, slots =>
    scanContributors address (i + 1) rest
      (if c.address = address then
        { slots with
          position := some i
          unfilledReserved :=
            if c.amount < c.reserved then c.reserved - c.amount else slots.unfilledReserved }
      else if c.amount < c.reserved then
        { slots with otherReservations := slots.otherReservations + 1 }
      else slots)

/-- The slots of a staker of a node. -/
def stakerSlots (address : AccountPublicAddress) : StakerSlots :=
  scanContributors address 0 info.contributors {}

/-- The check of the number of contributions. -/
def tooManyContributions (slots : StakerSlots) (stake : StakingComponents) : Bool :=
  let existing := info.totalNumLockedContributions
  if hfVersion ≥ Hf.hf19RewardBatching then
    existing + slots.otherReservations + 1 > maxContributorsHf19
  else if hfVersion ≥ Hf.hf16Pulse then
    existing + slots.otherReservations + 1 > maxContributorsV1
  else if hfVersion ≥ Hf.hf11InfiniteStaking then
    existing + stake.lockedContributions.length > maxContributorsV1
  else slots.position = none ∧ info.contributors.length ≥ maxContributorsV1

/-- The smallest stake that is accepted. -/
def minContribution (slots : StakerSlots) : UInt64 :=
  let existing := info.totalNumLockedContributions
  if slots.position ≠ none ∧ hfVersion < Hf.hf11InfiniteStaking then 1
  else if hfVersion < Hf.hf16Pulse then
    getMinNodeContribution hfVersion info.stakingRequirement info.totalReserved existing
  else if slots.unfilledReserved > 0 then slots.unfilledReserved
  else getMinNodeContribution hfVersion info.stakingRequirement info.totalReserved
    (existing + slots.otherReservations)

/-- The largest stake that is accepted: the staker's own reservation counts as
free. -/
def maxContribution (slots : StakerSlots) : UInt64 :=
  getMaxNodeContribution hfVersion info.stakingRequirement
    (info.totalReserved - slots.unfilledReserved)

/-- The checks of `process_contribution_tx` on a stake for a known node. -/
def acceptsStake (stake : StakingComponents) : Bool :=
  let slots := stakerSlots info stake.address
  !info.isFullyFunded &&
    !(hfVersion ≥ Hf.hf16Pulse && stake.lockedContributions.length ≠ 1) &&
    !tooManyContributions hfVersion info slots stake &&
    minContribution hfVersion info slots ≤ stake.transferred &&
    stake.transferred ≤ maxContribution hfVersion info slots

/-- How much of a stake counts: at most what fills the contributor's reservation
and the part of the requirement that nobody reserved. -/
def creditedAmount (c : Contributor) (transferred : UInt64) : UInt64 :=
  min (c.reserved + (info.stakingRequirement - info.totalReserved) - c.amount) transferred

/-- A contributor after a stake. -/
def creditContributor (stake : StakingComponents) (c : Contributor) : Contributor :=
  let amount := c.amount + creditedAmount info c stake.transferred
  { c with
    amount := amount
    reserved := if amount > c.reserved then amount else c.reserved
    lockedContributions :=
      if hfVersion ≥ Hf.hf11InfiniteStaking then
        c.lockedContributions ++ stake.lockedContributions
      else c.lockedContributions }

/-- The contributors with a place for the staker, and that place. -/
def stakerPlace (address : AccountPublicAddress) : List Contributor × ℕ :=
  match (stakerSlots info address).position with
  | some i => (info.contributors, i)
  | none => (info.contributors ++ [{ address := address }], info.contributors.length)

/-- A node after a stake for its contributor `c` at a position. -/
def creditNode (stake : StakingComponents) (contributors : List Contributor) (position : ℕ)
    (c : Contributor) : ServiceNodeInfo :=
  let credited := creditedAmount info c stake.transferred
  { info with
    contributors := contributors.set position (creditContributor hfVersion info stake c)
    totalContributed := info.totalContributed + credited
    totalReserved :=
      if c.amount + credited > c.reserved then
        info.totalReserved + (c.amount + credited - c.reserved)
      else info.totalReserved }

/-- A node after an accepted stake. -/
def bookStake (blockHeight : ℕ) (index : UInt32) (info : ServiceNodeInfo)
    (stake : StakingComponents) : ServiceNodeInfo :=
  let place := stakerPlace info stake.address
  let credited := creditNode hfVersion info stake place.1 place.2 (place.1.getD place.2 {})
  { credited with
    lastRewardBlockHeight := UInt64.ofNat blockHeight
    lastRewardTransactionIndex := index
    activeSinceHeight :=
      if credited.isFullyFunded then Int64.ofNat blockHeight else info.activeSinceHeight }

/-- `state_t::process_contribution_tx`: the state after it, and whether the stake
filled the node. -/
def processContributionTx {σ : Type} (chain : Chain σ) (block : Block) (tx : Transaction)
    (index : UInt32) (state : State) : State × Bool :=
  if block.majorVersion ≥ ethBls then (state, false)
  else
    match txGetStakingComponentsAndAmounts chain.crypto chain.net.nettype block.majorVersion tx
        block.height with
    | none => (state, false)
    | some stake =>
      match state.serviceNodesInfos.get? stake.serviceNodePubkey with
      | none => (state, false)
      | some info =>
        if acceptsStake block.majorVersion info stake then
          let info := bookStake block.majorVersion block.height index info stake
          ({ state with
              serviceNodesInfos := state.serviceNodesInfos.set stake.serviceNodePubkey info },
            info.isFullyFunded)
        else (state, false)

end Xeqm.ServiceNodes
