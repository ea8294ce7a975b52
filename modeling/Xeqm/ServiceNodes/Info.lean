import Xeqm.Crypto.Types
import Xeqm.Cryptonote.HardFork
import Xeqm.ServiceNodes.Swarm

/-!
# What the list knows about one service node

The records of `service_node_list.h` that describe a registered node: its
contributors with their locked stakes, and the node's own counters. Integer
fields have the width and sign of the source.
-/

namespace Xeqm.ServiceNodes

open Cryptonote

/-- `service_node_info::contribution_t`: one locked stake. -/
structure Contribution where
  version : UInt8 := 0
  keyImagePubKey : PublicKey := 0
  keyImage : KeyImage := 0
  amount : UInt64 := 0
  deriving DecidableEq

/-- `service_node_info::contributor_t`. -/
structure Contributor where
  version : UInt8 := 2
  amount : UInt64 := 0
  reserved : UInt64 := 0
  address : AccountPublicAddress := nullAddress
  ethereumAddress : EthAddress := 0
  ethereumBeneficiary : EthAddress := 0
  lockedContributions : List Contribution := []
  deriving DecidableEq

/-- `pulse_sort_key`. -/
structure PulseSortKey where
  lastHeightValidatingInQuorum : UInt64 := 0
  quorumIndex : UInt8 := 0
  deriving DecidableEq

/-- `service_node_info`. -/
structure ServiceNodeInfo where
  registrationHeight : UInt64 := 0
  requestedUnlockHeight : UInt64 := 0
  lastRewardBlockHeight : UInt64 := 0
  lastRewardTransactionIndex : UInt32 := 0
  decommissionCount : UInt32 := 0
  /-- The height since which the node is active, negated while decommissioned. -/
  activeSinceHeight : Int64 := 0
  lastDecommissionHeight : UInt64 := 0
  lastDecommissionReasonConsensusAll : UInt16 := 0
  lastDecommissionReasonConsensusAny : UInt16 := 0
  recommissionCredit : Int64 := 0
  contributors : List Contributor := []
  totalContributed : UInt64 := 0
  totalReserved : UInt64 := 0
  stakingRequirement : UInt64 := 0
  portionsForOperator : UInt64 := 0
  swarmId : SwarmId := 0
  operatorAddress : AccountPublicAddress := nullAddress
  operatorEthereumAddress : EthAddress := 0
  blsPublicKey : BlsPublicKey := 0
  lastIpChangeHeight : UInt64 := 0
  version : UInt8 := 8
  registrationHfVersion : Hf := 0
  pulseSorter : PulseSortKey := {}
  deriving DecidableEq

namespace ServiceNodeInfo

variable (info : ServiceNodeInfo)

/-- `is_fully_funded`. -/
def isFullyFunded : Bool :=
  info.totalContributed ≥ info.stakingRequirement

/-- `is_decommissioned`. -/
def isDecommissioned : Bool := info.activeSinceHeight < 0

/-- `is_active`. -/
def isActive : Bool := info.isFullyFunded && !info.isDecommissioned

/-- `total_num_locked_contributions`. -/
def totalNumLockedContributions : ℕ :=
  (info.contributors.map (fun c => c.lockedContributions.length)).sum

end ServiceNodeInfo

end Xeqm.ServiceNodes
