import Mathlib.Data.Nat.Basic

/-!
# Networks and hard forks

The hard fork tables of `cryptonote_basic/hardfork.cpp` and the queries the
service node code makes on them. A hard fork is identified by the block major
version from which it is in force. The table of the fake chain is set up by its
user, so it is part of the network here.
-/

namespace Xeqm.Cryptonote

/-- `hf`: a block major version. -/
abbrev Hf := UInt8

namespace Hf

/-- Hard fork constants under their names in the source. -/
def hf7 : Hf := 7
def hf8 : Hf := 8
def hf9ServiceNodes : Hf := 9
def hf10Bulletproofs : Hf := 10
def hf11InfiniteStaking : Hf := 11
def hf12Checkpointing : Hf := 12
def hf13EnforceCheckpoints : Hf := 13
def hf14Blink : Hf := 14
def hf15Ons : Hf := 15
def hf16Pulse : Hf := 16
def hf17 : Hf := 17
def hf18 : Hf := 18
def hf19RewardBatching : Hf := 19
def hf20GovernancePayoutsFix : Hf := 20
def hf21WeeklyBatching : Hf := 21
def hf22SnPolicy : Hf := 22
def hf20EthTransition : Hf := 23
def hf21Eth : Hf := 24
def hf22EthFixup : Hf := 25

end Hf

variable (net : Network) (version : Hf)

/-- `feature::ETH_TRANSITION`. -/
def ethTransition : Hf := Hf.hf20EthTransition

/-- `feature::ETH_BLS`. -/
def ethBls : Hf := Hf.hf21Eth

/-- `network_type`. -/
inductive NetworkType
  | mainnet
  | testnet
  | devnet
  | stagenet
  | localdev
  | fakechain
  | undefined
  deriving DecidableEq

/-- `hard_fork`, without the activation time. -/
structure HardFork where
  version : Hf
  snodeRevision : UInt8
  height : ℕ
  deriving DecidableEq

/-- A network together with the fork table of the fake chain. -/
structure Network where
  nettype : NetworkType
  /-- `fakechain_hardforks`. -/
  fakechainHardforks : List HardFork := []

/-- `mainnet_hard_forks`. -/
def mainnetHardForks : List HardFork :=
  [⟨Hf.hf7, 0, 0⟩, ⟨Hf.hf11InfiniteStaking, 0, 2⟩, ⟨Hf.hf12Checkpointing, 0, 3⟩,
    ⟨Hf.hf13EnforceCheckpoints, 0, 4⟩, ⟨Hf.hf14Blink, 0, 5⟩, ⟨Hf.hf15Ons, 0, 6⟩,
    ⟨Hf.hf16Pulse, 0, 750⟩, ⟨Hf.hf17, 0, 751⟩, ⟨Hf.hf18, 0, 752⟩,
    ⟨Hf.hf19RewardBatching, 0, 753⟩, ⟨Hf.hf19RewardBatching, 1, 754⟩,
    ⟨Hf.hf19RewardBatching, 2, 755⟩, ⟨Hf.hf19RewardBatching, 3, 756⟩,
    ⟨Hf.hf20GovernancePayoutsFix, 0, 37000⟩, ⟨Hf.hf21WeeklyBatching, 0, 99000⟩,
    ⟨Hf.hf22SnPolicy, 0, 219120⟩, ⟨Hf.hf22SnPolicy, 1, 236920⟩]

/-- `testnet_hard_forks`. -/
def testnetHardForks : List HardFork :=
  [⟨Hf.hf7, 0, 0⟩, ⟨Hf.hf11InfiniteStaking, 0, 2⟩, ⟨Hf.hf12Checkpointing, 0, 3⟩,
    ⟨Hf.hf13EnforceCheckpoints, 0, 4⟩, ⟨Hf.hf14Blink, 0, 5⟩, ⟨Hf.hf15Ons, 0, 6⟩,
    ⟨Hf.hf16Pulse, 0, 750⟩, ⟨Hf.hf17, 0, 751⟩, ⟨Hf.hf18, 0, 752⟩,
    ⟨Hf.hf19RewardBatching, 0, 753⟩, ⟨Hf.hf19RewardBatching, 1, 754⟩,
    ⟨Hf.hf19RewardBatching, 2, 755⟩, ⟨Hf.hf19RewardBatching, 3, 756⟩,
    ⟨Hf.hf20GovernancePayoutsFix, 0, 760⟩, ⟨Hf.hf21WeeklyBatching, 0, 1000⟩,
    ⟨Hf.hf22SnPolicy, 0, 1500⟩, ⟨Hf.hf22SnPolicy, 1, 1600⟩]

/-- `devnet_hard_forks`. -/
def devnetHardForks : List HardFork :=
  [⟨Hf.hf7, 0, 0⟩, ⟨Hf.hf14Blink, 0, 1⟩, ⟨Hf.hf21Eth, 0, 2⟩]

/-- `local_devnet_hard_forks`. -/
def localDevnetHardForks : List HardFork :=
  [⟨Hf.hf7, 0, 0⟩, ⟨Hf.hf14Blink, 0, 1⟩, ⟨Hf.hf16Pulse, 0, 40⟩, ⟨Hf.hf17, 0, 45⟩,
    ⟨Hf.hf18, 0, 46⟩, ⟨Hf.hf19RewardBatching, 0, 47⟩, ⟨Hf.hf20GovernancePayoutsFix, 0, 50⟩,
    ⟨Hf.hf20EthTransition, 0, 170⟩, ⟨Hf.hf21Eth, 0, 171⟩]

/-- `stagenet_hard_forks`. -/
def stagenetHardForks : List HardFork :=
  [⟨Hf.hf7, 0, 0⟩, ⟨Hf.hf14Blink, 0, 1⟩, ⟨Hf.hf21Eth, 0, 250⟩]

/-- `get_hard_forks`. -/
def getHardForks : List HardFork :=
  match net.nettype with
  | .mainnet => mainnetHardForks
  | .stagenet => stagenetHardForks
  | .testnet => testnetHardForks
  | .devnet => devnetHardForks
  | .localdev => localDevnetHardForks
  | .fakechain => net.fakechainHardforks
  | .undefined => []

/-- The first height of `get_hard_fork_heights`: where exactly this version
starts, if the table reaches it before a later version. -/
def hardForkFirstHeight (version : Hf) : List HardFork → Option ℕ
  | [] => none
  | fork :: rest =>
    if fork.version > version then none
    else if fork.version = version then some fork.height
    else hardForkFirstHeight version rest

/-- `hard_fork_ceil`: the lowest version of the table that is at least the given
one, or the given one. -/
def hardForkCeil : Hf :=
  match (getHardForks net).find? (fun fork => fork.version ≥ version) with
  | some fork => fork.version
  | none => version

/-- `hard_fork_begins`. -/
def hardForkBegins : Option ℕ :=
  hardForkFirstHeight (hardForkCeil net version) (getHardForks net)

/-- The scan of `get_network_version_revision`, which stops at the first fork
that lies above the height. -/
def networkVersionScan (height : ℕ) : List HardFork → Hf → Hf
  | [], result => result
  | fork :: rest, result =>
    if fork.height ≤ height then networkVersionScan height rest fork.version else result

/-- `get_network_version`. -/
def getNetworkVersion (height : ℕ) : Hf :=
  networkVersionScan height (getHardForks net) 0

/-- The same scan, with the revision. -/
def networkRevisionScan (height : ℕ) : List HardFork → Hf × UInt8 → Hf × UInt8
  | [], result => result
  | fork :: rest, result =>
    if fork.height ≤ height then networkRevisionScan height rest (fork.version, fork.snodeRevision)
    else result

/-- `get_network_version_revision`. -/
def getNetworkVersionRevision (height : ℕ) : Hf × UInt8 :=
  networkRevisionScan height (getHardForks net) (0, 0)

/-- `feature::pulse_recovery`. -/
def pulseRecovery (snodeRevision : UInt8) : Bool :=
  version > Hf.hf22SnPolicy ∨ (version = Hf.hf22SnPolicy ∧ snodeRevision ≥ 1)

/-- `is_hard_fork_at_least`. -/
def isHardForkAtLeast (height : ℕ) : Bool :=
  getNetworkVersion net height ≥ version

end Xeqm.Cryptonote
