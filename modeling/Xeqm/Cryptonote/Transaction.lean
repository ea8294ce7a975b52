import Xeqm.Crypto.Types
import Xeqm.Cryptonote.HardFork

/-!
# Transactions and blocks

The parts of `cryptonote_basic` and of `l2_tracker/events.h` that the service
node list reads. Parsing of the `tx_extra` blob is not modelled: a transaction
carries the fields that `get_field_from_tx_extra` finds in it, and a block its
hash and its height.
-/

namespace Xeqm.Cryptonote

/-- `txtype`. -/
inductive TxType
  | standard
  | stateChange
  | keyImageUnlock
  | stake
  | oxenNameSystem
  | ethereumServiceNodeExitRequest
  | ethereumServiceNodeExit
  | ethereumStakingRequirementUpdated
  | ethereumPurgeMissingServiceNode
  | ethereumNewServiceNodeV2
  deriving DecidableEq

/-- `tx_extra_service_node_register`. -/
structure TxExtraServiceNodeRegister where
  publicSpendKeys : List PublicKey
  publicViewKeys : List PublicKey
  fee : UInt64
  amounts : List UInt64
  /-- Below 256 the hard fork of the registration, otherwise an expiry time. -/
  hfOrExpiration : UInt64
  signature : Signature
  deriving DecidableEq

/-- `tx_extra_tx_key_image_proofs::proof`. -/
structure KeyImageProof where
  keyImage : KeyImage
  signature : Signature
  deriving DecidableEq

/-- `tx_extra_tx_key_image_unlock`. -/
structure TxExtraTxKeyImageUnlock where
  keyImage : KeyImage
  signature : Signature
  nonce : UInt32
  deriving DecidableEq

/-- `service_nodes::new_state`. -/
inductive NewState
  | deregister
  | decommission
  | recommission
  | ipChangePenalty
  deriving DecidableEq

/-- `tx_extra_service_node_state_change::vote`. -/
structure StateChangeVote where
  signature : Signature
  validatorIndex : UInt32
  deriving DecidableEq

/-- `tx_extra_service_node_state_change`. -/
structure TxExtraServiceNodeStateChange where
  state : NewState
  blockHeight : UInt64
  serviceNodeIndex : UInt32
  reasonConsensusAll : UInt16 := 0
  reasonConsensusAny : UInt16 := 0
  votes : List StateChangeVote := []
  deriving DecidableEq

/-- `tx_extra_service_node_deregister_old`, the form before HF12. -/
structure TxExtraServiceNodeDeregisterOld where
  blockHeight : UInt64
  serviceNodeIndex : UInt32
  votes : List StateChangeVote
  deriving DecidableEq

/-- `eth::event::ContributorV2`. -/
structure ContributorV2 where
  address : EthAddress
  beneficiary : EthAddress
  amount : UInt64
  deriving DecidableEq

/-- `eth::event::NewServiceNodeV2`. -/
structure NewServiceNodeV2 where
  snPubkey : PublicKey
  blsPubkey : BlsPublicKey
  edSignature : Signature
  fee : UInt64
  contributors : List ContributorV2
  deriving DecidableEq

/-- `eth::event::StateChangeVariant`, without the chain id and the L2 height. -/
inductive StateChangeVariant
  | none
  | newServiceNodeV2 (event : NewServiceNodeV2)
  | serviceNodeExitRequest (blsPubkey : BlsPublicKey)
  | serviceNodeExit (blsPubkey : BlsPublicKey) (returnedAmount : UInt64)
  | stakingRequirementUpdated (stakingRequirement : UInt64)
  | serviceNodePurge (blsPubkey : BlsPublicKey)
  deriving DecidableEq

/-- `transaction`: its type, its outputs and the fields of its extra. -/
structure Transaction where
  hash : Hash := 0
  type : TxType := .standard
  /-- `vout`: the key of each output that is a `txout_to_key`. -/
  vout : List (Option PublicKey) := []
  /-- The unlock time of each output, before infinite staking. -/
  outputUnlockTimes : List UInt64 := []
  registration : Option TxExtraServiceNodeRegister := Option.none
  serviceNodePubkey : Option PublicKey := Option.none
  serviceNodeContributor : Option AccountPublicAddress := Option.none
  txSecretKey : Option SecretKey := Option.none
  keyImageProofs : Option (List KeyImageProof) := Option.none
  keyImageUnlock : Option TxExtraTxKeyImageUnlock := Option.none
  stateChange : Option TxExtraServiceNodeStateChange := Option.none
  deregisterOld : Option TxExtraServiceNodeDeregisterOld := Option.none
  /-- `eth::extract_event`. -/
  event : StateChangeVariant := StateChangeVariant.none
  deriving DecidableEq

/-- `pulse_header`. -/
structure PulseHeader where
  randomValue : Blob 16 := 0
  round : UInt8 := 0
  validatorBitset : UInt16 := 0
  deriving DecidableEq

/-- `service_nodes::quorum_signature`. -/
structure QuorumSignature where
  voterIndex : UInt16
  signature : Signature
  deriving DecidableEq

/-- `block`. -/
structure Block where
  majorVersion : Hf
  /-- `get_height`. -/
  height : ℕ
  /-- `get_block_hash`. -/
  hash : Hash
  prevId : Hash := 0
  timestamp : UInt64 := 0
  nonce : UInt32 := 0
  reward : UInt64 := 0
  /-- Key and amount of the outputs of the miner transaction, if there is one. -/
  minerVouts : List (PublicKey × UInt64) := []
  pulse : PulseHeader := {}
  signatures : List QuorumSignature := []
  txHashes : List Hash := []
  l2Votes : List Bool := []
  /-- The service node winner named by the miner transaction, null if none. -/
  serviceNodeWinner : PublicKey := 0
  /-- `sn_winner_tail`. -/
  snWinnerTail : Blob 4 := 0
  deriving DecidableEq

/-- `pulse_header::empty`. -/
def PulseHeader.empty (pulse : PulseHeader) : Bool :=
  pulse.validatorBitset = 0 ∧ pulse.randomValue = 0

/-- The voter index of the signature on a fallback miner block. -/
def fallbackMinerVoterIndex : UInt16 := 0xFFFF

/-- `block_header::has_pulse_header`. -/
def Block.hasPulseHeader (block : Block) : Bool :=
  block.majorVersion ≥ Hf.hf16Pulse && !block.pulse.empty

/-- `block::has_pulse`. -/
def Block.hasPulse (block : Block) : Bool :=
  block.majorVersion ≥ Hf.hf16Pulse &&
    (block.hasPulseHeader || block.signatures.any (fun s => s.voterIndex ≠ fallbackMinerVoterIndex))

/-- `transaction::get_max_type_for_hf`, reduced to the one question asked of it:
whether staking transactions have a type of their own. -/
def stakingTxType (hf : Hf) : TxType := if hf < Hf.hf14Blink then .standard else .stake

end Xeqm.Cryptonote
