import Xeqm.ServiceNodes.List

/-!
# Verifying a block against the list

`service_node_list::verify_block` with the checks that it calls: the signatures
of quorums and checkpoints, the timings of Pulse rounds and the components of
miner and Pulse blocks. Times are in seconds.
-/

namespace Xeqm.ServiceNodes

open Cryptonote Lib

variable (crypto : Crypto) (nettype : NetworkType)

/-! ## Signatures -/

/-- `CHECKPOINT_MIN_VOTES`. -/
def checkpointMinVotes : ℕ := 13

/-- `PULSE_BLOCK_REQUIRED_SIGNATURES`. -/
def pulseBlockRequiredSignatures : ℕ := 7

/-- `MAX_QUORUM_SIZE` of `verify_quorum_signatures`. -/
def maxQuorumSize : ℕ := max checkpointQuorumSize pulseQuorumNumValidators

/-- Whether the number of signatures suits the quorum, and for Pulse the bits of
the block. -/
def hasQuorumShape (type : QuorumType) (signatures : List QuorumSignature)
    (block : Option Block) : Bool :=
  match type with
  | .checkpointing =>
    checkpointMinVotes ≤ signatures.length ∧ signatures.length ≤ checkpointQuorumSize
  | .pulse =>
    signatures.length = pulseBlockRequiredSignatures ∧
      block.any (fun b => b.pulse.validatorBitset.toNat < 2 ^ pulseQuorumNumValidators)
  | _ => true

/-- Whether a validator takes part in the round of a Pulse block. -/
def participates (type : QuorumType) (block : Option Block) (voterIndex : UInt16) : Bool :=
  match type with
  | .pulse => block.any (fun b => b.pulse.validatorBitset.toNat.testBit voterIndex.toNat)
  | _ => true

/-- The loop of `verify_quorum_signatures`, with the voters seen so far. -/
def verifySignatures (crypto : Crypto) (quorum : Quorum) (type : QuorumType) (ordered : Bool)
    (hash : Hash) (block : Option Block) : List UInt16 → List QuorumSignature → Bool
  | _, [] => true
  | seen, vote :: rest =>
    if ordered ∧ rest.head?.any (fun next => vote.voterIndex ≥ next.voterIndex) then false
    else
      match quorum.validators[vote.voterIndex.toNat]? with
      | none => false
      | some key =>
        if !participates type block vote.voterIndex then false
        else if vote.voterIndex.toNat ≥ maxQuorumSize then false
        else if vote.voterIndex ∈ seen then false
        else if !crypto.checkSignature hash key vote.signature then false
        else verifySignatures crypto quorum type ordered hash block (vote.voterIndex :: seen) rest

/-- `verify_quorum_signatures`. -/
def verifyQuorumSignatures (quorum : Quorum) (type : QuorumType) (hfVersion : Hf) (hash : Hash)
    (signatures : List QuorumSignature) (block : Option Block) : Bool :=
  let ordered := type ≠ .checkpointing ∨ hfVersion ≥ Hf.hf13EnforceCheckpoints
  hasQuorumShape type signatures block &&
    verifySignatures crypto quorum type ordered hash block [] signatures

/-- `checkpoint_type`. -/
inductive CheckpointType
  | hardcoded
  | serviceNode
  deriving DecidableEq

/-- `checkpoint_t`. -/
structure Checkpoint where
  type : CheckpointType
  height : ℕ
  blockHash : Hash
  signatures : List QuorumSignature := []
  deriving DecidableEq

/-- `verify_checkpoint`. -/
def verifyCheckpoint (hfVersion : Hf) (checkpoint : Checkpoint) (quorum : Quorum) : Bool :=
  match checkpoint.type with
  | .serviceNode =>
    checkpoint.height % checkpointInterval = 0 &&
      verifyQuorumSignatures crypto quorum .checkpointing hfVersion checkpoint.blockHash
        checkpoint.signatures none
  | .hardcoded => checkpoint.signatures.length = 0

/-! ## Timings -/

/-- What verification reads of the rest of the node. -/
structure NodeView where
  /-- `get_current_blockchain_height`. -/
  currentHeight : ℕ
  /-- `get_block_timestamp`, with `none` for a height without a block. -/
  getBlockTimestamp : ℕ → Option UInt64
  /-- `pulse::clock::now`. -/
  now : ℤ

/-- `pulse::max_rounds`. -/
def maxRounds (version : Hf) (snodeRevision : UInt8) : ℕ :=
  if pulseRecovery version snodeRevision then 4
  else if version ≥ Hf.hf22SnPolicy then (getConfig nettype).pulseMinerFallbackRounds
  else 255

/-- `pulse::timings`, as far as verification reads them. -/
structure Timings where
  r0Timestamp : ℤ := 0
  minerFallbackTimestamp : ℤ := 0

/-- `pulse::get_round_timings`. -/
def getRoundTimings (net : Network) (view : NodeView) (blockHeight : ℕ) (prevTimestamp : UInt64) :
    Option Timings := do
  let conf := getConfig net.nettype
  let hf16 ← hardForkBegins net Hf.hf16Pulse
  if view.currentHeight < hf16 then none
  else
    let genesisHeight := sizeSub hf16 1
    let genesisTimestamp ← view.getBlockTimestamp genesisHeight
    let ideal : ℤ :=
      genesisTimestamp.toNat + conf.targetBlockTime * sizeSub blockHeight genesisHeight
    let next : ℤ := prevTimestamp.toNat + conf.targetBlockTime
    let r0 := max (next - conf.pulseMaxStartAdjustment)
      (min ideal (next + conf.pulseMaxStartAdjustment))
    let version := getNetworkVersionRevision net blockHeight
    some
      { r0Timestamp := r0
        minerFallbackTimestamp :=
          r0 + conf.pulseRoundTimeout * maxRounds net.nettype version.1 version.2 }

/-- `check_pulse_timestamps`. -/
def checkPulseTimestamps : Bool := nettype ≠ .fakechain

/-! ## Components -/

/-- The fallback signature of a miner block: from HF22 on one by an authorized key,
before it none. -/
def verifyFallback (block : Block) : Bool :=
  if block.majorVersion ≥ Hf.hf22SnPolicy then
    let keys := (getConfig nettype).fallbackMinerPubkeys
    match block.signatures with
    | [vote] => vote.voterIndex = fallbackMinerVoterIndex &&
        keys.any (fun key => crypto.checkSignature block.hash key vote.signature)
    | _ => false
  else block.signatures.length = 0

/-- `verify_block_components` for a miner block. -/
def verifyMinerBlock (block : Block) : Bool :=
  !block.hasPulse && block.pulse.round = 0 && block.pulse.validatorBitset = 0 &&
    verifyFallback crypto nettype block

/-- Whether the timestamp of a Pulse block lies in its round. -/
def isInRound (timings : Timings) (block : Block) : Bool :=
  let roundTimeout : ℤ := (getConfig nettype).pulseRoundTimeout
  let roundBegin := timings.r0Timestamp + block.pulse.round.toNat * roundTimeout
  roundBegin ≤ block.timestamp.toNat ∧ block.timestamp.toNat ≤ roundBegin + roundTimeout

/-- The signatures of a Pulse block. An alternative block may belong to the main
quorum or to one of an alternative state. -/
def verifyPulseQuorums (altBlock : Bool) (block : Block) (pulseQuorum : Option Quorum)
    (altPulseQuorums : List Quorum) : Bool :=
  let verify (quorum : Quorum) := verifyQuorumSignatures crypto quorum .pulse block.majorVersion
    block.hash block.signatures (some block)
  if altBlock then pulseQuorum.any verify || altPulseQuorums.any verify
  else pulseQuorum.any verify

/-- `verify_block_components` for a Pulse block. -/
def verifyPulseBlock (altBlock : Bool) (timings : Timings) (block : Block)
    (pulseQuorum : Option Quorum) (altPulseQuorums : List Quorum) : Bool :=
  block.hasPulse && (!checkPulseTimestamps nettype || isInRound nettype timings block) &&
    block.nonce = 0 && verifyPulseQuorums crypto altBlock block pulseQuorum altPulseQuorums

/-! ## The block -/

section

variable {σ : Type} (chain : Chain σ) (view : NodeView)

variable (l : ServiceNodeList) (block : Block) (altBlock : Bool)

/-- The check of a checkpoint that comes with a block. -/
def verifyBlockCheckpoint (checkpoint : Option Checkpoint) : Except Fault Unit :=
  match checkpoint with
  | none => .ok ()
  | some checkpoint =>
    if block.majorVersion < Hf.hf13EnforceCheckpoints then .ok ()
    else
      match l.getQuorum .checkpointing checkpoint.height false with
      | none => .error .checkpointQuorumNotFound
      | some quorum =>
        let verify := verifyCheckpoint chain.crypto block.majorVersion checkpoint
        if verify quorum ||
            (altBlock && (l.altQuorums .checkpointing checkpoint.height).any verify) then .ok ()
        else .error .invalidCheckpoint

/-- The timestamp of the block before. -/
def prevTimestamp : Except Fault UInt64 :=
  let found :=
    if altBlock then (chain.db.findBlock block.prevId).map Block.timestamp
    else view.getBlockTimestamp (sizeSub block.height 1)
  match found with
  | some timestamp => .ok timestamp
  | none => .error .blockNotFound

/-- The timings of the rounds, zero before Pulse. -/
def blockTimings : Except Fault Timings :=
  if block.majorVersion < Hf.hf16Pulse then .ok {}
  else do
    let timestamp ← prevTimestamp chain view block altBlock
    match getRoundTimings chain.net view block.height timestamp with
    | some timings => .ok timings
    | none => .error .noRoundTimings

/-- The quorum that may have signed the block, none once the miners may step in. -/
def verifyingQuorum (timings : Timings) (block : Block) : Option Quorum :=
  if block.majorVersion < Hf.hf16Pulse then none
  else if checkPulseTimestamps chain.net.nettype ∧
      timings.minerFallbackTimestamp ≤ block.timestamp.toNat then none
  else l.getQuorum .pulse block.height false

/-- The components of an alternative block: first as a Pulse block, then as one of
a miner. -/
def verifyAltComponents (timings : Timings) (block : Block) : Bool :=
  (block.majorVersion ≥ Hf.hf16Pulse &&
    verifyPulseBlock chain.crypto chain.net.nettype true timings block
      (verifyingQuorum chain l timings block) (l.altQuorums .pulse block.height)) ||
    verifyMinerBlock chain.crypto chain.net.nettype block

/-- The components of a block of the main chain: without a quorum it has to be one
of a miner. -/
def verifyMainComponents (timings : Timings) (block : Block) : Bool :=
  match verifyingQuorum chain l timings block with
  | none => verifyMinerBlock chain.crypto chain.net.nettype block
  | some quorum =>
    verifyPulseBlock chain.crypto chain.net.nettype false timings block (some quorum) []

/-- `verify_block`. -/
def verifyBlock (checkpoint : Option Checkpoint) : Except Fault Unit := do
  if block.majorVersion < Hf.hf9ServiceNodes then .ok ()
  else
    verifyBlockCheckpoint chain l block altBlock checkpoint
    let timings ← blockTimings chain view block altBlock
    let verified :=
      if altBlock then verifyAltComponents chain l timings block
      else verifyMainComponents chain l timings block
    if verified then .ok () else .error .invalidBlockComponents

end

end Xeqm.ServiceNodes
