import Xeqm.Pulse.State

/-!
# The stages of a Pulse round

The functions of `pulse_impl`, one for each state, and the pass of `check_state` that
calls them. What they read of the rest of the daemon is given for each pass.
-/

namespace Xeqm.Pulse

open Cryptonote ServiceNodes Lib

/-- What validating a template reads of a transaction in the pool. -/
structure PoolTx where
  /-- `is_l2_event_tx`. -/
  isL2EventTx : Bool
  /-- Whether `extract_event` finds the event. -/
  hasEvent : Bool
  /-- `get_vote_for`. -/
  vote : Bool

/-- What one pass finds outside of the node. -/
structure Surroundings where
  /-- `clock::now`, where a stage looks whether it is over or a round has begun. -/
  now : Time
  /-- `clock::now` in `begin_stage_timer`. -/
  timerNow : Time
  /-- `clock::now` in `reset_for_missing_validators`. -/
  retryNow : Time
  /-- The hash of the top block. -/
  topHash : Hash
  /-- `get_current_blockchain_height`, one above the top block. -/
  chainHeight : ℕ
  /-- Where round 0 of the next block starts, if `get_round_timings` knows. -/
  r0Timestamp : Option Time
  /-- `generate_pulse_quorum` for a round of the next block. -/
  generatePulseQuorum : UInt8 → Quorum
  /-- `get_service_keys().pub`. -/
  key : PublicKey
  /-- `generate_signature` with the keys of the node. -/
  sign : Hash → Signature
  /-- `generate_random_bytes_thread_safe`. -/
  randomValue : RandomValue
  /-- Whether sending a handshake or a bitset throws. -/
  sendThrows : Bool := false
  /-- Whether the node is an active service node. -/
  isActive : Bool := true
  /-- `create_next_pulse_block_template`, given the round and the bitset: the block, the
  state change transactions and the height. -/
  createTemplate : UInt8 → UInt16 → Option (List UInt8 × List (List UInt8) × ℕ) := fun _ _ => none
  /-- `get_l2_heights().synced`. -/
  l2Synced : ℕ := 0
  /-- `load_transactions`, for one hash. -/
  loadTransaction : Hash → Option PoolTx := fun _ => none
  /-- `l2_pending_state_votes`. -/
  l2PendingStateVotes : List Bool := []
  /-- `handle_incoming_tx`. -/
  handleIncomingTx : List UInt8 → Bool := fun _ => true
  /-- `handle_block_found`. -/
  handleBlockFound : PulseBlock → Bool := fun _ => true

/-- What a node was started with. -/
structure Setup where
  lib : Library
  net : Network

namespace Setup

variable (setup : Setup)

/-- `get_net_config`. -/
def conf : NetworkConfig := getConfig setup.net.nettype

/-- `hf20_compat_mode`: the chain has not reached HF21 yet. -/
def hf20CompatMode (around : Surroundings) : Bool :=
  match hardForkBegins setup.net Hf.hf21Eth with
  | none => true
  | some hf21 => around.chainHeight < hf21

end Setup

namespace Node

variable (setup : Setup) (around : Surroundings)

variable (node : Node)

/-! ## Common steps -/

/-- `msg_init`, with the signature. -/
def ownMessage (payload : Payload) (node : Node) : Message :=
  let msg : Message :=
    { quorumPosition := UInt16.ofNat node.round.myQuorumPosition
      round := node.round.number
      signature := 0
      payload }
  { msg with signature := around.sign (setup.lib.msgSignatureHash node.currBlock.topHash msg) }

/-- `goto_preparing_for_next_round`. -/
def gotoPreparingForNextRound : Node :=
  { node with
    round := { node.round with queueForNextRound := true }
    state := .prepareForRound }

/-- `clear_round_data`. -/
def clearRoundData : Node :=
  emit .cleared { node with transient := {}, round := {} }

/-- `goto_wait_for_next_block_and_clear_round_data`. -/
def gotoWaitForNextBlock : Node :=
  { clearRoundData node with state := .waitForNextBlock }

/-- `begin_stage_timer`, for the stage that waits for messages of a type. -/
def beginStageTimer (type : MessageType) (node : Node) : Node :=
  if getNetworkVersion setup.net node.currBlock.height < Hf.hf21Eth then node
  else
    let stage := node.transient.stage type
    let endTime := min (around.timerNow + setup.conf.pulseStageTimeout)
      (node.round.startTime + setup.conf.pulseRoundTimeout)
    { node with transient := node.transient.setStage { stage with endTime } type }

/-- `generate_random_value`. -/
def generateRandomValue : Node :=
  let t := node.transient
  { node with transient :=
    { t with
      randomValue := { t.randomValue with toSend := some around.randomValue }
      randomValueHashes := { t.randomValueHashes with
        toSend := some (setup.lib.blake2b around.randomValue.bytes) } } }

/-- `reset_late_stages`. -/
def resetLateStages : Node :=
  emit .restarted (generateRandomValue setup around { node with transient :=
    { node.transient with randomValueHashes := {}, randomValue := {}, blockSignatures := {} } })

/-- `reset_for_missing_validators`: nothing if no validator is missing, otherwise whether
the late stages start again, and the node. -/
def resetForMissingValidators (stage : WaitStage) (node : Node) : Option (Bool × Node) :=
  if stage.bitset = node.participants then none
  else if stage.bitset ||| node.participants ≠ node.participants then some (false, node)
  else if pulseBlockRequiredSignatures ≤ popcount stage.bitset ∧
      around.retryNow < node.round.endTime ∧
      Hf.hf21Eth ≤ getNetworkVersion setup.net around.chainHeight then
    let block := node.transient.block
    some (true, resetLateStages setup around { node with transient := { node.transient with
      block := { block with pulse := { block.pulse with validatorBitset := stage.bitset } } } })
  else some (false, node)

/-- The own message of a late stage, sent once. -/
def startSend {α : Type} (type : MessageType) (payload : α → Payload) (toSend : Option α)
    (sent : Node → Node) (node : Node) : Node :=
  match toSend with
  | none => node
  | some value =>
    let timed := beginStageTimer setup around type node
    let msg := ownMessage setup around (payload value) timed
    handleMessage setup.lib msg (sent timed)

/-! ## Waiting for a round -/

/-- `wait_for_next_block`. -/
def waitForNextBlock : Node :=
  if node.currBlock.topHash = around.topHash then node
  else
    match around.r0Timestamp with
    | none => node
    | some round0StartTime =>
      { node with
        currBlock := { height := around.chainHeight, topHash := around.topHash, round0StartTime }
        round := {}
        state := .prepareForRound }

/-- The ends of the stages before HF21, one after the other. -/
def setEndTimes (t : Transient) (start timeout : Time) : Transient :=
  let set (t : Transient) (type : MessageType) (n : ℕ) : Transient :=
    t.setStage { t.stage type with endTime := start + n * timeout } type
  let t := set t .handshake 1
  let t := set t .handshakeBitset 2
  let t := set t .blockTemplate 3
  let t := set t .randomValueHash 4
  let t := set t .randomValue 5
  set t .blockSignature 6

/-- What the node is in a quorum: nothing, its producer or one of its validators. -/
def participation (quorum : Quorum) (key : PublicKey) : SnType × ℕ :=
  if quorum.workers[0]? = some key then (.producer, 0)
  else
    match quorum.validators.findIdx? (fun validator => validator = key) with
    | none => (.none, 0)
    | some index => (.validator, index)

/-- `prepare_for_round`, once the number of the round is settled. -/
def beginRound (number : UInt8) (node : Node) : Node :=
  let startTime := node.currBlock.round0StartTime + number.toNat * setup.conf.pulseRoundTimeout
  let quorum := around.generatePulseQuorum number
  if !verifyPulseQuorumSizes quorum then gotoWaitForNextBlock node
  else
    let (participant, myQuorumPosition) := participation quorum around.key
    { node with
      round :=
        { queueForNextRound := false, number, quorum, participant, myQuorumPosition, startTime
          endTime := startTime + setup.conf.pulseRoundTimeout }
      transient := setEndTimes node.transient startTime setup.conf.pulseStageTimeout
      state := .waitForRound }

/-- `prepare_for_round`. -/
def prepareForRound : Node :=
  let (version, revision) := getNetworkVersionRevision setup.net around.chainHeight
  let maxRoundCount := maxRounds setup.net.nettype version revision
  let number := node.round.number
  let queued := node.round.queueForNextRound
  let node := clearRoundData node
  if queued ∧ maxRoundCount ≤ number.toNat + 1 then gotoWaitForNextBlock node
  else if queued ∧ node.currBlock.topHash ≠ around.topHash then gotoWaitForNextBlock node
  else
    let number := if queued then number + 1 else number
    let timeSinceBlock := max 0 (around.now - node.currBlock.round0StartTime)
    let currRound := (timeSinceBlock / setup.conf.pulseRoundTimeout).toNat
    if maxRoundCount ≤ currRound then gotoWaitForNextBlock node
    else beginRound setup around (max number (UInt8.ofNat currRound)) node

/-- `wait_for_round`. -/
def waitForRound : Node :=
  if node.currBlock.topHash ≠ around.topHash then gotoWaitForNextBlock node
  else if around.now < node.round.startTime then node
  else
    match node.round.participant with
    | .validator => { node with state := .sendAndWaitForHandshakes }
    | .producer => { node with state := .waitForHandshakeBitsets }
    | .none => gotoPreparingForNextRound node

/-! ## Handshakes -/

/-- The bits of the validators whose handshake arrived. -/
def handshakeBits (handshakes : QuorumArray Bool) : UInt16 :=
  (List.finRange pulseQuorumNumValidators).foldl
    (fun bits position => if handshakes position then bits ||| bitOf position else bits) 0

/-- `relay_validator_handshake_bit_or_bitset`. -/
def relayHandshake (sendingBitset : Bool) (node : Node) : Node :=
  let payload := if sendingBitset then .handshakeBitset (handshakeBits node.transient.handshakes)
    else .handshake
  handleMessage setup.lib (ownMessage setup around payload node) node

/-- `send_and_wait_for_handshakes`. -/
def sendAndWaitForHandshakes : Node :=
  let sent :=
    if node.transient.handshakesSent then node
    else relayHandshake setup around false
      { node with transient := { node.transient with handshakesSent := true } }
  if !node.transient.handshakesSent ∧ around.sendThrows then gotoPreparingForNextRound sent
  else
    let heard := handleMessagesReceivedEarlyFor setup.lib .handshake sent
    let stage := heard.transient.handshakeStage
    if stage.msgsReceived = pulseQuorumNumValidators ∨ stage.endTime ≤ around.now then
      { heard with state := .sendHandshakeBitsets }
    else heard

/-- `send_handshake_bitsets`. -/
def sendHandshakeBitsets : Node :=
  let sent := relayHandshake setup around true node
  if around.sendThrows then gotoPreparingForNextRound sent
  else
    { beginStageTimer setup around .handshakeBitset sent with state := .waitForHandshakeBitsets }

/-- A step of the count of bitsets: those seen so far, the most frequent one and its
count. -/
def countBitset (counted : List UInt16 × UInt16 × ℕ) : Option UInt16 → List UInt16 × UInt16 × ℕ
  | none => counted
  | some bitset =>
    let (seen, best, count) := counted
    let num := seen.count bitset + 1
    if count < num then (bitset :: seen, bitset, num) else (bitset :: seen, best, count)

/-- The bitset that most validators sent, and how many did. -/
def mostCommonBitset (bitsets : QuorumArray (Option UInt16)) : UInt16 × ℕ :=
  ((List.finRange pulseQuorumNumValidators).foldl
    (fun counted position => countBitset counted (bitsets position)) ([], 0, 0)).2

/-- `wait_for_handshake_bitsets`. -/
def waitForHandshakeBitsets : Node :=
  let heard := handleMessagesReceivedEarlyFor setup.lib .handshakeBitset node
  let stage := heard.transient.bitsetStage
  if stage.endTime ≤ around.now ∨ stage.msgsReceived = pulseQuorumNumValidators then
    let (best, count) := mostCommonBitset heard.transient.bitsets
    if count < pulseBlockRequiredSignatures ∨ best = 0 ∨
        (heard.round.participant = .validator ∧ !hasBit best heard.round.myQuorumPosition) then
      gotoPreparingForNextRound heard
    else
      let agreed :=
        { heard with transient := { heard.transient with bestBitset := best, bestCount := count } }
      if heard.round.participant = .producer then { agreed with state := .sendBlockTemplate }
      else { beginStageTimer setup around .blockTemplate agreed with state := .waitForBlockTemplate }
  else heard

/-! ## The block template -/

/-- `send_block_template`. -/
def sendBlockTemplate : Node :=
  if !around.isActive then gotoPreparingForNextRound node
  else
    match around.createTemplate node.round.number node.transient.bestBitset with
    | none => gotoPreparingForNextRound node
    | some (block, txs, height) =>
      if node.currBlock.height ≠ height then gotoWaitForNextBlock node
      else
        let msg := ownMessage setup around (.blockTemplate block txs) node
        gotoPreparingForNextRound (emit (.relayed msg) node)

/-- Whether the L2 events and votes of a template are those the node knows. -/
def supportsEvents (block : PulseBlock) : Bool :=
  block.l2Height ≤ around.l2Synced ∧ block.txEthCount ≤ block.txHashes.length ∧
    (block.txHashes.take block.txEthCount).all (fun hash =>
      (around.loadTransaction hash).any (fun tx => tx.isL2EventTx ∧ tx.hasEvent ∧ tx.vote)) ∧
    block.l2Votes = around.l2PendingStateVotes

/-- `wait_for_block_template`. -/
def waitForBlockTemplate : Node :=
  let heard := handleMessagesReceivedEarlyFor setup.lib .blockTemplate node
  let stage := heard.transient.templateStage
  let block := heard.transient.block
  if stage.msgsReceived = 1 then
    if ethBls ≤ block.majorVersion ∧ !supportsEvents around block then
      gotoPreparingForNextRound heard
    else if block.signatures ≠ [] then gotoPreparingForNextRound heard
    else
      { generateRandomValue setup around heard with state := .sendAndWaitForRandomValueHashes }
  else if stage.endTime ≤ around.now then gotoPreparingForNextRound heard
  else heard

/-! ## Random values and signatures -/

/-- The node after `reset_for_missing_validators` found somebody missing: the late stages
start again, or the round is over. -/
def afterMissing (missing : Bool × Node) : Node :=
  if missing.1 then { missing.2 with state := .sendAndWaitForRandomValueHashes }
  else gotoPreparingForNextRound missing.2

/-- `send_and_wait_for_random_value_hashes`. -/
def sendAndWaitForRandomValueHashes : Node :=
  let sent := startSend setup around .randomValueHash .randomValueHash
    node.transient.randomValueHashes.toSend
    (fun node => { node with transient := { node.transient with
      randomValueHashes := { node.transient.randomValueHashes with toSend := none } } }) node
  let heard := handleMessagesReceivedEarlyFor setup.lib .randomValueHash sent
  let stage := heard.transient.randomValueHashes.stage
  let allHashes : Bool := stage.bitset = heard.participants
  if stage.endTime ≤ around.now ∨ allHashes then
    if !allHashes ∧ setup.hf20CompatMode around then
      if popcount stage.bitset < pulseBlockRequiredSignatures then gotoPreparingForNextRound heard
      else { heard with state := .sendAndWaitForRandomValue }
    else
      match resetForMissingValidators setup around stage heard with
      | some missing => afterMissing missing
      | none => { heard with state := .sendAndWaitForRandomValue }
  else heard

/-- The final random value put into the block, in the compatibility mode also the
validators whose hash arrived; the signature of the block is to be sent. -/
def finishBlock : Node :=
  let t := node.transient
  let values := t.randomValue.data
  let seed := setup.lib.finalRandomValue
    ((List.finRange pulseQuorumNumValidators).filterMap values)
  let validatorBitset := if setup.hf20CompatMode around then t.randomValueHashes.stage.bitset
    else t.block.pulse.validatorBitset
  let (hash, block) := setup.lib.getBlockHash { t.block with
    hashValid := false
    pulse := { t.block.pulse with randomValue := seed, validatorBitset } }
  let finished := { node with
    transient := { t with
      block
      blockSignatures := { t.blockSignatures with toSend := some (around.sign hash) } }
    state := .sendAndWaitForBlockSignatures }
  emit (.signed node.currBlock block) (emit (.seeded values) finished)

/-- `send_and_wait_for_random_value`. -/
def sendAndWaitForRandomValue : Node :=
  let sent := startSend setup around .randomValue .randomValue node.transient.randomValue.toSend
    (fun node => { node with transient := { node.transient with
      randomValue := { node.transient.randomValue with toSend := none } } }) node
  let heard := handleMessagesReceivedEarlyFor setup.lib .randomValue sent
  let stage := heard.transient.randomValue.stage
  let compat := setup.hf20CompatMode around
  let allValues : Bool := if compat then
      stage.bitset = heard.transient.randomValueHashes.stage.bitset
    else stage.bitset = heard.participants
  if stage.endTime ≤ around.now ∨ allValues then
    if !allValues ∧ compat then
      if popcount stage.bitset < pulseBlockRequiredSignatures then gotoPreparingForNextRound heard
      else finishBlock setup around heard
    else
      match resetForMissingValidators setup around stage heard with
      | some missing => afterMissing missing
      | none => finishBlock setup around heard
  else heard

/-- The first signatures in the order of the validators, as many as a block needs. -/
def firstSignatures (signatures : QuorumArray (Option Signature)) : List QuorumSignature :=
  ((List.finRange pulseQuorumNumValidators).filterMap (fun position =>
    (signatures position).map (fun signature => ⟨UInt16.ofNat position, signature⟩))).take
      pulseBlockRequiredSignatures

/-- The block with its signatures, given to the core. -/
def submitBlock : Node :=
  let t := node.transient
  let block := { t.block with
    hashValid := false
    signatures := t.block.signatures ++ firstSignatures t.blockSignatures.data }
  let signed := { node with transient := { t with block } }
  if t.stateChangeTxs.all (fun entry => around.handleIncomingTx entry.2) then
    let submitted := emit (.found node.round.quorum block) signed
    if around.handleBlockFound block then gotoWaitForNextBlock submitted
    else gotoPreparingForNextRound submitted
  else gotoPreparingForNextRound signed

/-- `send_and_wait_for_block_signatures`. -/
def sendAndWaitForBlockSignatures : Node :=
  let sent := startSend setup around .blockSignature .blockSignature
    node.transient.blockSignatures.toSend
    (fun node => { node with transient := { node.transient with
      blockSignatures := { node.transient.blockSignatures with toSend := none } } }) node
  let heard := handleMessagesReceivedEarlyFor setup.lib .blockSignature sent
  let stage := heard.transient.blockSignatures.stage
  let expected := if setup.hf20CompatMode around then heard.transient.randomValue.stage.bitset
    else heard.participants
  if stage.endTime ≤ around.now ∨ stage.bitset = expected then
    match resetForMissingValidators setup around stage heard with
    | some missing => afterMissing missing
    | none => submitBlock around heard
  else heard

/-! ## Passes -/

/-- One pass of the loop in `check_state`. -/
def pass : Node :=
  match node.state with
  | .nullState => { node with state := .waitForNextBlock }
  | .waitForNextBlock => waitForNextBlock around node
  | .prepareForRound => prepareForRound setup around node
  | .waitForRound => waitForRound around node
  | .sendAndWaitForHandshakes => sendAndWaitForHandshakes setup around node
  | .sendHandshakeBitsets => sendHandshakeBitsets setup around node
  | .waitForHandshakeBitsets => waitForHandshakeBitsets setup around node
  | .sendBlockTemplate => sendBlockTemplate setup around node
  | .waitForBlockTemplate => waitForBlockTemplate setup around node
  | .sendAndWaitForRandomValueHashes => sendAndWaitForRandomValueHashes setup around node
  | .sendAndWaitForRandomValue => sendAndWaitForRandomValue setup around node
  | .sendAndWaitForBlockSignatures => sendAndWaitForBlockSignatures setup around node

end Node

end Xeqm.Pulse
