import Xeqm.Pulse.Message

/-!
# The state of a Pulse node

`pulse_impl` with the data of the current round: for each kind of message the stage
that waits for it, with the messages that came early. The log records the calls that
leave the node and, in between, what is wiped.
-/

namespace Xeqm.Pulse

open Cryptonote ServiceNodes Lib

/-- Seconds, as in the timings of a round. -/
abbrev Time := ℤ

/-- `round_state`. -/
inductive RoundState
  | nullState
  | waitForNextBlock
  | prepareForRound
  | waitForRound
  | sendAndWaitForHandshakes
  | sendHandshakeBitsets
  | waitForHandshakeBitsets
  | sendBlockTemplate
  | waitForBlockTemplate
  | sendAndWaitForRandomValueHashes
  | sendAndWaitForRandomValue
  | sendAndWaitForBlockSignatures
  deriving DecidableEq

namespace RoundState

/-- The position of a state in the enumeration. -/
def toNat : RoundState → ℕ
  | .nullState => 0
  | .waitForNextBlock => 1
  | .prepareForRound => 2
  | .waitForRound => 3
  | .sendAndWaitForHandshakes => 4
  | .sendHandshakeBitsets => 5
  | .waitForHandshakeBitsets => 6
  | .sendBlockTemplate => 7
  | .waitForBlockTemplate => 8
  | .sendAndWaitForRandomValueHashes => 9
  | .sendAndWaitForRandomValue => 10
  | .sendAndWaitForBlockSignatures => 11

instance : LT RoundState := ⟨fun s s' => s.toNat < s'.toNat⟩

instance : LE RoundState := ⟨fun s s' => s.toNat ≤ s'.toNat⟩

instance (s s' : RoundState) : Decidable (s < s') := inferInstanceAs (Decidable (s.toNat < s'.toNat))

instance (s s' : RoundState) : Decidable (s ≤ s') := inferInstanceAs (Decidable (s.toNat ≤ s'.toNat))

variable {s s' : RoundState}

theorem lt_def : s < s' ↔ s.toNat < s'.toNat := Iff.rfl

theorem le_def : s ≤ s' ↔ s.toNat ≤ s'.toNat := Iff.rfl

/-- Nothing comes after the block signatures. -/
theorem eq_last (h : .sendAndWaitForBlockSignatures ≤ s) : s = .sendAndWaitForBlockSignatures := by
  revert h
  cases s <;> decide

end RoundState

/-- The state in which messages of a type are processed. -/
def MessageType.roundState : MessageType → RoundState
  | .handshake => .sendAndWaitForHandshakes
  | .handshakeBitset => .waitForHandshakeBitsets
  | .blockTemplate => .waitForBlockTemplate
  | .randomValueHash => .sendAndWaitForRandomValueHashes
  | .randomValue => .sendAndWaitForRandomValue
  | .blockSignature => .sendAndWaitForBlockSignatures

/-- `type > message_type::block_template`. -/
def MessageType.isLate : MessageType → Bool
  | .randomValueHash | .randomValue | .blockSignature => true
  | _ => false

/-- `sn_type`. -/
inductive SnType
  | none
  | producer
  | validator
  deriving DecidableEq

/-- A position among the validators. -/
abbrev Position := Fin pulseQuorumNumValidators

/-- `quorum_array`. -/
abbrev QuorumArray (α : Type) := Position → α

/-- An entry of the queue for early messages, with its `queueing_state`. -/
inductive Queued
  | empty
  | received (msg : Message)
  | processed (msg : Message)
  deriving DecidableEq

/-- `message_queue`. -/
structure MessageQueue where
  buffer : QuorumArray Queued := fun _ => .empty
  count : ℕ := 0

/-- `pulse_wait_stage`. -/
structure WaitStage where
  queue : MessageQueue := {}
  bitset : UInt16 := 0
  msgsReceived : ℕ := 0
  endTime : Time := 0

/-- `send_and_wait`. -/
structure SendAndWait (α : Type) where
  toSend : Option α := none
  data : QuorumArray (Option α) := fun _ => none
  stage : WaitStage := {}

/-- `transient_t`. -/
structure Transient where
  handshakesSent : Bool := false
  handshakes : QuorumArray Bool := fun _ => false
  handshakeStage : WaitStage := {}
  bitsets : QuorumArray (Option UInt16) := fun _ => none
  bitsetStage : WaitStage := {}
  bestBitset : UInt16 := 0
  bestCount : ℕ := 0
  templateStage : WaitStage := {}
  block : PulseBlock := { majorVersion := Hf.hf7, height := 0, hash := 0 }
  stateChangeTxs : List (Hash × List UInt8) := []
  randomValueHashes : SendAndWait Hash := {}
  randomValue : SendAndWait RandomValue := {}
  blockSignatures : SendAndWait Signature := {}

namespace Transient

/-- The stage for messages of a type. -/
def stage (t : Transient) : MessageType → WaitStage
  | .handshake => t.handshakeStage
  | .handshakeBitset => t.bitsetStage
  | .blockTemplate => t.templateStage
  | .randomValueHash => t.randomValueHashes.stage
  | .randomValue => t.randomValue.stage
  | .blockSignature => t.blockSignatures.stage

/-- The stage for messages of a type replaced. -/
def setStage (t : Transient) (stage : WaitStage) : MessageType → Transient
  | .handshake => { t with handshakeStage := stage }
  | .handshakeBitset => { t with bitsetStage := stage }
  | .blockTemplate => { t with templateStage := stage }
  | .randomValueHash => { t with randomValueHashes := { t.randomValueHashes with stage } }
  | .randomValue => { t with randomValue := { t.randomValue with stage } }
  | .blockSignature => { t with blockSignatures := { t.blockSignatures with stage } }

end Transient

/-- `curr_block`. -/
structure CurrBlock where
  height : ℕ := 0
  topHash : Hash := 0
  round0StartTime : Time := 0
  deriving DecidableEq

/-- `round`. -/
structure Round where
  queueForNextRound : Bool := false
  number : UInt8 := 0
  quorum : Quorum := {}
  participant : SnType := .none
  myQuorumPosition : ℕ := 0
  startTime : Time := 0
  endTime : Time := 0
  deriving DecidableEq

/-- What a node does to the outside, and the points where it forgets. -/
inductive Event
  /-- A message was added to the data of its stage and is passed on to the quorum. -/
  | recorded (curr : CurrBlock) (round : UInt8) (msg : Message)
  /-- The producer sends its template. -/
  | relayed (msg : Message)
  /-- The random values that are hashed into the block. -/
  | seeded (values : QuorumArray (Option RandomValue))
  /-- The node signs the hash of a block. -/
  | signed (curr : CurrBlock) (block : PulseBlock)
  /-- A block is passed to `handle_block_found`. -/
  | found (quorum : Quorum) (block : PulseBlock)
  /-- `reset_late_stages`. -/
  | restarted
  /-- `clear_round_data`. -/
  | cleared
  deriving DecidableEq

/-- `pulse_impl`. -/
structure Node where
  currBlock : CurrBlock := {}
  round : Round := {}
  transient : Transient := {}
  state : RoundState := .nullState
  log : List Event := []

namespace Node

/-- The node with one more event in its log. -/
def emit (event : Event) (node : Node) : Node := { node with log := node.log ++ [event] }

/-- The validators in the block's own bitset. -/
def participants (node : Node) : UInt16 := node.transient.block.pulse.validatorBitset

end Node

/-! ## Handling a message -/

namespace WaitStage

/-- The stage with one more message from a validator. -/
def receive (stage : WaitStage) (position : Position) : WaitStage :=
  { stage with
    bitset := stage.bitset ||| bitOf position
    msgsReceived := stage.msgsReceived + 1 }

/-- The stage with a message that came early. -/
def enqueue (stage : WaitStage) (position : Position) (msg : Message) : WaitStage :=
  { stage with queue :=
    { buffer := Function.update stage.queue.buffer position (.received msg)
      count := stage.queue.count + 1 } }

/-- The stage with an early message processed. -/
def markProcessed (stage : WaitStage) (position : Position) (msg : Message) : WaitStage :=
  { stage with queue := { stage.queue with
    buffer := Function.update stage.queue.buffer position (.processed msg) } }

end WaitStage

namespace Node

variable (lib : Library)

/-- A message that came too early is kept, if it is the first of its sender, unless it is
a block signature that must belong to the round before. -/
def enqueue (msg : Message) (position : Position) (node : Node) : Node :=
  let stage := node.transient.stage msg.payload.type
  match stage.queue.buffer position with
  | .empty =>
    if node.state ≤ .waitForRound ∧ msg.payload.type = .blockSignature then node
    else { node with transient :=
      node.transient.setStage (stage.enqueue position msg) msg.payload.type }
  | _ => node

/-- The state change transactions that come with a template, each of them listed in the
block. -/
def supplementalTxs (block : PulseBlock) : List (List UInt8) → Option (List (Hash × List UInt8))
  | [] => some []
  | blob :: rest => do
    let (type, hash) ← lib.parseTx blob
    if type ≠ .stateChange ∨ hash ∉ block.txHashes then none
    else
      let txs ← supplementalTxs block rest
      -- of several blobs with one hash the map keeps the first
      some ((hash, blob) :: txs.filter (fun entry => entry.1 ≠ hash))

/-- A block template, if it is one for this round. -/
def acceptTemplate (blob : List UInt8) (txs : List (List UInt8)) (node : Node) :
    Option Transient := do
  if node.transient.templateStage.msgsReceived = 1 then none
  else
    let parsed ← lib.parseBlock blob
    let block := { parsed with hashValid := false }
    if block.pulse.round ≠ node.round.number then none
    else if block.pulse.validatorBitset ≠ node.transient.bestBitset then none
    else
      let stateChangeTxs ← supplementalTxs lib block txs
      some { node.transient with block, stateChangeTxs }

/-- The data of a message added to its stage, and whether it was: not if the message is a
duplicate or does not fit what is known. -/
def record (msg : Message) (position : Position) (node : Node) : Transient × Bool :=
  let t := node.transient
  match msg.payload with
  | .handshake =>
    if t.handshakes position then (t, false)
    else ({ t with handshakes := Function.update t.handshakes position true }, true)
  | .handshakeBitset bitset =>
    if (t.bitsets position).isSome then (t, false)
    else ({ t with bitsets := Function.update t.bitsets position (some bitset) }, true)
  | .blockTemplate blob txs =>
    match acceptTemplate lib blob txs node with
    | none => (t, false)
    | some t => (t, true)
  | .randomValueHash hash =>
    if (t.randomValueHashes.data position).isSome then (t, false)
    else
      ({ t with randomValueHashes := { t.randomValueHashes with
        data := Function.update t.randomValueHashes.data position (some hash) } }, true)
  | .randomValue value =>
    if (t.randomValue.data position).isSome then (t, false)
    -- without a hash there is nothing to compare the value with
    else if (t.randomValueHashes.data position).any (fun hash => lib.blake2b value.bytes ≠ hash) then
      (t, false)
    else
      ({ t with randomValue := { t.randomValue with
        data := Function.update t.randomValue.data position (some value) } }, true)
  | .blockSignature signature =>
    if (t.blockSignatures.data position).isSome then (t, false)
    else
      let (finalBlockHash, block) := lib.getBlockHash t.block
      if node.round.quorum.validators[position.val]?.any (fun key =>
          lib.crypto.checkSignature finalBlockHash key signature) then
        ({ t with
          block
          blockSignatures := { t.blockSignatures with
            data := Function.update t.blockSignatures.data position (some signature) } }, true)
      else ({ t with block }, false)

/-- Whether the sender of a message was dropped from the round since the template. -/
def isDropped (type : MessageType) (position : Position) (node : Node) : Bool :=
  .waitForBlockTemplate < node.state ∧ type.isLate ∧ !hasBit node.participants position

/-- `handle_message`. -/
def handleMessage (msg : Message) (node : Node) : Node :=
  if node.state < .waitForRound then node
  else if !lib.msgSignatureCheck msg node.currBlock.topHash node.round.quorum then node
  else if h : msg.quorumPosition.toNat < pulseQuorumNumValidators then
    let position : Position := ⟨msg.quorumPosition.toNat, h⟩
    if node.state < msg.payload.type.roundState then enqueue msg position node
    else if isDropped msg.payload.type position node then node
    else
      let (t, added) := record lib msg position node
      if added then
        emit (.recorded node.currBlock node.round.number msg)
          { node with transient :=
            t.setStage ((t.stage msg.payload.type).receive position) msg.payload.type }
      else { node with transient := t }
  else node

/-- One entry of a queue: a message that is waiting is handled. -/
def handleQueued (type : MessageType) (node : Node) (position : Position) : Node :=
  match (node.transient.stage type).queue.buffer position with
  | .received msg =>
    let handled := handleMessage lib msg node
    { handled with transient :=
      handled.transient.setStage ((handled.transient.stage type).markProcessed position msg) type }
  | _ => node

/-- `handle_messages_received_early_for`. -/
def handleMessagesReceivedEarlyFor (type : MessageType) (node : Node) : Node :=
  if (node.transient.stage type).queue.count = 0 then node
  else (List.finRange pulseQuorumNumValidators).foldl (handleQueued lib type) node

end Node

end Xeqm.Pulse
