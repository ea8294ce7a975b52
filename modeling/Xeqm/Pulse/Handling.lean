import Xeqm.Pulse.Stages

/-!
# What handling a message does

A message is dropped, kept for later or recorded; what is kept for later, the timers and
the own values to send change nothing that was heard.
-/

namespace Xeqm.Pulse

open Cryptonote ServiceNodes Lib

/-- Two nodes that have heard the same: they differ in queues, timers and values to send
only. -/
structure SameData (node node' : Node) : Prop where
  currBlock : node'.currBlock = node.currBlock
  round : node'.round = node.round
  state : node'.state = node.state
  log : node'.log = node.log
  handshakes : node'.transient.handshakes = node.transient.handshakes
  bitsets : node'.transient.bitsets = node.transient.bitsets
  bestBitset : node'.transient.bestBitset = node.transient.bestBitset
  templateReceived :
    node'.transient.templateStage.msgsReceived = node.transient.templateStage.msgsReceived
  block : node'.transient.block = node.transient.block
  stateChangeTxs : node'.transient.stateChangeTxs = node.transient.stateChangeTxs
  hashes : node'.transient.randomValueHashes.data = node.transient.randomValueHashes.data
  hashBits :
    node'.transient.randomValueHashes.stage.bitset = node.transient.randomValueHashes.stage.bitset
  values : node'.transient.randomValue.data = node.transient.randomValue.data
  valueBits : node'.transient.randomValue.stage.bitset = node.transient.randomValue.stage.bitset
  signatures : node'.transient.blockSignatures.data = node.transient.blockSignatures.data
  signatureBits :
    node'.transient.blockSignatures.stage.bitset = node.transient.blockSignatures.stage.bitset

namespace SameData

variable {node node' node'' : Node}

theorem refl (node : Node) : SameData node node := by
  constructor <;> rfl

/-- A stage may change its queue and its end. -/
theorem setStage {type : MessageType} {stage : WaitStage}
    (hbitset : stage.bitset = (node.transient.stage type).bitset)
    (hreceived : stage.msgsReceived = (node.transient.stage type).msgsReceived) :
    SameData node { node with transient := node.transient.setStage stage type } := by
  cases type
  all_goals
    constructor
    all_goals first | rfl | exact hbitset | exact hreceived

/-- A message may be kept for later. -/
theorem enqueue {type : MessageType} {position : Position} {msg : Message} :
    SameData node { node with
      transient := node.transient.setStage
        ((node.transient.stage type).enqueue position msg) type } :=
  setStage rfl rfl

theorem participants (h : SameData node node') : node'.participants = node.participants := by
  rw [Node.participants, Node.participants, h.block]

end SameData

namespace Node

variable {lib : Library} {msg : Message} {node : Node}

/-- What is added to the data of a node, by the kind of the message. -/
inductive Adds (lib : Library) (node : Node) (v : Position) : Payload → Transient → Prop
  | handshake :
      Adds lib node v .handshake { node.transient with
        handshakes := Function.update node.transient.handshakes v true }
  | handshakeBitset (bitset : UInt16) (hnone : node.transient.bitsets v = none) :
      Adds lib node v (.handshakeBitset bitset) { node.transient with
        bitsets := Function.update node.transient.bitsets v (some bitset) }
  /-- The template is for this round and for the agreed validators. -/
  | blockTemplate (blob : List UInt8) (txs : List (List UInt8)) (parsed : PulseBlock)
      (stateChangeTxs : List (Hash × List UInt8))
      (hfirst : node.transient.templateStage.msgsReceived ≠ 1)
      (hparsed : lib.parseBlock blob = some parsed)
      (hround : parsed.pulse.round = node.round.number)
      (hbitset : parsed.pulse.validatorBitset = node.transient.bestBitset) :
      Adds lib node v (.blockTemplate blob txs) { node.transient with
        block := { parsed with hashValid := false }
        stateChangeTxs }
  | randomValueHash (hash : Hash) (hnone : node.transient.randomValueHashes.data v = none) :
      Adds lib node v (.randomValueHash hash) { node.transient with
        randomValueHashes := { node.transient.randomValueHashes with
          data := Function.update node.transient.randomValueHashes.data v (some hash) } }
  | randomValue (value : RandomValue) (hnone : node.transient.randomValue.data v = none)
      (hmatches : ∀ hash, node.transient.randomValueHashes.data v = some hash →
        lib.blake2b value.bytes = hash) :
      Adds lib node v (.randomValue value) { node.transient with
        randomValue := { node.transient.randomValue with
          data := Function.update node.transient.randomValue.data v (some value) } }
  | blockSignature (signature : Signature) (key : PublicKey)
      (hkey : node.round.quorum.validators[v.val]? = some key)
      (hsigned : lib.crypto.checkSignature (lib.getBlockHash node.transient.block).1 key signature =
        true) :
      Adds lib node v (.blockSignature signature) { node.transient with
        block := (lib.getBlockHash node.transient.block).2
        blockSignatures := { node.transient.blockSignatures with
          data := Function.update node.transient.blockSignatures.data v (some signature) } }

/-- The cases of `handle_message`: the message is dropped, kept for later, recorded, or a
block signature that does not fit, for which the hash of the block was computed. -/
inductive Handles (lib : Library) (msg : Message) (node : Node) : Node → Prop
  | ignored : Handles lib msg node node
  | queued (position : Position) (hposition : position.val = msg.quorumPosition.toNat)
      (hready : .waitForRound ≤ node.state)
      (hcheck : lib.msgSignatureCheck msg node.currBlock.topHash node.round.quorum = true)
      (hearly : node.state < msg.payload.type.roundState) :
      Handles lib msg node { node with
        transient := node.transient.setStage
          ((node.transient.stage msg.payload.type).enqueue position msg) msg.payload.type }
  | rejected (signature : Signature) (hpayload : msg.payload = .blockSignature signature)
      (hready : .sendAndWaitForBlockSignatures ≤ node.state) :
      Handles lib msg node { node with transient := { node.transient with
        block := (lib.getBlockHash node.transient.block).2 } }
  | recorded (position : Position) (payload : Payload) (t : Transient)
      (hposition : position.val = msg.quorumPosition.toNat) (hpayload : msg.payload = payload)
      (hready : .waitForRound ≤ node.state)
      (hcheck : lib.msgSignatureCheck msg node.currBlock.topHash node.round.quorum = true)
      (hlate : payload.type.roundState ≤ node.state)
      (hparticipates : isDropped payload.type position node = false)
      (hadds : Adds lib node position payload t) :
      Handles lib msg node (emit (.recorded node.currBlock node.round.number msg)
        { node with transient :=
          t.setStage ((t.stage payload.type).receive position) payload.type })

/-- The cases of `record`: the data is added, or everything stays as it was, but for a hash
that was computed to check a signature. -/
inductive Records (lib : Library) (node : Node) (v : Position) : Payload → Transient × Bool → Prop
  | added {payload : Payload} {t : Transient} (hadds : Adds lib node v payload t) :
      Records lib node v payload (t, true)
  | same {payload : Payload} : Records lib node v payload (node.transient, false)
  | hashed (signature : Signature) :
      Records lib node v (.blockSignature signature)
        ({ node.transient with block := (lib.getBlockHash node.transient.block).2 }, false)

/-- An accepted template is for this round and for the agreed validators. -/
theorem adds_of_acceptTemplate {blob : List UInt8} {txs : List (List UInt8)} {t : Transient}
    (h : acceptTemplate lib blob txs node = some t) (v : Position) :
    Adds lib node v (.blockTemplate blob txs) t := by
  unfold acceptTemplate at h
  split at h
  · cases h
  rename_i hfirst
  obtain ⟨parsed, hparsed, h₁⟩ := Option.bind_eq_some_iff.mp h
  dsimp only at h₁
  split at h₁
  · cases h₁
  rename_i hround
  split at h₁
  · cases h₁
  rename_i hbitset
  obtain ⟨stateChangeTxs, -, h₂⟩ := Option.bind_eq_some_iff.mp h₁
  cases h₂
  exact .blockTemplate blob txs parsed stateChangeTxs hfirst hparsed (not_not.mp hround)
    (not_not.mp hbitset)

theorem record_records (v : Position) : Records lib node v msg.payload (record lib msg v node) := by
  unfold record
  cases msg.payload with
  | handshake =>
    dsimp only
    split
    · exact .same
    · exact .added .handshake
  | handshakeBitset bitset =>
    dsimp only
    split
    · exact .same
    · rename_i hnone
      exact .added (.handshakeBitset bitset (by simpa using hnone))
  | blockTemplate blob txs =>
    dsimp only
    split
    · exact .same
    · rename_i t htemplate
      exact .added (adds_of_acceptTemplate htemplate v)
  | randomValueHash hash =>
    dsimp only
    split
    · exact .same
    · rename_i hnone
      exact .added (.randomValueHash hash (by simpa using hnone))
  | randomValue value =>
    dsimp only
    split
    · exact .same
    split
    · exact .same
    · rename_i hnone hmatches
      refine .added (.randomValue value (by simpa using hnone) (fun hash hhash => ?_))
      simpa [hhash] using hmatches
  | blockSignature signature =>
    dsimp only
    split
    · exact .same
    split
    · rename_i hsigned
      obtain ⟨key, hkey, hsigned⟩ := (Option.any_eq_true _ _).mp hsigned
      exact .added (.blockSignature signature key hkey hsigned)
    · exact .hashed signature

theorem handleMessage_handles : Handles lib msg node (handleMessage lib msg node) := by
  unfold handleMessage
  split
  · exact .ignored
  · rename_i hready
    have hready : .waitForRound ≤ node.state := Nat.le_of_not_lt hready
    split
    · exact .ignored
    · rename_i hcheck
      have hcheck : lib.msgSignatureCheck msg node.currBlock.topHash node.round.quorum = true := by
        simpa using hcheck
      split
      · rename_i hposition
        dsimp only
        split
        · rename_i hearly
          unfold enqueue
          cases hslot : (node.transient.stage msg.payload.type).queue.buffer
              ⟨msg.quorumPosition.toNat, hposition⟩ with
          | empty =>
            simp only [hslot]
            split
            · exact .ignored
            · exact .queued _ rfl hready hcheck hearly
          | _ =>
            simp only [hslot]
            exact .ignored
        · rename_i hlate
          have hlate : msg.payload.type.roundState ≤ node.state := Nat.le_of_not_lt hlate
          split
          · exact .ignored
          · rename_i hdropped
            have hrecords := @record_records lib msg node ⟨msg.quorumPosition.toNat, hposition⟩
            generalize record lib msg ⟨msg.quorumPosition.toNat, hposition⟩ node = result
              at hrecords
            generalize hpayload : msg.payload = payload at *
            cases hrecords with
            | @added _ t hadds =>
              exact .recorded _ payload t rfl hpayload hready hcheck hlate (by simpa using hdropped)
                hadds
            | same => exact .ignored
            | hashed signature => exact .rejected signature hpayload hlate
      · exact .ignored

end Node

end Xeqm.Pulse
