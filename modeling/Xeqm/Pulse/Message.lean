import Xeqm.Lib.Bitset
import Xeqm.ServiceNodes.VerifyBlock

/-!
# Messages of a Pulse round

The messages that the validators and the producer of a round send each other, what
their signatures cover and how they are checked (`cryptonote_core/pulse.h` and
`pulse.cpp`).
-/

namespace Xeqm.Pulse

open Cryptonote ServiceNodes

/-- `pulse_random_value`. -/
abbrev RandomValue := Blob 16

/-- `message_type`. An `invalid` message fails the signature check, so there is none
here. -/
inductive MessageType
  | handshake
  | handshakeBitset
  | blockTemplate
  | randomValueHash
  | randomValue
  | blockSignature
  deriving DecidableEq

/-- The payload of a message. -/
inductive Payload
  | handshake
  | handshakeBitset (bitset : UInt16)
  | blockTemplate (block : List UInt8) (stateChangeTxs : List (List UInt8))
  | randomValueHash (hash : Hash)
  | randomValue (value : RandomValue)
  | blockSignature (signature : Signature)
  deriving DecidableEq

/-- The type of a message with the given payload. -/
def Payload.type : Payload → MessageType
  | .handshake => .handshake
  | .handshakeBitset _ => .handshakeBitset
  | .blockTemplate _ _ => .blockTemplate
  | .randomValueHash _ => .randomValueHash
  | .randomValue _ => .randomValue
  | .blockSignature _ => .blockSignature

/-- `message`. -/
structure Message where
  quorumPosition : UInt16
  round : UInt8
  signature : Signature
  payload : Payload
  deriving DecidableEq

/-- `block`, with the fields that only Pulse reads. The `hash` is the cached one. -/
structure PulseBlock extends Block where
  /-- `hash_valid`. -/
  hashValid : Bool := false
  txEthCount : ℕ := 0
  l2Height : ℕ := 0
  deriving DecidableEq

/-- The functions that a Pulse node calls: cryptography, the hash of a block and the
parsers. -/
structure Library where
  crypto : Crypto
  /-- `blake2b_hash`. -/
  blake2b : List UInt8 → Hash
  /-- The keyed hash over random values, cut to the size of one. -/
  finalRandomValue : List RandomValue → RandomValue
  /-- `calculate_block_hash`. -/
  calculateBlockHash : PulseBlock → Hash
  /-- `t_serializable_object_from_blob`, for a block. -/
  parseBlock : List UInt8 → Option PulseBlock
  /-- `parse_and_validate_tx_from_blob`: the type and the hash of the transaction. -/
  parseTx : List UInt8 → Option (TxType × Hash)

namespace Library

variable (lib : Library)

/-- The hash that a block should have. What is hashed leaves out the signatures and the
cached hash. -/
def blockHash (block : PulseBlock) : Hash :=
  lib.calculateBlockHash { block with hash := 0, hashValid := false, signatures := [] }

/-- `get_block_hash`, with the block that has its hash cached. -/
def getBlockHash (block : PulseBlock) : Hash × PulseBlock :=
  if block.hashValid then (block.hash, block)
  else (lib.blockHash block, { block with hash := lib.blockHash block, hashValid := true })

/-- `msg_signature_hash`. -/
def msgSignatureHash (topBlockHash : Hash) (msg : Message) : Hash :=
  let position := littleEndian 2 msg.quorumPosition.toNat
  match msg.payload with
  | .handshake => lib.blake2b (topBlockHash.bytes ++ position ++ [msg.round])
  | .handshakeBitset bitset =>
    lib.blake2b (littleEndian 2 bitset.toNat ++ topBlockHash.bytes ++ position ++ [msg.round])
  | .blockTemplate block _ => lib.blake2b (msg.round :: (lib.blake2b block).bytes)
  | .randomValueHash hash =>
    lib.blake2b (topBlockHash.bytes ++ position ++ [msg.round] ++ hash.bytes)
  | .randomValue value =>
    lib.blake2b (topBlockHash.bytes ++ position ++ [msg.round] ++ value.bytes)
  | .blockSignature signature =>
    lib.blake2b (topBlockHash.bytes ++ position ++ [msg.round] ++ signature.bytes)

/-- The key that has to sign a message. -/
def signerKey (quorum : Quorum) (msg : Message) : Option PublicKey :=
  match msg.payload with
  | .blockTemplate _ _ => if msg.quorumPosition ≠ 0 then none else quorum.workers[0]?
  | _ => quorum.validators[msg.quorumPosition.toNat]?

/-- `msg_signature_check`. -/
def msgSignatureCheck (msg : Message) (topBlockHash : Hash) (quorum : Quorum) : Bool :=
  (signerKey quorum msg).any (fun key =>
    lib.crypto.checkSignature (lib.msgSignatureHash topBlockHash msg) key msg.signature)

end Library

/-! ## Functions for concrete runs -/

/-- A hash for concrete runs. -/
def sampleHash (bytes : List UInt8) : Hash :=
  BitVec.ofNat _ (bytes.foldl (fun acc byte => acc * 257 + byte.toNat + 1) 0)

/-- A signature for concrete runs: it spells out the hash and the key. -/
def sampleSignature (key : PublicKey) (hash : Hash) : Signature := hash ++ key

/-- Functions for concrete runs. A template consists of six bytes: its round, the bitset
of the validators, its height and the hash of its parent. -/
def sampleLibrary : Library where
  crypto := { acceptingCrypto with
    checkSignature := fun hash key signature => signature = sampleSignature key hash }
  blake2b := sampleHash
  finalRandomValue := fun values => values.foldl (fun acc value => acc * 3 + value) 0
  calculateBlockHash := fun block =>
    sampleHash (block.prevId.bytes ++ littleEndian 8 block.height ++
      littleEndian 2 block.pulse.validatorBitset.toNat ++ block.pulse.randomValue.bytes)
  parseBlock := fun blob =>
    match blob with
    | [round, bits, bits', height, height', parent] => some
      { majorVersion := Hf.hf20GovernancePayoutsFix
        height := height.toNat * 256 + height'.toNat
        hash := 0
        prevId := BitVec.ofNat _ parent.toNat
        pulse := { round, validatorBitset := bits.toUInt16 <<< 8 ||| bits'.toUInt16 } }
    | _ => none
  parseTx := fun _ => none

/-- The keys of the quorum in concrete runs. -/
def sampleKey (v : ℕ) : PublicKey := BitVec.ofNat _ (v + 1)

/-- The quorum in concrete runs. -/
def sampleQuorum : Quorum :=
  { validators := (List.range pulseQuorumNumValidators).map sampleKey
    workers := [sampleKey pulseQuorumNumValidators] }

/-- A message of a member of the quorum, signed for a top block and a round. -/
def sampleMessage (topHash : Hash) (round : UInt8) (v : ℕ) (payload : Payload) : Message :=
  let msg : Message := { quorumPosition := UInt16.ofNat v, round, signature := 0, payload }
  let signer := if payload.type = .blockTemplate then pulseQuorumNumValidators else v
  { msg with
    signature := sampleSignature (sampleKey signer) (sampleLibrary.msgSignatureHash topHash msg) }

end Xeqm.Pulse
