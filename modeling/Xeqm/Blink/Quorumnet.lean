import Mathlib.Data.UInt
import Xeqm.Blink.Transaction

/-!
# Blink messages between quorum members

What a member of the blink quorums does with the messages about one height and transaction: the
submission in `handle_blink`, signatures in `handle_blink_signature`, and both in
`process_blink_signatures`. The handlers run on several threads and lock the transaction only now
and then, so each of their locked sections is a step of its own. One of them is the clean-up of the
cache, after which the member knows nothing of the transaction any more.
-/

namespace Xeqm.Blink

open Cryptonote ServiceNodes

/-! ## Quorums -/

/-- The validators of a quorum, which are different nodes. -/
structure Validators where
  keys : List PublicKey
  nodup : keys.Nodup

/-- A quorum of a size that `get_blink_quorums` accepts. -/
structure BlinkQuorum extends Validators where
  min_le : blinkMinVotes ≤ keys.length
  le_size : keys.length ≤ blinkSubquorumSize

/-- The number with these bytes, lowest first. -/
def littleEndianValue (bytes : List UInt8) : ℕ :=
  bytes.foldr (fun byte value => byte.toNat + 256 * value) 0

/-- `quorum_checksum`: eight bytes of every key, read one further each time and around its end. -/
def quorumChecksum (pubkeys : List PublicKey) (offset : ℕ) : UInt64 :=
  ((pubkeys.zipIdx offset).map (fun (key, i) =>
    UInt64.ofNat (littleEndianValue (((key.bytes ++ key.bytes).drop (i % 32)).take 8)))).sum

/-- One round of the loop of `get_blink_quorums`. -/
def getBlinkQuorum (lookup : UInt64 → Option Validators) (blinkHeight : UInt64) (q : Subquorum) :
    Except String BlinkQuorum :=
  let height := quorumHeight blinkHeight q
  if height = 0 then .error "too early in blockchain to create a quorum"
  else
    match lookup height with
    | none => .error "failed to obtain a blink quorum"
    | some v =>
      if h : blinkMinVotes ≤ v.keys.length ∧ v.keys.length ≤ blinkSubquorumSize then
        .ok ⟨v, h.1, h.2⟩
      else .error "not enough blink nodes to form a quorum"

/-- The checksum of both quorums. -/
def blinkChecksum (quorums : Subquorum → BlinkQuorum) : UInt64 :=
  (Subquorum.all.map (fun q =>
    quorumChecksum (quorums q).keys (q.index.toNat * blinkSubquorumSize))).sum

/-- `quorum_array`. -/
def quorumArray (base future : BlinkQuorum) : Subquorum → BlinkQuorum
  | .base => base
  | .future => future

/-- `get_blink_quorums`. -/
def getBlinkQuorums (lookup : UInt64 → Option Validators) (blinkHeight inputChecksum : UInt64) :
    Except String (Subquorum → BlinkQuorum) := do
  let base ← getBlinkQuorum lookup blinkHeight .base
  let future ← getBlinkQuorum lookup blinkHeight .future
  let quorums := quorumArray base future
  if inputChecksum ≠ blinkChecksum quorums then
    .error ("wrong quorum checksum: expected " ++ toString (blinkChecksum quorums) ++
      ", received " ++ toString inputChecksum)
  else .ok quorums

/-! ## A quorum member -/

/-- A service node, a height for which it finds the blink quorums, and a transaction. -/
structure Member where
  crypto : Crypto
  key : PublicKey
  /-- `generate_signature` with the keys of the node. -/
  sign : Hash → Signature
  sign_valid : ∀ hash, crypto.checkSignature hash key (sign hash) = true
  height : UInt64
  txHash : Hash
  /-- `service_node_list::get_quorum` for blink quorums. -/
  lookup : UInt64 → Option Validators
  quorums : Subquorum → BlinkQuorum
  quorums_eq : getBlinkQuorums lookup height (blinkChecksum quorums) = .ok quorums

/-- `pending_signature`. -/
structure PendingSignature where
  approval : Bool
  quorum : Subquorum
  position : Fin blinkSubquorumSize
  signature : Signature
  deriving DecidableEq

/-- The transaction with some signatures added, as far as their slots are free. -/
def BlinkTx.addAll (btx : BlinkTx) (signatures : List PendingSignature) : BlinkTx :=
  signatures.foldl (fun btx x =>
    (btx.addPrecheckedSignature x.quorum x.position x.approval x.signature).2) btx

namespace Member

variable (member : Member)

/-- The validator of a slot. -/
def validatorAt (q : Subquorum) (position : Fin blinkSubquorumSize) : Option PublicKey :=
  (member.quorums q).keys[position.val]?

/-- The last position of the node in a quorum. -/
def myPosition (q : Subquorum) : Option ℕ :=
  (((member.quorums q).keys.zipIdx.filter (fun entry => entry.1 = member.key)).getLast?).map
    Prod.snd

/-- The signatures of the node itself for its verdict. -/
def ownSignatures (approved : Bool) : List PendingSignature :=
  Subquorum.all.filterMap (fun q =>
    (member.myPosition q).map (fun position =>
      { approval := approved
        quorum := q
        position := Fin.ofNat blinkSubquorumSize position
        signature := member.sign
          (verdictHash member.crypto member.height member.txHash approved) }))

/-- The slot has a validator, who made the signature. -/
def verifies (x : PendingSignature) : Bool :=
  match member.validatorAt x.quorum x.position with
  | none => false
  | some key => member.crypto.checkSignature
      (verdictHash member.crypto member.height member.txHash x.approval) key x.signature

/-- The transaction as `handle_blink` creates it, with rejections in the slots of a quorum that has
no validator for them. -/
def newBlink : BlinkTx :=
  Subquorum.all.foldl (fun btx q => btx.limitSignatures q (member.quorums q).keys.length)
    { height := member.height, txHash := member.txHash }

end Member

/-! ## Messages -/

/-- A `blink` message about the height and the transaction. -/
structure BlinkMessage where
  /-- The tag of the node that submits the transaction, zero if it is relayed. -/
  tag : UInt64 := 0
  /-- The transaction, if there is one. -/
  txData : Option (List UInt8)
  checksum : UInt64

/-- What `handle_blink` finds around it. -/
structure Surroundings where
  localHeight : UInt64
  version : Hf
  /-- `parse_and_validate_tx_from_blob`: the hash of a transaction that can be parsed. -/
  parseTx : List UInt8 → Option Hash
  /-- Whether some peer in the quorums can be reached. -/
  strongPeers : Bool

/-- A `blink_sign` message about the height and the transaction, where a signature of a wrong size
is nothing. -/
structure SignMessage where
  quorumIndices : List UInt8
  positions : List ℤ
  checksum : UInt64
  results : List Bool
  signatures : List (Option Signature)

/-- What is sent back to the node that has submitted the transaction. -/
inductive Reply
  | nostart (error : String)
  | good
  | bad
  deriving DecidableEq

/-- A position as `handle_blink_signature` accepts it. -/
def parsePosition (position : ℤ) : Option (Fin blinkSubquorumSize) :=
  if h : 0 ≤ position ∧ position.toNat < blinkSubquorumSize then some ⟨position.toNat, h.2⟩
  else none

/-- A signature of the right size that is not null. -/
def parseSignature (signature : Option Signature) : Option Signature :=
  signature.filter (fun sig => sig ≠ 0)

/-- The signatures in a message, or nothing if `handle_blink_signature` throws. -/
def SignMessage.parse (msg : SignMessage) (member : Member) : Option (List PendingSignature) := do
  guard (member.height ≠ 0)
  let quorums ← msg.quorumIndices.mapM Subquorum.ofIndex
  guard (msg.positions.length = quorums.length)
  let positions ← msg.positions.mapM parsePosition
  guard (msg.results.length = quorums.length)
  guard (msg.signatures.length = quorums.length)
  let signatures ← msg.signatures.mapM parseSignature
  let _ ← (getBlinkQuorums member.lookup member.height msg.checksum).toOption
  return (((msg.results.zip quorums).zip positions).zip signatures).map
    (fun (((approval, quorum), position), signature) =>
      { approval, quorum, position, signature })

/-! ## The handlers

A handler that waits for its next locked section is a task. It holds the signatures that it has not
discarded yet and the tag it may have to answer.
-/

/-- A handler under way. -/
inductive Task
  /-- `handle_blink` has checked a submission. -/
  | store (tag : UInt64)
  /-- `handle_blink` has stored the transaction and is about to vote on it. -/
  | vote (signatures : List PendingSignature) (tag : UInt64)
  /-- `process_blink_signatures` is about to discard signatures for slots that are taken. -/
  | filter (signatures : List PendingSignature) (tag : UInt64)
  /-- It is about to verify them. -/
  | verify (signatures : List PendingSignature) (tag : UInt64)
  /-- It is about to add them. -/
  | record (signatures : List PendingSignature) (tag : UInt64)
  deriving DecidableEq

/-- `handle_blink` has not looked for the transaction in the cache yet. -/
def Task.isStore : Task → Bool
  | .store _ => true
  | _ => false

/-- The signatures that a handler holds. -/
def Task.signatures : Task → List PendingSignature
  | .store _ => []
  | .vote signatures _ => signatures
  | .filter signatures _ => signatures
  | .verify signatures _ => signatures
  | .record signatures _ => signatures

/-- The tag that a handler may have to answer. -/
def Task.tag : Task → UInt64
  | .store tag => tag
  | .vote _ tag => tag
  | .filter _ tag => tag
  | .verify _ tag => tag
  | .record _ tag => tag

/-- `blink_metadata` of the height and the transaction, the handlers under way, the replies that
were sent, and, for reference, all signatures that ever came in. -/
structure MemberState where
  btx : Option BlinkTx := none
  /-- `pending_sigs`. -/
  pending : List PendingSignature := []
  replyTag : UInt64 := 0
  tasks : List Task := []
  replies : List (UInt64 × Reply) := []
  received : List PendingSignature := []

/-- What happens at a member. -/
inductive Event
  /-- A `blink` message is checked. -/
  | blink (env : Surroundings) (msg : BlinkMessage)
  /-- A `blink_sign` message comes in. -/
  | blinkSign (msg : SignMessage)
  /-- A handler has decided whether the transaction is valid. -/
  | vote (signatures : List PendingSignature) (tag : UInt64) (approved : Bool)
  /-- A handler goes through its next locked section. -/
  | advance (task : Task)

namespace MemberState

variable (s : MemberState)

variable (member : Member)

/-- Reply, if there is someone to reply to. -/
def reply (tag : UInt64) (answer : Reply) : MemberState :=
  if tag = 0 then s else { s with replies := (tag, answer) :: s.replies }

/-- Put a handler, if there is more for it to do, in the place of another. -/
def replace (task : Task) (next : Option Task) : MemberState :=
  { s with tasks := next.toList ++ s.tasks.erase task }

/-- `handle_blink` from behind the clean-up to where it stores the transaction. -/
def handleBlink (env : Surroundings) (msg : BlinkMessage) : MemberState :=
  if env.version < blinkFeature then
    s.reply msg.tag (.nostart "Invalid blink authorization height")
  else if member.height < env.localHeight - 2 then
    s.reply msg.tag (.nostart "Invalid blink authorization height")
  else if member.height > env.localHeight + 2 then
    s.reply msg.tag (.nostart "Invalid blink authorization height")
  else
    match msg.txData with
    | none => s.reply msg.tag (.nostart "No transaction included in blink request")
    | some txData =>
      match s.btx with
      | some btx =>
        if msg.tag = 0 then s
        else if btx.approved then s.reply msg.tag .good
        else if btx.rejected then s.reply msg.tag .bad
        else { s with replyTag := msg.tag }
      | none =>
        match getBlinkQuorums member.lookup member.height msg.checksum with
        | .error e => s.reply msg.tag (.nostart ("Unable to retrieve blink quorum: " ++ e))
        | .ok _ =>
          if Subquorum.all.all (fun q => (member.myPosition q).isNone) then
            s.reply msg.tag (.nostart "Blink tx relayed to non-blink quorum member")
          else
            match env.parseTx txData with
            | none => s.reply msg.tag (.nostart "Failed to parse transaction data")
            | some txHash =>
              if txHash ≠ member.txHash then
                s.reply msg.tag (.nostart "Invalid transaction hash")
              else if !env.strongPeers then
                s.reply msg.tag (.nostart "No quorum peers are currently reachable")
              else { s with tasks := .store msg.tag :: s.tasks }

/-- `handle_blink_signature`: what has no transaction yet is kept for later. -/
def handleBlinkSignature (msg : SignMessage) : MemberState :=
  match msg.parse member with
  | none => s
  | some signatures =>
    let s := { s with received := signatures ++ s.received }
    match s.btx with
    | none => { s with pending := s.pending ++ signatures.filter (· ∉ s.pending) }
    | some _ => { s with tasks := .filter signatures s.replyTag :: s.tasks }

/-- The end of `process_blink_signatures`: the signatures are added, as far as their slots are still
free, and a verdict that is reached by them is replied. -/
def recordSignatures (btx : BlinkTx) (signatures : List PendingSignature) (tag : UInt64) :
    MemberState :=
  let already := btx.approved || btx.rejected
  let btx := btx.addAll signatures
  let s := { s with btx := some btx }
  if already then s
  else if btx.approved then s.reply tag .good
  else if btx.rejected then s.reply tag .bad
  else s

/-- The next locked section of a handler. -/
def advance (task : Task) : MemberState :=
  if task ∉ s.tasks then s
  else
    match task with
    | .store tag =>
      if s.btx.isSome then s.replace task none
      else
        let s := s.replace task (some (.vote s.pending tag))
        { s with
          btx := some member.newBlink
          pending := []
          replyTag := if tag > 0 then tag else s.replyTag }
    | .vote _ _ => s
    | .filter signatures tag =>
      match s.btx with
      | none => s
      | some btx =>
        let signatures := signatures.filter (fun x =>
          (member.validatorAt x.quorum x.position).isSome ∧
            btx.status x.quorum x.position = .none)
        s.replace task (if signatures = [] then none else some (.verify signatures tag))
    | .verify signatures tag =>
      let signatures := signatures.filter member.verifies
      s.replace task (if signatures = [] then none else some (.record signatures tag))
    | .record signatures tag =>
      match s.btx with
      | none => s
      | some btx => (s.replace task none).recordSignatures btx signatures tag

/-- A handler adds its own signatures to those it holds. -/
def castVote (signatures : List PendingSignature) (tag : UInt64) (approved : Bool) : MemberState :=
  let task := Task.vote signatures tag
  if task ∉ s.tasks then s
  else
    let own := member.ownSignatures approved
    { s.replace task (some (.filter (signatures ++ own) tag)) with received := own ++ s.received }

/-- One event. -/
def step (s : MemberState) : Event → MemberState
  | .blink env msg => s.handleBlink member env msg
  | .blinkSign msg => s.handleBlinkSignature member msg
  | .vote signatures tag approved => s.castVote member signatures tag approved
  | .advance task => s.advance member task

/-- The transaction is approved. -/
def Approved : Prop := ∃ btx ∈ s.btx, btx.approved = true

instance : Decidable s.Approved := inferInstanceAs (Decidable (∃ btx ∈ s.btx, _))

/-- The transaction is rejected. -/
def Rejected : Prop := ∃ btx ∈ s.btx, btx.rejected = true

/-- The transaction is there and no handler is under way. -/
def Settled : Prop := s.btx.isSome ∧ s.tasks = []

end MemberState

/-- The state of a member after some events. -/
def Member.run (member : Member) (events : List Event) : MemberState :=
  events.foldl (MemberState.step member) {}

/-! ## The cache

For a submission of whatever height and transaction, `handle_blink` first drops what is far below the
tip, if it has not done so for some time. A handler that holds a dropped transaction goes on with it.
-/

/-- `BLINK_KEEP_RECENT_HEIGHTS`. -/
def blinkKeepRecentHeights : UInt64 := 10

/-- The entry of the height and the transaction in `blinks`, and what was dropped, latest first. -/
structure BlinkCache where
  entry : MemberState := {}
  dropped : List MemberState := []

/-- What happens at a member that cleans up. -/
inductive CacheEvent
  /-- Something happens at the entry. -/
  | entry (event : Event)
  /-- `handle_blink` cleans up. -/
  | cleanup (localHeight : UInt64)
  /-- A handler has decided whether a dropped transaction is valid. -/
  | lateVote (i : ℕ) (signatures : List PendingSignature) (tag : UInt64) (approved : Bool)
  /-- A handler that holds a dropped transaction goes through its next locked section. -/
  | lateAdvance (i : ℕ) (task : Task)

namespace CacheEvent

/-- The clean-up drops the entry. -/
def Drops (member : Member) : CacheEvent → Prop
  | .cleanup localHeight => localHeight > blinkKeepRecentHeights ∧
      member.height < localHeight - blinkKeepRecentHeights
  | _ => False

instance (member : Member) : DecidablePred (Drops member) := fun event =>
  match event with
  | .cleanup _ => inferInstanceAs (Decidable (_ ∧ _))
  | .entry _ | .lateVote .. | .lateAdvance .. => inferInstanceAs (Decidable False)

/-- What happens at the entry. -/
def atEntry : CacheEvent → Option Event
  | .entry event => some event
  | _ => none

/-- What happens at the entry or at a dropped one. -/
def event : CacheEvent → Option Event
  | .entry event => some event
  | .cleanup _ => none
  | .lateVote _ signatures tag approved => some (.vote signatures tag approved)
  | .lateAdvance _ task => some (.advance task)

end CacheEvent

namespace BlinkCache

variable (cache : BlinkCache)

/-- The entry and what was dropped. -/
def states : List MemberState := cache.entry :: cache.dropped

/-- The entry is dropped with the handlers that hold its transaction. -/
def drop : BlinkCache where
  entry := { tasks := cache.entry.tasks.filter Task.isStore }
  dropped :=
    { cache.entry with tasks := cache.entry.tasks.filter (fun task => !task.isStore) } ::
      cache.dropped

/-- One event. -/
def step (member : Member) (cache : BlinkCache) (event : CacheEvent) : BlinkCache :=
  match event with
  | .entry event => { cache with entry := cache.entry.step member event }
  | .cleanup _ => if event.Drops member then cache.drop else cache
  | .lateVote i signatures tag approved =>
    { cache with dropped := cache.dropped.modify i (·.castVote member signatures tag approved) }
  | .lateAdvance i task =>
    { cache with dropped := cache.dropped.modify i (·.advance member task) }

end BlinkCache

/-- The cache of a member after some events. -/
def Member.runCache (member : Member) (events : List CacheEvent) : BlinkCache :=
  events.foldl (BlinkCache.step member) {}

/-- A signature that came in a message, or is one of the member itself. -/
def Delivered (member : Member) (events : List Event) (x : PendingSignature) : Prop :=
  (∃ msg, .blinkSign msg ∈ events ∧ ∃ signatures ∈ msg.parse member, x ∈ signatures) ∨
    ∃ signatures tag approved, .vote signatures tag approved ∈ events ∧
      x ∈ member.ownSignatures approved

end Xeqm.Blink
