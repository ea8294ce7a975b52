import Xeqm.Lib.SortedInsert
import Xeqm.ServiceNodes.StateChange

/-!
# Votes of a quorum

The votes that service nodes send each other outside of transactions, the checks of
their age and signature, and the pool that collects them (`service_node_voting.cpp`).
-/

namespace Xeqm.ServiceNodes

open Cryptonote Lib List

/-! ## Votes -/

/-- `quorum_group`. -/
inductive QuorumGroup
  | invalid
  | validator
  | worker
  deriving DecidableEq

/-- `state_change_vote`. -/
structure StateChangeBallot where
  workerIndex : UInt16
  state : NewState
  reason : UInt16
  deriving DecidableEq

/-- The type of a vote with the part that depends on it. -/
inductive VoteContent
  | obligations (change : StateChangeBallot)
  | checkpointing (blockHash : Hash)
  | blink
  | pulse
  deriving DecidableEq

/-- The type of a vote. -/
def VoteContent.type : VoteContent → QuorumType
  | .obligations _ => .obligations
  | .checkpointing _ => .checkpointing
  | .blink => .blink
  | .pulse => .pulse

/-- `quorum_vote_t`. -/
structure QuorumVote where
  blockHeight : UInt64
  group : QuorumGroup
  indexInGroup : UInt16
  signature : Signature
  content : VoteContent
  deriving DecidableEq

/-- `vote_verification_context`, without the flags that nothing here sets. -/
structure VoteVerificationContext where
  verificationFailed : Bool := false
  invalidBlockHeight : Bool := false
  validatorIndexOutOfBounds : Bool := false
  workerIndexOutOfBounds : Bool := false
  signatureNotValid : Bool := false
  addedToPool : Bool := false
  incorrectVotingGroup : Bool := false
  deriving DecidableEq

/-- `VOTE_OR_TX_VERIFY_HEIGHT_BUFFER`. -/
def voteOrTxVerifyHeightBuffer : UInt64 := 5

/-- `verify_vote_age`. -/
def verifyVoteAge (vote : QuorumVote) (latestHeight : UInt64) (vvc : VoteVerificationContext) :
    Bool × VoteVerificationContext :=
  let lifetime := UInt64.ofNat voteLifetime
  if latestHeight > vote.blockHeight + lifetime then
    let heightInBuffer : Bool :=
      latestHeight ≤ vote.blockHeight + (lifetime + voteOrTxVerifyHeightBuffer)
    (false, { vvc with invalidBlockHeight := true, verificationFailed := !heightInBuffer })
  else if vote.blockHeight > latestHeight then
    let heightInBuffer : Bool := vote.blockHeight ≤ latestHeight + voteOrTxVerifyHeightBuffer
    (false, { vvc with invalidBlockHeight := true, verificationFailed := !heightInBuffer })
  else (true, vvc)

/-- `verify_vote_signature`, once the group of the vote is known to be the validators: the
hash that is signed, and for a state change also the check of its worker. -/
def verifyValidatorVote (crypto : Crypto) (vote : QuorumVote) (vvc : VoteVerificationContext)
    (quorum : Quorum) (key : PublicKey) : Bool × VoteVerificationContext :=
  let check (hash : Hash) : Bool × VoteVerificationContext :=
    if crypto.checkSignature hash key vote.signature then (true, vvc)
    else (false, { vvc with signatureNotValid := true })
  match vote.content with
  | .obligations change =>
    if change.workerIndex.toNat < quorum.workers.length then
      check (makeStateChangeVoteHash crypto
        { state := change.state
          blockHeight := vote.blockHeight
          serviceNodeIndex := change.workerIndex.toUInt32 })
    else (false, { vvc with workerIndexOutOfBounds := true })
  | .checkpointing blockHash => check blockHash
  | .blink | .pulse => (false, vvc)

/-- `verify_vote_signature`. -/
def verifyVoteSignature (crypto : Crypto) (vote : QuorumVote) (vvc : VoteVerificationContext)
    (quorum : Quorum) : Bool × VoteVerificationContext :=
  match vote.group with
  | .invalid => (false, { vvc with incorrectVotingGroup := true })
  | .validator =>
    match quorum.validators[vote.indexInGroup.toNat]? with
    | none => (false, { vvc with validatorIndexOutOfBounds := true })
    | some key => verifyValidatorVote crypto vote vvc quorum key
  | .worker =>
    if vote.indexInGroup.toNat < quorum.workers.length then
      match vote.content with
      | .obligations _ | .checkpointing _ => (false, { vvc with incorrectVotingGroup := true })
      | .blink | .pulse => (false, vvc)
    else (false, { vvc with workerIndexOutOfBounds := true })

/-! ## The pool -/

/-- `pool_vote_entry`. -/
structure PoolVoteEntry where
  vote : QuorumVote
  timeLastSentP2p : UInt64 := 0
  deriving DecidableEq

/-- The order of the votes in an entry of the pool. -/
def PoolVoteEntry.index (entry : PoolVoteEntry) : ℕ := entry.vote.indexInGroup.toNat

/-- An entry of a pool: what its votes are for, and the votes. -/
structure PoolEntry (κ : Type) where
  key : κ
  votes : List PoolVoteEntry := []
  deriving DecidableEq

/-- What the votes in an `obligations_pool_entry` are for. -/
structure ObligationsKey where
  height : UInt64
  workerIndex : UInt32
  state : NewState
  deriving DecidableEq

/-- What the votes in a `checkpoint_pool_entry` are for. -/
structure CheckpointKey where
  height : UInt64
  hash : Hash
  deriving DecidableEq

/-- `voting_pool`. -/
structure VotingPool where
  obligationsPool : List (PoolEntry ObligationsKey) := []
  checkpointPool : List (PoolEntry CheckpointKey) := []
  deriving DecidableEq

namespace VotingPool

/-- `find_vote_in_pool` and `add_vote_to_pool_if_unique`: the pool with the vote in the entry
for its key, the votes of that entry, and whether the vote is new. -/
def addVote {κ : Type} [DecidableEq κ] (key : κ) (vote : QuorumVote) :
    List (PoolEntry κ) → List (PoolEntry κ) × List PoolVoteEntry × Bool
  | [] =>
    let (votes, added) := insertUnique PoolVoteEntry.index { vote } []
    ([{ key, votes }], votes, added)
  | entry :: rest =>
    if entry.key = key then
      let (votes, added) := insertUnique PoolVoteEntry.index { vote } entry.votes
      ({ entry with votes } :: rest, votes, added)
    else
      let (rest, votes, added) := addVote key vote rest
      (entry :: rest, votes, added)

/-- `add_pool_vote_if_unique`. -/
def addPoolVoteIfUnique (vote : QuorumVote) (vvc : VoteVerificationContext) (pool : VotingPool) :
    VotingPool × List PoolVoteEntry × VoteVerificationContext :=
  match vote.content with
  | .obligations change =>
    let key : ObligationsKey :=
      { height := vote.blockHeight, workerIndex := change.workerIndex.toUInt32, state := change.state }
    let (obligationsPool, votes, added) := addVote key vote pool.obligationsPool
    ({ pool with obligationsPool }, votes, { vvc with addedToPool := added })
  | .checkpointing blockHash =>
    let key : CheckpointKey := { height := vote.blockHeight, hash := blockHash }
    let (checkpointPool, votes, added) := addVote key vote pool.checkpointPool
    ({ pool with checkpointPool }, votes, { vvc with addedToPool := added })
  | .blink | .pulse => (pool, [], vvc)

/-- `remove_used_votes`, given the state changes of the transactions. -/
def removeUsedVotes (changes : List TxExtraServiceNodeStateChange) (pool : VotingPool) :
    VotingPool :=
  let remove (entries : List (PoolEntry ObligationsKey)) (change : TxExtraServiceNodeStateChange) :=
    entries.eraseP (fun entry => entry.key =
      { height := change.blockHeight
        workerIndex := change.serviceNodeIndex
        state := change.state })
  { pool with obligationsPool := changes.foldl remove pool.obligationsPool }

/-- `cull_votes`. -/
def cullVotes {κ : Type} (height : κ → UInt64) (minHeight maxHeight : UInt64)
    (entries : List (PoolEntry κ)) : List (PoolEntry κ) :=
  entries.filter (fun entry => ¬ (height entry.key < minHeight ∨ height entry.key > maxHeight))

/-- `remove_expired_votes`. -/
def removeExpiredVotes (height : UInt64) (pool : VotingPool) : VotingPool :=
  let lifetime := UInt64.ofNat voteLifetime
  let minHeight := if height < lifetime then 0 else height - lifetime
  { obligationsPool := cullVotes ObligationsKey.height minHeight height pool.obligationsPool
    checkpointPool := cullVotes CheckpointKey.height minHeight height pool.checkpointPool }

/-- `received_checkpoint_vote`. -/
def receivedCheckpointVote (height : UInt64) (indexInQuorum : ℕ) (pool : VotingPool) : Bool :=
  match pool.checkpointPool.find? (fun entry => entry.key.height = height) with
  | none => false
  | some entry => entry.votes.any (fun vote => vote.index = indexInQuorum)

/-- The first vote of an index marked as sent. -/
def markSent (index : UInt16) (now : UInt64) : List PoolVoteEntry → List PoolVoteEntry
  | [] => []
  | entry :: rest =>
    if entry.vote.indexInGroup = index then { entry with timeLastSentP2p := now } :: rest
    else entry :: markSent index now rest

/-- `set_relayed` for one vote and the entries of one pool. -/
def setRelayedIn {κ : Type} [DecidableEq κ] (key : κ) (index : UInt16) (now : UInt64) :
    List (PoolEntry κ) → List (PoolEntry κ)
  | [] => []
  | entry :: rest =>
    if entry.key = key then { entry with votes := markSent index now entry.votes } :: rest
    else entry :: setRelayedIn key index now rest

/-- `set_relayed`. -/
def setRelayed (votes : List QuorumVote) (now : UInt64) (pool : VotingPool) : VotingPool :=
  votes.foldl (fun pool vote =>
    match vote.content with
    | .obligations change =>
      let key : ObligationsKey :=
        { height := vote.blockHeight
          workerIndex := change.workerIndex.toUInt32
          state := change.state }
      { pool with obligationsPool := setRelayedIn key vote.indexInGroup now pool.obligationsPool }
    | .checkpointing blockHash =>
      let key : CheckpointKey := { height := vote.blockHeight, hash := blockHash }
      { pool with checkpointPool := setRelayedIn key vote.indexInGroup now pool.checkpointPool }
    | .blink | .pulse => pool) pool

/-- A pool tells for a height whose votes it holds exactly if all of them are among the votes for
the first block that was voted for at that height. -/
theorem receivedCheckpointVote_iff (pool : VotingPool) (height : UInt64) :
    (∀ index, pool.receivedCheckpointVote height index = true ↔
      ∃ entry ∈ pool.checkpointPool, entry.key.height = height ∧
        ∃ vote ∈ entry.votes, vote.index = index) ↔
    ∀ entry ∈ pool.checkpointPool, entry.key.height = height → ∀ vote ∈ entry.votes,
      ∃ first ∈ pool.checkpointPool.find? (fun entry => entry.key.height = height),
        ∃ vote' ∈ first.votes, vote'.index = vote.index := by
  have hreceived (index : ℕ) : pool.receivedCheckpointVote height index = true ↔
      ∃ first ∈ pool.checkpointPool.find? (fun entry => entry.key.height = height),
        ∃ vote ∈ first.votes, vote.index = index := by
    unfold receivedCheckpointVote
    cases pool.checkpointPool.find? (fun entry => entry.key.height = height) <;> simp
  simp only [hreceived]
  constructor
  · intro hexact entry hentry hheight vote hvote
    exact (hexact vote.index).mpr ⟨entry, hentry, hheight, vote, hvote, rfl⟩
  · rintro hfirst index
    constructor
    · rintro ⟨first, hfound, hvote⟩
      exact ⟨first, mem_of_find?_eq_some hfound,
        by simpa using find?_some hfound, hvote⟩
    · rintro ⟨entry, hentry, hheight, vote, hvote, rfl⟩
      exact hfirst entry hentry hheight vote hvote

/-- Two validators vote for different blocks of one height. -/
theorem receivedCheckpointVote_missed :
    let vote (index : UInt16) (hash : Hash) : QuorumVote :=
      { blockHeight := 4, group := .validator, indexInGroup := index, signature := 0
        content := .checkpointing hash }
    let pool := (addPoolVoteIfUnique (vote 1 8) {} (addPoolVoteIfUnique (vote 0 7) {} {}).1).1
    pool.receivedCheckpointVote 4 1 = false ∧
      ∃ entry ∈ pool.checkpointPool, entry.key.height = 4 ∧ ∃ v ∈ entry.votes, v.index = 1 := by
  decide

/-! ## The pool over time -/

/-- The calls that change what is in the pool. -/
inductive Call
  | add (vote : QuorumVote) (vvc : VoteVerificationContext)
  | removeUsed (changes : List TxExtraServiceNodeStateChange)
  | removeExpired (height : UInt64)

/-- The pool after a call. -/
def Call.run (pool : VotingPool) : Call → VotingPool
  | .add vote vvc => (addPoolVoteIfUnique vote vvc pool).1
  | .removeUsed changes => removeUsedVotes changes pool
  | .removeExpired height => removeExpiredVotes height pool

/-- The pool after some calls. -/
def after (calls : List Call) : VotingPool := calls.foldl Call.run {}

section

variable {κ : Type} {key : κ} {vote : QuorumVote} {entries entries' : List (PoolEntry κ)}
  {P : κ → List PoolVoteEntry → Prop}

/-- One entry for each key, each with its votes in the order of the validators. -/
structure Ordered (entries : List (PoolEntry κ)) : Prop where
  keys : (entries.map PoolEntry.key).Nodup
  votes : ∀ entry ∈ entries, SortedBy PoolVoteEntry.index entry.votes

/-- A vote of the validator is in an entry for the key. -/
def Holds (entries : List (PoolEntry κ)) (key : κ) (index : ℕ) : Prop :=
  ∃ entry ∈ entries, entry.key = key ∧ ∃ vote ∈ entry.votes, vote.index = index

theorem Ordered.sublist (h : Ordered entries) (hsub : entries'.Sublist entries) :
    Ordered entries' :=
  ⟨h.keys.sublist (hsub.map _), fun entry hentry => h.votes entry (hsub.subset hentry)⟩

variable [DecidableEq κ]

/-- What holds of all entries holds after a vote if it holds of an entry without votes and is
kept when the vote is put into its entry. -/
theorem addVote_keeps (hentries : ∀ entry ∈ entries, P entry.key entry.votes) (hnil : P key [])
    (hinsert : ∀ votes, P key votes → P key (insertUnique PoolVoteEntry.index { vote } votes).1) :
    (∀ entry ∈ (addVote key vote entries).1, P entry.key entry.votes) ∧
      P key (addVote key vote entries).2.1 := by
  induction entries with
  | nil =>
    have hnew := hinsert [] hnil
    refine ⟨fun entry hmem => ?_, hnew⟩
    rw [mem_singleton.mp hmem]
    exact hnew
  | cons head rest ih =>
    obtain ⟨hhead, hrest⟩ := forall_mem_cons.mp hentries
    unfold addVote
    split
    · rename_i hkey
      subst hkey
      have hnew := hinsert _ hhead
      exact ⟨forall_mem_cons.mpr ⟨hnew, hrest⟩, hnew⟩
    · obtain ⟨hall, hvotes⟩ := ih hrest
      exact ⟨forall_mem_cons.mpr ⟨hhead, hall⟩, hvotes⟩

theorem addVote_map_key : (addVote key vote entries).1.map PoolEntry.key =
    entries.map PoolEntry.key ++ if key ∈ entries.map PoolEntry.key then [] else [key] := by
  induction entries with
  | nil => rfl
  | cons head rest ih =>
    unfold addVote
    split
    · simp_all
    · simp_all [eq_comm]

theorem Ordered.addVote (h : Ordered entries) : Ordered (addVote key vote entries).1 := by
  refine ⟨?_, (addVote_keeps (P := fun _ => SortedBy PoolVoteEntry.index) h.votes .nil
    fun _ => insertUnique_sorted).1⟩
  rw [addVote_map_key]
  split
  · simpa using h.keys
  · rename_i hnew
    exact h.keys.append (nodup_singleton key) (disjoint_singleton.mpr hnew)

/-- A vote is added exactly if no such vote is in the only entry for its key. -/
theorem Ordered.added_iff (h : Ordered entries) : (VotingPool.addVote key vote entries).2.2 = true ↔
    ¬Holds entries key (PoolVoteEntry.index { vote }) := by
  induction entries with
  | nil => simp [Holds]; rfl
  | cons head rest ih =>
    obtain ⟨hfirst, hrest⟩ := nodup_cons.mp h.keys
    obtain ⟨hhead, hvotes⟩ := forall_mem_cons.mp h.votes
    have hcons (index : ℕ) : Holds (head :: rest) key index ↔
        head.key = key ∧ (∃ vote ∈ head.votes, vote.index = index) ∨ Holds rest key index := by
      simp [Holds]
    rw [hcons]
    unfold VotingPool.addVote
    split
    · rename_i hkey
      subst hkey
      have hother (index : ℕ) : ¬Holds rest head.key index :=
        fun ⟨entry, hentry, heq, _⟩ => hfirst (heq ▸ mem_map_of_mem hentry)
      simpa [hother] using insertUnique_added_iff hhead
    · rename_i hne
      simpa [hne] using ih ⟨hrest, hvotes⟩

end

structure InOrder (pool : VotingPool) : Prop where
  obligations : Ordered pool.obligationsPool
  checkpoints : Ordered pool.checkpointPool

theorem InOrder.run {pool : VotingPool} (h : pool.InOrder) (call : Call) :
    (call.run pool).InOrder := by
  cases call with
  | add vote vvc =>
    unfold Call.run addPoolVoteIfUnique
    dsimp only
    split
    · exact ⟨h.obligations.addVote, h.checkpoints⟩
    · exact ⟨h.obligations, h.checkpoints.addVote⟩
    · exact h
    · exact h
  | removeUsed changes =>
    exact ⟨foldlRecOn changes _ h.obligations fun _ h _ _ => h.sublist eraseP_sublist,
      h.checkpoints⟩
  | removeExpired height =>
    exact ⟨h.obligations.sublist filter_sublist, h.checkpoints.sublist filter_sublist⟩

/-- Whatever was called, the pools are in order, and a vote is reported as added exactly if none
with its key and index was there. -/
theorem after_inOrder (calls : List Call) (vote : QuorumVote) (vvc : VoteVerificationContext) :
    (after calls).InOrder ∧
    (∀ change, (addPoolVoteIfUnique { vote with content := .obligations change } vvc
        (after calls)).2.2.addedToPool = true ↔
      ¬Holds (after calls).obligationsPool
        ⟨vote.blockHeight, change.workerIndex.toUInt32, change.state⟩ vote.indexInGroup.toNat) ∧
    ∀ hash, (addPoolVoteIfUnique { vote with content := .checkpointing hash } vvc
        (after calls)).2.2.addedToPool = true ↔
      ¬Holds (after calls).checkpointPool ⟨vote.blockHeight, hash⟩ vote.indexInGroup.toNat := by
  have h : (after calls).InOrder :=
    foldlRecOn calls _ ⟨⟨.nil, by simp⟩, ⟨.nil, by simp⟩⟩ fun _ h call _ => h.run call
  exact ⟨h, fun _ => h.obligations.added_iff, fun _ => h.checkpoints.added_iff⟩

end VotingPool

end Xeqm.ServiceNodes
