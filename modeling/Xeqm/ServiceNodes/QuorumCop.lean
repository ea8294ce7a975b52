import Xeqm.Checkpoints.Store
import Xeqm.ServiceNodes.Voting

/-!
# Handling votes

`quorum_cop::handle_vote`: a vote that is verified goes into the pool, and enough votes for
a block make a checkpoint.
-/

namespace Xeqm.ServiceNodes

open Cryptonote Lib Checkpoints

/-- What handling a vote reads of the rest of the daemon. -/
structure VoteSurroundings where
  /-- `get_current_blockchain_height`. -/
  chainHeight : UInt64
  /-- `service_node_list::get_quorum`. -/
  getQuorum : QuorumType → UInt64 → Option Quorum
  /-- `handle_obligations_vote`, which adds at most a transaction to the pool. -/
  handleObligationsVote : QuorumVote → List PoolVoteEntry → Quorum → Bool := fun _ _ _ => true

/-- The quorum cop with the checkpoints of the chain, and a list of the checkpoints that votes
have given to `update_checkpoint`. -/
structure QuorumCop where
  votePool : VotingPool := {}
  checkpoints : Store := {}
  stored : List Checkpoint := []

/-- `make_empty_service_node_checkpoint`. -/
def makeEmptyServiceNodeCheckpoint (blockHash : Hash) (height : ℕ) : Checkpoint :=
  { type := .serviceNode, height, blockHash }

/-- The signature of a vote in the pool. -/
def PoolVoteEntry.quorumSignature (entry : PoolVoteEntry) : QuorumSignature :=
  { voterIndex := entry.vote.indexInGroup, signature := entry.vote.signature }

/-- The position of a voter. -/
def voter (signature : QuorumSignature) : ℕ := signature.voterIndex.toNat

/-- The signatures of a stored checkpoint with those of the votes that it lacks, and whether
there are any. -/
def mergeVotes (signatures : List QuorumSignature) (votes : List PoolVoteEntry) :
    List QuorumSignature × Bool :=
  votes.foldl (fun (signatures, updated) entry =>
    let (signatures, added) := insertUnique voter entry.quorumSignature signatures
    (signatures, updated || added)) (signatures, false)

/-- The checkpoint that the votes for a block make, if it is to be stored. -/
def checkpointOfVotes (chainHeight : UInt64) (vote : QuorumVote) (blockHash : Hash)
    (votes : List PoolVoteEntry) (existing : Option Checkpoint) : Option Checkpoint :=
  let fresh : Option Checkpoint :=
    -- no checkpoints for blocks that are not there yet
    if vote.blockHeight < chainHeight then
      some { makeEmptyServiceNodeCheckpoint blockHash vote.blockHeight.toNat with
        signatures := votes.map PoolVoteEntry.quorumSignature }
    else none
  match existing with
  | none => fresh
  | some checkpoint =>
    if checkpoint.blockHash = blockHash then
      if checkpoint.signatures.length ≠ checkpointQuorumSize then
        let (signatures, updated) := mergeVotes (Store.sortSignatures checkpoint.signatures) votes
        if updated then some { checkpoint with signatures } else none
      else none
    else fresh

/-- `handle_checkpoint_vote`. -/
def handleCheckpointVote (chainHeight : UInt64) (vote : QuorumVote) (blockHash : Hash)
    (votes : List PoolVoteEntry) (cop : QuorumCop) : QuorumCop :=
  if votes.length < checkpointMinVotes then cop
  else
    let existing := cop.checkpoints.getBlockCheckpoint vote.blockHeight.toNat
    match checkpointOfVotes chainHeight vote blockHash votes existing with
    | none => cop
    | some checkpoint =>
      { cop with
        checkpoints := (cop.checkpoints.updateCheckpoint checkpoint).2
        stored := cop.stored ++ [checkpoint] }

/-- `quorum_cop::handle_vote`. -/
def handleVote (crypto : Crypto) (around : VoteSurroundings) (vote : QuorumVote)
    (cop : QuorumCop) : Bool × VoteVerificationContext × QuorumCop :=
  let (young, vvc) := verifyVoteAge vote around.chainHeight {}
  if !young then (false, vvc, cop)
  else
    match around.getQuorum vote.content.type vote.blockHeight with
    | none => (false, { vvc with invalidBlockHeight := true }, cop)
    | some quorum =>
      let (signed, vvc) := verifyVoteSignature crypto vote vvc quorum
      if !signed then (false, vvc, cop)
      else
        let (votePool, votes, vvc) := cop.votePool.addPoolVoteIfUnique vote vvc
        let cop := { cop with votePool }
        if !vvc.addedToPool then (true, vvc, cop)
        else
          match vote.content with
          | .obligations _ => (around.handleObligationsVote vote votes quorum, vvc, cop)
          | .checkpointing blockHash =>
            (true, vvc, handleCheckpointVote around.chainHeight vote blockHash votes cop)
          | .blink | .pulse => (false, vvc, cop)

/-! ## Runs -/

/-- What happens to the votes and the checkpoints: votes arrive, expire, are used or sent, the
daemon starts anew, and checkpoints come with blocks, from the list of fixed ones, or go. -/
inductive CopStep
  | vote (around : VoteSurroundings) (ballot : QuorumVote)
  | expire (height : UInt64)
  | used (changes : List TxExtraServiceNodeStateChange)
  | relayed (votes : List QuorumVote) (now : UInt64)
  | restart
  | attached (hfVersion : Hf) (quorum : Quorum) (checkpoint : Checkpoint)
  | fixed (height : ℕ) (hash : Hash)
  | removed (height : ℕ)

namespace CopStep

/-- The effect of a step. A checkpoint that comes with a block is verified before. -/
def run (crypto : Crypto) (cop : QuorumCop) : CopStep → QuorumCop
  | .vote around ballot => (handleVote crypto around ballot cop).2.2
  | .expire height => { cop with votePool := cop.votePool.removeExpiredVotes height }
  | .used changes => { cop with votePool := cop.votePool.removeUsedVotes changes }
  | .relayed votes now => { cop with votePool := cop.votePool.setRelayed votes now }
  | .restart => { cop with votePool := {} }
  | .attached hfVersion quorum checkpoint =>
    if verifyCheckpoint crypto hfVersion checkpoint quorum then
      { cop with checkpoints := (cop.checkpoints.updateCheckpoint checkpoint).2 }
    else cop
  | .fixed height hash => { cop with checkpoints := (cop.checkpoints.addCheckpoint height hash).2 }
  | .removed height => { cop with checkpoints := cop.checkpoints.removeBlockCheckpoint height }

/-- All steps in turn. -/
def runAll (crypto : Crypto) (steps : List CopStep) (cop : QuorumCop) : QuorumCop :=
  steps.foldl (run crypto) cop

/-- The step takes the quorum for the height to be the given one. -/
def SameQuorum (quorum : Quorum) (height : UInt64) : CopStep → Prop
  | .vote around _ => ∀ q, around.getQuorum .checkpointing height = some q → q = quorum
  | .attached _ q checkpoint => checkpoint.height = height.toNat → q = quorum
  | _ => True

end CopStep

end Xeqm.ServiceNodes
