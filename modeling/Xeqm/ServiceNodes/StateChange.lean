import Xeqm.ServiceNodes.State

/-!
# State change and unlock transactions

`state_t::process_state_change_tx`, with the check of the votes in
`service_node_voting.cpp` and the decommission credit of the quorum cop, and
`state_t::process_key_image_unlock_tx`.
-/

namespace Xeqm.ServiceNodes

open Cryptonote Lib

/-- `state_set`: states in the order of their heights, one for each height. -/
abbrev StateSet := OrdSet (fun s : State => s.height)

/-- The states that a transaction of the next block can refer to. -/
structure KnownStates where
  history : StateSet := OrdSet.empty
  archive : StateSet := OrdSet.empty
  /-- `alt_state`: the states after alternative blocks. -/
  altStates : KeyMap Hash State := OrdSet.empty

/-- `STATE_CHANGE_MIN_VOTES_TO_CHANGE_STATE`. -/
def stateChangeMinVotes : ℕ := 7

/-- `STATE_CHANGE_QUORUM_SIZE`. -/
def stateChangeQuorumSize : ℕ := 10

/-- `VOTE_LIFETIME`. -/
def voteLifetime : ℕ := 60

/-- `get_service_node_state_change_from_tx_extra`. -/
def getServiceNodeStateChange (tx : Transaction) (hfVersion : Hf) :
    Option TxExtraServiceNodeStateChange :=
  if hfVersion ≥ Hf.hf12Checkpointing then tx.stateChange
  else
    tx.deregisterOld.map (fun dereg =>
      { state := .deregister
        blockHeight := dereg.blockHeight
        serviceNodeIndex := dereg.serviceNodeIndex
        votes := dereg.votes })

/-- The number of a new state. -/
def newStateCode : NewState → ℕ
  | .deregister => 0
  | .decommission => 1
  | .recommission => 2
  | .ipChangePenalty => 3

/-- `make_state_change_vote_hash`. -/
def makeStateChangeVoteHash (crypto : Crypto) (change : TxExtraServiceNodeStateChange) : Hash :=
  crypto.cnFastHash (littleEndian 8 change.blockHeight.toNat ++
    littleEndian 4 change.serviceNodeIndex.toNat ++
    (if change.state = .deregister then [] else littleEndian 2 (newStateCode change.state)))

/-- The loop of `verify_tx_state_change` over the votes, with the last validator
index and all of them so far. -/
def verifyVotes (crypto : Crypto) (hfVersion : Hf) (hash : Hash) (quorum : Quorum) :
    Int32 → List UInt32 → List StateChangeVote → Bool
  | _, _, [] => true
  | tracker, seen, vote :: rest =>
    if hfVersion ≥ Hf.hf13EnforceCheckpoints ∧ tracker ≥ vote.validatorIndex.toInt32 then false
    else
      match quorum.validators[vote.validatorIndex.toNat]? with
      | none => false
      | some key =>
        if vote.validatorIndex ∈ seen then false
        else if ¬ crypto.checkSignature hash key vote.signature then false
        else verifyVotes crypto hfVersion hash quorum
          (if hfVersion ≥ Hf.hf13EnforceCheckpoints then vote.validatorIndex.toInt32 else tracker)
          (vote.validatorIndex :: seen) rest

/-- `verify_tx_state_change`. -/
def verifyTxStateChange (crypto : Crypto) (change : TxExtraServiceNodeStateChange)
    (latestHeight : ℕ) (quorum : Quorum) (hfVersion : Hf) : Bool :=
  if change.state ≠ .deregister ∧ hfVersion < Hf.hf12Checkpointing then false
  else if change.votes.length < stateChangeMinVotes then false
  else if change.votes.length > stateChangeQuorumSize then false
  else if change.serviceNodeIndex.toNat ≥ quorum.workers.length then false
  else if change.blockHeight.toNat ≥ latestHeight then false
  else if latestHeight ≥ (change.blockHeight + UInt64.ofNat voteLifetime).toNat then false
  else verifyVotes crypto hfVersion (makeStateChangeVoteHash crypto change) quorum (-1) []
    change.votes

/-- `RECOMMISSION_CREDIT`. -/
def recommissionCredit (creditAtDecomm decommBlocks : Int64) : Int64 :=
  max 0 (creditAtDecomm - 2 * decommBlocks)

/-- `quorum_cop::calculate_decommission_credit`. -/
def calculateDecommissionCredit (nettype : NetworkType) (info : ServiceNodeInfo)
    (currentHeight : UInt64) : Int64 :=
  let conf := getConfig nettype
  let blocksUp : Int64 :=
    if !info.isFullyFunded then 0
    else if info.isDecommissioned then
      info.lastDecommissionHeight.toInt64 - (-info.activeSinceHeight)
    else currentHeight.toInt64 - info.activeSinceHeight
  let credit :=
    if blocksUp > 0 then
      info.recommissionCredit + blocksUp * Int64.ofNat (conf.blocksIn (24 * hour / 30)) /
        Int64.ofNat (conf.blocksIn (24 * hour))
    else info.recommissionCredit
  let credit := min credit (Int64.ofNat (conf.blocksIn (48 * hour)))
  if info.isDecommissioned then
    credit - (currentHeight.toInt64 - info.lastDecommissionHeight.toInt64)
  else credit

/-- The key images that a deregistration locks up. -/
def blacklistedStakes (conf : NetworkConfig) (hfVersion : Hf) (blockHeight : ℕ)
    (info : ServiceNodeInfo) : List KeyImageBlacklistEntry :=
  let duration :=
    if hfVersion ≥ Hf.hf22SnPolicy then conf.deregistrationLockDurationV2
    else conf.deregistrationLockDuration
  info.contributors.flatMap (fun c => c.lockedContributions.map (fun contribution =>
    { keyImage := contribution.keyImage
      unlockHeight := UInt64.ofNat (blockHeight + conf.blocksIn duration)
      amount := contribution.amount }))

/-- A node after a decommission. -/
def decommissionInfo (hfVersion : Hf) (blockHeight : ℕ) (change : TxExtraServiceNodeStateChange)
    (info : ServiceNodeInfo) : ServiceNodeInfo :=
  { info with
    activeSinceHeight := -info.activeSinceHeight
    lastDecommissionHeight := UInt64.ofNat blockHeight
    lastDecommissionReasonConsensusAll := change.reasonConsensusAll
    lastDecommissionReasonConsensusAny := change.reasonConsensusAny
    decommissionCount := info.decommissionCount + 1
    swarmId := if hfVersion ≥ Hf.hf13EnforceCheckpoints then unassignedSwarmId else info.swarmId }

/-- A node after a recommission. -/
def recommissionInfo (nettype : NetworkType) (blockHeight : ℕ) (info : ServiceNodeInfo) :
    ServiceNodeInfo :=
  let creditAtDecomm := calculateDecommissionCredit nettype info info.lastDecommissionHeight
  let decommBlocks := (UInt64.ofNat blockHeight - info.lastDecommissionHeight).toInt64
  { info with
    activeSinceHeight := Int64.ofNat blockHeight
    recommissionCredit := recommissionCredit creditAtDecomm decommBlocks
    lastRewardBlockHeight := UInt64.ofNat blockHeight
    lastRewardTransactionIndex := 0xffffffff }

/-- A node after its reward position was reset. -/
def ipChangePenaltyInfo (blockHeight : ℕ) (info : ServiceNodeInfo) : ServiceNodeInfo :=
  { info with
    lastRewardBlockHeight := UInt64.ofNat blockHeight
    lastRewardTransactionIndex := 0xffffffff
    lastIpChangeHeight := UInt64.ofNat blockHeight }

/-- The proof of a recommissioned node: the network starts to watch it anew. -/
def recommissionProof (timestamp : UInt64) (proof : ProofInfo) : ProofInfo :=
  { proof with
    effectiveTimestamp := timestamp
    checkpointParticipation := 0
    pulseParticipation := 0
    timestampParticipation := 0
    timesyncStatus := 0 }

section

variable {σ : Type} (chain : Chain σ)

/-- `*quorums->obligations`. -/
def derefQuorum (quorum : Option Quorum) : UpdateM Quorum :=
  match quorum with
  | some q => pure q
  | none => throw .nullQuorum

/-- The search among the alternative states for a quorum that signed a change.
The loop does not stop at a match: the last state of that height decides. -/
def altQuorum (block : Block) (change : TxExtraServiceNodeStateChange) :
    List (Hash × State) → Option Quorum → UpdateM (Option Quorum)
  | [], found => pure found
  | (_, state) :: rest, found =>
    if state.height ≠ change.blockHeight.toNat then altQuorum block change rest found
    else do
      let quorum ← derefQuorum state.quorums.obligations
      let valid := verifyTxStateChange chain.crypto change block.height quorum block.majorVersion
      altQuorum block change rest (if valid then some quorum else none)

/-- The quorum whose votes a state change carries. -/
def stateChangeQuorum (known : KnownStates) (block : Block)
    (change : TxExtraServiceNodeStateChange) : UpdateM (Option Quorum) :=
  match (known.history.find? change.blockHeight.toNat).or
      (known.archive.find? change.blockHeight.toNat) with
  | none => pure none
  | some state => do
    let quorum ← derefQuorum state.quorums.obligations
    if verifyTxStateChange chain.crypto change block.height quorum block.majorVersion then
      pure (some quorum)
    else altQuorum chain block change known.altStates.toList none

/-- Replaces the info of a node that is in the list. -/
def replaceInfo (key : PublicKey) (info : ServiceNodeInfo) : UpdateM Unit :=
  modifyState (fun s => { s with serviceNodesInfos := s.serviceNodesInfos.set key info })

/-- The effect of a state change that its quorum signed, on one of its nodes. -/
def applyStateChange (block : Block) (change : TxExtraServiceNodeStateChange) (key : PublicKey)
    (info : ServiceNodeInfo) : UpdateM Bool :=
  match change.state with
  | .deregister => do
    if block.majorVersion ≥ Hf.hf11InfiniteStaking then
      modifyState (fun s => { s with
        keyImageBlacklist := s.keyImageBlacklist ++
          blacklistedStakes chain.config block.majorVersion block.height info })
    else pure ()
    eraseInfo chain key info .deregister
    pure true
  | .decommission =>
    if block.majorVersion < Hf.hf12Checkpointing ∨ info.isDecommissioned then pure false
    else do
      replaceInfo key (decommissionInfo block.majorVersion block.height change info)
      if chain.rescanning then pure ()
      else modifyShared (fun shared => storeProof chain key (shared.proofOf key) shared)
      pure true
  | .recommission =>
    if block.majorVersion < Hf.hf12Checkpointing ∨ ¬ info.isDecommissioned then pure false
    else do
      replaceInfo key (recommissionInfo chain.net.nettype block.height info)
      modifyShared (fun shared => { shared with
        proofs := shared.proofs.set key (recommissionProof block.timestamp (shared.proofOf key)) })
      pure true
  | .ipChangePenalty =>
    if block.majorVersion < Hf.hf12Checkpointing ∨ info.isDecommissioned then pure false
    else do
      replaceInfo key (ipChangePenaltyInfo block.height info)
      pure true

/-- `state_t::process_state_change_tx`. -/
def processStateChangeTx (known : KnownStates) (block : Block) (tx : Transaction) :
    UpdateM Bool := do
  if tx.type ≠ .stateChange then pure false
  else
    match getServiceNodeStateChange tx block.majorVersion with
    | none => pure false
    | some change => do
      match ← stateChangeQuorum chain known block change with
      | none => pure false
      | some quorum =>
        match quorum.workers[change.serviceNodeIndex.toNat]? with
        | none => pure false
        | some key => do
          let w ← get
          match w.state.serviceNodesInfos.get? key with
          | none => pure false
          | some info => applyStateChange chain block change key info

/-- `generate_request_stake_unlock_hash`: the nonce eight times over. -/
def generateRequestStakeUnlockHash (nonce : UInt32) : Hash :=
  let word := BitVec.ofNat 32 ((littleEndian 4 nonce.toNat).foldl (fun n b => n * 256 + b.toNat) 0)
  (word ++ word ++ word ++ word ++ word ++ word ++ word ++ word : BitVec 256)

/-- `SMALL_CONTRIBUTOR_UNLOCK_TIMER`. -/
def smallContributorUnlockTimer : ℕ := 30 * 24 * hour

/-- Whether an unlock of a contribution is refused as that of a small contributor. -/
def isEarlySmallUnlock (conf : NetworkConfig) (hfVersion : Hf) (blockHeight : ℕ)
    (info : ServiceNodeInfo) (contribution : Contribution) : Bool :=
  hfVersion = Hf.hf19RewardBatching ∧ contribution.amount < 3749 ∧
    (UInt64.ofNat blockHeight - info.registrationHeight).toNat <
      conf.blocksIn smallContributorUnlockTimer

/-- `state_t::process_key_image_unlock_tx`: the state after it, and whether the
unlock was accepted. -/
def processKeyImageUnlockTx (hfVersion : Hf) (blockHeight : ℕ) (tx : Transaction)
    (state : State) : State × Bool :=
  if hfVersion ≥ ethBls then (state, false)
  else
    match tx.serviceNodePubkey with
    | none => (state, false)
    | some key =>
      match state.serviceNodesInfos.get? key, tx.keyImageUnlock with
      | some info, some unlock =>
        if info.requestedUnlockHeight ≠ 0 then (state, false)
        else
          -- the first contributor with such a contribution decides
          match info.contributors.findSome? (fun c =>
              c.lockedContributions.find? (fun l => l.keyImage = unlock.keyImage)) with
          | none => (state, false)
          | some contribution =>
            if isEarlySmallUnlock chain.config hfVersion blockHeight info contribution then
              (state, false)
            else if chain.crypto.checkSignature (generateRequestStakeUnlockHash unlock.nonce)
                contribution.keyImagePubKey unlock.signature then
              ({ state with
                serviceNodesInfos := state.serviceNodesInfos.set key { info with
                  requestedUnlockHeight :=
                    UInt64.ofNat (blockHeight + chain.config.blocksIn chain.config.unlockDuration) } },
                true)
            else (state, false)
      | _, _ => (state, false)

end

end Xeqm.ServiceNodes
