import Xeqm.ServiceNodes.Contribution
import Xeqm.ServiceNodes.Events
import Xeqm.ServiceNodes.Quorums
import Xeqm.ServiceNodes.StateChange

/-!
# The state transition of a block

`state_t::update_from_block`. What happens to the state is split along the
comments of the source. The one-time migrations of the ETH forks work on tables
of their own; they are parameters.
-/

namespace Xeqm.ServiceNodes

open Cryptonote Lib Rewards

/-- The migrations of the ETH forks. -/
structure Migrations where
  /-- `oxen::sesh::transition`. -/
  transition : BlockAddResult → UpdateM BlockAddResult
  /-- `convert_hf22`. -/
  convertHf22 : DbM Unit
  /-- The keys of `get_hf22_fixups`. -/
  hf22PubkeysToRemove : List PublicKey
  /-- The payments of `get_hf22_fixups`. -/
  creditHf22 : DbM Unit
  /-- The transition rewrites nodes and rewards, not the height. -/
  transition_height : ∀ result w,
    (finalState (transition result w)).state.height = w.state.height

/-- Migrations that do nothing, for chains without the ETH forks. -/
def noMigrations : Migrations where
  transition := fun result => pure result
  convertHf22 := pure ()
  hf22PubkeysToRemove := []
  creditHf22 := pure ()
  transition_height := fun _ _ => rfl

/-- Runs a computation on the rewards database. -/
def onSqlite {α : Type} (m : DbM α) : UpdateM α := fun w =>
  match m w.shared.sqlite with
  | .ok a db => .ok a { w with shared := { w.shared with sqlite := db } }
  | .error e db => .error (.sql e) { w with shared := { w.shared with sqlite := db } }

/-- Continues with a result that does not touch the state, or throws. -/
def orThrow {α : Type} (result : Except Fault α) : UpdateM α :=
  match result with
  | .ok a => pure a
  | .error fault => throw fault

/-- Whether a block is the first one of a hard fork. -/
def isFirstBlockOf (net : Network) (version : Hf) (height : ℕ) : Bool :=
  hardForkBegins net version = some height

/-- Removes the first recently removed node with a key. -/
def dropRemovedNode (key : PublicKey) (nodes : List RecentlyRemovedNode) :
    List RecentlyRemovedNode :=
  nodes.eraseP (fun node => node.serviceNodePubkey = key)

/-! ## Before the block -/

/-- The order in which nodes wait for a reward, as a number. -/
def waitingRank (node : NodeEntry) : ℕ :=
  (node.2.lastRewardBlockHeight.toNat * 2 ^ 32 + node.2.lastRewardTransactionIndex.toNat) *
    2 ^ 256 + node.1.toNat

/-- The rank that the search for the block leader starts with. -/
def noWaitingRank : ℕ := ((2 ^ 64 - 1) * 2 ^ 32 + (2 ^ 32 - 1)) * 2 ^ 256

/-- The block leader among the active nodes, null if there is none. -/
def nextBlockLeader (active : List NodeEntry) : PublicKey :=
  (active.foldl
    (fun (best : ℕ × PublicKey) node =>
      if waitingRank node < best.1 then (waitingRank node, node.1) else best)
    (noWaitingRank, 0)).2

/-- `STAKING_REQUIREMENT_LOCK_BLOCKS_EXCESS`. -/
def stakingRequirementLockBlocksExcess : ℕ := 20

/-- `get_expired_nodes_for_hf9`: the nodes registered a lock period ago. -/
def getExpiredNodesForHf9 {σ : Type} (chain : Chain σ) (blockHeight : ℕ) : List PublicKey :=
  let lockBlocks := stakingNumLockBlocks chain.net.nettype
  if blockHeight ≤ lockBlocks then []
  else
    let expiredHeight := blockHeight - lockBlocks
    match chain.db.getBlockFromHeight expiredHeight with
    | none => []
    | some block =>
      if block.majorVersion < Hf.hf9ServiceNodes then []
      else
        block.txHashes.filterMap (fun hash => do
          let tx ← chain.db.getTx hash
          let node ← isRegistrationTx chain.crypto chain.net.nettype Hf.hf9ServiceNodes tx
            block.timestamp expiredHeight 0
            (getDefaultStakingRequirement chain.net.nettype
              (getNetworkVersion chain.net expiredHeight))
          pure node.1)

/-- `is_expired_node_hf10_onwards`. -/
def isExpiredNodeHf10Onwards (nettype : NetworkType) (hfVersion : Hf) (blockHeight : ℕ)
    (info : ServiceNodeInfo) : Bool :=
  if hfVersion < Hf.hf10Bulletproofs then false
  else if info.registrationHfVersion ≥ Hf.hf11InfiniteStaking then
    info.requestedUnlockHeight ≠ 0 ∧ blockHeight > info.requestedUnlockHeight.toNat
  else
    blockHeight > info.registrationHeight.toNat + stakingNumLockBlocks nettype +
      stakingRequirementLockBlocksExcess

/-- `pre_block_precomputed_data`. -/
structure PreBlock where
  active : List NodeEntry
  expiredNodes : List PublicKey
  winner : PublicKey

/-- The walk over the list before a block. -/
def preBlock {σ : Type} (chain : Chain σ) (block : Block) (state : State) : PreBlock :=
  let nodes := state.serviceNodesInfos.toList
  let active := nodes.filter (fun node => node.2.isActive)
  { active := active
    expiredNodes :=
      if block.majorVersion = Hf.hf9ServiceNodes then getExpiredNodesForHf9 chain block.height
      else
        (nodes.filter (fun node => isExpiredNodeHf10Onwards chain.net.nettype block.majorVersion
          block.height node.2)).map Prod.fst
    winner := nextBlockLeader active }

section

variable {σ : Type} (chain : Chain σ) (migrations : Migrations)

/-- `apply_fixups`. -/
def applyFixups (block : Block) : UpdateM Unit := do
  if block.majorVersion = Hf.hf22EthFixup ∧
      isFirstBlockOf chain.net Hf.hf22EthFixup block.height then
    onSqlite migrations.convertHf22
    modifyState (fun s => { s with
      recentlyRemovedNodes :=
        migrations.hf22PubkeysToRemove.foldl (fun nodes key => dropRemovedNode key nodes)
          s.recentlyRemovedNodes })
    onSqlite migrations.creditHf22
  else pure ()

/-- Sends the validators of a pulse quorum to the back of the candidates. -/
def markPulseValidators (height : ℕ) (validators : List PublicKey)
    (infos : KeyMap PublicKey ServiceNodeInfo) : KeyMap PublicKey ServiceNodeInfo :=
  validators.zipIdx.foldl
    (fun infos (key, index) => infos.adjust key (fun info => { info with
      pulseSorter :=
        { lastHeightValidatingInQuorum := UInt64.ofNat height
          quorumIndex := UInt8.ofNat index } }))
    infos

/-- The pulse quorum of a block, drawn from the state before it. Main chain blocks
read the entropy from the window of the feeder. -/
def updatePulseQuorum (block : Block) (pre : PreBlock) (feed : Option (List Hash)) :
    UpdateM Unit := do
  if block.majorVersion ≥ Hf.hf16Pulse then
    let w ← get
    let entropy := feed.getD
      (getPulseEntropyForNextBlock chain.crypto chain.db w.state.blockHash block.pulse.round)
    let candidates := pulseCandidates block.majorVersion block.pulse.round pre.winner pre.active
    let quorum ← orThrow (generatePulseQuorumWithCandidates chain.quorumRng chain.config pre.winner
      block.majorVersion pre.active.length candidates entropy block.pulse.round)
    if verifyPulseQuorumSizes quorum then
      modifyState (fun s => { s with
        serviceNodesInfos := markPulseValidators (s.height + 1) quorum.validators
          s.serviceNodesInfos
        quorums := { s.quorums with pulse := some quorum } })
    else pure ()
  else pure ()

/-! ## Fork transitions and expiry -/

/-- Removes the partially funded nodes when the ETH transition begins. -/
def removeUnfundedNodes : UpdateM Unit := do
  let w ← get
  if isFirstBlockOf chain.net Hf.hf20EthTransition w.state.height then
    (w.state.serviceNodesInfos.toList.filter (fun node => !node.2.isFullyFunded)).forM
      (fun node => eraseInfo chain node.1 node.2 .deregister)
  else pure ()

/-- Runs the migration of the first block of the ETH fork. -/
def runTransition (result : BlockAddResult) : UpdateM BlockAddResult := do
  let w ← get
  if isFirstBlockOf chain.net Hf.hf21Eth w.state.height ∧ chain.hasSqlite then
    migrations.transition result
  else pure result

/-- Drops the blacklist entries whose time is over. -/
def expireBlacklist (hfVersion : Hf) : UpdateM Unit :=
  if hfVersion ≥ Hf.hf11InfiniteStaking ∧ hfVersion < Hf.hf21Eth then
    modifyState (fun s => { s with
      keyImageBlacklist :=
        s.keyImageBlacklist.filter (fun entry => s.height < entry.unlockHeight.toNat) })
  else pure ()

/-- Removes one expired node; the result says whether it was active. -/
def expireNode (pubkey : PublicKey) : UpdateM Bool := do
  let w ← get
  match w.state.serviceNodesInfos.get? pubkey with
  | none => pure false
  | some info => do
    eraseInfo chain pubkey info .voluntaryExit
    pure info.isActive

/-- Runs an action for each element, and says whether one of them returned `true`. -/
def anyM {α : Type} (f : α → UpdateM Bool) : List α → UpdateM Bool
  | [] => pure false
  | a :: rest => do
    let first ← f a
    let others ← anyM f rest
    pure (first || others)

/-- Moves the winner of the block to the back of the reward list. -/
def rewardWinner (winner : PublicKey) : UpdateM Unit :=
  modifyState (fun s => { s with
    serviceNodesInfos := s.serviceNodesInfos.adjust winner (fun info => { info with
      lastRewardBlockHeight := UInt64.ofNat s.height
      lastRewardTransactionIndex := 0xffffffff }) })

/-- The votes of a block on pending L2 state changes. -/
def processL2Votes (block : Block) (progress : VoteProgress) : UpdateM VoteProgress := do
  if block.majorVersion ≥ ethBls then
    let w ← get
    let pending := w.state.unconfirmedL2Txes.toList
    if block.l2Votes.length ≠ pending.length then throw .l2VotesMismatch
    else processVotes chain block 0 (pending.zip block.l2Votes) progress
  else pure progress

/-- Fills the key maps the first time. -/
def ensureAltPkMaps : UpdateM Unit := do
  let w ← get
  if w.state.x25519Map.size = 0 ∧ w.state.blsMap.size = 0 then initializeAltPkMaps chain
  else pure ()

/-! ## Transactions -/

/-- Runs a handler that works on the state alone. -/
def onState {α : Type} (f : State → State × α) : UpdateM α := do
  let w ← get
  modifyState (fun s => (f s).1)
  pure (f w.state).2

variable (known : KnownStates)

variable (block : Block)

/-- One transaction of a block; the result says whether swarms have to be updated. -/
def processTx (index : UInt32) (tx : Transaction) : UpdateM Bool :=
  match tx.type with
  | .standard | .stake =>
    if tx.type = stakingTxType block.majorVersion then do
      let _ ← processRegistrationTx chain block tx index
      onState (processContributionTx chain block tx index)
    else pure false
  | .stateChange => processStateChangeTx chain known block tx
  | .keyImageUnlock => do
    let _ ← onState (fun s => processKeyImageUnlockTx chain block.majorVersion s.height tx s)
    pure false
  | .ethereumNewServiceNodeV2 | .ethereumServiceNodeExit | .ethereumServiceNodeExitRequest
  | .ethereumStakingRequirementUpdated | .ethereumPurgeMissingServiceNode => do
    processNewEthereumTx chain block tx
    pure false
  | .oxenNameSystem => pure false

/-- The transactions of a block. -/
def processTxs (txs : List Transaction) : UpdateM Bool :=
  anyM (fun (tx, index) => processTx chain known block (UInt32.ofNat index) tx) txs.zipIdx

/-! ## After the block -/

/-- `is_payable`. -/
def isPayable (conf : NetworkConfig) (height : ℕ) (info : ServiceNodeInfo) : Bool :=
  info.isActive ∧
    height ≥ info.activeSinceHeight.toNatClampNeg + conf.serviceNodePayableAfterBlocks ∧
    info.stakingRequirement > 0

/-- The swarms of the active nodes. -/
def existingSwarms (active : List NodeEntry) : SwarmSnodeMap PublicKey :=
  active.foldl (fun m node => pushSnode node.2.swarmId node.1 (m.insert (node.2.swarmId, [])))
    OrdSet.empty

/-- Writes the swarm of every node into its info. -/
def applySwarms (swarms : SwarmSnodeMap PublicKey) (infos : KeyMap PublicKey ServiceNodeInfo) :
    KeyMap PublicKey ServiceNodeInfo :=
  swarms.toList.foldl
    (fun infos (swarmId, snodes) => snodes.foldl
      (fun infos snode => infos.adjust snode (fun info => { info with swarmId := swarmId })) infos)
    infos

/-- The swarm update. -/
def updateSwarms (active : List NodeEntry) : UpdateM Unit := do
  match calcSwarmChanges chain.swarms (existingSwarms active) (hashSeed block.hash) with
  | .error fault => throw (.swarm fault)
  | .ok swarms =>
    modifyState (fun s => { s with serviceNodesInfos := applySwarms swarms s.serviceNodesInfos })

/-- The last part of the transition: swarms, quorums and the block leader. -/
def finishBlock (winner : PublicKey) (needSwarmUpdate : Bool) (result : BlockAddResult) :
    UpdateM BlockAddResult := do
  let w ← get
  let nodes := w.state.serviceNodesInfos.toList
  let active := nodes.filter (fun node => node.2.isActive)
  let decomm :=
    if block.majorVersion ≥ Hf.hf12Checkpointing then
      (nodes.filter (fun node => node.2.isDecommissioned && node.2.isFullyFunded)).map Prod.fst
    else []
  let payable :=
    if block.majorVersion ≥ Hf.hf19RewardBatching then
      (nodes.filter (fun node => isPayable chain.config block.height node.2)).map Prod.fst
    else []
  if needSwarmUpdate then updateSwarms chain block active else pure ()
  let w ← get
  let quorums ← orThrow (generateOtherQuorums chain.quorumRng w.state active decomm
    block.majorVersion chain.net.nettype)
  modifyState (fun s => { s with quorums := quorums, blockLeader := winner })
  pure { result with payableNodes := payable }

/-- What follows the pulse quorum: the new height, then everything in the block. -/
def advanceBlock (txs : List Transaction) (pre : PreBlock) : UpdateM BlockAddResult := do
  modifyState (fun s => { s with height := s.height + 1, blockHash := block.hash })
  removeUnfundedNodes chain
  let result ← runTransition chain migrations {}
  expireBlacklist block.majorVersion
  let expired ← anyM (expireNode chain) pre.expiredNodes
  rewardWinner pre.winner
  let progress ← processL2Votes chain block { result := result, needSwarmUpdate := expired }
  ensureAltPkMaps chain
  let changed ← processTxs chain known block txs
  finishBlock chain block pre.winner (progress.needSwarmUpdate || changed) progress.result

/-- `state_t::update_from_block`. -/
def updateFromBlock (txs : List Transaction) (feed : Option (List Hash)) :
    UpdateM BlockAddResult := do
  modifyState (fun s => { s with quorums := {} })
  applyFixups chain migrations block
  let w ← get
  let pre := preBlock chain block w.state
  updatePulseQuorum chain block pre feed
  advanceBlock chain migrations known block txs pre

end

end Xeqm.ServiceNodes
