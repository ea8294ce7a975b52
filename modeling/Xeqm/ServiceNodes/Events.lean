import Xeqm.ServiceNodes.Registration

/-!
# Events from the L2 chain

State changes that come from Ethereum: a transaction that carries one waits
until enough pulse quorums confirmed or denied it, and takes effect when it is
confirmed.
-/

namespace Xeqm.ServiceNodes

open Cryptonote Lib Rewards

variable (tx : UnconfirmedL2Tx)

/-- `eth_stake`. -/
structure EthStake where
  sn : PublicKey
  addr : EthAddress
  amount : UInt64
  liquidation : UInt64 := 0
  blockHeight : UInt64
  txIndex : ℕ
  contributorIndex : ℕ
  deriving DecidableEq

/-- `block_add_result`. -/
structure BlockAddResult where
  payableNodes : List PublicKey := []
  lockedStakes : List EthStake := []
  purgedStakes : List EthStake := []
  deriving DecidableEq

/-- `confirm_metadata`. -/
structure ConfirmMetadata where
  hfVersion : Hf
  /-- The height at which the event was added to the chain. -/
  height : UInt64
  confirmedHeight : ℕ
  voteIndex : UInt32
  txIndex : ℕ

/-- `confirm_result`. -/
structure ConfirmResult where
  success : Bool := false
  needSwarmUpdate : Bool := false
  exitStakes : List EthStake := []

/-- `unconfirmed_l2_tx::FULL_SCORE`. -/
def fullScore : UInt32 := 2520

/-- `unconfirmed_l2_tx::is_accepted`. -/
def UnconfirmedL2Tx.isAccepted : Bool :=
  tx.confirmations ≥ tx.denials + fullScore * 5 ∧ tx.confirmations ≥ tx.denials * 2

/-- `unconfirmed_l2_tx::is_denied`. -/
def UnconfirmedL2Tx.isDenied : Bool :=
  tx.denials ≥ tx.confirmations + fullScore * 5 ∧ tx.denials ≥ tx.confirmations * 2

/-- `unconfirmed_l2_tx::is_expired`. -/
def UnconfirmedL2Tx.isExpired (height : ℕ) : Bool :=
  height ≥ tx.heightAdded.toNat + 30

/-- `unconfirmed_l2_tx::confirmed`. -/
def UnconfirmedL2Tx.confirmed (height : ℕ) : Option Bool :=
  if tx.isAccepted then some true
  else if tx.isDenied ∨ tx.isExpired height then some false
  else none

/-- One more vote of a weight. -/
def UnconfirmedL2Tx.addVote (vote : Bool) (weight : UInt32) : UnconfirmedL2Tx :=
  if vote then { tx with confirmations := tx.confirmations + weight }
  else { tx with denials := tx.denials + weight }

/-- The weight of the votes of a block: a backup round counts less. -/
def voteWeight (block : Block) : UInt32 :=
  fullScore / (if block.hasPulse then 1 + block.pulse.round.toUInt32 else 1)

/-- The info of a node that was registered on the L2 chain: its stakes are paid in. -/
def ethRegistrationInfo (nettype : NetworkType) (confirm : ConfirmMetadata)
    (stakingRequirement : UInt64) (reg : RegistrationDetails) : ServiceNodeInfo :=
  let height := UInt64.ofNat confirm.confirmedHeight
  let total := (reg.ethContributions.map ContributorV2.amount).sum
  { recommissionCredit := Int64.ofNat ((getConfig nettype).blocksIn (12 * hour))
    stakingRequirement := stakingRequirement
    operatorEthereumAddress := (reg.ethContributions.head?.map ContributorV2.address).getD 0
    blsPublicKey := reg.blsPubkey
    portionsForOperator := mul128Div64 reg.fee stakingPortions stakingFeeBasis
    registrationHeight := height
    registrationHfVersion := confirm.hfVersion
    activeSinceHeight := Int64.ofNat confirm.confirmedHeight
    lastRewardBlockHeight := height
    lastRewardTransactionIndex := confirm.voteIndex
    swarmId := unassignedSwarmId
    lastIpChangeHeight := height
    contributors := reg.ethContributions.map (fun c =>
      { reserved := c.amount
        amount := c.amount
        ethereumAddress := c.address
        ethereumBeneficiary := c.beneficiary })
    totalReserved := total
    totalContributed := total }

/-- `validate_ethereum_registration`. -/
def validateEthereumRegistration (crypto : Crypto) (nettype : NetworkType)
    (confirm : ConfirmMetadata) (stakingRequirement : UInt64) (event : NewServiceNodeV2) :
    Except Fault ServiceNodeInfo :=
  let reg := ethRegV2Details confirm.hfVersion event
  match validateRegistration confirm.hfVersion nettype stakingRequirement 0 reg,
      validateRegistrationSignature crypto reg with
  | .error what, _ => .error (.invalidRegistration what)
  | .ok (), .error what => .error (.invalidRegistration what)
  | .ok (), .ok () =>
    if ¬ (reg.ethContributions.map ContributorV2.address).Nodup then
      .error .duplicateReservedAddress
    else .ok (ethRegistrationInfo nettype confirm stakingRequirement reg)

section

variable {σ : Type} (chain : Chain σ)

variable (confirm : ConfirmMetadata)

/-- `state_t::process_new_ethereum_tx`. -/
def processNewEthereumTx (block : Block) (tx : Transaction) : UpdateM Unit := do
  if chain.db.getTx tx.hash = none then throw .ethTxNotFound
  else
    let w ← get
    if w.state.unconfirmedL2Txes.contains tx.hash then throw .ethTxRepeated
    else
      modifyState (fun s => { s with
        unconfirmedL2Txes := s.unconfirmedL2Txes.set tx.hash
          { heightAdded := UInt64.ofNat block.height
            confirmations := fullScore / (block.pulse.round.toUInt32 + 1)
            denials := 0 } })

/-- `process_confirmed_event` for a registration. What was written before an
exception stays. -/
def confirmNewServiceNode (event : NewServiceNodeV2) : UpdateM ConfirmResult := do
  let w ← get
  if w.state.serviceNodesInfos.contains event.snPubkey ∨
      w.state.serviceNodesInfos.toList.any (fun e => e.2.blsPublicKey = event.blsPubkey) then
    pure {}
  else
    match validateEthereumRegistration chain.crypto chain.net.nettype confirm
        (w.state.getStakingRequirement chain.net) event with
    | .error _ => pure {}
    | .ok info =>
      tryCatch
        (do
          resetProof chain event.snPubkey
          insertInfo chain event.snPubkey info
          pure { success := true, needSwarmUpdate := true })
        (fun _ => pure {})

/-- `process_confirmed_event` for an exit request. -/
def confirmExitRequest (blsPubkey : BlsPublicKey) : UpdateM ConfirmResult := do
  let w ← get
  let key := w.state.findPublicKey blsPubkey
  if key = 0 then pure {}
  else
    match w.state.serviceNodesInfos.get? key with
    | none => pure {}
    | some info =>
      if info.requestedUnlockHeight ≠ 0 then pure {}
      else
        modifyState (fun s => { s with
          serviceNodesInfos := s.serviceNodesInfos.set key { info with
            requestedUnlockHeight :=
              UInt64.ofNat (s.height + chain.config.blocksIn chain.config.unlockDuration) } })
        pure { success := true }

/-- For how many blocks the stakes of a removed node stay locked. -/
def exitDelay (conf : NetworkConfig) (height : ℕ) (node : RecentlyRemovedNode) : ℕ :=
  if node.type = .voluntaryExit then 0
  else node.height.toNat + conf.blocksIn conf.deregistrationLockDuration - height

/-- The stakes that an exit returns: those with an address on the L2 chain. -/
def exitStakes (node : RecentlyRemovedNode) : List EthStake :=
  (node.info.contributors.zipIdx.filter (fun c => c.1.ethereumAddress ≠ 0)).map (fun c =>
    { sn := node.serviceNodePubkey
      addr := c.1.ethereumAddress
      amount := c.1.amount
      blockHeight := confirm.height
      txIndex := confirm.txIndex
      contributorIndex := c.2 })

/-- The rows that `add_delayed_payments` inserts. -/
def delayedPaymentRows (stakes : List EthStake) (height delay : ℕ) : List DelayedPayment :=
  stakes.map (fun stake =>
    { ethAddress := stake.addr
      amount := stake.amount
      payoutHeight := height + max delay 1
      height := height
      blockHeight := stake.blockHeight.toNat
      blockTxIndex := stake.txIndex
      contributorIndex := stake.contributorIndex
      liquidationAmount := stake.liquidation })

/-- Forgets a removed node, after its exit. -/
def forgetRemovedNode (node : RecentlyRemovedNode) (blsPubkey : BlsPublicKey) : UpdateM Unit := do
  let xpk ← snpkToXpk chain node.serviceNodePubkey
  modifyState (fun s => { s with
    x25519Map := s.x25519Map.remove xpk
    blsMap := s.blsMap.remove blsPubkey
    recentlyRemovedNodes := s.recentlyRemovedNodes.erase node })

/-- `process_confirmed_event` for an exit. The result of `add_delayed_payments`
is not looked at. -/
def confirmExit (blsPubkey : BlsPublicKey) (returnedAmount : UInt64) : UpdateM ConfirmResult := do
  let w ← get
  match w.state.recentlyRemovedNodes.find? (fun node => node.info.blsPublicKey = blsPubkey) with
  | none => pure {}
  | some node =>
    let requirement := node.info.stakingRequirement
    let slashAmount := requirement - min requirement returnedAmount
    if slashAmount > 0 ∧ w.state.height < node.liquidationHeight.toNat then pure {}
    else
      match exitStakes confirm node with
      | [] =>
        if (hardForkBegins chain.net Hf.hf21Eth).all
            (fun hf21 => node.info.registrationHeight.toNat ≥ hf21) then
          pure {}
        else
          forgetRemovedNode chain node blsPubkey
          pure { success := true }
      | operator :: others =>
        if slashAmount > operator.amount then pure { exitStakes := operator :: others }
        else
          let stakes := { operator with liquidation := slashAmount } :: others
          let delay := exitDelay chain.config w.state.height node
          modifyShared (fun shared => { shared with
            sqlite := (addDelayedPayments chain.rescanTx
              (delayedPaymentRows stakes w.state.height delay) shared.sqlite).1 })
          forgetRemovedNode chain node blsPubkey
          pure { success := true, exitStakes := stakes }

/-- `process_confirmed_event` for a new staking requirement. -/
def confirmStakingRequirement (stakingRequirement : UInt64) : UpdateM ConfirmResult := do
  modifyState (fun s => { s with stakingRequirement := stakingRequirement })
  pure { success := true }

/-- `process_confirmed_event` for a purge. -/
def confirmPurge (blsPubkey : BlsPublicKey) : UpdateM ConfirmResult := do
  let w ← get
  let key := w.state.findPublicKey blsPubkey
  if key = 0 then pure {}
  else
    match w.state.serviceNodesInfos.get? key with
    | none => pure {}
    | some info =>
      eraseInfo chain key info .purged
      pure
        { success := true
          needSwarmUpdate := true
          exitStakes := info.contributors.zipIdx.map (fun c =>
            { sn := key
              addr := c.1.ethereumAddress
              amount := c.1.amount
              blockHeight := confirm.height
              txIndex := confirm.txIndex
              contributorIndex := c.2 }) }

/-- `process_confirmed_event`. -/
def processConfirmedEvent : StateChangeVariant → UpdateM ConfirmResult
  | .none => throw .noStateChangeData
  | .newServiceNodeV2 event => confirmNewServiceNode chain confirm event
  | .serviceNodeExitRequest blsPubkey => confirmExitRequest chain blsPubkey
  | .serviceNodeExit blsPubkey returnedAmount => confirmExit chain confirm blsPubkey returnedAmount
  | .stakingRequirementUpdated requirement => confirmStakingRequirement requirement
  | .serviceNodePurge blsPubkey => confirmPurge chain confirm blsPubkey

/-- What a confirmed event adds to the stakes of the block. -/
def collectStakes (minedIn : Block) (txIndex : ℕ) (event : StateChangeVariant)
    (confirmed : ConfirmResult) (result : BlockAddResult) : BlockAddResult :=
  if confirmed.success then
    match event with
    | .newServiceNodeV2 new =>
      { result with
        lockedStakes := result.lockedStakes ++ new.contributors.zipIdx.map (fun c =>
          { sn := new.snPubkey
            addr := c.1.address
            amount := c.1.amount
            blockHeight := UInt64.ofNat minedIn.height
            txIndex := txIndex
            contributorIndex := c.2 }) }
    | .serviceNodePurge _ =>
      { result with purgedStakes := result.purgedStakes ++ confirmed.exitStakes }
    | _ => result
  else result

/-- What the vote loop carries along. -/
structure VoteProgress where
  result : BlockAddResult
  needSwarmUpdate : Bool

/-- A transaction whose votes are complete. -/
def finalizeL2Tx (block : Block) (index : UInt32) (txHash : Hash) (unconf : UnconfirmedL2Tx)
    (accepted : Bool) (progress : VoteProgress) : UpdateM VoteProgress := do
  match chain.db.getTx txHash with
  | none => throw .txNotFound
  | some tx =>
    if tx.event = .none then throw .noStateChangeData
    else
      match chain.db.getBlockFromHeight unconf.heightAdded.toNat with
      | none => throw .blockNotFound
      | some minedIn =>
        match minedIn.txHashes.idxOf? txHash with
        | none => throw .txNotInBlock
        | some txIndex =>
          let w ← get
          let confirm : ConfirmMetadata :=
            { hfVersion := block.majorVersion
              height := unconf.heightAdded
              confirmedHeight := w.state.height
              voteIndex := index
              txIndex := txIndex % 2 ^ 16 }
          let confirmed ←
            if accepted then processConfirmedEvent chain confirm tx.event else pure {}
          modifyState (fun s => { s with
            unconfirmedL2Txes := s.unconfirmedL2Txes.remove txHash })
          pure
            { result := collectStakes minedIn confirm.txIndex tx.event confirmed progress.result
              needSwarmUpdate := progress.needSwarmUpdate || confirmed.needSwarmUpdate }

/-- The loop over the votes of a block from the `index`-th one on, together with
the transactions they are for. -/
def processVotes (block : Block) : UInt32 → List ((Hash × UnconfirmedL2Tx) × Bool) →
    VoteProgress → UpdateM VoteProgress
  | _, [], progress => pure progress
  | index, ((txHash, unconf), vote) :: rest, progress => do
    let unconf := unconf.addVote vote (voteWeight block)
    modifyState (fun s => { s with unconfirmedL2Txes := s.unconfirmedL2Txes.set txHash unconf })
    let w ← get
    let progress ←
      match unconf.confirmed w.state.height with
      | none => pure progress
      | some accepted => finalizeL2Tx chain block index txHash unconf accepted progress
    processVotes block (index + 1) rest progress

end

end Xeqm.ServiceNodes
