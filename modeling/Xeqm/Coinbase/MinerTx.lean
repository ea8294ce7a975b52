import Xeqm.Coinbase.BlockReward

/-!
# The miner transaction

`construct_miner_tx`. Until HF19 the producer and the leader of a block are paid by its miner
transaction. From HF19 on their rewards go to the rewards database, and the miner transaction pays
the balances that are due.
-/

namespace Xeqm.Coinbase

open Cryptonote Lib ServiceNodes Rewards

variable (rules : CoinbaseRules) (txKey : SecretKey) (hfVersion : Hf) (height : ℕ)

/-- `oxen_miner_tx_context`. -/
structure MinerTxContext where
  pulse : Bool := false
  pulseBlockProducer : Payout := {}
  minerBlockProducer : AccountPublicAddress := nullAddress
  blockLeader : Payout
  batchedGovernance : UInt64 := 0

/-- `reward_type`. -/
inductive RewardType
  | miner
  | snode
  | governance
  deriving DecidableEq

/-- `reward_payout`. -/
structure RewardPayout where
  type : RewardType
  address : AccountPublicAddress
  amount : UInt64
  deriving DecidableEq

/-- What the construction of miner transactions reads beside its arguments. -/
structure CoinbaseRules extends RewardRules where
  /-- `block_reward_unpenalized_formula_v8`. -/
  formulaV8 : ℕ → UInt64
  /-- `get_deterministic_output_key` with the key of the transaction. -/
  minerOutputKey : SecretKey → AccountPublicAddress → ℕ → Option PublicKey

/-- A miner transaction. -/
structure MinerTx where
  version : ℕ
  /-- The key whose public key is the first field of the extra. -/
  txKey : SecretKey
  /-- The extra nonce, without a field if it is empty. -/
  extraNonce : List UInt8
  /-- Whether the extra has the public key of the height. -/
  heightKey : Bool
  /-- The service node winner in the extra. -/
  serviceNodeWinner : PublicKey
  /-- Zero bytes at the end of the extra. -/
  padding : ℕ := 0
  vout : List (PublicKey × UInt64)
  outputUnlockTimes : List ℕ
  unlockTime : ℕ
  /-- The height in the input. -/
  height : ℕ
  deriving DecidableEq

/-- `MINED_MONEY_UNLOCK_WINDOW`. -/
def minedMoneyUnlockWindow : ℕ := 30

/-- `TX_EXTRA_NONCE_MAX_COUNT`. -/
def txExtraNonceMaxCount : ℕ := 255

/-- `get_max_version_for_hf`. -/
def maxVersionForHf : ℕ :=
  if hfVersion ≥ Hf.hf7 ∧ hfVersion ≤ Hf.hf8 then 2
  else if hfVersion ≥ Hf.hf9ServiceNodes ∧ hfVersion ≤ Hf.hf10Bulletproofs then 3
  else 4

/-- `reward_money::to_coin`. -/
def toCoin (money : RewardMoney) : UInt64 := UInt64.ofNat (money.atomic % 2 ^ 64).toNat

/-- The rewards of the recipients of a payout. -/
def payoutRewards (payouts : List PayoutEntry) (total : UInt64) (distributeRemainder : Bool) :
    List RewardPayout :=
  List.zipWith (fun entry amount => ⟨.snode, entry.address, amount⟩) payouts
    (distributeRewardByPortions payouts total distributeRemainder)

/-- The rewards of the producer and the leader of a block. -/
def producerRewards (context : MinerTxContext) (parts : BlockRewardParts) :
    Option (List RewardPayout) :=
  let leader := context.blockLeader
  let producer := context.pulseBlockProducer
  if hfVersion ≥ Hf.hf9ServiceNodes ∧ leader.payouts = [] then none
  else if context.pulse then
    if producer.payouts = [] ∨ producer.key = 0 ∨ hfVersion < Hf.hf16Pulse then none
    else if leader.key = producer.key then
      some (payoutRewards leader.payouts (parts.serviceNodeTotal + parts.minerFee) true)
    else
      -- another producer than the leader receives just the fees
      let fees := if parts.minerFee ≠ 0 then payoutRewards producer.payouts parts.minerFee true
        else []
      some (fees ++ payoutRewards leader.payouts parts.serviceNodeTotal true)
  else if producer.payouts ≠ [] then none
  else
    let minerAmount := parts.baseMiner + parts.minerFee
    let miner : List RewardPayout :=
      if minerAmount ≠ 0 then [⟨.miner, context.minerBlockProducer, minerAmount⟩] else []
    let snode :=
      if hfVersion ≥ Hf.hf9ServiceNodes then
        payoutRewards leader.payouts parts.serviceNodeTotal (hfVersion ≥ Hf.hf16Pulse)
      else []
    some (miner ++ snode)

/-- The governance reward that the miner transaction pays. -/
def governanceRewards (alreadyGeneratedCoins : UInt64) (parts : BlockRewardParts) :
    Option (List RewardPayout) :=
  if alreadyGeneratedCoins = 0 then some []
  else if parts.governancePaid = 0 then
    if hfVersion ≥ Hf.hf10Bulletproofs then some [] else none
  else if hfVersion < Hf.hf19RewardBatching then
    some [⟨.governance, rules.governanceWallet hfVersion, parts.governancePaid⟩]
  else some []

/-- The key of an output. The output of a miner belongs to the key of the transaction, any other
to the key of the height. -/
def rewardOutputKey (reward : RewardPayout) (index : ℕ) : Option PublicKey :=
  match reward.type with
  | .miner => rules.minerOutputKey txKey reward.address index
  | .snode | .governance => rules.outputKey reward.address height index

/-- The output of a reward at an index. -/
def makeOutput (reward : RewardPayout × ℕ) : Option (PublicKey × UInt64) :=
  (rewardOutputKey rules txKey height reward.1 reward.2).map (fun key => (key, reward.1.amount))

/-- The outputs of a miner transaction. -/
def makeOutputs (rewards : List RewardPayout) : Option (List (PublicKey × UInt64)) :=
  rewards.zipIdx.mapM (makeOutput rules txKey height)

/-- The sum of the amounts of rewards. -/
def totalAmount (rewards : List RewardPayout) : UInt64 := (rewards.map RewardPayout.amount).sum

/-- What the outputs of a miner transaction have to come to. -/
def expectedAmount (parts : BlockRewardParts) (rewards due : List RewardPayout) : UInt64 :=
  if hfVersion ≤ Hf.hf15Ons then
    parts.baseMiner + parts.minerFee + parts.governancePaid +
      totalAmount (rewards.filter (fun reward => reward.type = .snode))
  else if hfVersion < Hf.hf19RewardBatching then
    parts.baseMiner + parts.minerFee + parts.serviceNodeTotal + parts.governancePaid
  else totalAmount due

/-- `construct_miner_tx`: the transaction and the block reward. There are as many outputs as rewards
by construction, so that check is left out. -/
def constructMinerTx (medianWeight alreadyGeneratedCoins currentBlockWeight fee : UInt64)
    (context : MinerTxContext) (snRwds : List BatchSnPayment) (extraNonce : List UInt8)
    (hfVersion : Hf) : Option (MinerTx × UInt64) := do
  guard (hfVersion < ethBls)
  guard (extraNonce.length ≤ txExtraNonceMaxCount)
  let parts ← getOxenBlockReward rules.formulaV8 medianWeight currentBlockWeight
    alreadyGeneratedCoins hfVersion
    { height, fee, batchedGovernance := context.batchedGovernance
      blockLeaderPayouts := context.blockLeader.payouts }
  let produced ← producerRewards hfVersion context parts
  let governance ← governanceRewards rules hfVersion alreadyGeneratedCoins parts
  let batching : Bool := hfVersion ≥ Hf.hf19RewardBatching
  let due : List RewardPayout := snRwds.map (fun payment => ⟨.snode, payment.1, toCoin payment.2⟩)
  let rewards := (if batching then [] else produced) ++ governance ++ due
  guard (batching ∨ (rewards.length ≤ 9 ∧ rewards ≠ []))
  let vout ← makeOutputs rules txKey height rewards
  guard (totalAmount rewards = expectedAmount hfVersion parts rewards due)
  let tx :=
    { version := maxVersionForHf hfVersion
      txKey, extraNonce
      heightKey := alreadyGeneratedCoins ≠ 0
      serviceNodeWinner := context.blockLeader.key
      vout
      outputUnlockTimes := vout.map (fun _ => height + minedMoneyUnlockWindow)
      unlockTime := height + minedMoneyUnlockWindow
      height }
  some (tx, if batching then totalAmount produced else 0)

end Xeqm.Coinbase
