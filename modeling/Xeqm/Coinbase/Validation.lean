import Xeqm.Coinbase.MinerTx
import Xeqm.ServiceNodes.UpdateFromBlock

/-!
# The check of a miner transaction

`validate_block_rewards` with its hook `validate_miner_tx`, from reward batching on and before the
ETH fork: the state that the producer and the verifiers of a block share, what the producer builds
and what the verifiers accept.
-/

namespace Xeqm.Coinbase

open Cryptonote Lib ServiceNodes Rewards

/-! ## Generated coins -/

/-- The amount of the output of `GENESIS_TX`. -/
def genesisReward : NetworkType → UInt64
  | .mainnet | .fakechain | .undefined => 276786541324700000
  | .testnet | .stagenet | .devnet | .localdev => 22500000000000000

/-- The coins after a block, capped at `MONEY_SUPPLY`. -/
def addGeneratedCoins (alreadyGeneratedCoins baseReward : UInt64) : UInt64 :=
  if baseReward < 0xffffffffffffffff - alreadyGeneratedCoins then alreadyGeneratedCoins + baseReward
  else 0xffffffffffffffff

/-- The coins after the blocks on the genesis block, with what each of them generates. -/
def generatedCoins (nettype : NetworkType) (baseRewards : List UInt64) : UInt64 :=
  baseRewards.foldl addGeneratedCoins (genesisReward nettype)

/-- Coins have been generated in every chain. -/
theorem generatedCoins_ne_zero (nettype : NetworkType) (baseRewards : List UInt64) :
    generatedCoins nettype baseRewards ≠ 0 := by
  have hadd (coins baseReward : UInt64) (hcoins : coins ≠ 0) :
      addGeneratedCoins coins baseReward ≠ 0 := by
    unfold addGeneratedCoins
    split
    · rename_i hlt
      have hpos : 0 < coins.toNat := Nat.pos_of_ne_zero fun h => hcoins (UInt64.toNat_inj.mp h)
      have hroom := UInt64.lt_iff_toNat_lt.mp hlt
      have hmax : coins ≤ 0xffffffffffffffff := UInt64.le_iff_toNat_le.mpr (by
        have := coins.toNat_lt
        change coins.toNat ≤ 18446744073709551615
        omega)
      rw [UInt64.toNat_sub_of_le _ _ hmax] at hroom
      change baseReward.toNat < 18446744073709551615 - coins.toNat at hroom
      intro hzero
      have hsum := congrArg UInt64.toNat hzero
      rw [UInt64.toNat_add, Nat.mod_eq_of_lt (by omega)] at hsum
      change coins.toNat + baseReward.toNat = 0 at hsum
      omega
    · decide
  have hfold (coins : UInt64) (hcoins : coins ≠ 0) :
      baseRewards.foldl addGeneratedCoins coins ≠ 0 := by
    induction baseRewards generalizing coins with
    | nil => exact hcoins
    | cons baseReward _ ih =>
      rw [List.foldl_cons]
      exact ih (addGeneratedCoins coins baseReward) (hadd coins baseReward hcoins)
  refine hfold _ ?_
  cases nettype <;> decide +kernel

/-! ## The state -/

/-- What the producer and the verifiers of the next block read. -/
structure RewardState (σ : Type) where
  chain : Chain σ
  rules : CoinbaseRules
  /-- The current state of the service node list. -/
  infos : KeyMap PublicKey ServiceNodeInfo
  /-- `m_sqlite_db`. -/
  db : RewardsDb
  /-- `m_current_block_cumul_weight_median`. -/
  medianWeight : UInt64
  /-- What each block on the genesis block generated. -/
  baseRewards : List UInt64

namespace RewardState

variable {σ : Type} (s : RewardState σ)

/-- `get_block_already_generated_coins` of the top block. -/
def alreadyGeneratedCoins : UInt64 := generatedCoins s.rules.net.nettype s.baseRewards

/-- `m_current_block_cumul_weight_limit`. -/
def weightLimit : UInt64 := s.medianWeight * 2

/-- The hard fork of a block. -/
def hfVersion (height : ℕ) : Hf := getNetworkVersion s.rules.net height

/-- The nodes that can lead a block. -/
def active : List NodeEntry := s.infos.toList.filter (fun node => node.2.isActive)

/-- `get_next_block_leader`. -/
def nextBlockLeader : Payout :=
  let key := ServiceNodes.nextBlockLeader s.active
  match s.infos.get? key with
  | some info => if key = 0 then nullPayout else serviceNodePayoutPortions key info
  | none => nullPayout

/-- `calc_batched_governance_reward` from HF19 on. -/
def batchedGovernance (height : ℕ) : UInt64 :=
  if height = 0 then 0 else governanceRewardFormula (s.hfVersion height) 0

end RewardState

/-! ## The producer -/

/-- Who produces a block. -/
inductive Producer
  | miner (address : AccountPublicAddress)
  | pulse (key : PublicKey) (info : ServiceNodeInfo)

namespace RewardState

variable {σ : Type} (s : RewardState σ)

/-- The context that `create_block_template_internal` sets up. -/
def minerTxContext (height : ℕ) : Producer → MinerTxContext
  | .miner address =>
    { minerBlockProducer := address, blockLeader := s.nextBlockLeader
      batchedGovernance := s.batchedGovernance height }
  | .pulse key info =>
    { pulse := true, pulseBlockProducer := serviceNodePayoutPortions key info
      blockLeader := s.nextBlockLeader, batchedGovernance := s.batchedGovernance height }

/-- `construct_miner_tx` as `create_block_template_internal` calls it. -/
def buildCoinbase (txKey : SecretKey) (height : ℕ) (weight fee : UInt64) (producer : Producer)
    (payments : List BatchSnPayment) (extraNonce : List UInt8) : Option (MinerTx × UInt64) :=
  constructMinerTx s.rules txKey height (s.weightLimit / 2) s.alreadyGeneratedCoins weight fee
    (s.minerTxContext height producer) payments extraNonce (s.hfVersion height)

/-! ## The verifiers -/

/-- Whether the Pulse quorum of a block can be drawn, with the leader as the producer of the first
round. -/
def pulseQuorumFits (block : Block) (leader : PublicKey) : Bool :=
  let entropy := getPulseEntropyForNextBlock s.chain.crypto s.chain.db block.prevId
    block.pulse.round
  match generatePulseQuorum s.chain.quorumRng s.chain.config leader block.majorVersion s.active
      entropy block.pulse.round with
  | .ok quorum =>
    verifyPulseQuorumSizes quorum &&
      !(block.pulse.round = 0 && quorum.workers.head? ≠ some leader)
  | .error _ => false

/-- The check of one output against a payment, in the mode `batched_sn_rewards`. -/
def verifyBatchedOutput (height : ℕ) (vout : PublicKey × UInt64) (payment : BatchSnPayment)
    (index : ℕ) : Bool :=
  vout.2.toNat ≤ (2 ^ 64 - 1) / 1000 && RewardMoney.fromCoin vout.2.toNat = payment.2 &&
    s.rules.outputKey payment.1 height index = some vout.1

/-- `validate_miner_tx`. -/
def validateMinerTx (block : Block) (parts : BlockRewardParts) (payments : List BatchSnPayment) :
    Bool :=
  let leader := s.nextBlockLeader
  (block.majorVersion < ethTransition || block.snWinnerTail = leader.key.setWidth (8 * 4)) &&
  leader.key = block.serviceNodeWinner &&
  (!block.hasPulse || s.pulseQuorumFits block leader.key) &&
  block.minerVouts.length = payments.length &&
  parts.baseMiner = 0 &&
  (block.minerVouts.zip payments).zipIdx.all (fun ((vout, payment), index) =>
    s.verifyBatchedOutput block.height vout payment index) &&
  (block.minerVouts.map Prod.snd).sum =
    toCoin (payments.foldl (fun total payment => total.add payment.2) {})

/-- `validate_block_rewards`. -/
def validateBlockRewards (block : Block) (cumulativeBlockWeight fee : UInt64) : Bool :=
  match getOxenBlockReward s.rules.formulaV8 s.medianWeight cumulativeBlockWeight
      s.alreadyGeneratedCoins block.majorVersion
      { height := block.height, fee, batchedGovernance := s.batchedGovernance block.height },
    getSnPayments s.rules.toRewardRules block.height s.db with
  | some parts, .ok payments =>
    let moneyInUse := (block.minerVouts.map Prod.snd).sum
    let maxBaseReward := parts.governancePaid + 1 +
      (payments.map (fun payment => toCoin payment.2)).sum
    s.validateMinerTx block parts payments && moneyInUse ≤ maxBaseReward + parts.minerFee &&
      block.reward = parts.minerFee + parts.serviceNodeTotal
  | _, _ => false

end RewardState

end Xeqm.Coinbase
