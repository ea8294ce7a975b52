import Xeqm.Rewards.Money
import Xeqm.ServiceNodes.Events
import Xeqm.ServiceNodes.Quorums

/-!
# Adding a block to the rewards database

`BlockchainSQLite::add_block` with what it calls: the payments that are due, the
check of the miner transaction against them, the distribution of the block reward
and the metadata of stakes. Outside a rescan everything after the checks runs in
a transaction.
-/

namespace Xeqm.Rewards

open Cryptonote Lib ServiceNodes

variable (rules : RewardRules) (block : Block) (state : SnState)

/-- What the database reads of the chain and of fixed tables. -/
structure RewardRules where
  net : Network
  /-- The parsed `governance_wallet_address`. -/
  governanceWallet : Hf → AccountPublicAddress
  /-- `get_deterministic_output_key` for an address, a height and an output index. -/
  outputKey : AccountPublicAddress → ℕ → ℕ → Option PublicKey
  /-- Whether an address has registered for the transition, at a height. -/
  registeredForTransition : ℕ → AccountPublicAddress → Bool

/-- The parameters of the network. -/
def RewardRules.config : NetworkConfig := getConfig rules.net.nettype

/-- `state_t`, as far as the database reads it. -/
structure SnState where
  infos : KeyMap PublicKey ServiceNodeInfo
  /-- `get_block_producer`, null if there is none. -/
  blockProducer : PublicKey

/-- `batch_sn_payment`. -/
abbrev BatchSnPayment := AccountPublicAddress × RewardMoney

/-- `sql_payment`. -/
structure SqlPayment where
  amount : RewardMoney := {}
  liquidation : RewardMoney := {}
  deriving DecidableEq

/-- `block_payments`. -/
abbrev BlockPayments := List (PayoutAddress × SqlPayment)

/-- `SN_REWARD_HF19`. -/
def snRewardHf19 : ℤ := 8250000000

/-- `FOUNDATION_REWARD_HF19`. -/
def foundationRewardHf19 : ℤ := 12400000000

/-- `governance_reward_formula`, from reward batching on. -/
def governanceRewardFormula (hfVersion : Hf) : ℤ :=
  if hfVersion ≥ ethBls then 0 else foundationRewardHf19

/-! ## The rows of the accrued table -/

/-- The row of an address. -/
def accruedRow (address : PayoutAddress) (db : RewardsDb) : Option AccruedRow :=
  db.accrued.find? (fun row => row.address = address)

/-- `UPDATE batched_payments_accrued ... WHERE address = ?`. -/
def updateAccrued (address : PayoutAddress) (f : AccruedRow → AccruedRow) : DbM Unit := fun db =>
  if db.accrued.any (fun row => row.address = address && (f row).amount < 0) then
    .error .constraint db
  else
    .ok () { db with
      accrued := db.accrued.map (fun row => if row.address = address then f row else row) }

/-- `INSERT INTO batched_payments_accrued ... ON CONFLICT (address) DO UPDATE`. -/
def upsertAccrued (row : AccruedRow) (f : AccruedRow → AccruedRow) : DbM Unit := fun db =>
  if row.amount < 0 then .error .constraint db
  else
    match accruedRow row.address db with
    | some _ => updateAccrued row.address f db
    | none => .ok () { db with accrued := db.accrued ++ [row] }

/-! ## Payouts -/

/-- `account_public_address::modulus`. -/
def addressModulus (address : AccountPublicAddress) (interval : ℕ) : ℕ :=
  if interval = 0 then 0 else ofLittleEndian (address.viewPublicKey.bytes.take 8) % interval

/-- The order of addresses in the table. -/
def addressRank (address : AccountPublicAddress) : ℕ :=
  address.spendPublicKey.toNat * 2 ^ 256 + address.viewPublicKey.toNat

/-- Reads the address and the amount of rows, in the order of the addresses. -/
def readAccrued (rows : List AccruedRow) : Except DbFault (List (AccountPublicAddress × ℤ)) := do
  let pairs ← rows.mapM (fun row =>
    match row.address with
    | .oxen address => .ok (address, row.amount)
    | .eth _ => .error .badAddress)
  .ok (pairs.insertionSort (fun a b => addressRank a.1 ≤ addressRank b.1))

/-- Whether the last block before the ETH fork pays out every balance. -/
def isFinalPayout (blockHeight : ℕ) : Bool :=
  match hardForkBegins rules.net Hf.hf21Eth with
  | some begins => blockHeight = begins - 1 ∧ rules.net.nettype ≠ .testnet
  | none => false

/-- `get_sn_payments`. -/
def getSnPayments (blockHeight : ℕ) (db : RewardsDb) : Except DbFault (List BatchSnPayment) := do
  if rules.net.nettype ≠ .fakechain ∧
      blockHeight ≤ (hardForkBegins rules.net Hf.hf19RewardBatching).getD 0 then .ok []
  else
    let hfVersion := getNetworkVersion rules.net blockHeight
    let interval := rules.config.batchingIntervalAt hfVersion
    let minPayment : ℤ := rules.config.minBatchPaymentAmountAt hfVersion
    let due ← readAccrued (db.accrued.filter
      (fun row => row.amount ≥ minPayment * batchRewardFactor))
    if isFinalPayout rules blockHeight then
      let all ← readAccrued db.accrued
      .ok ((all.filter (fun (address, amount) =>
          !rules.registeredForTransition blockHeight address &&
            (RewardMoney.fromDbAmount amount hfVersion).toDbAtomic > 0)).map
        (fun (address, amount) => (address, (RewardMoney.fromDbAmount amount hfVersion).truncate)))
    else
      .ok ((due.filter (fun (address, _) =>
          addressModulus address interval = blockHeight % interval)).map
        (fun (address, amount) => (address, (RewardMoney.fromDbAmount amount hfVersion).truncate)))

/-- The loop of `save_payments`: each payment is taken from its row, which has to
hold just that amount and a fraction. -/
def savePaymentRows : List BatchSnPayment → DbM Bool
  | [] => pure true
  | (address, amount) :: rest => do
    let db ← get
    match accruedRow (.oxen address) db with
    | none => pure false
    | some row =>
      let stored := RewardMoney.fromDbAmount row.amount Hf.hf20EthTransition
      if stored.truncate ≠ amount then pure false
      else
        updateAccrued (.oxen address) (fun row =>
          { row with amount := row.amount - amount.toDbAmount Hf.hf20EthTransition })
        savePaymentRows rest

/-- `save_payments`. -/
def savePayments (payments : List BatchSnPayment) : DbM Bool := do
  let saved ← savePaymentRows payments
  if saved ∧ payments ≠ [] then
    modify (fun db => { db with accrued := db.accrued.filter (fun row => row.amount ≠ 0) })
    pure true
  else pure saved

/-- Whether the outputs of the miner transaction are the payments, in order. -/
def vouchersMatch (blockHeight : ℕ) (vouts : List (PublicKey × UInt64))
    (payments : List BatchSnPayment) : Bool :=
  vouts.length = payments.length &&
    (vouts.zip payments).zipIdx.all (fun ((vout, payment), index) =>
      RewardMoney.fromCoin vout.2.toNat = payment.2 &&
        rules.outputKey payment.1 blockHeight index = some vout.1)

/-- `validate_batch_payment`. The comparison of the two totals follows from that of
the single amounts. -/
def validateBatchPayment (skipVerify : Bool) (blockHeight : ℕ) (vouts : List (PublicKey × UInt64))
    (payments : List BatchSnPayment) : DbM Bool :=
  if !skipVerify && !vouchersMatch rules blockHeight vouts payments then pure false
  else savePayments payments

/-! ## Rewards -/

/-- `payments[address].amount += amount`, with what is liquidated of it. -/
def addPayment (address : PayoutAddress) (amount liquidation : RewardMoney) :
    BlockPayments → BlockPayments
  | [] => [(address, ⟨({} : RewardMoney).add amount, ({} : RewardMoney).add liquidation⟩)]
  | (other, payment) :: rest =>
    if other = address then
      (other, ⟨payment.amount.add amount, payment.liquidation.add liquidation⟩) :: rest
    else (other, payment) :: addPayment address amount liquidation rest

/-- Whether rewards go to ETH addresses. -/
def usesEthAddress (nettype : NetworkType) (hfVersion : Hf) (info : ServiceNodeInfo) : Bool :=
  hfVersion ≥ Hf.hf21Eth && !(nettype = .localdev && info.operatorEthereumAddress = 0)

/-- Where the operator fee goes. -/
def feeRecipient (useEth : Bool) (info : ServiceNodeInfo) : PayoutAddress :=
  if useEth then
    .eth ((info.contributors.head?.map Contributor.ethereumBeneficiary).getD
      info.operatorEthereumAddress)
  else .oxen info.operatorAddress

/-- Where the share of a contributor goes. -/
def contributorRecipient (useEth : Bool) (contributor : Contributor) : PayoutAddress :=
  if useEth then .eth contributor.ethereumBeneficiary else .oxen contributor.address

/-- Adds a payment that is not zero. -/
def addPositive (address : PayoutAddress) (amount : RewardMoney) (payments : BlockPayments) :
    BlockPayments :=
  if RewardMoney.lt {} amount then addPayment address amount {} payments else payments

/-- The operator fee of `add_rewards`. -/
def operatorFee (info : ServiceNodeInfo) (milliAmount : UInt64) : RewardMoney :=
  .fromIntermediate (mul128Div64 info.portionsForOperator milliAmount stakingPortions)

/-- The share of a contributor in what is left after the fee. -/
def contributorReward (info : ServiceNodeInfo) (postFee : UInt64) (contributor : Contributor) :
    RewardMoney :=
  .fromIntermediate (mul128Div64 contributor.amount postFee info.stakingRequirement)

/-- `add_rewards`. The source reads the amount after the fee without a check; it is
missing only for a fee above the reward. -/
def addRewards (nettype : NetworkType) (hfVersion : Hf) (distribution : RewardMoney)
    (info : ServiceNodeInfo) (payments : BlockPayments) : Except DbFault BlockPayments :=
  match distribution.toIntermediate with
  | none => .error .invalidDistribution
  | some milliAmount =>
    let fee := operatorFee info milliAmount
    let useEth := usesEthAddress nettype hfVersion info
    match (distribution.sub fee).toIntermediate with
    | none => .error .invalidDistribution
    | some postFee =>
      .ok (info.contributors.foldl
        (fun payments contributor =>
          addPositive (contributorRecipient useEth contributor)
            (contributorReward info postFee contributor) payments)
        (addPositive (feeRecipient useEth info) fee payments))

/-- `service_nodes_infos.at`. -/
def infoAt (key : PublicKey) : Except DbFault ServiceNodeInfo :=
  match state.infos.get? key with
  | some info => .ok info
  | none => .error .nodeNotFound

/-- Steps 1 and 2 of `reward_handler`, for blocks before ETH: the fees go to the
block producer and the governance reward to its wallet. -/
def feesAndGovernance : Except DbFault BlockPayments := do
  let baseReward := RewardMoney.fromCoin snRewardHf19
  let blockReward := RewardMoney.fromCoin block.reward.toNat
  if blockReward.lt baseReward then .error .rewardTooSmall
  else
    let fees := blockReward.sub baseReward
    let paid ←
      if fees.toIntermediate.getD 0 > 0 ∧ block.hasPulse ∧ state.blockProducer ≠ 0 then do
        let info ← infoAt state state.blockProducer
        addRewards rules.net.nettype block.majorVersion fees info []
      else .ok []
    if rules.net.nettype = .fakechain then .ok paid
    else
      .ok (addPayment (.oxen (rules.governanceWallet block.majorVersion))
        (.fromCoin (governanceRewardFormula block.majorVersion)) {} paid)

/-- Step 3 of `reward_handler`: every payable node gets its part of the reward. -/
def payNodes (rules : RewardRules) (block : Block) (state : SnState) (perNode : RewardMoney) :
    List PublicKey → BlockPayments → Except DbFault BlockPayments
  | [], payments => .ok payments
  | key :: rest, payments => do
    let info ← infoAt state key
    let payments ← addRewards rules.net.nettype block.majorVersion perNode info payments
    payNodes rules block state perNode rest payments

/-- The payments of a block that `reward_handler` collects. -/
def rewardPayments (payable : List PublicKey) : Except DbFault BlockPayments := do
  if block.reward.toNat > (2 ^ 64 - 1) / 1000 then .error .rewardTooLarge
  else
    let payments ←
      if block.majorVersion < ethBls then feesAndGovernance rules block state else .ok []
    let blockReward :=
      if block.majorVersion < ethBls then RewardMoney.fromCoin snRewardHf19
      else .fromCoin block.reward.toNat
    let perNode := if payable = [] then {} else blockReward.div payable.length
    payNodes rules block state perNode payable payments

/-- `get_delayed_payments` for one payout height. -/
def getDelayedPayments (payoutHeight : ℕ) (db : RewardsDb) : BlockPayments :=
  (db.delayedPayments.filter (fun p => p.payoutHeight = payoutHeight)).foldl
    (fun payments p => addPayment (.eth p.ethAddress) (.fromCoin p.amount.toNat)
      (.fromCoin p.liquidationAmount.toNat) payments)
    []

/-- One row of `add_sn_rewards`. -/
def addSnReward (hfVersion : Hf) (isRewards : Bool) (entry : PayoutAddress × SqlPayment) :
    DbM Unit :=
  let amount := entry.2.amount.sub entry.2.liquidation
  let dbAmount := amount.toDbAmount hfVersion
  if hfVersion ≥ Hf.hf21Eth then
    if isRewards then
      upsertAccrued { address := entry.1, amount := dbAmount, lifetimeRewards := dbAmount }
        (fun row => { row with
          amount := row.amount + dbAmount, lifetimeRewards := row.lifetimeRewards + dbAmount })
    else
      upsertAccrued
        { address := entry.1, amount := dbAmount
          lifetimeUnlockedStakes := amount.toDbAtomic
          lifetimeLiquidatedStakes := entry.2.liquidation.toDbAtomic }
        (fun row => { row with
          amount := row.amount + dbAmount
          lifetimeUnlockedStakes := row.lifetimeUnlockedStakes + amount.toDbAtomic
          lifetimeLiquidatedStakes :=
            row.lifetimeLiquidatedStakes + entry.2.liquidation.toDbAtomic })
  else
    match entry.1 with
    | .eth _ => throw .badAddress
    | .oxen address =>
      upsertAccrued
        { address := entry.1, amount := dbAmount
          payoutOffset := some (addressModulus address rules.config.batchingInterval) }
        (fun row => { row with amount := row.amount + dbAmount })

/-- `add_sn_rewards`. -/
def addSnRewards (hfVersion : Hf) (payments : BlockPayments) (isRewards : Bool) : DbM Unit :=
  payments.forM (addSnReward rules hfVersion isRewards)

/-- Continues with a result that does not touch the database, or throws. -/
def orDbThrow {α : Type} (result : Except DbFault α) : DbM α :=
  match result with
  | .ok a => pure a
  | .error fault => throw fault

/-- `reward_handler`. -/
def rewardHandler (payable : List PublicKey) : DbM Unit := do
  let payments ← orDbThrow (rewardPayments rules block state payable)
  let db ← get
  if block.majorVersion ≥ Hf.hf21Eth then
    addSnRewards rules block.majorVersion (getDelayedPayments block.height db) false
  else pure ()
  addSnRewards rules block.majorVersion payments true

/-- `submit_stakes_metadata`. -/
def submitStakesMetadata (blockAdd : BlockAddResult) : DbM Unit := do
  blockAdd.lockedStakes.forM (fun stake =>
    upsertAccrued { address := .eth stake.addr, lifetimeLockedStakes := stake.amount.toNat }
      (fun row => { row with
        lifetimeLockedStakes := row.lifetimeLockedStakes + stake.amount.toNat }))
  blockAdd.purgedStakes.forM (fun purge =>
    updateAccrued (.eth purge.addr) (fun row => { row with
      lifetimeLockedStakes := row.lifetimeLockedStakes - purge.amount.toNat }))

/-! ## The block -/

/-- What `add_block` is given. -/
structure BlockInput where
  block : Block
  state : SnState
  blockAdd : BlockAddResult
  /-- `rescan->skip_verify`. -/
  skipVerify : Bool := false

/-- The part of `add_block` that is in the `try` block. -/
def addBlockBody (input : BlockInput) (payments : List BatchSnPayment) : DbM Bool := do
  let valid ← validateBatchPayment rules input.skipVerify input.block.height
    input.block.minerVouts payments
  if valid then
    rewardHandler rules input.block input.state input.blockAdd.payableNodes
    if input.block.majorVersion ≥ Hf.hf21Eth then submitStakesMetadata input.blockAdd
    else pure ()
    let db ← get
    updateHeight rules.config (db.height + 1)
    pure true
  else pure false

/-- Runs the body of the `try` block. Without a transaction of its own, while a
rescan holds one, whatever was written before a failure stays; otherwise the
tables are rolled back, but not the height in memory. -/
def runBody (rescanning : Bool) (body : DbM Bool) : DbM Bool := fun db =>
  match body db with
  | .ok true db' => .ok true db'
  | .ok false db' | .error _ db' =>
    .ok false (if rescanning then db' else { db with height := db'.height })

/-- The first block of reward batching resets the tables. -/
def beginBatching (height : ℕ) : DbM Unit :=
  if height = (hardForkBegins rules.net Hf.hf19RewardBatching).getD 0 then do
    resetDatabase rules.config
    updateHeight rules.config (height - 1)
  else pure ()

/-- The payments that a block has to make. There are none from ETH on. -/
def duePayments (db : RewardsDb) : Except DbFault (List BatchSnPayment) :=
  if block.majorVersion < ethBls then getSnPayments rules block.height db else .ok []

/-- `add_block`. -/
def addBlock (rescanning : Bool) (input : BlockInput) : DbM Bool := do
  let height := input.block.height
  if input.block.majorVersion < Hf.hf19RewardBatching then
    updateHeight rules.config height
    pure true
  else
    beginBatching rules height
    let db ← get
    if height ≠ db.height + 1 then pure false
    else
      let payments ← orDbThrow (duePayments rules input.block db)
      runBody rescanning (addBlockBody rules input payments)

end Xeqm.Rewards
