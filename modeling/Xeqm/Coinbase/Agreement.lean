import Xeqm.Coinbase.Construction
import Xeqm.ServiceNodes.StakeRuns

/-!
# Producer and verifiers agree

From reward batching on, and before the ETH fork, a miner transaction that `construct_miner_tx`
builds from the payments that are due is accepted by `validate_block_rewards` and
`validate_batch_payment` on the same state. The rewards are split without a remainder, and no
subtraction of amounts, weights or portions wraps around.
-/

namespace Xeqm.Coinbase

open Tools Cryptonote Lib ServiceNodes Rewards List

/-- A Pulse producer is a funded node whose stakes are in order. -/
def Producer.Sound : Producer → Prop
  | .miner _ => True
  | .pulse _ info => PayableStakes info ∧ info.isFullyFunded = true

/-! ## The leader -/

/-- The search for the leader ends with what it started from or with a node. -/
theorem foldl_waitingRank (nodes : List NodeEntry) (best : ℕ × PublicKey) :
    let found := nodes.foldl (fun (best : ℕ × PublicKey) node =>
      if waitingRank node < best.1 then (waitingRank node, node.1) else best) best
    found = best ∨ ∃ node ∈ nodes, found = (waitingRank node, node.1) := by
  induction nodes generalizing best with
  | nil => exact .inl rfl
  | cons first nodes ih =>
    rw [foldl_cons]
    obtain hfound | ⟨node, hnode, hfound⟩ :=
      ih (if waitingRank first < best.1 then (waitingRank first, first.1) else best)
    · rw [hfound]
      split
      · exact .inr ⟨first, mem_cons_self, rfl⟩
      · exact .inl rfl
    · exact .inr ⟨node, mem_cons_of_mem _ hnode, hfound⟩

namespace RewardState

variable {σ : Type} {s : RewardState σ}

/-- The stakes of the nodes are in order, the balances fit into their columns and the median is
below the bound that `get_base_block_reward` asserts. -/
structure Sound (s : RewardState σ) : Prop where
  median : (effectiveMedian s.medianWeight).toNat < 2 ^ 32
  rows : SoundRows s.db.accrued
  columns : FitColumns s.db.accrued
  stakes : ∀ node ∈ s.infos.toList, PayableStakes node.2

/-- The leader is one of the active nodes, or there is none. -/
theorem nextBlockLeader_cases (s : RewardState σ) :
    s.nextBlockLeader = nullPayout ∨
      ∃ node ∈ s.infos.toList, node.2.isFullyFunded = true ∧
        s.nextBlockLeader = serviceNodePayoutPortions node.1 node.2 := by
  unfold nextBlockLeader
  dsimp only
  cases hinfo : s.infos.get? (ServiceNodes.nextBlockLeader s.active) with
  | none => exact .inl rfl
  | some info =>
    dsimp only
    split
    · exact .inl rfl
    rename_i hne
    right
    obtain heq | ⟨node, hnode, heq⟩ := foldl_waitingRank s.active (noWaitingRank, 0)
    · exact absurd (congrArg Prod.snd heq) hne
    have hleader : ServiceNodes.nextBlockLeader s.active = node.1 := congrArg Prod.snd heq
    obtain ⟨hmem, hactive⟩ := mem_filter.mp hnode
    have hget : s.infos.get? node.1 = some node.2 := KeyMap.get?_eq_some_iff.mpr hmem
    rw [hleader, hget] at hinfo
    cases hinfo
    exact ⟨node, hmem, (Bool.and_eq_true_iff.mp hactive).1, by rw [hleader]⟩

theorem Sound.leader_payouts (hs : s.Sound) :
    s.nextBlockLeader.payouts ≠ [] ∧ WithinWhole s.nextBlockLeader.payouts := by
  obtain hnull | ⟨node, hnode, hfunded, hleader⟩ := s.nextBlockLeader_cases
  · rw [hnull]
    exact ⟨cons_ne_nil _ _, withinWhole_nullPayout⟩
  · rw [hleader]
    have hstakes := hs.stakes node hnode
    exact ⟨hstakes.payouts_ne_nil hfunded node.1, hstakes.withinWhole node.1⟩

/-- The construction is called with the median of the state. -/
theorem Sound.half_weightLimit (hs : s.Sound) : s.weightLimit / 2 = s.medianWeight := by
  have hmedian : s.medianWeight.toNat < 2 ^ 32 :=
    lt_of_le_of_lt (UInt64.le_iff_toNat_le.mp (le_effectiveMedian _)) hs.median
  refine UInt64.toNat_inj.mp ?_
  unfold weightLimit
  change s.medianWeight.toNat * 2 % 2 ^ 64 / 2 = _
  omega

/-- The governance reward of a block is the reward of the foundation. -/
theorem batchedGovernance_le (s : RewardState σ) {height : ℕ}
    (huntil : s.hfVersion height < ethBls) (hfrom : Hf.hf19RewardBatching ≤ s.hfVersion height) :
    (s.batchedGovernance height).toNat ≤ foundationRewardHf19.toNat := by
  unfold batchedGovernance
  split
  · exact Nat.zero_le _
  · unfold governanceRewardFormula
    rw [if_neg (UInt8.not_le.mpr huntil), if_pos hfrom]

/-! ## What is built -/

variable {height : ℕ} {weight fee : UInt64} {producer : Producer} {payments : List BatchSnPayment}
  {txKey : SecretKey} {extraNonce : List UInt8} {vout : List (PublicKey × UInt64)}
  {leader : PublicKey}

/-- When a miner transaction can be built: the nonce fits, the block is not too heavy for any
reward, a Pulse producer has a key, and the keys of the outputs can be derived. -/
structure Buildable (s : RewardState σ) (height : ℕ) (weight : UInt64) (producer : Producer)
    (payments : List BatchSnPayment) (extraNonce : List UInt8) : Prop where
  nonce : extraNonce.length ≤ txExtraNonceMaxCount
  reward : ∃ base, baseRewardHf19 s.medianWeight weight = some base ∧ base ≠ 0
  key : ∀ info, producer ≠ .pulse 0 info
  outputs : ∀ x ∈ payments.zipIdx, (s.rules.outputKey x.1.1 height x.2).isSome = true

section

variable (hs : s.Sound)
  (hfrom : Hf.hf19RewardBatching ≤ s.hfVersion height)
  (huntil : s.hfVersion height < ethBls)

include hs hfrom huntil

/-- What is built, in terms of the state. -/
theorem Sound.buildCoinbase_eq_some {result : MinerTx × UInt64} :
    s.buildCoinbase txKey height weight fee producer payments extraNonce = some result ↔
      extraNonce.length ≤ txExtraNonceMaxCount ∧
      ∃ base, baseRewardHf19 s.medianWeight weight = some base ∧ base ≠ 0 ∧
      ∃ produced, producerRewards (s.hfVersion height) (s.minerTxContext height producer)
        (rewardPartsHf19 base fee (s.batchedGovernance height)) = some produced ∧
      ∃ vout, makeOutputs s.rules txKey height (payments.map dueReward) = some vout ∧
        result = (
          { version := maxVersionForHf (s.hfVersion height)
            txKey, extraNonce
            heightKey := true
            serviceNodeWinner := s.nextBlockLeader.key
            vout
            outputUnlockTimes := vout.map (fun _ => height + minedMoneyUnlockWindow)
            unlockTime := height + minedMoneyUnlockWindow
            height }, totalAmount produced) := by
  have hcoins : s.alreadyGeneratedCoins ≠ 0 := generatedCoins_ne_zero _ _
  have hgovernance : (s.minerTxContext height producer).batchedGovernance =
      s.batchedGovernance height := by cases producer <;> rfl
  have hleader : (s.minerTxContext height producer).blockLeader = s.nextBlockLeader := by
    cases producer <;> rfl
  unfold buildCoinbase
  rw [constructMinerTx_hf19 hfrom huntil hcoins, hs.half_weightLimit, hgovernance, hleader]

/-- When a miner transaction is built. -/
theorem Sound.buildCoinbase_isSome_iff (hproducer : producer.Sound) :
    (s.buildCoinbase txKey height weight fee producer payments extraNonce).isSome = true ↔
      s.Buildable height weight producer payments extraNonce := by
  have hpulse : Hf.hf16Pulse ≤ s.hfVersion height := UInt8.le_trans (by decide) hfrom
  have hleader : (s.minerTxContext height producer).blockLeader.payouts ≠ [] := by
    cases producer <;> exact hs.leader_payouts.1
  have hpaid (parts : BlockRewardParts) :
      (producerRewards (s.hfVersion height) (s.minerTxContext height producer) parts).isSome =
        true ↔ ∀ info, producer ≠ .pulse 0 info := by
    rw [producerRewards_isSome_iff hpulse parts hleader]
    cases producer with
    | miner => simp [minerTxContext]
    | pulse key info =>
      have hpayouts := hproducer.1.payouts_ne_nil hproducer.2 key
      have hkey : (serviceNodePayoutPortions key info).key = key := by
        unfold serviceNodePayoutPortions
        split <;> rfl
      simp only [minerTxContext, if_true, hkey, ne_eq, hpayouts, not_false_eq_true, true_and]
      constructor
      · rintro hne other heq
        cases heq
        exact hne rfl
      · rintro hne rfl
        exact hne info rfl
  have houtputs := @mapM_makeOutput_isSome_iff payments height s.rules txKey 0
  constructor
  · intro hsome
    obtain ⟨result, hresult⟩ := Option.isSome_iff_exists.mp hsome
    obtain ⟨hnonce, base, hbase, hne, produced, hproduced, vout, hvout, -⟩ :=
      (hs.buildCoinbase_eq_some hfrom huntil).mp hresult
    exact
      { nonce := hnonce
        reward := ⟨base, hbase, hne⟩
        key := (hpaid _).mp (Option.isSome_iff_exists.mpr ⟨produced, hproduced⟩)
        outputs := houtputs.mp (Option.isSome_iff_exists.mpr ⟨vout, hvout⟩) }
  · rintro ⟨hnonce, ⟨base, hbase, hne⟩, hkey, hkeys⟩
    obtain ⟨produced, hproduced⟩ := Option.isSome_iff_exists.mp
      ((hpaid (rewardPartsHf19 base fee (s.batchedGovernance height))).mpr hkey)
    obtain ⟨vout, hvout⟩ := Option.isSome_iff_exists.mp (houtputs.mpr hkeys)
    exact Option.isSome_iff_exists.mpr ⟨_, (hs.buildCoinbase_eq_some hfrom huntil).mpr
      ⟨hnonce, base, hbase, hne, produced, hproduced, vout, hvout, rfl⟩⟩

end

/-! ## Exact amounts -/

/-- The rewards of a block add up, and no subtraction on the way wraps around. -/
structure ExactRewards (s : RewardState σ) (height : ℕ) (weight fee : UInt64) (producer : Producer)
    (base reward : UInt64) : Prop where
  /-- `2 * median_weight - current_block_weight` of the penalty. -/
  weight_le : weight.toNat ≤ 2 * (effectiveMedian s.medianWeight).toNat
  /-- `base_reward_unpenalized - base_reward`. -/
  base_le : base ≤ blockRewardHf19
  /-- `base_reward_unpenalized - allocated`. -/
  allocated_eq : foundationRewardHf19.toNat + snRewardHf19.toNat = blockRewardHf19.toNat
  /-- The fees that the penalty leaves. -/
  minerFee_eq : (rewardPartsHf19 base fee (s.batchedGovernance height)).minerFee.toNat =
    fee.toNat - (blockRewardHf19.toNat - base.toNat)
  /-- Every split pays at most its total by portions, and exactly its total with the remainder. -/
  splits_eq : ∀ split ∈ splits (s.minerTxContext height producer)
      (rewardPartsHf19 base fee (s.batchedGovernance height)),
    ((split.1.map (fun entry => getPortionOfReward entry.portions split.2)).map UInt64.toNat).sum ≤
        split.2.toNat ∧
      ((distributeRewardByPortions split.1 split.2 true).map UInt64.toNat).sum = split.2.toNat
  reward_eq : reward.toNat = snRewardHf19.toNat +
    (rewardPartsHf19 base fee (s.batchedGovernance height)).minerFee.toNat

/-- The payments and the fees of a block are coins, and all coins fit into 64 bits. -/
def Affordable (payments : List BatchSnPayment) (fee : UInt64) : Prop :=
  (payments.map (fun payment => payment.2.atomic)).sum + foundationRewardHf19.toNat + 1 +
    fee.toNat < 2 ^ 64

theorem Sound.exactRewards (hs : s.Sound) (hfrom : Hf.hf19RewardBatching ≤ s.hfVersion height)
    (hproducer : producer.Sound) (hfee : fee.toNat + foundationRewardHf19.toNat < 2 ^ 64)
    {base : UInt64} (hbase : baseRewardHf19 s.medianWeight weight = some base)
    {produced : List RewardPayout}
    (hproduced : producerRewards (s.hfVersion height) (s.minerTxContext height producer)
      (rewardPartsHf19 base fee (s.batchedGovernance height)) = some produced) :
    s.ExactRewards height weight fee producer base (totalAmount produced) := by
  have hle := baseRewardHf19_le hs.median hbase
  have hminerFee := @minerFee_toNat base fee (s.batchedGovernance height) hle
  have hservice : snRewardHf19.toNat < foundationRewardHf19.toNat := by decide
  have hsum : (snRewardHf19 +
      (rewardPartsHf19 base fee (s.batchedGovernance height)).minerFee).toNat =
      snRewardHf19.toNat +
        (rewardPartsHf19 base fee (s.batchedGovernance height)).minerFee.toNat := by
    rw [UInt64.toNat_add, Nat.mod_eq_of_lt (by omega)]
  constructor
  · exact weight_le_of_baseRewardHf19 hs.median hbase
  · exact hle
  · decide
  · exact hminerFee
  · -- the leader and the producer are paid by portions that are within the whole
    have hexact {payouts : List PayoutEntry} (hne : payouts ≠ []) (hwhole : WithinWhole payouts)
        (total : UInt64) :
        ((payouts.map (fun entry => getPortionOfReward entry.portions total)).map
            UInt64.toNat).sum ≤ total.toNat ∧
          ((distributeRewardByPortions payouts total true).map UInt64.toNat).sum = total.toNat :=
      ⟨hwhole.paid_le total, hwhole.sum_eq hne total⟩
    obtain ⟨hleader, hleaderWhole⟩ := hs.leader_payouts
    rintro ⟨payouts, total⟩ hsplit
    cases producer with
    | miner =>
      obtain rfl | ⟨hpulse, -⟩ := mem_splits hsplit
      · exact hexact hleader hleaderWhole total
      · cases hpulse
    | pulse key =>
      obtain rfl | ⟨-, rfl⟩ := mem_splits hsplit
      · exact hexact hleader hleaderWhole total
      · exact hexact (hproducer.1.payouts_ne_nil hproducer.2 key) (hproducer.1.withinWhole key) total
  · have htotal := totalAmount_producerRewards (UInt8.le_trans (by decide) hfrom) rfl hproduced
    rw [htotal, UInt64.add_comm]
    exact hsum

/-! ## What is accepted -/

/-- A block that carries a miner transaction and its reward on top of a state. Its Pulse quorum can
be drawn if it is a Pulse block, and otherwise nobody could have produced it. -/
structure Carries (s : RewardState σ) (height : ℕ) (tx : MinerTx) (reward : UInt64)
    (block : Block) : Prop where
  version : block.majorVersion = s.hfVersion height
  height_eq : block.height = height
  vouts : block.minerVouts = tx.vout
  winner : block.serviceNodeWinner = tx.serviceNodeWinner
  reward_eq : block.reward = reward
  winnerTail : ethTransition ≤ block.majorVersion →
    block.snWinnerTail = tx.serviceNodeWinner.setWidth (8 * 4)
  quorum : block.hasPulse = true → ∃ quorum,
    generatePulseQuorum s.chain.quorumRng s.chain.config s.nextBlockLeader.key block.majorVersion
      s.active (getPulseEntropyForNextBlock s.chain.crypto s.chain.db block.prevId
        block.pulse.round) block.pulse.round = .ok quorum ∧ verifyPulseQuorumSizes quorum = true

/-- The leader is the producer of the first round. -/
theorem generatePulseQuorumWithCandidates_worker {rng : Twister σ} {conf : NetworkConfig}
    {hfVersion : Hf} {activeSize : ℕ} {candidates : List NodeEntry}
    {entropy : List Hash} {quorum : Quorum}
    (h : generatePulseQuorumWithCandidates rng conf leader hfVersion activeSize candidates entropy
      0 = .ok quorum) (hsizes : verifyPulseQuorumSizes quorum = true) :
    quorum.workers.head? = some leader := by
  have hnonempty : quorum.workers ≠ [] := by
    intro hnil
    simp [verifyPulseQuorumSizes, hnil] at hsizes
  unfold generatePulseQuorumWithCandidates at h
  split at h
  · cases h
    exact absurd rfl hnonempty
  split at h
  · cases h
    exact absurd rfl hnonempty
  split at h
  · cases h
    exact absurd rfl hnonempty
  obtain ⟨validators, -, h⟩ := except_bind_eq_ok_iff.mp h
  cases h
  rfl

theorem pulseQuorumFits_of_generated {block : Block} {quorum : Quorum}
    (h : generatePulseQuorum s.chain.quorumRng s.chain.config leader block.majorVersion
      s.active (getPulseEntropyForNextBlock s.chain.crypto s.chain.db block.prevId
        block.pulse.round) block.pulse.round = .ok quorum)
    (hsizes : verifyPulseQuorumSizes quorum = true) : s.pulseQuorumFits block leader = true := by
  have hworker (hround : block.pulse.round = 0) : quorum.workers.head? = some leader := by
    rw [hround] at h
    exact generatePulseQuorumWithCandidates_worker h hsizes
  unfold pulseQuorumFits
  dsimp only
  rw [h]
  dsimp only
  rw [hsizes, Bool.true_and]
  simp only [Bool.not_eq_true', Bool.and_eq_false_iff, decide_eq_false_iff_not]
  by_cases hround : block.pulse.round = 0
  · exact .inr (not_not.mpr (hworker hround))
  · exact .inl hround

/-- The sum of amounts of whole units. -/
theorem foldl_add_fromCoin (hwhole : ∀ payment ∈ payments, payment.2.subatomic = 0) (start : ℤ) :
    payments.foldl (fun total payment => total.add payment.2) (RewardMoney.fromCoin start) =
      RewardMoney.fromCoin (start + (payments.map (fun payment => payment.2.atomic)).sum) := by
  induction payments generalizing start with
  | nil => simp
  | cons payment _ ih =>
    have hfirst := hwhole payment mem_cons_self
    have hadd : (RewardMoney.fromCoin start).add payment.2 =
        RewardMoney.fromCoin (start + payment.2.atomic) := by
      simp [RewardMoney.add, RewardMoney.fromCoin, hfirst]
    rw [foldl_cons, hadd, ih (fun other hother => hwhole other (mem_cons_of_mem _ hother)),
      map_cons, sum_cons, add_assoc]

/-- The outputs of what is built match the payments. -/
theorem vouchersMatch_of_makeOutputs (hs : s.Sound)
    (hdue : ∀ payment ∈ payments, Due s.db payment)
    (hvout : makeOutputs s.rules txKey height (payments.map dueReward) = some vout) :
    vouchersMatch s.rules.toRewardRules height vout payments = true := by
  obtain ⟨hlength, -, hall⟩ := mapM_makeOutput_spec hvout
  unfold vouchersMatch
  rw [Bool.and_eq_true]
  refine ⟨decide_eq_true hlength, all_eq_true.mpr (fun x hx => ?_)⟩
  obtain ⟨hamount, hkey, hpayment⟩ := hall x hx
  obtain ⟨-, hcoin, -⟩ := toCoin_of_due (hdue _ hpayment) hs.rows hs.columns
  rw [Bool.and_eq_true]
  refine ⟨decide_eq_true ?_, decide_eq_true hkey⟩
  rw [hamount]
  exact hcoin

/-- The batched payment of what is built is accepted. -/
theorem Sound.validateBatchPayment_ok (hs : s.Sound) (huntil : s.hfVersion height < ethBls)
    (hpayments : getSnPayments s.rules.toRewardRules height s.db = .ok payments)
    (hvout : makeOutputs s.rules txKey height (payments.map dueReward) = some vout)
    (skipVerify : Bool) :
    ∃ db', validateBatchPayment s.rules.toRewardRules skipVerify height vout payments s.db =
      .ok true db' := by
  have hdue := due_of_getSnPayments hs.rows (UInt8.lt_trans huntil (by decide)) hpayments
  have hmatch := vouchersMatch_of_makeOutputs hs hdue hvout
  unfold validateBatchPayment
  rw [hmatch, Bool.not_true, Bool.and_false, if_neg Bool.false_ne_true]
  obtain ⟨db', hrun, -⟩ := savePayments_due hs.rows (getSnPayments_addresses hs.rows hpayments) hdue
  exact ⟨db', hrun⟩

/-- The amounts of the payments as numbers. -/
theorem sum_toCoin (hs : s.Sound) (hdue : ∀ payment ∈ payments, Due s.db payment) :
    (((payments.map (fun payment => toCoin payment.2)).map UInt64.toNat).sum : ℤ) =
      (payments.map (fun payment => payment.2.atomic)).sum := by
  induction payments with
  | nil => rfl
  | cons payment _ ih =>
    have hfirst := (toCoin_of_due (hdue payment mem_cons_self) hs.rows hs.columns).1
    have hrest := ih fun other hother => hdue other (mem_cons_of_mem _ hother)
    simp only [map_cons, sum_cons, Nat.cast_add]
    rw [hfirst, hrest]

/-- The hook accepts the outputs of what is built. -/
theorem Sound.validateMinerTx_built (hs : s.Sound) {block : Block} {tx : MinerTx} {reward : UInt64}
    (hcarries : s.Carries height tx reward block) (hwinner : tx.serviceNodeWinner =
      s.nextBlockLeader.key)
    (hdue : ∀ payment ∈ payments, Due s.db payment)
    (hfit : (payments.map (fun payment => payment.2.atomic)).sum < 2 ^ 64)
    (hvout : makeOutputs s.rules txKey height (payments.map dueReward) = some tx.vout)
    (base fee governance : UInt64) :
    s.validateMinerTx block (rewardPartsHf19 base fee governance) payments = true := by
  obtain ⟨hlength, hamounts, hall⟩ := mapM_makeOutput_spec hvout
  have htail : block.majorVersion < ethTransition ∨
      block.snWinnerTail = s.nextBlockLeader.key.setWidth (8 * 4) := by
    by_cases hbefore : block.majorVersion < ethTransition
    · exact .inl hbefore
    · right
      rw [hcarries.winnerTail (UInt8.not_lt.mp hbefore), hwinner]
  have hquorum : block.hasPulse = false ∨ s.pulseQuorumFits block s.nextBlockLeader.key = true := by
    cases hpulse : block.hasPulse with
    | false => exact .inl rfl
    | true =>
      obtain ⟨quorum, hgenerated, hsizes⟩ := hcarries.quorum hpulse
      exact .inr (pulseQuorumFits_of_generated hgenerated hsizes)
  have houtput : ∀ x ∈ (tx.vout.zip payments).zipIdx,
      s.verifyBatchedOutput block.height x.1.1 x.1.2 x.2 = true := by
    intro x hx
    obtain ⟨hamount, hkey, hpayment⟩ := hall x hx
    obtain ⟨-, hcoin, hsmall⟩ := toCoin_of_due (hdue _ hpayment) hs.rows hs.columns
    unfold verifyBatchedOutput
    rw [hamount, hcarries.height_eq, hkey, hcoin, decide_eq_true hsmall]
    simp
  have htotal : (tx.vout.map Prod.snd).sum =
      toCoin (payments.foldl (fun total payment => total.add payment.2) {}) := by
    have hwhole : ∀ payment ∈ payments, payment.2.subatomic = 0 := by
      intro payment hpayment
      obtain ⟨row, -, -, hamount, -⟩ := hdue payment hpayment
      rw [hamount]
      rfl
    have hsum := sum_toCoin hs hdue
    have hnat := @toNat_sum_of_lt (payments.map (fun payment => toCoin payment.2)) (by omega)
    have hfold := foldl_add_fromCoin hwhole 0
    refine UInt64.toNat_inj.mp ?_
    change _ = (toCoin (payments.foldl _ (RewardMoney.fromCoin 0))).toNat
    rw [hamounts, hnat, hfold, toCoin, RewardMoney.fromCoin, zero_add, ← hsum, UInt64.toNat_ofNat']
    dsimp only
    omega
  unfold validateMinerTx
  simp only [Bool.and_eq_true, Bool.or_eq_true, decide_eq_true_eq, Bool.not_eq_true']
  rw [hcarries.vouts]
  exact ⟨⟨⟨⟨⟨⟨htail, (hcarries.winner.trans hwinner).symm⟩, hquorum⟩, hlength⟩, rfl⟩,
    all_eq_true.mpr houtput⟩, htotal⟩

/-- **Producer and verifiers agree.** From reward batching on and before the ETH fork, on a state
whose books are in order and for any fees, weight, leader and producer, the miner transaction that
`construct_miner_tx` builds from the payments that are due is accepted: every block that carries it
with the reward passes `validate_block_rewards`, and the outputs pass `validate_batch_payment`. The
splits of the reward add up exactly, and nothing wraps around. It is built whenever the nonce fits,
the weight leaves a reward, the Pulse producer has a key and the output keys can be derived. -/
theorem built_coinbase_accepted (hs : s.Sound)
    (hfrom : Hf.hf19RewardBatching ≤ s.hfVersion height) (huntil : s.hfVersion height < ethBls)
    (hproducer : producer.Sound)
    (hpayments : getSnPayments s.rules.toRewardRules height s.db = .ok payments)
    (hmoney : Affordable payments fee) :
    ((s.buildCoinbase txKey height weight fee producer payments extraNonce).isSome = true ↔
      s.Buildable height weight producer payments extraNonce) ∧
    ∀ tx reward,
      s.buildCoinbase txKey height weight fee producer payments extraNonce = some (tx, reward) →
      (∃ base, baseRewardHf19 s.medianWeight weight = some base ∧
        s.ExactRewards height weight fee producer base reward) ∧
      (∀ block, s.Carries height tx reward block → s.validateBlockRewards block weight fee = true) ∧
      ∀ skipVerify, ∃ db', validateBatchPayment s.rules.toRewardRules skipVerify height tx.vout
        payments s.db = .ok true db' := by
  refine ⟨hs.buildCoinbase_isSome_iff hfrom huntil hproducer, fun tx reward hbuilt => ?_⟩
  obtain ⟨-, base, hbase, hne, produced, hproduced, vout, hvout, hresult⟩ :=
    (hs.buildCoinbase_eq_some hfrom huntil).mp hbuilt
  obtain ⟨rfl, rfl⟩ := hresult
  have hdue := due_of_getSnPayments hs.rows (UInt8.lt_trans huntil (by decide)) hpayments
  have hsum := sum_toCoin hs hdue
  unfold Affordable at hmoney
  have hexact := hs.exactRewards hfrom hproducer (by omega) hbase hproduced
  refine ⟨⟨base, hbase, hexact⟩, fun block hcarries => ?_,
    hs.validateBatchPayment_ok huntil hpayments hvout⟩
  have hminer := hs.validateMinerTx_built hcarries rfl hdue (by omega) hvout base fee
    (s.batchedGovernance height)
  have hcoins : s.alreadyGeneratedCoins ≠ 0 := generatedCoins_ne_zero _ _
  have hparts := getOxenBlockReward_hf19 (hcarries.version ▸ hfrom) (hcarries.version ▸ huntil)
    hcoins s.rules.formulaV8 s.medianWeight weight
    { height := block.height, fee, batchedGovernance := s.batchedGovernance block.height }
  rw [hbase, Option.bind_some, if_neg hne] at hparts
  have hreward := totalAmount_producerRewards (UInt8.le_trans (by decide) hfrom) rfl hproduced
  unfold validateBlockRewards
  rw [hparts, hcarries.height_eq, hpayments]
  dsimp only
  rw [hminer, Bool.true_and, Bool.and_eq_true]
  refine ⟨decide_eq_true ?_, decide_eq_true (hcarries.reward_eq.trans hreward)⟩
  -- the limit is what is paid out and something more, and it does not wrap around
  obtain ⟨-, hamounts, -⟩ := mapM_makeOutput_spec hvout
  have hgovernance := s.batchedGovernance_le huntil hfrom
  have hminerFee := hexact.minerFee_eq
  have hpaid := @toNat_sum_of_lt (payments.map (fun payment => toCoin payment.2)) (by omega)
  have hgovernancePaid : (rewardPartsHf19 base fee (s.batchedGovernance height)).governancePaid =
    s.batchedGovernance height := rfl
  rw [hcarries.vouts, hamounts, hgovernancePaid, UInt64.le_iff_toNat_le]
  simp only [UInt64.toNat_add, hpaid, UInt64.toNat_one]
  omega

end RewardState

/-! ## An instance -/

/-- A node of an operator with a fee and another contributor. -/
def sharedNode : ServiceNodeInfo :=
  { activeSinceHeight := 1
    contributors :=
      [{ amount := 60000 * coin, reserved := 60000 * coin, address := ⟨1, 1⟩ },
        { amount := 40000 * coin, reserved := 40000 * coin, address := ⟨2, 2⟩ }]
    totalContributed := 100000 * coin
    totalReserved := 100000 * coin
    stakingRequirement := 100000 * coin
    portionsForOperator := stakingPortions / 10
    operatorAddress := ⟨1, 1⟩ }

/-- A fake chain with one node, and a balance that is due to its operator. -/
def sharedNodeState : RewardState Unit where
  chain := acceptingChain hf19Net emptyChainDb
  rules :=
    { net := hf19Net
      governanceWallet := fun _ => nullAddress
      outputKey := fun address _ _ => some address.spendPublicKey
      registeredForTransition := fun _ _ => false
      formulaV8 := fun _ => 0
      minerOutputKey := fun _ address _ => some address.spendPublicKey }
  infos := KeyMap.set OrdSet.empty 7 sharedNode
  db := { accrued := [{ address := .oxen ⟨1, 1⟩, amount := 5000000000123 }] }
  medianWeight := 300000
  baseRewards := []

theorem payableStakes_sharedNode : PayableStakes sharedNode where
  contributed_le := by decide +kernel
  fee_le := by decide +kernel
  contributed := by decide +kernel
  addresses := by decide +kernel
  requirement_ne := by decide +kernel

theorem sound_sharedNodeState : sharedNodeState.Sound where
  median := by decide +kernel
  rows := ⟨by decide +kernel, by decide +kernel⟩
  columns := by
    unfold FitColumns
    decide +kernel
  stakes := by
    intro node hnode
    obtain rfl | ⟨hnone, -⟩ := KeyMap.mem_set.mp hnode
    · exact payableStakes_sharedNode
    · exact absurd hnone not_mem_nil

/-- A block of one and a sixth of the median pays a penalty and still pays what is due. -/
theorem built_coinbase_accepted_sharedNode : ∃ tx reward,
    sharedNodeState.buildCoinbase 0 20 350000 30000000000 (.miner ⟨3, 3⟩)
      [(⟨1, 1⟩, .fromCoin 5000000000)] [] = some (tx, reward) ∧
    tx.vout = [(1, 5000000000)] ∧ reward = 37676388888 ∧
    sharedNodeState.validateBlockRewards
      { majorVersion := Hf.hf19RewardBatching, height := 20, hash := 0, reward
        minerVouts := tx.vout, serviceNodeWinner := tx.serviceNodeWinner }
      350000 30000000000 = true := by
  obtain ⟨tx, reward, hbuilt, hvout, hreward⟩ : ∃ tx reward,
      sharedNodeState.buildCoinbase 0 20 350000 30000000000 (.miner ⟨3, 3⟩)
        [(⟨1, 1⟩, .fromCoin 5000000000)] [] = some (tx, reward) ∧
      tx.vout = [(1, 5000000000)] ∧ reward = 37676388888 := by
    refine ⟨_, _, rfl, ?_, ?_⟩ <;> decide +kernel
  refine ⟨tx, reward, hbuilt, hvout, hreward, ?_⟩
  obtain ⟨-, haccepted⟩ := @RewardState.built_coinbase_accepted Unit sharedNodeState 20 350000
    30000000000 (.miner ⟨3, 3⟩) [(⟨1, 1⟩, .fromCoin 5000000000)] 0 [] sound_sharedNodeState
    (by decide +kernel) (by decide +kernel) trivial (by decide +kernel)
    (by unfold RewardState.Affordable; decide +kernel)
  exact (haccepted tx reward hbuilt).2.1 _
    { version := show Hf.hf19RewardBatching = sharedNodeState.hfVersion 20 by decide +kernel
      height_eq := rfl
      vouts := rfl
      winner := rfl
      reward_eq := rfl
      winnerTail := fun h => absurd h (show ¬ethTransition ≤ Hf.hf19RewardBatching by decide)
      quorum := by
        intro h
        cases h }

end Xeqm.Coinbase
