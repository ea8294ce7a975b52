import Xeqm.Coinbase.Payments

/-!
# The construction from HF19 on

What `get_oxen_block_reward` and `construct_miner_tx` come to from reward batching on and before the
ETH fork: the penalty for a heavy block is taken from the fees, the rest of the reward is fixed, and
the rewards of the producer and the leader add up to the block reward.
-/

namespace Xeqm.Coinbase

open Cryptonote Lib ServiceNodes Rewards List
open UInt64 (le_iff_toNat_le lt_iff_toNat_lt toNat_sub_of_le toNat_mul)

/-! ## The reward from HF19 on -/

/-- The base reward of a block with a weight. -/
def baseRewardHf19 (medianWeight weight : UInt64) : Option UInt64 :=
  if weight ≤ effectiveMedian medianWeight then some blockRewardHf19
  else if weight > 2 * effectiveMedian medianWeight then none
  else some (penalizedReward blockRewardHf19 (effectiveMedian medianWeight) weight)

/-- The parts of a reward. -/
def rewardPartsHf19 (baseReward fee governance : UInt64) : BlockRewardParts :=
  { serviceNodeTotal := snRewardHf19
    governanceDue := foundationRewardHf19
    governancePaid := governance
    originalBaseReward := blockRewardHf19
    minerFee :=
      if blockRewardHf19 - baseReward ≥ fee then 0 else fee - (blockRewardHf19 - baseReward) }

variable {coins : UInt64} {payouts : List PayoutEntry}

section

variable {hfVersion : Hf} {medianWeight weight reward : UInt64}

theorem getBaseBlockReward_hf19 (hfrom : Hf.hf19RewardBatching ≤ hfVersion) (hcoins : coins ≠ 0)
    (formulaV8 : ℕ → UInt64) (medianWeight weight : UInt64) (height : ℕ) :
    getBaseBlockReward formulaV8 medianWeight weight coins hfVersion height =
      (baseRewardHf19 medianWeight weight).map (fun reward => (reward, blockRewardHf19)) := by
  unfold getBaseBlockReward baseRewardHf19
  rw [if_neg hcoins, if_pos hfrom]
  dsimp only
  split
  · rfl
  · split <;> rfl

/-- The payouts of the leader do not matter from HF19 on. -/
theorem getOxenBlockReward_hf19 (hfrom : Hf.hf19RewardBatching ≤ hfVersion)
    (huntil : hfVersion < ethBls) (hcoins : coins ≠ 0) (formulaV8 : ℕ → UInt64)
    (medianWeight weight : UInt64) (context : BlockRewardContext) :
    getOxenBlockReward formulaV8 medianWeight weight coins hfVersion context =
      (baseRewardHf19 medianWeight weight).bind (fun reward =>
        if reward = 0 then none
        else some (rewardPartsHf19 reward context.fee context.batchedGovernance)) := by
  have hle {version : Hf} (h : version ≤ Hf.hf19RewardBatching) : hfVersion ≥ version :=
    UInt8.le_trans h hfrom
  have hpulse : ¬hfVersion < Hf.hf16Pulse := UInt8.not_lt.mpr (hle (by decide))
  have hgovernance (base : UInt64) : governanceRewardFormula hfVersion base =
      foundationRewardHf19 := by
    unfold governanceRewardFormula
    rw [if_neg (UInt8.not_le.mpr huntil), if_pos hfrom]
  have hservice (base : UInt64) : serviceNodeRewardFormula base hfVersion = snRewardHf19 := by
    unfold serviceNodeRewardFormula
    rw [if_pos hfrom]
  have hallocated : ¬(foundationRewardHf19 + snRewardHf19 > blockRewardHf19 ∨
      blockRewardHf19 - (foundationRewardHf19 + snRewardHf19) ≠ 0) := by decide
  unfold getOxenBlockReward
  rw [if_neg (UInt8.not_le.mpr huntil), getBaseBlockReward_hf19 hfrom hcoins]
  cases baseRewardHf19 medianWeight weight with
  | none => rfl
  | some reward =>
    simp only [Option.map_some, Option.bind_some]
    by_cases hzero : reward = 0
    · rw [if_pos hzero, if_pos hzero]
    · rw [if_neg hzero, if_neg hzero, if_neg hcoins,
        if_pos (hle (show Hf.hf13EnforceCheckpoints ≤ _ by decide)),
        if_pos (hle (show Hf.hf10Bulletproofs ≤ _ by decide)), if_neg hpulse]
      simp only [hgovernance, hservice]
      rfl

/-- The base reward of a heavy block is not above that of a light one. -/
theorem baseRewardHf19_le (hmedian : (effectiveMedian medianWeight).toNat < 2 ^ 32)
    (h : baseRewardHf19 medianWeight weight = some reward) : reward ≤ blockRewardHf19 := by
  unfold baseRewardHf19 at h
  split at h
  · cases h
    exact UInt64.le_refl _
  · rename_i hheavy
    split at h
    · cases h
    rename_i hfits
    cases h
    exact penalizedReward_le hmedian (UInt64.not_le.mp hheavy) (UInt64.not_lt.mp hfits) _

/-- A block that is rewarded is at most twice as heavy as the median. -/
theorem weight_le_of_baseRewardHf19 (hmedian : (effectiveMedian medianWeight).toNat < 2 ^ 32)
    (h : baseRewardHf19 medianWeight weight = some reward) :
    weight.toNat ≤ 2 * (effectiveMedian medianWeight).toNat := by
  unfold baseRewardHf19 at h
  split at h
  · rename_i hlight
    have := le_iff_toNat_le.mp hlight
    omega
  · split at h
    · cases h
    rename_i hfits
    rw [← toNat_double hmedian]
    exact le_iff_toNat_le.mp (UInt64.not_lt.mp hfits)

/-- The fees less the penalty. -/
theorem minerFee_toNat {base fee governance : UInt64} (hle : base ≤ blockRewardHf19) :
    (rewardPartsHf19 base fee governance).minerFee.toNat =
      fee.toNat - (blockRewardHf19.toNat - base.toNat) := by
  have hpenalty := toNat_sub_of_le _ _ hle
  unfold rewardPartsHf19
  split
  · rename_i hgreater
    have := le_iff_toNat_le.mp hgreater
    change 0 = _
    omega
  · rename_i hless
    have hless := UInt64.not_le.mp hless
    have := lt_iff_toNat_lt.mp hless
    rw [toNat_sub_of_le _ _ (UInt64.le_of_lt hless), hpenalty]

end

/-! ## The rewards of the producer and the leader -/

/-- The rewards of a payout come to its total. -/
theorem totalAmount_payoutRewards (hne : payouts ≠ [])
    (total : UInt64) : totalAmount (payoutRewards payouts total true) = total := by
  have hlength : (distributeRewardByPortions payouts total true).length = payouts.length := by
    obtain ⟨entry, rest, rfl⟩ := exists_cons_of_ne_nil hne
    rw [distributeRewardByPortions_cons]
    simp
  have hamounts : (payoutRewards payouts total true).map RewardPayout.amount =
      distributeRewardByPortions payouts total true := by
    unfold payoutRewards
    rw [map_zipWith, ← map_uncurry_zip_eq_zipWith]
    exact map_snd_zip (le_of_eq hlength)
  unfold totalAmount
  rw [hamounts, sum_distributeRewardByPortions hne]

variable {context : MinerTxContext} {hfVersion : Hf} {parts : BlockRewardParts}

/-- The rewards of a block come to the fees and the reward of the service nodes. -/
theorem totalAmount_producerRewards (hpulse : Hf.hf16Pulse ≤ hfVersion)
    (hminer : parts.baseMiner = 0) {produced : List RewardPayout}
    (h : producerRewards hfVersion context parts = some produced) :
    totalAmount produced = parts.minerFee + parts.serviceNodeTotal := by
  have happend (a b : List RewardPayout) : totalAmount (a ++ b) = totalAmount a + totalAmount b := by
    simp [totalAmount]
  have hnodes : hfVersion ≥ Hf.hf9ServiceNodes := UInt8.le_trans (by decide) hpulse
  unfold producerRewards at h
  dsimp only at h
  split at h
  · cases h
  rename_i hleader
  have hleader : context.blockLeader.payouts ≠ [] := fun hnil => hleader ⟨hnodes, hnil⟩
  split at h
  · split at h
    · cases h
    rename_i hproducer
    have hproducer : context.pulseBlockProducer.payouts ≠ [] := fun hnil => hproducer (.inl hnil)
    split at h
    · cases h
      rw [totalAmount_payoutRewards hleader, add_comm]
    · cases h
      rw [happend, totalAmount_payoutRewards hleader]
      split
      · rw [totalAmount_payoutRewards hproducer]
      · rename_i hfee
        rw [not_not.mp hfee]
        rfl
  · split at h
    · cases h
    cases h
    have hremainder : decide (hfVersion ≥ Hf.hf16Pulse) = true := decide_eq_true hpulse
    rw [happend, hremainder, totalAmount_payoutRewards hleader, hminer, zero_add]
    split
    · simp [totalAmount]
    · rename_i hfee
      rw [not_not.mp hfee]
      rfl

/-- When the producer and the leader can be paid. -/
theorem producerRewards_isSome_iff (hpulse : Hf.hf16Pulse ≤ hfVersion)
    (parts : BlockRewardParts) (hleader : context.blockLeader.payouts ≠ []) :
    (producerRewards hfVersion context parts).isSome = true ↔
      if context.pulse then
        context.pulseBlockProducer.payouts ≠ [] ∧ context.pulseBlockProducer.key ≠ 0
      else context.pulseBlockProducer.payouts = [] := by
  have hnot : ¬hfVersion < Hf.hf16Pulse := UInt8.not_lt.mpr hpulse
  unfold producerRewards
  rw [if_neg (fun h => hleader h.2)]
  split
  · split
    · rename_i hbad
      simp only [hnot, or_false] at hbad
      simp only [Option.isSome_none, Bool.false_eq_true, false_iff]
      rintro ⟨hpayouts, hkey⟩
      exact hbad.elim hpayouts hkey
    · rename_i hgood
      rw [not_or, not_or] at hgood
      have hpaid : context.pulseBlockProducer.payouts ≠ [] ∧ context.pulseBlockProducer.key ≠ 0 :=
        ⟨hgood.1, hgood.2.1⟩
      split
      · exact ⟨fun _ => hpaid, fun _ => rfl⟩
      · exact ⟨fun _ => hpaid, fun _ => rfl⟩
  · split
    · rename_i hbad
      simp [hbad]
    · rename_i hgood
      simp [not_not.mp hgood]

/-- The splits that the construction makes. -/
def splits (context : MinerTxContext) (parts : BlockRewardParts) :
    List (List PayoutEntry × UInt64) :=
  let leader := context.blockLeader
  let producer := context.pulseBlockProducer
  if context.pulse then
    if leader.key = producer.key then
      [(leader.payouts, parts.serviceNodeTotal + parts.minerFee)]
    else
      (if parts.minerFee ≠ 0 then [(producer.payouts, parts.minerFee)] else []) ++
        [(leader.payouts, parts.serviceNodeTotal)]
  else [(leader.payouts, parts.serviceNodeTotal)]

/-- Each split is one of the leader, or of a Pulse producer. -/
theorem mem_splits {total : UInt64}
    (h : (payouts, total) ∈ splits context parts) :
    payouts = context.blockLeader.payouts ∨
      context.pulse = true ∧ payouts = context.pulseBlockProducer.payouts := by
  have hleader {other : UInt64} (h : (payouts, total) ∈ [(context.blockLeader.payouts, other)]) :
      payouts = context.blockLeader.payouts := (Prod.mk.inj (mem_singleton.mp h)).1
  unfold splits at h
  dsimp only at h
  split at h
  · rename_i hpulse
    split at h
    · exact .inl (hleader h)
    · rcases mem_append.mp h with hfees | hrest
      · split at hfees
        · exact .inr ⟨hpulse, (Prod.mk.inj (mem_singleton.mp hfees)).1⟩
        · cases hfees
      · exact .inl (hleader hrest)
  · exact .inl (hleader h)

/-! ## The miner transaction -/

/-- `construct_miner_tx` from HF19 on. The miner transaction pays what is due and nothing else. -/
theorem constructMinerTx_hf19 (hfrom : Hf.hf19RewardBatching ≤ hfVersion)
    (huntil : hfVersion < ethBls) (hcoins : coins ≠ 0) {rules : CoinbaseRules} {txKey : SecretKey}
    {height : ℕ} {medianWeight weight fee : UInt64} {payments : List BatchSnPayment}
    {extraNonce : List UInt8} {result : MinerTx × UInt64} :
    constructMinerTx rules txKey height medianWeight coins weight fee context payments extraNonce
        hfVersion = some result ↔
      extraNonce.length ≤ txExtraNonceMaxCount ∧
      ∃ base, baseRewardHf19 medianWeight weight = some base ∧ base ≠ 0 ∧
      ∃ produced, producerRewards hfVersion context
        (rewardPartsHf19 base fee context.batchedGovernance) = some produced ∧
      ∃ vout, makeOutputs rules txKey height (payments.map dueReward) = some vout ∧
        result = (
          { version := maxVersionForHf hfVersion
            txKey, extraNonce
            heightKey := true
            serviceNodeWinner := context.blockLeader.key
            vout
            outputUnlockTimes := vout.map (fun _ => height + minedMoneyUnlockWindow)
            unlockTime := height + minedMoneyUnlockWindow
            height }, totalAmount produced) := by
  have hten : hfVersion ≥ Hf.hf10Bulletproofs := UInt8.le_trans (by decide) hfrom
  have hnot : ¬hfVersion < Hf.hf19RewardBatching := UInt8.not_lt.mpr hfrom
  have hons : ¬hfVersion ≤ Hf.hf15Ons :=
    fun hle => absurd (UInt8.le_trans hfrom hle) (by decide)
  have hgovernance (parts : BlockRewardParts) :
      governanceRewards rules hfVersion coins parts = some [] := by
    unfold governanceRewards
    rw [if_neg hcoins, if_pos hten, if_neg hnot, ite_self]
  have hexpected (parts : BlockRewardParts) (rewards due : List RewardPayout) :
      expectedAmount hfVersion parts rewards due = totalAmount due := by
    unfold expectedAmount
    rw [if_neg hons, if_neg hnot]
  have hdue : payments.map (fun payment => (⟨.snode, payment.1, toCoin payment.2⟩ :
      RewardPayout)) = payments.map dueReward := rfl
  unfold constructMinerTx
  rw [getOxenBlockReward_hf19 hfrom huntil hcoins]
  simp only [hgovernance, hexpected, hdue, decide_eq_true hfrom, if_true, nil_append,
    Option.bind_eq_bind, Option.bind_some, true_or, guard_true, hcoins, ne_eq, not_false_eq_true,
    decide_true]
  simp only [Option.bind_eq_some_iff, Option.guard_eq_some']
  constructor
  · rintro ⟨-, -, -, hnonce, parts, ⟨base, hbase, hparts⟩, produced, hproduced, -, -, vout, hvout,
      -, -, hresult⟩
    split at hparts
    · cases hparts
    rename_i hne
    cases hparts
    exact ⟨hnonce, base, hbase, hne, produced, hproduced, vout, hvout,
      (Option.some.inj hresult).symm⟩
  · rintro ⟨hnonce, base, hbase, hne, produced, hproduced, vout, hvout, rfl⟩
    exact ⟨(), huntil, (), hnonce, _, ⟨base, hbase, if_neg hne⟩, produced, hproduced, (), rfl, vout,
      hvout, (), rfl, rfl⟩

end Xeqm.Coinbase
