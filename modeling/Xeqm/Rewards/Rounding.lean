import Xeqm.Rewards.Accounting

/-!
# What rounding does to the rewards of a block

From the ETH fixup on every address gets its share of a block in whole units. Half a unit is rounded
up, address by address, so whether more is written than the reward of the block depends on how many
addresses have a share with a fraction of at least half a unit.
-/

namespace Xeqm.Rewards

open Cryptonote Lib ServiceNodes RewardMoney List

/-- The shares of a node's part of the reward, in thousandths: the fee of the operator, and what is
left by contribution. -/
def nodeShares (nettype : NetworkType) (hfVersion : Hf) (part : UInt64) (info : ServiceNodeInfo) :
    List (PayoutAddress × RewardMoney) :=
  let useEth := usesEthAddress nettype hfVersion info
  let postFee := part - mul128Div64 info.portionsForOperator part stakingPortions
  (feeRecipient useEth info, operatorFee info part) ::
    info.contributors.map (fun contributor =>
      (contributorRecipient useEth contributor, contributorReward info postFee contributor))

/-- The shares of a block reward, of which each payable node gets the same part. -/
def blockShares (rules : RewardRules) (block : Block) (state : SnState) (payable : List PublicKey) :
    List (PayoutAddress × RewardMoney) :=
  (payable.filterMap state.infos.get?).flatMap (nodeShares rules.net.nettype block.majorVersion
    (UInt64.ofNat (block.reward.toNat * 1000 / payable.length)))

/-- Adds shares to payments, by address. -/
def collect (shares : List (PayoutAddress × RewardMoney)) (payments : BlockPayments) :
    BlockPayments :=
  shares.foldl (fun payments share => addPositive share.1 share.2 payments) payments

/-- A payment of an amount of which nothing is liquidated, before ETH to an address of this chain. -/
structure IsReward (hfVersion : Hf) (entry : PayoutAddress × SqlPayment) : Prop where
  normal : entry.2.amount.Normal
  liquidation : entry.2.liquidation = {}
  oxen : hfVersion < Hf.hf21Eth → ∃ address, entry.1 = .oxen address

section

variable {nettype : NetworkType} {hfVersion : Hf} {distribution amount : RewardMoney}
  {info : ServiceNodeInfo} {payments payments' : BlockPayments} {address : PayoutAddress}

theorem normal_add {a b : RewardMoney} (ha : a.Normal) (hb : b.Normal) : (a.add b).Normal := by
  refine (canonical_add a b).normal ?_
  obtain ⟨hatomic, hsub, -⟩ := ha
  obtain ⟨hatomic', hsub', -⟩ := hb
  rw [milli_add]
  simp only [milli, batchRewardFactor]
  omega

theorem isReward_addPayment (h : ∀ entry ∈ payments, IsReward hfVersion entry)
    (hnormal : amount.Normal)
    (hoxen : hfVersion < Hf.hf21Eth → ∃ recipient, address = .oxen recipient) :
    ∀ entry ∈ addPayment address amount {} payments, IsReward hfVersion entry := by
  refine forall_addPayment h ⟨normal_add ⟨le_refl _, le_refl _, by decide⟩ hnormal, rfl, hoxen⟩
    fun payment hpayment => ⟨normal_add hpayment.normal hnormal, ?_, hpayment.oxen⟩
  rw [hpayment.liquidation]
  rfl

theorem isReward_addPositive (h : ∀ entry ∈ payments, IsReward hfVersion entry)
    (hnormal : amount.Normal)
    (hoxen : hfVersion < Hf.hf21Eth → ∃ recipient, address = .oxen recipient) :
    ∀ entry ∈ addPositive address amount payments, IsReward hfVersion entry := by
  unfold addPositive
  split
  · exact isReward_addPayment h hnormal hoxen
  · exact h

theorem isReward_addRewards (h : ∀ entry ∈ payments, IsReward hfVersion entry)
    (hrun : addRewards nettype hfVersion distribution info payments = .ok payments') :
    ∀ entry ∈ payments', IsReward hfVersion entry := by
  have hbefore (hlt : hfVersion < Hf.hf21Eth) : usesEthAddress nettype hfVersion info = false := by
    simp [usesEthAddress, UInt8.not_le.mpr hlt]
  unfold addRewards at hrun
  split at hrun
  · cases hrun
  dsimp only at hrun
  split at hrun
  · cases hrun
  cases hrun
  refine foldlRecOn _ _ (motive := fun payments => ∀ entry ∈ payments, IsReward hfVersion entry)
    ?_ fun paid hpaid c _ => ?_
  · refine isReward_addPositive h (normal_fromIntermediate _) fun hlt => ?_
    exact ⟨info.operatorAddress, by simp [feeRecipient, hbefore hlt]⟩
  · refine isReward_addPositive hpaid (normal_fromIntermediate _) fun hlt => ?_
    exact ⟨c.address, by simp [contributorRecipient, hbefore hlt]⟩

/-- What is written for a reward: its whole units, and one more for half a unit. -/
theorem toDbAmount_reward (hhf : Hf.hf22EthFixup ≤ hfVersion) {entry : PayoutAddress × SqlPayment}
    (h : IsReward hfVersion entry) :
    (entry.2.amount.sub entry.2.liquidation).toDbAmount hfVersion =
      entry.2.amount.atomic + if 500 ≤ entry.2.amount.subatomic then 1 else 0 := by
  obtain ⟨hnormal, hnone, -⟩ := h
  have hsame : entry.2.amount.sub entry.2.liquidation = entry.2.amount := by
    refine Canonical.eq (canonical_add _ _) hnormal.canonical ?_
    rw [milli_sub, hnone, milli_zero, sub_zero]
  have hsub := hnormal.subatomic
  rw [hsame, toDbAmount, if_pos hhf, RewardMoney.round, batchRewardFactor]
  split_ifs <;> simp only <;> omega

/-- `add_rewards` collects the shares of a node. -/
theorem addRewards_collect (hnormal : distribution.Normal)
    (hrun : addRewards nettype hfVersion distribution info payments = .ok payments') :
    payments' = collect
      (nodeShares nettype hfVersion (UInt64.ofNat distribution.milli.toNat) info) payments := by
  unfold addRewards at hrun
  split at hrun
  · cases hrun
  rename_i part hpart
  have hpart' := toIntermediate_spec hnormal hpart
  dsimp only at hrun
  split at hrun
  · cases hrun
  rename_i postFee hpost
  have hafter : (distribution.sub (operatorFee info part)).Normal := by
    have hsign : (distribution.sub (operatorFee info part)).negative = false := by
      by_contra hneg
      rw [toIntermediate, if_pos (by simpa using hneg)] at hpost
      cases hpost
    have hcanonical : (distribution.sub (operatorFee info part)).Canonical := canonical_add _ _
    refine hcanonical.normal ?_
    simp only [negative, Bool.or_eq_false_iff, decide_eq_false_iff_not] at hsign
    simp only [milli, batchRewardFactor]
    omega
  have hpost' := toIntermediate_spec hafter hpost
  rw [milli_sub, operatorFee, milli_fromIntermediate, ← hpart'] at hpost'
  have hrest : postFee = part - mul128Div64 info.portionsForOperator part stakingPortions := by
    rw [← UInt64.toNat_inj, UInt64.toNat_sub_of_le]
    · omega
    · rw [UInt64.le_iff_toNat_le]
      omega
  cases hrun
  rw [← hpart', Int.toNat_natCast, UInt64.ofNat_toNat, collect, nodeShares, foldl_cons, foldl_map,
    hrest]

end

section

variable {rules : RewardRules} {block : Block} {state : SnState} {payments payments' : BlockPayments}
  {payable : List PublicKey} {db db' : RewardsDb}

theorem isReward_payNodes {perNode : RewardMoney}
    (h : ∀ entry ∈ payments, IsReward block.majorVersion entry)
    (hrun : payNodes rules block state perNode payable payments = .ok payments') :
    ∀ entry ∈ payments', IsReward block.majorVersion entry := by
  induction payable generalizing payments with
  | nil =>
    cases hrun
    exact h
  | cons key rest ih =>
    obtain ⟨info, -, hrun⟩ := except_bind_eq_ok_iff.mp hrun
    obtain ⟨paid, hadd, hrun⟩ := except_bind_eq_ok_iff.mp hrun
    exact ih (isReward_addRewards h hadd) hrun

theorem isReward_feesAndGovernance (hrun : feesAndGovernance rules block state = .ok payments) :
    ∀ entry ∈ payments, IsReward block.majorVersion entry := by
  obtain ⟨-, fees, hfees, rfl⟩ := feesAndGovernance_cases hrun
  have hrewards : ∀ entry ∈ fees, IsReward block.majorVersion entry := by
    rcases hfees with rfl | ⟨info, -, hadd⟩
    · simp
    · exact isReward_addRewards (by simp) hadd
  split
  · exact hrewards
  · refine isReward_addPayment hrewards (normal_fromCoin ?_) fun _ => ⟨_, rfl⟩
    unfold governanceRewardFormula
    split <;> simp [foundationRewardHf19]

/-- All that `reward_handler` collects are rewards. -/
theorem isReward_rewardPayments (hrun : rewardPayments rules block state payable = .ok payments) :
    ∀ entry ∈ payments, IsReward block.majorVersion entry := by
  simp only [rewardPayments] at hrun
  split at hrun
  · cases hrun
  split at hrun
  · obtain ⟨fees, hfees, hrun⟩ := except_bind_eq_ok_iff.mp hrun
    exact isReward_payNodes (isReward_feesAndGovernance hfees) hrun
  · exact isReward_payNodes (by simp) hrun

theorem payNodes_collect {perNode : RewardMoney} (hnormal : perNode.Normal)
    (hrun : payNodes rules block state perNode payable payments = .ok payments') :
    payments' = collect ((payable.filterMap state.infos.get?).flatMap
      (nodeShares rules.net.nettype block.majorVersion (UInt64.ofNat perNode.milli.toNat)))
      payments := by
  induction payable generalizing payments with
  | nil =>
    cases hrun
    rfl
  | cons key rest ih =>
    obtain ⟨info, hinfo, hrun⟩ := except_bind_eq_ok_iff.mp hrun
    obtain ⟨paid, hadd, hrun⟩ := except_bind_eq_ok_iff.mp hrun
    rw [ih hrun, addRewards_collect hnormal hadd, filterMap_cons_some (infoAt_eq_ok hinfo),
      flatMap_cons, collect, collect, collect, foldl_append]

/-- From ETH on the payments of a block are its shares, by address. -/
theorem rewardPayments_collect (hhf : ethBls ≤ block.majorVersion)
    (hrun : rewardPayments rules block state payable = .ok payments) :
    payments = collect (blockShares rules block state payable) [] := by
  simp only [rewardPayments, if_neg (UInt8.not_lt.mpr hhf)] at hrun
  split at hrun
  · cases hrun
  by_cases hnone : payable = []
  · subst hnone
    cases hrun
    rfl
  have hpos : (0 : ℤ) < payable.length := by exact_mod_cast length_pos_of_ne_nil hnone
  have hreward := normal_fromCoin (Int.natCast_nonneg block.reward.toNat)
  rw [if_neg hnone] at hrun
  rw [payNodes_collect (hreward.div hpos) hrun, hreward.milli_div hpos, milli_fromCoin, blockShares]
  norm_cast

end

/-- Two nodes whose operators take all of the reward. -/
def twoOperators : SnState :=
  ⟨(KeyMap.set OrdSet.empty 1
      { portionsForOperator := stakingPortions, operatorEthereumAddress := 1 }).set 2
      { portionsForOperator := stakingPortions, operatorEthereumAddress := 2 }, 0⟩

/-- A block after the ETH fixup. -/
def fixupBlock (reward : UInt64) : Block :=
  { majorVersion := Hf.hf22EthFixup, height := 2, hash := 0, reward }

end Xeqm.Rewards
