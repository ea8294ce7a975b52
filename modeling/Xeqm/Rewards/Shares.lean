import Xeqm.Rewards.AddBlock
import Xeqm.ServiceNodes.Stakes

/-!
# The split of a block reward

The reward of a block is divided among the payable nodes, and the part of a node
among its operator and contributors, with a division that rounds down at each
level. So the payments of a block add up to at most what the block credits, if the
contributions to a node do not exceed its staking requirement.
-/

namespace Xeqm.Rewards

open Cryptonote Lib ServiceNodes RewardMoney List

/-- The contributions to a node are at most its requirement, and its fee at most
everything. -/
structure FairShares (info : ServiceNodeInfo) : Prop where
  contributed_le :
    (info.contributors.map (fun c => c.amount.toNat)).sum ≤ info.stakingRequirement.toNat
  fee_le : info.portionsForOperator ≤ stakingPortions

variable {info : ServiceNodeInfo} {payments payments' : BlockPayments}

/-- A node whose books are in order has fair shares. -/
theorem fairShares_of_soundStakes (h : SoundStakes info)
    (hfee : info.portionsForOperator ≤ stakingPortions) : FairShares info where
  contributed_le := by
    have hle : (info.contributors.map (fun c => c.amount.toNat)).sum ≤
        (info.contributors.map (fun c => c.reserved.toNat)).sum :=
      sum_le_sum fun c hc => UInt64.le_iff_toNat_le.mp (h.amount_le c hc)
    have htotal := UInt64.le_iff_toNat_le.mp h.total_le
    rw [h.reserved] at htotal
    exact hle.trans htotal
  fee_le := hfee

/-- What the payments of a block come to, in thousandths. -/
def net (payments : BlockPayments) : ℤ :=
  (payments.map (fun entry => entry.2.amount.milli - entry.2.liquidation.milli)).sum

theorem net_addPayment (address : PayoutAddress) (amount liquidation : RewardMoney)
    (payments : BlockPayments) :
    net (addPayment address amount liquidation payments) =
      net payments + (amount.milli - liquidation.milli) := by
  induction payments with
  | nil => simp [addPayment, net]
  | cons _ _ ih =>
    simp only [addPayment]
    split
    · simp only [net, map_cons, sum_cons, milli_add]
      ring
    · simp only [net, map_cons, sum_cons] at ih ⊢
      rw [ih]
      ring

/-- What holds of each payment, if it holds of a new one and does not end when it is added to. -/
theorem forall_addPayment {P : PayoutAddress × SqlPayment → Prop} {address : PayoutAddress}
    {amount liquidation : RewardMoney} {payments : BlockPayments}
    (h : ∀ entry ∈ payments, P entry)
    (hnew : P (address, ⟨({} : RewardMoney).add amount, ({} : RewardMoney).add liquidation⟩))
    (hadd : ∀ payment, P (address, payment) →
      P (address, ⟨payment.amount.add amount, payment.liquidation.add liquidation⟩)) :
    ∀ entry ∈ addPayment address amount liquidation payments, P entry := by
  induction payments with
  | nil => exact forall_mem_singleton.mpr hnew
  | cons first rest ih =>
    obtain ⟨hfirst, hrest⟩ := forall_mem_cons.mp h
    simp only [addPayment]
    split
    · rename_i heq
      obtain ⟨_, payment⟩ := first
      subst heq
      exact forall_mem_cons.mpr ⟨hadd payment hfirst, hrest⟩
    · exact forall_mem_cons.mpr ⟨hfirst, ih hrest⟩

/-- An amount that is not added is zero. -/
theorem net_addPositive (address : PayoutAddress) {amount : RewardMoney} (hnormal : amount.Normal)
    (payments : BlockPayments) :
    net (addPositive address amount payments) = net payments + amount.milli := by
  unfold addPositive
  split
  · rw [net_addPayment, milli_zero, sub_zero]
  · rename_i hzero
    obtain ⟨hatomic, hsub, _⟩ := hnormal
    simp only [RewardMoney.lt, Bool.or_eq_true, Bool.and_eq_true, decide_eq_true_eq] at hzero
    simp only [milli, batchRewardFactor]
    omega

theorem mul128Div64_le (a b c : UInt64) :
    (mul128Div64 a b c).toNat ≤ a.toNat * b.toNat / c.toNat := by
  exact Nat.mod_le _ _

/-- The fee is at most the amount it is taken from. -/
theorem operatorFee_le (hfair : FairShares info) (amount : UInt64) :
    (operatorFee info amount).milli ≤ amount.toNat := by
  rw [operatorFee, milli_fromIntermediate]
  have hportion := UInt64.le_iff_toNat_le.mp hfair.fee_le
  have hpos : 0 < stakingPortions.toNat := by decide
  have hle : info.portionsForOperator.toNat * amount.toNat / stakingPortions.toNat ≤
      amount.toNat := by
    refine Nat.div_le_of_le_mul ?_
    exact Nat.mul_le_mul_right _ hportion
  exact_mod_cast (mul128Div64_le _ _ _).trans hle

/-- The shares of contributors come to at most their part of the amount. -/
theorem sum_contributorReward_le {info : ServiceNodeInfo} {postFee : UInt64}
    {contributors : List Contributor} :
    (contributors.map (fun c => (contributorReward info postFee c).milli)).sum ≤
      (((contributors.map (fun c => c.amount.toNat)).sum * postFee.toNat /
        info.stakingRequirement.toNat : ℕ) : ℤ) := by
  induction contributors with
  | nil => simp
  | cons c rest ih =>
    simp only [map_cons, sum_cons]
    have hshare : (contributorReward info postFee c).milli ≤
        ((c.amount.toNat * postFee.toNat / info.stakingRequirement.toNat : ℕ) : ℤ) := by
      rw [contributorReward, milli_fromIntermediate]
      exact_mod_cast mul128Div64_le _ _ _
    have hsum := @Nat.div_add_div_le_add_div (c.amount.toNat * postFee.toNat)
      ((rest.map (fun c => c.amount.toNat)).sum * postFee.toNat) info.stakingRequirement.toNat
    rw [← Nat.add_mul] at hsum
    have hsum' : ((c.amount.toNat * postFee.toNat / info.stakingRequirement.toNat : ℕ) : ℤ) +
        (((rest.map (fun c => c.amount.toNat)).sum * postFee.toNat /
          info.stakingRequirement.toNat : ℕ) : ℤ) ≤
        (((c.amount.toNat + (rest.map (fun c => c.amount.toNat)).sum) * postFee.toNat /
          info.stakingRequirement.toNat : ℕ) : ℤ) := by
      exact_mod_cast hsum
    linarith

/-- The shares of all contributors come to at most the amount after the fee. -/
theorem contributorRewards_le (hfair : FairShares info) (postFee : UInt64) :
    (info.contributors.map (fun c => (contributorReward info postFee c).milli)).sum ≤
      postFee.toNat := by
  refine sum_contributorReward_le.trans ?_
  rcases Nat.eq_zero_or_pos info.stakingRequirement.toNat with hzero | hpos
  · rw [hzero, Nat.div_zero]
    exact Int.natCast_nonneg _
  · have hle : (info.contributors.map (fun c => c.amount.toNat)).sum * postFee.toNat /
        info.stakingRequirement.toNat ≤ postFee.toNat := by
      refine Nat.div_le_of_le_mul ?_
      exact Nat.mul_le_mul_right _ hfair.contributed_le
    exact_mod_cast hle

theorem net_contributors (info : ServiceNodeInfo) (useEth : Bool) (postFee : UInt64)
    (contributors : List Contributor) (payments : BlockPayments) :
    net (contributors.foldl
      (fun payments contributor =>
        addPositive (contributorRecipient useEth contributor)
          (contributorReward info postFee contributor) payments) payments) =
      net payments +
        (contributors.map (fun c => (contributorReward info postFee c).milli)).sum := by
  induction contributors generalizing payments with
  | nil => simp
  | cons c _ ih =>
    have hnormal : (contributorReward info postFee c).Normal := normal_fromIntermediate _
    rw [foldl_cons, ih, net_addPositive _ hnormal]
    simp only [map_cons, sum_cons]
    ring

/-- `add_rewards` adds at most what it distributes. -/
theorem addRewards_net_le {nettype : NetworkType} {hfVersion : Hf} {distribution : RewardMoney}
    (hfair : FairShares info) (hnormal : distribution.Normal)
    (hrun : addRewards nettype hfVersion distribution info payments = .ok payments') :
    net payments' ≤ net payments + distribution.milli := by
  unfold addRewards at hrun
  split at hrun
  · cases hrun
  rename_i milliAmount hmilli
  have hamount := toIntermediate_spec hnormal hmilli
  have hfee := operatorFee_le hfair milliAmount
  have hfeeNormal : (operatorFee info milliAmount).Normal := normal_fromIntermediate _
  simp only at hrun
  split at hrun
  · cases hrun
  rename_i postFee hpost
  have hafter := toIntermediate_spec (normal_sub (hfee.trans_eq hamount)) hpost
  rw [milli_sub] at hafter
  cases hrun
  rw [net_contributors, net_addPositive _ hfeeNormal]
  have hshares := contributorRewards_le hfair postFee
  linarith

variable {state : SnState}

theorem infoAt_eq_ok {key : PublicKey} (h : infoAt state key = .ok info) :
    state.infos.get? key = some info := by
  unfold infoAt at h
  split at h
  · rename_i hinfo
    cases h
    exact hinfo
  · cases h

variable {rules : RewardRules} {block : Block}

/-- The payable nodes get at most their number of parts. -/
theorem payNodes_net_le {perNode : RewardMoney} {keys : List PublicKey}
    (hfair : ∀ key info, state.infos.get? key = some info → FairShares info)
    (hnormal : perNode.Normal)
    (hrun : payNodes rules block state perNode keys payments = .ok payments') :
    net payments' ≤ net payments + perNode.milli * keys.length := by
  induction keys generalizing payments with
  | nil =>
    cases hrun
    simp
  | cons key rest ih =>
    obtain ⟨info, hinfo, hrun⟩ := except_bind_eq_ok_iff.mp hrun
    obtain ⟨paid, hadd, hrun⟩ := except_bind_eq_ok_iff.mp hrun
    have hfirst := addRewards_net_le (hfair key info (infoAt_eq_ok hinfo)) hnormal hadd
    have hrest := ih hrun
    push_cast [length_cons]
    linarith

/-- Before ETH the fees go to the producer, or nobody produced the block and they are dropped, and
then the governance wallet is paid. -/
theorem feesAndGovernance_cases (hrun : feesAndGovernance rules block state = .ok payments) :
    snRewardHf19 ≤ block.reward.toNat ∧ ∃ fees,
      (fees = [] ∨ ∃ info, infoAt state state.blockProducer = .ok info ∧
        addRewards rules.net.nettype block.majorVersion
          ((fromCoin block.reward.toNat).sub (fromCoin snRewardHf19)) info [] = .ok fees) ∧
      payments = if rules.net.nettype = .fakechain then fees
        else addPayment (.oxen (rules.governanceWallet block.majorVersion))
          (fromCoin (governanceRewardFormula block.majorVersion)) {} fees := by
  simp only [feesAndGovernance] at hrun
  split at hrun
  · cases hrun
  rename_i henough
  constructor
  · by_contra hlt
    refine henough ?_
    rw [RewardMoney.lt, Bool.or_eq_true]
    exact .inl (decide_eq_true (not_le.mp hlt))
  have hpaid {fees : BlockPayments} (hrun : (if rules.net.nettype = .fakechain then .ok fees
      else .ok (addPayment (.oxen (rules.governanceWallet block.majorVersion))
        (fromCoin (governanceRewardFormula block.majorVersion)) {} fees)) =
          (.ok payments : Except DbFault BlockPayments)) :=
    Except.ok.inj (hrun.symm.trans (apply_ite Except.ok _ _ _).symm)
  split at hrun
  · obtain ⟨info, hinfo, hrun⟩ := except_bind_eq_ok_iff.mp hrun
    obtain ⟨fees, hadd, hrun⟩ := except_bind_eq_ok_iff.mp hrun
    exact ⟨fees, .inr ⟨info, hinfo, hadd⟩, hpaid hrun⟩
  · exact ⟨[], .inl rfl, hpaid hrun⟩

/-- What goes to the governance wallet with a block. -/
def governanceOf (rules : RewardRules) (block : Block) : ℤ :=
  if block.majorVersion < ethBls ∧ rules.net.nettype ≠ .fakechain then
    governanceRewardFormula block.majorVersion
  else 0

section

variable (hfair : ∀ key info, state.infos.get? key = some info → FairShares info)
  {payments : BlockPayments}

include hfair

/-- The fees of a block go to its producer, at most what exceeds the base reward. -/
theorem feesAndGovernance_net_le (hbefore : block.majorVersion < ethBls)
    (hrun : feesAndGovernance rules block state = .ok payments) :
    net payments ≤ (block.reward.toNat - snRewardHf19 + governanceOf rules block) * 1000 := by
  obtain ⟨hle, fees, hfees, rfl⟩ := feesAndGovernance_cases hrun
  have hnormal : ((fromCoin block.reward.toNat).sub (fromCoin snRewardHf19)).Normal := by
    refine normal_sub ?_
    simp only [milli_fromCoin]
    omega
  have hnet : net fees ≤ (block.reward.toNat - snRewardHf19) * 1000 := by
    rcases hfees with rfl | ⟨info, hinfo, hadd⟩
    · simpa [net] using hle
    · have hadded := addRewards_net_le (hfair _ info (infoAt_eq_ok hinfo)) hnormal hadd
      simpa [net, sub_mul] using hadded
  unfold governanceOf
  by_cases hfake : rules.net.nettype = .fakechain
  · rw [if_pos hfake, if_neg (fun h => h.2 hfake)]
    linarith
  · rw [if_neg hfake, if_pos ⟨hbefore, hfake⟩, net_addPayment, milli_fromCoin, milli_zero]
    linarith

/-- What the payments of a block come to is at most its reward, with the governance
reward. -/
theorem rewardPayments_net_le {payable : List PublicKey}
    (hrun : rewardPayments rules block state payable = .ok payments) :
    net payments ≤ (block.reward.toNat + governanceOf rules block) * 1000 := by
  simp only [rewardPayments] at hrun
  split at hrun
  · cases hrun
  -- the part that is divided among the nodes
  have hdivided {fees : BlockPayments} {reward : ℤ} (hreward : 0 ≤ reward)
      (hrun : payNodes rules block state
        (if payable = [] then {} else (fromCoin reward).div payable.length) payable fees =
          .ok payments) : net payments ≤ net fees + reward * 1000 := by
    by_cases hnone : payable = []
    · subst hnone
      cases hrun
      linarith
    · have hpos : (0 : ℤ) < payable.length := by exact_mod_cast length_pos_of_ne_nil hnone
      rw [if_neg hnone] at hrun
      have hpaid := payNodes_net_le hfair ((normal_fromCoin hreward).div hpos) hrun
      have hparts := milli_div_le (normal_fromCoin hreward) hpos
      rw [milli_fromCoin] at hparts
      linarith
  by_cases hbefore : block.majorVersion < ethBls
  · simp only [if_pos hbefore] at hrun
    obtain ⟨fees, hfees, hrun⟩ := except_bind_eq_ok_iff.mp hrun
    have hle := feesAndGovernance_net_le hfair hbefore hfees
    have hpaid := hdivided (by decide) hrun
    linarith
  · simp only [if_neg hbefore] at hrun
    have hpaid := @hdivided [] _ (Int.natCast_nonneg _) hrun
    have hnil : net [] = 0 := rfl
    have hgovernance : governanceOf rules block = 0 := if_neg fun h => hbefore h.1
    linarith

end

/-- What comes due of delayed payments at a height, less what is liquidated. -/
def dueDelayed (payoutHeight : ℕ) (db : RewardsDb) : ℤ :=
  ((db.delayedPayments.filter (fun p => p.payoutHeight = payoutHeight)).map
    (fun p => (p.amount.toNat : ℤ) - p.liquidationAmount.toNat)).sum

theorem getDelayedPayments_net (payoutHeight : ℕ) (db : RewardsDb) :
    net (getDelayedPayments payoutHeight db) = dueDelayed payoutHeight db * 1000 := by
  have hfold (due : List DelayedPayment) (payments : BlockPayments) :
      net (due.foldl (fun payments p => addPayment (.eth p.ethAddress) (.fromCoin p.amount.toNat)
        (.fromCoin p.liquidationAmount.toNat) payments) payments) =
        net payments +
          (due.map (fun p => (p.amount.toNat : ℤ) - p.liquidationAmount.toNat)).sum * 1000 := by
    induction due generalizing payments with
    | nil => simp
    | cons _ _ ih =>
      rw [foldl_cons, ih, net_addPayment]
      simp only [milli_fromCoin, map_cons, sum_cons]
      ring
  rw [getDelayedPayments, hfold, dueDelayed]
  simp [net]

end Xeqm.Rewards
