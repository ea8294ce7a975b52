import Xeqm.ServiceNodes.Contribution
import Mathlib.Algebra.Order.BigOperators.Group.List

/-!
# Reservations and stakes of a node

The books of a node between its registration and its last contribution: the
totals are the sums of what the contributors hold, no slot is handed out twice,
and the smallest accepted stake is such that the last free slot always takes
the whole rest of the requirement. So a node that is not full can be filled.
-/

namespace Xeqm.ServiceNodes

open Cryptonote Lib List
open UInt64 (le_iff_toNat_le lt_iff_toNat_lt toNat_sub_of_le toNat_inj toNat_zero toNat_add
  toNat_div)

/-- A contributor with a reservation still to fill. -/
def Contributor.isUnfilled (c : Contributor) : Bool := c.amount < c.reserved

/-- The stakes of a node and its reservations still to fill. -/
def slotsTaken (info : ServiceNodeInfo) : ℕ :=
  info.totalNumLockedContributions + info.contributors.countP Contributor.isUnfilled

/-- The books of a node are in order. -/
structure SoundStakes (info : ServiceNodeInfo) : Prop where
  contributed : info.totalContributed.toNat =
    (info.contributors.map (fun c => c.amount.toNat)).sum
  reserved : info.totalReserved.toNat = (info.contributors.map (fun c => c.reserved.toNat)).sum
  amount_le : ∀ c ∈ info.contributors, c.amount ≤ c.reserved
  total_le : info.totalReserved ≤ info.stakingRequirement
  addresses : (info.contributors.map Contributor.address).Nodup
  slots_le : slotsTaken info ≤ maxContributorsHf19
  full : slotsTaken info = maxContributorsHf19 → info.totalReserved = info.stakingRequirement
  /-- The largest accepted stake, 101 percent of what is free, is computed without overflow. -/
  room : info.stakingRequirement.toNat * 101 < 2 ^ 64

/-! ## The scan over the contributors -/

/-- Contributors other than the staker only count as reservations. -/
private theorem scanContributors_others {address : AccountPublicAddress} {l : List Contributor}
    (hother : ∀ c ∈ l, c.address ≠ address) (i : ℕ) (slots : StakerSlots) :
    scanContributors address i l slots =
      { slots with
        otherReservations := slots.otherReservations + l.countP Contributor.isUnfilled } := by
  induction l generalizing i slots with
  | nil => rfl
  | cons c rest ih =>
    have hc : c.address ≠ address := hother c mem_cons_self
    have hrest : ∀ d ∈ rest, d.address ≠ address :=
      fun d hd => hother d (mem_cons_of_mem c hd)
    rw [scanContributors, if_neg hc, ih hrest, countP_cons]
    by_cases hunfilled : c.amount < c.reserved
    · simp [hunfilled, Contributor.isUnfilled]
      omega
    · simp [hunfilled, Contributor.isUnfilled]

private theorem scanContributors_append (address : AccountPublicAddress)
    (l l' : List Contributor) (i : ℕ) (slots : StakerSlots) :
    scanContributors address i (l ++ l') slots =
      scanContributors address (i + l.length) l' (scanContributors address i l slots) := by
  induction l generalizing i slots with
  | nil => rfl
  | cons c rest ih =>
    rw [cons_append, scanContributors, scanContributors, ih]
    congr 1
    simp only [length_cons]
    omega

variable {info : ServiceNodeInfo}

/-- Where a staker stands: around the place the contributors split, and the scan
has seen what they hold. A new staker gets a place at the end with nothing in it. -/
theorem stakerPlace_spec {address : AccountPublicAddress}
    (haddr : (info.contributors.map Contributor.address).Nodup) :
    ∃ before c after, (stakerPlace info address).1 = before ++ c :: after ∧
      (stakerPlace info address).2 = before.length ∧ c.address = address ∧
      (stakerSlots info address).unfilledReserved =
        (if c.amount < c.reserved then c.reserved - c.amount else 0) ∧
      (stakerSlots info address).otherReservations =
        (before ++ after).countP Contributor.isUnfilled ∧
      (info.contributors = before ++ c :: after ∨
        (info.contributors = before ∧ after = [] ∧ c = { address := address } ∧
          ∀ d ∈ before, d.address ≠ address)) := by
  by_cases hnew : ∀ d ∈ info.contributors, d.address ≠ address
  · have hslots : stakerSlots info address =
        { otherReservations := info.contributors.countP Contributor.isUnfilled } := by
      rw [stakerSlots, scanContributors_others hnew]
      simp
    refine ⟨info.contributors, { address := address }, [], ?_, ?_, rfl, ?_, ?_,
      .inr ⟨rfl, rfl, rfl, hnew⟩⟩
    · simp [stakerPlace, hslots]
    · simp [stakerPlace, hslots]
    · simp [hslots]
    · simp [hslots]
  · obtain ⟨c, hc, hcaddr⟩ : ∃ c ∈ info.contributors, c.address = address := by
      simpa using hnew
    obtain ⟨before, after, hsplit⟩ := append_of_mem hc
    rw [hsplit, map_append, map_cons, nodup_append, nodup_cons] at haddr
    obtain ⟨_, ⟨hafter, _⟩, hdisj⟩ := haddr
    have hbefore : ∀ d ∈ before, d.address ≠ address := by
      intro d hd heq
      exact hdisj _ (mem_map_of_mem hd) _ mem_cons_self (heq.trans hcaddr.symm)
    have hafter' : ∀ d ∈ after, d.address ≠ address := by
      intro d hd heq
      exact hafter (mem_map.mpr ⟨d, hd, heq.trans hcaddr.symm⟩)
    have hslots : stakerSlots info address =
        { position := some before.length
          unfilledReserved := if c.amount < c.reserved then c.reserved - c.amount else 0
          otherReservations := (before ++ after).countP Contributor.isUnfilled } := by
      rw [stakerSlots, hsplit, scanContributors_append, scanContributors_others hbefore,
        scanContributors, if_pos hcaddr, scanContributors_others hafter', countP_append]
      simp
    exact ⟨before, c, after, by simp [stakerPlace, hslots, hsplit], by simp [stakerPlace, hslots],
      hcaddr, by rw [hslots], by rw [hslots], .inl hsplit⟩

/-- The amounts paid in by a list of contributors. -/
def paidIn (l : List Contributor) : ℕ := (l.map (fun c => c.amount.toNat)).sum

/-- The amounts reserved by a list of contributors. -/
def setAside (l : List Contributor) : ℕ := (l.map (fun c => c.reserved.toNat)).sum

/-- The number of stakes of a list of contributors. -/
def stakeCount (l : List Contributor) : ℕ := (l.map (fun c => c.lockedContributions.length)).sum

/-- The contributor `c` holds the place of a staker, between `before` and `after`;
the numbers of the node are read off this split. -/
structure StandsAt (info : ServiceNodeInfo) (address : AccountPublicAddress)
    (before : List Contributor) (c : Contributor) (after : List Contributor) : Prop where
  place : stakerPlace info address = (before ++ c :: after, before.length)
  amount_le : c.amount ≤ c.reserved
  others_le : ∀ d ∈ before ++ after, d.amount ≤ d.reserved
  addresses : ((before ++ c :: after).map Contributor.address).Nodup
  unfilled : (stakerSlots info address).unfilledReserved.toNat = c.reserved.toNat - c.amount.toNat
  others : (stakerSlots info address).otherReservations =
    (before ++ after).countP Contributor.isUnfilled
  contributed : info.totalContributed.toNat = paidIn (before ++ after) + c.amount.toNat
  reserved : info.totalReserved.toNat = setAside (before ++ after) + c.reserved.toNat
  stakes : info.totalNumLockedContributions =
    stakeCount (before ++ after) + c.lockedContributions.length
  slots : slotsTaken info = info.totalNumLockedContributions +
    (before ++ after).countP Contributor.isUnfilled + (if c.isUnfilled then 1 else 0)

/-- Every staker has a place in a node whose books are in order. -/
theorem SoundStakes.standsAt (h : SoundStakes info)
    (address : AccountPublicAddress) : ∃ before c after, StandsAt info address before c after := by
  obtain ⟨before, c, after, hplace, hpos, hcaddr, hunfilled, hothers, hcases⟩ :=
    stakerPlace_spec h.addresses
  have hunfilled' (hle : c.amount ≤ c.reserved) :
      (stakerSlots info address).unfilledReserved.toNat = c.reserved.toNat - c.amount.toNat := by
    rw [hunfilled]
    by_cases hlt : c.amount < c.reserved
    · rw [if_pos hlt, toNat_sub_of_le _ _ hle]
    · have hge := le_iff_toNat_le.mp (UInt64.not_lt.mp hlt)
      rw [if_neg hlt]
      simp only [toNat_zero]
      omega
  refine ⟨before, c, after, ?_⟩
  rcases hcases with hlist | ⟨hlist, rfl, rfl, hfresh⟩
  · have hc := h.amount_le c (by simp [hlist])
    refine ⟨Prod.ext hplace hpos, hc, fun d hd => h.amount_le d ?_, hlist ▸ h.addresses,
      hunfilled' hc, hothers, ?_, ?_, ?_, ?_⟩
    · rw [hlist]
      simp only [mem_append, mem_cons] at hd ⊢
      tauto
    · rw [h.contributed, hlist]
      simp [paidIn]
      omega
    · rw [h.reserved, hlist]
      simp [setAside]
      omega
    · simp [ServiceNodeInfo.totalNumLockedContributions, stakeCount, hlist]
      omega
    · simp [slotsTaken, hlist, countP_append, countP_cons]
      omega
  · have hsound := h.amount_le
    rw [hlist] at hsound
    refine ⟨Prod.ext hplace hpos, UInt64.le_refl 0, by simpa using hsound, ?_,
      hunfilled' (UInt64.le_refl 0), hothers, ?_, ?_, ?_, ?_⟩
    · have haddr := h.addresses
      rw [hlist] at haddr
      rw [map_append, nodup_append]
      refine ⟨haddr, by simp, fun a ha b hb heq => ?_⟩
      obtain ⟨d, hd, rfl⟩ := mem_map.mp ha
      exact hfresh d hd (heq.trans (by simpa using hb))
    · rw [h.contributed, hlist]
      simp [paidIn]
    · rw [h.reserved, hlist]
      simp [setAside]
    · simp [ServiceNodeInfo.totalNumLockedContributions, stakeCount, hlist]
    · simp [slotsTaken, hlist, Contributor.isUnfilled]

/-! ## The accepted amounts -/

/-- The sum of unsigned numbers, if it is in range. -/
theorem toNat_sum_of_lt {l : List UInt64} (h : (l.map UInt64.toNat).sum < 2 ^ 64) :
    l.sum.toNat = (l.map UInt64.toNat).sum := by
  induction l with
  | nil => rfl
  | cons a l ih =>
    rw [map_cons, sum_cons] at h
    rw [sum_cons, map_cons, sum_cons, toNat_add, ih (by omega)]
    exact Nat.mod_eq_of_lt h

private theorem uint64_toNat_min (a b : UInt64) : (min a b).toNat = min a.toNat b.toNat := by
  rw [show min a b = if a ≤ b then a else b from rfl]
  split <;> rename_i h <;> rw [le_iff_toNat_le] at h <;> omega

variable {hfVersion : Hf} {requirement reserved : UInt64}

/-- From HF19 on and before the ETH fork the smallest stake is an equal share of
what is free, over the slots that are left. -/
theorem getMinNodeContribution_toNat (hfrom : Hf.hf19RewardBatching ≤ hfVersion)
    (huntil : hfVersion < ethBls) (hle : reserved ≤ requirement)
    {n : ℕ} (hn : n < maxContributorsHf19) :
    (getMinNodeContribution hfVersion requirement reserved n).toNat =
      (requirement.toNat - reserved.toNat) / (maxContributorsHf19 - n) := by
  have hnot11 : ¬ hfVersion < Hf.hf11InfiniteStaking :=
    UInt8.not_lt.mpr (UInt8.le_trans (by decide) hfrom)
  have hnotEth : ¬ hfVersion ≥ ethBls := UInt8.not_le.mpr huntil
  have hslots : (UInt64.ofNat (maxContributorsHf19 - n)).toNat = maxContributorsHf19 - n := by
    apply Nat.mod_eq_of_lt
    simp only [maxContributorsHf19]
    omega
  rw [getMinNodeContribution, if_neg hnot11, if_pos hfrom, if_neg (not_le.mpr hn),
    if_neg hnotEth, toNat_div, toNat_sub_of_le _ _ hle, hslots]

/-- The largest stake is 101 percent of what is free. -/
theorem getMaxNodeContribution_toNat (hfrom : Hf.hf19RewardBatching ≤ hfVersion)
    (hle : reserved ≤ requirement)
    (hroom : requirement.toNat * 101 < 2 ^ 64) :
    (getMaxNodeContribution hfVersion requirement reserved).toNat =
      (requirement.toNat - reserved.toNat) * 101 / 100 := by
  have hpulse : hfVersion ≥ Hf.hf16Pulse := UInt8.le_trans (by decide) hfrom
  have hfit : (requirement.toNat - reserved.toNat) * 101 % 2 ^ 64 =
      (requirement.toNat - reserved.toNat) * 101 := by
    apply Nat.mod_eq_of_lt
    omega
  rw [getMaxNodeContribution, if_pos hpulse, toNat_div, UInt64.toNat_mul, toNat_sub_of_le _ _ hle]
  simp only [UInt64.reduceToNat]
  rw [hfit]

variable {stake : StakingComponents}

section Credit

variable {info : ServiceNodeInfo} {address : AccountPublicAddress}
  {before after : List Contributor} {c : Contributor}

/-- A place never holds more than the node has reserved. -/
theorem StandsAt.reserved_le (hs : StandsAt info address before c after) :
    c.reserved.toNat ≤ info.totalReserved.toNat := by
  have := hs.reserved
  omega

/-- The reservations of a node in numbers. -/
theorem StandsAt.bounds (h : SoundStakes info) (hs : StandsAt info address before c after) :
    info.totalReserved.toNat ≤ info.stakingRequirement.toNat ∧
      c.reserved.toNat ≤ info.totalReserved.toNat ∧ c.amount.toNat ≤ c.reserved.toNat ∧
      info.stakingRequirement.toNat * 101 < 2 ^ 64 :=
  ⟨le_iff_toNat_le.mp h.total_le, hs.reserved_le, le_iff_toNat_le.mp hs.amount_le, h.room⟩

/-- What counts of a stake, without wrap-around. -/
theorem StandsAt.creditedAmount_toNat (h : SoundStakes info)
    (hs : StandsAt info address before c after) (transferred : UInt64) :
    (creditedAmount info c transferred).toNat =
      min (c.reserved.toNat + (info.stakingRequirement.toNat - info.totalReserved.toNat) -
        c.amount.toNat) transferred.toNat := by
  obtain ⟨hle, hres, hamount, hroom⟩ := hs.bounds h
  have hsum : (c.reserved + (info.stakingRequirement - info.totalReserved)).toNat =
      c.reserved.toNat + (info.stakingRequirement.toNat - info.totalReserved.toNat) := by
    rw [toNat_add, toNat_sub_of_le _ _ h.total_le]
    apply Nat.mod_eq_of_lt
    omega
  rw [creditedAmount, uint64_toNat_min, toNat_sub_of_le, hsum]
  rw [le_iff_toNat_le, hsum]
  omega

/-- The books after a stake, in numbers: the contributor holds what was credited,
its reservation is filled up to the amount, and the totals follow. -/
theorem StandsAt.credit_spec (h : SoundStakes info) (hs : StandsAt info address before c after)
    (hfrom : Hf.hf19RewardBatching ≤ hfVersion) (stake : StakingComponents) :
    let credited := (creditedAmount info c stake.transferred).toNat
    let c' := creditContributor hfVersion info stake c
    let info' := creditNode hfVersion info stake (before ++ c :: after) before.length c
    info'.contributors = before ++ c' :: after ∧ c'.address = c.address ∧
      c'.lockedContributions = c.lockedContributions ++ stake.lockedContributions ∧
      c'.amount.toNat = c.amount.toNat + credited ∧
      c'.reserved.toNat = max c.reserved.toNat (c.amount.toNat + credited) ∧
      info'.totalContributed.toNat = info.totalContributed.toNat + credited ∧
      info'.totalReserved.toNat + c.reserved.toNat =
        info.totalReserved.toNat + max c.reserved.toNat (c.amount.toNat + credited) ∧
      info'.totalReserved.toNat ≤ info.stakingRequirement.toNat := by
  intro credited c' info'
  have hcredited : credited = _ := hs.creditedAmount_toNat h stake.transferred
  obtain ⟨hle, hres, hamount, hroom⟩ := hs.bounds h
  have hpaid : paidIn (before ++ after) ≤ setAside (before ++ after) :=
    sum_le_sum fun d hd => le_iff_toNat_le.mp (hs.others_le d hd)
  have hcontributed := hs.contributed
  have hreserved := hs.reserved
  have hnew : (c.amount + creditedAmount info c stake.transferred).toNat =
      c.amount.toNat + credited := by
    rw [toNat_add]
    apply Nat.mod_eq_of_lt
    omega
  have hinfinite : hfVersion ≥ Hf.hf11InfiniteStaking := UInt8.le_trans (by decide) hfrom
  refine ⟨by simp [info', c', creditNode], rfl, ?_, hnew, ?_, ?_, ?_, ?_⟩
  · simp [c', creditContributor, hinfinite]
  · simp only [c', creditContributor]
    split <;> rename_i hlt <;> rw [gt_iff_lt, lt_iff_toNat_lt, hnew] at hlt
    · rw [hnew]
      omega
    · omega
  · simp only [info', creditNode]
    rw [toNat_add]
    apply Nat.mod_eq_of_lt
    omega
  all_goals
    simp only [info', creditNode]
    split <;> rename_i hlt
    · have hlt' := hlt
      have hgrow : (c.amount + creditedAmount info c stake.transferred - c.reserved).toNat =
          c.amount.toNat + credited - c.reserved.toNat := by
        rw [toNat_sub_of_le _ _ (UInt64.le_of_lt hlt), hnew]
      rw [toNat_add, hgrow, Nat.mod_eq_of_lt (by omega)]
      omega
    · rw [gt_iff_lt, lt_iff_toNat_lt, hnew] at hlt
      omega

/-- From HF19 on a staker fills a reservation at once, or takes at least the share
of one slot. -/
theorem minContribution_eq (hfrom : Hf.hf19RewardBatching ≤ hfVersion) (info : ServiceNodeInfo)
    (slots : StakerSlots) :
    minContribution hfVersion info slots =
      if slots.unfilledReserved > 0 then slots.unfilledReserved
      else getMinNodeContribution hfVersion info.stakingRequirement info.totalReserved
        (info.totalNumLockedContributions + slots.otherReservations) := by
  have hnot11 : ¬ hfVersion < Hf.hf11InfiniteStaking :=
    UInt8.not_lt.mpr (UInt8.le_trans (by decide) hfrom)
  have hnot16 : ¬ hfVersion < Hf.hf16Pulse := UInt8.not_lt.mpr (UInt8.le_trans (by decide) hfrom)
  simp only [minContribution, hnot11, and_false, if_false, hnot16]

/-- What an accepted stake satisfies from HF19 on. -/
theorem acceptsStake_iff (hfrom : Hf.hf19RewardBatching ≤ hfVersion) :
    acceptsStake hfVersion info stake = true ↔ info.isFullyFunded = false ∧
      stake.lockedContributions.length = 1 ∧
      info.totalNumLockedContributions + (stakerSlots info stake.address).otherReservations + 1 ≤
        maxContributorsHf19 ∧
      minContribution hfVersion info (stakerSlots info stake.address) ≤ stake.transferred ∧
      stake.transferred ≤ maxContribution hfVersion info (stakerSlots info stake.address) := by
  have hpulse : hfVersion ≥ Hf.hf16Pulse := UInt8.le_trans (by decide) hfrom
  simp [acceptsStake, tooManyContributions, hfrom, hpulse, and_assoc]

/-- A stake that meets the minimum leaves its contributor without a reservation to
fill, and fills the node when it takes the last slot. -/
theorem StandsAt.credited_of_min (h : SoundStakes info) (hs : StandsAt info address before c after)
    (hfrom : Hf.hf19RewardBatching ≤ hfVersion) (huntil : hfVersion < ethBls) {transferred : UInt64}
    (hslots : info.totalNumLockedContributions + (stakerSlots info address).otherReservations + 1 ≤
      maxContributorsHf19)
    (hmin : minContribution hfVersion info (stakerSlots info address) ≤ transferred) :
    c.reserved.toNat ≤ c.amount.toNat + (creditedAmount info c transferred).toNat ∧
      (info.totalNumLockedContributions + (stakerSlots info address).otherReservations + 1 =
          maxContributorsHf19 →
        info.stakingRequirement.toNat + c.reserved.toNat ≤
          info.totalReserved.toNat +
            (c.amount.toNat + (creditedAmount info c transferred).toNat)) := by
  have hcredited := hs.creditedAmount_toNat h transferred
  obtain ⟨hle, -, hamount, -⟩ := hs.bounds h
  have hunfilled := hs.unfilled
  have htaken := hs.slots
  rw [← hs.others] at htaken
  rw [minContribution_eq hfrom] at hmin
  split at hmin
  · -- the staker fills a reservation, which was counted as a slot before
    rename_i hpos
    rw [gt_iff_lt, lt_iff_toNat_lt, toNat_zero] at hpos
    rw [le_iff_toNat_le] at hmin
    have hcount : c.isUnfilled = true := by
      simp only [Contributor.isUnfilled, decide_eq_true_eq, lt_iff_toNat_lt]
      omega
    rw [hcount, if_pos rfl] at htaken
    refine ⟨by omega, fun hlast => ?_⟩
    have hfull := toNat_inj.mpr (h.full (htaken.trans hlast))
    omega
  · -- the staker takes a new slot
    rename_i hzero
    rw [gt_iff_lt, lt_iff_toNat_lt, toNat_zero] at hzero
    rw [le_iff_toNat_le, getMinNodeContribution_toNat hfrom huntil h.total_le (by omega)] at hmin
    refine ⟨by omega, fun hlast => ?_⟩
    have hone : maxContributorsHf19 -
        (info.totalNumLockedContributions + (stakerSlots info address).otherReservations) = 1 := by
      omega
    rw [hone, Nat.div_one] at hmin
    omega

end Credit

/-- Two infos agree on everything the books are about. -/
structure SameStakes (info info' : ServiceNodeInfo) : Prop where
  contributors : info'.contributors = info.contributors
  totalContributed : info'.totalContributed = info.totalContributed
  totalReserved : info'.totalReserved = info.totalReserved
  stakingRequirement : info'.stakingRequirement = info.stakingRequirement
  registrationHfVersion : info'.registrationHfVersion = info.registrationHfVersion

theorem SoundStakes.of_sameStakes {info' : ServiceNodeInfo} (h : SoundStakes info)
    (hsame : SameStakes info info') : SoundStakes info' := by
  have hslots : slotsTaken info' = slotsTaken info := by
    simp only [slotsTaken, ServiceNodeInfo.totalNumLockedContributions, hsame.contributors]
  constructor
  all_goals simp only [hslots, hsame.contributors, hsame.totalContributed, hsame.totalReserved,
    hsame.stakingRequirement]
  exacts [h.contributed, h.reserved, h.amount_le, h.total_le, h.addresses, h.slots_le, h.full, h.room]

/-- Crediting an accepted stake keeps the books in order. -/
theorem SoundStakes.credit (h : SoundStakes info)
    (hfrom : Hf.hf19RewardBatching ≤ hfVersion) (huntil : hfVersion < ethBls)
    (hacc : acceptsStake hfVersion info stake = true) {before after : List Contributor}
    {c : Contributor} (hs : StandsAt info stake.address before c after) :
    SoundStakes (creditNode hfVersion info stake (before ++ c :: after) before.length c) := by
  obtain ⟨_, hone, hslots, hmin, _⟩ := (acceptsStake_iff hfrom).mp hacc
  obtain ⟨hfill, hlast⟩ := hs.credited_of_min h hfrom huntil hslots hmin
  obtain ⟨hlist, haddr, hlocked, hamount, hreserved, hcontributed, htotal, hle⟩ :=
    hs.credit_spec h hfrom stake
  set info' := creditNode hfVersion info stake (before ++ c :: after) before.length c
  set c' := creditContributor hfVersion info stake c
  have hrequirement : info'.stakingRequirement = info.stakingRequirement := rfl
  have hfilled : c'.isUnfilled = false := by
    simp only [Contributor.isUnfilled, decide_eq_false_iff_not, lt_iff_toNat_lt]
    omega
  have htaken : slotsTaken info' = info.totalNumLockedContributions +
      (stakerSlots info stake.address).otherReservations + 1 := by
    have hstakes := hs.stakes
    rw [hs.others]
    simp only [slotsTaken, ServiceNodeInfo.totalNumLockedContributions, hlist, stakeCount,
      map_append, map_cons, sum_append, sum_cons, countP_append,
      countP_cons, hfilled, hlocked, length_append, hone] at hstakes ⊢
    simp only [Bool.false_eq_true, if_false]
    omega
  constructor
  · rw [hcontributed, hs.contributed, hlist]
    simp only [paidIn, map_append, map_cons, sum_append, sum_cons, hamount]
    omega
  · have := hs.reserved
    rw [hlist]
    simp only [setAside, map_append, map_cons, sum_append, sum_cons, hreserved] at this ⊢
    omega
  · intro d hd
    rw [hlist, mem_append, mem_cons] at hd
    rcases hd with hd | rfl | hd
    · exact hs.others_le d (mem_append_left _ hd)
    · rw [le_iff_toNat_le]
      omega
    · exact hs.others_le d (mem_append_right _ hd)
  · rwa [hrequirement, le_iff_toNat_le]
  · have haddrs := hs.addresses
    rw [hlist]
    simpa only [map_append, map_cons, haddr] using haddrs
  · rwa [htaken]
  · intro heq
    have := hlast (htaken.symm.trans heq)
    rw [hrequirement, ← toNat_inj]
    omega
  · rw [hrequirement]
    exact h.room

/-- An accepted stake keeps the books in order. -/
theorem SoundStakes.afterStake (h : SoundStakes info)
    (hfrom : Hf.hf19RewardBatching ≤ hfVersion) (huntil : hfVersion < ethBls)
    (hacc : acceptsStake hfVersion info stake = true) (blockHeight : ℕ) (index : UInt32) :
    SoundStakes (bookStake hfVersion blockHeight index info stake) := by
  obtain ⟨before, c, after, hs⟩ := h.standsAt stake.address
  refine (h.credit hfrom huntil hacc hs).of_sameStakes ?_
  have hget : (before ++ c :: after).getD before.length {} = c := by
    simp
  simp only [bookStake, hs.place, hget]
  exact ⟨rfl, rfl, rfl, rfl, rfl⟩

end Xeqm.ServiceNodes
