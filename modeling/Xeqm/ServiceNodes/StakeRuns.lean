import Xeqm.ServiceNodes.Stakes

/-!
# Stakes over the life of a node

A registration opens the books of a node in order, every later contribution
keeps them so, and nothing else that happens to the list before the ETH fork
touches them. Hence they are in order in every state of the list.
-/

namespace Xeqm.ServiceNodes

open Cryptonote Lib List
open UInt64 (le_iff_toNat_le lt_iff_toNat_lt toNat_sub_of_le toNat_inj toNat_zero toNat_add
  toNat_ofNat')

/-! ## Consequences of books in order -/

/-- The unsigned subtractions on the way of a stake through
`process_contribution_tx`, each as what is subtracted from and what is
subtracted: the scan, the smallest and the largest stake, and the booking. -/
def contributionSubtractions (info : ServiceNodeInfo) (stake : StakingComponents) :
    List (UInt64 × UInt64) :=
  let slots := stakerSlots info stake.address
  let place := stakerPlace info stake.address
  let c := place.1.getD place.2 {}
  let amount := c.amount + creditedAmount info c stake.transferred
  let taken := info.totalNumLockedContributions + slots.otherReservations
  (info.contributors.filter (fun d => d.address = stake.address ∧ d.amount < d.reserved)).map
      (fun d => (d.reserved, d.amount)) ++
    (if taken < maxContributorsHf19 then
      [(UInt64.ofNat maxContributorsHf19, UInt64.ofNat taken)] else []) ++
    [(info.stakingRequirement, info.totalReserved),
      (info.totalReserved, slots.unfilledReserved),
      (info.stakingRequirement, info.totalReserved - slots.unfilledReserved),
      (c.reserved + (info.stakingRequirement - info.totalReserved), c.amount)] ++
    (if amount > c.reserved then [(amount, c.reserved)] else [])

variable {info : ServiceNodeInfo} {before after : List Contributor}

/-- The reservation of a staker is part of what the node has reserved. -/
theorem StandsAt.unfilled_le {address : AccountPublicAddress}
    {c : Contributor} (hs : StandsAt info address before c after) :
    (stakerSlots info address).unfilledReserved ≤ info.totalReserved := by
  have hunfilled := hs.unfilled
  have hres := hs.reserved_le
  rw [le_iff_toNat_le]
  omega

/-- No subtraction wraps around. -/
theorem SoundStakes.subtractions_le (h : SoundStakes info) (stake : StakingComponents) :
    ∀ s ∈ contributionSubtractions info stake, s.2 ≤ s.1 := by
  obtain ⟨before, c, after, hs⟩ := h.standsAt stake.address
  have hget : (before ++ c :: after).getD before.length {} = c := by
    simp
  have htotal := le_iff_toNat_le.mp h.total_le
  intro s hmem
  simp only [contributionSubtractions, hs.place, hget, mem_append] at hmem
  rcases hmem with ((hscan | hslots) | hfixed) | hgrow
  · obtain ⟨d, hd, rfl⟩ := mem_map.mp hscan
    have hlt := (mem_filter.mp hd).2
    simp only [decide_eq_true_eq] at hlt
    exact UInt64.le_of_lt hlt.2
  · split at hslots
    · rename_i hlt
      rw [mem_singleton.mp hslots, le_iff_toNat_le, toNat_ofNat', toNat_ofNat']
      simp only [maxContributorsHf19] at hlt ⊢
      omega
    · simp at hslots
  · simp only [mem_cons, not_mem_nil, or_false] at hfixed
    rcases hfixed with rfl | rfl | rfl | rfl
    · exact h.total_le
    · exact hs.unfilled_le
    · rw [le_iff_toNat_le, toNat_sub_of_le _ _ hs.unfilled_le]
      exact (Nat.sub_le _ _).trans htotal
    · obtain ⟨-, hres, hamount, hroom⟩ := hs.bounds h
      rw [le_iff_toNat_le, toNat_add, toNat_sub_of_le _ _ h.total_le, Nat.mod_eq_of_lt (by omega)]
      exact hamount.trans (Nat.le_add_right _ _)
  · split at hgrow
    · rename_i hlt
      rw [mem_singleton.mp hgrow]
      exact UInt64.le_of_lt hlt
    · simp at hgrow

variable {hfVersion : Hf}

/-- A stake that fills a reservation, or takes all that is free where the staker
has none to fill, is accepted and counts in full. -/
theorem StandsAt.accepts (h : SoundStakes info) (hfrom : Hf.hf19RewardBatching ≤ hfVersion)
    (huntil : hfVersion < ethBls) {stake : StakingComponents}
    {c : Contributor} (hs : StandsAt info stake.address before c after)
    (hopen : info.isFullyFunded = false) (hone : stake.lockedContributions.length = 1)
    (hslots : info.totalNumLockedContributions +
      (stakerSlots info stake.address).otherReservations + 1 ≤ maxContributorsHf19)
    (hamount : stake.transferred.toNat =
      if c.amount < c.reserved then c.reserved.toNat - c.amount.toNat
      else info.stakingRequirement.toNat - info.totalReserved.toNat) (blockHeight : ℕ)
    (index : UInt32) :
    acceptsStake hfVersion info stake = true ∧
      (bookStake hfVersion blockHeight index info stake).totalContributed.toNat =
        info.totalContributed.toNat + stake.transferred.toNat := by
  obtain ⟨hle, hres, hfilled, hroom⟩ := hs.bounds h
  have hunfilled := hs.unfilled
  have hsub := toNat_sub_of_le _ _ hs.unfilled_le
  have hmin : minContribution hfVersion info (stakerSlots info stake.address) ≤
      stake.transferred := by
    rw [minContribution_eq hfrom]
    split <;> rename_i hpos <;>
      rw [gt_iff_lt, lt_iff_toNat_lt, toNat_zero] at hpos <;>
      rw [le_iff_toNat_le, hamount]
    · rw [if_pos (lt_iff_toNat_lt.mpr (by omega)), hunfilled]
    · rw [if_neg (fun hlt => by rw [lt_iff_toNat_lt] at hlt; omega),
        getMinNodeContribution_toNat hfrom huntil h.total_le (by omega)]
      exact Nat.div_le_self _ _
  have hmax : stake.transferred ≤
      maxContribution hfVersion info (stakerSlots info stake.address) := by
    rw [maxContribution, le_iff_toNat_le, getMaxNodeContribution_toNat hfrom
      (le_iff_toNat_le.mpr (by omega)) hroom, hamount, hsub]
    split <;> omega
  refine ⟨(acceptsStake_iff hfrom).mpr ⟨hopen, hone, hslots, hmin, hmax⟩, ?_⟩
  have hget : (before ++ c :: after).getD before.length {} = c := by
    simp
  obtain ⟨_, _, _, _, _, hcontributed, _⟩ := hs.credit_spec h hfrom stake
  simp only [bookStake, hs.place, hget]
  rw [hcontributed, hs.creditedAmount_toNat h, hamount]
  split
  · omega
  · rename_i hge
    omega

/-- What the scan finds out about a contributor. -/
theorem stakerSlots_unfilled (haddr : (info.contributors.map Contributor.address).Nodup)
    {d : Contributor} (hd : d ∈ info.contributors) :
    (stakerSlots info d.address).unfilledReserved =
      if d.amount < d.reserved then d.reserved - d.amount else 0 := by
  obtain ⟨before, c, after, _, _, hcaddr, hunfilled, _, hcases⟩ := stakerPlace_spec haddr
  rcases hcases with hlist | ⟨hlist, _, _, hfresh⟩
  · have hc : c ∈ info.contributors := by
      rw [hlist]
      exact mem_append_right _ mem_cons_self
    rw [hunfilled, inj_on_of_nodup_map haddr hc hd hcaddr]
  · exact absurd rfl (hfresh d (hlist ▸ hd))

/-- Where every reservation is filled, all that is reserved is paid in. -/
theorem SoundStakes.totals_eq (h : SoundStakes info)
    (hall : ∀ c ∈ info.contributors, c.isUnfilled = false) :
    info.totalContributed = info.totalReserved := by
  rw [← toNat_inj, h.contributed, h.reserved]
  congr 1
  apply map_congr_left
  intro c hc
  have hle := le_iff_toNat_le.mp (h.amount_le c hc)
  have hge := hall c hc
  simp only [Contributor.isUnfilled, decide_eq_false_iff_not, lt_iff_toNat_lt] at hge
  omega

/-- A node that is not full can always be filled further: there is a staker and a
positive amount that is accepted from them, and counts in full. -/
theorem SoundStakes.not_stuck (h : SoundStakes info) (hopen : info.isFullyFunded = false)
    (hfrom : Hf.hf19RewardBatching ≤ hfVersion) (huntil : hfVersion < ethBls) :
    ∃ (address : AccountPublicAddress) (amount : UInt64), 0 < amount ∧
      ∀ stake : StakingComponents, stake.address = address → stake.transferred = amount →
        stake.lockedContributions.length = 1 → ∀ (blockHeight : ℕ) (index : UInt32),
          acceptsStake hfVersion info stake = true ∧
            (bookStake hfVersion blockHeight index info stake).totalContributed.toNat =
              info.totalContributed.toNat + amount.toNat := by
  by_cases hall : ∀ c ∈ info.contributors, c.isUnfilled = false
  · -- nobody has a reservation to fill: any staker may take all that is free
    have hpaid : info.totalReserved.toNat < info.stakingRequirement.toNat := by
      simpa [ServiceNodeInfo.isFullyFunded, h.totals_eq hall, le_iff_toNat_le] using hopen
    have hcount : slotsTaken info = info.totalNumLockedContributions := by
      rw [slotsTaken, countP_eq_zero.mpr (fun c hc => by simp [hall c hc]), add_zero]
    have hslots : slotsTaken info ≠ maxContributorsHf19 := by
      intro hfull
      have := toNat_inj.mpr (h.full hfull)
      omega
    have hle := h.slots_le
    have hfree := toNat_sub_of_le _ _ h.total_le
    refine ⟨nullAddress, info.stakingRequirement - info.totalReserved, ?_, ?_⟩
    · rw [lt_iff_toNat_lt, toNat_zero, hfree]
      omega
    · rintro stake haddr htransferred hone blockHeight index
      obtain ⟨before, c, after, hs⟩ := h.standsAt stake.address
      have htaken := hs.slots
      rw [← hs.others, hcount] at htaken
      have hfilled : ¬ c.amount < c.reserved := by
        intro hlt
        simp only [Contributor.isUnfilled, hlt, decide_true, if_true] at htaken
        omega
      rw [← htransferred]
      exact hs.accepts h hfrom huntil hopen hone (by omega)
        (by rw [if_neg hfilled, htransferred, hfree]) blockHeight index
  · -- the owner of a reservation may fill it
    obtain ⟨d, hd, hunfilled⟩ : ∃ d ∈ info.contributors, d.amount < d.reserved := by
      simpa [Contributor.isUnfilled] using hall
    have hdiff := toNat_sub_of_le _ _ (UInt64.le_of_lt hunfilled)
    have hlt := lt_iff_toNat_lt.mp hunfilled
    refine ⟨d.address, d.reserved - d.amount, ?_, ?_⟩
    · rw [lt_iff_toNat_lt, toNat_zero]
      omega
    · rintro stake haddr htransferred hone blockHeight index
      obtain ⟨before, c, after, hs⟩ := h.standsAt stake.address
      have hopenAmount := hs.unfilled
      rw [haddr, stakerSlots_unfilled h.addresses hd, if_pos hunfilled] at hopenAmount
      have hc : c.amount < c.reserved := by
        rw [lt_iff_toNat_lt]
        omega
      have htaken := hs.slots
      have hle := h.slots_le
      rw [← hs.others, if_pos (by simpa [Contributor.isUnfilled] using hc)] at htaken
      rw [← htransferred]
      exact hs.accepts h hfrom huntil hopen hone (by omega)
        (by rw [if_pos hc, htransferred, hopenAmount]) blockHeight index

/-! ## Registrations -/

variable {requirement : UInt64} {stakes : List UInt64}

/-- A stake that passes the check. -/
private theorem checkStakesFrom_cons {i : ℕ} {reserved remaining stake rest : UInt64}
    (hrun : checkStakesFrom hfVersion requirement i reserved remaining (stake :: stakes) =
      some rest) :
    ¬ stake < (if i = 0 then minimumOperatorContribution requirement
      else getMinNodeContribution hfVersion requirement reserved i) ∧ ¬ remaining < stake ∧
    checkStakesFrom hfVersion requirement (i + 1) (reserved + stake) (remaining - stake) stakes =
      some rest := by
  rw [checkStakesFrom] at hrun
  simpa only [ite_eq_iff, reduceCtorEq, and_false, false_or] using hrun

section

variable (hfrom : Hf.hf19RewardBatching ≤ hfVersion) (huntil : hfVersion < ethBls)

include hfrom huntil

/-- The stakes that pass the check add up to at most the requirement, and a stake
in the last slot takes all that is left. -/
private theorem checkStakesFrom_spec :
    ∀ {i : ℕ} {reserved remaining rest : UInt64},
      checkStakesFrom hfVersion requirement i reserved remaining stakes = some rest →
      reserved.toNat + remaining.toNat = requirement.toNat →
      i + stakes.length ≤ maxContributorsHf19 →
      (stakes.map UInt64.toNat).sum + rest.toNat = remaining.toNat ∧
        (stakes ≠ [] → i + stakes.length = maxContributorsHf19 → rest.toNat = 0) := by
  induction stakes with
  | nil =>
    intro i reserved remaining rest hrun _ _
    have hrest : remaining = rest := by simpa [checkStakesFrom] using hrun
    simp [hrest]
  | cons stake stakes ih =>
    intro i reserved remaining rest hrun hsum hlen
    rw [length_cons] at hlen
    obtain ⟨hmin, hmax, hrun⟩ := checkStakesFrom_cons hrun
    have hmax' := le_iff_toNat_le.mp (UInt64.not_lt.mp hmax)
    have hsub : (remaining - stake).toNat = remaining.toNat - stake.toNat :=
      toNat_sub_of_le _ _ (UInt64.not_lt.mp hmax)
    have hadd : (reserved + stake).toNat = reserved.toNat + stake.toNat := by
      rw [toNat_add]
      apply Nat.mod_eq_of_lt
      have := requirement.toNat_lt
      omega
    obtain ⟨htotal, hlast⟩ := ih hrun (by omega) (by omega)
    refine ⟨by rw [map_cons, sum_cons]; omega, fun _ hfull => ?_⟩
    rcases stakes with _ | ⟨next, stakes⟩
    · -- the last slot: the smallest stake is all that is left
      have hi : i ≠ 0 := by
        simp only [maxContributorsHf19, length_cons, length_nil] at hfull
        omega
      have hle : reserved ≤ requirement := le_iff_toNat_le.mpr (by omega)
      rw [if_neg hi, UInt64.not_lt, le_iff_toNat_le,
        getMinNodeContribution_toNat hfrom huntil hle (by omega)] at hmin
      have hone : maxContributorsHf19 - i = 1 := by
        rw [length_cons, length_nil] at hfull
        omega
      rw [hone, Nat.div_one] at hmin
      omega
    · exact hlast (by simp) (by rw [length_cons] at hfull; omega)

/-- The stakes of an accepted registration. -/
theorem checkServiceNodeStakes_spec
    (hcheck : checkServiceNodeStakes hfVersion requirement stakes = true) :
    stakes.length ≤ maxContributorsHf19 ∧ (stakes.map UInt64.toNat).sum ≤ requirement.toNat ∧
      (stakes.length = maxContributorsHf19 →
        (stakes.map UInt64.toNat).sum = requirement.toNat) := by
  unfold checkServiceNodeStakes at hcheck
  rw [if_neg (UInt8.not_lt.mpr hfrom)] at hcheck
  split at hcheck
  · cases hcheck
  split at hcheck
  · cases hcheck
  rename_i rest hrun
  obtain ⟨hsum, hlast⟩ := checkStakesFrom_spec hfrom huntil hrun (by simp) (by omega)
  refine ⟨by omega, by omega, fun hfull => ?_⟩
  have hne : stakes ≠ [] := by
    rintro rfl
    simp [maxContributorsHf19] at hfull
  have := hlast hne (by omega)
  omega

variable {nettype : NetworkType} {reg : RegistrationDetails}

/-- A registration that is accepted from HF19 on reserves amounts that pass the
check of the stakes. -/
theorem validateRegistration_ok {timestamp : UInt64}
    (hok : validateRegistration hfVersion nettype requirement timestamp reg = .ok ()) :
    reg.usesPortions = false ∧
      checkServiceNodeStakes hfVersion requirement (reg.reserved.map Prod.snd) = true := by
  have hnotEth : ¬ hfVersion ≥ ethBls := UInt8.not_le.mpr huntil
  unfold validateRegistration at hok
  split at hok
  · cases hok
  split at hok
  · cases hok
  rename_i hportions
  have hamounts : reg.usesPortions = false := by
    simpa [hfrom] using hportions
  split at hok
  · cases hok
  refine ⟨hamounts, ?_⟩
  split at hok
  · cases hok
  rename_i amounts hextract
  have hreserved : amounts = reg.reserved.map Prod.snd := by
    rw [extractAmounts, if_neg (fun h => hnotEth h.1)] at hextract
    split at hextract
    · cases hextract
    split at hextract
    · cases hextract
    exact (Except.ok.inj hextract).symm
  unfold validateStakesAndFee at hok
  rw [← hreserved]
  by_contra hcheck
  simp [hamounts, hcheck] at hok
  split at hok <;> cases hok

omit huntil in
/-- What an accepted registration says, from HF19 on. -/
theorem isRegistrationTx_spec {crypto : Crypto} {tx : Transaction} {timestamp : UInt64} {height : ℕ}
    {index : UInt32} {key : PublicKey}
    (hreg : isRegistrationTx crypto nettype hfVersion tx timestamp height index requirement =
      some (key, info)) :
    hfVersion < ethTransition ∧ ∃ reg : RegistrationDetails,
      info = registrationInfo nettype hfVersion height index requirement reg ∧
      reg.usesPortions = false ∧ (reg.reserved.map Prod.fst).Nodup ∧
      checkServiceNodeStakes hfVersion requirement (reg.reserved.map Prod.snd) = true := by
  obtain ⟨reg, _, hreg⟩ := Option.bind_eq_some_iff.mp hreg
  split at hreg
  · cases hreg
  rename_i huntil
  split at hreg
  · cases hreg
  rename_i hvalid
  split at hreg
  · cases hreg
  obtain ⟨stake, _, hreg⟩ := Option.bind_eq_some_iff.mp hreg
  simp only [ite_eq_iff, reduceCtorEq, and_false, false_or, not_not, Option.some.injEq,
    Prod.mk.injEq] at hreg
  obtain ⟨_, hnodup, _, _, rfl⟩ := hreg
  have huntil' : hfVersion < ethTransition := UInt8.not_le.mp huntil
  obtain ⟨hamounts, hcheck⟩ := validateRegistration_ok hfrom
    (UInt8.lt_trans huntil' (by decide)) (not_not.mp hvalid)
  exact ⟨huntil', reg, rfl, hamounts, hnodup, hcheck⟩

/-- A new node has its books in order: all is reserved and nothing paid in. -/
theorem SoundStakes.registrationInfo {height : ℕ} {index : UInt32}
    (hroom : requirement.toNat * 101 < 2 ^ 64) (hamounts : reg.usesPortions = false)
    (hnodup : (reg.reserved.map Prod.fst).Nodup)
    (hcheck : checkServiceNodeStakes hfVersion requirement (reg.reserved.map Prod.snd) = true) :
    SoundStakes (registrationInfo nettype hfVersion height index requirement reg) := by
  obtain ⟨hlen, hle, hfull⟩ := checkServiceNodeStakes_spec hfrom huntil hcheck
  set info := ServiceNodes.registrationInfo nettype hfVersion height index requirement reg
  have hlist : info.contributors =
      reg.reserved.map (fun r => { address := r.1, reserved := r.2 }) := by
    simp [info, ServiceNodes.registrationInfo, reservedContributors, hamounts]
  have hsum : info.totalReserved = (info.contributors.map Contributor.reserved).sum := rfl
  have hpaid : info.totalContributed = 0 := rfl
  have hrequirement : info.stakingRequirement = requirement := rfl
  have hreserved : info.totalReserved.toNat =
      ((reg.reserved.map Prod.snd).map UInt64.toNat).sum := by
    rw [hsum, hlist, map_map]
    exact toNat_sum_of_lt (by simp [Function.comp_def] at hle ⊢; omega)
  have htaken : slotsTaken info ≤ reg.reserved.length := by
    have hcount := countP_le_length (p := Contributor.isUnfilled) (l := info.contributors)
    have hempty : info.totalNumLockedContributions = 0 := by
      simp [ServiceNodeInfo.totalNumLockedContributions, hlist, Function.comp_def]
    rw [slotsTaken, hempty, zero_add]
    simpa [hlist] using hcount
  rw [length_map] at hlen hfull
  constructor
  · simp [hpaid, hlist, Function.comp_def]
  · rw [hreserved, hlist]
    simp [Function.comp_def]
  · intro c hc
    obtain ⟨r, _, rfl⟩ := mem_map.mp hc
    simp [le_iff_toNat_le]
  · rwa [le_iff_toNat_le, hreserved]
  · rw [hlist, map_map]
    exact hnodup
  · omega
  · intro heq
    rw [← toNat_inj, hreserved, hrequirement]
    exact hfull (by omega)
  · exact hroom

end

/-- Before the ETH fork the requirement is a constant, and small. -/
theorem getStakingRequirement_room {net : Network} {state : State}
    (huntil : getNetworkVersion net state.height < ethBls) :
    (state.getStakingRequirement net).toNat * 101 < 2 ^ 64 := by
  rw [State.getStakingRequirement, if_neg (fun h => UInt8.not_le.mpr huntil h.1),
    getDefaultStakingRequirement, if_neg (UInt8.not_le.mpr huntil)]
  split <;> split <;> decide

section Steps

variable {σ : Type} (chain : Chain σ)

/-- Wherever it ends, an insertion has set the entry of its node. -/
theorem insertInfo_infos {key : PublicKey} {info : ServiceNodeInfo} {w : World} :
    (finalState (insertInfo chain key info w)).state.serviceNodesInfos =
      w.state.serviceNodesInfos.set key info := by
  simp only [insertInfo, modifyState_bind_run, get_bind_run]
  split
  · unfold snpkToXpk
    split <;> simp
  · simp

theorem enterNode_infos {hfVersion : Hf} {key : PublicKey} {info : ServiceNodeInfo} {w : World} :
    (finalState (enterNode chain hfVersion key info w)).state.serviceNodesInfos =
      w.state.serviceNodesInfos.set key info := by
  unfold enterNode resetProof
  split
  · split
    · exact insertInfo_infos chain
    · exact insertInfo_infos chain
  · exact insertInfo_infos chain

/-- What a registration transaction does to the nodes. -/
theorem processRegistrationTx_infos (block : Block) (tx : Transaction) (index : UInt32)
    (w : World) :
    let infos := w.state.serviceNodesInfos
    let infos' := (finalState (processRegistrationTx chain block tx index w)).state.serviceNodesInfos
    infos' = infos ∨ ∃ key info info',
      isRegistrationTx chain.crypto chain.net.nettype block.majorVersion tx block.timestamp
        block.height index (w.state.getStakingRequirement chain.net) = some (key, info) ∧
      admitRegistration chain.net.nettype block.majorVersion block.height (infos.get? key) info =
        some info' ∧
      infos' = infos.set key info' := by
  intro infos infos'
  simp only [infos', processRegistrationTx, get_bind_run]
  cases hreg : isRegistrationTx chain.crypto chain.net.nettype block.majorVersion tx
      block.timestamp block.height index (w.state.getStakingRequirement chain.net) with
  | none => exact .inl rfl
  | some entry =>
    cases hallowed : admitRegistration chain.net.nettype block.majorVersion block.height
        (infos.get? entry.1) entry.2 with
    | none =>
      left
      simp only [infos] at hallowed
      simp only [hallowed]
      rfl
    | some info' =>
      right
      refine ⟨entry.1, entry.2, info', rfl, hallowed, ?_⟩
      simp only [infos] at hallowed
      simp only [hallowed, finalState_bind_pure]
      exact enterNode_infos chain

/-- The nodes registered from HF19 on have their books in order. -/
def AllSound (infos : KeyMap PublicKey ServiceNodeInfo) : Prop :=
  ∀ e ∈ infos, Hf.hf19RewardBatching ≤ e.2.registrationHfVersion → SoundStakes e.2

theorem AllSound.set {infos : KeyMap PublicKey ServiceNodeInfo} (h : AllSound infos)
    {key : PublicKey}
    (hinfo : Hf.hf19RewardBatching ≤ info.registrationHfVersion → SoundStakes info) :
    AllSound (infos.set key info) := by
  intro e he
  rcases KeyMap.mem_set.mp he with rfl | ⟨he, _⟩
  · exact hinfo
  · exact h e he

/-- A registration from HF19 on keeps the books in order. -/
theorem AllSound.processRegistrationTx {block : Block}
    (hfrom : Hf.hf19RewardBatching ≤ block.majorVersion) {w : World}
    (hnet : getNetworkVersion chain.net w.state.height = block.majorVersion)
    (h : AllSound w.state.serviceNodesInfos) (tx : Transaction) (index : UInt32) :
    AllSound (finalState (processRegistrationTx chain block tx index w)).state.serviceNodesInfos := by
  rcases processRegistrationTx_infos chain block tx index w with
    hsame | ⟨key, info, info', hreg, hallowed, hset⟩
  · rwa [hsame]
  obtain ⟨huntil, reg, rfl, hamounts, hnodup, hcheck⟩ := isRegistrationTx_spec hfrom hreg
  have huntil' : block.majorVersion < ethBls := UInt8.lt_trans huntil (by decide)
  have hinfinite : block.majorVersion ≥ Hf.hf11InfiniteStaking := UInt8.le_trans (by decide) hfrom
  have hinfo : info' = registrationInfo chain.net.nettype block.majorVersion block.height index
      (w.state.getStakingRequirement chain.net) reg := by
    unfold admitRegistration at hallowed
    split at hallowed
    · exact (Option.some.inj hallowed).symm
    · simp [hinfinite] at hallowed
  rw [hset, hinfo]
  exact h.set (fun _ => SoundStakes.registrationInfo hfrom huntil'
    (getStakingRequirement_room (hnet ▸ huntil')) hamounts hnodup hcheck)

/-- A contribution from HF19 on keeps the books in order. -/
theorem AllSound.processContributionTx {block : Block}
    (hfrom : Hf.hf19RewardBatching ≤ block.majorVersion) {state : State}
    (h : AllSound state.serviceNodesInfos) (tx : Transaction) (index : UInt32) :
    AllSound (processContributionTx chain block tx index state).1.serviceNodesInfos := by
  unfold ServiceNodes.processContributionTx
  split
  · exact h
  rename_i huntil
  split
  · exact h
  split
  · exact h
  rename_i info hget
  split
  · rename_i hacc
    have hmem := KeyMap.get?_eq_some_iff.mp hget
    exact h.set (fun hhf =>
      (h _ hmem hhf).afterStake hfrom (UInt8.not_le.mp huntil) hacc block.height index)
  · exact h

/-- What happens to the list from HF19 on until the ETH fork. Whatever is not a
registration or a contribution leaves the books of the nodes alone. -/
inductive StakeStep : World → World → Prop
  | registration {w : World} {block : Block} (tx : Transaction) (index : UInt32)
      (hfrom : Hf.hf19RewardBatching ≤ block.majorVersion)
      (hnet : getNetworkVersion chain.net w.state.height = block.majorVersion) :
      StakeStep w (finalState (processRegistrationTx chain block tx index w))
  | contribution {w : World} {block : Block} (tx : Transaction) (index : UInt32)
      (hfrom : Hf.hf19RewardBatching ≤ block.majorVersion) :
      StakeStep w { w with state := (processContributionTx chain block tx index w.state).1 }
  | other {w w' : World}
      (hsame : ∀ e ∈ w'.state.serviceNodesInfos,
        Hf.hf19RewardBatching ≤ e.2.registrationHfVersion →
          ∃ info, (e.1, info) ∈ w.state.serviceNodesInfos ∧ SameStakes info e.2) :
      StakeStep w w'

/-- Every step keeps the books in order. -/
theorem AllSound.step {w w' : World} (h : AllSound w.state.serviceNodesInfos)
    (hstep : StakeStep chain w w') : AllSound w'.state.serviceNodesInfos := by
  cases hstep with
  | registration tx index hfrom hnet => exact h.processRegistrationTx chain hfrom hnet tx index
  | contribution tx index hfrom => exact h.processContributionTx chain hfrom tx index
  | other hsame =>
    intro e he hhf
    obtain ⟨info, hmem, hstakes⟩ := hsame e he hhf
    exact (h _ hmem (hstakes.registrationHfVersion ▸ hhf)).of_sameStakes hstakes

/-- The books stay in order over any number of steps. -/
theorem AllSound.steps {w w' : World} (h : AllSound w.state.serviceNodesInfos)
    (hrun : Relation.ReflTransGen (StakeStep chain) w w') : AllSound w'.state.serviceNodesInfos := by
  induction hrun with
  | refl => exact h
  | tail _ hstep ih => exact ih.step chain hstep

/-- **Stakes of a node.** However registrations and contributions follow each
other from HF19 on, the totals of a node are the sums over its contributors,
nobody pays in more than they reserved, no more than the requirement is
reserved, no slot is handed out twice, all slots are taken only when everything
is reserved, no subtraction wraps around, and a node that is not full accepts
some further stake. -/
theorem stakes_in_order {w₀ w : World}
    (hstart : ∀ e ∈ w₀.state.serviceNodesInfos, ¬ Hf.hf19RewardBatching ≤ e.2.registrationHfVersion)
    (hrun : Relation.ReflTransGen (StakeStep chain) w₀ w) {key : PublicKey}
    {info : ServiceNodeInfo} (hnode : w.state.serviceNodesInfos.get? key = some info)
    (hhf : Hf.hf19RewardBatching ≤ info.registrationHfVersion) :
    info.totalContributed.toNat = (info.contributors.map (fun c => c.amount.toNat)).sum ∧
    info.totalReserved.toNat = (info.contributors.map (fun c => c.reserved.toNat)).sum ∧
    (∀ c ∈ info.contributors, c.amount ≤ c.reserved) ∧
    info.totalReserved ≤ info.stakingRequirement ∧
    (∀ (stake : StakingComponents), ∀ s ∈ contributionSubtractions info stake, s.2 ≤ s.1) ∧
    slotsTaken info ≤ maxContributorsHf19 ∧
    (slotsTaken info = maxContributorsHf19 → info.totalReserved = info.stakingRequirement) ∧
    (info.isFullyFunded = false → ∀ hfVersion : Hf, Hf.hf19RewardBatching ≤ hfVersion →
      hfVersion < ethBls → ∃ (address : AccountPublicAddress) (amount : UInt64), 0 < amount ∧
        ∀ stake : StakingComponents, stake.address = address → stake.transferred = amount →
          stake.lockedContributions.length = 1 → ∀ (blockHeight : ℕ) (index : UInt32),
            acceptsStake hfVersion info stake = true ∧
              (bookStake hfVersion blockHeight index info stake).totalContributed.toNat =
                info.totalContributed.toNat + amount.toNat) := by
  have hall : AllSound w.state.serviceNodesInfos :=
    AllSound.steps chain (fun e he hfrom => absurd hfrom (hstart e he)) hrun
  have h := hall _ (KeyMap.get?_eq_some_iff.mp hnode) hhf
  exact ⟨h.contributed, h.reserved, h.amount_le, h.total_le, h.subtractions_le, h.slots_le, h.full,
    fun hopen _ hfrom huntil => h.not_stuck hopen hfrom huntil⟩

end Steps

/-- A fake chain that starts with reward batching. -/
def hf19Net : Network := ⟨.fakechain, [⟨Hf.hf19RewardBatching, 0, 0⟩]⟩

/-- Half of the requirement on the fake chain. -/
def halfRequirement : UInt64 := 50000 * coin

/-- A registration with a stake of half of the requirement. -/
def halfRegistrationTx : Transaction :=
  { vout := [some 1]
    registration := some
      { publicSpendKeys := [1], publicViewKeys := [1], fee := 0, amounts := [halfRequirement]
        hfOrExpiration := 19, signature := 0 }
    serviceNodePubkey := some 7
    serviceNodeContributor := some ⟨1, 1⟩
    txSecretKey := some (BitVec.ofNat _ halfRequirement.toNat)
    keyImageProofs := some [⟨5, 0⟩] }

def hf19Block : Block := { majorVersion := Hf.hf19RewardBatching, height := 0, hash := 0 }

/-- The list after the registration and its stake. -/
def halfFundedWorld : World :=
  let registered := finalState (processRegistrationTx (acceptingChain hf19Net emptyChainDb)
    hf19Block halfRegistrationTx 0 ⟨{}, {}⟩)
  { registered with
    state := (processContributionTx (acceptingChain hf19Net emptyChainDb) hf19Block
      halfRegistrationTx 0 registered.state).1 }

theorem halfFundedWorld_reached :
    Relation.ReflTransGen (StakeStep (acceptingChain hf19Net emptyChainDb)) ⟨{}, {}⟩
      halfFundedWorld := by
  refine (Relation.ReflTransGen.refl.tail ?_).tail
    (@StakeStep.contribution _ _ _ hf19Block halfRegistrationTx 0 (by decide))
  exact @StakeStep.registration _ _ _ hf19Block halfRegistrationTx 0 (by decide) rfl

/-- The half-funded node accepts a stake from somebody. -/
theorem stakes_in_order_halfFunded : ∃ info,
    halfFundedWorld.state.serviceNodesInfos.get? 7 = some info ∧
    info.totalContributed = halfRequirement ∧ info.totalReserved ≤ info.stakingRequirement ∧
    slotsTaken info ≤ maxContributorsHf19 ∧
    ∃ (address : AccountPublicAddress) (amount : UInt64), 0 < amount ∧
      ∀ stake : StakingComponents, stake.address = address → stake.transferred = amount →
        stake.lockedContributions.length = 1 →
          acceptsStake Hf.hf19RewardBatching info stake = true := by
  obtain ⟨info, hnode, hhf, hpaid, hopen⟩ : ∃ info,
      halfFundedWorld.state.serviceNodesInfos.get? 7 = some info ∧
      Hf.hf19RewardBatching ≤ info.registrationHfVersion ∧
      info.totalContributed = halfRequirement ∧ info.isFullyFunded = false :=
    ⟨_, rfl, by decide, rfl, by decide⟩
  obtain ⟨_, _, _, htotal, _, hslots, _, hnext⟩ := stakes_in_order _
    (fun e he => absurd he not_mem_nil) halfFundedWorld_reached hnode hhf
  obtain ⟨address, amount, hpos, haccept⟩ :=
    hnext hopen Hf.hf19RewardBatching (by decide) (by decide)
  exact ⟨info, hnode, hpaid, htotal, hslots, address, amount, hpos,
    fun stake haddr hamount hone => (haccept stake haddr hamount hone 0 0).1⟩

end Xeqm.ServiceNodes
