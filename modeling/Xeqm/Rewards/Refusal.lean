import Xeqm.Rewards.DuePayments
import Xeqm.Rewards.Rounding

/-!
# Which rejected blocks leave the rewards database as it was

On tables that are in order the payments that are due can be saved and rewards can be added. So
`add_block` rejects a block of reward batching at one of four places: the block is not the next
one, its outputs are not the payments that are due, `reward_handler` throws before its first
write, or the height cannot be written.
-/

namespace Xeqm.Rewards

open Cryptonote Lib ServiceNodes RewardMoney List

/-- The balances are sound, and no delayed payment has more liquidated than it is. -/
structure SoundTables (db : RewardsDb) : Prop where
  rows : SoundRows db.accrued
  delayed : ∀ p ∈ db.delayedPayments, p.liquidationAmount ≤ p.amount

/-! ## Computations that return -/

/-- On sound rows a computation returns, and it leaves sound rows. -/
def Succeeds {α : Type} (m : DbM α) : Prop :=
  ∀ db, SoundRows db.accrued → ∃ a db', m db = .ok a db' ∧ SoundRows db'.accrued

namespace Succeeds

variable {α β : Type}

theorem pure (a : α) : Succeeds (Pure.pure a : DbM α) := fun db hsound => ⟨a, db, rfl, hsound⟩

theorem bind {m : DbM α} {f : α → DbM β} (hm : Succeeds m) (hf : ∀ a, Succeeds (f a)) :
    Succeeds (m >>= f) := by
  intro db hsound
  obtain ⟨a, db₁, hfirst, hsound₁⟩ := hm db hsound
  obtain ⟨b, db₂, hsecond, hsound₂⟩ := hf a db₁ hsound₁
  exact ⟨b, db₂, by rw [bind_run_of_ok hfirst, hsecond], hsound₂⟩

theorem forM {l : List α} {f : α → DbM PUnit} (h : ∀ a ∈ l, Succeeds (f a)) :
    Succeeds (l.forM f) := by
  induction l with
  | nil => exact .pure _
  | cons a _ ih => exact .bind (h a mem_cons_self) fun _ => ih fun b hb => h b (mem_cons_of_mem a hb)

end Succeeds

section

variable {row : AccruedRow} {f : AccruedRow → AccruedRow} {address : PayoutAddress}

theorem updateAccrued_succeeds (haddress : ∀ row, (f row).address = row.address)
    (hnonneg : ∀ row, 0 ≤ row.amount → 0 ≤ (f row).amount) :
    Succeeds (updateAccrued address f) := by
  intro db hsound
  have hrun := updateAccrued_eq_ok_iff.mpr ⟨rfl, fun row hrow (_ : row.address = address) =>
    hnonneg row (hsound.nonneg row hrow)⟩
  exact ⟨_, _, hrun, hsound.updateAccrued haddress hrun⟩

theorem upsertAccrued_succeeds (hrow : 0 ≤ row.amount)
    (haddress : ∀ row, (f row).address = row.address)
    (hamount : ∀ old, (f old).amount = old.amount + row.amount) :
    Succeeds (upsertAccrued row f) := by
  intro db hsound
  obtain ⟨db', hrun⟩ : ∃ db', upsertAccrued row f db = .ok () db' := by
    unfold upsertAccrued
    rw [if_neg (not_lt.mpr hrow)]
    split
    · obtain ⟨_, db', hrun, -⟩ := @updateAccrued_succeeds f row.address haddress
        (fun old hold => by rw [hamount]; exact add_nonneg hold hrow) db hsound
      exact ⟨db', hrun⟩
    · exact ⟨_, rfl⟩
  exact ⟨_, db', hrun, (upsertAccrued_adds haddress hamount db () db' hsound hrun).1⟩

end

theorem submitStakesMetadata_succeeds (blockAdd : BlockAddResult) :
    Succeeds (submitStakesMetadata blockAdd) := by
  refine .bind (.forM fun _ _ => ?_) fun _ => .forM fun _ _ => ?_
  · exact upsertAccrued_succeeds (le_refl _) (fun _ => rfl) fun _ => (add_zero _).symm
  · exact updateAccrued_succeeds (fun _ => rfl) fun _ hnonneg => hnonneg

/-! ## Payments that can be added -/

/-- A payment covers what is liquidated of it, and before ETH it goes to an address of this
chain. -/
structure Addable (hfVersion : Hf) (entry : PayoutAddress × SqlPayment) : Prop where
  covered : entry.2.liquidation.milli ≤ entry.2.amount.milli
  oxen : hfVersion < Hf.hf21Eth → ∃ address, entry.1 = .oxen address

section

variable {hfVersion : Hf} {payments payments' : BlockPayments} {address : PayoutAddress}
  {amount liquidation : RewardMoney} {info : ServiceNodeInfo}

theorem toDbAmount_nonneg (h : amount.Normal) : 0 ≤ amount.toDbAmount hfVersion := by
  obtain ⟨hatomic, hsub, -⟩ := h
  by_cases hhf : hfVersion ≥ Hf.hf22EthFixup
  · rw [toDbAmount, if_pos hhf]
    unfold RewardMoney.round batchRewardFactor
    split_ifs <;> simp only <;> omega
  · rw [toDbAmount, if_neg hhf, batchRewardFactor]
    omega

theorem addSnRewards_succeeds (rules : RewardRules) {isRewards : Bool}
    (h : ∀ entry ∈ payments, Addable hfVersion entry) :
    Succeeds (addSnRewards rules hfVersion payments isRewards) := by
  refine .forM fun entry hentry => ?_
  obtain ⟨hcovered, hoxen⟩ := h entry hentry
  have hnonneg : 0 ≤ (entry.2.amount.sub entry.2.liquidation).toDbAmount hfVersion :=
    toDbAmount_nonneg (normal_sub hcovered)
  simp only [addSnReward]
  split
  · split <;> exact upsertAccrued_succeeds hnonneg (fun _ => rfl) fun _ => rfl
  · rename_i hbefore
    obtain ⟨recipient, hrecipient⟩ := hoxen (UInt8.not_le.mp hbefore)
    simp only [hrecipient]
    exact upsertAccrued_succeeds hnonneg (fun _ => rfl) fun _ => rfl

theorem IsReward.addable {entry : PayoutAddress × SqlPayment} (h : IsReward hfVersion entry) :
    Addable hfVersion entry := by
  obtain ⟨⟨hatomic, hsub, -⟩, hnone, hoxen⟩ := h
  refine ⟨?_, hoxen⟩
  rw [hnone]
  simp only [milli, batchRewardFactor]
  omega

end

section

variable {rules : RewardRules} {block : Block} {state : SnState} {payments payments' : BlockPayments}

/-- What comes due of delayed payments is added from the ETH fork on. -/
theorem addable_getDelayedPayments {db : RewardsDb} (hsound : SoundTables db)
    (hhf : block.majorVersion ≥ Hf.hf21Eth) :
    ∀ entry ∈ getDelayedPayments block.height db, Addable block.majorVersion entry := by
  refine foldlRecOn _ _
    (motive := fun payments => ∀ entry ∈ payments, Addable block.majorVersion entry)
    (by simp) fun paid hpaid p hp => ?_
  have hcovered : (fromCoin p.liquidationAmount.toNat).milli ≤ (fromCoin p.amount.toNat).milli := by
    have hle := UInt64.le_iff_toNat_le.mp (hsound.delayed p (mem_of_mem_filter hp))
    simp only [milli_fromCoin]
    omega
  exact forall_addPayment hpaid ⟨by simpa using hcovered, fun h => absurd h (UInt8.not_lt.mpr hhf)⟩
    fun payment hpayment => ⟨by simpa using add_le_add hpayment.covered hcovered, hpayment.oxen⟩

/-- `reward_handler` throws before its first write, or not at all. -/
theorem rewardHandler_returns {db : RewardsDb} (hsound : SoundTables db) {payable : List PublicKey}
    (hpayments : rewardPayments rules block state payable = .ok payments) :
    ∃ db', rewardHandler rules block state payable db = .ok () db' ∧ SoundRows db'.accrued := by
  have hrewards : Succeeds (addSnRewards rules block.majorVersion payments true) :=
    addSnRewards_succeeds rules fun entry hentry =>
      (isReward_rewardPayments hpayments entry hentry).addable
  simp only [rewardHandler, hpayments, orDbThrow, pure_bind]
  rw [get_bind_run]
  split
  · rename_i hhf
    obtain ⟨_, db', hrun, hsound'⟩ := Succeeds.bind
      (addSnRewards_succeeds rules (addable_getDelayedPayments hsound hhf)) (fun _ => hrewards)
      db hsound.rows
    exact ⟨db', hrun, hsound'⟩
  · obtain ⟨_, db', hrun, hsound'⟩ := hrewards db hsound.rows
    exact ⟨db', hrun, hsound'⟩

end

/-! ## The exits of `add_block` -/

/-- The outputs of a block are accepted as the payments that are due. -/
def OutputsPass (rules : RewardRules) (input : BlockInput) (payments : List BatchSnPayment) : Prop :=
  input.skipVerify = true ∨
    vouchersMatch rules input.block.height input.block.minerVouts payments = true

/-- The block is the next one and passes, but `reward_handler` does not throw, so that the height
cannot be written, or a payment is due while a rescan holds the transaction. -/
def LeavesTrace (rules : RewardRules) (rescanning : Bool) (input : BlockInput) (db : RewardsDb) :
    Prop :=
  input.block.height = db.height + 1 ∧ ∃ payments,
    duePayments rules input.block db = .ok payments ∧ OutputsPass rules input payments ∧
      ((∃ paid, rewardPayments rules input.block input.state input.blockAdd.payableNodes = .ok paid) ∨
        rescanning = true ∧ payments ≠ [])

section

variable {rules : RewardRules} {input : BlockInput} {rescanning : Bool} {db db' : RewardsDb}
  {payments : List BatchSnPayment}

theorem due_of_duePayments (hsound : SoundRows db.accrued)
    (hhf : getNetworkVersion rules.net input.block.height = input.block.majorVersion)
    (hdue : duePayments rules input.block db = .ok payments) :
    ∀ payment ∈ payments, Due db payment := by
  unfold duePayments at hdue
  split at hdue
  · rename_i hbefore
    refine due_of_getSnPayments hsound ?_ hdue
    rw [hhf]
    exact UInt8.lt_trans hbefore (by decide)
  · cases hdue
    simp

/-- Outputs that pass have the payments saved. -/
theorem validateBatchPayment_due (hsound : SoundRows db.accrued)
    (hhf : getNetworkVersion rules.net input.block.height = input.block.majorVersion)
    (hdue : duePayments rules input.block db = .ok payments)
    (hpass : OutputsPass rules input payments) :
    ∃ db', validateBatchPayment rules input.skipVerify input.block.height input.block.minerVouts
      payments db = .ok true db' ∧ SoundRows db'.accrued ∧ (db' = db ↔ payments = []) := by
  have hunique := duePayments_addresses hsound hdue
  obtain ⟨db', hsave, hchange⟩ :=
    savePayments_due hsound hunique (due_of_duePayments hsound hhf hdue)
  refine ⟨db', ?_, (savePayments_total hsound hsave).1, hchange⟩
  unfold validateBatchPayment
  rw [if_neg (by rcases hpass with hpass | hpass <;> simp [hpass]), hsave]

/-- Outputs that do not pass are refused before the first write. -/
theorem payBlock_of_not_pass (h : ¬ OutputsPass rules input payments) :
    payBlock rules input payments db = .ok false db := by
  obtain ⟨hskip, hmatch⟩ := not_or.mp h
  have hvalid : validateBatchPayment rules input.skipVerify input.block.height
      input.block.minerVouts payments db = .ok false db := by
    unfold validateBatchPayment
    rw [if_pos (by simp [hskip, hmatch])]
    rfl
  rw [payBlock, bind_run_of_ok hvalid]
  rfl

section

variable (hsound : SoundTables db)
  (hhf : getNetworkVersion rules.net input.block.height = input.block.majorVersion)
  (hdue : duePayments rules input.block db = .ok payments)

include hsound hhf hdue

/-- A block that passes and whose rewards can be collected raises the height, whether or not it can
be written. -/
theorem addBlockBody_of_paid (hpass : OutputsPass rules input payments) {paid : BlockPayments}
    (hpaid : rewardPayments rules input.block input.state input.blockAdd.payableNodes = .ok paid) :
    (finalState (addBlockBody rules input payments db)).height = db.height + 1 := by
  obtain ⟨db₁, hvalid, hsound₁, -⟩ := validateBatchPayment_due hsound.rows hhf hdue hpass
  have hsame : OnlyAccrued db db₁ := (validateBatchPayment_onlyAccrued rules).of_ok hvalid
  have htables : SoundTables db₁ := ⟨hsound₁, by rw [hsame]; exact hsound.delayed⟩
  obtain ⟨db₂, hreward, hsound₂⟩ := rewardHandler_returns htables hpaid
  obtain ⟨db₃, hpay⟩ : ∃ db₃, payBlock rules input payments db = .ok true db₃ := by
    rw [payBlock, bind_run_of_ok hvalid]
    simp only [if_true]
    rw [bind_run_of_ok hreward]
    split
    · obtain ⟨_, db₃, hstakes, -⟩ := submitStakesMetadata_succeeds input.blockAdd db₂ hsound₂
      exact ⟨db₃, by rw [bind_run_of_ok hstakes]; rfl⟩
    · exact ⟨db₂, rfl⟩
  have honly : OnlyAccrued db db₃ := (payBlock_onlyAccrued rules input payments).of_ok hpay
  have hheight : db₃.height = db.height := by rw [honly]
  rw [addBlockBody_eq, bind_run_of_ok hpay, if_pos rfl, get_bind_run, finalState_bind_pure,
    (updateHeight_frame _ _ _).1, hheight]

/-- What a body that does not complete leaves. -/
theorem runBody_unchanged_iff
    (hrun : runBody rescanning (addBlockBody rules input payments) db = .ok false db') :
    db' = db ↔ ¬ (OutputsPass rules input payments ∧
      ((∃ paid, rewardPayments rules input.block input.state input.blockAdd.payableNodes = .ok paid) ∨
        rescanning = true ∧ payments ≠ [])) := by
  obtain ⟨hfalse, -⟩ | ⟨-, hnot, rfl⟩ := runBody_cases hrun
  · cases hfalse
  by_cases hpass : OutputsPass rules input payments
  case neg =>
    rw [addBlockBody_eq, bind_run_of_ok (payBlock_of_not_pass hpass)]
    exact iff_of_true (by split <;> rfl) fun h => hpass h.1
  cases hpaid : rewardPayments rules input.block input.state input.blockAdd.payableNodes with
  | error fault =>
    obtain ⟨db₁, hvalid, -, hchange⟩ := validateBatchPayment_due hsound.rows hhf hdue hpass
    have hsame : OnlyAccrued db db₁ := (validateBatchPayment_onlyAccrued rules).of_ok hvalid
    have hpay : payBlock rules input payments db = .error fault db₁ := by
      rw [payBlock, bind_run_of_ok hvalid]
      simp [rewardHandler, hpaid, orDbThrow]
    rw [addBlockBody_eq, bind_run_of_error hpay, finalState_error]
    cases rescanning with
    | false =>
      rw [hsame]
      simp
    | true => simp [hpass, hchange]
  | ok paid =>
    have hheight := addBlockBody_of_paid hsound hhf hdue hpass hpaid
    refine iff_of_false (fun hsame => ?_) fun h => h ⟨hpass, .inl ⟨paid, rfl⟩⟩
    have hheights := congrArg RewardsDb.height hsame
    have hkept : (finalState (addBlockBody rules input payments db)).height = db.height := by
      cases rescanning <;> exact hheights
    omega

end

/-- On sound tables a rejected block of its hard fork leaves tables and height as they were exactly
if the reset for the first block of reward batching has changed nothing and the block leaves no
trace. -/
theorem addBlock_rejected_unchanged_iff (hsound : SoundTables db)
    (hhf : getNetworkVersion rules.net input.block.height = input.block.majorVersion)
    (hrun : addBlock rules rescanning input db = .ok false db') :
    db' = db ↔ beginBatching rules input.block.height db = .ok () db ∧
      ¬ LeavesTrace rules rescanning input db := by
  have hbatching : ¬ input.block.majorVersion < Hf.hf19RewardBatching := by
    intro hbefore
    simp only [addBlock, if_pos hbefore] at hrun
    obtain ⟨_, _, _, hrun⟩ := bind_eq_ok_iff.mp hrun
    simp at hrun
  obtain ⟨db₀, hbegin, hcases⟩ := addBlock_cases hbatching hrun
  -- what the block leaves of the tables that it meets after the reset
  have hleft (hsound₀ : SoundTables db₀) :
      db' = db₀ ↔ ¬ LeavesTrace rules rescanning input db₀ := by
    rcases hcases with ⟨-, hheight, hsame⟩ | ⟨hheight, payments, hdue, hbody⟩
    · exact iff_of_true hsame fun h => hheight h.1
    · rw [runBody_unchanged_iff hsound₀ hhf hdue hbody, not_iff_not]
      constructor
      · exact fun h => ⟨hheight, payments, hdue, h⟩
      · rintro ⟨-, payments', hdue', h⟩
        cases hdue.symm.trans hdue'
        exact h
  by_cases hfirst : input.block.height = (hardForkBegins rules.net Hf.hf19RewardBatching).getD 0
  case neg =>
    have hsame := hbegin
    rw [beginBatching_run, if_neg hfirst] at hsame
    cases hsame
    exact (hleft hsound).trans ⟨fun h => ⟨hbegin, h⟩, And.right⟩
  -- after the reset no payment is due and the height can be written
  have hreset := hbegin
  rw [beginBatching_run, if_pos hfirst] at hreset
  cases hreset
  have hsound₀ : SoundTables
      { height := input.block.height - 1, infoHeight := input.block.height - 1 } :=
    ⟨⟨by simp, by simp⟩, by simp⟩
  have hkept : ¬ LeavesTrace rules rescanning input
      { height := input.block.height - 1, infoHeight := input.block.height - 1 } := by
    rintro ⟨hheight, payments, hdue, hpass, hpaid⟩
    have hnone : payments = [] := by
      refine eq_nil_iff_forall_not_mem.mpr fun payment hpayment => ?_
      obtain ⟨row, hrow, -⟩ := due_of_duePayments hsound₀.rows hhf hdue payment hpayment
      exact absurd hrow not_mem_nil
    obtain ⟨paid, hpaid⟩ := hpaid.resolve_right fun h => h.2 hnone
    rcases hcases with ⟨-, hother, -⟩ | ⟨-, payments', hdue', hbody⟩
    · exact hother hheight
    cases hdue.symm.trans hdue'
    have hraised := addBlockBody_of_paid hsound₀ hhf hdue hpass hpaid
    obtain ⟨hfalse, -⟩ | ⟨-, hnot, -⟩ := runBody_cases hbody
    · cases hfalse
    · have hsame := (addBlockBody_height (by simp) (by simp)).resolve_left
        fun hdone => hnot _ hdone.choose_spec
      exact absurd (hsame.symm.trans hraised) (by simp)
  rw [(hleft hsound₀).mpr hkept]
  constructor
  · intro hsame
    rw [hsame] at hkept
    refine ⟨?_, hkept⟩
    rw [hbegin, hsame]
  · rintro ⟨hsame, -⟩
    cases hbegin.symm.trans hsame
    rfl

end

/-- A balance of a fifth of a coin that is due at every twentieth block. -/
def dueDb : RewardsDb :=
  { height := 119, infoHeight := 119
    accrued := [{ address := .oxen nullAddress, amount := 200000000000 }] }

/-- A block at the payout height without a reward. -/
def unrewardedBlock (vouts : List (PublicKey × UInt64)) : BlockInput :=
  { block := { majorVersion := Hf.hf19RewardBatching, height := 120, hash := 0, minerVouts := vouts }
    state := ⟨OrdSet.empty, 0⟩
    blockAdd := {} }

/-- While a rescan holds the transaction, a block at the payout height that does not pay the balance
is rejected and leaves it. -/
theorem addBlock_rejected_unpaid :
    ∃ db', addBlock batchingRules true (unrewardedBlock []) dueDb = .ok false db' ∧ db' = dueDb := by
  have hrun : addBlock batchingRules true (unrewardedBlock []) dueDb = .ok false dueDb := rfl
  refine ⟨dueDb, hrun, (addBlock_rejected_unchanged_iff ⟨⟨by decide, by decide⟩, by decide⟩
    (by decide) hrun).mpr ⟨rfl, ?_⟩⟩
  rintro ⟨-, payments, hdue, hpass, -⟩
  have hpayments : duePayments batchingRules (unrewardedBlock []).block dueDb =
      .ok [(nullAddress, fromCoin 200000000)] := rfl
  cases hpayments.symm.trans hdue
  rcases hpass with hskip | hmatch
  · cases hskip
  · cases hmatch

/-- While a rescan holds the transaction, the payout of a rejected block is kept: the
balance is gone, but the block is not there. -/
theorem addBlock_rejected_rescanning :
    ∃ db', addBlock batchingRules true (unrewardedBlock [(0, 200000000)]) dueDb = .ok false db' ∧
      db'.height = dueDb.height ∧ db'.accrued ≠ dueDb.accrued :=
  ⟨{ dueDb with accrued := [] }, rfl, rfl, by decide⟩

end Xeqm.Rewards
