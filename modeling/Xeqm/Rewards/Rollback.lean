import Xeqm.Rewards.AddBlock

/-!
# What a rejected block leaves behind

Before it changes the height, `add_block` writes to the accrued balances only. A
rejected block therefore leaves the database as it was if the tables are rolled
back and the write of the height does not fail. It does not while a rescan holds
the transaction, nor for the first block of reward batching, which resets the
tables before any check.
-/

namespace Xeqm.Rewards

open Cryptonote Lib ServiceNodes

/-- Only the accrued balances differ. -/
def OnlyAccrued (db db' : RewardsDb) : Prop := db' = { db with accrued := db'.accrued }

instance : Std.Refl OnlyAccrued := ⟨fun _ => rfl⟩

instance : IsTrans RewardsDb OnlyAccrued := ⟨by
  intro a b c hab hbc
  unfold OnlyAccrued at *
  rw [hbc, hab]⟩

theorem updateAccrued_onlyAccrued {address : PayoutAddress} {f : AccruedRow → AccruedRow} :
    Keeps OnlyAccrued (updateAccrued address f) := by
  intro db
  unfold updateAccrued
  split <;> rfl

theorem upsertAccrued_onlyAccrued {row : AccruedRow} {f : AccruedRow → AccruedRow} :
    Keeps OnlyAccrued (upsertAccrued row f) := by
  intro db
  unfold upsertAccrued
  split
  · rfl
  split
  · exact updateAccrued_onlyAccrued db
  · rfl

theorem orDbThrow_keeps {R : RewardsDb → RewardsDb → Prop} [Std.Refl R] {α : Type}
    (result : Except DbFault α) : Keeps R (orDbThrow result) := by
  unfold orDbThrow
  split
  · exact .pure
  · exact .throw

theorem savePaymentRows_onlyAccrued {payments : List BatchSnPayment} :
    Keeps OnlyAccrued (savePaymentRows payments) := by
  induction payments with
  | nil => exact .pure
  | cons _ _ ih =>
    refine .read fun db => ?_
    split
    · exact .pure
    · refine .pure_ite (fun _ => ?_)
      exact .bind updateAccrued_onlyAccrued fun _ => ih

theorem savePayments_onlyAccrued {payments : List BatchSnPayment} :
    Keeps OnlyAccrued (savePayments payments) := by
  refine .bind savePaymentRows_onlyAccrued fun saved => ?_
  refine .ite_pure fun _ => ?_
  exact .bind (.modify (fun _ => rfl)) fun _ => .pure

section

variable (rules : RewardRules)

theorem validateBatchPayment_onlyAccrued {skipVerify : Bool} {blockHeight : ℕ}
    {vouts : List (PublicKey × UInt64)} {payments : List BatchSnPayment} :
    Keeps OnlyAccrued (validateBatchPayment rules skipVerify blockHeight vouts payments) :=
  .pure_ite fun _ => savePayments_onlyAccrued

theorem addSnRewards_onlyAccrued {hfVersion : Hf} {payments : BlockPayments} {isRewards : Bool} :
    Keeps OnlyAccrued (addSnRewards rules hfVersion payments isRewards) := by
  refine .forM fun entry _ => ?_
  refine .ite (fun _ => ?_) fun _ => ?_
  · exact .ite (fun _ => upsertAccrued_onlyAccrued) fun _ => upsertAccrued_onlyAccrued
  · split
    · exact .throw
    · exact upsertAccrued_onlyAccrued

theorem rewardHandler_onlyAccrued (block : Block) (state : SnState) (payable : List PublicKey) :
    Keeps OnlyAccrued (rewardHandler rules block state payable) := by
  refine .bind (orDbThrow_keeps _) fun _ => ?_
  refine .read fun _ => ?_
  refine .ite (fun _ => ?_) fun _ => addSnRewards_onlyAccrued rules
  exact .bind (addSnRewards_onlyAccrued rules) fun _ => addSnRewards_onlyAccrued rules

theorem submitStakesMetadata_onlyAccrued (blockAdd : BlockAddResult) :
    Keeps OnlyAccrued (submitStakesMetadata blockAdd) := by
  refine .bind (.forM (fun _ _ => upsertAccrued_onlyAccrued)) fun _ => ?_
  exact .forM fun _ _ => updateAccrued_onlyAccrued

/-- Everything of a block but its height: the payouts, the rewards and the stakes.
The result says whether the payouts were valid. -/
def payBlock (input : BlockInput) (payments : List BatchSnPayment) : DbM Bool := do
  let valid ← validateBatchPayment rules input.skipVerify input.block.height
    input.block.minerVouts payments
  if valid then
    rewardHandler rules input.block input.state input.blockAdd.payableNodes
    if input.block.majorVersion ≥ Hf.hf21Eth then submitStakesMetadata input.blockAdd
    else pure ()
    pure true
  else pure false

theorem payBlock_onlyAccrued (input : BlockInput) (payments : List BatchSnPayment) :
    Keeps OnlyAccrued (payBlock rules input payments) := by
  refine .bind (validateBatchPayment_onlyAccrued rules) fun valid => ?_
  refine .ite_pure fun _ => ?_
  refine .bind (rewardHandler_onlyAccrued rules _ _ _) fun _ => ?_
  refine .ite_pure fun _ => ?_
  exact .bind (submitStakesMetadata_onlyAccrued _) fun _ => .pure

/-- The body of the `try` block pays the block and then raises the height. -/
theorem addBlockBody_eq (input : BlockInput) (payments : List BatchSnPayment) :
    addBlockBody rules input payments = (do
      let valid ← payBlock rules input payments
      if valid then
        let db ← get
        updateHeight rules.config (db.height + 1)
        pure true
      else pure false) := by
  unfold addBlockBody payBlock
  rw [bind_assoc]
  congr 1
  funext valid
  cases valid with
  | false => simp
  | true =>
    simp only [if_true, bind_assoc]
    split <;> simp

/-- The balances are copied if no backup is stored for the height yet. -/
theorem copyAccrued_of_fresh {accrued : List AccruedRow} {height : ℕ} {backup : List BackupRow}
    (h : ∀ b ∈ backup, b.height ≠ height) :
    copyAccrued accrued height backup =
      some (backup ++ accrued.map (fun row => ⟨height, row⟩)) := by
  refine if_neg ?_
  simp only [List.any_eq_true, decide_eq_true_eq, not_exists, not_and]
  rintro row - b hb hheight
  exact absurd hheight (h b hb)

/-- The height is written if no backup is stored for it yet. -/
theorem updateHeight_returns {conf : NetworkConfig} {height : ℕ} {db : RewardsDb}
    (hrecent : ∀ b ∈ db.recent, b.height ≠ height)
    (harchive : ∀ b ∈ db.archive, b.height ≠ height) :
    returns (updateHeight conf height db) = true := by
  simp only [updateHeight, setInfoHeight, copyAccrued_of_fresh hrecent,
    copyAccrued_of_fresh harchive]
  split_ifs <;> rfl

variable {rules} {input : BlockInput} {rescanning result : Bool} {db db' : RewardsDb}
  {payments : List BatchSnPayment}

/-- What `add_block` did with a block of reward batching. -/
theorem addBlock_cases (hbatching : ¬ input.block.majorVersion < Hf.hf19RewardBatching)
    (hrun : addBlock rules rescanning input db = .ok result db') :
    ∃ db₀, beginBatching rules input.block.height db = .ok () db₀ ∧
      ((result = false ∧ input.block.height ≠ db₀.height + 1 ∧ db' = db₀) ∨
        (input.block.height = db₀.height + 1 ∧
          ∃ payments, duePayments rules input.block db₀ = .ok payments ∧
            runBody rescanning (addBlockBody rules input payments) db₀ = .ok result db')) := by
  simp only [addBlock, if_neg hbatching] at hrun
  obtain ⟨_, db₀, hbegin, hrun⟩ := bind_eq_ok_iff.mp hrun
  refine ⟨db₀, hbegin, ?_⟩
  rw [get_bind_run] at hrun
  by_cases hheight : input.block.height ≠ db₀.height + 1
  · rw [if_pos hheight, pure_run] at hrun
    cases hrun
    exact .inl ⟨rfl, hheight, rfl⟩
  · rw [if_neg hheight] at hrun
    obtain ⟨payments, db₁, hpayments, hrun⟩ := bind_eq_ok_iff.mp hrun
    refine .inr ⟨not_not.mp hheight, payments, ?_⟩
    cases hdue : duePayments rules input.block db₀ with
    | error => simp [orDbThrow, hdue] at hpayments
    | ok =>
      rw [hdue, orDbThrow, pure_run] at hpayments
      cases hpayments
      exact ⟨rfl, hrun⟩

/-- The body of the `try` block completes, or fails and is rolled back outside a rescan. -/
theorem runBody_cases {body : DbM Bool} (hrun : runBody rescanning body db = .ok result db') :
    (result = true ∧ body db = .ok true db') ∨ (result = false ∧ (∀ e, body db ≠ .ok true e) ∧
      db' = if rescanning then finalState (body db)
        else { db with height := (finalState (body db)).height }) := by
  unfold runBody at hrun
  split at hrun <;> cases hrun <;> simp_all

/-- A body that does not complete leaves the height alone, if it can be written. -/
theorem addBlockBody_height (hrecent : ∀ b ∈ db.recent, b.height ≠ db.height + 1)
    (harchive : ∀ b ∈ db.archive, b.height ≠ db.height + 1) :
    (∃ db', addBlockBody rules input payments db = .ok true db') ∨
      (finalState (addBlockBody rules input payments db)).height = db.height := by
  rw [addBlockBody_eq]
  have hpaid := payBlock_onlyAccrued rules input payments db
  cases hpay : payBlock rules input payments db with
  | error =>
    rw [hpay, finalState_error] at hpaid
    right
    rw [bind_run_of_error hpay, finalState_error, hpaid]
  | ok valid db₁ =>
    rw [hpay, finalState_ok] at hpaid
    rw [bind_run_of_ok hpay]
    cases valid with
    | false =>
      right
      rw [hpaid]
      rfl
    | true =>
      left
      have hreturns : returns (updateHeight rules.config (db₁.height + 1) db₁) = true := by
        rw [hpaid]
        exact updateHeight_returns hrecent harchive
      obtain ⟨_, hwrite⟩ := eq_ok_of_returns hreturns
      rw [if_pos rfl, get_bind_run, bind_run_of_ok hwrite]
      exact ⟨_, rfl⟩

/-- A body that fails outside a rescan leaves tables and height as they were, if the
next height can be written. -/
theorem runBody_rejected (hrecent : ∀ b ∈ db.recent, b.height ≠ db.height + 1)
    (harchive : ∀ b ∈ db.archive, b.height ≠ db.height + 1)
    (hrun : runBody false (addBlockBody rules input payments) db = .ok false db') : db' = db := by
  obtain ⟨hfalse, -⟩ | ⟨-, hnot, rfl⟩ := runBody_cases hrun
  · cases hfalse
  · have hsame := (addBlockBody_height hrecent harchive).resolve_left (fun h => hnot _ h.choose_spec)
    simp [hsame]

end

/-- Rules for concrete runs, on a fake chain with reward batching from block 100 on. -/
def batchingRules : RewardRules where
  net := ⟨.fakechain, [⟨Hf.hf7, 0, 0⟩, ⟨Hf.hf19RewardBatching, 0, 100⟩]⟩
  governanceWallet := fun _ => nullAddress
  outputKey := fun _ _ _ => some 0
  registeredForTransition := fun _ _ => false

end Xeqm.Rewards
