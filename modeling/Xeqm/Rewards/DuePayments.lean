import Xeqm.Rewards.Accounting

/-!
# Payments that are due

On sound balances the payments that `get_sn_payments` lists can be saved, and unless there are none
the balances change.
-/

namespace Xeqm.Rewards

open Cryptonote Lib ServiceNodes RewardMoney List

variable {rules : RewardRules} {db db' : RewardsDb} {payments : List BatchSnPayment} {height : ℕ}

/-- A payment takes the whole units, at least one, of the balance of its address. -/
def Due (db : RewardsDb) (payment : BatchSnPayment) : Prop :=
  ∃ row ∈ db.accrued, row.address = .oxen payment.1 ∧ payment.2 = fromCoin (row.amount / 1000) ∧
    1000 ≤ row.amount

theorem getConfig_minBatchPayment_pos (nettype : NetworkType) (hfVersion : Hf) :
    0 < (getConfig nettype).minBatchPaymentAmountAt hfVersion := by
  unfold NetworkConfig.minBatchPaymentAmountAt
  split <;> cases nettype <;> decide

theorem due_of_getSnPayments (hsound : SoundRows db.accrued)
    (hhf : getNetworkVersion rules.net height < Hf.hf22EthFixup)
    (h : getSnPayments rules height db = .ok payments) : ∀ payment ∈ payments, Due db payment := by
  have hread {rows : List AccruedRow} (hrows : rows ⊆ db.accrued)
      {pairs : List (AccountPublicAddress × ℤ)} (hpairs : readAccrued rows = .ok pairs)
      (pair : AccountPublicAddress × ℤ) (hpair : pair ∈ pairs)
      (hwhole : ∀ row ∈ rows, row.amount = pair.2 → 1000 ≤ row.amount) :
      Due db (pair.1, (fromDbAmount pair.2 (getNetworkVersion rules.net height)).truncate) := by
    have hmem := (readAccrued_perm hpairs).subset (mem_map_of_mem hpair)
    obtain ⟨row, hrow, heq⟩ := mem_map.mp hmem
    obtain ⟨haddress, hamount⟩ := Prod.mk.inj heq
    refine ⟨row, hrows hrow, haddress, ?_, hwhole row hrow hamount⟩
    rw [← hamount]
    exact truncate_fromDbAmount (hsound.nonneg row (hrows hrow)) hhf
  unfold getSnPayments at h
  split at h
  · cases h
    simp
  obtain ⟨due, hdue, h⟩ := except_bind_eq_ok_iff.mp h
  split at h
  · obtain ⟨all, hall, h⟩ := except_bind_eq_ok_iff.mp h
    cases h
    intro payment hpayment
    obtain ⟨pair, hpair, rfl⟩ := mem_map.mp hpayment
    obtain ⟨hpair, hpositive⟩ := mem_filter.mp hpair
    refine hread (Subset.refl _) hall pair hpair fun row hrow hamount => ?_
    have hnonneg := hsound.nonneg row hrow
    have hatomic := congrArg RewardMoney.atomic (truncate_fromDbAmount hnonneg hhf)
    simp only [Bool.and_eq_true, decide_eq_true_eq, toDbAtomic, ← hamount] at hpositive
    simp only [truncate, fromCoin] at hatomic
    omega
  · cases h
    intro payment hpayment
    obtain ⟨pair, hpair, rfl⟩ := mem_map.mp hpayment
    obtain ⟨hpair, -⟩ := mem_filter.mp hpair
    refine hread (filter_subset_self _) hdue pair hpair fun row hrow _ => ?_
    have hleast := of_decide_eq_true (mem_filter.mp hrow).2
    have hpos := getConfig_minBatchPayment_pos rules.net.nettype
      (getNetworkVersion rules.net height)
    simp only [RewardRules.config, batchRewardFactor] at hleast
    omega

theorem savePaymentRows_returns (hsound : SoundRows db.accrued)
    (hunique : (payments.map Prod.fst).Nodup) (hdue : ∀ payment ∈ payments, Due db payment) :
    ∃ db', savePaymentRows payments db = .ok true db' := by
  induction payments generalizing db with
  | nil => exact ⟨db, rfl⟩
  | cons first rest ih =>
    obtain ⟨⟨row, hmem, haddress, hamount, hwhole⟩, hrest⟩ := forall_mem_cons.mp hdue
    obtain ⟨hfresh, hunique⟩ := nodup_cons.mp hunique
    have hrow := hsound.accruedRow_eq hmem haddress
    have hstored := truncate_fromDbAmount (hsound.nonneg row hmem)
      (by decide : Hf.hf20EthTransition < Hf.hf22EthFixup)
    have hleft (other : AccruedRow) (hother : other ∈ db.accrued)
        (haddress' : other.address = .oxen first.1) :
        0 ≤ other.amount - first.2.toDbAmount Hf.hf20EthTransition := by
      rw [hsound.eq_of_address hmem haddress hother haddress', hamount,
        toDbAmount_eq_milli _ (by decide), milli_fromCoin]
      omega
    have hupdate := (updateAccrued_eq_ok_iff (f := fun row =>
      { row with amount := row.amount - first.2.toDbAmount Hf.hf20EthTransition })).mpr ⟨rfl, hleft⟩
    have hsound₁ := hsound.updateAccrued (by intro _; rfl) hupdate
    obtain ⟨db', hrun⟩ := ih hsound₁ hunique fun payment hpayment => by
      obtain ⟨other, hother, haddress', hdue'⟩ := hrest payment hpayment
      refine ⟨other, mem_rewrite_of_ne hother fun heq => ?_, haddress', hdue'⟩
      have hsame := PayoutAddress.oxen.inj (haddress'.symm.trans heq)
      exact hfresh (hsame ▸ mem_map_of_mem hpayment)
    refine ⟨db', ?_⟩
    simp only [savePaymentRows]
    rw [get_bind_run]
    simp only [hrow, hstored, hamount, ne_eq, not_true_eq_false, if_false]
    rw [← hamount, bind_run_of_ok hupdate, hrun]

/-- The payments that are due are saved, and the balances change unless there are none. -/
theorem savePayments_due (hsound : SoundRows db.accrued) (hunique : (payments.map Prod.fst).Nodup)
    (hdue : ∀ payment ∈ payments, Due db payment) :
    ∃ db', savePayments payments db = .ok true db' ∧ (db' = db ↔ payments = []) := by
  obtain ⟨db₁, hrows⟩ := savePaymentRows_returns hsound hunique hdue
  by_cases hnone : payments = []
  · subst hnone
    exact ⟨db, rfl, iff_of_true rfl rfl⟩
  have hrun : savePayments payments db = .ok true
      { db₁ with accrued := db₁.accrued.filter (fun row => row.amount ≠ 0) } := by
    rw [savePayments, bind_run_of_ok hrows, if_pos ⟨rfl, hnone⟩]
    rfl
  refine ⟨_, hrun, iff_of_false (fun hsame => ?_) hnone⟩
  rw [hsame] at hrun
  obtain ⟨first, hfirst⟩ := exists_mem_of_ne_nil _ hnone
  obtain ⟨row, hmem, haddress, -, hleft⟩ := savePayments_row hsound hunique hrun hfirst
  obtain ⟨row', hmem', haddress', -, hwhole⟩ := hdue first hfirst
  obtain rfl := hsound.eq_of_address hmem haddress hmem' haddress'
  split at hleft
  · exact accruedRow_none hleft row' hmem haddress
  · obtain ⟨htaken, -⟩ := accruedRow_some hleft
    have hwhole' : takeWhole row' = row' := hsound.eq_of_address hmem rfl htaken rfl
    have hamount := congrArg AccruedRow.amount hwhole'
    simp only [takeWhole] at hamount
    omega

end Xeqm.Rewards
