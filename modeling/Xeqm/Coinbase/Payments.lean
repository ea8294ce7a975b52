import Xeqm.Coinbase.Validation
import Xeqm.Rewards.DuePayments

/-!
# Outputs of payments that are due

Payments that are due are paid out exactly, and outputs that are made from them match them.
-/

namespace Xeqm.Coinbase

open Cryptonote Lib ServiceNodes Rewards List

variable {db : RewardsDb} {payments : List BatchSnPayment} {height : ℕ} {rules : CoinbaseRules}
  {txKey : SecretKey}

/-- The reward of a payment that is due. -/
def dueReward (payment : BatchSnPayment) : RewardPayout :=
  ⟨.snode, payment.1, toCoin payment.2⟩

/-- The balances fit into the columns of the database. -/
def FitColumns (accrued : List AccruedRow) : Prop := ∀ row ∈ accrued, row.amount < 2 ^ 63

/-- A payment that is due is a number of whole units. -/
theorem toCoin_of_due {payment : BatchSnPayment} (h : Due db payment)
    (hsound : SoundRows db.accrued) (hfit : FitColumns db.accrued) :
    ((toCoin payment.2).toNat : ℤ) = payment.2.atomic ∧
      RewardMoney.fromCoin (toCoin payment.2).toNat = payment.2 ∧
      (toCoin payment.2).toNat ≤ (2 ^ 64 - 1) / 1000 := by
  obtain ⟨row, hrow, -, hamount, -⟩ := h
  have hnonneg := hsound.nonneg row hrow
  have hlt := hfit row hrow
  have hatomic : payment.2.atomic = row.amount / 1000 := by
    rw [hamount]
    rfl
  have hnat : (toCoin payment.2).toNat = (row.amount / 1000).toNat := by
    unfold toCoin
    rw [hatomic, UInt64.toNat_ofNat']
    omega
  refine ⟨?_, ?_, ?_⟩
  · rw [hnat, hatomic]
    omega
  · rw [hnat, hamount]
    congr 1
    omega
  · rw [hnat]
    omega

/-- The outputs for payments, from an index on: one for each payment, with its key and amount. -/
theorem mapM_makeOutput_spec {start : ℕ}
    {vout : List (PublicKey × UInt64)}
    (h : ((payments.map dueReward).zipIdx start).mapM (makeOutput rules txKey height) = some vout) :
    vout.length = payments.length ∧
      vout.map Prod.snd = payments.map (fun payment => toCoin payment.2) ∧
      ∀ x ∈ (vout.zip payments).zipIdx start,
        x.1.1.2 = toCoin x.1.2.2 ∧ rules.outputKey x.1.2.1 height x.2 = some x.1.1.1 ∧
          x.1.2 ∈ payments := by
  induction payments generalizing start vout with
  | nil =>
    cases h
    exact ⟨rfl, rfl, fun _ hnone => absurd hnone not_mem_nil⟩
  | cons _ _ ih =>
    rw [map_cons, zipIdx_cons, mapM_cons] at h
    obtain ⟨first, hfirst, h⟩ := Option.bind_eq_some_iff.mp h
    obtain ⟨others, hothers, h⟩ := Option.bind_eq_some_iff.mp h
    cases h
    obtain ⟨key, hkey, rfl⟩ := Option.map_eq_some_iff.mp hfirst
    obtain ⟨hlength, hamounts, hall⟩ := ih hothers
    refine ⟨by simp [hlength], by simp [hamounts, dueReward], ?_⟩
    intro x hx
    rcases mem_cons.mp hx with rfl | hx
    · exact ⟨rfl, hkey, mem_cons_self⟩
    · obtain ⟨hamount, houtput, hmem⟩ := hall x hx
      exact ⟨hamount, houtput, mem_cons_of_mem _ hmem⟩

/-- The outputs can be made exactly if every key can be derived. -/
theorem mapM_makeOutput_isSome_iff (start : ℕ) :
    (((payments.map dueReward).zipIdx start).mapM (makeOutput rules txKey height)).isSome = true ↔
      ∀ x ∈ payments.zipIdx start, (rules.outputKey x.1.1 height x.2).isSome = true := by
  induction payments generalizing start with
  | nil => simp
  | cons payment rest ih =>
    have hone : (makeOutput rules txKey height (dueReward payment, start)).isSome =
        (rules.outputKey payment.1 height start).isSome := Option.isSome_map
    rw [map_cons, zipIdx_cons, mapM_cons, zipIdx_cons, forall_mem_cons, ← ih (start + 1), ← hone]
    cases hfirst : makeOutput rules txKey height (dueReward payment, start) with
    | none => simp
    | some =>
      cases hothers : ((rest.map dueReward).zipIdx (start + 1)).mapM
          (makeOutput rules txKey height) with
      | none => simp
      | some others => simp

end Xeqm.Coinbase
