import Xeqm.Pool.Runs

/-!
# Rejected transactions

`add_tx` evicts the conflicts of an approved blink before it has checked the outputs, the inputs and
the key images of the blink. When one of these checks fails, the transaction is rejected, but what
was evicted stays out of the pool. This module says exactly when a rejection keeps the pool's
transactions, in any state of the pool.
-/

namespace Xeqm.Pool

open Cryptonote Lib List

namespace TxPool

variable {pool after : TxPool} {env : PoolEnv} {opts : TxPoolOptions} {tx : PoolTx}
  {rollback rollback' : Option ℕ} {conflictTxs : List Hash} {fee : ℕ}

/-- The transactions in the pool. -/
def transactions (pool : TxPool) : List (Hash × PoolTx) :=
  pool.txs.toList.map (fun e => (e.1, e.2.tx))

theorem transactions_congr (h : after.txs = pool.txs) : after.transactions = pool.transactions := by
  unfold transactions
  rw [h]

theorem SameBut.transactions (h : pool.SameBut after) : after.transactions = pool.transactions := by
  have hmap (p : TxPool) : p.transactions = p.skeleton.map (fun e => (e.1, e.2.1)) := by
    simp [TxPool.transactions, TxPool.skeleton, Function.comp_def]
  rw [hmap, hmap, h.skeleton]

/-- An approved blink evicts transactions, and is then rejected. -/
def EvictsInVain (pool : TxPool) (env : PoolEnv) (opts : TxPoolOptions) (tx : PoolTx)
    (rollback : Option ℕ) : Prop :=
  (pool.earlyChecks env opts tx).isOk = true ∧ opts.keptByBlock = false ∧
    opts.approvedBlink = true ∧ evictions env rollback (pool.conflictTxs tx) ≠ [] ∧
    ∃ rollback' after,
      pool.removeBlinkConflicts env (pool.conflictTxs tx) rollback = (true, rollback', after) ∧
      (after.lateChecks env opts tx ≠ none ∨ ¬after.ImagesFree false tx)

/-! ## Removals from any pool -/

/-- Removals that succeed take at least one transaction out, if there are any. -/
theorem transactions_removeTxs_ne {txids : List Hash} (hne : txids ≠ [])
    (h : pool.removeTxs txids = (true, after)) : after.transactions ≠ pool.transactions := by
  obtain ⟨txid, txids, rfl⟩ := exists_cons_of_ne_nil hne
  unfold removeTxs at h
  split at h
  · cases h
  rename_i next hremove
  obtain ⟨⟨stored, hstored⟩, htxs⟩ := removeTx_true hremove
  intro heq
  have hmem : (txid, stored.tx) ∈ pool.transactions := mem_map.mpr ⟨(txid, stored), hstored, rfl⟩
  rw [← heq] at hmem
  obtain ⟨e, he, hpair⟩ := mem_map.mp hmem
  have hleft := removeTxs_subset next txids e (h ▸ he)
  rw [htxs] at hleft
  exact (KeyMap.mem_remove.mp hleft).2 (congrArg Prod.fst hpair)

/-- `remove_blink_conflicts` that fails leaves the table. -/
theorem removeBlinkConflicts_false
    (h : pool.removeBlinkConflicts env conflictTxs rollback = (false, rollback', after)) :
    after.txs = pool.txs := by
  obtain ⟨-, heq⟩ | ⟨next, -, heq⟩ | ⟨next, rollback'', -, heq⟩ := removeBlinkConflicts_cases
  all_goals
    rw [heq] at h
    cases h
  · rfl
  · rfl

/-- `remove_blink_conflicts` that succeeds removes the evictions. -/
theorem removeBlinkConflicts_true
    (h : pool.removeBlinkConflicts env conflictTxs rollback = (true, rollback', after)) :
    pool.removeTxs (evictions env rollback conflictTxs) = (true, after) := by
  obtain ⟨-, heq⟩ | ⟨next, -, heq⟩ | ⟨next, rollback'', hremove, heq⟩ := removeBlinkConflicts_cases
  all_goals
    rw [heq] at h
    cases h
  exact hremove

/-! ## The steps of `add_tx` -/

/-- A double spend leaves the table. -/
theorem resolveConflicts_true
    (h : pool.resolveConflicts env opts tx rollback = (true, rollback', after)) :
    after.txs = pool.txs := by
  unfold resolveConflicts at h
  split at h
  · cases h
  split at h
  · simp only [Prod.mk.injEq] at h
    obtain ⟨-, -, rfl⟩ := h
    rfl
  · split at h
    · cases hremove : pool.removeBlinkConflicts env (pool.conflictTxs tx) rollback with
      | mk removed rest =>
        obtain ⟨rollback'', next⟩ := rest
        rw [hremove] at h
        cases removed with
        | true => cases h
        | false =>
          cases h
          exact removeBlinkConflicts_false hremove
    · cases h
      rfl

/-- Otherwise the table is as before, or transactions were evicted for an approved blink. -/
theorem resolveConflicts_false
    (h : pool.resolveConflicts env opts tx rollback = (false, rollback', after)) :
    after.txs = pool.txs ∨ (opts.keptByBlock = false ∧ opts.approvedBlink = true ∧
      evictions env rollback (pool.conflictTxs tx) ≠ [] ∧
      pool.removeBlinkConflicts env (pool.conflictTxs tx) rollback = (true, rollback', after)) := by
  unfold resolveConflicts at h
  split at h
  · cases h
    exact .inl rfl
  · split at h
    · simp only [Prod.mk.injEq] at h
      obtain ⟨-, -, rfl⟩ := h
      exact .inl rfl
    · rename_i hkept
      split at h
      · rename_i hblink
        cases hremove : pool.removeBlinkConflicts env (pool.conflictTxs tx) rollback with
        | mk removed rest =>
          obtain ⟨rollback'', next⟩ := rest
          rw [hremove] at h
          cases removed with
          | false => cases h
          | true =>
            cases h
            have hremoved := removeBlinkConflicts_true hremove
            by_cases hnil : evictions env rollback (pool.conflictTxs tx) = []
            · rw [hnil] at hremoved
              cases hremoved
              exact .inl rfl
            · exact .inr ⟨by simpa using hkept, hblink, hnil, rfl⟩
      · cases h

/-- A blink that evicts goes on to the late checks. -/
theorem resolveConflicts_of_evicted (hkept : opts.keptByBlock = false)
    (hblink : opts.approvedBlink = true)
    (hne : evictions env rollback (pool.conflictTxs tx) ≠ [])
    (h : pool.removeBlinkConflicts env (pool.conflictTxs tx) rollback = (true, rollback', after)) :
    pool.resolveConflicts env opts tx rollback = (false, rollback', after) := by
  unfold resolveConflicts
  rw [haveTxKeyimgesAsSpent_of_evictions hne, hkept, hblink, h]
  rfl

/-- An insertion that fails leaves the table, and it fails exactly if the key images are not
free. -/
theorem insertTx_rejected_iff (pool : TxPool) (env : PoolEnv) (opts : TxPoolOptions)
    (tx : PoolTx) (fee : ℕ) :
    (pool.insertTx env opts tx fee).1 ≠ none ↔ ¬pool.ImagesFree opts.keptByBlock tx := by
  obtain ⟨_, -, hnot, heq⟩ | ⟨_, _, _, _, -, hfree, -, -, heq⟩ :=
    insertTx_cases pool env opts tx fee
  · simp [heq, hnot]
  · simp [heq, hfree]

theorem insertTx_rejected_txs (h : (pool.insertTx env opts tx fee).1 ≠ none) :
    (pool.insertTx env opts tx fee).2.txs = pool.txs := by
  obtain ⟨_, -, -, heq⟩ | ⟨_, _, _, _, -, -, -, -, heq⟩ := insertTx_cases pool env opts tx fee
  · rw [heq]
  · rw [heq] at h
    exact absurd rfl h

/-- What `add_tx` does after the conflicts. -/
def finish (pool : TxPool) (env : PoolEnv) (opts : TxPoolOptions) (tx : PoolTx) (fee : ℕ) :
    Option AddTxError × TxPool :=
  match pool.lateChecks env opts tx with
  | some .duplicateNonStandard => (some .duplicateNonStandard, pool.markDoubleSpend tx)
  | some error => (some error, pool)
  | none => pool.insertTx env opts tx fee

theorem addTx_of_resolved (hearly : pool.earlyChecks env opts tx = .ok fee)
    (h : pool.resolveConflicts env opts tx rollback = (false, rollback', after)) :
    pool.addTx env opts tx rollback =
      ((after.finish env opts tx fee).1, rollback', (after.finish env opts tx fee).2) := by
  unfold addTx finish
  rw [hearly]
  rw [h]
  dsimp only
  cases after.lateChecks env opts tx with
  | none => rfl
  | some error => cases error <;> rfl

/-- A rejection after the conflicts keeps the transactions that are left. -/
theorem finish_transactions (h : (pool.finish env opts tx fee).1 ≠ none) :
    (pool.finish env opts tx fee).2.transactions = pool.transactions := by
  unfold finish at h ⊢
  cases hlate : pool.lateChecks env opts tx with
  | none =>
    rw [hlate] at h
    exact transactions_congr (insertTx_rejected_txs h)
  | some error =>
    cases error <;> first | rfl | exact (sameBut_markDoubleSpend pool tx).transactions

/-- When the transaction is rejected after the conflicts. -/
theorem finish_rejected_iff (pool : TxPool) (env : PoolEnv) (opts : TxPoolOptions)
    (tx : PoolTx) (fee : ℕ) :
    (pool.finish env opts tx fee).1 ≠ none ↔
      pool.lateChecks env opts tx ≠ none ∨ ¬pool.ImagesFree opts.keptByBlock tx := by
  unfold finish
  cases hlate : pool.lateChecks env opts tx with
  | none => simpa using insertTx_rejected_iff pool env opts tx fee
  | some error => cases error <;> simp

/-! ## The rejection -/

/-- A rejected transaction leaves the transactions of the pool as they were, unless it is an
approved blink that evicted some before it was rejected. -/
theorem rejected_addTx_keeps_transactions_iff (pool : TxPool) (env : PoolEnv)
    (opts : TxPoolOptions) (tx : PoolTx) (rollback : Option ℕ) :
    ((pool.addTx env opts tx rollback).1 ≠ none →
      (pool.addTx env opts tx rollback).2.2.transactions = pool.transactions) ↔
    ¬pool.EvictsInVain env opts tx rollback := by
  constructor
  · rintro hkeeps ⟨hok, hkept, hblink, hne, rollback', after, hremove, hreject⟩
    obtain ⟨fee, hearly⟩ : ∃ fee, pool.earlyChecks env opts tx = .ok fee := by
      cases hearly : pool.earlyChecks env opts tx with
      | error => simp [hearly, Except.isOk, Except.toBool] at hok
      | ok fee => exact ⟨fee, rfl⟩
    have hresolve := resolveConflicts_of_evicted hkept hblink hne hremove
    rw [addTx_of_resolved hearly hresolve] at hkeeps
    have hrejected := (finish_rejected_iff after env opts tx fee).mpr (hkept ▸ hreject)
    refine transactions_removeTxs_ne hne (removeBlinkConflicts_true hremove) ?_
    rw [← hkeeps hrejected, finish_transactions hrejected]
  · intro hvain hrejected
    cases hearly : pool.earlyChecks env opts tx with
    | error =>
      unfold addTx
      rw [hearly]
    | ok fee =>
      cases hresolve : pool.resolveConflicts env opts tx rollback with
      | mk double rest =>
        obtain ⟨rollback', after⟩ := rest
        cases double with
        | true =>
          have htxs := transactions_congr (resolveConflicts_true hresolve)
          unfold addTx
          rw [hearly]
          rw [hresolve]
          exact (sameBut_markDoubleSpend after tx).transactions.trans htxs
        | false =>
          rw [addTx_of_resolved hearly hresolve] at hrejected ⊢
          refine (finish_transactions hrejected).trans ?_
          rcases resolveConflicts_false hresolve with htxs | ⟨hkept, hblink, hne, hremove⟩
          · exact transactions_congr htxs
          · have hreject := (finish_rejected_iff after env opts tx fee).mp hrejected
            rw [hkept] at hreject
            have hok : (pool.earlyChecks env opts tx).isOk = true := by
              rw [hearly]
              rfl
            exact absurd ⟨hok, hkept, hblink, hne, rollback', after, hremove, hreject⟩ hvain

/-- Answers under which the outputs of the second transaction are wrong. -/
def badOutputEnv : PoolEnv := { acceptingEnv with checkTxOutputs := fun tx => tx.id ≠ 2 }

/-- A blink that spends one input of the payment. -/
def badBlink : PoolTx := { payment with id := 2, keyImages := [10] }

/-- The blink is rejected for its outputs, and the payment is gone. -/
theorem badBlink_evicts_payment :
    let pool := PoolStep.runAll { txpoolMaxWeight := 1000000 } [.addTx acceptingEnv {} payment none]
    let result := pool.addTx badOutputEnv { approvedBlink := true } badBlink none
    result.1 = some .invalidOutput ∧ pool.transactions = [(1, payment)] ∧
      result.2.2.transactions = [] := by
  decide +kernel

end TxPool

end Xeqm.Pool
