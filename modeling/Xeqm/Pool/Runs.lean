import Xeqm.Lib.Runs
import Xeqm.Pool.Additions

/-!
# Runs of the pool

An approved blink evicts the transactions of the pool that it conflicts with. The conflicts are
listed by key image, so a transaction that shares two key images with the blink is listed twice. Its
second removal fails, and only the table is rolled back. This module says along which runs of the
pool the structures in memory mirror the table.
-/

namespace Xeqm.Pool

open Cryptonote Lib List

namespace TxPool

variable {pool after : TxPool} {id : Hash} {stored : PoolEntry} {rollback : Option ℕ} {tx : PoolTx}
  {env : PoolEnv}

/-! ## Eviction -/

/-- The transactions that `remove_blink_conflicts` removes from the pool, in its order. -/
def evictions (env : PoolEnv) (rollback : Option ℕ) (conflictTxs : List Hash) : List Hash :=
  if conflictTxs.any env.hasBlink then []
  else ((sortConflicts env rollback conflictTxs ([], rollback.getD 0)).map Prod.fst).getD []

/-- What `remove_blink_conflicts` removes are conflicts. -/
theorem sortConflicts_subset {txids found : List Hash}
    {needed needed' : ℕ} {mempoolTxs : List Hash}
    (h : sortConflicts env rollback txids (mempoolTxs, needed) = some (found, needed')) :
    ∀ id ∈ found, id ∈ mempoolTxs ∨ id ∈ txids := by
  induction txids generalizing mempoolTxs needed with
  | nil =>
    cases h
    exact fun id hid => .inl hid
  | cons _ _ ih =>
    unfold sortConflicts at h
    intro id hid
    split at h
    · rcases ih h id hid with hmem | hmem
      · rcases mem_append.mp hmem with hmem | hmem
        · exact .inl hmem
        · exact .inr (mem_singleton.mp hmem ▸ mem_cons_self)
      · exact .inr (mem_cons_of_mem _ hmem)
    · split at h
      · rcases ih h id hid with hmem | hmem
        · exact .inl hmem
        · exact .inr (mem_cons_of_mem _ hmem)
      · cases h

theorem evictions_subset (env : PoolEnv) (rollback : Option ℕ) (conflictTxs : List Hash) :
    evictions env rollback conflictTxs ⊆ conflictTxs := by
  intro id hid
  unfold evictions at hid
  split at hid
  · cases hid
  cases hsort : sortConflicts env rollback conflictTxs ([], rollback.getD 0) with
  | none =>
    rw [hsort] at hid
    cases hid
  | some =>
    rw [hsort] at hid
    exact (sortConflicts_subset hsort id hid).resolve_left (not_mem_nil)

/-- A transaction that is not in the pool cannot be removed. -/
theorem removeTx_of_not_mem (hnot : ∀ stored, (id, stored) ∉ pool.txs) :
    pool.removeTx id none = (false, pool) := by
  unfold removeTx
  split
  · rfl
  · rw [KeyMap.get?_eq_none_iff.mpr hnot]

/-- A removal that succeeds found the transaction in the table. -/
theorem removeTx_true (h : pool.removeTx id none = (true, after)) :
    (∃ stored, (id, stored) ∈ pool.txs) ∧ after.txs = pool.txs.remove id := by
  unfold removeTx at h
  split at h
  · cases h
  cases hget : pool.txs.get? id with
  | none =>
    rw [hget] at h
    cases h
  | some stored =>
    rw [hget] at h
    cases h
    exact ⟨⟨stored, KeyMap.get?_eq_some_iff.mp hget⟩, detach_txs⟩

/-- A removal that fails leaves the pool. -/
theorem removeTx_false (h : pool.removeTx id none = (false, after)) : after = pool := by
  unfold removeTx at h
  repeat' split at h
  all_goals cases h
  all_goals rfl

/-- Removals leave only what was there. -/
theorem removeTxs_subset (pool : TxPool) (txids : List Hash) :
    ∀ e ∈ (pool.removeTxs txids).2.txs, e ∈ pool.txs := by
  induction txids generalizing pool with
  | nil => exact fun _ he => he
  | cons txid txids ih =>
    intro e he
    unfold removeTxs at he
    split at he
    · rename_i next hremove
      rwa [removeTx_false hremove] at he
    · rename_i next hremove
      have hmem := ih next e he
      rw [(removeTx_true hremove).2] at hmem
      exact (KeyMap.mem_remove.mp hmem).1

/-- `remove_blink_conflicts` stops before it removes anything, or it removes the evictions. Where
one of them cannot be removed, only the table is rolled back. -/
theorem removeBlinkConflicts_cases {pool : TxPool} {env : PoolEnv} {rollback : Option ℕ}
    {conflictTxs : List Hash} :
    (evictions env rollback conflictTxs = [] ∧
        pool.removeBlinkConflicts env conflictTxs rollback = (false, rollback, pool)) ∨
      (∃ after, pool.removeTxs (evictions env rollback conflictTxs) = (false, after) ∧
        pool.removeBlinkConflicts env conflictTxs rollback =
          (false, rollback, { after with txs := pool.txs })) ∨
      ∃ after rollback', pool.removeTxs (evictions env rollback conflictTxs) = (true, after) ∧
        pool.removeBlinkConflicts env conflictTxs rollback = (true, rollback', after) := by
  unfold evictions removeBlinkConflicts
  split
  · exact .inl ⟨rfl, rfl⟩
  · cases sortConflicts env rollback conflictTxs ([], rollback.getD 0) with
    | none => exact .inl ⟨rfl, rfl⟩
    | some found =>
      dsimp only [Option.map_some, Option.getD_some]
      cases hremove : pool.removeTxs found.1 with
      | mk removed after =>
        cases removed with
        | false => exact .inr (.inl ⟨after, rfl, rfl⟩)
        | true => exact .inr (.inr ⟨after, _, rfl, rfl⟩)

namespace SoundBut

section

variable (h : pool.SoundBut [])

include h

/-- A transaction of a sound pool is removed. -/
theorem removeTx (hstored : (id, stored) ∈ pool.txs) :
    ∃ after, pool.removeTx id none = (true, after) ∧ after.SoundBut [] ∧
      after.txs = pool.txs.remove id := by
  obtain ⟨entry, hentry, rfl, hfind⟩ := h.findInSorted hstored not_mem_nil
  refine ⟨(pool.detach entry.id stored stored.info.weight).eraseEntry entry, ?_,
    h.detach_eraseEntry hentry hstored rfl, detach_txs⟩
  unfold TxPool.removeTx
  rw [Option.none_or, hfind, KeyMap.get?_eq_some_iff.mpr hstored]

/-- Removals from a sound pool leave it sound, whether they succeed or not. -/
theorem removeTxs (txids : List Hash) : (pool.removeTxs txids).2.SoundBut [] := by
  induction txids generalizing pool with
  | nil => exact h
  | cons txid _ ih =>
    unfold TxPool.removeTxs
    cases hget : pool.txs.get? txid with
    | none =>
      rw [removeTx_of_not_mem (KeyMap.get?_eq_none_iff.mp hget)]
      exact h
    | some =>
      obtain ⟨next, hremove, hnext, -⟩ := h.removeTx (KeyMap.get?_eq_some_iff.mp hget)
      rw [hremove]
      exact ih hnext

/-- Removals succeed exactly if they name different transactions of the pool. -/
theorem removeTxs_fst_iff (txids : List Hash) :
    (pool.removeTxs txids).1 = true ↔
      txids.Nodup ∧ ∀ id ∈ txids, ∃ stored, (id, stored) ∈ pool.txs := by
  induction txids generalizing pool with
  | nil => simp [TxPool.removeTxs]
  | cons txid _ ih =>
    unfold TxPool.removeTxs
    cases hget : pool.txs.get? txid with
    | none =>
      have hnot := KeyMap.get?_eq_none_iff.mp hget
      rw [removeTx_of_not_mem hnot]
      refine iff_of_false Bool.false_ne_true ?_
      rintro ⟨-, hall⟩
      obtain ⟨stored, hstored⟩ := hall txid mem_cons_self
      exact hnot stored hstored
    | some stored =>
      have hstored := KeyMap.get?_eq_some_iff.mp hget
      obtain ⟨next, hremove, hnext, htxs⟩ := h.removeTx hstored
      rw [hremove]
      rw [ih hnext, htxs, nodup_cons, forall_mem_cons]
      simp only [KeyMap.mem_remove]
      constructor
      · rintro ⟨hnodup, hall⟩
        refine ⟨⟨fun hmem => ?_, hnodup⟩, ⟨stored, hstored⟩, fun id hid => ?_⟩
        · obtain ⟨_, _, hne⟩ := hall txid hmem
          exact hne rfl
        · obtain ⟨stored', hstored', -⟩ := hall id hid
          exact ⟨stored', hstored'⟩
      · rintro ⟨⟨hnot, hnodup⟩, -, hall⟩
        refine ⟨hnodup, fun id hid => ?_⟩
        obtain ⟨stored', hstored'⟩ := hall id hid
        refine ⟨stored', hstored', ?_⟩
        rintro rfl
        exact hnot hid

/-- After removals that start with a transaction of the pool, the index lacks that transaction. -/
theorem not_consistent_rolledBack (hstored : (id, stored) ∈ pool.txs) {image : KeyImage}
    (himage : image ∈ stored.tx.keyImages) (txids : List Hash) :
    ¬{ (pool.removeTxs (id :: txids)).2 with txs := pool.txs }.Consistent := by
  intro hafter
  obtain ⟨next, hremove, hnext, htxs⟩ := h.removeTx hstored
  have heq : pool.removeTxs (id :: txids) = next.removeTxs txids := by
    rw [TxPool.removeTxs, hremove]
  rw [heq] at hafter
  have hin : id ∈ (next.removeTxs txids).2.spentKeyImages image :=
    (hafter.keyImages image id).mpr ⟨stored, hstored, himage⟩
  obtain ⟨stored', hstored', -⟩ := ((hnext.removeTxs txids).keyImages image id).mp hin
  have hmem := removeTxs_subset next txids _ hstored'
  rw [htxs] at hmem
  exact (KeyMap.mem_remove.mp hmem).2 rfl

/-- A conflict of a sound pool is one of its transactions and shares a key image. -/
theorem exists_of_mem_conflictTxs (hid : id ∈ pool.conflictTxs tx) :
    ∃ stored image, (id, stored) ∈ pool.txs ∧ image ∈ stored.tx.keyImages := by
  obtain ⟨image, -, hmem⟩ := mem_flatMap.mp hid
  obtain ⟨stored, hstored, himage⟩ := (h.keyImages image id).mp hmem
  exact ⟨stored, image, hstored, himage⟩

/-- `remove_blink_conflicts` on a sound pool, when it removes no transaction twice. -/
theorem removeBlinkConflicts (hnodup : (evictions env rollback (pool.conflictTxs tx)).Nodup) :
    (pool.removeBlinkConflicts env (pool.conflictTxs tx) rollback).2.2.SoundBut [] := by
  have hfst := (h.removeTxs_fst_iff _).mpr ⟨hnodup, fun id hid => by
    obtain ⟨stored, -, hstored, -⟩ :=
      h.exists_of_mem_conflictTxs (evictions_subset env rollback _ hid)
    exact ⟨stored, hstored⟩⟩
  have hsound := h.removeTxs (evictions env rollback (pool.conflictTxs tx))
  obtain ⟨-, heq⟩ | ⟨after, hremove, -⟩ | ⟨after, rollback', hremove, heq⟩ :=
    removeBlinkConflicts_cases
  · rwa [heq]
  · rw [hremove] at hfst
    cases hfst
  · rw [hremove] at hsound
    rwa [heq]

/-- When it would remove a transaction twice, it fails and leaves the pool inconsistent. -/
theorem not_consistent_removeBlinkConflicts
    (hnodup : ¬(evictions env rollback (pool.conflictTxs tx)).Nodup) :
    (pool.removeBlinkConflicts env (pool.conflictTxs tx) rollback).1 = false ∧
      ¬(pool.removeBlinkConflicts env (pool.conflictTxs tx) rollback).2.2.Consistent := by
  obtain ⟨hnil, -⟩ | ⟨after, hremove, heq⟩ | ⟨after, rollback', hremove, -⟩ :=
    removeBlinkConflicts_cases
  · rw [hnil] at hnodup
    exact absurd nodup_nil hnodup
  · cases hevict : evictions env rollback (pool.conflictTxs tx) with
    | nil =>
      rw [hevict] at hnodup
      exact absurd nodup_nil hnodup
    | cons id txids =>
      have hmem : id ∈ pool.conflictTxs tx :=
        evictions_subset env rollback _ (hevict ▸ mem_cons_self)
      obtain ⟨stored, image, hstored, himage⟩ := h.exists_of_mem_conflictTxs hmem
      have hbad := h.not_consistent_rolledBack hstored himage txids
      rw [← hevict, hremove] at hbad
      rw [heq]
      exact ⟨rfl, hbad⟩
  · exact absurd ((h.removeTxs_fst_iff _).mp (congrArg Prod.fst hremove)).1 hnodup

end

end SoundBut

/-! ## Additions -/

/-- The addition of a transaction does no harm. An approved blink does not evict a transaction
twice, and what is inserted after all checks may be inserted. -/
def MayAdd (pool : TxPool) (env : PoolEnv) (opts : TxPoolOptions) (tx : PoolTx)
    (rollback : Option ℕ) : Prop :=
  ∀ fee, pool.earlyChecks env opts tx = .ok fee →
    (opts.keptByBlock = false → opts.approvedBlink = true →
      (evictions env rollback (pool.conflictTxs tx)).Nodup) ∧
    ∀ rollback' after, pool.resolveConflicts env opts tx rollback = (false, rollback', after) →
      after.lateChecks env opts tx = none → after.MayInsert opts.keptByBlock tx

/-- A transaction whose key images no transaction spends has no conflicts. -/
theorem conflictTxs_eq_nil (h : pool.haveTxKeyimgesAsSpent tx = false) :
    pool.conflictTxs tx = [] := by
  refine flatMap_eq_nil_iff.mpr fun image himage => ?_
  have hnone := any_eq_false.mp h image himage
  simpa using hnone

/-- Where something is evicted, key images are spent. -/
theorem haveTxKeyimgesAsSpent_of_evictions
    (hne : evictions env rollback (pool.conflictTxs tx) ≠ []) :
    pool.haveTxKeyimgesAsSpent tx = true := by
  by_contra hnone
  have hsub := evictions_subset env rollback (pool.conflictTxs tx)
  rw [conflictTxs_eq_nil (Bool.not_eq_true _ ▸ hnone)] at hsub hne
  exact hne (eq_nil_of_subset_nil hsub)

namespace SoundBut

variable {env : PoolEnv} {opts : TxPoolOptions} {tx : PoolTx} {rollback : Option ℕ}

section

variable (h : pool.SoundBut [])

include h

/-- The conflicts of a transaction are resolved without harm. -/
theorem resolveConflicts (hnodup : opts.keptByBlock = false → opts.approvedBlink = true →
      (evictions env rollback (pool.conflictTxs tx)).Nodup) :
    (pool.resolveConflicts env opts tx rollback).2.2.SoundBut [] := by
  unfold TxPool.resolveConflicts
  split
  · exact h
  split
  · exact h
  rename_i hkept
  split
  · rename_i hblink
    exact h.removeBlinkConflicts (hnodup (by simpa using hkept) hblink)
  · exact h

/-- An approved blink that evicts a transaction twice is rejected and leaves the pool
inconsistent. -/
theorem not_consistent_resolveConflicts (hkept : opts.keptByBlock = false)
    (hblink : opts.approvedBlink = true)
    (hnodup : ¬(evictions env rollback (pool.conflictTxs tx)).Nodup) :
    (pool.resolveConflicts env opts tx rollback).1 = true ∧
      ¬(pool.resolveConflicts env opts tx rollback).2.2.Consistent := by
  have hspent := haveTxKeyimgesAsSpent_of_evictions fun hnil => hnodup (hnil ▸ nodup_nil)
  obtain ⟨hfailed, hbad⟩ := h.not_consistent_removeBlinkConflicts hnodup
  unfold TxPool.resolveConflicts
  rw [hspent, hkept, hblink]
  exact ⟨by simp [hfailed], hbad⟩

/-- An addition that does no harm keeps a pool sound. -/
theorem addTx (hmay : pool.MayAdd env opts tx rollback) :
    (pool.addTx env opts tx rollback).2.2.SoundBut [] := by
  unfold TxPool.addTx
  cases hearly : pool.earlyChecks env opts tx with
  | error => exact h
  | ok fee =>
    obtain ⟨hnodup, hinsert⟩ := hmay fee hearly
    have hresolved := h.resolveConflicts hnodup
    cases hresolve : pool.resolveConflicts env opts tx rollback with
    | mk double rest =>
      obtain ⟨rollback', after⟩ := rest
      rw [hresolve] at hresolved
      cases double with
      | true => exact hresolved.markDoubleSpend tx
      | false =>
        dsimp only
        cases hlate : after.lateChecks env opts tx with
        | none => exact hresolved.insertTx (hinsert _ _ hresolve hlate) env fee
        | some error => cases error <;> first | exact hresolved | exact hresolved.markDoubleSpend tx

/-- Any other addition makes a sound pool inconsistent. -/
theorem not_consistent_addTx (hmay : ¬pool.MayAdd env opts tx rollback) :
    ¬(pool.addTx env opts tx rollback).2.2.Consistent := by
  unfold MayAdd at hmay
  push Not at hmay
  obtain ⟨fee, hearly, hmay⟩ := hmay
  unfold TxPool.addTx
  rw [hearly]
  by_cases hnodup : opts.keptByBlock = false → opts.approvedBlink = true →
      (evictions env rollback (pool.conflictTxs tx)).Nodup
  · obtain ⟨rollback', after, hresolve, hlate, hinsert⟩ := hmay hnodup
    have hresolved := h.resolveConflicts hnodup
    rw [hresolve] at hresolved ⊢
    dsimp only
    rw [hlate]
    exact SoundBut.not_consistent_insertTx hresolved hinsert
  · push Not at hnodup
    obtain ⟨hkept, hblink, hnodup⟩ := hnodup
    obtain ⟨hdouble, hbad⟩ := h.not_consistent_resolveConflicts hkept hblink hnodup
    cases hresolve : pool.resolveConflicts env opts tx rollback with
    | mk _ rest =>
      obtain ⟨rollback', after⟩ := rest
      rw [hresolve] at hdouble hbad
      cases hdouble
      intro hafter
      exact hbad ((sameBut_markDoubleSpend after tx).symm.consistent hafter)

end

end SoundBut

end TxPool

/-! ## Runs -/

/-- An operation keeps a consistent pool consistent. -/
def PoolStep.Keeps (pool : TxPool) : PoolStep → Prop
  | .addTx env opts tx rollback => pool.MayAdd env opts tx rollback
  | .removeBlinkConflicts env tx rollback =>
    (TxPool.evictions env rollback (pool.conflictTxs tx)).Nodup
  | .takeTx _ | .prune _ _ | .removeStuckTransactions _ | .validate _ => True

/-- Such an operation keeps a pool sound. -/
theorem TxPool.SoundBut.run {pool : TxPool} (h : pool.SoundBut []) {step : PoolStep}
    (hkeeps : step.Keeps pool) : (step.run pool).SoundBut [] := by
  cases step with
  | addTx => exact h.addTx hkeeps
  | removeBlinkConflicts => exact h.removeBlinkConflicts hkeeps
  | takeTx id => exact h.takeTx id
  | prune env skip => exact h.prune env skip
  | removeStuckTransactions env => exact h.removeStuckTransactions env
  | validate env => exact h.validate env

/-- Any other operation makes a sound pool inconsistent. -/
theorem TxPool.SoundBut.not_consistent_run {pool : TxPool} (h : pool.SoundBut [])
    {step : PoolStep} (hkeeps : ¬step.Keeps pool) : ¬(step.run pool).Consistent := by
  cases step with
  | addTx => exact h.not_consistent_addTx hkeeps
  | removeBlinkConflicts =>
    exact (h.not_consistent_removeBlinkConflicts hkeeps).2
  | takeTx | prune | removeStuckTransactions | validate => exact absurd trivial hkeeps

/-- The empty pool is sound. -/
theorem TxPool.soundBut_empty {maxWeight : ℕ} :
    ({ txpoolMaxWeight := maxWeight } : TxPool).SoundBut [] where
  id_eq := fun _ he => absurd he OrdSet.not_mem_empty
  weight_eq := fun _ he => absurd he OrdSet.not_mem_empty
  images_nodup := fun _ he => absurd he OrdSet.not_mem_empty
  index_nodup := fun _ => nodup_nil
  keyImages := by
    intro image id
    refine iff_of_false not_mem_nil ?_
    rintro ⟨stored, hstored, -⟩
    exact OrdSet.not_mem_empty hstored
  priorities := .refl _
  weight := rfl

/-- The structures in memory mirror the table all along a run exactly if no approved blink evicts a
transaction twice and every insertion either stops at the first key image or adds a transaction
that is not in the pool. -/
theorem pool_consistent_iff (maxWeight : ℕ) (steps : List PoolStep) :
    (∀ n, (PoolStep.runAll { txpoolMaxWeight := maxWeight } (steps.take n)).Consistent) ↔
      AllAlong PoolStep.run (fun pool step => step.Keeps pool)
        { txpoolMaxWeight := maxWeight } steps := by
  have himp (pool : TxPool) (h : pool.SoundBut []) : pool.Consistent :=
    (TxPool.soundBut_nil_iff.mp h).2
  have hkeep (pool : TxPool) (step : PoolStep) (h : pool.SoundBut []) (hkeeps : step.Keeps pool) :
      (step.run pool).SoundBut [] := h.run hkeeps
  have hbreak (pool : TxPool) (step : PoolStep) (h : pool.SoundBut [])
      (hkeeps : ¬step.Keeps pool) : ¬(step.run pool).Consistent := h.not_consistent_run hkeeps
  exact forall_take_iff himp hkeep hbreak TxPool.soundBut_empty steps

/-! ## A blink that shares two key images with a transaction of the pool -/

/-- Answers under which every transaction is fine. -/
def acceptingEnv : PoolEnv where
  hfVersion := Hf.hf19RewardBatching
  minerFee := fun _ => some (0, 0)
  checkFee := fun _ _ _ _ _ => true
  duplicatedNonStandard := fun _ _ => false
  checkTxOutputs := fun _ => true
  checkTxInputs := fun _ => true
  hasBlink := fun _ => false
  txHeight := fun _ => 0
  immutableHeight := 0
  haveTx := fun _ => false
  now := 1000

/-- A transaction with two inputs. -/
def payment : PoolTx := { id := 1, keyImages := [10, 20], weight := 2000 }

/-- A blink that spends the same two inputs. -/
def doubleBlink : PoolTx := { id := 2, keyImages := [10, 20], weight := 2000 }

/-- The payment is added, and then the approved blink. -/
def doubleBlinkRun : List PoolStep :=
  [.addTx acceptingEnv {} payment none,
    .addTx acceptingEnv { approvedBlink := true } doubleBlink none]

/-- The blink is rejected, and the payment stays in the table without its key images. -/
theorem doubleBlink_leaves_pool_inconsistent :
    ¬(PoolStep.runAll { txpoolMaxWeight := 1000000 } doubleBlinkRun).Consistent := by
  intro h
  have hstored : ∃ e ∈ (PoolStep.runAll { txpoolMaxWeight := 1000000 } doubleBlinkRun).txs.toList,
      e.1 = 1 ∧ (10 : KeyImage) ∈ e.2.tx.keyImages := by decide +kernel
  obtain ⟨e, he, hid, himage⟩ := hstored
  have hin := (h.keyImages 10 1).mpr ⟨e.2, hid ▸ he, himage⟩
  have hnot : (1 : Hash) ∉ (PoolStep.runAll { txpoolMaxWeight := 1000000 }
      doubleBlinkRun).spentKeyImages 10 := by decide +kernel
  exact hnot hin

end Xeqm.Pool
