import Xeqm.Pool.Consistency

/-!
# Pruning of the pool

`prune` removes transactions one by one. It never meets a failure, also in a pool whose weight is
not that of the table, and it leaves such an excess as it is.
-/

namespace Xeqm.Pool

open Cryptonote Lib List

/-- The scan goes past the entry: it is not standard, and older than the lifetime. -/
def PriorityEntry.expired (env : PoolEnv) (entry : PriorityEntry) : Bool :=
  entry.priority ≠ .standard ∧ entry.receiveTime + 3600 < env.now

namespace TxPool

variable {pool after : TxPool} {env : PoolEnv} {skip : Hash} {excess : ℕ}
  {entries : List PriorityEntry} {entry : PriorityEntry}

/-! ## The loops -/

/-- `try_pruning` for entries one after another, up to a failure. -/
def tryAll (env : PoolEnv) (skip : Hash) : List PriorityEntry → TxPool → Bool × TxPool
  | [], pool => (true, pool)
  | entry :: entries, pool =>
    match tryPruning env skip pool entry with
    | (false, pool) => (false, pool)
    | (true, pool) => tryAll env skip entries pool

/-- The loop from the front tries the entries up to the first that is not expired. -/
theorem pruneOld_eq : pruneOld env skip entries pool =
    tryAll env skip (entries.takeWhile (PriorityEntry.expired env)) pool := by
  induction entries generalizing pool with
  | nil => rfl
  | cons entry entries ih =>
    unfold pruneOld
    split
    · rename_i hstop
      have hlive : ¬entry.expired env = true := by
        simpa [PriorityEntry.expired, ← or_iff_not_imp_left] using hstop
      rw [takeWhile_cons_of_neg hlive]
      rfl
    · rename_i hgo
      have hexpired : entry.expired env = true := by
        simpa [PriorityEntry.expired, not_or] using hgo
      rw [takeWhile_cons_of_pos hexpired]
      rw [tryAll]
      rcases tryPruning env skip pool entry with ⟨_ | _, next⟩
      · rfl
      · exact ih

/-- The loop from the back tries standard entries only. -/
theorem pruneHeavy_eq : ∃ visited, visited <+: entries ∧
    (∀ entry ∈ visited, entry.priority = .standard) ∧
    pruneHeavy env skip entries pool = tryAll env skip visited pool := by
  induction entries generalizing pool with
  | nil => exact ⟨[], prefix_rfl, by simp, rfl⟩
  | cons entry entries ih =>
    by_cases hstop : pool.txpoolWeight ≤ pool.txpoolMaxWeight ∨ entry.priority ≠ .standard
    · exact ⟨[], nil_prefix, by simp, if_pos hstop⟩
    · obtain ⟨visited, hprefix, hstandard, heq⟩ := @ih (tryPruning env skip pool entry).2
      refine ⟨entry :: visited, cons_prefix_cons.mpr ⟨rfl, hprefix⟩,
        forall_mem_cons.mpr ⟨not_not.mp (not_or.mp hstop).2, hstandard⟩, ?_⟩
      rw [pruneHeavy, if_neg hstop, tryAll]
      split <;> simp_all

theorem tryAll_cons_iff :
    tryAll env skip (entry :: entries) pool = (true, after) ↔
      ∃ next, tryPruning env skip pool entry = (true, next) ∧
        tryAll env skip entries next = (true, after) := by
  rw [tryAll]
  split <;> simp_all

/-! ## Frames of a removal -/

@[simp]
theorem detach_txs {pool : TxPool} {id : Hash} {stored : PoolEntry} {weight : ℕ} :
    (pool.detach id stored weight).txs = pool.txs.remove id := by
  unfold detach removeTransactionKeyimages
  dsimp only
  split <;> rfl

@[simp]
theorem detach_txsByPriority (pool : TxPool) (id : Hash) (stored : PoolEntry) (weight : ℕ) :
    (pool.detach id stored weight).txsByPriority = pool.txsByPriority := by
  unfold detach removeTransactionKeyimages
  dsimp only
  split <;> rfl

@[simp]
theorem detach_txpoolWeight (pool : TxPool) (id : Hash) (stored : PoolEntry) (weight : ℕ) :
    (pool.detach id stored weight).txpoolWeight = pool.txpoolWeight - weight := by
  unfold detach removeTransactionKeyimages
  dsimp only
  split <;> rfl

/-! ## Removals by `prune` -/

/-- A removal of a transaction other than the one to skip, with its place in the order. -/
def Removal (skip : Hash) (pool after : TxPool) : Prop :=
  ∃ entry stored, entry ∈ pool.txsByPriority ∧ (entry.id, stored) ∈ pool.txs ∧ entry.id ≠ skip ∧
    after = (pool.detach entry.id stored stored.info.weight).eraseEntry entry

/-- Removals one after another. -/
abbrev Prunes (skip : Hash) : TxPool → TxPool → Prop := Relation.ReflTransGen (Removal skip)

/-- What `prune` needs of a pool. The transaction to skip may be in the order twice, and the weight
may be above that of the table. -/
structure Prunable (skip : Hash) (excess : ℕ) (pool : TxPool) : Prop where
  stored : ∀ entry ∈ pool.txsByPriority, ∃ stored, (entry.id, stored) ∈ pool.txs
  unique : ∀ a ∈ pool.txsByPriority, ∀ b ∈ pool.txsByPriority, a.id = b.id → a.id ≠ skip → a = b
  weight : pool.txpoolWeight = pool.tableWeight + excess

namespace Prunable

section

variable (h : Prunable skip excess pool)

include h

/-- A removal leaves the other entries and the excess. -/
theorem removal (hremoval : Removal skip pool after) : Prunable skip excess after := by
  obtain ⟨entry, stored, hentry, hstored, hskip, rfl⟩ := hremoval
  refine ⟨?_, ?_, ?_⟩
  · intro other hother
    obtain ⟨hmem, hkey⟩ := OrdSet.mem_erase.mp hother
    rw [detach_txsByPriority] at hmem
    obtain ⟨stored', hstored'⟩ := h.stored other hmem
    refine ⟨stored', ?_⟩
    change (other.id, stored') ∈ (pool.detach entry.id stored stored.info.weight).txs
    rw [detach_txs]
    refine KeyMap.mem_remove.mpr ⟨hstored', ?_⟩
    intro hid
    exact hkey (congrArg PriorityEntry.key (h.unique other hmem entry hentry hid
      (fun heq => hskip (hid.symm.trans heq))))
  · intro a ha b hb
    have hmem {e : PriorityEntry} (he : e ∈ ((pool.detach entry.id stored
        stored.info.weight).eraseEntry entry).txsByPriority) : e ∈ pool.txsByPriority := by
      have hin := (OrdSet.mem_erase.mp he).1
      rwa [detach_txsByPriority] at hin
    exact h.unique a (hmem ha) b (hmem hb)
  · have htotal := tableWeight_remove hstored
    have hpool := h.weight
    change (pool.detach entry.id stored stored.info.weight).txpoolWeight =
      ((pool.detach entry.id stored stored.info.weight).txs.toList.map
        (fun e => e.2.info.weight)).sum + excess
    rw [detach_txpoolWeight, detach_txs]
    omega

/-- `try_pruning` does not fail, and touches only the entry that it is given. -/
theorem tryPruning (env : PoolEnv) (hentry : entry ∈ pool.txsByPriority) :
    ∃ after, TxPool.tryPruning env skip pool entry = (true, after) ∧ Prunable skip excess after ∧
      Prunes skip pool after ∧
      ∀ other ∈ pool.txsByPriority, other ≠ entry → other ∈ after.txsByPriority := by
  obtain ⟨stored, hstored⟩ := h.stored entry hentry
  have hget := KeyMap.get?_eq_some_iff.mpr hstored
  unfold TxPool.tryPruning removeTx
  rw [hget]
  dsimp only
  split
  · exact ⟨pool, rfl, h, .refl, fun other hother _ => hother⟩
  · rename_i hkeep
    have hskip : entry.id ≠ skip := by
      rintro rfl
      simp at hkeep
    have hremoval : Removal skip pool
        ((pool.detach entry.id stored stored.info.weight).eraseEntry entry) :=
      ⟨entry, stored, hentry, hstored, hskip, rfl⟩
    refine ⟨_, rfl, h.removal hremoval, .single hremoval, ?_⟩
    intro other hother hne
    refine OrdSet.mem_erase.mpr ⟨?_, ?_⟩
    · rwa [detach_txsByPriority]
    · intro hkey
      exact hne (OrdSet.eq_of_key_eq hother hentry hkey)

/-- The loops do not fail. -/
theorem tryAll (env : PoolEnv) (hnodup : entries.Nodup)
    (hmem : ∀ entry ∈ entries, entry ∈ pool.txsByPriority) :
    ∃ after, TxPool.tryAll env skip entries pool = (true, after) ∧
      Prunable skip excess after ∧ Prunes skip pool after := by
  induction entries generalizing pool with
  | nil => exact ⟨pool, rfl, h, .refl⟩
  | cons _ _ ih =>
    obtain ⟨hnot, hnodup⟩ := nodup_cons.mp hnodup
    obtain ⟨next, htry, hnext, hprunes, hothers⟩ := h.tryPruning env (hmem _ mem_cons_self)
    obtain ⟨after, hloop, hafter, hrest⟩ := ih hnext hnodup (fun other hother =>
      hothers other (hmem other (mem_cons_of_mem _ hother)) (fun heq => hnot (heq ▸ hother)))
    exact ⟨after, tryAll_cons_iff.mpr ⟨next, htry, hloop⟩, hafter, hprunes.trans hrest⟩

/-- `prune` is a number of removals. -/
theorem prune (env : PoolEnv) :
    ∃ after cookie, pool.prune env skip = { after with cookie } ∧ Prunable skip excess after ∧
      Prunes skip pool after := by
  obtain ⟨next, hold, hnext, hfirst⟩ := h.tryAll env
    (pool.txsByPriority.toList_nodup.sublist (takeWhile_sublist (PriorityEntry.expired env)))
    (fun _ hentry => takeWhile_subset _ hentry)
  obtain ⟨visited, hvisited, -, hloop⟩ :=
    @pruneHeavy_eq next env skip next.txsByPriority.toList.tail.reverse
  obtain ⟨after, hheavy, hafter, hrest⟩ := hnext.tryAll env
    ((nodup_reverse.mpr next.txsByPriority.toList_nodup.tail).sublist hvisited.sublist)
    (fun entry hentry => mem_of_mem_tail (mem_reverse.mp (hvisited.subset hentry)))
  unfold TxPool.prune
  rw [pruneOld_eq, hold]
  dsimp only
  rw [hloop, hheavy]
  dsimp only
  split
  · exact ⟨after, _, rfl, hafter, hfirst.trans hrest⟩
  · exact ⟨after, after.cookie, rfl, hafter, hfirst.trans hrest⟩

end

end Prunable

namespace SoundBut

/-- A sound pool can be pruned. -/
theorem prunable (h : pool.SoundBut []) (skip : Hash) : Prunable skip 0 pool where
  stored := fun _ hentry => h.stored_of_mem hentry
  unique := by
    intro a ha b hb hid _
    have hnodup : (pool.txsByPriority.toList.map PriorityEntry.id).Nodup :=
      h.priorities.nodup_iff.mpr KeyMap.keys_nodup
    exact inj_on_of_nodup_map hnodup ha hb hid
  weight := h.weight

/-- Removals keep a pool sound. -/
theorem prunes (h : pool.SoundBut []) (hprunes : Prunes skip pool after) : after.SoundBut [] := by
  induction hprunes with
  | refl => exact h
  | tail _ hremoval ih =>
    obtain ⟨entry, stored, hentry, hstored, -, rfl⟩ := hremoval
    exact ih.detach_eraseEntry hentry hstored rfl

theorem prune (h : pool.SoundBut []) (env : PoolEnv) (skip : Hash) :
    (pool.prune env skip).SoundBut [] := by
  obtain ⟨after, cookie, heq, -, hprunes⟩ := (h.prunable skip).prune env
  rw [heq]
  exact (h.prunes hprunes).setCookie _ _

end SoundBut

end TxPool

end Xeqm.Pool
