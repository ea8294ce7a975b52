import Xeqm.Pool.Runs

/-!
# The lifetime of non-standard transactions

`prune` drops state changes and L2 events after an hour. Its scan stops at the first entry that is
not expired, while the order is by priority and fee before it is by time.
-/

namespace Xeqm.Pool

open Cryptonote Lib List

namespace TxPool

/-- The two loops of `prune` meet no failure, so that it gets to its commit. -/
def PruneCommits (env : PoolEnv) (skip : Hash) (pool : TxPool) : Prop :=
  let old := pruneOld env skip pool.txsByPriority.toList pool
  old.1 = true ∧ (pruneHeavy env skip old.2.txsByPriority.toList.tail.reverse old.2).1 = true

/-- A transaction that is expired and not kept by a block, a blink or the one just added. -/
def Overdue (env : PoolEnv) (skip : Hash) (pool : TxPool) (entry : PriorityEntry) : Prop :=
  entry.expired env = true ∧ env.hasBlink entry.id = false ∧ entry.id ≠ skip ∧
    ∃ stored, (entry.id, stored) ∈ pool.txs ∧ stored.info.keptByBlock = false

/-- Neither the order nor the table has the transaction. -/
def Gone (pool : TxPool) (entry : PriorityEntry) : Prop :=
  entry ∉ pool.txsByPriority ∧ ∀ stored, (entry.id, stored) ∉ pool.txs

variable {env : PoolEnv} {skip : Hash} {pool after : TxPool} {entry : PriorityEntry}
  {entries : List PriorityEntry}

/-- What a successful `try_pruning` does to the entry: it stays if it may, and is gone otherwise. -/
theorem tryPruning_true (h : tryPruning env skip pool entry = (true, after)) :
    ∃ stored, (entry.id, stored) ∈ pool.txs ∧
      (after = pool ∧ ¬pool.Overdue env skip entry ∨
        after = (pool.detach entry.id stored stored.info.weight).eraseEntry entry) := by
  unfold tryPruning at h
  split at h
  · cases h
  rename_i stored hget
  have hstored := KeyMap.get?_eq_some_iff.mp hget
  refine ⟨stored, hstored, ?_⟩
  split at h
  · rename_i hkeep
    refine .inl ⟨(congrArg Prod.snd h).symm, ?_⟩
    rintro ⟨-, hblink, hskip, stored', hstored', hkept⟩
    rw [KeyMap.value_unique hstored' hstored] at hkept
    simp [hkept, hblink, hskip] at hkeep
  · unfold removeTx at h
    rw [hget] at h
    exact .inr (congrArg Prod.snd h).symm

/-- Pruning adds nothing, and takes no entry out of the order at another place than those that
are tried. -/
theorem tryAll_frame (h : tryAll env skip entries pool = (true, after)) :
    (∀ e ∈ after.txs, e ∈ pool.txs) ∧ (∀ e ∈ after.txsByPriority, e ∈ pool.txsByPriority) ∧
      ∀ e ∈ pool.txsByPriority, (∀ tried ∈ entries, tried.key ≠ e.key) →
        e ∈ after.txsByPriority := by
  induction entries generalizing pool with
  | nil =>
    cases h
    exact ⟨fun _ he => he, fun _ he => he, fun _ he _ => he⟩
  | cons entry _ ih =>
    obtain ⟨next, htry, hrest⟩ := tryAll_cons_iff.mp h
    obtain ⟨htxs, horder, hkeeps⟩ := ih hrest
    obtain ⟨stored, -, ⟨rfl, -⟩ | rfl⟩ := tryPruning_true htry
    · exact ⟨htxs, horder, fun e he hother =>
        hkeeps e he (fun tried htried => hother tried (mem_cons_of_mem _ htried))⟩
    · simp only [eraseEntry, detach_txs, detach_txsByPriority, KeyMap.mem_remove,
        OrdSet.mem_erase] at htxs horder hkeeps
      exact ⟨fun e he => (htxs e he).1, fun e he => (horder e he).1, fun e he hother =>
        hkeeps e ⟨he, (hother entry mem_cons_self).symm⟩
          (fun tried htried => hother tried (mem_cons_of_mem _ htried))⟩

theorem Gone.tryAll (h : pool.Gone entry)
    (htries : TxPool.tryAll env skip entries pool = (true, after)) : after.Gone entry := by
  obtain ⟨htxs, horder, -⟩ := tryAll_frame htries
  exact ⟨fun hin => h.1 (horder entry hin), fun stored hin => h.2 stored (htxs _ hin)⟩

/-- Each entry that is tried has a transaction in the table, and an overdue one goes. -/
theorem tryAll_gone (h : tryAll env skip entries pool = (true, after)) (hmem : entry ∈ entries) :
    (∃ stored, (entry.id, stored) ∈ pool.txs) ∧ (pool.Overdue env skip entry → after.Gone entry) := by
  induction entries generalizing pool with
  | nil => cases hmem
  | cons first _ ih =>
    obtain ⟨next, htry, hrest⟩ := tryAll_cons_iff.mp h
    obtain ⟨stored, hstored, hnext⟩ := tryPruning_true htry
    rcases mem_cons.mp hmem with rfl | hmem
    · refine ⟨⟨stored, hstored⟩, fun hoverdue => ?_⟩
      rcases hnext with ⟨rfl, hnot⟩ | rfl
      · exact absurd hoverdue hnot
      · refine Gone.tryAll ⟨?_, ?_⟩ hrest <;>
          simp [eraseEntry, KeyMap.mem_remove, OrdSet.mem_erase]
    · obtain ⟨⟨row, hrow⟩, hgone⟩ := ih hrest hmem
      -- the transaction is still in the table when its own turn comes
      have hfirst : tryAll env skip [first] pool = (true, next) :=
        tryAll_cons_iff.mpr ⟨next, htry, rfl⟩
      have hold := (tryAll_frame hfirst).1 _ hrow
      refine ⟨⟨row, hold⟩, ?_⟩
      rintro ⟨hexpired, hblink, hskip, row', hrow', hkept⟩
      rw [KeyMap.value_unique hrow' hold] at hkept
      exact hgone ⟨hexpired, hblink, hskip, row, hrow, hkept⟩

/-! ## The whole of `prune` -/

theorem key_ne_of_standard {standard other : PriorityEntry} (hstandard : standard.priority = .standard)
    (hother : other.priority ≠ .standard) : standard.key ≠ other.key := by
  intro heq
  have hrank : standard.priority.rank = other.priority.rank :=
    congrArg (fun key => (ofLex key).1) heq
  cases hpriority : other.priority <;> simp_all [TxPriority.rank]

/-- A `prune` that gets to its commit takes the overdue transactions out of the order and of the
table, exactly if no overdue one has an entry before it in the order at which the scan stops. -/
theorem prune_overdue_gone_iff (hcommit : pool.PruneCommits env skip) :
    (∀ entry ∈ pool.txsByPriority, pool.Overdue env skip entry → (pool.prune env skip).Gone entry) ↔
      ∀ entry ∈ pool.txsByPriority, pool.Overdue env skip entry →
        ∀ other ∈ pool.txsByPriority, other.key < entry.key → other.expired env = true := by
  unfold PruneCommits at hcommit
  cases hold : pruneOld env skip pool.txsByPriority.toList pool with | mk done next =>
  rw [hold] at hcommit
  cases hheavy : pruneHeavy env skip next.txsByPriority.toList.tail.reverse next with | mk done' last =>
  obtain ⟨rfl, hdone⟩ := hcommit
  rw [hheavy] at hdone
  cases hdone
  have hafter (entry : PriorityEntry) : (pool.prune env skip).Gone entry ↔ last.Gone entry := by
    unfold prune
    rw [hold]
    dsimp only
    rw [hheavy]
    dsimp only
    split <;> exact Iff.rfl
  rw [pruneOld_eq] at hold
  obtain ⟨visited, -, hstandard, hloop⟩ :=
    @pruneHeavy_eq next env skip next.txsByPriority.toList.tail.reverse
  rw [hloop] at hheavy
  refine forall_congr' fun entry => forall_congr' fun hentry => forall_congr' fun hoverdue => ?_
  rw [hafter]
  have hreached := OrdSet.mem_takeWhile_iff (p := PriorityEntry.expired env) hentry
  constructor
  · intro hgone
    by_contra hnot
    -- no loop gets to the entry: the first stops before it, and the second is for others
    have hmiss : ∀ tried ∈ pool.txsByPriority.toList.takeWhile (PriorityEntry.expired env),
        tried.key ≠ entry.key := by
      intro tried htried heq
      have hin : tried ∈ pool.txsByPriority := takeWhile_subset _ htried
      rw [OrdSet.eq_of_key_eq hin hentry heq] at htried
      exact hnot (hreached.mp htried).2
    have hnonstandard : entry.priority ≠ .standard := (of_decide_eq_true hoverdue.1).1
    have hstays := (tryAll_frame hold).2.2 entry hentry hmiss
    exact hgone.1 ((tryAll_frame hheavy).2.2 entry hstays
      (fun tried htried => key_ne_of_standard (hstandard tried htried) hnonstandard))
  · intro hbefore
    exact ((tryAll_gone hold (hreached.mpr ⟨hoverdue.1, hbefore⟩)).2 hoverdue).tryAll hheavy

end TxPool

/-- A pool with a state change that arrived at time 1000. -/
def stateChangePool : TxPool :=
  PoolStep.run { txpoolMaxWeight := 1000000 }
    (.addTx acceptingEnv {} { payment with type := .stateChange, keyImages := [] } none)

/-- Behind the state change come one that is a blink and one that arrived 3000 seconds later. More
than an hour after it arrived, the first one goes and the others stay. -/
theorem prune_overdue_gone_oldest :
    let env := { acceptingEnv with now := 5000, hasBlink := fun id => id = 3 }
    let change (id : Hash) : PoolTx := { id, type := .stateChange, weight := 2000 }
    let pool := PoolStep.runAll stateChangePool
      [.addTx { acceptingEnv with now := 1100 } {} (change 3) none,
        .addTx { acceptingEnv with now := 4000 } {} (change 2) none]
    pool.txsByPriority.toList.map PriorityEntry.id = [1, 3, 2] ∧
      (pool.prune env 0).txsByPriority.toList.map PriorityEntry.id = [3, 2] ∧
      ∀ entry ∈ pool.txsByPriority, pool.Overdue env 0 entry → (pool.prune env 0).Gone entry := by
  intro env change pool
  refine ⟨by decide +kernel, by decide +kernel,
    (TxPool.prune_overdue_gone_iff (by unfold TxPool.PruneCommits; decide +kernel)).mpr ?_⟩
  have hbefore : ∀ entry ∈ pool.txsByPriority.toList, entry.expired env = true →
      ∀ other ∈ pool.txsByPriority.toList, other.key < entry.key → other.expired env = true := by
    decide +kernel
  exact fun entry hentry hoverdue => hbefore entry hentry hoverdue.1

/-- An L2 event arrives almost two hours after the state change, and stands before it in the
order: 200 seconds later `prune` gets to its commit and leaves the state change. -/
theorem old_stateChange_stays :
    let env := { acceptingEnv with now := 8200 }
    let pool := stateChangePool.addTx { acceptingEnv with now := 8000 } {}
      { id := 2, type := .ethereumNewServiceNodeV2, weight := 2000 } none |>.2.2
    pool.PruneCommits env 0 ∧
      ∃ entry ∈ pool.txsByPriority, pool.Overdue env 0 entry ∧ ¬(pool.prune env 0).Gone entry := by
  intro env pool
  have hcommits : pool.PruneCommits env 0 := by
    unfold TxPool.PruneCommits
    decide +kernel
  have hrow : ∃ e ∈ pool.txs.toList, e.1 = 1 ∧ e.2.info.keptByBlock = false := by decide +kernel
  obtain ⟨⟨id, stored⟩, hstored, rfl, hkept⟩ := hrow
  let entry : PriorityEntry :=
    { priority := .stateChange, feePerByte := 0, receiveTime := 1000, id := 1 }
  have hentry : entry ∈ pool.txsByPriority := by decide +kernel
  have hstays : entry ∈ (pool.prune env 0).txsByPriority := by decide +kernel
  exact ⟨hcommits, entry, hentry, ⟨by decide, rfl, by decide, stored, hstored, hkept⟩,
    fun hgone => hgone.1 hstays⟩

end Xeqm.Pool
