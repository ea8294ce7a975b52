import Xeqm.ServiceNodes.Frames

/-!
# The list along a changing chain

What `process_block` and `blockchain_detached` do to the kept states and quorums,
and what follows for every run of the two: which states the history and the
archive hold, which quorums `get_quorum` finds, and at which heights a detach
leaves the list and the rewards database.
-/

namespace Xeqm.ServiceNodes

open Cryptonote Lib Rewards List

/-! ## The search in the old quorums -/

variable {entries : List QuorumsByHeight}

private theorem height_le_of_sorted (hsorted : entries.Pairwise (fun a b => a.height ≤ b.height))
    {i j : ℕ} {a b : QuorumsByHeight} (ha : entries[i]? = some a) (hb : entries[j]? = some b)
    (hij : i ≤ j) : a.height ≤ b.height := by
  obtain ⟨hi, rfl⟩ := List.getElem?_eq_some_iff.mp ha
  obtain ⟨hj, rfl⟩ := List.getElem?_eq_some_iff.mp hb
  rcases hij.eq_or_lt with rfl | hlt
  · exact le_refl _
  · exact pairwise_iff_getElem.mp hsorted i j hi hj hlt

variable {height : ℕ}

/-- The search splits a sorted list at the height, if it starts with a range that
does and has enough steps left. -/
private theorem lowerBoundFrom_spec (hsorted : entries.Pairwise (fun a b => a.height ≤ b.height))
    {fuel first len : ℕ} (hfuel : len ≤ fuel) (hrange : first + len ≤ entries.length)
    (hbelow : ∀ j e, entries[j]? = some e → j < first → e.height < height)
    (habove : ∀ j e, entries[j]? = some e → first + len ≤ j → height ≤ e.height) :
    (∀ j e, entries[j]? = some e → j < lowerBoundFrom entries height fuel first len →
      e.height < height) ∧
    ∀ j e, entries[j]? = some e → lowerBoundFrom entries height fuel first len ≤ j →
      height ≤ e.height := by
  induction fuel generalizing first len with
  | zero =>
    obtain rfl : len = 0 := by omega
    exact ⟨hbelow, habove⟩
  | succ fuel ih =>
    cases len with
    | zero => exact ⟨hbelow, habove⟩
    | succ len =>
      obtain ⟨mid, hmid⟩ : ∃ mid, entries[first + (len + 1) / 2]? = some mid :=
        ⟨_, List.getElem?_eq_getElem (by omega)⟩
      simp only [lowerBoundFrom, hmid]
      split
      · refine ih (by omega) (by omega) (fun j e he hj => ?_) (fun j e he hj => ?_)
        · exact (height_le_of_sorted hsorted he hmid (by omega)).trans_lt ‹_›
        · exact habove j e he (by omega)
      · refine ih (by omega) (by omega) hbelow (fun j e he hj => ?_)
        exact (not_lt.mp ‹_›).trans (height_le_of_sorted hsorted hmid he hj)

/-- What the search finds is kept. -/
theorem mem_of_findOldQuorums {quorums : QuorumManager}
    (hfind : findOldQuorums entries height = some quorums) :
    ⟨height, quorums⟩ ∈ entries := by
  unfold findOldQuorums at hfind
  split at hfind
  · rename_i entry hentry
    split at hfind
    · rename_i hheight
      obtain rfl : entry.quorums = quorums := by simpa using hfind
      subst hheight
      exact mem_of_getElem? hentry
    · cases hfind
  · cases hfind

/-- In a sorted list the search finds something at the height of every entry. -/
theorem findOldQuorums_of_mem (hsorted : entries.Pairwise (fun a b => a.height ≤ b.height))
    {entry : QuorumsByHeight} (hentry : entry ∈ entries) :
    ∃ quorums, findOldQuorums entries entry.height = some quorums := by
  obtain ⟨k, hk⟩ := getElem?_of_mem hentry
  obtain ⟨hbelow, habove⟩ := @lowerBoundFrom_spec entries entry.height hsorted
    entries.length 0 entries.length (le_refl _) (by omega) (fun _ _ _ hj => absurd hj (by omega))
    (fun j e he hj => absurd (List.getElem?_eq_some_iff.mp he).1 (by omega))
  unfold findOldQuorums
  generalize lowerBoundFrom entries entry.height entries.length 0 entries.length = r at *
  have hr : r ≤ k := by
    by_contra hlt
    exact absurd (hbelow k entry hk (by omega)) (lt_irrefl _)
  obtain ⟨found, hfound⟩ : ∃ found, entries[r]? = some found :=
    ⟨_, List.getElem?_eq_getElem (hr.trans_lt (List.getElem?_eq_some_iff.mp hk).1)⟩
  have hheight : found.height = entry.height :=
    (height_le_of_sorted hsorted hfound hk hr).antisymm (habove r found hfound (le_refl r))
  exact ⟨found.quorums, by simp [hfound, hheight]⟩

/-! ## One call -/

/-- Height and quorums of the state are the same. -/
def SameQuorums (w w' : World) : Prop :=
  w'.state.height = w.state.height ∧ w'.state.quorums = w.state.quorums

instance : Std.Refl SameQuorums := ⟨fun _ => ⟨rfl, rfl⟩⟩

instance : IsTrans World SameQuorums :=
  ⟨fun _ _ _ h h' => ⟨h'.1.trans h.1, h'.2.trans h.2⟩⟩

variable {l l' : ServiceNodeList} {α : Type}

/-- A run on the current state that returns. -/
theorem onMainState_eq_ok_iff {m : UpdateM α} {a : α} :
    onMainState m l = .ok a l' ↔
      ∃ w, m ⟨l.state, l.shared⟩ = .ok a w ∧
        l' = { l with state := w.state, shared := w.shared } := by
  unfold onMainState
  cases m ⟨l.state, l.shared⟩ with
  | ok _ w =>
    simp only [EStateM.Result.ok.injEq]
    constructor
    · rintro ⟨rfl, rfl⟩
      exact ⟨w, ⟨rfl, rfl⟩, rfl⟩
    · rintro ⟨_, ⟨rfl, rfl⟩, rfl⟩
      exact ⟨rfl, rfl⟩
  | error => simp

/-- Where a run on the current state ends. -/
theorem finalState_onMainState (m : UpdateM α) (l : ServiceNodeList) :
    finalState (onMainState m l) =
      { l with
        state := (finalState (m ⟨l.state, l.shared⟩)).state
        shared := (finalState (m ⟨l.state, l.shared⟩)).shared } := by
  unfold onMainState
  cases m ⟨l.state, l.shared⟩ <;> rfl

section

variable {σ : Type} (chain : Chain σ) (migrations : Migrations)

/-- What `process_block` leaves in the containers, by returning or by throwing. -/
structure Stored (l l' : ServiceNodeList) : Prop where
  history : l'.history = (storeStates chain.config chain.storeQuorumHistory l).history
  archive : l'.archive = (storeStates chain.config chain.storeQuorumHistory l).archive
  oldQuorums : l'.oldQuorums = (storeStates chain.config chain.storeQuorumHistory l).oldQuorums

variable {chain migrations}

/-- A block changes nothing before service nodes. Otherwise the current state is
stored, and wherever the call ends the height is not lower. -/
theorem processBlock_cases (block : Block) (txs : List Transaction) (l : ServiceNodeList) :
    (finalState (processBlock chain migrations block txs l) = l) ∨
      (Stored chain l (finalState (processBlock chain migrations block txs l)) ∧
        l.state.height ≤ (finalState (processBlock chain migrations block txs l)).state.height) := by
  unfold processBlock
  split
  · exact .inl rfl
  · right
    simp only [modify_bind_run, get_bind_run, finalState_onMainState]
    refine ⟨⟨rfl, rfl, rfl⟩, ?_⟩
    exact updateFromBlock_notLower ⟨l.state, l.shared⟩

/-- A block that is processed leads one block higher. -/
theorem processBlock_height {block : Block} {txs : List Transaction} {result : BlockAddResult}
    (hrun : processBlock chain migrations block txs l = .ok result l') :
    l' = l ∨ (Stored chain l l' ∧ l'.state.height = l.state.height + 1) := by
  unfold processBlock at hrun
  split at hrun
  · cases hrun
    exact .inl rfl
  · right
    obtain ⟨w, hupdate, rfl⟩ := onMainState_eq_ok_iff.mp hrun
    exact ⟨⟨rfl, rfl, rfl⟩, updateFromBlock_height hupdate⟩

/-- Removing zombies keeps height and quorums. -/
theorem cleanupZombiesFromState_sameQuorums :
    Keeps SameQuorums (cleanupZombiesFromState chain) := by
  have hwrite (f : State → State) (hf : ∀ s, (f s).height = s.height ∧ (f s).quorums = s.quorums) :
      Keeps SameQuorums (modifyState f) := .modify fun w => hf w.state
  refine .pure_ite fun _ => ?_
  refine .read fun w => ?_
  refine .forM fun node _ => ?_
  refine .bind (.read (fun w => ?_)) fun _ => hwrite _ fun _ => ⟨rfl, rfl⟩
  refine .pure_ite fun _ => ?_
  refine .bind ?_ fun _ => hwrite _ fun _ => ⟨rfl, rfl⟩
  unfold snpkToXpk
  split
  · exact .pure
  · exact .throw

/-- The height a completed detach leaves in the rewards database. -/
theorem blockchainDetached_height {conf : NetworkConfig} {table : PaymentTableType}
    {db db' : RewardsDb} (hrun : blockchainDetached conf table height db = .ok () db') :
    db'.height = height := by
  unfold blockchainDetached at hrun
  rw [get_bind_run] at hrun
  split at hrun
  · exact updateHeight_height hrun
  · cases table <;> obtain ⟨_, _, _, hrun⟩ := bind_eq_ok_iff.mp hrun <;>
      exact updateHeight_height hrun

/-- A completed write to the rewards database. -/
theorem onListSqlite_eq_ok {m : DbM α} {a : α} (hrun : onListSqlite m l = .ok a l') :
    ∃ db, m l.shared.sqlite = .ok a db ∧
      l' = { l with shared := { l.shared with sqlite := db } } := by
  obtain ⟨w, hw, rfl⟩ := onMainState_eq_ok_iff.mp hrun
  unfold onSqlite at hw
  cases hm : m l.shared.sqlite with
  | ok _ db =>
    simp only [hm, EStateM.Result.ok.injEq] at hw
    obtain ⟨rfl, rfl⟩ := hw
    exact ⟨db, rfl, rfl⟩
  | error => simp [hm] at hw

/-- A detach that goes back to a recent state. -/
def ServedFromRecent (chain : Chain σ) (l : ServiceNodeList) (height : ℕ) (backup : State) : Prop :=
  ¬ (l.state.height = height - 1 ∧ l.shared.sqlite.height = height - 1) ∧
    recentBackup chain l (height - 1) = some backup

/-- A detach that goes back to an archived state. -/
def ServedFromArchive (chain : Chain σ) (l : ServiceNodeList) (height : ℕ) (backup : State) : Prop :=
  ¬ (l.state.height = height - 1 ∧ l.shared.sqlite.height = height - 1) ∧
    recentBackup chain l (height - 1) = none ∧ archiveBackup chain l (height - 1) = some backup

/-- The four ways a detach completes. -/
inductive Detached (chain : Chain σ) (height : ℕ) (l l' : ServiceNodeList) : Prop
  | already (hlist : l.state.height = height - 1) (hsqlite : l.shared.sqlite.height = height - 1)
      (hsame : l' = l)
  | recent (backup : State) (hserved : ServedFromRecent chain l height backup)
      (hheight : l'.state.height = backup.height) (hquorums : l'.state.quorums = backup.quorums)
      (hsqlite : l'.shared.sqlite.height = backup.height)
      (hhistory : l'.history = l.history.eraseAbove backup.height)
      (harchive : l'.archive = l.archive) (hold : l'.oldQuorums = l.oldQuorums)
  | archive (backup : State) (hserved : ServedFromArchive chain l height backup)
      (hheight : l'.state.height = backup.height) (hquorums : l'.state.quorums = backup.quorums)
      (hsqlite : l'.shared.sqlite.height = backup.height)
      (hhistory : l'.history = OrdSet.empty)
      (harchive : l'.archive = l.archive.eraseAbove backup.height)
      (hold : l'.oldQuorums = l.oldQuorums)
  | reset (hheight : l'.state = { height := resetHeight chain.net })
      (hsqlite : l'.shared.sqlite.height = resetHeight chain.net)
      (hhistory : l'.history = OrdSet.empty) (harchive : l'.archive = OrdSet.empty)
      (hold : l'.oldQuorums = [])

/-- A completed detach to the current height of the list. -/
private theorem detachSqlite_spec {table : PaymentTableType}
    (hrun : detachSqlite chain table l = .ok () l') :
    l'.shared.sqlite.height = l.state.height ∧
      l' = { l with shared := { l.shared with sqlite := l'.shared.sqlite } } := by
  unfold detachSqlite at hrun
  obtain ⟨db, hdb, rfl⟩ := onListSqlite_eq_ok hrun
  exact ⟨blockchainDetached_height hdb, rfl⟩

variable {backup : State} {l : ServiceNodeList}

/-- A backup that is restored. -/
private theorem restoreState_spec (hrun : restoreState chain backup l = .ok () l') :
    (l'.state.height = backup.height ∧ l'.state.quorums = backup.quorums) ∧
      l' = { l with state := l'.state, shared := l'.shared } := by
  unfold restoreState at hrun
  obtain ⟨w, hw, rfl⟩ := onMainState_eq_ok_iff.mp hrun
  exact ⟨cleanupZombiesFromState_sameQuorums.of_ok hw, rfl⟩

/-- A list that is reset. -/
private theorem resetList_spec (hrun : resetList chain l = .ok () l') :
    l'.state = { height := resetHeight chain.net } ∧ l'.history = OrdSet.empty ∧
      l'.archive = OrdSet.empty ∧ l'.oldQuorums = [] := by
  unfold resetList at hrun
  rw [modify_bind_run] at hrun
  split at hrun
  · rw [pure_run] at hrun
    obtain ⟨_, rfl⟩ := EStateM.Result.ok.inj hrun
    exact ⟨rfl, rfl, rfl, rfl⟩
  · obtain ⟨db, _, rfl⟩ := onListSqlite_eq_ok hrun
    exact ⟨rfl, rfl, rfl, rfl⟩

/-- What a completed detach did. -/
theorem detachList_cases (hrun : detachList chain height l = .ok () l') :
    Detached chain height l l' := by
  unfold detachList at hrun
  rw [get_bind_run] at hrun
  by_cases halready : l.state.height = height - 1 ∧ l.shared.sqlite.height = height - 1
  · rw [if_pos halready, pure_run] at hrun
    obtain ⟨_, rfl⟩ := EStateM.Result.ok.inj hrun
    exact .already halready.1 halready.2 rfl
  · rw [if_neg halready] at hrun
    cases hrecent : recentBackup chain l (height - 1) with
    | some backup =>
      simp only [hrecent] at hrun
      obtain ⟨_, l₁, hrestore, hrun⟩ := bind_eq_ok_iff.mp hrun
      obtain ⟨⟨hheight, hquorums⟩, hl₁⟩ := restoreState_spec hrestore
      obtain ⟨hsqlite, hl'⟩ := detachSqlite_spec hrun
      rw [hl'] at hsqlite ⊢
      exact .recent backup ⟨halready, hrecent⟩ hheight hquorums (hsqlite.trans hheight) (by rw [hl₁])
        (by rw [hl₁]) (by rw [hl₁])
    | none =>
      cases harchive : archiveBackup chain l (height - 1) with
      | some backup =>
        simp only [hrecent, harchive, modify_bind_run] at hrun
        obtain ⟨_, l₁, hrestore, hrun⟩ := bind_eq_ok_iff.mp hrun
        obtain ⟨⟨hheight, hquorums⟩, hl₁⟩ := restoreState_spec hrestore
        obtain ⟨hsqlite, hl'⟩ := detachSqlite_spec hrun
        rw [hl'] at hsqlite ⊢
        exact .archive backup ⟨halready, hrecent, harchive⟩ hheight hquorums
          (hsqlite.trans hheight) (by rw [hl₁]) (by rw [hl₁]) (by rw [hl₁])
      | none =>
        simp only [hrecent, harchive] at hrun
        obtain ⟨_, l₁, hreset, hrun⟩ := bind_eq_ok_iff.mp hrun
        obtain ⟨hstate, hhistory, harchive, hold⟩ := resetList_spec hreset
        obtain ⟨hsqlite, hl'⟩ := detachSqlite_spec hrun
        rw [hl'] at hsqlite ⊢
        exact .reset hstate (hsqlite.trans (by rw [hstate])) hhistory harchive hold

/-- A recent backup is a kept state at or below the target. -/
theorem recentBackup_spec {target : ℕ}
    (hfound : recentBackup chain l target = some backup) :
    backup ∈ l.history ∧ backup.height ≤ target := by
  have hmem := mem_of_find?_eq_some hfound
  have hsome := find?_some hfound
  simp only [Bool.and_eq_true, decide_eq_true_eq] at hsome
  exact ⟨mem_reverse.mp hmem, hsome.1.2⟩

/-- An archived backup is a kept state at or below the target. -/
theorem archiveBackup_spec {target : ℕ}
    (hfound : archiveBackup chain l target = some backup) :
    backup ∈ l.archive ∧ backup.height ≤ target := by
  have hmem := mem_of_find?_eq_some hfound
  have hsome := find?_some hfound
  simp only [Bool.and_eq_true, decide_eq_true_eq] at hsome
  exact ⟨mem_reverse.mp hmem, hsome.1.1.2.trans (Nat.sub_le _ _)⟩

end

end Xeqm.ServiceNodes
