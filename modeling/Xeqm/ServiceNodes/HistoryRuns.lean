import Xeqm.ServiceNodes.History

/-!
# Runs over a changing chain

A run adds blocks and detaches. Along it a ghost list remembers the states that
the chain followed now has produced: a detach abandons those above the height it
goes back to. The theorems compare the containers of the list with it. The last one
says which alternative states `process_block` leaves.
-/

namespace Xeqm.ServiceNodes

open Cryptonote Lib Rewards List
open OrdSet (not_mem_empty mem_eraseAbove find?_eq_some_iff)

variable {height : ℕ} {result : BlockAddResult} {entry : QuorumsByHeight} {txs : List Transaction}

section

variable {σ : Type} (chain : Chain σ) (migrations : Migrations)

/-- Runs of `process_block` and `blockchain_detached` with the states that the
current chain has produced. Every detach of the run is `admitted`. -/
inductive ListRun (admitted : ServiceNodeList → ℕ → Prop) (start : ServiceNodeList) :
    ServiceNodeList → List State → Prop
  | start : ListRun admitted start start [start.state]
  | process {l l' : ServiceNodeList} {produced : List State} {block : Block}
      {txs : List Transaction} {result : BlockAddResult}
      (hrun : ListRun admitted start l produced)
      (hstep : processBlock chain migrations block txs l = .ok result l') :
      ListRun admitted start l' (produced ++ [l'.state])
  | detach {l l' : ServiceNodeList} {produced : List State} {height : ℕ}
      (hrun : ListRun admitted start l produced) (hadmitted : admitted l height)
      (hstep : detachList chain height l = .ok () l') :
      ListRun admitted start l'
        (produced.filter (fun s => s.height ≤ l'.state.height) ++ [l'.state])

/-- No archived state lies above the recent state that a detach goes back to. -/
def ArchiveBelow (l : ServiceNodeList) (height : ℕ) : Prop :=
  ∀ backup, ServedFromRecent chain l height backup → ∀ s ∈ l.archive, s.height ≤ backup.height

/-- No old quorums, and no archived state either, lie above the state that a
detach goes back to. -/
def QuorumsBelow (l : ServiceNodeList) (height : ℕ) : Prop :=
  ArchiveBelow chain l height ∧
    ∀ backup, ServedFromRecent chain l height backup ∨ ServedFromArchive chain l height backup →
      ∀ entry ∈ l.oldQuorums, entry.height ≤ backup.height

variable {chain migrations} {start l l' : ServiceNodeList} {produced : List State}

/-! ## The kept states -/

/-- The archive takes the current state, or its quorums, or nothing. -/
theorem mem_storeArchive {conf : NetworkConfig} {state s : State} {archive : StateSet}
    (hs : s ∈ storeArchive conf state archive) :
    s ∈ archive ∨ s = state ∨ s = quorumRemnant state := by
  unfold storeArchive at hs
  split at hs
  · rcases OrdSet.mem_insert.mp hs with hs | ⟨rfl, _⟩
    · exact .inl hs
    · exact .inr (.inr rfl)
  · split at hs
    · rcases OrdSet.mem_insert.mp hs with hs | ⟨rfl, _⟩
      · exact .inl hs
      · exact .inr (.inl rfl)
    · exact .inl hs

variable {s : State}

/-- The history after a block holds earlier entries and the state before the block. -/
theorem Stored.mem_history (h : Stored chain l l') (hs : s ∈ l'.history) :
    s ∈ l.history ∨ s = l.state := by
  rw [h.history] at hs
  rcases OrdSet.mem_insert.mp (OrdSet.mem_eraseBelow.mp hs).1 with hs | ⟨rfl, _⟩
  · exact .inl hs
  · exact .inr rfl

/-- The archive after a block holds earlier entries and what was stored of the
state before the block. -/
theorem Stored.mem_archive (h : Stored chain l l') (hs : s ∈ l'.archive) :
    s ∈ l.archive ∨ s = l.state ∨ s = quorumRemnant l.state := by
  rw [h.archive] at hs
  exact mem_storeArchive (OrdSet.mem_eraseBelow.mp hs).1

/-- The old quorums after a block are earlier ones and those of the state before
the block. -/
theorem Stored.mem_oldQuorums (h : Stored chain l l')
    (hentry : entry ∈ l'.oldQuorums) :
    entry ∈ l.oldQuorums ∨ entry = ⟨l.state.height, l.state.quorums⟩ := by
  rw [h.oldQuorums] at hentry
  have hmem := mem_of_mem_drop hentry
  split at hmem
  · exact .inl hmem
  · simpa using hmem

/-- A state, or the quorums of a state, that the current chain has produced. -/
def OfChain (produced : List State) (s : State) : Prop :=
  s ∈ produced ∨ ∃ p ∈ produced, s = quorumRemnant p

/-- The current state and everything kept comes from the current chain and is not
above the current height. -/
structure KeepsChain (l : ServiceNodeList) (produced : List State) : Prop where
  current : l.state ∈ produced
  history : ∀ s ∈ l.history, s ∈ produced ∧ s.height ≤ l.state.height
  archive : ∀ s ∈ l.archive, OfChain produced s ∧ s.height ≤ l.state.height

theorem OfChain.append (h : OfChain produced s) (more : List State) :
    OfChain (produced ++ more) s := by
  rcases h with hs | ⟨p, hp, rfl⟩
  · exact .inl (mem_append_left _ hs)
  · exact .inr ⟨p, mem_append_left _ hp, rfl⟩

theorem OfChain.filter (h : OfChain produced s) (hs : s.height ≤ height) :
    OfChain (produced.filter (fun p => p.height ≤ height)) s := by
  rcases h with hmem | ⟨p, hp, rfl⟩
  · exact .inl (mem_filter.mpr ⟨hmem, by simpa using hs⟩)
  · exact .inr ⟨p, mem_filter.mpr ⟨hp, by simpa [quorumRemnant] using hs⟩, rfl⟩

theorem KeepsChain.process (h : KeepsChain l produced) {block : Block}
    (hstep : processBlock chain migrations block txs l = .ok result l') :
    KeepsChain l' (produced ++ [l'.state]) := by
  have hcurrent : l'.state ∈ produced ++ [l'.state] := by simp
  rcases processBlock_height hstep with rfl | ⟨hstored, hheight⟩
  · refine ⟨hcurrent, fun s hs => ?_, fun s hs => ?_⟩
    · exact ⟨mem_append_left _ (h.history s hs).1, (h.history s hs).2⟩
    · exact ⟨(h.archive s hs).1.append _, (h.archive s hs).2⟩
  · have hlow {s : State} (hs : s.height ≤ l.state.height) : s.height ≤ l'.state.height := by omega
    refine ⟨hcurrent, fun s hs => ?_, fun s hs => ?_⟩
    · rcases hstored.mem_history hs with hs | rfl
      · exact ⟨mem_append_left _ (h.history s hs).1, hlow (h.history s hs).2⟩
      · exact ⟨mem_append_left _ h.current, hlow (le_refl _)⟩
    · rcases hstored.mem_archive hs with hs | rfl | rfl
      · exact ⟨(h.archive s hs).1.append _, hlow (h.archive s hs).2⟩
      · exact ⟨.inl (mem_append_left _ h.current), hlow (le_refl _)⟩
      · exact ⟨.inr ⟨_, mem_append_left _ h.current, rfl⟩, hlow (le_refl _)⟩

theorem KeepsChain.detach (h : KeepsChain l produced) (hbelow : ArchiveBelow chain l height)
    (hstep : detachList chain height l = .ok () l') :
    KeepsChain l' (produced.filter (fun s => s.height ≤ l'.state.height) ++ [l'.state]) := by
  have hkept : (∀ s ∈ l'.history, s ∈ l.history ∧ s.height ≤ l'.state.height) ∧
      ∀ s ∈ l'.archive, s ∈ l.archive ∧ s.height ≤ l'.state.height := by
    have hnone {p : State → Prop} : ∀ s ∈ (OrdSet.empty : OrdSet State.height), p s :=
      fun s hs => absurd hs not_mem_empty
    cases detachList_cases hstep with
    | already _ _ hsame =>
      subst hsame
      exact ⟨fun s hs => ⟨hs, (h.history s hs).2⟩, fun s hs => ⟨hs, (h.archive s hs).2⟩⟩
    | recent backup hserved hheight _ _ hhistory harchive =>
      rw [hhistory, harchive, hheight]
      exact ⟨fun _ hs => mem_eraseAbove.mp hs, fun s hs => ⟨hs, hbelow backup hserved s hs⟩⟩
    | archive _ _ hheight _ _ hhistory harchive =>
      rw [hhistory, harchive, hheight]
      exact ⟨hnone, fun _ hs => mem_eraseAbove.mp hs⟩
    | reset _ _ hhistory harchive =>
      rw [hhistory, harchive]
      exact ⟨hnone, hnone⟩
  refine ⟨by simp, fun s hs => ?_, fun s hs => ?_⟩
  · obtain ⟨hmem, hle⟩ := hkept.1 s hs
    refine ⟨mem_append_left _ (mem_filter.mpr ⟨(h.history s hmem).1, ?_⟩), hle⟩
    exact decide_eq_true hle
  · obtain ⟨hmem, hle⟩ := hkept.2 s hs
    exact ⟨((h.archive s hmem).1.filter hle).append _, hle⟩

/-- A list without kept states. -/
theorem KeepsChain.of_empty (hhistory : start.history = OrdSet.empty)
    (harchive : start.archive = OrdSet.empty) : KeepsChain start [start.state] := by
  refine ⟨mem_cons_self, fun s hs => ?_, fun s hs => ?_⟩
  · rw [hhistory] at hs
    exact absurd hs not_mem_empty
  · rw [harchive] at hs
    exact absurd hs not_mem_empty

/-- Along a run from an empty list, in which no archived state lies above the
recent state that a detach goes back to, history and archive hold what the current
chain has produced. -/
theorem kept_states_of_current_chain (hhistory : start.history = OrdSet.empty)
    (harchive : start.archive = OrdSet.empty)
    (hrun : ListRun chain migrations (ArchiveBelow chain) start l produced) :
    (∀ s ∈ l.history, s.height ≤ l.state.height → s ∈ produced) ∧
      ∀ s ∈ l.archive, s.height ≤ l.state.height →
        s ∈ produced ∨ ∃ p ∈ produced, s = quorumRemnant p := by
  have hkeeps : KeepsChain l produced := by
    induction hrun with
    | start => exact KeepsChain.of_empty hhistory harchive
    | process _ hstep ih => exact ih.process hstep
    | detach _ hadmitted hstep ih => exact ih.detach hadmitted hstep
  exact ⟨fun s hs _ => (hkeeps.history s hs).1, fun s hs _ => (hkeeps.archive s hs).1⟩

end

/-- A fake chain on which service nodes begin at a height that is archived. -/
def archiveChain : Chain Unit :=
  { acceptingChain ⟨.fakechain, [⟨Hf.hf7, 0, 0⟩, ⟨Hf.hf9ServiceNodes, 0, 10000⟩]⟩ emptyChainDb with
    storeQuorumHistory := 10 }

/-- The empty list on that chain. -/
def archiveStart : ServiceNodeList := { state := { height := 9999 } }

/-- The list after a block without transactions. -/
def afterBlock (height : ℕ) (hash : Hash) (l : ServiceNodeList) : ServiceNodeList :=
  finalState (processBlock archiveChain noMigrations
    { majorVersion := Hf.hf9ServiceNodes, height := height, hash := hash } [] l)

/-- The list after a detach. -/
def afterDetach (height : ℕ) (l : ServiceNodeList) : ServiceNodeList :=
  finalState (detachList archiveChain height l)

section

variable {admitted : ServiceNodeList → ℕ → Prop} {l : ServiceNodeList} {produced : List State}

private theorem run_afterBlock (height : ℕ) (hash : Hash)
    (hrun : ListRun archiveChain noMigrations admitted archiveStart l produced)
    (hreturns : returns (processBlock archiveChain noMigrations
      { majorVersion := Hf.hf9ServiceNodes, height := height, hash := hash } [] l) = true) :
    ListRun archiveChain noMigrations admitted archiveStart (afterBlock height hash l)
      (produced ++ [(afterBlock height hash l).state]) := by
  obtain ⟨_, hstep⟩ := eq_ok_of_returns hreturns
  exact hrun.process hstep

private theorem run_afterDetach (height : ℕ)
    (hrun : ListRun archiveChain noMigrations admitted archiveStart l produced)
    (hadmitted : admitted l height)
    (hreturns : returns (detachList archiveChain height l) = true) :
    ListRun archiveChain noMigrations admitted archiveStart (afterDetach height l)
      (produced.filter (fun s => s.height ≤ (afterDetach height l).state.height) ++
        [(afterDetach height l).state]) := by
  obtain ⟨_, hstep⟩ := eq_ok_of_returns hreturns
  exact hrun.detach hadmitted hstep

end

private theorem recentBackup_afterBlock :
    recentBackup archiveChain (afterBlock 10000 1 archiveStart) 9999 = some { height := 9999 } := by
  decide +kernel

/-- A block, a detach below it and another block in its place: the detach goes back
to the state that the archive holds on top. -/
theorem kept_states_of_current_chain_oneBlock :
    ∃ l produced, ListRun archiveChain noMigrations (ArchiveBelow archiveChain) archiveStart
        l produced ∧
      (∀ s ∈ l.history, s.height ≤ l.state.height → s ∈ produced) ∧
      ∀ s ∈ l.archive, s.height ≤ l.state.height →
        s ∈ produced ∨ ∃ p ∈ produced, s = quorumRemnant p := by
  have hfirst := @run_afterBlock (ArchiveBelow archiveChain) _ _ 10000 1 ListRun.start (by decide +kernel)
  have hdetach := run_afterDetach 10000 hfirst ?_ (by decide +kernel)
  · have hrun := run_afterBlock 10000 2 hdetach (by decide +kernel)
    exact ⟨_, _, hrun, kept_states_of_current_chain rfl rfl hrun⟩
  · rintro backup ⟨_, hbackup⟩
    obtain rfl := Option.some.inj (recentBackup_afterBlock.symm.trans hbackup)
    decide +kernel

/-- The archived state at 10000 survives a detach to 9999 and another block at its
height. -/
theorem archive_of_abandoned_chain :
    ∃ l produced, ListRun archiveChain noMigrations (fun _ _ => True) archiveStart l produced ∧
      ∃ s ∈ l.archive, s.height ≤ l.state.height ∧ s ∉ produced ∧
        ∀ p ∈ produced, s ≠ quorumRemnant p := by
  have hfirst := @run_afterBlock (fun _ _ => True) _ _ 10000 1 ListRun.start (by decide +kernel)
  have hsecond := run_afterBlock 10001 2 hfirst (by decide +kernel)
  have hdetach := run_afterDetach 10000 hsecond trivial (by decide +kernel)
  refine ⟨_, _, run_afterBlock 10000 3 hdetach (by decide +kernel), ?_⟩
  refine ⟨(afterBlock 10000 1 archiveStart).state, ?_⟩
  decide +kernel

section

variable {σ : Type} {chain : Chain σ} {migrations : Migrations}
  {start l l' : ServiceNodeList} {produced : List State} {quorums : QuorumManager}

/-! ## The kept quorums -/

/-- The list holds these quorums for a height, in one of its four places. -/
def Holds (l : ServiceNodeList) (height : ℕ) (quorums : QuorumManager) : Prop :=
  (l.state.height = height ∧ l.state.quorums = quorums) ∨
    (∃ s, (s ∈ l.history ∨ s ∈ l.archive) ∧ s.height = height ∧ s.quorums = quorums) ∨
    ⟨height, quorums⟩ ∈ l.oldQuorums

/-- What a lookup returns is held. -/
theorem holds_of_quorumsAt {includeOld : Bool}
    (hfound : l.quorumsAt height includeOld = some quorums) : Holds l height quorums := by
  unfold ServiceNodeList.quorumsAt at hfound
  split at hfound
  · exact .inl ⟨‹height = _›.symm, by simpa using hfound⟩
  · split at hfound
    · rename_i s hs
      have hplace : (s ∈ l.history ∨ s ∈ l.archive) ∧ s.height = height := by
        rcases Option.or_eq_some_iff.mp hs with hs | ⟨_, hs⟩
        · exact ⟨.inl (find?_eq_some_iff.mp hs).1, (find?_eq_some_iff.mp hs).2⟩
        · exact ⟨.inr (find?_eq_some_iff.mp hs).1, (find?_eq_some_iff.mp hs).2⟩
      exact .inr (.inl ⟨s, hplace.1, hplace.2, by simpa using hfound⟩)
    · split at hfound
      · exact .inr (.inr (mem_of_findOldQuorums hfound))
      · cases hfound

/-- A lookup with old quorums finds something at the height of an old entry. -/
theorem quorumsAt_of_mem_oldQuorums
    (hsorted : l.oldQuorums.Pairwise (fun a b => a.height ≤ b.height))
    (hentry : entry ∈ l.oldQuorums) : ∃ quorums, l.quorumsAt entry.height true = some quorums := by
  unfold ServiceNodeList.quorumsAt
  split
  · exact ⟨_, rfl⟩
  · split
    · exact ⟨_, rfl⟩
    · exact findOldQuorums_of_mem hsorted hentry

/-- Everything held comes from the current chain, is not above the current height,
and agrees with what else is held for its height; old quorums are sorted. -/
structure HoldsChain (l : ServiceNodeList) (produced : List State) : Prop where
  source : ∀ height quorums, Holds l height quorums →
    ∃ p ∈ produced, p.height = height ∧ p.quorums = quorums
  agree : ∀ height quorums quorums', Holds l height quorums → Holds l height quorums' →
    quorums = quorums'
  below : ∀ height quorums, Holds l height quorums → height ≤ l.state.height
  sorted : l.oldQuorums.Pairwise (fun a b => a.height ≤ b.height)

/-- Without kept states and quorums only the current quorums are held. -/
theorem HoldsChain.of_current (hhistory : l.history = OrdSet.empty)
    (harchive : l.archive = OrdSet.empty) (hold : l.oldQuorums = []) (hcurrent : l.state ∈ produced) :
    HoldsChain l produced := by
  have honly {height : ℕ} {quorums : QuorumManager} (hholds : Holds l height quorums) :
      l.state.height = height ∧ l.state.quorums = quorums := by
    simpa [Holds, hhistory, harchive, hold] using hholds
  refine ⟨fun _ _ hholds => ⟨l.state, hcurrent, honly hholds⟩, fun _ _ _ hholds hholds' => ?_,
    fun _ _ hholds => (honly hholds).1.ge, hold ▸ Pairwise.nil⟩
  exact (honly hholds).2.symm.trans (honly hholds').2

/-- The current quorums are held. -/
theorem holds_current : Holds l l.state.height l.state.quorums := .inl ⟨rfl, rfl⟩

/-- After a block, what is held was held before or belongs to the new state. -/
theorem Stored.holds (h : Stored chain l l')
    (hholds : Holds l' height quorums) :
    Holds l height quorums ∨ (l'.state.height = height ∧ l'.state.quorums = quorums) := by
  rcases hholds with hnew | ⟨s, hs, rfl, rfl⟩ | hold
  · exact .inr hnew
  · rcases hs with hs | hs
    · rcases h.mem_history hs with hs | rfl
      · exact .inl (.inr (.inl ⟨s, .inl hs, rfl, rfl⟩))
      · exact .inl holds_current
    · rcases h.mem_archive hs with hs | rfl | rfl
      · exact .inl (.inr (.inl ⟨s, .inr hs, rfl, rfl⟩))
      · exact .inl holds_current
      · exact .inl holds_current
  · rcases h.mem_oldQuorums hold with hold | hentry
    · exact .inl (.inr (.inr hold))
    · cases hentry
      exact .inl holds_current

theorem HoldsChain.process (h : HoldsChain l produced) {block : Block}
    (hstep : processBlock chain migrations block txs l = .ok result l') :
    HoldsChain l' (produced ++ [l'.state]) := by
  rcases processBlock_height hstep with rfl | ⟨hstored, hheight⟩
  · refine ⟨fun height quorums hholds => ?_, h.agree, h.below, h.sorted⟩
    obtain ⟨p, hp, hsame⟩ := h.source height quorums hholds
    exact ⟨p, mem_append_left _ hp, hsame⟩
  · refine ⟨fun height quorums hholds => ?_, fun height quorums quorums' hholds hholds' => ?_,
      fun height quorums hholds => ?_, ?_⟩
    · rcases hstored.holds hholds with hbefore | hnew
      · obtain ⟨p, hp, hsame⟩ := h.source height quorums hbefore
        exact ⟨p, mem_append_left _ hp, hsame⟩
      · exact ⟨l'.state, by simp, hnew⟩
    · -- What was held before lies below the new state, so the two kinds never meet.
      rcases hstored.holds hholds with hbefore | hnew <;>
        rcases hstored.holds hholds' with hbefore' | hnew'
      · exact h.agree height quorums quorums' hbefore hbefore'
      · exact absurd (h.below height quorums hbefore) (by omega)
      · exact absurd (h.below height quorums' hbefore') (by omega)
      · exact hnew.2.symm.trans hnew'.2
    · rcases hstored.holds hholds with hbefore | hnew
      · exact (h.below height quorums hbefore).trans (by omega)
      · exact hnew.1.ge
    · rw [hstored.oldQuorums]
      refine .drop ?_
      split
      · exact h.sorted
      · refine pairwise_append.mpr ⟨h.sorted, pairwise_singleton _ _, ?_⟩
        intro entry hentry last hlast
        obtain rfl : last = ⟨l.state.height, l.state.quorums⟩ := by simpa using hlast
        exact h.below entry.height entry.quorums (.inr (.inr hentry))

/-- A list that holds less, and nothing above its height. -/
theorem HoldsChain.of_less (h : HoldsChain l produced)
    (hless : ∀ height quorums, Holds l' height quorums →
      Holds l height quorums ∧ height ≤ l'.state.height)
    (hold : l'.oldQuorums = l.oldQuorums) :
    HoldsChain l' (produced.filter (fun s => s.height ≤ l'.state.height) ++ [l'.state]) := by
  refine ⟨fun height quorums hholds => ?_, fun height quorums quorums' hholds hholds' => ?_,
    fun height quorums hholds => (hless height quorums hholds).2, hold ▸ h.sorted⟩
  · obtain ⟨hbefore, hle⟩ := hless height quorums hholds
    obtain ⟨p, hp, rfl, hquorums⟩ := h.source height quorums hbefore
    exact ⟨p, mem_append_left _ (mem_filter.mpr ⟨hp, by simpa using hle⟩), rfl, hquorums⟩
  · exact h.agree height quorums quorums' (hless _ _ hholds).1 (hless _ _ hholds').1

theorem HoldsChain.detach (h : HoldsChain l produced) (hbelow : QuorumsBelow chain l height)
    (hstep : detachList chain height l = .ok () l') :
    HoldsChain l' (produced.filter (fun s => s.height ≤ l'.state.height) ++ [l'.state]) := by
  cases detachList_cases hstep with
  | already _ _ hsame =>
    subst hsame
    exact h.of_less (fun height quorums hholds => ⟨hholds, h.below height quorums hholds⟩) rfl
  | recent backup hserved hheight hquorums _ hhistory harchive hold =>
    have hbackup := (recentBackup_spec hserved.2).1
    refine h.of_less ?_ hold
    rintro k quorums (⟨rfl, rfl⟩ | ⟨s, hs, rfl, rfl⟩ | hentry)
    · exact ⟨.inr (.inl ⟨backup, .inl hbackup, hheight.symm, hquorums.symm⟩), le_refl _⟩
    · rw [hhistory, harchive, mem_eraseAbove] at hs
      rcases hs with ⟨hs, hle⟩ | hs
      · exact ⟨.inr (.inl ⟨s, .inl hs, rfl, rfl⟩), hheight ▸ hle⟩
      · exact ⟨.inr (.inl ⟨s, .inr hs, rfl, rfl⟩), hheight ▸ hbelow.1 backup hserved s hs⟩
    · rw [hold] at hentry
      exact ⟨.inr (.inr hentry), hheight ▸ hbelow.2 backup (.inl hserved) _ hentry⟩
  | archive backup hserved hheight hquorums _ hhistory harchive hold =>
    have hbackup := (archiveBackup_spec hserved.2.2).1
    refine h.of_less ?_ hold
    rintro k quorums (⟨rfl, rfl⟩ | ⟨s, hs, rfl, rfl⟩ | hentry)
    · exact ⟨.inr (.inl ⟨backup, .inr hbackup, hheight.symm, hquorums.symm⟩), le_refl _⟩
    · rw [hhistory, harchive, mem_eraseAbove] at hs
      rcases hs with hs | ⟨hs, hle⟩
      · exact absurd hs not_mem_empty
      · exact ⟨.inr (.inl ⟨s, .inr hs, rfl, rfl⟩), hheight ▸ hle⟩
    · rw [hold] at hentry
      exact ⟨.inr (.inr hentry), hheight ▸ hbelow.2 backup (.inr hserved) _ hentry⟩
  | reset _ _ hhistory harchive hold =>
    exact .of_current hhistory harchive hold (by simp)

/-- Along a run from an empty list, in which nothing kept lies above the state that
a detach goes back to, a quorum that is found belongs to the current chain, and the
quorums of every old entry are found. -/
theorem quorums_of_current_chain (hhistory : start.history = OrdSet.empty)
    (harchive : start.archive = OrdSet.empty) (hold : start.oldQuorums = [])
    (hrun : ListRun chain migrations (QuorumsBelow chain) start l produced) :
    (∀ type height quorum, l.getQuorum type height true = some quorum →
      ∃ p ∈ produced, p.height = offsetTestingQuorumHeight type height ∧
        p.quorums.get type = some quorum) ∧
    ∀ entry ∈ l.oldQuorums,
      (∃ p ∈ produced, p.height = entry.height ∧ p.quorums = entry.quorums) ∧
      ∀ type height, offsetTestingQuorumHeight type height = entry.height →
        l.getQuorum type height true = entry.quorums.get type := by
  have hchain : HoldsChain l produced := by
    induction hrun with
    | start => exact .of_current hhistory harchive hold mem_cons_self
    | process _ hstep ih => exact ih.process hstep
    | detach _ hadmitted hstep ih => exact ih.detach hadmitted hstep
  constructor
  · intro type height quorum hfound
    obtain ⟨quorums, hquorums, hget⟩ := Option.bind_eq_some_iff.mp hfound
    obtain ⟨p, hp, hheight, rfl⟩ := hchain.source _ _ (holds_of_quorumsAt hquorums)
    exact ⟨p, hp, hheight, hget⟩
  · intro entry hentry
    have hholds : Holds l entry.height entry.quorums := .inr (.inr hentry)
    refine ⟨hchain.source _ _ hholds, fun type height hoffset => ?_⟩
    obtain ⟨quorums, hquorums⟩ := quorumsAt_of_mem_oldQuorums hchain.sorted hentry
    have hsame := hchain.agree _ _ _ (holds_of_quorumsAt hquorums) hholds
    simp [ServiceNodeList.getQuorum, hoffset, hquorums, hsame]

end

/-- A detach by one block leaves the last old entry at the height it goes back to. -/
theorem quorums_of_current_chain_oneBlock :
    ∃ l produced, ListRun archiveChain noMigrations (QuorumsBelow archiveChain) archiveStart
        l produced ∧ l.oldQuorums ≠ [] ∧
      (∀ type height quorum, l.getQuorum type height true = some quorum →
        ∃ p ∈ produced, p.height = offsetTestingQuorumHeight type height ∧
          p.quorums.get type = some quorum) ∧
      ∀ entry ∈ l.oldQuorums,
        (∃ p ∈ produced, p.height = entry.height ∧ p.quorums = entry.quorums) ∧
        ∀ type height, offsetTestingQuorumHeight type height = entry.height →
          l.getQuorum type height true = entry.quorums.get type := by
  have hbelow : QuorumsBelow archiveChain (afterBlock 10000 1 archiveStart) 10000 := by
    refine ⟨fun backup hserved => ?_, fun backup hserved => ?_⟩
    · obtain rfl := Option.some.inj (recentBackup_afterBlock.symm.trans hserved.2)
      decide +kernel
    · rcases hserved with hserved | hserved
      · obtain rfl := Option.some.inj (recentBackup_afterBlock.symm.trans hserved.2)
        decide +kernel
      · exact absurd (recentBackup_afterBlock.symm.trans hserved.2.1) (by simp)
  have hfirst := @run_afterBlock (QuorumsBelow archiveChain) _ _ 10000 1 ListRun.start (by decide +kernel)
  have hdetach := run_afterDetach 10000 hfirst hbelow (by decide +kernel)
  have hrun := run_afterBlock 10000 2 hdetach (by decide +kernel)
  exact ⟨_, _, hrun, by decide +kernel, quorums_of_current_chain rfl rfl rfl hrun⟩

/-- After a detach by two blocks the quorums of the first of them are still found. -/
theorem getQuorum_of_abandoned_chain :
    ∃ l produced, ListRun archiveChain noMigrations (fun _ _ => True) archiveStart l produced ∧
      ∃ quorum, l.getQuorum .obligations 10000 true = some quorum ∧
        ∀ p ∈ produced, p.height ≠ 10000 := by
  have hfirst := @run_afterBlock (fun _ _ => True) _ _ 10000 1 ListRun.start (by decide +kernel)
  have hsecond := run_afterBlock 10001 2 hfirst (by decide +kernel)
  refine ⟨_, _, run_afterDetach 10000 hsecond trivial (by decide +kernel), {}, ?_⟩
  decide +kernel

/-! ## The heights after a detach -/

section

variable {σ : Type} (chain : Chain σ) (migrations : Migrations)

/-- The lists that can be reached from one without history, whatever happens to the
rewards database meanwhile. A block may also throw. -/
inductive Reachable : ServiceNodeList → Prop
  | empty {l : ServiceNodeList} (hempty : l.history = OrdSet.empty) : Reachable l
  | sqlite {l : ServiceNodeList} (hl : Reachable l) (db : RewardsDb) :
      Reachable { l with shared := { l.shared with sqlite := db } }
  | process {l : ServiceNodeList} (hl : Reachable l) (block : Block) (txs : List Transaction) :
      Reachable (finalState (processBlock chain migrations block txs l))
  | detach {l l' : ServiceNodeList} {height : ℕ} (hl : Reachable l)
      (hstep : detachList chain height l = .ok () l') : Reachable l'

variable {chain migrations} {l l' : ServiceNodeList}

/-- No history lies above the height that a detach goes back to. -/
theorem detachList_history (hstep : detachList chain height l = .ok () l')
    (hl : ∀ s ∈ l.history, s.height ≤ l.state.height) :
    ∀ s ∈ l'.history, s.height ≤ l'.state.height := by
  cases detachList_cases hstep with
  | already _ _ hsame => exact hsame ▸ hl
  | recent _ _ hheight _ _ hhistory =>
    intro s hs
    rw [hhistory, mem_eraseAbove] at hs
    exact hheight ▸ hs.2
  | archive _ _ _ _ _ hhistory => simp [hhistory]
  | reset _ _ hhistory => simp [hhistory]

/-- No history lies above the current height. -/
theorem Reachable.history_le (hl : Reachable chain migrations l) :
    ∀ s ∈ l.history, s.height ≤ l.state.height := by
  induction hl with
  | empty hempty => simp [hempty]
  | sqlite _ _ ih => exact ih
  | @process l _ block txs ih =>
    rcases @processBlock_cases σ chain migrations block txs l with hsame | ⟨hstored, hle⟩
    · rw [hsame]
      exact ih
    · intro s hs
      rcases hstored.mem_history hs with hs | rfl
      · exact (ih s hs).trans hle
      · exact hle
  | detach _ hstep ih => exact detachList_history hstep ih

/-- A detach that returns brings list and rewards database to one height: one below
the detach height or lower, zero for a detach at zero, or the height of an empty
list. No history lies above it. -/
theorem detach_heights {height : ℕ} (hl : Reachable chain migrations l)
    (hstep : detachList chain height l = .ok () l') :
    l'.state.height = l'.shared.sqlite.height ∧
      (l'.state.height + 1 ≤ height ∨ (height = 0 ∧ l'.state.height = 0) ∨
        l'.state.height = resetHeight chain.net) ∧
      ∀ s ∈ l'.history, s.height ≤ l'.state.height := by
  have hlow {backup : State} (hle : backup.height ≤ height - 1)
      (hheight : l'.state.height = backup.height) :
      l'.state.height + 1 ≤ height ∨ (height = 0 ∧ l'.state.height = 0) := by omega
  refine ⟨?_, ?_, detachList_history hstep hl.history_le⟩
  · cases detachList_cases hstep with
    | already hlist hsqlite hsame => rw [hsame, hlist, hsqlite]
    | recent _ _ hheight _ hsqlite => rw [hheight, hsqlite]
    | archive _ _ hheight _ hsqlite => rw [hheight, hsqlite]
    | reset hstate hsqlite => rw [hstate, hsqlite]
  · cases detachList_cases hstep with
    | already hlist _ hsame =>
      subst hsame
      omega
    | recent _ hserved hheight =>
      exact or_assoc.mp (.inl (hlow (recentBackup_spec hserved.2).2 hheight))
    | archive _ hserved hheight =>
      exact or_assoc.mp (.inl (hlow (archiveBackup_spec hserved.2.2).2 hheight))
    | reset hstate => exact .inr (.inr (by rw [hstate]))

end

/-- A detach from a list that is one block ahead of the rewards database. -/
theorem detach_heights_oneBlock :
    Reachable archiveChain noMigrations (afterBlock 10000 1 archiveStart) ∧
      (afterDetach 10000 (afterBlock 10000 1 archiveStart)).state.height =
        (afterDetach 10000 (afterBlock 10000 1 archiveStart)).shared.sqlite.height := by
  have hreach : Reachable archiveChain noMigrations (afterBlock 10000 1 archiveStart) :=
    (Reachable.empty rfl).process _ _
  obtain ⟨_, hstep⟩ := eq_ok_of_returns
    (show returns (detachList archiveChain 10000 (afterBlock 10000 1 archiveStart)) = true by
      decide +kernel)
  exact ⟨hreach, (detach_heights hreach hstep).1⟩

/-- On the main network a fresh list stays at height zero when it detaches at zero,
which is not below zero and not the height of a reset list. -/
theorem detach_at_zero :
    ∃ l', detachList (acceptingChain ⟨.mainnet, []⟩ emptyChainDb) 0 {} = .ok () l' ∧
      ¬ (l'.state.height + 1 ≤ 0 ∨ l'.state.height = resetHeight ⟨.mainnet, []⟩) :=
  ⟨{}, rfl, by decide⟩

/-! ## Alternative states -/

/-- Taking away the first elements with a property takes all of them exactly if they stand before
the others. -/
theorem forall_notMem_takeWhile_iff {α : Type} {p : α → Bool} {l : List α} (hnodup : l.Nodup) :
    (∀ a ∈ l, a ∉ l.takeWhile p → p a = false) ↔ l.Pairwise (fun a b => p b → p a) := by
  induction l with
  | nil => simp
  | cons x l ih =>
    obtain ⟨hx, hl⟩ := nodup_cons.mp hnodup
    rw [pairwise_cons, forall_mem_cons]
    cases hp : p x with
    | true =>
      have hne : ∀ a ∈ l, a ≠ x := fun a ha heq => hx (heq ▸ ha)
      rw [← ih hl, takeWhile_cons_of_pos hp]
      simp +contextual [hne]
    | false =>
      rw [takeWhile_cons_of_neg (by simp [hp])]
      simp only [not_mem_nil, not_false_eq_true, forall_const, true_and, Bool.false_eq_true, imp_false,
        Bool.not_eq_true]
      exact ⟨fun h => ⟨h, (ih hl).mp fun a ha _ => h a ha⟩, And.left⟩

/-- Wherever `process_block` ends, it leaves no alternative state below the height down to which
recent states are kept exactly if, in the order of the container, the old states stand before the
others, and before service nodes if there was none. -/
theorem no_old_alt_state_iff {σ : Type} (chain : Chain σ) (migrations : Migrations) (block : Block)
    (txs : List Transaction) (l : ServiceNodeList) :
    (∀ e ∈ (finalState (processBlock chain migrations block txs l)).altStates,
        minRecentHeight chain.config l.state.height ≤ e.2.height) ↔
      if block.majorVersion < Hf.hf9ServiceNodes then
        ∀ e ∈ l.altStates, minRecentHeight chain.config l.state.height ≤ e.2.height
      else l.altStates.toList.Pairwise (fun a b =>
        b.2.height < minRecentHeight chain.config l.state.height →
          a.2.height < minRecentHeight chain.config l.state.height) := by
  unfold processBlock
  split
  · exact Iff.rfl
  · simp only [modify_bind_run, get_bind_run, finalState_onMainState]
    have hcull := forall_notMem_takeWhile_iff l.altStates.toList_nodup
      (p := fun e => decide (e.2.height < minRecentHeight chain.config l.state.height))
    simp only [decide_eq_true_eq, decide_eq_false_iff_not, not_lt] at hcull
    simp only [storeStates, cullAltStates, OrdSet.mem_filter, decide_eq_true_eq, and_imp]
    exact hcull

/-- At height 9999 a state of height 9999 stands before one of height 5. The block is processed,
and the old state stays. -/
theorem old_alt_state_left :
    let l : ServiceNodeList := { archiveStart with
      altStates := (KeyMap.set OrdSet.empty 1 { height := 9999 }).set 2 { height := 5 } }
    let block : Block := { majorVersion := Hf.hf9ServiceNodes, height := 10000, hash := 1 }
    returns (processBlock archiveChain noMigrations block [] l) = true ∧
      5 < minRecentHeight archiveChain.config 9999 ∧
      (afterBlock 10000 1 l).altStates.toList.map (fun e => e.2.height) = [9999, 5] := by
  decide +kernel

end Xeqm.ServiceNodes
