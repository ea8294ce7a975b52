import Xeqm.Lib.Runs
import Xeqm.ServiceNodes.BlockAdd
import Xeqm.ServiceNodes.StakeRuns

/-!
# Alternative blocks

`service_node_list::alt_block_add`. The state of the parent is copied and taken
over the block by the same transition as on the main chain, so what the transition
writes to the uptime proofs and to the rewards database is written. The new state
is stored before the block is verified.
-/

namespace Xeqm.ServiceNodes

open Cryptonote Lib Rewards List

/-- The state that an alternative block builds on: one of the main chain, or one of
an alternative chain. -/
def altParent (l : ServiceNodeList) (block : Block) : Option State :=
  ((l.history.find? (sizeSub block.height 1)).filter
    (fun state => block.prevId = state.blockHash)).or (l.altStates.get? block.prevId)

section

variable {σ : Type} (chain : Chain σ) (migrations : Migrations) (view : NodeView)

/-- Takes a copy of the parent state over the block and stores the result. -/
def extendAltState (block : Block) (txs : List Transaction) (parent : State) : ListM Unit := fun l =>
  match updateFromBlock chain migrations ⟨l.history, l.archive, l.altStates⟩ block txs none
      ⟨parent, l.shared⟩ with
  | .ok _ w => .ok () { l with
      altStates := l.altStates.set block.hash w.state, shared := w.shared }
  | .error e w => .error e { l with shared := w.shared }

/-- `alt_block_add`. -/
def altBlockAdd (block : Block) (txs : List Transaction) (checkpoint : Option Checkpoint) :
    ListM Unit := do
  if block.majorVersion < Hf.hf9ServiceNodes then pure ()
  else
    let l ← get
    if l.altStates.contains block.hash then pure ()
    else
      match altParent l block with
      | none => throw .parentStateNotFound
      | some parent =>
        if parent.blockHash ≠ block.prevId then throw .parentHashMismatch
        else
          extendAltState chain migrations block txs parent
          let l ← get
          orListThrow (verifyBlock chain view l block true checkpoint)

end

/-! ## What an alternative block leaves alone -/

/-- In the block at height `H`, nothing that the states share is written. -/
def SharedAt (H : ℕ) (w w' : World) : Prop :=
  w.state.height = H → w'.shared = w.shared ∧ w'.state.height = H

instance {H : ℕ} : StateFrame (SharedAt H) where
  refl _ hH := ⟨rfl, hH⟩
  trans _ _ _ h h' hH := by
    obtain ⟨hshared, hH⟩ := h hH
    obtain ⟨hshared', hH⟩ := h' hH
    exact ⟨hshared'.trans hshared, hH⟩
  state_write _ _ h hH := ⟨rfl, h.trans hH⟩

section

variable {σ : Type} (chain : Chain σ) (migrations : Migrations)

/-- The transition over a block comes to a write to the proofs or to the rewards database: it is
the block of the fixup or of the ETH migration, or a vote or a transaction of it writes. -/
def updateWrites (known : KnownStates) (block : Block) (txs : List Transaction) (w : World) : Bool :=
  decide (block.majorVersion = Hf.hf22EthFixup ∧
      isFirstBlockOf chain.net Hf.hf22EthFixup block.height) ||
    match beforeHeight chain migrations block none w with
    | .error _ _ => false
    | .ok pre w =>
      decide (isFirstBlockOf chain.net Hf.hf21Eth (w.state.height + 1) ∧ chain.hasSqlite) ||
        match beforeReward chain migrations block pre (nextHeight block w) with
        | .error _ _ => false
        | .ok progress w => afterRewardWrites chain known block txs progress w

/-- `alt_block_add` comes to such a write. -/
def altBlockWrites (block : Block) (txs : List Transaction) (l : ServiceNodeList) : Bool :=
  decide (Hf.hf9ServiceNodes ≤ block.majorVersion) && !l.altStates.contains block.hash &&
    match altParent l block with
    | none => false
    | some parent => decide (parent.blockHash = block.prevId) &&
        updateWrites chain migrations ⟨l.history, l.archive, l.altStates⟩ block txs
          ⟨parent, l.shared⟩

end

section

variable {σ : Type} {chain : Chain σ} {migrations : Migrations} {known : KnownStates}
  {block : Block} {txs : List Transaction} {parent : State}

/-- Wherever the transition of such a block ends, the shared data are the same. -/
theorem updateFromBlock_shared {w : World}
    (h : updateWrites chain migrations known block txs w = false) :
    (finalState (updateFromBlock chain migrations known block txs none w)).shared = w.shared := by
  obtain ⟨hfixup, h⟩ := Bool.or_eq_false_iff.mp h
  have hbefore : Keeps (SharedAt w.state.height) (beforeHeight chain migrations block none) :=
    beforeHeight_keeps fun hfix => absurd hfix (of_decide_eq_false hfixup)
  rw [updateFromBlock_eq]
  apply finalState_bind (P := fun w' : World => w'.shared = w.shared)
  · exact (hbefore w rfl).1
  intro pre w₁ hpre
  rw [hpre] at h
  obtain ⟨htransition, h⟩ := Bool.or_eq_false_iff.mp h
  obtain ⟨hshared, -⟩ := hbefore.of_ok hpre rfl
  have hreward : Keeps (SharedAt (w₁.state.height + 1)) (beforeReward chain migrations block pre) := by
    refine beforeReward_keeps (.get_bind fun w₂ hheight => ?_)
    rw [hheight, if_neg (of_decide_eq_false htransition)]
    exact ⟨rfl, hheight⟩
  rw [advanceBlock_run]
  apply finalState_bind (P := fun w' : World => w'.shared = w.shared)
  · exact (hreward _ rfl).1.trans hshared
  intro progress w₂ hprogress
  rw [hprogress] at h
  obtain ⟨hshared₂, hheight₂⟩ := hreward.of_ok hprogress rfl
  obtain ⟨hshared₃, -⟩ := afterReward_at (R := SharedAt (w₁.state.height + 1))
    (fun hwrites => absurd (hwrites.symm.trans h) (by decide)) hheight₂
  exact hshared₃.trans (hshared₂.trans hshared)

variable {view : NodeView} {checkpoint : Option Checkpoint} {l : ServiceNodeList}

theorem finalState_extendAltState (l : ServiceNodeList) :
    ∃ altStates, finalState (extendAltState chain migrations block txs parent l) =
      { l with
        altStates := altStates
        shared := (finalState (updateFromBlock chain migrations ⟨l.history, l.archive, l.altStates⟩
          block txs none ⟨parent, l.shared⟩)).shared } := by
  unfold extendAltState
  split
  · rename_i hrun
    rw [hrun]
    exact ⟨_, rfl⟩
  · rename_i hrun
    rw [hrun]
    exact ⟨l.altStates, rfl⟩

theorem finalState_orListThrow {α : Type} (result : Except Fault α) (l : ServiceNodeList) :
    finalState (orListThrow result l) = l := by
  cases result <;> rfl

/-- Wherever it ends, `alt_block_add` changes nothing but the alternative states, unless it comes
to a write to the proofs or to the rewards database. -/
theorem altBlockAdd_only_altStates (h : altBlockWrites chain migrations block txs l = false) :
    ∃ altStates, finalState (altBlockAdd chain migrations view block txs checkpoint l) =
      { l with altStates := altStates } := by
  unfold altBlockAdd
  split
  · exact ⟨l.altStates, rfl⟩
  rename_i hhf
  rw [get_bind_run]
  split
  · exact ⟨l.altStates, rfl⟩
  rename_i hnew
  rw [altBlockWrites, decide_eq_true (UInt8.not_lt.mp hhf), Bool.eq_false_iff.mpr hnew] at h
  cases hparent : altParent l block with
  | none => exact ⟨l.altStates, rfl⟩
  | some parent =>
    rw [hparent] at h
    dsimp only at h ⊢
    split
    · exact ⟨l.altStates, rfl⟩
    rename_i hhash
    rw [decide_eq_true (not_not.mp hhash)] at h
    obtain ⟨altStates, hextend⟩ := @finalState_extendAltState _ chain migrations block txs parent l
    rw [updateFromBlock_shared h] at hextend
    apply finalState_bind
      (P := fun l' : ServiceNodeList => ∃ altStates, l' = { l with altStates := altStates })
    · exact ⟨altStates, hextend⟩
    intro _ l₁ hrun
    rw [hrun, finalState_ok] at hextend
    rw [get_bind_run, finalState_orListThrow]
    exact ⟨altStates, hextend⟩

end

/-- A chain that finds the block before the fork. -/
def forkChain : Chain Unit := acceptingChain batchingNet
  { emptyChainDb with
    findBlock := fun _ => some { majorVersion := Hf.hf19RewardBatching, height := 1, hash := 0 } }

/-- A list that still has the state before the fork. -/
def forkList : ServiceNodeList :=
  { batchingList with history := OrdSet.insert { height := 1 } OrdSet.empty }

/-- A registration in an alternative block at the fork. -/
def stakeTx : Transaction := { halfRegistrationTx with type := .stake }

/-- A decommission that names a height without a state. -/
def strayDecommissionTx : Transaction :=
  { type := .stateChange
    stateChange := some { state := .decommission, blockHeight := 9, serviceNodeIndex := 0 } }

/-- The list after the alternative block with the registration. -/
def registeredList : ServiceNodeList :=
  finalState (altBlockAdd forkChain noMigrations tipView (rewardingBlock 0) [stakeTx] none forkList)

/-- A block on top of that one with a registration of the same node and the stray decommission,
neither of which comes to a proof, leaves everything but the alternative states as it was. -/
theorem altBlockAdd_only_altStates_ignoredTxs :
    let block := { rewardingBlock 0 with height := 3, hash := 3, prevId := 2 }
    let result := altBlockAdd forkChain noMigrations tipView block [stakeTx, strayDecommissionTx] none
      registeredList
    returns result = true ∧
      ∃ altStates, finalState result = { registeredList with altStates := altStates } :=
  ⟨by decide +kernel, altBlockAdd_only_altStates (by decide +kernel)⟩

/-- An alternative block with a registration resets the uptime proof of the node, in
memory and in the block database. -/
theorem altBlockAdd_resets_proof :
    let result := altBlockAdd forkChain noMigrations tipView (rewardingBlock 0) [stakeTx] none
      forkList
    returns result = true ∧
      (finalState result).shared.proofs ≠ forkList.shared.proofs ∧
      (finalState result).shared.storedProofs ≠ forkList.shared.storedProofs := by
  decide +kernel

/-! ## Which alternative blocks are accepted -/

/-- A submission to `alt_block_add`. -/
structure AltSubmission where
  block : Block
  txs : List Transaction := []
  checkpoint : Option Checkpoint := none

section

variable {σ : Type} (chain : Chain σ) (migrations : Migrations) (view : NodeView)

/-- The list that a submission has to be verified against: the one that holds the
state of its block, if that can be computed. -/
def listForBlock (s : AltSubmission) (l : ServiceNodeList) : Option ServiceNodeList :=
  if l.altStates.contains s.block.hash then some l
  else
    match altParent l s.block with
    | none => none
    | some parent =>
      if parent.blockHash ≠ s.block.prevId then none
      else
        match extendAltState chain migrations s.block s.txs parent l with
        | .ok _ l' => some l'
        | .error _ _ => none

/-- A block whose state is stored or can be computed is one that `verify_block`
accepts. -/
def AltValid (l : ServiceNodeList) (s : AltSubmission) : Prop :=
  Hf.hf9ServiceNodes ≤ s.block.majorVersion →
    ∀ l', listForBlock chain migrations s l = some l' →
      verifyBlock chain view l' s.block true s.checkpoint = .ok ()

/-- A call that returns does so for a block that `verify_block` accepts, and one that
throws leaves the alternative states as they were. -/
def AltSound (l : ServiceNodeList) (s : AltSubmission) : Prop :=
  match altBlockAdd chain migrations view s.block s.txs s.checkpoint l with
  | .ok _ l' => verifyBlock chain view l' s.block true s.checkpoint = .ok ()
  | .error _ l' => l'.altStates = l.altStates

/-- The list after a submission. -/
def altSubmit (l : ServiceNodeList) (s : AltSubmission) : ServiceNodeList :=
  finalState (altBlockAdd chain migrations view s.block s.txs s.checkpoint l)

variable {chain migrations view} {l l' : ServiceNodeList} {s : AltSubmission}

theorem verifyBlock_of_early {block : Block} {altBlock : Bool} {checkpoint : Option Checkpoint}
    (h : block.majorVersion < Hf.hf9ServiceNodes) :
    verifyBlock chain view l block altBlock checkpoint = .ok () := by
  simp only [verifyBlock, if_pos h]

section

variable (hhf : ¬ s.block.majorVersion < Hf.hf9ServiceNodes)

include hhf

/-- What `alt_block_add` does with a block of the service node forks. -/
theorem altBlockAdd_of_stored (hstored : l.altStates.contains s.block.hash = true) :
    altBlockAdd chain migrations view s.block s.txs s.checkpoint l = .ok () l := by
  simp only [altBlockAdd, if_neg hhf, get_bind_run, if_pos hstored, pure_run]

/-- A new block whose state is computed is stored and then verified. -/
theorem altBlockAdd_of_extended (hnew : ¬ l.altStates.contains s.block.hash = true)
    (hlist : listForBlock chain migrations s l = some l') :
    altBlockAdd chain migrations view s.block s.txs s.checkpoint l =
        orListThrow (verifyBlock chain view l' s.block true s.checkpoint) l' ∧
      ∃ state, l'.altStates = l.altStates.set s.block.hash state := by
  simp only [listForBlock, if_neg hnew] at hlist
  cases hparent : altParent l s.block with
  | none =>
    rw [hparent] at hlist
    cases hlist
  | some parent =>
    simp only [hparent] at hlist
    split at hlist
    · cases hlist
    rename_i hhash
    split at hlist
    · rename_i hextend
      cases hlist
      constructor
      · simp only [altBlockAdd, if_neg hhf, get_bind_run, if_neg hnew, hparent, if_neg hhash,
          bind_run_of_ok hextend]
      · unfold extendAltState at hextend
        split at hextend
        · cases hextend
          exact ⟨_, rfl⟩
        · cases hextend
    · cases hlist

/-- A new block whose state cannot be computed is refused. -/
theorem altBlockAdd_of_none (hlist : listForBlock chain migrations s l = none) :
    ∃ fault l', altBlockAdd chain migrations view s.block s.txs s.checkpoint l = .error fault l' ∧
      l'.altStates = l.altStates := by
  unfold listForBlock at hlist
  split at hlist
  · cases hlist
  rename_i hnew
  cases hparent : altParent l s.block with
  | none =>
    refine ⟨.parentStateNotFound, l, ?_, rfl⟩
    simp only [altBlockAdd, if_neg hhf, get_bind_run, if_neg hnew, hparent, throw_run]
  | some parent =>
    simp only [hparent] at hlist
    by_cases hhash : parent.blockHash ≠ s.block.prevId
    · refine ⟨.parentHashMismatch, l, ?_, rfl⟩
      simp only [altBlockAdd, if_neg hhf, get_bind_run, if_neg hnew, hparent, if_pos hhash,
        throw_run]
    · rw [if_neg hhash] at hlist
      cases hextend : extendAltState chain migrations s.block s.txs parent l with
      | ok =>
        rw [hextend] at hlist
        cases hlist
      | error fault l' =>
        refine ⟨fault, l', ?_, ?_⟩
        · simp only [altBlockAdd, if_neg hhf, get_bind_run, if_neg hnew, hparent, if_neg hhash,
            bind_run_of_error hextend]
        · unfold extendAltState at hextend
          split at hextend
          · cases hextend
          · cases hextend
            rfl

end

theorem ne_of_set_absent {m m' : KeyMap Hash State} {hash : Hash} {state : State}
    (habsent : ¬ m.contains hash = true) (hset : m' = m.set hash state) : m' ≠ m := by
  rintro rfl
  have hmem : (hash, state) ∈ m' := by
    rw [hset]
    exact KeyMap.mem_set.mpr (.inl rfl)
  apply habsent
  rw [KeyMap.contains, KeyMap.get?_eq_some_iff.mpr hmem, Option.isSome_some]

/-- A call is sound where its block is valid, and nowhere else. -/
theorem altSound_iff_altValid : AltSound chain migrations view l s ↔
    AltValid chain migrations view l s := by
  by_cases hhf : s.block.majorVersion < Hf.hf9ServiceNodes
  · have hrun : altBlockAdd chain migrations view s.block s.txs s.checkpoint l = .ok () l := by
      simp only [altBlockAdd, if_pos hhf, pure_run]
    constructor
    · intro _ hlater
      exact absurd hhf (UInt8.not_lt.mpr hlater)
    · intro _
      simp only [AltSound, hrun]
      exact verifyBlock_of_early hhf
  have hlater : Hf.hf9ServiceNodes ≤ s.block.majorVersion := UInt8.not_lt.mp hhf
  by_cases hstored : l.altStates.contains s.block.hash = true
  · have hlist : listForBlock chain migrations s l = some l := by
      rw [listForBlock, if_pos hstored]
    simp only [AltSound, altBlockAdd_of_stored hhf hstored, AltValid, hlist, Option.some.injEq]
    constructor
    · rintro hverify _ _ rfl
      exact hverify
    · intro hvalid
      exact hvalid hlater l rfl
  cases hlist : listForBlock chain migrations s l with
  | none =>
    obtain ⟨fault, l', hrun, hsame⟩ := @altBlockAdd_of_none _ chain migrations view l s hhf hlist
    simp only [AltSound, hrun, hsame, AltValid, hlist, reduceCtorEq, false_implies, implies_true]
  | some l' =>
    obtain ⟨hrun, state, hset⟩ :=
      @altBlockAdd_of_extended _ chain migrations view l l' s hhf hstored hlist
    simp only [AltValid, hlist, Option.some.injEq, forall_eq', hlater, true_implies]
    cases hverify : verifyBlock chain view l' s.block true s.checkpoint with
    | ok => simp only [AltSound, hrun, hverify, orListThrow, pure_run]
    | error =>
      simp only [AltSound, hrun, hverify, orListThrow, throw_run, reduceCtorEq, iff_false]
      exact ne_of_set_absent hstored hset

/-- In every sequence of submissions, all calls are sound where all blocks are valid,
and nowhere else. -/
theorem altBlockAdd_sound_iff (l : ServiceNodeList) (run : List AltSubmission) :
    AllAlong (altSubmit chain migrations view) (AltSound chain migrations view) l run ↔
      AllAlong (altSubmit chain migrations view) (AltValid chain migrations view) l run :=
  allAlong_congr (fun _ _ (_ : True) => trivial) (fun _ _ _ => altSound_iff_altValid) trivial run

end

/-- A block that no quorum signed throws at first, but its state is stored; submitted
again it is accepted, although `verify_block` still rejects it. -/
theorem altBlockAdd_resubmitted :
    let first := altBlockAdd forkChain noMigrations tipView signedBlock [] none forkList
    thrown first = some .invalidBlockComponents ∧
      (finalState first).altStates ≠ forkList.altStates ∧
      returns (altBlockAdd forkChain noMigrations tipView signedBlock [] none
        (finalState first)) = true ∧
      verifyBlock forkChain tipView (finalState first) signedBlock true none =
        .error .invalidBlockComponents := by
  decide +kernel

end Xeqm.ServiceNodes
