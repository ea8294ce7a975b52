import Xeqm.ServiceNodes.List

/-!
# What a transition leaves alone

Most parts of a transition write to nothing but the state, and none of them but one to its height.
The lemmas here say so for every relation between worlds that admits such writes, so that the same
lemma serves for the height and for what the states share, the uptime proofs and the rewards
database. Where a part may write to these, it is said first in which worlds it does.
-/

namespace Xeqm.ServiceNodes

open Cryptonote Lib Rewards List

/-- A relation that admits every write to the state that leaves its height alone. -/
class StateFrame (R : World → World → Prop) : Prop extends Std.Refl R, IsTrans World R where
  state_write : ∀ (w : World) (s : State), s.height = w.state.height → R w { w with state := s }

/-- A relation that admits every write to what the states share. -/
def AdmitsShared (R : World → World → Prop) : Prop :=
  ∀ (w : World) (shared : Shared), R w { w with shared := shared }

/-- The height is the same. -/
def SameHeight (w w' : World) : Prop := w'.state.height = w.state.height

instance : StateFrame SameHeight where
  refl _ := rfl
  trans _ _ _ h h' := h'.trans h
  state_write _ _ h := h

theorem SameHeight.admitsShared : AdmitsShared SameHeight := fun _ _ => rfl

/-- The height is not lower. -/
def NotLower (w w' : World) : Prop := w.state.height ≤ w'.state.height

/-! ## The phases of a transition -/

section

variable {σ : Type} (chain : Chain σ) (migrations : Migrations)

/-- What a transition does before the new height. -/
def beforeHeight (block : Block) (feed : Option (List Hash)) : UpdateM PreBlock := do
  modifyState (fun s => { s with quorums := {} })
  applyFixups chain migrations block
  let w ← get
  let pre := preBlock chain block w.state
  updatePulseQuorum chain block pre feed
  pure pre

/-- The world after the first write of `advanceBlock`. -/
def nextHeight (block : Block) (w : World) : World :=
  { w with state := { w.state with height := w.state.height + 1, blockHash := block.hash } }

/-- What `advanceBlock` does from the new height to the reward of the winner. -/
def beforeReward (block : Block) (pre : PreBlock) : UpdateM VoteProgress := do
  removeUnfundedNodes chain
  let result ← runTransition chain migrations {}
  expireBlacklist block.majorVersion
  let expired ← anyM (expireNode chain) pre.expiredNodes
  rewardWinner pre.winner
  pure { result := result, needSwarmUpdate := expired }

/-- One vote of the loop in `processVotes`. -/
def processVote (block : Block) (index : UInt32) (v : (Hash × UnconfirmedL2Tx) × Bool)
    (progress : VoteProgress) : UpdateM VoteProgress := do
  let unconf := v.1.2.addVote v.2 (voteWeight block)
  modifyState (fun s => { s with unconfirmedL2Txes := s.unconfirmedL2Txes.set v.1.1 unconf })
  let w ← get
  match unconf.confirmed w.state.height with
  | none => pure progress
  | some accepted => finalizeL2Tx chain block index v.1.1 unconf accepted progress

/-- What `advanceBlock` does after the reward of the winner. -/
def afterReward (known : KnownStates) (block : Block) (txs : List Transaction)
    (winner : PublicKey) (progress : VoteProgress) : UpdateM BlockAddResult := do
  let progress ← processL2Votes chain block progress
  ensureAltPkMaps chain
  let changed ← processTxs chain known block txs
  finishBlock chain block winner (progress.needSwarmUpdate || changed) progress.result

end

variable {block : Block} {known : KnownStates} {txs : List Transaction} {tx : Transaction}
  {α : Type} {index : UInt32} {f : State → State} {w : World} {key winner : PublicKey}
  {info : ServiceNodeInfo} {blsPubkey : BlsPublicKey} {confirm : ConfirmMetadata}
  {change : TxExtraServiceNodeStateChange} {hfVersion : Hf} {pre : PreBlock}
  {feed : Option (List Hash)} {progress : VoteProgress} {needSwarmUpdate : Bool}
  {result : BlockAddResult} {σ : Type} {chain : Chain σ} {migrations : Migrations}

theorem updateFromBlock_eq :
    updateFromBlock chain migrations known block txs feed =
      beforeHeight chain migrations block feed >>=
        advanceBlock chain migrations known block txs := by
  simp only [updateFromBlock, beforeHeight, bind_assoc, pure_bind]

/-- `advanceBlock` in its parts. -/
theorem advanceBlock_run :
    advanceBlock chain migrations known block txs pre w =
      (beforeReward chain migrations block pre >>= afterReward chain known block txs pre.winner)
        (nextHeight block w) := by
  simp only [advanceBlock, modifyState_bind_run, beforeReward, bind_assoc, pure_bind]
  rfl

theorem processVotes_cons {v : (Hash × UnconfirmedL2Tx) × Bool}
    {rest : List ((Hash × UnconfirmedL2Tx) × Bool)} :
    processVotes chain block index (v :: rest) progress w =
      (processVote chain block index v progress >>= processVotes chain block (index + 1) rest) w := by
  obtain ⟨⟨txHash, unconf⟩, vote⟩ := v
  -- the equation of the function is out of reach of `simp`, so the first write is matched by hand
  have hloop : processVotes chain block index (((txHash, unconf), vote) :: rest) progress =
      modifyState _ >>= _ := rfl
  rw [hloop, modifyState_bind_run]
  simp only [processVote, bind_assoc, modifyState_bind_run, get_bind_run]
  cases (unconf.addVote vote (voteWeight block)).confirmed w.state.height <;> rfl

/-! ## What writes to the state alone -/

section

variable {R : World → World → Prop} [StateFrame R]

theorem modifyState_keeps (hf : ∀ s, (f s).height = s.height) : Keeps R (modifyState f) :=
  .modify fun w => StateFrame.state_write w _ (hf w.state)

theorem onState_keeps {f : State → State × α} (hf : ∀ s, (f s).1.height = s.height) :
    Keeps R (onState f) :=
  .read fun _ => .bind (modifyState_keeps hf) fun _ => .pure

omit [StateFrame R] in
theorem onSqlite_keeps (hR : AdmitsShared R) (m : DbM α) : Keeps R (onSqlite m) := by
  intro w
  unfold onSqlite
  split
  · exact hR w _
  · exact hR w _

theorem orThrow_keeps (result : Except Fault α) : Keeps R (orThrow result) := by
  unfold orThrow
  split
  · exact .pure
  · exact .throw

theorem snpkToXpk_keeps : Keeps R (snpkToXpk chain key) := by
  unfold snpkToXpk
  split
  · exact .pure
  · exact .throw

theorem addAltPk_keeps : Keeps R (addAltPk chain key blsPubkey) :=
  .bind snpkToXpk_keeps fun _ => modifyState_keeps fun _ => rfl

theorem ensureAltPkMaps_keeps : Keeps R (ensureAltPkMaps chain) := by
  refine .read fun w => .ite_pure fun _ => ?_
  refine .read fun w => .ite_pure fun _ => ?_
  refine .bind (.forM (fun _ _ => addAltPk_keeps)) fun _ => ?_
  exact .forM fun _ _ => addAltPk_keeps

theorem insertInfo_keeps : Keeps R (insertInfo chain key info) := by
  refine .bind (modifyState_keeps fun _ => rfl) fun _ => .read fun w => ?_
  refine .ite_pure fun _ => ?_
  exact .bind snpkToXpk_keeps fun _ => modifyState_keeps fun _ => rfl

theorem eraseInfo_keeps {exitType : RemovalType} : Keeps R (eraseInfo chain key info exitType) := by
  have herase : Keeps R (modifyState (fun s => { s with
      serviceNodesInfos := s.serviceNodesInfos.remove key })) := modifyState_keeps fun _ => rfl
  refine .read fun w => ?_
  refine .ite (fun _ => ?_) fun _ => herase
  refine .ite (fun _ => ?_) fun _ => ?_
  · refine .bind snpkToXpk_keeps (fun _ => ?_)
    exact .bind (modifyState_keeps (fun _ => rfl)) fun _ => herase
  · exact .bind (modifyState_keeps (fun _ => rfl)) fun _ => herase

theorem derefQuorum_keeps {quorum : Option Quorum} : Keeps R (derefQuorum quorum) := by
  unfold derefQuorum
  split
  · exact .pure
  · exact .throw

theorem altQuorum_keeps {states : List (Hash × State)} {found : Option Quorum} :
    Keeps R (altQuorum chain block change states found) := by
  induction states generalizing found with
  | nil => exact .pure
  | cons _ _ ih =>
    refine .ite (fun _ => ih) fun _ => ?_
    exact .bind derefQuorum_keeps fun _ => ih

theorem stateChangeQuorum_keeps : Keeps R (stateChangeQuorum chain known block change) := by
  unfold stateChangeQuorum
  split
  · exact .pure
  · refine .bind derefQuorum_keeps (fun _ => ?_)
    exact .pure_ite fun _ => altQuorum_keeps

theorem processNewEthereumTx_keeps : Keeps R (processNewEthereumTx chain block tx) := by
  refine .ite (fun _ => .throw) fun _ => ?_
  refine .read fun w => ?_
  exact .ite (fun _ => .throw) fun _ => modifyState_keeps fun _ => rfl

theorem processContributionTx_keeps :
    Keeps R (onState (processContributionTx chain block tx index)) := by
  refine onState_keeps fun s => ?_
  unfold processContributionTx
  repeat' split
  all_goals rfl

theorem processKeyImageUnlockTx_keeps :
    Keeps R (onState (fun s => processKeyImageUnlockTx chain hfVersion s.height tx s)) := by
  refine onState_keeps fun s => ?_
  unfold processKeyImageUnlockTx
  repeat' split
  all_goals rfl

theorem forgetRemovedNode_keeps {node : RecentlyRemovedNode} :
    Keeps R (forgetRemovedNode chain node blsPubkey) :=
  .bind snpkToXpk_keeps fun _ => modifyState_keeps fun _ => rfl

theorem confirmExitRequest_keeps : Keeps R (confirmExitRequest chain blsPubkey) := by
  refine .read fun w => .pure_ite fun _ => ?_
  split
  · exact .pure
  · exact .pure_ite fun _ => .bind (modifyState_keeps fun _ => rfl) fun _ => .pure

theorem confirmPurge_keeps : Keeps R (confirmPurge chain confirm blsPubkey) := by
  refine .read fun w => .pure_ite fun _ => ?_
  split
  · exact .pure
  · exact .bind eraseInfo_keeps fun _ => .pure

theorem removeUnfundedNodes_keeps : Keeps R (removeUnfundedNodes chain) :=
  .read fun _ => .ite_pure fun _ => .forM fun _ _ => eraseInfo_keeps

theorem expireNodes_keeps {keys : List PublicKey} : Keeps R (anyM (expireNode chain) keys) := by
  induction keys with
  | nil => exact .pure
  | cons key _ ih =>
    refine .bind (.read fun w => ?_) fun _ => .bind ih fun _ => .pure
    split
    · exact .pure
    · exact .bind eraseInfo_keeps fun _ => .pure

theorem updatePulseQuorum_keeps : Keeps R (updatePulseQuorum chain block pre feed) := by
  refine .ite_pure fun _ => ?_
  refine .read fun w => ?_
  refine .bind (orThrow_keeps _) fun _ => ?_
  exact .ite_pure fun _ => modifyState_keeps fun _ => rfl

theorem finishBlock_keeps : Keeps R (finishBlock chain block winner needSwarmUpdate result) := by
  have hquorums (active : List NodeEntry) (decomm payable : List PublicKey) :
      Keeps R (do
        let w ← get
        let quorums ← orThrow (generateOtherQuorums chain.quorumRng w.state active decomm
          block.majorVersion chain.net.nettype)
        modifyState fun s => { s with quorums := quorums, blockLeader := winner }
        pure { result with payableNodes := payable }) := by
    refine .read fun w => ?_
    refine .bind (orThrow_keeps _) fun _ => ?_
    exact .bind (modifyState_keeps (fun _ => rfl)) fun _ => .pure
  refine .read fun w => ?_
  refine .ite (fun _ => ?_) fun _ => hquorums _ _ _
  refine .bind ?_ fun _ => hquorums _ _ _
  unfold updateSwarms
  split
  · exact .throw
  · exact modifyState_keeps fun _ => rfl

/-- A transition up to the new height, given what the fixup may write. -/
theorem beforeHeight_keeps (hR : block.majorVersion = Hf.hf22EthFixup ∧
      isFirstBlockOf chain.net Hf.hf22EthFixup block.height → AdmitsShared R) :
    Keeps R (beforeHeight chain migrations block feed) := by
  refine .bind (modifyState_keeps fun _ => rfl) fun _ => .bind (.ite_pure fun hfixup => ?_) fun _ =>
    .read fun w => .bind updatePulseQuorum_keeps fun _ => .pure
  refine .bind (onSqlite_keeps (hR hfixup) _) fun _ => ?_
  refine .bind (modifyState_keeps (fun _ => rfl)) fun _ => ?_
  exact onSqlite_keeps (hR hfixup) _

/-- What leads from the new height to the reward of the winner, given what the migration does. -/
theorem beforeReward_keeps (htransition : Keeps R (runTransition chain migrations {})) :
    Keeps R (beforeReward chain migrations block pre) := by
  refine .bind removeUnfundedNodes_keeps fun _ => ?_
  refine .bind htransition fun _ => ?_
  refine .bind (.ite_pure fun _ => modifyState_keeps fun _ => rfl) fun _ => ?_
  refine .bind expireNodes_keeps fun _ => ?_
  exact .bind (modifyState_keeps fun _ => rfl) fun _ => .pure

end

/-! ## What writes to the shared data -/

section

variable {σ : Type} (chain : Chain σ)

/-- A state change of a node writes to its proof. -/
def changeWrites (block : Block) (change : TxExtraServiceNodeStateChange)
    (info : ServiceNodeInfo) : Bool :=
  Hf.hf12Checkpointing ≤ block.majorVersion &&
    match change.state with
    | .decommission => !info.isDecommissioned && !chain.rescanning
    | .recommission => info.isDecommissioned
    | _ => false

/-- `process_state_change_tx` comes to a node whose proof it writes to. -/
def stateChangeWrites (known : KnownStates) (block : Block) (tx : Transaction) (w : World) : Bool :=
  match getServiceNodeStateChange tx block.majorVersion with
  | none => false
  | some change =>
    match stateChangeQuorum chain known block change w with
    | .ok (some quorum) w =>
      match quorum.workers[change.serviceNodeIndex.toNat]? with
      | none => false
      | some key =>
        (w.state.serviceNodesInfos.get? key).any (changeWrites chain block change)
    | _ => false

/-- `process_registration_tx` admits a node and wipes its proof. -/
def registrationWrites (block : Block) (tx : Transaction) (index : UInt32) (w : World) : Bool :=
  match isRegistrationTx chain.crypto chain.net.nettype block.majorVersion tx block.timestamp
      block.height index (w.state.getStakingRequirement chain.net) with
  | none => false
  | some (key, info) =>
    (admitRegistration chain.net.nettype block.majorVersion block.height
      (w.state.serviceNodesInfos.get? key) info).isSome &&
        (Hf.hf11InfiniteStaking ≤ block.majorVersion && !chain.rescanning)

/-- A transaction of a block writes to a proof. -/
def txWrites (known : KnownStates) (block : Block) (index : UInt32) (tx : Transaction) (w : World) :
    Bool :=
  match tx.type with
  | .standard | .stake =>
    tx.type = stakingTxType block.majorVersion && registrationWrites chain block tx index w
  | .stateChange => stateChangeWrites chain known block tx w
  | _ => false

/-- Some transaction that a block comes to writes to a proof. -/
def txsWrite (known : KnownStates) (block : Block) : List (Transaction × ℕ) → World → Bool
  | [], _ => false
  | (tx, index) :: rest, w =>
    txWrites chain known block (UInt32.ofNat index) tx w ||
      match processTx chain known block (UInt32.ofNat index) tx w with
      | .ok _ w => txsWrite known block rest w
      | .error _ _ => false

/-- `process_confirmed_event` wipes a proof or adds delayed payments. -/
def eventWrites (confirm : ConfirmMetadata) (w : World) : StateChangeVariant → Bool
  | .newServiceNodeV2 event =>
    !chain.rescanning && !decide (w.state.serviceNodesInfos.contains event.snPubkey ∨
        w.state.serviceNodesInfos.toList.any (fun e => e.2.blsPublicKey = event.blsPubkey)) &&
      match validateEthereumRegistration chain.crypto chain.net.nettype confirm
        (w.state.getStakingRequirement chain.net) event with
      | .ok _ => true
      | .error _ => false
  | .serviceNodeExit blsPubkey returnedAmount =>
    match w.state.recentlyRemovedNodes.find? (fun node => node.info.blsPublicKey = blsPubkey) with
    | none => false
    | some node =>
      let requirement := node.info.stakingRequirement
      let slashAmount := requirement - min requirement returnedAmount
      !decide (slashAmount > 0 ∧ w.state.height < node.liquidationHeight.toNat) &&
        match exitStakes confirm node with
        | [] => false
        | operator :: _ => !decide (slashAmount > operator.amount)
  | _ => false

/-- A vote completes a transaction whose event writes. -/
def voteWrites (block : Block) (index : UInt32) (v : (Hash × UnconfirmedL2Tx) × Bool) (w : World) :
    Bool :=
  let unconf := v.1.2.addVote v.2 (voteWeight block)
  unconf.confirmed w.state.height = some true &&
    match chain.db.getTx v.1.1 with
    | none => false
    | some tx =>
      match chain.db.getBlockFromHeight unconf.heightAdded.toNat with
      | none => false
      | some minedIn =>
        match minedIn.txHashes.idxOf? v.1.1 with
        | none => false
        | some txIndex =>
          eventWrites chain
            { hfVersion := block.majorVersion
              height := unconf.heightAdded
              confirmedHeight := w.state.height
              voteIndex := index
              txIndex := txIndex % 2 ^ 16 } w tx.event

/-- Some vote that a block comes to completes a transaction whose event writes. -/
def votesWrite (block : Block) : UInt32 → List ((Hash × UnconfirmedL2Tx) × Bool) → VoteProgress →
    World → Bool
  | _, [], _, _ => false
  | index, v :: rest, progress, w =>
    voteWrites chain block index v w ||
      match processVote chain block index v progress w with
      | .ok progress w => votesWrite block (index + 1) rest progress w
      | .error _ _ => false

/-- After the reward of the winner a block writes to the shared data, by its votes or by its
transactions. -/
def afterRewardWrites (known : KnownStates) (block : Block) (txs : List Transaction)
    (progress : VoteProgress) (w : World) : Bool :=
  (ethBls ≤ block.majorVersion && votesWrite chain block 0
      (w.state.unconfirmedL2Txes.toList.zip block.l2Votes) progress w) ||
    match (do let _ ← processL2Votes chain block progress; ensureAltPkMaps chain) w with
    | .ok _ w => txsWrite chain known block txs.zipIdx w
    | .error _ _ => false

end

section

variable {R : World → World → Prop} [StateFrame R]

omit [StateFrame R] in
theorem modifyShared_keeps (hR : AdmitsShared R) {f : Shared → Shared} : Keeps R (modifyShared f) :=
  .modify fun w => hR w _

theorem resetProof_keeps (hR : chain.rescanning = false → AdmitsShared R) :
    Keeps R (resetProof chain key) :=
  .pure_ite fun h => modifyShared_keeps (hR (Bool.eq_false_iff.mpr h))

theorem processRegistrationTx_at
    (hR : registrationWrites chain block tx index w = true → AdmitsShared R) :
    R w (finalState (processRegistrationTx chain block tx index w)) := by
  unfold registrationWrites at hR
  simp only [processRegistrationTx, get_bind_run]
  rcases hregistration : isRegistrationTx chain.crypto chain.net.nettype block.majorVersion tx
    block.timestamp block.height index (w.state.getStakingRequirement chain.net) with
    _ | ⟨key, info⟩
  · exact Std.Refl.refl w
  rw [hregistration] at hR
  dsimp only at hR ⊢
  cases hadmitted : admitRegistration chain.net.nettype block.majorVersion block.height
      (w.state.serviceNodesInfos.get? key) info with
  | none => exact Std.Refl.refl w
  | some info' =>
    rw [hadmitted, Option.isSome_some, Bool.true_and] at hR
    have henter : Keeps R (enterNode chain block.majorVersion key info') := by
      refine .ite (fun hhf => .bind (resetProof_keeps fun hscan => hR ?_) fun _ => insertInfo_keeps)
        fun _ => insertInfo_keeps
      rw [hscan, decide_eq_true hhf]
      rfl
    exact Keeps.bind_at (henter w) fun _ => .pure

theorem applyStateChange_keeps (hR : changeWrites chain block change info = true → AdmitsShared R) :
    Keeps R (applyStateChange chain block change key info) := by
  unfold changeWrites at hR
  unfold applyStateChange
  cases hstate : change.state with
  | deregister =>
    have herase : Keeps R (do eraseInfo chain key info .deregister; pure true) :=
      .bind eraseInfo_keeps fun _ => .pure
    refine .ite (fun _ => ?_) fun _ => herase
    exact .bind (modifyState_keeps (fun _ => rfl)) fun _ => herase
  | decommission =>
    refine .pure_ite fun hallowed => .bind (modifyState_keeps fun _ => rfl) fun _ => ?_
    refine .pure_ite fun hscan => .bind (modifyShared_keeps (hR ?_)) fun _ => .pure
    simp_all
  | recommission =>
    refine .pure_ite fun hallowed => .bind (modifyState_keeps fun _ => rfl) fun _ => ?_
    refine .bind (modifyShared_keeps (hR ?_)) fun _ => .pure
    simp_all
  | ipChangePenalty =>
    exact .pure_ite fun _ => .bind (modifyState_keeps fun _ => rfl) fun _ => .pure

theorem processStateChangeTx_at
    (hR : stateChangeWrites chain known block tx w = true → AdmitsShared R) :
    R w (finalState (processStateChangeTx chain known block tx w)) := by
  unfold stateChangeWrites at hR
  unfold processStateChangeTx
  split
  · exact Std.Refl.refl w
  cases hchange : getServiceNodeStateChange tx block.majorVersion with
  | none => exact Std.Refl.refl w
  | some change =>
    rw [hchange] at hR
    dsimp only at hR ⊢
    have hquorum := @stateChangeQuorum_keeps block known change _ chain R _ w
    refine finalState_bind hquorum fun quorum w' hrun => ?_
    rw [hrun] at hquorum hR
    refine IsTrans.trans _ _ _ hquorum ?_
    cases quorum with
    | none => exact Std.Refl.refl w'
    | some quorum =>
      dsimp only at hR ⊢
      cases hkey : quorum.workers[change.serviceNodeIndex.toNat]? with
      | none => exact Std.Refl.refl w'
      | some key =>
        rw [hkey] at hR
        dsimp only at hR ⊢
        rw [get_bind_run]
        cases hinfo : w'.state.serviceNodesInfos.get? key with
        | none => exact Std.Refl.refl w'
        | some info =>
          rw [hinfo] at hR
          exact applyStateChange_keeps hR w'

/-- One transaction, in a world where it may write to a proof if it does. -/
theorem processTx_at (hR : txWrites chain known block index tx w = true → AdmitsShared R) :
    R w (finalState (processTx chain known block index tx w)) := by
  have heth : Keeps R (do processNewEthereumTx chain block tx; pure false) :=
    .bind processNewEthereumTx_keeps fun _ => .pure
  unfold txWrites at hR
  unfold processTx
  cases htype : tx.type with
  | standard | stake =>
    rw [htype] at hR
    dsimp only at hR ⊢
    split
    · rename_i hstaking
      rw [decide_eq_true hstaking, Bool.true_and] at hR
      exact Keeps.bind_at (processRegistrationTx_at hR) fun _ => processContributionTx_keeps
    · exact Std.Refl.refl w
  | stateChange =>
    rw [htype] at hR
    exact processStateChangeTx_at hR
  | keyImageUnlock => exact Keeps.bind processKeyImageUnlockTx_keeps (fun _ => .pure) w
  | oxenNameSystem => exact Std.Refl.refl w
  | _ => exact heth w

theorem processTxs_at {txs : List (Transaction × ℕ)}
    (hR : txsWrite chain known block txs w = true → AdmitsShared R) :
    R w (finalState (anyM (fun (tx, index) =>
      processTx chain known block (UInt32.ofNat index) tx) txs w)) := by
  induction txs generalizing w with
  | nil => exact Std.Refl.refl w
  | cons entry rest ih =>
    obtain ⟨tx, index⟩ := entry
    simp only [txsWrite, Bool.or_eq_true] at hR
    have hfirst := @processTx_at block known tx _ w _ chain R _ (fun h => hR (.inl h))
    refine finalState_bind hfirst fun first w' hrun => ?_
    dsimp only at hrun
    rw [hrun] at hfirst hR
    exact IsTrans.trans _ _ _ hfirst (Keeps.bind_at (ih fun h => hR (.inr h)) fun _ => .pure)

theorem confirmNewServiceNode_at {event : NewServiceNodeV2}
    (hR : eventWrites chain confirm w (.newServiceNodeV2 event) = true → AdmitsShared R) :
    R w (finalState (confirmNewServiceNode chain confirm event w)) := by
  simp only [eventWrites] at hR
  simp only [confirmNewServiceNode, get_bind_run]
  split
  · exact Std.Refl.refl w
  rename_i hnew
  cases hvalid : validateEthereumRegistration chain.crypto chain.net.nettype confirm
      (w.state.getStakingRequirement chain.net) event with
  | error => exact Std.Refl.refl w
  | ok info =>
    rw [hvalid] at hR
    refine Keeps.tryCatch ?_ (fun _ => .pure) w
    refine .bind (resetProof_keeps fun hscan => hR ?_) fun _ => ?_
    · rw [hscan, decide_eq_false hnew]
      rfl
    · exact .bind insertInfo_keeps fun _ => .pure

theorem confirmExit_at {returnedAmount : UInt64}
    (hR : eventWrites chain confirm w (.serviceNodeExit blsPubkey returnedAmount) = true →
      AdmitsShared R) :
    R w (finalState (confirmExit chain confirm blsPubkey returnedAmount w)) := by
  simp only [eventWrites] at hR
  simp only [confirmExit, get_bind_run]
  cases hnode : w.state.recentlyRemovedNodes.find?
      (fun node => node.info.blsPublicKey = blsPubkey) with
  | none => exact Std.Refl.refl w
  | some node =>
    rw [hnode] at hR
    dsimp only at hR ⊢
    split
    · exact Std.Refl.refl w
    rename_i hlate
    cases hstakes : exitStakes confirm node with
    | nil => exact Keeps.pure_ite (fun _ => .bind forgetRemovedNode_keeps fun _ => .pure) w
    | cons operator others =>
      rw [hstakes] at hR
      refine Keeps.pure_ite (fun hcovered => ?_) w
      refine .bind (modifyShared_keeps (hR ?_)) fun _ =>
        .bind forgetRemovedNode_keeps fun _ => .pure
      simp only [decide_eq_false hlate, decide_eq_false hcovered, Bool.not_false, Bool.and_self]

theorem processConfirmedEvent_at {event : StateChangeVariant}
    (hR : eventWrites chain confirm w event = true → AdmitsShared R) :
    R w (finalState (processConfirmedEvent chain confirm event w)) := by
  cases event with
  | none => exact Std.Refl.refl w
  | newServiceNodeV2 => exact confirmNewServiceNode_at hR
  | serviceNodeExitRequest => exact confirmExitRequest_keeps w
  | serviceNodeExit => exact confirmExit_at hR
  | stakingRequirementUpdated =>
    exact StateFrame.state_write w _ rfl
  | serviceNodePurge => exact confirmPurge_keeps w

/-- A vote runs the event of its transaction if it completes it. -/
theorem processVote_at {v : (Hash × UnconfirmedL2Tx) × Bool}
    (hR : voteWrites chain block index v w = true → AdmitsShared R) :
    R w (finalState (processVote chain block index v progress w)) := by
  obtain ⟨⟨txHash, unconf⟩, vote⟩ := v
  unfold voteWrites at hR
  dsimp only at hR
  generalize hunconf : unconf.addVote vote (voteWeight block) = unconf' at hR
  have hadd : R w { w with state := { w.state with
      unconfirmedL2Txes := w.state.unconfirmedL2Txes.set txHash unconf' } } :=
    StateFrame.state_write w _ rfl
  rw [processVote, hunconf, modifyState_bind_run, get_bind_run]
  refine IsTrans.trans _ _ _ hadd ?_
  dsimp only
  cases hconfirmed : unconf'.confirmed w.state.height with
  | none => exact Std.Refl.refl _
  | some accepted =>
    rw [hconfirmed] at hR
    unfold finalizeL2Tx
    dsimp only
    cases htx : chain.db.getTx txHash with
    | none => exact Std.Refl.refl _
    | some tx =>
      rw [htx] at hR
      dsimp only at hR ⊢
      split
      · exact Std.Refl.refl _
      cases hblock : chain.db.getBlockFromHeight unconf'.heightAdded.toNat with
      | none => exact Std.Refl.refl _
      | some minedIn =>
        rw [hblock] at hR
        dsimp only at hR ⊢
        cases hindex : minedIn.txHashes.idxOf? txHash with
        | none => exact Std.Refl.refl _
        | some txIndex =>
          rw [hindex] at hR
          dsimp only at hR ⊢
          rw [get_bind_run]
          have hrest (confirmed : ConfirmResult) (result : VoteProgress) : Keeps R (do
              modifyState fun s => { s with
                unconfirmedL2Txes := s.unconfirmedL2Txes.remove txHash }
              pure result) :=
            .bind (modifyState_keeps fun _ => rfl) fun _ => .pure
          split
          · subst accepted
            exact Keeps.bind_at (processConfirmedEvent_at hR) fun confirmed => hrest confirmed _
          · exact Keeps.bind_at (Std.Refl.refl _) fun confirmed => hrest confirmed _

/-- The votes, in a world where they may write if they do. -/
theorem processVotes_at {votes : List ((Hash × UnconfirmedL2Tx) × Bool)}
    (hR : votesWrite chain block index votes progress w = true → AdmitsShared R) :
    R w (finalState (processVotes chain block index votes progress w)) := by
  induction votes generalizing index progress w with
  | nil =>
    have hnil : processVotes chain block index [] progress w = .ok progress w := rfl
    rw [hnil]
    exact Std.Refl.refl w
  | cons v rest ih =>
    have hloop : votesWrite chain block index (v :: rest) progress w = (_ || _) := rfl
    rw [hloop, Bool.or_eq_true] at hR
    have hone := @processVote_at block index w progress _ chain R _ v (fun h => hR (.inl h))
    rw [processVotes_cons]
    refine finalState_bind hone fun progress' w' hrun => ?_
    rw [hrun] at hone hR
    exact IsTrans.trans _ _ _ hone (ih fun h => hR (.inr h))

/-- What follows the reward of the winner, in a world where it may write if it does. -/
theorem afterReward_at (hR : afterRewardWrites chain known block txs progress w = true →
      AdmitsShared R) :
    R w (finalState (afterReward chain known block txs winner progress w)) := by
  simp only [afterRewardWrites, Bool.or_eq_true, Bool.and_eq_true, decide_eq_true_eq] at hR
  have hvotes : R w (finalState (processL2Votes chain block progress w)) := by
    unfold processL2Votes
    split
    · rename_i hhf
      rw [get_bind_run]
      split
      · exact Std.Refl.refl w
      · exact processVotes_at fun h => hR (.inl ⟨hhf, h⟩)
    · exact Std.Refl.refl w
  refine finalState_bind hvotes fun progress' w₁ hfirst => ?_
  rw [hfirst] at hvotes
  refine IsTrans.trans _ _ _ hvotes (finalState_bind (ensureAltPkMaps_keeps w₁) fun _ w₂ hmaps => ?_)
  rw [bind_run_of_ok hfirst, hmaps] at hR
  have hmapped := ensureAltPkMaps_keeps.of_ok hmaps (R := R)
  refine IsTrans.trans _ _ _ hmapped ?_
  exact Keeps.bind_at (processTxs_at fun h => hR (.inr h)) fun _ => finishBlock_keeps

end

/-! ## The height -/

theorem runTransition_sameHeight : Keeps SameHeight (runTransition chain migrations result) := by
  refine .read fun w => ?_
  exact .ite_pure fun _ => migrations.transition_height result

/-- The state is one block higher after the first step, and nothing after it
changes the height. -/
theorem advanceBlock_height :
    (finalState (advanceBlock chain migrations known block txs pre w)).state.height =
      w.state.height + 1 := by
  rw [advanceBlock_run]
  exact Keeps.bind (R := SameHeight) (beforeReward_keeps runTransition_sameHeight)
    (fun _ _ => afterReward_at fun _ => .admitsShared) (nextHeight block w)

/-- A transition never goes down, wherever it ends. -/
theorem updateFromBlock_notLower :
    Keeps NotLower (updateFromBlock chain migrations known block txs feed) := by
  intro w
  have hbefore : Keeps SameHeight (beforeHeight chain migrations block feed) :=
    beforeHeight_keeps fun _ => .admitsShared
  rw [updateFromBlock_eq]
  refine finalState_bind (hbefore w).ge fun pre w₁ hrun => ?_
  have hheight := @advanceBlock_height block known txs w₁ pre _ chain migrations
  have hsame := hbefore.of_ok hrun
  unfold NotLower SameHeight at *
  omega

/-- A completed transition leads one block higher. -/
theorem updateFromBlock_height {w' : World}
    (hrun : updateFromBlock chain migrations known block txs feed w = .ok result w') :
    w'.state.height = w.state.height + 1 := by
  rw [updateFromBlock_eq] at hrun
  obtain ⟨pre, w₁, hbefore, hadvance⟩ := bind_eq_ok_iff.mp hrun
  have hsame : SameHeight w w₁ := (beforeHeight_keeps fun _ => .admitsShared).of_ok hbefore
  have hend := congrArg finalState hadvance
  rw [finalState_ok] at hend
  rw [← hend, advanceBlock_height, hsame]

end Xeqm.ServiceNodes
