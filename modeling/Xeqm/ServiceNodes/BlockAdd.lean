import Xeqm.Rewards.Rollback
import Xeqm.ServiceNodes.Frames
import Xeqm.ServiceNodes.VerifyBlock

/-!
# Adding a block to the list and to the rewards database

`service_node_list::block_add`. The list takes the block first and verifies it
afterwards; a caller that gets an exception goes back with `blockchain_detached`,
for which the state before the block is in the history. What `add_block` of the
rewards database returns is not looked at.
-/

namespace Xeqm.ServiceNodes

open Cryptonote Lib Rewards

/-- Continues with a result that does not touch the list, or throws. -/
def orListThrow {α : Type} (result : Except Fault α) : ListM α :=
  match result with
  | .ok a => pure a
  | .error fault => throw fault

/-- `state_t::get_block_leader` for the block of the state. Before the ETH
transition a state without a leader takes it from the miner transaction. -/
def getBlockLeader (net : Network) (state : State) (block : Block) : PublicKey :=
  if state.blockLeader ≠ 0 ∨ isHardForkAtLeast net Hf.hf20EthTransition state.height then
    state.blockLeader
  else block.serviceNodeWinner

section

variable {σ : Type} (chain : Chain σ) (migrations : Migrations) (view : NodeView)
  (rules : RewardRules)

variable (block : Block)

/-- `state_t::get_pulse_quorum` of the current state. A quorum that cannot be drawn
counts as none. -/
def statePulseQuorum (l : ServiceNodeList) : Option Quorum := do
  let block ← chain.db.findBlock l.state.blockHash
  if !block.hasPulse then none
  else
    let prev ← l.history.find? (sizeSub l.state.height 1)
    let active := prev.serviceNodesInfos.toList.filter (fun node => node.2.isActive)
    let entropy :=
      getPulseEntropyForNextBlock chain.crypto chain.db block.prevId block.pulse.round
    match generatePulseQuorum chain.quorumRng chain.config
        (getBlockLeader chain.net l.state block) block.majorVersion active entropy
        block.pulse.round with
    | .ok quorum => if verifyPulseQuorumSizes quorum then some quorum else none
    | .error _ => none

/-- `state_t::get_block_producer`. -/
def getBlockProducer (l : ServiceNodeList) : PublicKey :=
  ((statePulseQuorum chain l).bind (fun quorum => quorum.workers.head?)).getD 0

/-- `record_pulse_participation`, of which the number of records is kept. -/
def recordPulseParticipation (key : PublicKey) (l : ServiceNodeList) : ServiceNodeList :=
  if l.state.serviceNodesInfos.contains key then
    let proof := l.shared.proofOf key
    let added := { proof with pulseParticipation := proof.pulseParticipation + 1 }
    { l with shared := { l.shared with proofs := l.shared.proofs.set key added } }
  else l

/-- Whether a block just came in. -/
def isRecentBlock : Bool :=
  let target : ℤ := chain.config.targetBlockTime
  view.currentHeight = block.height + 1 ∧ block.timestamp.toNat - target ≤ view.now ∧
    view.now ≤ block.timestamp.toNat + target

/-- Records who took part in the Pulse quorum of a block that just came in. -/
def recordParticipation : ListM Unit := do
  if block.hasPulse ∧ isRecentBlock chain view block then
    let l ← get
    match l.getQuorum .pulse block.height false with
    | none => throw .pulseQuorumNotGenerated
    | some quorum =>
      if quorum.validators = [] then throw .pulseQuorumNotGenerated
      else modify (fun l => (quorum.validators.take pulseQuorumNumValidators).foldl
        (fun l key => recordPulseParticipation key l) l)
  else pure ()

/-- The part of `block_add` before the rewards database. -/
def addToList (txs : List Transaction) (checkpoint : Option Checkpoint) (skipVerify : Bool) :
    ListM BlockAddResult := do
  if block.majorVersion < Hf.hf9ServiceNodes then
    modify (fun l => { l with state := { l.state with height := block.height } })
    pure {}
  else
    let l ← get
    if l.state.height ≠ l.shared.sqlite.height then throw .sqlOutOfSync
    else
      let result ← processBlock chain migrations block txs
      let l ← get
      if skipVerify then pure () else orListThrow (verifyBlock chain view l block false checkpoint)
      recordParticipation chain view block
      pure result

/-- What the rewards database is given of the list. -/
def blockInput (result : BlockAddResult) (skipVerify : Bool) (l : ServiceNodeList) :
    BlockInput where
  block := block
  state := { infos := l.state.serviceNodesInfos, blockProducer := getBlockProducer chain l }
  blockAdd := result
  skipVerify := skipVerify

/-- `service_node_list::block_add`. -/
def blockAdd (rescanning : Bool) (block : Block) (txs : List Transaction)
    (checkpoint : Option Checkpoint) (skipVerify : Bool) : ListM Unit := do
  let result ← addToList chain migrations view block txs checkpoint skipVerify
  let l ← get
  if chain.hasSqlite then
    let _ ← onListSqlite (addBlock rules rescanning (blockInput chain block result skipVerify l))
    pure ()
  else pure ()

end

/-! ## The rewards database -/

section

variable {rules : RewardRules} {rescanning : Bool} {input : BlockInput} {db db' : RewardsDb}

theorem addBlockBody_true_height {payments : List BatchSnPayment}
    (h : addBlockBody rules input payments db = .ok true db') : db'.height = db.height + 1 := by
  rw [addBlockBody_eq] at h
  obtain ⟨valid, paid, hpay, h⟩ := bind_eq_ok_iff.mp h
  have hpaid : OnlyAccrued db paid := (payBlock_onlyAccrued rules input payments).of_ok hpay
  cases valid with
  | false => cases h
  | true =>
    rw [if_pos rfl, get_bind_run] at h
    obtain ⟨_, raised, hraise, h⟩ := bind_eq_ok_iff.mp h
    cases h
    rw [updateHeight_height hraise, hpaid]

/-- A block that the rewards database accepts is the one it is at afterwards. -/
theorem addBlock_true_height (h : addBlock rules rescanning input db = .ok true db') :
    db'.height = input.block.height := by
  by_cases hbatching : input.block.majorVersion < Hf.hf19RewardBatching
  · simp only [addBlock, if_pos hbatching] at h
    obtain ⟨_, raised, hraise, h⟩ := bind_eq_ok_iff.mp h
    cases h
    exact updateHeight_height hraise
  · obtain ⟨begun, -, ⟨hfalse, -⟩ | ⟨hnext, payments, -, hbody⟩⟩ := addBlock_cases hbatching h
    · cases hfalse
    · obtain ⟨-, hbody⟩ | ⟨hfalse, -⟩ := runBody_cases hbody
      · rw [addBlockBody_true_height hbody, hnext]
      · cases hfalse

end

/-! ## The list -/

section

variable {σ : Type} {chain : Chain σ} {migrations : Migrations} {view : NodeView}
  {rules : RewardRules} {rescanning skipVerify : Bool} {block : Block} {txs : List Transaction}
  {checkpoint : Option Checkpoint} {l l' : ServiceNodeList} {result : BlockAddResult}

/-- A transition on the current state touches nothing else of the list. -/
theorem onMainState_eq_ok {α : Type} {m : UpdateM α} {a : α}
    (h : onMainState m l = .ok a l') :
    ∃ w, m ⟨l.state, l.shared⟩ = .ok a w ∧ l' = { l with state := w.state, shared := w.shared } := by
  unfold onMainState at h
  split at h
  · cases h
    exact ⟨_, ‹_›, rfl⟩
  · cases h

theorem processBlock_eq_ok (hhf : ¬ block.majorVersion < Hf.hf9ServiceNodes)
    (h : processBlock chain migrations block txs l = .ok result l') :
    l'.state.height = l.state.height + 1 ∧
      l'.history = (storeStates chain.config chain.storeQuorumHistory l).history := by
  simp only [processBlock, if_neg hhf, modify_bind_run, get_bind_run] at h
  obtain ⟨w, hrun, rfl⟩ := onMainState_eq_ok h
  exact ⟨updateFromBlock_height hrun, rfl⟩

/-- The history after a block holds the state before it. -/
theorem storeStates_history (conf : NetworkConfig) (keepOld : ℕ)
    (hbelow : ∀ s ∈ l.history, s.height < l.state.height) :
    (storeStates conf keepOld l).history.find? l.state.height = some l.state := by
  have hfresh : ∀ s ∈ l.history, s.height ≠ l.state.height := fun s hs => (hbelow s hs).ne
  rw [OrdSet.find?_eq_some_iff]
  refine ⟨?_, rfl⟩
  rw [storeStates, OrdSet.mem_eraseBelow, OrdSet.mem_insert]
  exact ⟨.inr ⟨rfl, hfresh⟩, Nat.sub_le _ _⟩

theorem recordPulseParticipation_state (key : PublicKey) (l : ServiceNodeList) :
    (recordPulseParticipation key l).state = l.state := by
  unfold recordPulseParticipation
  split <;> rfl

/-- The current state is the same. -/
def SameState (l l' : ServiceNodeList) : Prop := l'.state = l.state

instance : Std.Refl SameState := ⟨fun _ => rfl⟩

instance : IsTrans ServiceNodeList SameState := ⟨fun _ _ _ h h' => h'.trans h⟩

theorem orListThrow_sameState {α : Type} (result : Except Fault α) :
    Keeps SameState (orListThrow result) := by
  unfold orListThrow
  split
  · exact .pure
  · exact .throw

theorem recordParticipation_sameState : Keeps SameState (recordParticipation chain view block) := by
  have hfold (keys : List PublicKey) (l : ServiceNodeList) :
      (keys.foldl (fun l key => recordPulseParticipation key l) l).state = l.state := by
    induction keys generalizing l with
    | nil => rfl
    | cons key _ ih => exact (ih _).trans (recordPulseParticipation_state key l)
  refine .ite_pure fun _ => ?_
  refine .read fun l => ?_
  split
  · exact .throw
  · exact .ite (fun _ => .throw) fun _ => .modify (hfold _)

theorem addToList_height (hnext : block.height = l.state.height + 1)
    (h : addToList chain migrations view block txs checkpoint skipVerify l = .ok result l') :
    l'.state.height = block.height := by
  unfold addToList at h
  split at h
  · cases h
    rfl
  rename_i hhf
  rw [get_bind_run] at h
  split at h
  · cases h
  obtain ⟨added, l₁, hprocess, h⟩ := bind_eq_ok_iff.mp h
  obtain ⟨hheight, -⟩ := processBlock_eq_ok hhf hprocess
  have hrecord : Keeps SameState (do recordParticipation chain view block; pure added) :=
    .bind recordParticipation_sameState fun _ => .pure
  have hsame : SameState l₁ l' := by
    split at h
    · exact hrecord.of_ok h
    · exact (Keeps.bind (orListThrow_sameState _) (fun _ => hrecord)).of_ok h
  rw [hsame, hheight, hnext]

/-- A completed `block_add`: the list takes the block, then the rewards database
answers, with or without it. -/
theorem blockAdd_eq_ok (hsql : chain.hasSqlite = true)
    (h : blockAdd chain migrations view rules rescanning block txs checkpoint skipVerify l =
      .ok () l') :
    ∃ result l₁ accepted,
      addToList chain migrations view block txs checkpoint skipVerify l = .ok result l₁ ∧
      addBlock rules rescanning (blockInput chain block result skipVerify l₁) l₁.shared.sqlite =
        .ok accepted l'.shared.sqlite ∧ l'.state = l₁.state := by
  obtain ⟨result, l₁, hlist, h⟩ := bind_eq_ok_iff.mp h
  rw [get_bind_run, if_pos hsql] at h
  obtain ⟨accepted, l₂, hadd, h⟩ := bind_eq_ok_iff.mp h
  cases h
  obtain ⟨w, hrun, rfl⟩ := onMainState_eq_ok hadd
  refine ⟨result, l₁, accepted, hlist, ?_⟩
  unfold onSqlite at hrun
  split at hrun
  · cases hrun
    exact ⟨‹_›, rfl⟩
  · cases hrun

/-- Where the rewards database accepts the next block, the list and the database
are both at it after `block_add` returns. Where `verify_block` rejects the block,
`block_add` throws with the list already at the block, and the state before the
call is in the history. -/
theorem blockAdd_in_step (hsql : chain.hasSqlite = true)
    (hsync : l.shared.sqlite.height = l.state.height) (hnext : block.height = l.state.height + 1)
    (hbelow : ∀ s ∈ l.history, s.height < l.state.height) :
    (∀ l', blockAdd chain migrations view rules rescanning block txs checkpoint skipVerify l =
        .ok () l' →
      ∃ result l₁ accepted,
        addToList chain migrations view block txs checkpoint skipVerify l = .ok result l₁ ∧
        addBlock rules rescanning (blockInput chain block result skipVerify l₁)
          l₁.shared.sqlite = .ok accepted l'.shared.sqlite ∧
        l'.state.height = block.height ∧
        (accepted = true → l'.shared.sqlite.height = block.height)) ∧
    (∀ result l₁ fault, ¬ block.majorVersion < Hf.hf9ServiceNodes → skipVerify = false →
      processBlock chain migrations block txs l = .ok result l₁ →
      verifyBlock chain view l₁ block false checkpoint = .error fault →
      blockAdd chain migrations view rules rescanning block txs checkpoint skipVerify l =
        .error fault l₁ ∧ l₁.state.height = block.height ∧
        l₁.history.find? l.state.height = some l.state) := by
  constructor
  · intro l' h
    obtain ⟨result, l₁, accepted, hlist, hadd, hstate⟩ := blockAdd_eq_ok hsql h
    refine ⟨result, l₁, accepted, hlist, hadd, ?_, ?_⟩
    · rw [hstate, addToList_height hnext hlist]
    · rintro rfl
      exact addBlock_true_height hadd
  · rintro result l₁ fault hhf rfl hprocess hverify
    obtain ⟨hheight, hhistory⟩ := processBlock_eq_ok hhf hprocess
    have hlist : addToList chain migrations view block txs checkpoint false l =
        .error fault l₁ := by
      simp only [addToList, if_neg hhf, get_bind_run, hsync, ne_eq, not_true_eq_false, if_false,
        bind_run_of_ok hprocess, hverify, orListThrow]
      rfl
    refine ⟨bind_run_of_error hlist, hheight.trans hnext.symm, ?_⟩
    rw [hhistory]
    exact storeStates_history _ _ hbelow

end

/-- A fake chain with reward batching from its second block on. -/
def batchingNet : Network := ⟨.fakechain, [⟨Hf.hf7, 0, 0⟩, ⟨Hf.hf19RewardBatching, 0, 1⟩]⟩

/-- The chain without blocks, with signatures that are always good. -/
def batchingChain : Chain Unit := acceptingChain batchingNet emptyChainDb

/-- Rules without a transition. -/
def batchingRules : RewardRules where
  net := batchingNet
  governanceWallet := fun _ => nullAddress
  outputKey := fun _ _ _ => none
  registeredForTransition := fun _ _ => false

/-- A node at the tip of the chain. -/
def tipView : NodeView where
  currentHeight := 3
  getBlockTimestamp := fun _ => some 0
  now := 0

/-- The list and the rewards database after the first block. -/
def batchingList : ServiceNodeList :=
  { state := { height := 1 }, shared := { sqlite := { height := 1, infoHeight := 1 } } }

/-- A block with a reward. -/
def rewardingBlock (reward : UInt64) : Block :=
  { majorVersion := Hf.hf19RewardBatching, height := 2, hash := 2, reward := reward }

/-- A block with a signature that no quorum gave. -/
def signedBlock : Block :=
  { rewardingBlock 8250000000 with signatures := [⟨0, 0⟩] }

/-- The list after `block_add` of a block without transactions. -/
def addedBlock (block : Block) : EStateM.Result Fault ServiceNodeList Unit :=
  blockAdd batchingChain noMigrations tipView batchingRules false block [] none false batchingList

/-- The next block is added to the list and to the database; one that is signed by
no quorum leaves the state before it in the history. -/
theorem blockAdd_in_step_samples :
    (∃ l' : ServiceNodeList, addedBlock (rewardingBlock 8250000000) = .ok () l' ∧
      l'.state.height = 2 ∧ l'.shared.sqlite.height = 2) ∧
    (∃ l' : ServiceNodeList, addedBlock signedBlock = .error .invalidBlockComponents l' ∧
      l'.state.height = 2 ∧ l'.history.find? 1 = some batchingList.state) := by
  have hbelow : ∀ s ∈ batchingList.history, s.height < batchingList.state.height :=
    fun s hs => absurd hs OrdSet.not_mem_empty
  constructor
  · obtain ⟨_, h⟩ := eq_ok_of_returns
      (show returns (addedBlock (rewardingBlock 8250000000)) = true by decide +kernel)
    obtain ⟨-, -, -, -, -, hheight, -⟩ := (blockAdd_in_step rfl rfl rfl hbelow).1 _ h
    exact ⟨_, h, hheight, by decide +kernel⟩
  · obtain ⟨result, hprocess⟩ := eq_ok_of_returns (show returns (processBlock batchingChain
      noMigrations signedBlock [] batchingList) = true by decide +kernel)
    have hverify : verifyBlock batchingChain tipView (finalState (processBlock batchingChain
        noMigrations signedBlock [] batchingList)) signedBlock false none =
        .error .invalidBlockComponents := by decide +kernel
    exact ⟨_, (blockAdd_in_step rfl rfl rfl hbelow).2 result _ _ (by decide) rfl hprocess hverify⟩

/-- A reward below the base reward: `add_block` of the database fails and
`block_add` returns with the list one block ahead. A signed block is invalid:
`block_add` throws with the list already at the block. -/
theorem blockAdd_out_of_step :
    (∃ l' : ServiceNodeList, addedBlock (rewardingBlock 0) = .ok () l' ∧ l'.state.height = 2 ∧
      l'.shared.sqlite.height = 1) ∧
    (∃ l' : ServiceNodeList, addedBlock signedBlock = .error .invalidBlockComponents l' ∧
      l'.state ≠ batchingList.state) := by
  constructor
  · obtain ⟨_, h⟩ := eq_ok_of_returns
      (show returns (addedBlock (rewardingBlock 0)) = true by decide +kernel)
    exact ⟨_, h, by decide +kernel, by decide +kernel⟩
  · have h := eq_error_of_thrown (show thrown (addedBlock signedBlock) =
      some .invalidBlockComponents by decide +kernel)
    exact ⟨_, h, by decide +kernel⟩

end Xeqm.ServiceNodes
