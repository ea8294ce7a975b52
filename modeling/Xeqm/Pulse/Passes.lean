import Xeqm.Pulse.Rounds

/-!
# What a pass does

A pass first listens: it handles the own message of its stage and the messages that came
early for it. Then it decides, and there are few things it can decide.
-/

namespace Xeqm.Pulse

open Cryptonote ServiceNodes Lib

/-! ## Listening -/

/-- All messages that are waiting in a queue have a property. -/
def QueuesIn (M : Message → Prop) (node : Node) : Prop :=
  ∀ type v msg, (node.transient.stage type).queue.buffer v = .received msg → M msg

/-- Nothing was heard, and no message was put into a queue. -/
structure Quiet (node node' : Node) : Prop where
  same : SameData node node'
  queues : ∀ type v msg, (node'.transient.stage type).queue.buffer v = .received msg →
    (node.transient.stage type).queue.buffer v = .received msg

/-- Where nothing changes that a message or a decision looks at. -/
theorem Quiet.of_fields {node node' : Node} (hsame : SameData node node' := by constructor <;> rfl)
    (hstages : ∀ type, node'.transient.stage type = node.transient.stage type := by
      rintro ⟨⟩ <;> rfl) : Quiet node node' :=
  ⟨hsame, fun type _ _ h => hstages type ▸ h⟩

/-- A node that handles messages with a property, one after the other. -/
inductive Hears (lib : Library) (M : Message → Prop) : Node → Node → Prop
  | refl (node : Node) : Hears lib M node node
  | quiet {node node' node'' : Node} (h : Hears lib M node node') (hquiet : Quiet node' node'') :
      Hears lib M node node''
  | handle {node node' node'' : Node} {msg : Message} (h : Hears lib M node node') (hmsg : M msg)
      (hhandles : node'.Handles lib msg node'') : Hears lib M node node''

namespace Transient

/-- A stage that is set is found again, and the others stay. -/
theorem stage_setStage (t : Transient) (stage : WaitStage) (type type' : MessageType) :
    (t.setStage stage type).stage type' = if type' = type then stage else t.stage type' := by
  cases type <;> cases type' <;> rfl

end Transient

variable {stage : WaitStage} {around : Surroundings}

namespace Quiet

theorem refl (node : Node) : Quiet node node := ⟨SameData.refl node, fun _ _ _ h => h⟩

/-- A stage may change its end and empty its queue. -/
theorem setStage {node : Node} {type : MessageType}
    (hbitset : stage.bitset = (node.transient.stage type).bitset)
    (hreceived : stage.msgsReceived = (node.transient.stage type).msgsReceived)
    (hqueue : ∀ v msg, stage.queue.buffer v = .received msg →
      (node.transient.stage type).queue.buffer v = .received msg) :
    Quiet node { node with transient := node.transient.setStage stage type } := by
  refine ⟨SameData.setStage hbitset hreceived, fun type' v msg h => ?_⟩
  rw [Transient.stage_setStage] at h
  split at h
  · rename_i heq
    subst heq
    exact hqueue v msg h
  · exact h

end Quiet

namespace Node

variable {lib : Library} {M : Message → Prop} {msg : Message} {node node' : Node}

/-- Data that is added changes no stage. -/
theorem Adds.stage_eq {position : Position} {payload : Payload} {t : Transient}
    (h : Adds lib node position payload t) (type : MessageType) :
    t.stage type = node.transient.stage type := by
  cases h <;> cases type <;> rfl

namespace Handles

section

variable (h : Handles lib msg node node')

include h

theorem state_eq : node'.state = node.state := by
  cases h <;> rfl

theorem round_eq : node'.round = node.round := by
  cases h <;> rfl

theorem currBlock_eq : node'.currBlock = node.currBlock := by
  cases h <;> rfl

/-- At most the message itself is put into a queue, if its signature is good. -/
theorem queuesIn (hqueues : QueuesIn M node)
    (hmsg : .waitForRound ≤ node.state →
      lib.msgSignatureCheck msg node.currBlock.topHash node.round.quorum = true → M msg) :
    QueuesIn M node' := by
  cases h with
  | ignored => exact hqueues
  | queued position hposition hready hcheck hearly =>
    intro type v msg' hslot
    rw [Transient.stage_setStage] at hslot
    split at hslot
    · change Function.update _ position _ v = _ at hslot
      by_cases hv : v = position
      · subst hv
        rw [Function.update_self] at hslot
        cases hslot
        exact hmsg hready hcheck
      · rw [Function.update_of_ne hv] at hslot
        exact hqueues _ v msg' hslot
    · exact hqueues type v msg' hslot
  | rejected =>
    intro type v msg' hslot
    apply hqueues type v msg'
    cases type <;> exact hslot
  | recorded _ payload t _ _ _ _ _ _ hadds =>
    intro type v msg' hslot
    change ((t.setStage _ _).stage type).queue.buffer v = _ at hslot
    rw [Transient.stage_setStage] at hslot
    split at hslot
    · change (t.stage payload.type).queue.buffer v = _ at hslot
      rw [hadds.stage_eq] at hslot
      exact hqueues _ v msg' hslot
    · rw [hadds.stage_eq] at hslot
      exact hqueues type v msg' hslot

end

end Handles

end Node

namespace Hears

variable {lib : Library} {M : Message → Prop} {node node' node'' : Node}

section

variable (h : Hears lib M node node')

include h

theorem trans (h' : Hears lib M node' node'') : Hears lib M node node'' := by
  induction h' with
  | refl => exact h
  | quiet _ hquiet ih => exact .quiet ih hquiet
  | handle _ hmsg hhandles ih => exact .handle ih hmsg hhandles

theorem state_eq : node'.state = node.state := by
  induction h with
  | refl => rfl
  | quiet _ hquiet ih => exact hquiet.same.state.trans ih
  | handle _ _ hhandles ih => exact hhandles.state_eq.trans ih

theorem round_eq : node'.round = node.round := by
  induction h with
  | refl => rfl
  | quiet _ hquiet ih => exact hquiet.same.round.trans ih
  | handle _ _ hhandles ih => exact hhandles.round_eq.trans ih

theorem currBlock_eq : node'.currBlock = node.currBlock := by
  induction h with
  | refl => rfl
  | quiet _ hquiet ih => exact hquiet.same.currBlock.trans ih
  | handle _ _ hhandles ih => exact hhandles.currBlock_eq.trans ih

theorem queuesIn (hqueues : QueuesIn M node) : QueuesIn M node' := by
  induction h with
  | refl => exact hqueues
  | quiet _ hquiet ih => exact fun type v msg hslot => ih type v msg (hquiet.queues type v msg hslot)
  | handle _ hmsg hhandles ih => exact hhandles.queuesIn ih fun _ _ => hmsg

theorem inRound (hround : InRound lib node) : InRound lib node' := by
  induction h with
  | refl => exact hround
  | quiet _ hquiet ih => exact ih.of_sameData hquiet.same
  | handle _ _ hhandles ih => exact ih.handles hhandles

end

end Hears

namespace Node

variable {lib : Library} {M : Message → Prop} {node : Node}

/-- One entry of a queue is handled if it is waiting, and is processed then. -/
theorem handleQueued_hears {type : MessageType} {v : Position} (hqueues : QueuesIn M node) :
    Hears lib M node (handleQueued lib type node v) := by
  unfold handleQueued
  cases hslot : (node.transient.stage type).queue.buffer v with
  | received msg =>
    have hhandle : Hears lib M node (handleMessage lib msg node) :=
      .handle (.refl node) (hqueues type v msg hslot) handleMessage_handles
    apply hhandle.quiet
    apply Quiet.setStage
    · rfl
    · rfl
    intro v' msg' hslot'
    change Function.update _ v _ v' = _ at hslot'
    by_cases hv : v' = v
    · subst hv
      rw [Function.update_self] at hslot'
      cases hslot'
    · rwa [Function.update_of_ne hv] at hslot'
  | _ => exact .refl node

theorem handleMessagesReceivedEarlyFor_hears {type : MessageType} (hqueues : QueuesIn M node) :
    Hears lib M node (handleMessagesReceivedEarlyFor lib type node) := by
  unfold handleMessagesReceivedEarlyFor
  split
  · exact .refl node
  · -- every entry is handled on top of what the entries before it did
    have hfold (positions : List Position) (heard : Node) (h : Hears lib M node heard) :
        Hears lib M node (positions.foldl (handleQueued lib type) heard) := by
      induction positions generalizing heard with
      | nil => exact h
      | cons _ _ ih => exact ih _ (h.trans (handleQueued_hears (h.queuesIn hqueues)))
    exact hfold _ node (.refl node)

/-- What a stage sends of its own. -/
def Sends (node : Node) : Payload → Prop
  | .handshake => node.state = .sendAndWaitForHandshakes
  | .handshakeBitset bitset =>
    node.state = .sendHandshakeBitsets ∧ bitset = handshakeBits node.transient.handshakes
  | .blockTemplate _ _ => False
  | .randomValueHash hash =>
    node.state = .sendAndWaitForRandomValueHashes ∧
      node.transient.randomValueHashes.toSend = some hash
  | .randomValue value =>
    node.state = .sendAndWaitForRandomValue ∧ node.transient.randomValue.toSend = some value
  | .blockSignature signature =>
    node.state = .sendAndWaitForBlockSignatures ∧
      node.transient.blockSignatures.toSend = some signature

/-- The messages that a pass may handle: those that are waiting and the own one. -/
def Offers (setup : Setup) (around : Surroundings) (node : Node) (msg : Message) : Prop :=
  (∃ type v, (node.transient.stage type).queue.buffer v = .received msg) ∨
  ∃ payload, node.Sends payload ∧ msg = ownMessage setup around payload node

section

variable {setup : Setup} {around : Surroundings} {type : MessageType}

theorem queuesIn_offers : QueuesIn (node.Offers setup around) node :=
  fun type v _ hslot => .inl ⟨type, v, hslot⟩

theorem beginStageTimer_quiet : Quiet node (beginStageTimer setup around type node) := by
  unfold beginStageTimer
  split
  · exact .refl node
  · exact .setStage rfl rfl fun _ _ h => h

theorem generateRandomValue_quiet : Quiet node (generateRandomValue setup around node) := .of_fields

/-- An own message is the same whatever was heard meanwhile. -/
theorem ownMessage_eq {node' : Node} {payload : Payload}
    (hcurr : node'.currBlock = node.currBlock) (hround : node'.round = node.round) :
    ownMessage setup around payload node' = ownMessage setup around payload node := by
  simp only [ownMessage, hcurr, hround]

/-- Sending the own message of a stage. -/
theorem startSend_hears {α : Type} {payload : α → Payload} {toSend : Option α}
    {sent : Node → Node} (hsent : ∀ node, Quiet node (sent node))
    (hsends : ∀ value, toSend = some value → node.Sends (payload value)) :
    Hears setup.lib (node.Offers setup around) node
      (startSend setup around type payload toSend sent node) := by
  cases toSend with
  | none => exact .refl node
  | some value =>
    have htimer := @beginStageTimer_quiet node setup around type
    have hquiet : Hears setup.lib (node.Offers setup around) node _ := (Hears.refl node).quiet htimer
    refine (hquiet.quiet (hsent _)).handle ?_ handleMessage_handles
    right
    exact ⟨payload value, hsends value rfl, ownMessage_eq htimer.same.currBlock htimer.same.round⟩

/-- Sending the own message of a stage and handling what came early for it. -/
theorem listen_hears {α : Type} {payload : α → Payload} {toSend : Option α}
    {sent : Node → Node} (hsent : ∀ node, Quiet node (sent node))
    (hsends : ∀ value, toSend = some value → node.Sends (payload value)) :
    Hears setup.lib (node.Offers setup around) node
      (handleMessagesReceivedEarlyFor setup.lib type
        (startSend setup around type payload toSend sent node)) := by
  have hheard := @startSend_hears node setup around type _ _ _ _ hsent hsends
  exact hheard.trans (handleMessagesReceivedEarlyFor_hears (hheard.queuesIn queuesIn_offers))

theorem relayHandshake_hears {sendingBitset : Bool}
    (hsends : node.Sends (if sendingBitset then .handshakeBitset (handshakeBits node.transient.handshakes)
      else .handshake)) :
    Hears setup.lib (node.Offers setup around) node (relayHandshake setup around sendingBitset node) :=
  (Hears.refl node).handle (.inr ⟨_, hsends, rfl⟩) handleMessage_handles

end

end Node

/-! ## Deciding -/

/-- How a round begins and goes on. -/
inductive Proceeds (setup : Setup) (around : Surroundings) : Node → Node → Prop
  /-- The stage goes on. -/
  | waits (node : Node) : Proceeds setup around node node
  /-- A round is prepared. -/
  | prepares (node : Node) (round : Round) (start timeout : Time)
      (hstate : node.state = .prepareForRound)
      (hquorum : verifyPulseQuorumSizes round.quorum = true) :
      Proceeds setup around node { node.clearRoundData with
        round
        transient := Node.setEndTimes {} start timeout
        state := .waitForRound }
  /-- A stage before the template is over. -/
  | moves (node : Node) (state : RoundState) (hready : .waitForRound ≤ node.state)
      (hbefore : node.state < state) (hstate : state ≤ .waitForHandshakeBitsets) :
      Proceeds setup around node { node with state }
  /-- The validators agree on who takes part. -/
  | agrees (node : Node) (best : UInt16) (count : ℕ) (state : RoundState)
      (hready : node.state = .waitForHandshakeBitsets)
      (hbest : Node.mostCommonBitset node.transient.bitsets = (best, count))
      (hcount : pulseBlockRequiredSignatures ≤ count) (hne : best ≠ 0)
      (hstate : state = .sendBlockTemplate ∨ state = .waitForBlockTemplate) :
      Proceeds setup around node { node with
        transient := { node.transient with bestBitset := best, bestCount := count }
        state }
  /-- The template is good. -/
  | accepts (node : Node) (hready : node.state = .waitForBlockTemplate)
      (hreceived : node.transient.templateStage.msgsReceived = 1)
      (hsignatures : node.transient.block.signatures = []) :
      Proceeds setup around node { node with state := .sendAndWaitForRandomValueHashes }
  /-- The hashes arrived, or enough of them before HF21. -/
  | collects (node : Node) (hready : node.state = .sendAndWaitForRandomValueHashes)
      (hbits : node.transient.randomValueHashes.stage.bitset = node.participants ∨
        (setup.hf20CompatMode around = true ∧
          pulseBlockRequiredSignatures ≤ popcount node.transient.randomValueHashes.stage.bitset)) :
      Proceeds setup around node { node with state := .sendAndWaitForRandomValue }
  /-- The late stages start again with the validators that are left. -/
  | restarts (node : Node) (bits : UInt16) (hready : .waitForBlockTemplate < node.state)
      (hcount : pulseBlockRequiredSignatures ≤ popcount bits) :
      Proceeds setup around node { Node.resetLateStages setup around { node with
          transient := { node.transient with block := { node.transient.block with
            pulse := { node.transient.block.pulse with validatorBitset := bits } } } } with
        state := .sendAndWaitForRandomValueHashes }
  /-- The block is finished but for its signatures. -/
  | finishes (node : Node) (hready : node.state = .sendAndWaitForRandomValue) :
      Proceeds setup around node (Node.finishBlock setup around node)

/-- What a pass decides, given what it heard. -/
inductive Decides (setup : Setup) (around : Surroundings) : Node → Node → Prop
  /-- A round begins or goes on. -/
  | proceeds {node node' : Node} (h : Proceeds setup around node node') :
      Decides setup around node node'
  /-- The round is given up. -/
  | fails (node : Node) : Decides setup around node node.gotoPreparingForNextRound
  /-- The height is given up. -/
  | leaves (node : Node) : Decides setup around node node.gotoWaitForNextBlock
  /-- The node looks for the next block. -/
  | starts (node : Node) (hstate : node.state = .nullState) :
      Decides setup around node { node with state := .waitForNextBlock }
  /-- There is a new block to build on. -/
  | sees (node : Node) (currBlock : CurrBlock) (hstate : node.state = .waitForNextBlock) :
      Decides setup around node { node with currBlock, round := {}, state := .prepareForRound }
  /-- The height is given up while a round is prepared. -/
  | leavesPreparing (node : Node) :
      Decides setup around node node.clearRoundData.gotoWaitForNextBlock
  /-- The producer sends its template. -/
  | relays (node : Node) (msg : Message) :
      Decides setup around node (Node.emit (.relayed msg) node).gotoPreparingForNextRound
  /-- The block is signed by everybody who takes part. -/
  | submits (node : Node) (hready : node.state = .sendAndWaitForBlockSignatures)
      (hbits : node.transient.blockSignatures.stage.bitset = node.participants) :
      Decides setup around node (Node.submitBlock around node)

/-- A submitted block ends the round. -/
theorem submitBlock_state {around : Surroundings} {node : Node} :
    (Node.submitBlock around node).state < .waitForRound := by
  unfold Node.submitBlock
  dsimp only
  split
  · split
    · exact (by decide : RoundState.waitForNextBlock < .waitForRound)
    · exact (by decide : RoundState.prepareForRound < .waitForRound)
  · exact (by decide : RoundState.prepareForRound < .waitForRound)

/-- A node is in a round only if the round began or went on. -/
theorem Decides.proceeds_of_ready {setup : Setup} {node node' : Node}
    (h : Decides setup around node node') (hready : .waitForRound ≤ node'.state) :
    Proceeds setup around node node' := by
  cases h with
  | proceeds hproceeds => exact hproceeds
  | fails | sees | relays =>
    exact absurd hready (by decide : ¬ RoundState.waitForRound ≤ .prepareForRound)
  | leaves | starts =>
    exact absurd hready (by decide : ¬ RoundState.waitForRound ≤ .waitForNextBlock)
  | leavesPreparing =>
    exact absurd hready (by decide : ¬ RoundState.waitForRound ≤ .waitForNextBlock)
  | submits => exact absurd hready (Nat.not_le_of_lt submitBlock_state)

/-- How a round gets to where values and signatures are collected. -/
theorem Proceeds.late_cases {setup : Setup} {node node' : Node}
    (h : Proceeds setup around node node') (hlate : .sendAndWaitForRandomValue ≤ node'.state) :
    node' = node ∨
    (node.state = .sendAndWaitForRandomValueHashes ∧
      (node.transient.randomValueHashes.stage.bitset = node.participants ∨
        setup.hf20CompatMode around = true) ∧
      node' = { node with state := .sendAndWaitForRandomValue }) ∨
    (node.state = .sendAndWaitForRandomValue ∧ node' = node.finishBlock setup around) := by
  cases h with
  | waits => exact .inl rfl
  | prepares =>
    exact absurd hlate (by decide : ¬ RoundState.sendAndWaitForRandomValue ≤ .waitForRound)
  | moves _ _ _ hstate =>
    exact absurd (Nat.le_trans hlate hstate)
      (by decide : ¬ RoundState.sendAndWaitForRandomValue ≤ .waitForHandshakeBitsets)
  | agrees _ _ _ _ _ _ _ hstate =>
    rcases hstate with rfl | rfl
    · exact absurd hlate (by decide : ¬ RoundState.sendAndWaitForRandomValue ≤ .sendBlockTemplate)
    · exact absurd hlate
        (by decide : ¬ RoundState.sendAndWaitForRandomValue ≤ .waitForBlockTemplate)
  | accepts | restarts =>
    exact absurd hlate
      (by decide : ¬ RoundState.sendAndWaitForRandomValue ≤ .sendAndWaitForRandomValueHashes)
  | collects hready hbits => exact .inr (.inl ⟨hready, hbits.imp_right And.left, rfl⟩)
  | finishes hready => exact .inr (.inr ⟨hready, rfl⟩)

namespace Node

variable {setup : Setup} {around : Surroundings} {node : Node}

/-- A pass as what it heard and what it decides then. -/
def PassesTo (setup : Setup) (around : Surroundings) (node node' : Node) : Prop :=
  ∃ heard, Hears setup.lib (node.Offers setup around) node heard ∧ Decides setup around heard node'

theorem decides_afterMissing {heard : Node} {missing : Bool × Node}
    (h : resetForMissingValidators setup around stage heard = some missing)
    (hready : .waitForBlockTemplate < heard.state) :
    Decides setup around heard (afterMissing missing) := by
  unfold resetForMissingValidators at h
  split at h
  · cases h
  split at h
  · cases h
    exact .fails heard
  · split at h
    · rename_i hretry
      cases h
      exact .proceeds (.restarts heard stage.bitset hready hretry.1)
    · cases h
      exact .fails heard

theorem resetForMissingValidators_eq_none {heard : Node}
    (h : resetForMissingValidators setup around stage heard = none) :
    stage.bitset = heard.participants := by
  unfold resetForMissingValidators at h
  split at h
  · rename_i hbits
    exact hbits
  · split at h
    · cases h
    · split at h <;> cases h

theorem beginRound_decides {number : UInt8} (hstate : node.state = .prepareForRound) :
    Decides setup around node (beginRound setup around number node.clearRoundData) := by
  unfold beginRound
  dsimp only
  split
  · exact .leavesPreparing node
  · rename_i hquorum
    exact .proceeds (.prepares node _ _ _ hstate (by simpa using hquorum))

theorem prepareForRound_passesTo (hstate : node.state = .prepareForRound) :
    node.PassesTo setup around (prepareForRound setup around node) := by
  refine ⟨node, .refl node, ?_⟩
  unfold prepareForRound
  dsimp only
  split
  · exact .leavesPreparing node
  · split
    · exact .leavesPreparing node
    · split
      · exact .leavesPreparing node
      · exact beginRound_decides hstate

theorem waitForRound_passesTo (hstate : node.state = .waitForRound) :
    node.PassesTo setup around (waitForRound around node) := by
  refine ⟨node, .refl node, ?_⟩
  unfold waitForRound
  split
  · exact .leaves node
  · split
    · exact .proceeds (.waits node)
    · split
      · refine .proceeds (.moves node _ ?_ ?_ (by decide)) <;> rw [hstate] <;> decide
      · refine .proceeds (.moves node _ ?_ ?_ (by decide)) <;> rw [hstate] <;> decide
      · exact .fails node

theorem sendAndWaitForHandshakes_passesTo (hstate : node.state = .sendAndWaitForHandshakes) :
    node.PassesTo setup around (sendAndWaitForHandshakes setup around node) := by
  unfold sendAndWaitForHandshakes
  extract_lets _ sent
  have hsent : Hears setup.lib (node.Offers setup around) node sent := by
    dsimp only [sent]
    split
    · exact .refl node
    · have hquiet : Quiet node
          { node with transient := { node.transient with handshakesSent := true } } := .of_fields
      refine ((Hears.refl node).quiet hquiet).handle ?_ handleMessage_handles
      exact .inr ⟨.handshake, hstate, rfl⟩
  split
  · exact ⟨_, hsent, .fails _⟩
  · have hheard := hsent.trans
      (@handleMessagesReceivedEarlyFor_hears _ _ _ .handshake (hsent.queuesIn queuesIn_offers))
    split
    · refine ⟨_, hheard, .proceeds (.moves _ .sendHandshakeBitsets ?_ ?_ (by decide))⟩
      · rw [hheard.state_eq, hstate]
        decide
      · rw [hheard.state_eq, hstate]
        decide
    · exact ⟨_, hheard, .proceeds (.waits _)⟩

theorem sendHandshakeBitsets_passesTo (hstate : node.state = .sendHandshakeBitsets) :
    node.PassesTo setup around (sendHandshakeBitsets setup around node) := by
  have hsent : Hears setup.lib (node.Offers setup around) node
      (relayHandshake setup around true node) :=
    relayHandshake_hears ⟨hstate, rfl⟩
  unfold sendHandshakeBitsets
  split
  · exact ⟨_, hsent, .fails _⟩
  · have htimed := hsent.quiet (@beginStageTimer_quiet _ setup around .handshakeBitset)
    refine ⟨_, htimed, .proceeds (.moves _ .waitForHandshakeBitsets ?_ ?_ (Nat.le_refl _))⟩
    · rw [htimed.state_eq, hstate]
      decide
    · rw [htimed.state_eq, hstate]
      decide

/-- The timer of the template stage does not look at the agreed bitset. -/
theorem beginStageTimer_best {best : UInt16} {count : ℕ} :
    beginStageTimer setup around .blockTemplate
      { node with transient := { node.transient with bestBitset := best, bestCount := count } } =
    { beginStageTimer setup around .blockTemplate node with
      transient := { (beginStageTimer setup around .blockTemplate node).transient with
        bestBitset := best, bestCount := count } } := by
  unfold beginStageTimer
  split <;> rfl

theorem waitForHandshakeBitsets_passesTo (hstate : node.state = .waitForHandshakeBitsets) :
    node.PassesTo setup around (waitForHandshakeBitsets setup around node) := by
  have hheard : Hears setup.lib (node.Offers setup around) node
      (handleMessagesReceivedEarlyFor setup.lib .handshakeBitset node) :=
    handleMessagesReceivedEarlyFor_hears queuesIn_offers
  unfold waitForHandshakeBitsets
  generalize handleMessagesReceivedEarlyFor setup.lib .handshakeBitset node = heard at hheard ⊢
  rcases hbest : mostCommonBitset heard.transient.bitsets with ⟨best, count⟩
  simp only [hbest]
  split
  · split
    · exact ⟨_, hheard, .fails _⟩
    · rename_i hagreed
      simp only [not_or, not_lt] at hagreed
      split
      · refine ⟨_, hheard, .proceeds (.agrees heard best count _ ?_ hbest hagreed.1 hagreed.2.1
          (.inl rfl))⟩
        rw [hheard.state_eq, hstate]
      · have hquiet := @beginStageTimer_quiet heard setup around .blockTemplate
        have htimed := hheard.quiet hquiet
        have htimer := @beginStageTimer_best setup around heard best count
        refine ⟨_, htimed, ?_⟩
        rw [htimer]
        refine .proceeds (.agrees _ best count _ ?_ ?_ hagreed.1 hagreed.2.1 (.inr rfl))
        · rw [htimed.state_eq, hstate]
        · rw [hquiet.same.bitsets, hbest]
  · exact ⟨_, hheard, .proceeds (.waits _)⟩

theorem waitForBlockTemplate_passesTo (hstate : node.state = .waitForBlockTemplate) :
    node.PassesTo setup around (waitForBlockTemplate setup around node) := by
  have hheard : Hears setup.lib (node.Offers setup around) node
      (handleMessagesReceivedEarlyFor setup.lib .blockTemplate node) :=
    handleMessagesReceivedEarlyFor_hears queuesIn_offers
  unfold waitForBlockTemplate
  dsimp only
  split
  · rename_i hreceived
    split
    · exact ⟨_, hheard, .fails _⟩
    · split
      · exact ⟨_, hheard, .fails _⟩
      · rename_i hsignatures
        have hvalue := hheard.quiet (@generateRandomValue_quiet _ setup around)
        refine ⟨_, hvalue, .proceeds (.accepts _ ?_ hreceived (not_not.mp hsignatures))⟩
        rw [hvalue.state_eq, hstate]
  · split
    · exact ⟨_, hheard, .fails _⟩
    · exact ⟨_, hheard, .proceeds (.waits _)⟩

theorem sendBlockTemplate_passesTo :
    node.PassesTo setup around (sendBlockTemplate setup around node) := by
  refine ⟨node, .refl node, ?_⟩
  unfold sendBlockTemplate
  split
  · exact .fails node
  · split
    · exact .fails node
    · split
      · exact .leaves node
      · exact .relays node _

theorem sendAndWaitForRandomValueHashes_passesTo
    (hstate : node.state = .sendAndWaitForRandomValueHashes) :
    node.PassesTo setup around (sendAndWaitForRandomValueHashes setup around node) := by
  unfold sendAndWaitForRandomValueHashes
  extract_lets sent heard stage allHashes
  have hheard : Hears setup.lib (node.Offers setup around) node heard := by
    apply listen_hears
    · exact fun node => .of_fields
    · exact fun value hvalue => ⟨hstate, hvalue⟩
  have hready : heard.state = .sendAndWaitForRandomValueHashes := hheard.state_eq.trans hstate
  refine ⟨heard, hheard, ?_⟩
  split
  · split
    · rename_i hcompat
      split
      · exact .fails heard
      · rename_i hcount
        exact .proceeds (.collects heard hready (.inr ⟨hcompat.2, not_lt.mp hcount⟩))
    · split
      · rename_i missing hmissing
        exact decides_afterMissing hmissing (hready ▸ by decide)
      · rename_i hnone
        have hbits := resetForMissingValidators_eq_none hnone
        exact .proceeds (.collects heard hready (.inl hbits))
  · exact .proceeds (.waits heard)

theorem sendAndWaitForRandomValue_passesTo (hstate : node.state = .sendAndWaitForRandomValue) :
    node.PassesTo setup around (sendAndWaitForRandomValue setup around node) := by
  unfold sendAndWaitForRandomValue
  extract_lets sent heard stage compat allValues
  have hheard : Hears setup.lib (node.Offers setup around) node heard := by
    apply listen_hears
    · exact fun node => .of_fields
    · exact fun value hvalue => ⟨hstate, hvalue⟩
  have hready : heard.state = .sendAndWaitForRandomValue := hheard.state_eq.trans hstate
  refine ⟨heard, hheard, ?_⟩
  split
  · split
    · split
      · exact .fails heard
      · exact .proceeds (.finishes heard hready)
    · split
      · rename_i missing hmissing
        exact decides_afterMissing hmissing (hready ▸ by decide)
      · exact .proceeds (.finishes heard hready)
  · exact .proceeds (.waits heard)

theorem sendAndWaitForBlockSignatures_passesTo
    (hstate : node.state = .sendAndWaitForBlockSignatures) :
    node.PassesTo setup around (sendAndWaitForBlockSignatures setup around node) := by
  unfold sendAndWaitForBlockSignatures
  extract_lets sent heard stage expected
  have hheard : Hears setup.lib (node.Offers setup around) node heard := by
    apply listen_hears
    · exact fun node => .of_fields
    · exact fun value hvalue => ⟨hstate, hvalue⟩
  have hready : heard.state = .sendAndWaitForBlockSignatures := hheard.state_eq.trans hstate
  refine ⟨heard, hheard, ?_⟩
  split
  · split
    · rename_i missing hmissing
      exact decides_afterMissing hmissing (hready ▸ by decide)
    · rename_i hnone
      exact .submits heard hready (resetForMissingValidators_eq_none hnone)
  · exact .proceeds (.waits heard)

/-- Every pass listens and decides. -/
theorem pass_passesTo : node.PassesTo setup around (pass setup around node) := by
  unfold pass
  split
  · rename_i hstate
    exact ⟨node, .refl node, .starts node hstate⟩
  · rename_i hstate
    refine ⟨node, .refl node, ?_⟩
    unfold waitForNextBlock
    split
    · exact .proceeds (.waits node)
    · split
      · exact .proceeds (.waits node)
      · exact .sees node _ hstate
  · rename_i hstate
    exact prepareForRound_passesTo hstate
  · rename_i hstate
    exact waitForRound_passesTo hstate
  · rename_i hstate
    exact sendAndWaitForHandshakes_passesTo hstate
  · rename_i hstate
    exact sendHandshakeBitsets_passesTo hstate
  · rename_i hstate
    exact waitForHandshakeBitsets_passesTo hstate
  · exact sendBlockTemplate_passesTo
  · rename_i hstate
    exact waitForBlockTemplate_passesTo hstate
  · rename_i hstate
    exact sendAndWaitForRandomValueHashes_passesTo hstate
  · rename_i hstate
    exact sendAndWaitForRandomValue_passesTo hstate
  · rename_i hstate
    exact sendAndWaitForBlockSignatures_passesTo hstate

end Node

end Xeqm.Pulse
