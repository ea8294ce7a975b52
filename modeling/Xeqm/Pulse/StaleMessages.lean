import Xeqm.Pulse.Records

/-!
# Messages of another round or height

The signature of a message covers the round that the message names, which nothing
compares with the round of the node, and the signature of a template does not cover the
top block at all. So messages can be used again: in a later round by everybody who keeps
their position in the quorum, and templates also at a later height.
-/

namespace Xeqm.Pulse

open Cryptonote ServiceNodes Lib

variable (setup : Setup) (node : Node)

/-! ## Rounds -/

/-- A message that arrives with a good signature is for the round of the node. -/
def Step.OfRound : Step → Prop
  | .deliver msg => .waitForRound ≤ node.state →
    setup.lib.msgSignatureCheck msg node.currBlock.topHash node.round.quorum = true →
      msg.round = node.round.number
  | .pass _ => True

instance : ∀ step : Step, Decidable (step.OfRound setup node)
  | .deliver _ => inferInstanceAs (Decidable (_ → _ → _))
  | .pass _ => .isTrue trivial

/-- If all that arrives is for the round of the node, only messages of the own round are
recorded. -/
theorem recorded_of_round (setup : Setup) (node : Node)
    (h : Run setup (fun node step => step.OfRound setup node) node) (curr : CurrBlock)
    (number : UInt8) (msg : Message) (hmem : .recorded curr number msg ∈ node.log) :
    msg.round = number := by
  apply h.allRecorded (Q := fun _ number msg => msg.round = number) _ curr number msg hmem
  intro node step hstep
  cases step with
  | deliver => exact hstep
  | pass => exact fun payload _ => rfl

/-- Steps into round 1. -/
def secondRound : List Step :=
  List.replicate 5 (.pass (sampleAround 3 30))

/-- A handshake of round 1, recorded in round 1. -/
theorem recorded_of_round_second :
    let node := Step.runAll sampleSetup
      (secondRound ++ [.deliver (sampleMessage 3 1 4 .handshake), .pass (sampleAround 3 30)]) {}
    .recorded node.currBlock 1 (sampleMessage 3 1 4 .handshake) ∈ node.log ∧
      (sampleMessage 3 1 4 .handshake).round = 1 := by
  intro node
  have hmem : .recorded node.currBlock 1 (sampleMessage 3 1 4 .handshake) ∈ node.log := by
    decide +kernel
  have hrun : Run sampleSetup (fun node step => step.OfRound sampleSetup node) node :=
    Run.start.append _ (by decide +kernel)
  exact ⟨hmem, recorded_of_round sampleSetup node hrun _ _ _ hmem⟩

/-- The handshake that a validator signed in round 0 is recorded in round 1, where the
validator has the same position. -/
theorem handshake_of_round_before_recorded :
    let node := Step.runAll sampleSetup
      (secondRound ++ [.deliver (sampleMessage 3 0 4 .handshake), .pass (sampleAround 3 30)]) {}
    Run sampleSetup (fun _ _ => True) node ∧
      .recorded node.currBlock 1 (sampleMessage 3 0 4 .handshake) ∈ node.log ∧
      (sampleMessage 3 0 4 .handshake).round ≠ 1 := by
  intro node
  exact ⟨Run.start.append_of_forall _ (fun _ _ => trivial), by decide +kernel, by decide⟩

/-! ## Heights -/

/-- A block has the top block as its parent, and the next height. -/
def BuildsOn (curr : CurrBlock) (block : PulseBlock) : Prop :=
  block.prevId = curr.topHash ∧ block.height = curr.height

instance (curr : CurrBlock) (block : PulseBlock) : Decidable (BuildsOn curr block) :=
  inferInstanceAs (Decidable (_ ∧ _))

/-- A payload does not hold a template for another height. -/
def TemplateFits (lib : Library) (curr : CurrBlock) : Payload → Prop
  | .blockTemplate blob _ => ∀ block ∈ lib.parseBlock blob, BuildsOn curr block
  | _ => True

instance (lib : Library) (curr : CurrBlock) : ∀ payload, Decidable (TemplateFits lib curr payload)
  | .blockTemplate blob _ =>
    inferInstanceAs (Decidable (∀ block ∈ lib.parseBlock blob, BuildsOn curr block))
  | .handshake | .handshakeBitset _ | .randomValueHash _ | .randomValue _ | .blockSignature _ =>
    .isTrue trivial

/-- A template that arrives with a good signature is for the height of the node. -/
def Step.OfHeight : Step → Prop
  | .deliver msg => .waitForRound ≤ node.state →
    setup.lib.msgSignatureCheck msg node.currBlock.topHash node.round.quorum = true →
      TemplateFits setup.lib node.currBlock msg.payload
  | .pass _ => True

instance : ∀ step : Step, Decidable (step.OfHeight setup node)
  | .deliver _ => inferInstanceAs (Decidable (_ → _ → _))
  | .pass _ => .isTrue trivial

/-- If all templates that arrive are for the height of the node, every template that is
recorded and every block that is signed builds on the top block. -/
theorem signed_builds_on_top (setup : Setup) (node : Node)
    (h : Run setup (fun node step => step.OfHeight setup node) node) :
    (∀ curr number msg, .recorded curr number msg ∈ node.log →
        TemplateFits setup.lib curr msg.payload) ∧
      ∀ curr block, .signed curr block ∈ node.log → BuildsOn curr block := by
  have hrecorded : AllRecorded (fun curr _ msg => TemplateFits setup.lib curr msg.payload) node := by
    refine h.allRecorded ?_
    intro node step hstep
    cases step with
    | deliver => exact hstep
    | pass =>
      -- a node sends no template to itself
      intro payload hsends
      cases payload with
      | blockTemplate => exact hsends.elim
      | _ => trivial
  refine ⟨hrecorded, fun curr block hmem => ?_⟩
  obtain ⟨number, msg, blob, txs, parsed, hmem', hpayload, hparsed, hprev, hheight⟩ :=
    h.signed_fromTemplate hmem
  have hfits : TemplateFits setup.lib curr msg.payload := hrecorded curr number msg hmem'
  rw [hpayload] at hfits
  obtain ⟨hprev', hheight'⟩ := hfits parsed hparsed
  exact ⟨hprev.trans hprev', hheight.trans hheight'⟩

/-- A template for height 39999 on top of block 2. -/
def staleTemplate : List UInt8 := [0, 0x00, 0xff, 0x9c, 0x3f, 2]

/-- Steps up to the signature of a block, with some template. -/
def signingSteps (template : Message) : List Step :=
  templateSteps 3 0xff sampleOthers template ++ revealSteps 3 sampleOthers 20 sampleOthers 20

/-- With a template for the top block the node signs a block on top of it. -/
theorem signed_builds_on_top_fresh :
    let node := Step.runAll sampleSetup
      (signingSteps (sampleMessage 3 0 0 (.blockTemplate sampleTemplate []))) {}
    node.log.any (fun event => event matches .signed _ _) = true ∧
      ∀ curr block, .signed curr block ∈ node.log → BuildsOn curr block := by
  intro node
  have hrun : Run sampleSetup (fun node step => step.OfHeight sampleSetup node) node :=
    Run.start.append _ (by decide +kernel)
  exact ⟨by decide +kernel, (signed_builds_on_top sampleSetup node hrun).2⟩

/-- A template that the producer signed for the block before is recorded, and the node
signs a block that does not build on the top block. -/
theorem stale_template_signed :
    let node := Step.runAll sampleSetup
      (signingSteps (sampleMessage 2 0 0 (.blockTemplate staleTemplate []))) {}
    Run sampleSetup (fun _ _ => True) node ∧
      .recorded node.currBlock 0 (sampleMessage 2 0 0 (.blockTemplate staleTemplate [])) ∈ node.log ∧
      ¬ TemplateFits sampleLibrary node.currBlock (.blockTemplate staleTemplate []) ∧
      .signed node.currBlock node.transient.block ∈ node.log ∧
      ¬ BuildsOn node.currBlock node.transient.block := by
  intro node
  refine ⟨Run.start.append_of_forall _ (fun _ _ => trivial), ?_, ?_, ?_, ?_⟩
  all_goals decide +kernel

end Xeqm.Pulse
