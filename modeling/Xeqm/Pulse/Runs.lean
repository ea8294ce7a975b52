import Xeqm.Lib.Runs
import Xeqm.Pulse.Passes

/-!
# Runs of a Pulse node

A node is given messages, in any order and number, and makes passes. What holds in a
round is kept by all of this.
-/

namespace Xeqm.Pulse

open Cryptonote ServiceNodes Lib

/-- What can happen to a node. -/
inductive Step
  | deliver (msg : Message)
  | pass (around : Surroundings)

/-- The node after a step. -/
def Step.run (setup : Setup) : Step → Node → Node
  | .deliver msg => Node.handleMessage setup.lib msg
  | .pass around => Node.pass setup around

/-- The nodes that runs from the start reach, each step of which meets a condition in the
node it finds. -/
inductive Run (setup : Setup) (P : Node → Step → Prop) : Node → Prop
  | start : Run setup P {}
  | step {node : Node} (step : Step) (h : Run setup P node) (hstep : P node step) :
      Run setup P (step.run setup node)

/-- What holds of a node whenever it has prepared for a round. -/
def Ready (lib : Library) (node : Node) : Prop := .waitForRound ≤ node.state → InRound lib node

variable {P : Node → Step → Prop} {setup : Setup} {node : Node}

section

variable {setup : Setup} {around : Surroundings} {node node' : Node}

variable {lib : Library}

theorem inRound_prepared {start timeout : Time} {round : Round} {currBlock : CurrBlock}
    {log : List Event} :
    InRound lib { currBlock, round, transient := Node.setEndTimes {} start timeout
                  state := .waitForRound, log } := by
  constructor
  · exact marked_empty rfl
  · exact marked_empty rfl
  · exact marked_empty rfl
  · exact fun _ _ => rfl
  · exact fun _ _ => rfl
  · exact fun _ _ => rfl
  · exact fun hlate => absurd hlate (by decide : ¬ RoundState.waitForBlockTemplate < .waitForRound)
  · exact fun hlast => by cases hlast
  · exact fun v signature hdata => by cases hdata

/-- A state before the template may change to another one. -/
theorem InRound.moves (h : InRound lib node) {state : RoundState}
    (hbefore : node.state ≤ .waitForBlockTemplate) (hstate : state ≤ .waitForBlockTemplate) :
    InRound lib { node with state } := by
  simp only [RoundState.le_def, RoundState.toNat] at hbefore hstate
  constructor
  · exact h.hashes
  · exact h.values
  · exact h.signatures
  · exact fun _ => h.noHashes (by simp only [RoundState.lt_def, RoundState.toNat]; omega)
  · exact fun _ => h.noValues (by simp only [RoundState.lt_def, RoundState.toNat]; omega)
  · exact fun _ => h.noSignatures (by simp only [RoundState.lt_def, RoundState.toNat]; omega)
  · intro hlate
    simp only [RoundState.lt_def, RoundState.toNat] at hlate
    omega
  · rintro rfl
    exact absurd hstate (by decide)
  · exact h.signed

theorem InRound.finishes (h : InRound setup.lib node)
    (hready : node.state = .sendAndWaitForRandomValue) :
    InRound setup.lib (Node.finishBlock setup around node) := by
  have hnone := h.noSignatures (by rw [hready]; decide)
  have hlate := h.template (by rw [hready]; decide)
  have hstate : (Node.finishBlock setup around node).state = .sendAndWaitForBlockSignatures := rfl
  constructor
  · exact h.hashes
  · exact h.values
  · exact h.signatures.of_eq rfl rfl
  · rw [hstate]
    exact fun hbefore => absurd hbefore (by decide)
  · rw [hstate]
    exact fun hbefore => absurd hbefore (by decide)
  · rw [hstate]
    exact fun hbefore => absurd hbefore (by decide)
  · exact fun _ => hlate
  · exact fun _ => ⟨rfl, rfl⟩
  · intro v signature hdata
    cases (hnone v).symm.trans hdata

theorem InRound.accepts (h : InRound lib node) (hready : node.state = .waitForBlockTemplate)
    (hreceived : node.transient.templateStage.msgsReceived = 1)
    (hsignatures : node.transient.block.signatures = []) :
    InRound lib { node with state := .sendAndWaitForRandomValueHashes } := by
  constructor
  · exact h.hashes
  · exact h.values
  · exact h.signatures
  · exact fun hbefore => absurd hbefore (Nat.lt_irrefl _)
  · exact fun _ => h.noValues (by rw [hready]; decide)
  · exact fun _ => h.noSignatures (by rw [hready]; decide)
  · exact fun _ => ⟨hreceived, hsignatures⟩
  · exact nofun
  · exact h.signed

theorem InRound.collects (h : InRound lib node)
    (hready : node.state = .sendAndWaitForRandomValueHashes) :
    InRound lib { node with state := .sendAndWaitForRandomValue } := by
  constructor
  · exact h.hashes
  · exact h.values
  · exact h.signatures
  · exact fun hbefore => absurd hbefore (Nat.not_lt_of_le (Nat.le_succ _))
  · exact fun hbefore => absurd hbefore (Nat.lt_irrefl _)
  · exact fun _ => h.noSignatures (by rw [hready]; decide)
  · exact fun _ => h.template (by rw [hready]; decide)
  · exact nofun
  · exact h.signed

/-- The late stages start again with nothing. -/
theorem InRound.restarts (h : InRound setup.lib node) (bits : UInt16)
    (hready : .waitForBlockTemplate < node.state) :
    InRound setup.lib { Node.resetLateStages setup around { node with
        transient := { node.transient with block := { node.transient.block with
          pulse := { node.transient.block.pulse with validatorBitset := bits } } } } with
      state := .sendAndWaitForRandomValueHashes } := by
  constructor
  · exact marked_empty rfl
  · exact marked_empty rfl
  · exact marked_empty rfl
  · exact fun _ _ => rfl
  · exact fun _ _ => rfl
  · exact fun _ _ => rfl
  · exact fun _ => h.template hready
  · exact nofun
  · exact fun v signature hdata => by cases hdata

theorem Decides.ready (h : Decides setup around node node') (hnode : Ready setup.lib node) :
    Ready setup.lib node' := by
  intro hready
  cases h.proceeds_of_ready hready with
  | waits => exact hnode hready
  | prepares => exact inRound_prepared
  | moves state hready' hbefore hstate =>
    apply (hnode hready').moves
    · simp only [RoundState.lt_def, RoundState.le_def, RoundState.toNat] at hbefore hstate ⊢
      omega
    · exact Nat.le_trans hstate (by decide)
  | agrees _ _ state hready' _ _ _ hstate =>
    have hmoved : InRound setup.lib { node with state } := by
      apply (hnode (by rw [hready']; decide)).moves
      · rw [hready']
        decide
      · rcases hstate with rfl | rfl <;> decide
    exact ⟨hmoved.hashes, hmoved.values, hmoved.signatures, hmoved.noHashes, hmoved.noValues,
      hmoved.noSignatures, hmoved.template, hmoved.hashed, hmoved.signed⟩
  | accepts hready' hreceived hsignatures =>
    exact (hnode (by rw [hready']; decide)).accepts hready' hreceived hsignatures
  | collects hready' => exact (hnode (by rw [hready']; decide)).collects hready'
  | restarts bits hready' =>
    exact (hnode (Nat.le_trans (by decide) (Nat.le_of_lt hready'))).restarts bits hready'
  | finishes hready' => exact (hnode (by rw [hready']; decide)).finishes hready'

/-- A step keeps what holds in a round. -/
theorem Step.ready (step : Step) (h : Ready setup.lib node) :
    Ready setup.lib (step.run setup node) := by
  cases step with
  | deliver msg =>
    intro hready
    have hhandles := @Node.handleMessage_handles setup.lib msg node
    exact (h (hhandles.state_eq ▸ hready)).handles hhandles
  | pass around =>
    obtain ⟨heard, hheard, hdecides⟩ := @Node.pass_passesTo setup around node
    apply hdecides.ready
    intro hready
    exact hheard.inRound (h (hheard.state_eq ▸ hready))

theorem Run.ready (h : Run setup P node) : Ready setup.lib node := by
  induction h with
  | start => exact fun hready => absurd hready (by decide)
  | step step _ _ ih => exact step.ready ih

end

variable (topHash : Hash)

/-- What messages and decisions keep while a round goes on holds in every round. -/
theorem Run.keeps {I : Node → Prop} (h : Run setup P node)
    (hhandles : ∀ node msg node', InRound setup.lib node → P node (.deliver msg) →
      node.Handles setup.lib msg node' → I node → I node')
    (hhears : ∀ node around heard, InRound setup.lib node → P node (.pass around) →
      Hears setup.lib (node.Offers setup around) node heard → I node → I heard)
    (hdecides : ∀ node around heard node', P node (.pass around) →
      Decides setup around heard node' → (.waitForRound ≤ heard.state → I heard) →
      .waitForRound ≤ node'.state → I node') :
    .waitForRound ≤ node.state → I node := by
  induction h with
  | start => exact fun hready => absurd hready (by decide)
  | @step node step hrun hstep ih =>
    cases step with
    | deliver msg =>
      intro hready
      have hhandled := @Node.handleMessage_handles setup.lib msg node
      have hready : .waitForRound ≤ node.state := hhandled.state_eq ▸ hready
      exact hhandles node msg _ (hrun.ready hready) hstep hhandled (ih hready)
    | pass around =>
      obtain ⟨heard, hheard, hdecided⟩ := @Node.pass_passesTo setup around node
      apply hdecides node around heard _ hstep hdecided
      intro hready
      have hready : .waitForRound ≤ node.state := hheard.state_eq ▸ hready
      exact hhears node around heard (hrun.ready hready) hstep hheard (ih hready)

/-! ## Concrete runs -/

/-- The node after some steps. -/
def Step.runAll (setup : Setup) (steps : List Step) (node : Node) : Node :=
  steps.foldl (fun node step => step.run setup node) node

theorem Run.append (h : Run setup P node) (steps : List Step)
    (hsteps : AllAlong (fun node step => step.run setup node) P node steps) :
    Run setup P (Step.runAll setup steps node) :=
  hsteps.foldl (fun _ step hrun => .step step hrun) h

/-- A condition that does not look at the node. -/
theorem Run.append_of_forall {P : Step → Prop}
    (h : Run setup (fun _ => P) node) (steps : List Step) (hsteps : ∀ step ∈ steps, P step) :
    Run setup (fun _ => P) (Step.runAll setup steps node) := by
  induction steps generalizing node with
  | nil => exact h
  | cons step _ ih =>
    obtain ⟨hstep, hrest⟩ := List.forall_mem_cons.mp hsteps
    exact ih (.step step h hstep) hrest

/-- A node on the main network. -/
def sampleSetup : Setup := { lib := sampleLibrary, net := { nettype := .mainnet } }

/-- What the first validator of the quorum finds at a time, at height 40000. -/
def sampleAround (now : Time) : Surroundings :=
  { now, timerNow := now, retryNow := now, topHash, chainHeight := 40000, r0Timestamp := some 0
    generatePulseQuorum := fun _ => sampleQuorum
    key := sampleKey 0
    sign := sampleSignature (sampleKey 0)
    randomValue := 5 }

/-- The random values of the other validators. -/
def sampleValue (v : ℕ) : RandomValue := BitVec.ofNat _ (50 + v)

/-- Messages of some validators in round 0. `pulse::operator()` checks the state after each. -/
def sampleDeliveries (around : Surroundings) (payload : ℕ → Payload) (vs : List ℕ) : List Step :=
  vs.flatMap (fun v => [.deliver (sampleMessage topHash 0 v (payload v)), .pass around])

/-- Steps of round 0 up to the votes for a bitset. -/
def handshakeSteps : List Step :=
  List.replicate 5 (.pass (sampleAround topHash 0)) ++
    List.replicate 3 (.pass (sampleAround topHash 10))

/-- Steps of round 0 up to the hashes: some validators vote for a bitset, and a template
arrives. -/
def templateSteps (bitset : UInt16) (voters : List ℕ) (template : Message) : List Step :=
  let pass now := Step.pass (sampleAround topHash now)
  handshakeSteps topHash ++
    sampleDeliveries topHash (sampleAround topHash 10) (fun _ => .handshakeBitset bitset) voters ++
    [pass 20, pass 20, .deliver template, pass 20]

/-- Steps from there to the signature of the block: the hashes of some validators, the end of
their stage at a time, the values of some at that time, and the end of their stage. -/
def revealSteps (hashes : List ℕ) (end₁ : Time) (values : List ℕ) (end₂ : Time) : List Step :=
  let pass now := Step.pass (sampleAround topHash now)
  [pass 20] ++
    sampleDeliveries topHash (sampleAround topHash 20)
      (fun v => .randomValueHash (sampleHash (sampleValue v).bytes)) hashes ++
    [pass end₁, pass end₁] ++
    sampleDeliveries topHash (sampleAround topHash end₁) (fun v => .randomValue (sampleValue v))
      values ++
    [pass end₂, pass end₂]

/-- The other validators of eight. -/
def sampleOthers : List ℕ := [1, 2, 3, 4, 5, 6, 7]

/-- A template of eight validators for height 40000 on top of block 3. -/
def sampleTemplate : List UInt8 := [0, 0x00, 0xff, 0x9c, 0x40, 3]

end Xeqm.Pulse
