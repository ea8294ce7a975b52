import Xeqm.Pulse.CommitReveal
import Xeqm.ServiceNodes.QuorumSignatures

/-!
# The signatures of a block

A block is passed on when the validators that took part have all signed it, with the
first seven of their signatures. Nothing asks for seven validators to take part, and
before HF21 the validators that took part are those whose hash arrived, whether or not
they went on.
-/

namespace Xeqm.Pulse

open Cryptonote ServiceNodes Lib List

/-! ## Seven signatures -/

/-- The signatures of a block are in order, of validators that took part, and good. -/
structure SoundlySigned (lib : Library) (quorum : Quorum) (block : PulseBlock) : Prop where
  ordered : block.signatures.Pairwise (fun vote next => vote.voterIndex < next.voterIndex)
  valid : ∀ vote ∈ block.signatures,
    ValidVote lib.crypto quorum .pulse (lib.blockHash block) (some block.toBlock) vote

/-- A block with seven such signatures, which `verify_quorum_signatures` accepts. -/
structure SevenSigned (lib : Library) (quorum : Quorum) (block : PulseBlock) : Prop
    extends SoundlySigned lib quorum block where
  seven : block.signatures.length = pulseBlockRequiredSignatures
  accepted : verifyQuorumSignatures lib.crypto quorum .pulse block.majorVersion (lib.blockHash block)
    block.signatures (some block.toBlock) = true

section

variable {lib : Library} {signatures : QuorumArray (Option Signature)}

theorem toNat_position (v : Position) : (UInt16.ofNat v.val).toNat = v.val :=
  UInt16.toNat_ofNat_of_lt' (lt_trans v.isLt (by decide))

theorem mem_firstSignatures {vote : QuorumSignature}
    (h : vote ∈ Node.firstSignatures signatures) :
    ∃ v : Position, vote.voterIndex.toNat = v.val ∧ signatures v = some vote.signature := by
  obtain ⟨v, -, hv⟩ := mem_filterMap.mp (mem_of_mem_take h)
  obtain ⟨signature, hdata, rfl⟩ := Option.map_eq_some_iff.mp hv
  exact ⟨v, toNat_position v, hdata⟩

theorem firstSignatures_ordered (signatures : QuorumArray (Option Signature)) :
    (Node.firstSignatures signatures).Pairwise
      (fun vote next => vote.voterIndex < next.voterIndex) := by
  apply Pairwise.sublist (take_sublist _ _)
  apply (pairwise_lt_finRange _).filterMap
  rintro v w hlt vote hvote next hnext
  obtain ⟨signature, -, rfl⟩ := Option.map_eq_some_iff.mp hvote
  obtain ⟨signature', -, rfl⟩ := Option.map_eq_some_iff.mp hnext
  rw [UInt16.lt_iff_toNat_lt, toNat_position, toNat_position]
  exact hlt

/-- There are as many first signatures as validators signed, but at most seven. -/
theorem length_firstSignatures {saw : SendAndWait Signature} (h : saw.Marked) :
    (Node.firstSignatures saw.data).length =
      min pulseBlockRequiredSignatures (popcount saw.stage.bitset) := by
  rw [Node.firstSignatures, length_take, length_filterMap_eq_countP,
    popcount_eq_countP (by decide) h.high]
  congr 1
  apply countP_congr
  intro v _
  simp [h.bits v]

/-- The block with the signatures that a node heard. -/
def Node.signedBlock (node : Node) : PulseBlock :=
  { node.transient.block with
    hashValid := false
    signatures := node.transient.block.signatures ++
      Node.firstSignatures node.transient.blockSignatures.data }

variable {node : Node}

section

variable (h : InRound lib node) (hstate : node.state = .sendAndWaitForBlockSignatures)

include h hstate

theorem InRound.signedBlock_signatures :
    node.signedBlock.signatures = Node.firstSignatures node.transient.blockSignatures.data := by
  have hempty := (h.template (by rw [hstate]; decide)).2
  change node.transient.block.signatures ++ _ = _
  rw [hempty, nil_append]

theorem InRound.soundlySigned : SoundlySigned lib node.round.quorum node.signedBlock := by
  have hsignatures := h.signedBlock_signatures hstate
  constructor
  · rw [hsignatures]
    exact firstSignatures_ordered _
  · intro vote hvote
    rw [hsignatures] at hvote
    obtain ⟨v, hindex, hdata⟩ := mem_firstSignatures hvote
    obtain ⟨hbit, key, hkey, hsigned⟩ := h.signed v vote.signature hdata
    constructor
    · rw [hindex]
      exact lt_of_lt_of_le v.isLt (by decide)
    · change node.participants.toNat.testBit vote.voterIndex.toNat = true
      rw [hindex]
      exact hbit
    · rw [hindex]
      exact ⟨key, hkey, hsigned⟩

end

/-- Sound signatures are accepted if there are seven of them and the bitset names no
validator out of range. -/
theorem SoundlySigned.accepted {quorum : Quorum} {block : PulseBlock}
    (h : SoundlySigned lib quorum block)
    (hseven : block.signatures.length = pulseBlockRequiredSignatures)
    (hbitset : block.pulse.validatorBitset.toNat < 2 ^ pulseQuorumNumValidators) :
    verifyQuorumSignatures lib.crypto quorum .pulse block.majorVersion (lib.blockHash block)
      block.signatures (some block.toBlock) = true := by
  have hshape : hasQuorumShape .pulse block.signatures (some block.toBlock) = true := by
    simp [hasQuorumShape, hseven, hbitset]
  rw [verifyQuorumSignatures, hshape, Bool.true_and, verifySignatures_iff]
  exact ⟨fun _ => h.ordered, voters_ne_of_lt h.ordered,
    fun vote hvote => ⟨not_mem_nil, h.valid vote hvote⟩⟩

end

/-- Every block that is passed on is signed soundly, and with seven signatures exactly if
seven validators took part. -/
theorem found_sevenSigned_iff (setup : Setup) (node : Node) (h : Run setup (fun _ _ => True) node)
    (quorum : Quorum) (block : PulseBlock) (hmem : .found quorum block ∈ node.log) :
    SoundlySigned setup.lib quorum block ∧
      (SevenSigned setup.lib quorum block ↔
        pulseBlockRequiredSignatures ≤ popcount block.pulse.validatorBitset) := by
  obtain ⟨pre, post, hlog⟩ := append_of_mem hmem
  obtain ⟨before, around, heard, es, hrun, -, hheard, -, hstate, hbits, rfl, hblock⟩ :=
    h.emitted hlog (by simp)
  obtain rfl : block = heard.signedBlock := hblock
  have hround := hheard.inRound (hrun.ready (by rw [← hheard.state_eq, hstate]; decide))
  have hsound := hround.soundlySigned hstate
  have hparticipants : heard.signedBlock.pulse.validatorBitset =
      heard.transient.blockSignatures.stage.bitset := hbits.symm
  have hlength := length_firstSignatures hround.signatures
  rw [← hround.signedBlock_signatures hstate, ← hparticipants] at hlength
  refine ⟨hsound, fun hseven => ?_, fun hcount => ?_⟩
  · have := hseven.seven
    omega
  · have hseven : heard.signedBlock.signatures.length = pulseBlockRequiredSignatures := by omega
    refine { hsound with seven := hseven, accepted := hsound.accepted hseven ?_ }
    rw [hparticipants]
    exact toNat_lt_of_hasBit hround.signatures.high

/-- The signatures of some validators on the block of a node at a time. The pass after the last
of them is left out. -/
def signatureSteps (node : Node) (vs : List ℕ) (now : Time) : List Step :=
  let hash := sampleLibrary.blockHash node.transient.block
  (sampleDeliveries 3 (sampleAround 3 now)
    (fun v => .blockSignature (sampleSignature (sampleKey v) hash)) vs).dropLast

/-- Steps of eight validators up to the signature of the block, if the values of some of
them arrive by some time. -/
def eightSteps (values : List ℕ) (now : Time) : List Step :=
  templateSteps 3 0xff sampleOthers (sampleMessage 3 0 0 (.blockTemplate sampleTemplate [])) ++
    revealSteps 3 sampleOthers 20 values now

/-- A node of eight validators that has signatures of some of them. -/
def eightNode (values : List ℕ) (now : Time) : Node :=
  let node := Step.runAll sampleSetup (eightSteps values now) {}
  Step.runAll sampleSetup (signatureSteps node values now) node

theorem run_eightNode (values : List ℕ) (now : Time) :
    Run sampleSetup (fun _ _ => True) (eightNode values now) :=
  (Run.start.append_of_forall _ (fun _ _ => trivial)).append_of_forall _ fun _ _ => trivial

/-- Eight validators sign, and seven signatures are passed on. -/
theorem found_sevenSigned_eight :
    let node := Node.pass sampleSetup (sampleAround 3 20) (eightNode sampleOthers 20)
    ∃ quorum block, .found quorum block ∈ node.log ∧ SevenSigned sampleLibrary quorum block := by
  intro node
  have hrun : Run sampleSetup (fun _ _ => True) node :=
    (run_eightNode sampleOthers 20).step (.pass (sampleAround 3 20)) trivial
  have hfound : node.log.any (fun event =>
      match event with
      | .found _ block => pulseBlockRequiredSignatures ≤ popcount block.pulse.validatorBitset
      | _ => false) = true := by decide +kernel
  clear_value node
  obtain ⟨event, hmem, hcount⟩ := any_eq_true.mp hfound
  cases event with
  | found quorum block =>
    have hcount : pulseBlockRequiredSignatures ≤ popcount block.pulse.validatorBitset := by
      simpa using hcount
    exact ⟨quorum, block, hmem, (found_sevenSigned_iff _ node hrun quorum block hmem).2.mpr hcount⟩
  | _ => cases hcount

/-- A node after seven validators agreed that it takes part alone. -/
def soleNode : Node :=
  let template := sampleMessage 3 0 0 (.blockTemplate [0, 0x00, 0x01, 0x9c, 0x40, 3] [])
  Step.runAll sampleSetup (templateSteps 3 0x01 sampleOthers template ++
    List.replicate 3 (.pass (sampleAround 3 20))) {}

/-- The block of a node that takes part alone is passed on with one signature. -/
theorem found_with_one_signature :
    Run sampleSetup (fun _ _ => True) soleNode ∧ ∃ quorum block,
      .found quorum block ∈ soleNode.log ∧ block.signatures.length = 1 ∧
        ¬ SevenSigned sampleLibrary quorum block := by
  refine ⟨Run.start.append_of_forall _ (fun _ _ => trivial), ?_⟩
  have hfound : soleNode.log.any (fun event =>
      match event with
      | .found _ block => block.signatures.length = 1
      | _ => false) = true := by decide +kernel
  obtain ⟨event, hmem, hone⟩ := any_eq_true.mp hfound
  cases event with
  | found quorum block =>
    have hone : block.signatures.length = 1 := by simpa using hone
    refine ⟨quorum, block, hmem, hone, fun hseven => ?_⟩
    rw [hseven.seven] at hone
    cases hone
  | _ => cases hone

/-! ## Before HF21 -/

/-- A pass finds the chain before HF21. -/
def Step.BeforeHf21 (setup : Setup) : Step → Prop
  | .deliver _ => True
  | .pass around => setup.hf20CompatMode around = true

/-- A node passes a block on between two points of a run. -/
def Node.Submits (node node' : Node) : Prop :=
  ∃ quorum block, .found quorum block ∈ node'.log.drop node.log.length

/-- The node once it has listened in the stage of the signatures. -/
def Node.heardSignatures (setup : Setup) (around : Surroundings) (node : Node) : Node :=
  Node.handleMessagesReceivedEarlyFor setup.lib .blockSignature
    (Node.startSend setup around .blockSignature .blockSignature
      node.transient.blockSignatures.toSend
      (fun node => { node with transient := { node.transient with
        blockSignatures := { node.transient.blockSignatures with toSend := none } } }) node)

section

variable {setup : Setup} {around : Surroundings} {node node' : Node}

theorem Node.heardSignatures_hears (hstate : node.state = .sendAndWaitForBlockSignatures) :
    Hears setup.lib (node.Offers setup around) node (node.heardSignatures setup around) := by
  apply Node.listen_hears
  · exact fun node => .of_fields
  · exact fun value hvalue => ⟨hstate, hvalue⟩

/-- Before HF21 a block is finished with those whose hash arrived. -/
theorem Decides.hashesComplete_signatures (h : Decides setup around node node')
    (hcompat : setup.hf20CompatMode around = true)
    (hnode : .waitForRound ≤ node.state → HashesComplete .sendAndWaitForBlockSignatures node) :
    .waitForRound ≤ node'.state → HashesComplete .sendAndWaitForBlockSignatures node' := by
  intro hready hlast
  have hlate := Nat.le_trans
    (by decide : RoundState.sendAndWaitForRandomValue ≤ .sendAndWaitForBlockSignatures) hlast
  rcases (h.proceeds_of_ready hready).late_cases hlate with rfl | ⟨-, -, rfl⟩ | ⟨-, rfl⟩
  · exact hnode hready hlast
  · exact absurd hlast
      (by decide : ¬ RoundState.sendAndWaitForBlockSignatures ≤ .sendAndWaitForRandomValue)
  · change _ = if setup.hf20CompatMode around = true then _ else _
    rw [hcompat]
    rfl

theorem Run.hashesComplete_signatures (h : Run setup (fun _ step => step.BeforeHf21 setup) node) :
    .waitForRound ≤ node.state → HashesComplete .sendAndWaitForBlockSignatures node :=
  h.keeps (fun _ _ _ hround _ hhandles hnode => hnode.handles (by decide) hround hhandles)
    (fun _ _ _ hround _ hhears hnode => hnode.hears (by decide) hround hhears)
    (fun _ _ _ _ hstep hdecides hheard => hdecides.hashesComplete_signatures hstep hheard)

/-- The end of the stage of the signatures. -/
theorem Node.pass_of_signatures_over (hstate : node.state = .sendAndWaitForBlockSignatures)
    (hcompat : setup.hf20CompatMode around = true) {heard : Node}
    (hheard : node.heardSignatures setup around = heard)
    (hover : heard.transient.blockSignatures.stage.endTime ≤ around.now ∨
      heard.transient.blockSignatures.stage.bitset = heard.transient.randomValue.stage.bitset) :
    node.pass setup around =
      match Node.resetForMissingValidators setup around heard.transient.blockSignatures.stage heard with
      | some missing => Node.afterMissing missing
      | none => Node.submitBlock around heard := by
  subst hheard
  have hpass : node.pass setup around = node.sendAndWaitForBlockSignatures setup around := by
    simp only [Node.pass, hstate]
  rw [hpass, Node.sendAndWaitForBlockSignatures]
  refine if_pos ?_
  rw [hcompat]
  exact hover

/-- Nothing is passed on if a state change is not accepted. -/
theorem submitBlock_log_of_rejected
    (h : node.transient.stateChangeTxs.all (fun entry => around.handleIncomingTx entry.2) = false) :
    (Node.submitBlock around node).log = node.log := by
  simp only [Node.submitBlock, h]
  rfl

theorem submitBlock_log_of_accepted
    (h : node.transient.stateChangeTxs.all (fun entry => around.handleIncomingTx entry.2) = true) :
    ∃ events, (Node.submitBlock around node).log =
      node.log ++ .found node.round.quorum node.signedBlock :: events := by
  simp only [Node.submitBlock, h, if_true]
  split
  · exact ⟨[.cleared], append_assoc _ _ _⟩
  · exact ⟨[], rfl⟩

end

/-- Before HF21, at the end of the stage of the signatures, the block is passed on exactly if
all validators whose hash arrived have signed it and its state changes are accepted. -/
theorem submits_iff_all_signed (setup : Setup) (around : Surroundings) (node heard : Node)
    (h : Run setup (fun _ step => step.BeforeHf21 setup) node)
    (hstate : node.state = .sendAndWaitForBlockSignatures)
    (hcompat : setup.hf20CompatMode around = true)
    (hheard : node.heardSignatures setup around = heard)
    (hover : heard.transient.blockSignatures.stage.endTime ≤ around.now ∨
      heard.transient.blockSignatures.stage.bitset = heard.transient.randomValue.stage.bitset) :
    node.Submits (node.pass setup around) ↔
      heard.transient.blockSignatures.stage.bitset =
        heard.transient.randomValueHashes.stage.bitset ∧
      heard.transient.stateChangeTxs.all (fun entry => around.handleIncomingTx entry.2) = true := by
  have hhears : Hears setup.lib (node.Offers setup around) node heard :=
    hheard ▸ Node.heardSignatures_hears hstate
  have hready : .waitForRound ≤ node.state := by
    rw [hstate]
    decide
  have hhashes : heard.transient.randomValueHashes.stage.bitset = heard.participants := by
    apply (h.hashesComplete_signatures hready).hears (by decide) (h.ready hready) hhears
    rw [hhears.state_eq, hstate]
    exact Nat.le_refl _
  obtain ⟨records, hrecords, hall⟩ := hhears.log_eq
  rw [hhashes, Node.pass_of_signatures_over hstate hcompat hheard hover]
  by_cases hbits : heard.transient.blockSignatures.stage.bitset = heard.participants
  · have hnone : Node.resetForMissingValidators setup around
        heard.transient.blockSignatures.stage heard = none := if_pos hbits
    rw [hnone]
    refine ⟨fun hsubmits => ⟨hbits, ?_⟩, fun haccepted => ?_⟩
    · by_contra hrejected
      obtain ⟨quorum, block, hmem⟩ := hsubmits
      dsimp only at hmem
      rw [submitBlock_log_of_rejected (Bool.eq_false_iff.mpr hrejected), hrecords,
        drop_left] at hmem
      obtain ⟨curr, number, msg, hrecord⟩ := hall _ hmem
      cases hrecord
    · obtain ⟨events, hlog⟩ := submitBlock_log_of_accepted haccepted.2
      refine ⟨heard.round.quorum, heard.signedBlock, ?_⟩
      dsimp only
      rw [hlog, hrecords, append_assoc, drop_left]
      simp
  · refine ⟨fun hsubmits => ?_, fun haccepted => absurd haccepted.1 hbits⟩
    exfalso
    cases hmissing : Node.resetForMissingValidators setup around
        heard.transient.blockSignatures.stage heard with
    | none => exact hbits (Node.resetForMissingValidators_eq_none hmissing)
    | some missing =>
      rw [hmissing] at hsubmits
      have hlate : .waitForBlockTemplate < heard.state := by
        rw [hhears.state_eq, hstate]
        decide
      obtain ⟨events, hlog, hemits⟩ := (Node.decides_afterMissing hmissing hlate).log_eq
      obtain ⟨quorum, block, hmem⟩ := hsubmits
      dsimp only at hmem
      rw [hlog, hrecords, append_assoc, drop_left] at hmem
      rcases mem_append.mp hmem with hmem | hmem
      · obtain ⟨curr, number, msg, hrecord⟩ := hall _ hmem
        cases hrecord
      · obtain ⟨es, es', hsplit⟩ := append_of_mem hmem
        exact hbits (hemits es es' _ hsplit).2.1

instance (setup : Setup) : ∀ step : Step, Decidable (step.BeforeHf21 setup)
  | .deliver _ => .isTrue trivial
  | .pass _ => inferInstanceAs (Decidable (_ = _))

instance (node node' : Node) : Decidable (node.Submits node') :=
  decidable_of_iff ((node'.log.drop node.log.length).any (fun event => event matches .found _ _) = true)
    (by
      rw [any_eq_true]
      constructor
      · rintro ⟨event, hmem, hfound⟩
        cases event with
        | found quorum block => exact ⟨quorum, block, hmem⟩
        | _ => cases hfound
      · rintro ⟨quorum, block, hmem⟩
        exact ⟨_, hmem, rfl⟩)

theorem run_eightNode_beforeHf21 :
    Run sampleSetup (fun _ step => step.BeforeHf21 sampleSetup) (eightNode sampleOthers 20) := by
  refine (Run.start.append_of_forall _ ?_).append_of_forall _ ?_
  · decide +kernel
  · decide +kernel

/-- With the signatures of all eight validators the block is passed on. -/
theorem submits_iff_all_signed_eight :
    (eightNode sampleOthers 20).Submits
      ((eightNode sampleOthers 20).pass sampleSetup (sampleAround 3 20)) := by
  refine (submits_iff_all_signed sampleSetup (sampleAround 3 20) (eightNode sampleOthers 20) _
    run_eightNode_beforeHf21 ?_ ?_ rfl ?_).mpr ?_
  all_goals decide +kernel

/-- One of eight validators sends its hash and nothing more. The others finish and sign the
block, and at the end the node has seven good signatures and gives the round up. -/
theorem round_given_up_with_seven_signatures :
    let node := eightNode [1, 2, 3, 4, 5, 6] 50
    let heard := node.heardSignatures sampleSetup (sampleAround 3 60)
    Run sampleSetup (fun _ step => step.BeforeHf21 sampleSetup) node ∧
      node.state = .sendAndWaitForBlockSignatures ∧
      heard.transient.blockSignatures.stage.endTime ≤ 60 ∧
      popcount heard.transient.blockSignatures.stage.bitset = pulseBlockRequiredSignatures ∧
      ¬ node.Submits (node.pass sampleSetup (sampleAround 3 60)) ∧
      (node.pass sampleSetup (sampleAround 3 60)).state = .prepareForRound := by
  intro node heard
  refine ⟨(Run.start.append_of_forall _ ?_).append_of_forall _ ?_, ?_⟩
  all_goals decide +kernel

end Xeqm.Pulse
