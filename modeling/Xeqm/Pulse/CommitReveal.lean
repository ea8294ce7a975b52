import Xeqm.Pulse.Records

/-!
# Commitments to random values

A validator first sends the hash of its random value and then the value. The values that
go into a block should be those that were committed to. A value of a validator whose
hash never arrived is not compared with anything: before HF21 the stage of the hashes
may end without it.
-/

namespace Xeqm.Pulse

open Cryptonote ServiceNodes Lib List

/-- The events of the current attempt: those since the late stages were last started or
the round was cleared. -/
def attempt (log : List Event) : List Event :=
  log.foldl (fun events event =>
    match event with
    | .restarted | .cleared => []
    | event => events ++ [event]) []

/-- A value was recorded for a validator after its hash. -/
def Committed (lib : Library) (events : List Event) (v : Position) (value : RandomValue) : Prop :=
  ∃ curr number hashMsg curr' number' valueMsg,
    [Event.recorded curr number hashMsg, Event.recorded curr' number' valueMsg].Sublist events ∧
    hashMsg.quorumPosition.toNat = v.val ∧
    hashMsg.payload = .randomValueHash (lib.blake2b value.bytes) ∧
    valueMsg.quorumPosition.toNat = v.val ∧ valueMsg.payload = .randomValue value

/-- All values that went into a block were committed to in the same attempt. -/
def SeedsCommitted (lib : Library) (log : List Event) : Prop :=
  ∀ before after values, log = before ++ .seeded values :: after →
    ∀ v value, values v = some value → Committed lib (attempt before) v value

/-- The hashes and values that a node holds were recorded in the current attempt, each
value after its hash. -/
structure Committing (lib : Library) (node : Node) : Prop where
  hashes : ∀ v hash, node.transient.randomValueHashes.data v = some hash →
    ∃ curr number msg, .recorded curr number msg ∈ attempt node.log ∧
      msg.quorumPosition.toNat = v.val ∧ msg.payload = .randomValueHash hash
  values : ∀ v value, node.transient.randomValue.data v = some value →
    Committed lib (attempt node.log) v value

/-- If a message holds a random value that counts, the hash of its sender is known. -/
def Node.KnowsHash (lib : Library) (node : Node) (msg : Message) : Prop :=
  .sendAndWaitForRandomValue ≤ node.state →
    lib.msgSignatureCheck msg node.currBlock.topHash node.round.quorum = true →
    msg.payload.type = .randomValue →
    ∀ v : Position, v.val = msg.quorumPosition.toNat → hasBit node.participants v = true →
      (node.transient.randomValueHashes.data v).isSome = true

/-- No random value is handled before the hash of its sender. -/
def Step.HashesFirst (setup : Setup) (node : Node) : Step → Prop
  | .deliver msg => node.KnowsHash setup.lib msg
  | .pass around => ∀ msg, node.Offers setup around msg → node.KnowsHash setup.lib msg

/-- A pass finds the chain at HF21. -/
def Step.AtHf21 (setup : Setup) : Step → Prop
  | .deliver _ => True
  | .pass around => setup.hf20CompatMode around = false

variable {v : Position} {value : RandomValue}

section

variable {lib : Library} {setup : Setup} {around : Surroundings} {M : Message → Prop}
  {msg : Message} {node node' : Node} {stage : RoundState}

/-! ## Attempts -/

theorem attempt_recorded {log : List Event} {curr : CurrBlock} {number : UInt8} {msg : Message} :
    attempt (log ++ [.recorded curr number msg]) = attempt log ++ [.recorded curr number msg] := by
  simp [attempt]

theorem Committed.mono {events events' : List Event}
    (h : Committed lib events v value) (hsub : events.Sublist events') :
    Committed lib events' v value := by
  obtain ⟨curr, number, hashMsg, curr', number', valueMsg, hlist, hmsg⟩ := h
  exact ⟨curr, number, hashMsg, curr', number', valueMsg, hlist.trans hsub, hmsg⟩

namespace Committing

theorem of_sameData (h : Committing lib node) (hsame : SameData node node') :
    Committing lib node' := by
  constructor
  · rw [hsame.hashes, hsame.log]
    exact h.hashes
  · rw [hsame.values, hsame.log]
    exact h.values

/-- The same hashes and values, and no less in the attempt. -/
theorem mono (h : Committing lib node)
    (hhashes : node'.transient.randomValueHashes.data = node.transient.randomValueHashes.data)
    (hvalues : node'.transient.randomValue.data = node.transient.randomValue.data)
    (hattempt : (attempt node.log).Sublist (attempt node'.log)) : Committing lib node' := by
  constructor
  · intro v hash hdata
    rw [hhashes] at hdata
    obtain ⟨curr, number, msg, hmem, hmsg⟩ := h.hashes v hash hdata
    exact ⟨curr, number, msg, hattempt.subset hmem, hmsg⟩
  · intro v value hdata
    rw [hvalues] at hdata
    exact (h.values v value hdata).mono hattempt

end Committing

/-! ## Listening -/

theorem getBlockHash_pulse {lib : Library} {block : PulseBlock} :
    (lib.getBlockHash block).2.pulse = block.pulse := by
  unfold Library.getBlockHash
  split <;> rfl

/-- After the template who takes part changes with decisions only. -/
theorem Node.Handles.participants_eq (h : Node.Handles lib msg node node')
    (hround : InRound lib node) (hstate : .waitForBlockTemplate < node.state) :
    node'.participants = node.participants := by
  cases h with
  | ignored => rfl
  | queued =>
    exact SameData.enqueue.participants
  | rejected =>
    exact congrArg PulseHeader.validatorBitset getBlockHash_pulse
  | recorded _ _ _ _ _ _ _ _ _ hadds =>
    cases hadds with
    | blockTemplate _ _ _ _ hfirst =>
      exact absurd (hround.template hstate).1 hfirst
    | blockSignature =>
      exact congrArg PulseHeader.validatorBitset getBlockHash_pulse
    | _ => rfl

/-- A hash that is known stays known. -/
theorem Node.Handles.hash_isSome (h : Node.Handles lib msg node node')
    (hsome : (node.transient.randomValueHashes.data v).isSome = true) :
    (node'.transient.randomValueHashes.data v).isSome = true := by
  cases h with
  | ignored => exact hsome
  | queued =>
    rw [SameData.enqueue.hashes]
    exact hsome
  | rejected => exact hsome
  | recorded position payload t hposition hpayload hready hcheck hlate hparticipates hadds =>
    cases hadds with
    | randomValueHash hash hnone =>
      change (Function.update node.transient.randomValueHashes.data position (some hash) v).isSome = _
      by_cases hv : v = position
      · subst hv
        simp
      · rw [Function.update_of_ne hv]
        exact hsome
    | _ => exact hsome

/-- A message keeps hashes and values in order if the hash of its sender is known. -/
theorem Committing.handles (h : Committing lib node) (hmsg : node.KnowsHash lib msg)
    (hhandles : node.Handles lib msg node') : Committing lib node' := by
  cases hhandles with
  | ignored => exact h
  | queued =>
    exact h.of_sameData .enqueue
  | rejected => exact h.mono rfl rfl (.refl _)
  | recorded _ _ _ hposition hpayload _ hcheck hlate hparticipates hadds =>
    have hattempt : attempt (node.log ++ [.recorded node.currBlock node.round.number msg]) =
        attempt node.log ++ [.recorded node.currBlock node.round.number msg] :=
      attempt_recorded
    have hsub : (attempt node.log).Sublist
        (attempt (node.log ++ [.recorded node.currBlock node.round.number msg])) := by
      rw [hattempt]
      exact sublist_append_left _ _
    cases hadds with
    | randomValueHash =>
      constructor
      · intro v hash' hdata
        rcases update_some_cases hdata with ⟨rfl, rfl⟩ | hdata
        · refine ⟨node.currBlock, node.round.number, msg, ?_, hposition.symm, hpayload⟩
          exact hattempt ▸ mem_append_right _ (mem_singleton.mpr rfl)
        · obtain ⟨curr, number, msg', hmem, hmsg'⟩ := h.hashes v hash' hdata
          exact ⟨curr, number, msg', hsub.subset hmem, hmsg'⟩
      · exact fun v value hdata => (h.values v value hdata).mono hsub
    | randomValue value _ hmatches =>
      constructor
      · intro v hash hdata
        obtain ⟨curr, number, msg', hmem, hmsg'⟩ := h.hashes v hash hdata
        exact ⟨curr, number, msg', hsub.subset hmem, hmsg'⟩
      · intro v value' hdata
        rcases update_some_cases hdata with ⟨rfl, rfl⟩ | hdata
        · -- the hash came before, and the value was compared with it
          have hbit := Node.hasBit_of_not_dropped hparticipates rfl
            (Nat.lt_of_lt_of_le
              (by decide : RoundState.waitForBlockTemplate < .sendAndWaitForRandomValue) hlate)
          have hknown := hmsg hlate hcheck (congrArg Payload.type hpayload) v hposition hbit
          obtain ⟨hash, hhash⟩ := Option.isSome_iff_exists.mp hknown
          obtain ⟨curr, number, hashMsg, hmem, hsender, hpayload'⟩ := h.hashes v hash hhash
          refine ⟨curr, number, hashMsg, node.currBlock, node.round.number, msg, ?_, hsender, ?_,
            hposition.symm, hpayload⟩
          · change List.Sublist _ (attempt (node.log ++ _))
            rw [hattempt]
            exact (singleton_sublist.mpr hmem).append (.refl [_])
          · rw [hpayload', hmatches hash hhash]
        · exact (h.values v value' hdata).mono hsub
    | _ => exact h.mono rfl rfl hsub

/-- What was known when a pass began is known all the while it listens. -/
theorem Hears.knowsHash (h : Hears lib M node node') (hround : InRound lib node)
    (hmsg : node.KnowsHash lib msg) : node'.KnowsHash lib msg := by
  intro hstate hcheck htype v hv hbit
  rw [h.state_eq] at hstate
  rw [h.currBlock_eq, h.round_eq] at hcheck
  have hlate : .waitForBlockTemplate < node.state := Nat.lt_of_lt_of_le
    (by decide : RoundState.waitForBlockTemplate < .sendAndWaitForRandomValue) hstate
  have hkept : node'.participants = node.participants ∧
      ∀ v, (node.transient.randomValueHashes.data v).isSome = true →
        (node'.transient.randomValueHashes.data v).isSome = true := by
    clear hbit
    induction h with
    | refl => exact ⟨rfl, fun _ hsome => hsome⟩
    | quiet _ hquiet ih =>
      rw [hquiet.same.participants, hquiet.same.hashes]
      exact ih
    | handle hheard _ hhandles ih =>
      have hparticipants := hhandles.participants_eq (hheard.inRound hround)
        (hheard.state_eq ▸ hlate)
      exact ⟨hparticipants.trans ih.1, fun v hsome => hhandles.hash_isSome (ih.2 v hsome)⟩
  rw [hkept.1] at hbit
  exact hkept.2 v (hmsg hstate hcheck htype v hv hbit)

theorem Committing.hears (h : Committing lib node) (hround : InRound lib node)
    (hM : ∀ msg, M msg → node.KnowsHash lib msg) (hhears : Hears lib M node node') :
    Committing lib node' := by
  induction hhears with
  | refl => exact h
  | quiet _ hquiet ih => exact ih.of_sameData hquiet.same
  | handle hheard hmsg hhandles ih =>
    exact ih.handles (hheard.knowsHash hround (hM _ hmsg)) hhandles

/-! ## Whole runs -/

theorem Decides.committing (h : Decides setup around node node')
    (hnode : .waitForRound ≤ node.state → Committing setup.lib node) :
    .waitForRound ≤ node'.state → Committing setup.lib node' := by
  intro hready
  cases h.proceeds_of_ready hready with
  | waits => exact hnode hready
  | prepares | restarts =>
    constructor
    · intro v hash hdata
      cases hdata
    · intro v value hdata
      cases hdata
  | moves _ hready' => exact (hnode hready').mono rfl rfl (.refl _)
  | agrees _ _ _ hready' | accepts hready' | collects hready' =>
    exact (hnode (by rw [hready']; decide)).mono rfl rfl (.refl _)
  | finishes hready' =>
    refine (hnode (by rw [hready']; decide)).mono rfl rfl ?_
    change (attempt node.log).Sublist (attempt (node.log ++ [_] ++ [_]))
    simp [attempt]

theorem Run.committing (h : Run setup (fun node step => step.HashesFirst setup node) node) :
    .waitForRound ≤ node.state → Committing setup.lib node :=
  h.keeps (fun _ _ _ _ hstep hhandles hnode => hnode.handles hstep hhandles)
    (fun _ _ _ hround hstep hhears hnode => hnode.hears hround hstep hhears)
    (fun _ _ _ _ _ hdecides hheard => hdecides.committing hheard)

/-! ## HF21 -/

/-- From some stage on, the hashes of everybody who takes part are known. -/
def HashesComplete (stage : RoundState) (node : Node) : Prop :=
  stage ≤ node.state → node.transient.randomValueHashes.stage.bitset = node.participants

theorem HashesComplete.knowsHash (h : HashesComplete .sendAndWaitForRandomValue node)
    (hround : InRound lib node) (msg : Message) : node.KnowsHash lib msg := by
  intro hstate _ _ v _ hbit
  rw [← hround.hashes.bits v, h hstate]
  exact hbit

theorem HashesComplete.handles (hstage : .waitForBlockTemplate < stage)
    (h : HashesComplete stage node) (hround : InRound lib node)
    (hhandles : node.Handles lib msg node') : HashesComplete stage node' := by
  intro hstate
  rw [hhandles.state_eq] at hstate
  have hlate : .waitForBlockTemplate < node.state := Nat.lt_of_lt_of_le hstage hstate
  rw [hhandles.participants_eq hround hlate, ← h hstate]
  cases hhandles with
  | ignored => rfl
  | queued => exact SameData.enqueue.hashBits
  | rejected => rfl
  | recorded position _ _ _ _ _ _ _ hparticipates hadds =>
    cases hadds with
    | randomValueHash hash hnone =>
      -- the hash of everybody who takes part is there
      have hbit := Node.hasBit_of_not_dropped hparticipates rfl hlate
      rw [← h hstate, hround.hashes.bits position, hnone] at hbit
      cases hbit
    | _ => rfl

theorem HashesComplete.hears (hstage : .waitForBlockTemplate < stage)
    (h : HashesComplete stage node) (hround : InRound lib node)
    (hhears : Hears lib M node node') : HashesComplete stage node' := by
  induction hhears with
  | refl => exact h
  | quiet _ hquiet ih =>
    rw [HashesComplete, hquiet.same.state, hquiet.same.hashBits, hquiet.same.participants]
    exact ih
  | handle hheard _ hhandles ih => exact ih.handles hstage (hheard.inRound hround) hhandles

theorem Decides.hashesComplete (h : Decides setup around node node')
    (hcompat : setup.hf20CompatMode around = false)
    (hnode : .waitForRound ≤ node.state → HashesComplete .sendAndWaitForRandomValue node) :
    HashesComplete .sendAndWaitForRandomValue node' := by
  intro hstate
  have hready : .waitForRound ≤ node'.state := Nat.le_trans
    (by decide : RoundState.waitForRound ≤ .sendAndWaitForRandomValue) hstate
  rcases (h.proceeds_of_ready hready).late_cases hstate with
    rfl | ⟨-, hbits, rfl⟩ | ⟨hready', rfl⟩
  · exact hnode hready hstate
  · refine hbits.resolve_right (fun h => ?_)
    rw [hcompat] at h
    cases h
  · have hbits := hnode (by rw [hready']; decide) (by rw [hready']; decide)
    refine hbits.trans ?_
    change node.participants = if setup.hf20CompatMode around = true then _ else node.participants
    rw [hcompat]
    rfl

theorem Run.hashesComplete (h : Run setup (fun _ step => step.AtHf21 setup) node) :
    .waitForRound ≤ node.state → HashesComplete .sendAndWaitForRandomValue node :=
  h.keeps (fun _ _ _ hround _ hhandles hnode => hnode.handles (by decide) hround hhandles)
    (fun _ _ _ hround _ hhears hnode => hnode.hears (by decide) hround hhears)
    (fun _ _ _ _ hstep hdecides hheard _ => hdecides.hashesComplete hstep hheard)

/-- At HF21 no random value is handled before the hash of its sender. -/
theorem Run.hashesFirst (h : Run setup (fun _ step => step.AtHf21 setup) node) :
    Run setup (fun node step => step.HashesFirst setup node) node := by
  induction h with
  | start => exact .start
  | @step node step hrun hstep ih =>
    have hknows (msg : Message) : node.KnowsHash setup.lib msg := by
      intro hstate
      have hready : .waitForRound ≤ node.state := Nat.le_trans
        (by decide : RoundState.waitForRound ≤ .sendAndWaitForRandomValue) hstate
      exact (hrun.hashesComplete hready).knowsHash (hrun.ready hready) msg hstate
    cases step with
    | deliver msg => exact .step (.deliver msg) ih (hknows msg)
    | pass around => exact .step (.pass around) ih fun msg _ => hknows msg

end

/-- Every value that goes into a block was committed to in the same attempt, at HF21 and
wherever no value is handled before the hash of its sender. -/
theorem seeds_committed (setup : Setup) (node : Node)
    (h : Run setup (fun _ step => step.AtHf21 setup) node ∨
      Run setup (fun node step => step.HashesFirst setup node) node) :
    SeedsCommitted setup.lib node.log := by
  have hfirst : Run setup (fun node step => step.HashesFirst setup node) node :=
    h.elim Run.hashesFirst id
  intro before after values hlog v value hvalue
  obtain ⟨start, around, heard, es, hrun, hstep, hheard, rfl, rfl, hstate, rfl⟩ :=
    hfirst.emitted hlog (by simp)
  have hready : .waitForRound ≤ start.state := by
    rw [← hheard.state_eq, hstate]
    decide
  have hheard' := (hrun.committing hready).hears (hrun.ready hready) hstep hheard
  rw [append_nil]
  exact hheard'.values v value hvalue

instance (setup : Setup) : ∀ step : Step, Decidable (step.AtHf21 setup)
  | .deliver _ => .isTrue trivial
  | .pass _ => inferInstanceAs (Decidable (_ = _))

/-- Steps of eight validators up to the signature of the block. -/
def eightReveal (hashes : List ℕ) (end₁ : Time) (values : List ℕ) (end₂ : Time) : List Step :=
  templateSteps 3 0xff sampleOthers (sampleMessage 3 0 0 (.blockTemplate sampleTemplate [])) ++
    revealSteps 3 hashes end₁ values end₂

/-- A node on the network for development, which is at HF21. -/
def devnetSetup : Setup := { lib := sampleLibrary, net := { nettype := .devnet } }

/-- At HF21 eight validators commit and reveal. -/
theorem seeds_committed_eight :
    let node := Step.runAll devnetSetup (eightReveal sampleOthers 20 sampleOthers 20) {}
    node.log.any (fun event => event matches .seeded _) = true ∧
      SeedsCommitted sampleLibrary node.log := by
  intro node
  have hrun : Run devnetSetup (fun _ step => step.AtHf21 devnetSetup) node :=
    Run.start.append_of_forall _ (by decide +kernel)
  exact ⟨by decide +kernel, seeds_committed devnetSetup node (.inl hrun)⟩

/-- A hash of a validator is among the events. -/
def hasHashOf (v : ℕ) (events : List Event) : Bool :=
  events.any (fun event =>
    match event with
    | .recorded _ _ msg => msg.quorumPosition.toNat = v ∧ msg.payload.type = .randomValueHash
    | _ => false)

theorem Committed.hasHashOf {lib : Library} {events : List Event}
    (h : Committed lib events v value) :
    Pulse.hasHashOf v.val events = true := by
  obtain ⟨curr, number, hashMsg, curr', number', valueMsg, hsub, hsender, hpayload, -⟩ := h
  have hmem := hsub.subset mem_cons_self
  exact any_eq_true.mpr ⟨_, hmem, by simp [hsender, hpayload, Payload.type]⟩

/-- Before HF21 the hash of the eighth validator does not arrive in time. Its value is the first
of the values to arrive and goes into the block all the same. -/
theorem uncommitted_value_seeded :
    let node := Step.runAll sampleSetup (eightReveal [1, 2, 3, 4, 5, 6] 40 [7, 1, 2, 3, 4, 5, 6] 50) {}
    Run sampleSetup (fun _ _ => True) node ∧ ¬ SeedsCommitted sampleLibrary node.log := by
  intro node
  refine ⟨Run.start.append_of_forall _ (fun _ _ => trivial), fun h => ?_⟩
  have hlog : node.log =
      node.log.take 26 ++ .seeded node.transient.randomValue.data :: node.log.drop 27 := by
    decide +kernel
  have hvalue : node.transient.randomValue.data ⟨7, by decide⟩ = some (sampleValue 7) := by
    decide +kernel
  have hhash : hasHashOf 7 (attempt (node.log.take 26)) = false := by decide +kernel
  have hcommitted := (h _ _ _ hlog _ _ hvalue).hasHashOf
  rw [hhash] at hcommitted
  cases hcommitted

end Xeqm.Pulse
