import Xeqm.Lib.Votes
import Xeqm.Pulse.Records

/-!
# Agreement on who takes part

The validators vote with bitsets, and a node leaves the stage with the bitset that most
of them sent, if seven did. Two nodes then agree as long as no more than two validators
vote differently to different nodes.
-/

namespace Xeqm.Pulse

open Cryptonote ServiceNodes Lib List

/-! ## Counting -/

/-- The validators that voted for a bitset. -/
def votersFor (bitsets : QuorumArray (Option UInt16)) (bitset : UInt16) : Finset Position :=
  Finset.univ.filter (fun v => bitsets v = some bitset)

/-- After the votes of some validators each bitset was seen as often as they sent it, and
the best one no less often than its count says. -/
structure Counts (bitsets : QuorumArray (Option UInt16)) (vs : List Position)
    (counted : List UInt16 × UInt16 × ℕ) : Prop where
  seen : ∀ bitset, counted.1.count bitset = vs.countP (fun v => bitsets v = some bitset)
  best : counted.2.2 ≤ counted.1.count counted.2.1

namespace Counts

variable {bitsets : QuorumArray (Option UInt16)} {vs : List Position}
  {counted : List UInt16 × UInt16 × ℕ}

/-- One more vote. -/
theorem countBitset (h : Counts bitsets vs counted) (v : Position) :
    Counts bitsets (vs ++ [v]) (Node.countBitset counted (bitsets v)) := by
  obtain ⟨seen, best, count⟩ := counted
  obtain ⟨hseen, hbest⟩ := h
  cases hvote : bitsets v with
  | none =>
    refine ⟨fun bitset => ?_, hbest⟩
    rw [countP_append, ← hseen bitset]
    simp [Node.countBitset, hvote]
  | some vote =>
    have hcount (bitset : UInt16) : (vote :: seen).count bitset =
        (vs ++ [v]).countP (fun v => bitsets v = some bitset) := by
      rw [countP_append, ← hseen bitset, count_cons]
      simp [hvote]
    have hmore : seen.count best ≤ (vote :: seen).count best := count_le_count_cons
    simp only [Node.countBitset]
    split
    · exact ⟨hcount, by simp⟩
    · exact ⟨hcount, le_trans hbest hmore⟩

theorem foldl (h : Counts bitsets vs counted) (rest : List Position) :
    Counts bitsets (vs ++ rest)
      (rest.foldl (fun counted v => Node.countBitset counted (bitsets v)) counted) := by
  induction rest generalizing vs counted with
  | nil => simpa using h
  | cons v _ ih => simpa using ih (h.countBitset v)

end Counts

/-- The most common bitset has at least as many voters as its count says. -/
theorem mostCommonBitset_le {bitsets : QuorumArray (Option UInt16)} {best : UInt16} {count : ℕ}
    (h : Node.mostCommonBitset bitsets = (best, count)) : count ≤ (votersFor bitsets best).card := by
  have hcounts : Counts bitsets [] ([], 0, 0) := ⟨fun _ => rfl, le_refl _⟩
  obtain ⟨hseen, hbest⟩ := hcounts.foldl (List.finRange pulseQuorumNumValidators)
  rw [hseen] at hbest
  unfold Node.mostCommonBitset at h
  rw [h, nil_append, countP_finRange_eq_card] at hbest
  simpa [votersFor] using hbest

/-! ## Leaving the stage -/

/-- A node that has left the stage has heard seven votes for the bitset it left with. -/
def Agreed (node : Node) : Prop :=
  .waitForHandshakeBitsets < node.state →
    pulseBlockRequiredSignatures ≤
      (votersFor node.transient.bitsets node.transient.bestBitset).card

section

variable {lib : Library} {setup : Setup} {around : Surroundings} {M : Message → Prop}
  {msg : Message} {node node' : Node}

/-- Votes are not changed later. -/
theorem Agreed.handles (h : Agreed node) (hhandles : node.Handles lib msg node') :
    Agreed node' := by
  intro hstate
  cases hhandles with
  | ignored => exact h hstate
  | queued position =>
    have hsame := @SameData.enqueue node msg.payload.type position msg
    rw [hsame.bitsets, hsame.bestBitset]
    exact h hstate
  | rejected => exact h hstate
  | recorded position _ _ _ _ _ _ _ _ hadds =>
    cases hadds with
    | handshakeBitset bitset hnone =>
      refine le_trans (h hstate) (Finset.card_le_card ?_)
      intro v hv
      have hvote : node.transient.bitsets v = some node.transient.bestBitset :=
        (Finset.mem_filter.mp hv).2
      have hne : v ≠ position := by
        rintro rfl
        rw [hnone] at hvote
        cases hvote
      refine Finset.mem_filter.mpr ⟨Finset.mem_univ v, ?_⟩
      change Function.update node.transient.bitsets position (some bitset) v = _
      rw [Function.update_of_ne hne]
      exact hvote
    | _ => exact h hstate

theorem Agreed.hears (h : Agreed node) (hhears : Hears lib M node node') : Agreed node' := by
  induction hhears with
  | refl => exact h
  | quiet _ hquiet ih =>
    rw [Agreed, hquiet.same.state, hquiet.same.bitsets, hquiet.same.bestBitset]
    exact ih
  | handle _ _ hhandles ih => exact ih.handles hhandles

theorem Decides.agreed (h : Decides setup around node node')
    (hnode : .waitForRound ≤ node.state → Agreed node) : .waitForRound ≤ node'.state →
    Agreed node' := by
  intro hready hstate
  cases h.proceeds_of_ready hready with
  | waits => exact hnode hready hstate
  | prepares =>
    exact absurd hstate (by decide : ¬ RoundState.waitForHandshakeBitsets < .waitForRound)
  | moves _ _ _ hstate' => exact absurd hstate (Nat.not_lt_of_le hstate')
  | agrees _ _ _ _ hbest hcount =>
    exact le_trans hcount (mostCommonBitset_le hbest)
  | accepts hready' =>
    exact hnode (by rw [hready']; decide) (by rw [hready']; decide)
  | collects hready' | finishes hready' =>
    exact hnode (by rw [hready']; decide) (by rw [hready']; decide)
  | restarts _ hready' =>
    have hlate := Nat.lt_trans
      (by decide : RoundState.waitForHandshakeBitsets < .waitForBlockTemplate) hready'
    exact hnode (Nat.le_trans (by decide) (Nat.le_of_lt hready')) hlate

theorem Run.agreed {P : Node → Step → Prop} (h : Run setup P node) :
    .waitForRound ≤ node.state → Agreed node :=
  h.keeps (fun _ _ _ _ _ hhandles hnode => hnode.handles hhandles)
    (fun _ _ _ _ _ hhears hnode => hnode.hears hhears)
    (fun _ _ _ _ _ hdecides hheard => hdecides.agreed hheard)

end

/-! ## Two nodes -/

/-- What the validators send as their bitsets in one round, but for some that do not keep
to it. -/
structure Votes where
  topHash : Hash
  number : UInt8
  sent : Position → UInt16
  exceptions : Finset Position

namespace Votes

variable (votes : Votes)

/-- A payload holds no other bitset than the one a validator sends to everybody. -/
def SentBy (v : Position) : Payload → Prop
  | .handshakeBitset bitset => bitset = votes.sent v
  | _ => True

/-- A message that is handled in the round keeps to what its sender sends. A message of
another round that is handled in this one counts as sent in it. -/
def Keeps (curr : CurrBlock) (number : UInt8) (msg : Message) : Prop :=
  curr.topHash = votes.topHash → number = votes.number →
    ∀ v : Position, v.val = msg.quorumPosition.toNat → v ∉ votes.exceptions →
      votes.SentBy v msg.payload

/-- The bitsets that a node is given and its own one keep to what the validators send. -/
def KeptBy (setup : Setup) (node : Node) : Step → Prop
  | .deliver msg => .waitForRound ≤ node.state →
    setup.lib.msgSignatureCheck msg node.currBlock.topHash node.round.quorum = true →
      votes.Keeps node.currBlock node.round.number msg
  | .pass around => node.state = .sendHandshakeBitsets →
    votes.Keeps node.currBlock node.round.number
      (node.ownMessage setup around
        (.handshakeBitset (Node.handshakeBits node.transient.handshakes)))

variable {votes}

theorem KeptBy.brings {setup : Setup} {node : Node} {step : Step}
    (h : votes.KeptBy setup node step) : step.Brings votes.Keeps setup node := by
  cases step with
  | deliver => exact h
  | pass =>
    intro payload hsends
    cases payload with
    | handshakeBitset =>
      obtain ⟨hstate, rfl⟩ := hsends
      exact h hstate
    | _ => exact fun _ _ _ _ _ => trivial

end Votes

/-- All nodes that leave the stage of a round leave it with the same bitset, if no more than
two validators send different bitsets to different nodes. -/
theorem agreed_bitset_unique (setup : Setup) (votes : Votes) (hfew : votes.exceptions.card ≤ 2)
    (node₁ node₂ : Node)
    (h₁ : Run setup (votes.KeptBy setup) node₁) (h₂ : Run setup (votes.KeptBy setup) node₂)
    (htop₁ : node₁.currBlock.topHash = votes.topHash)
    (htop₂ : node₂.currBlock.topHash = votes.topHash)
    (hnumber₁ : node₁.round.number = votes.number) (hnumber₂ : node₂.round.number = votes.number)
    (hstate₁ : .waitForHandshakeBitsets < node₁.state)
    (hstate₂ : .waitForHandshakeBitsets < node₂.state) :
    node₁.transient.bestBitset = node₂.transient.bestBitset := by
  have hready {node : Node} (hstate : .waitForHandshakeBitsets < node.state) :
      .waitForRound ≤ node.state := Nat.le_trans
    (by decide : RoundState.waitForRound ≤ .waitForHandshakeBitsets) (le_of_lt hstate)
  -- seven of eleven voters twice, but for two exceptions, have a voter in common
  have hcommon : Fintype.card Position + votes.exceptions.card <
      (votersFor node₁.transient.bitsets node₁.transient.bestBitset).card +
        (votersFor node₂.transient.bitsets node₂.transient.bestBitset).card := by
    have hcard : Fintype.card Position = 11 := by decide
    have hseven₁ : 7 ≤ _ := h₁.agreed (hready hstate₁) hstate₁
    have hseven₂ : 7 ≤ _ := h₂.agreed (hready hstate₂) hstate₂
    omega
  obtain ⟨v, hv₁, hv₂, hkeeps⟩ := exists_common_voter hcommon
  have hsent {node : Node} (h : Run setup (votes.KeptBy setup) node)
      (htop : node.currBlock.topHash = votes.topHash) (hnumber : node.round.number = votes.number)
      (hstate : .waitForHandshakeBitsets < node.state)
      (hv : v ∈ votersFor node.transient.bitsets node.transient.bestBitset) :
      node.transient.bestBitset = votes.sent v := by
    obtain ⟨msg, hmem, hsender, hpayload⟩ :=
      (h.logged (hready hstate)).bitsets v _ (Finset.mem_filter.mp hv).2
    have hrecorded := h.allRecorded (fun _ _ hstep => hstep.brings) _ _ msg hmem htop hnumber v
      hsender.symm hkeeps
    rw [hpayload] at hrecorded
    exact hrecorded
  rw [hsent h₁ htop₁ hnumber₁ hstate₁ hv₁, hsent h₂ htop₂ hnumber₂ hstate₂ hv₂]

instance (votes : Votes) (v : Position) : ∀ payload, Decidable (votes.SentBy v payload)
  | .handshakeBitset bitset => inferInstanceAs (Decidable (bitset = votes.sent v))
  | .handshake | .blockTemplate _ _ | .randomValueHash _ | .randomValue _ | .blockSignature _ =>
    .isTrue trivial

instance (votes : Votes) (curr : CurrBlock) (number : UInt8) (msg : Message) :
    Decidable (votes.Keeps curr number msg) :=
  inferInstanceAs (Decidable (_ → _ → ∀ _ : Position, _ → _ → _))

instance (votes : Votes) (setup : Setup) (node : Node) :
    ∀ step, Decidable (votes.KeptBy setup node step)
  | .deliver _ => inferInstanceAs (Decidable (_ → _ → _))
  | .pass _ => inferInstanceAs (Decidable (_ → _))

/-- The first validator has heard of nobody, all others of eight, and the eighth of them
also tells some nodes of ten. -/
def sampleVotes : Votes :=
  { topHash := 3, number := 0
    sent := fun v => if v.val = 0 then 0x01 else 0xff
    exceptions := {⟨7, by decide⟩} }

/-- The first validator, after the votes of seven others. -/
def votedValidator : Node :=
  Step.runAll sampleSetup (handshakeSteps 3 ++
    sampleDeliveries 3 (sampleAround 3 10) (fun _ => .handshakeBitset 0xff) sampleOthers ++
    [.pass (sampleAround 3 20)]) {}

/-- The producer, after the votes of eight validators. -/
def votedProducer : Node :=
  let around now := { sampleAround 3 now with key := sampleKey pulseQuorumNumValidators }
  Step.runAll sampleSetup (List.replicate 5 (.pass (around 0)) ++
    sampleDeliveries 3 (around 0) (fun v => .handshakeBitset (if v = 7 then 0x3ff else 0xff))
      [1, 2, 3, 4, 5, 6, 7, 8] ++ [.pass (around 20)]) {}

/-- Both leave the stage with the bitset of the eight. -/
theorem agreed_bitset_unique_sample :
    votedValidator.transient.bestBitset = 0xff ∧
      votedValidator.transient.bestBitset = votedProducer.transient.bestBitset := by
  refine ⟨by decide +kernel, agreed_bitset_unique sampleSetup sampleVotes ?_ votedValidator
    votedProducer (Run.start.append _ ?_) (Run.start.append _ ?_) ?_ ?_ ?_ ?_ ?_ ?_⟩
  all_goals decide +kernel

end Xeqm.Pulse
