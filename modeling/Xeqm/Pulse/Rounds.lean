import Xeqm.Pulse.Handling

/-!
# What holds in a round

Facts about the data of the late stages that every message and every pass keeps: the
bits of a stage are those of the validators whose data arrived, a stage holds nothing
before its time, and every signature is one of the block as it stands.
-/

namespace Xeqm.Pulse

open Cryptonote ServiceNodes Lib

/-- The bits of a stage are those of the validators whose data arrived. -/
structure SendAndWait.Marked {α : Type} (saw : SendAndWait α) : Prop where
  bits : ∀ v : Position, hasBit saw.stage.bitset v = (saw.data v).isSome
  high : ∀ i, pulseQuorumNumValidators ≤ i → hasBit saw.stage.bitset i = false

/-- What holds of a node that has prepared for a round. -/
structure InRound (lib : Library) (node : Node) : Prop where
  hashes : node.transient.randomValueHashes.Marked
  values : node.transient.randomValue.Marked
  signatures : node.transient.blockSignatures.Marked
  noHashes : node.state < .sendAndWaitForRandomValueHashes →
    ∀ v, node.transient.randomValueHashes.data v = none
  noValues : node.state < .sendAndWaitForRandomValue → ∀ v, node.transient.randomValue.data v = none
  noSignatures : node.state < .sendAndWaitForBlockSignatures →
    ∀ v, node.transient.blockSignatures.data v = none
  template : .waitForBlockTemplate < node.state →
    node.transient.templateStage.msgsReceived = 1 ∧ node.transient.block.signatures = []
  hashed : node.state = .sendAndWaitForBlockSignatures →
    node.transient.block.hashValid = true ∧
      node.transient.block.hash = lib.blockHash node.transient.block
  signed : ∀ v signature, node.transient.blockSignatures.data v = some signature →
    hasBit node.participants v = true ∧ ∃ key, node.round.quorum.validators[v.val]? = some key ∧
      lib.crypto.checkSignature (lib.blockHash node.transient.block) key signature = true

namespace SendAndWait.Marked

variable {α : Type} {saw saw' : SendAndWait α}

theorem of_eq (h : saw.Marked) (hdata : saw'.data = saw.data)
    (hbitset : saw'.stage.bitset = saw.stage.bitset) : saw'.Marked := by
  constructor
  · intro v
    rw [hdata, hbitset]
    exact h.bits v
  · intro i hi
    rw [hbitset]
    exact h.high i hi

theorem position_lt (v : Position) : v.val < 16 := by
  have := v.isLt
  simp only [pulseQuorumNumValidators] at this
  omega

/-- One more value sets one more bit. -/
theorem receive (h : saw.Marked) (v : Position) (value : α) :
    SendAndWait.Marked { saw with
      data := Function.update saw.data v (some value)
      stage := saw.stage.receive v } := by
  constructor
  · intro v'
    rw [WaitStage.receive, hasBit_or, hasBit_bitOf (position_lt v), h.bits]
    by_cases heq : v = v'
    · subst heq
      simp
    · have hne : v.val ≠ v'.val := fun hval => heq (Fin.ext hval)
      simp [Function.update_of_ne (Ne.symm heq), hne]
  · intro i hi
    rw [WaitStage.receive, hasBit_or, hasBit_bitOf (position_lt v), h.high i hi]
    have := v.isLt
    simp only [Bool.false_or, decide_eq_false_iff_not]
    omega

end SendAndWait.Marked

/-- A late message that is not dropped is from a validator that takes part. -/
theorem Node.hasBit_of_not_dropped {node : Node} {type : MessageType} {v : Position}
    (h : Node.isDropped type v node = false) (htype : type.isLate = true)
    (hstate : .waitForBlockTemplate < node.state) : hasBit node.participants v = true := by
  simpa [Node.isDropped, htype, hstate] using h

/-- What is there after one more value was that value or there before. -/
theorem update_some_cases {α : Type} {data : Position → Option α} {position v : Position}
    {value value' : α} (h : Function.update data position (some value) v = some value') :
    (v = position ∧ value = value') ∨ data v = some value' := by
  by_cases hv : v = position
  · subst hv
    exact .inl ⟨rfl, by simpa using h⟩
  · rw [Function.update_of_ne hv] at h
    exact .inr h

/-- A stage without data has no bits. -/
theorem marked_empty {α : Type} {stage : WaitStage} {toSend : Option α} (h : stage.bitset = 0) :
    SendAndWait.Marked { toSend, data := fun _ => none, stage } := by
  constructor
  · intro v
    simp [h]
  · intro i _
    simp [h]

namespace InRound

variable {lib : Library} {node node' : Node}

theorem of_sameData (h : InRound lib node) (hsame : SameData node node') : InRound lib node' := by
  have hquorum : node'.round.quorum = node.round.quorum := by rw [hsame.round]
  constructor
  · exact h.hashes.of_eq hsame.hashes hsame.hashBits
  · exact h.values.of_eq hsame.values hsame.valueBits
  · exact h.signatures.of_eq hsame.signatures hsame.signatureBits
  · rw [hsame.state, hsame.hashes]
    exact h.noHashes
  · rw [hsame.state, hsame.values]
    exact h.noValues
  · rw [hsame.state, hsame.signatures]
    exact h.noSignatures
  · rw [hsame.state, hsame.templateReceived, hsame.block]
    exact h.template
  · rw [hsame.state, hsame.block]
    exact h.hashed
  · rw [hsame.signatures, hsame.participants, hquorum, hsame.block]
    exact h.signed

/-- While signatures are collected the hash of the block is known. -/
theorem getBlockHash_eq (h : InRound lib node)
    (hstate : .sendAndWaitForBlockSignatures ≤ node.state) :
    lib.getBlockHash node.transient.block =
      (lib.blockHash node.transient.block, node.transient.block) := by
  obtain ⟨hvalid, hhash⟩ := h.hashed (RoundState.eq_last hstate)
  simp [Library.getBlockHash, hvalid, hhash]

/-- A message keeps what holds in a round. -/
theorem handles {msg : Message} (h : InRound lib node) (hhandles : node.Handles lib msg node') :
    InRound lib node' := by
  cases hhandles with
  | ignored => exact h
  | queued =>
    exact h.of_sameData .enqueue
  | rejected _ _ hready =>
    rw [h.getBlockHash_eq hready]
    exact h
  | recorded position payload t hposition hpayload hready hcheck hlate hparticipates hadds =>
    cases hadds with
    | handshake | handshakeBitset =>
      exact ⟨h.hashes, h.values, h.signatures, h.noHashes, h.noValues, h.noSignatures, h.template,
        h.hashed, h.signed⟩
    | blockTemplate blob txs parsed stateChangeTxs hfirst =>
      -- a template is taken in its own stage only, where nothing was collected yet
      have hstate : ¬ .waitForBlockTemplate < node.state := fun hafter =>
        hfirst (h.template hafter).1
      have hbefore : node.state < .sendAndWaitForBlockSignatures := by
        simp only [RoundState.lt_def, RoundState.toNat] at hstate ⊢
        omega
      have hnone := h.noSignatures hbefore
      refine ⟨h.hashes, h.values, h.signatures, h.noHashes, h.noValues, h.noSignatures,
        fun hafter => absurd hafter hstate, fun hlast => ?_, fun v signature hdata => ?_⟩
      · change node.state = _ at hlast
        rw [hlast] at hbefore
        exact absurd hbefore (Nat.lt_irrefl _)
      · cases (hnone v).symm.trans hdata
    | randomValueHash hash =>
      exact ⟨h.hashes.receive position hash, h.values, h.signatures,
        fun hbefore => absurd hlate (Nat.not_le_of_lt hbefore), h.noValues, h.noSignatures,
        h.template, h.hashed, h.signed⟩
    | randomValue value =>
      exact ⟨h.hashes, h.values.receive position value, h.signatures, h.noHashes,
        fun hbefore => absurd hlate (Nat.not_le_of_lt hbefore), h.noSignatures, h.template,
        h.hashed, h.signed⟩
    | blockSignature signature key hkey hsigned =>
      rw [h.getBlockHash_eq hlate] at hsigned ⊢
      refine ⟨h.hashes, h.values, h.signatures.receive position signature, h.noHashes, h.noValues,
        fun hbefore => absurd hlate (Nat.not_le_of_lt hbefore), h.template, h.hashed, ?_⟩
      intro v signature' hdata
      rcases update_some_cases hdata with ⟨rfl, rfl⟩ | hdata
      · have hbit : hasBit node.participants v = true := by
          apply Node.hasBit_of_not_dropped hparticipates rfl
          rw [RoundState.eq_last hlate]
          decide
        exact ⟨hbit, key, hkey, hsigned⟩
      · exact h.signed v signature' hdata

end InRound

end Xeqm.Pulse
