import Xeqm.Lib.Votes
import Xeqm.ServiceNodes.Quorums

/-!
# Blink transactions

`blink_tx`: a transaction with the verdicts that the validators of two subquorums have signed. Each
validator has one slot, and what is in a slot stays there.
-/

namespace Xeqm.Blink

open Cryptonote ServiceNodes

/-- `BLINK_QUORUM_LAG`. -/
def blinkQuorumLag : ℕ := 7 * blinkQuorumInterval

instance : NeZero blinkSubquorumSize := ⟨by decide⟩

/-- `feature::BLINK`. -/
def blinkFeature : Hf := Hf.hf14Blink

/-- `blink_tx::subquorum`. -/
inductive Subquorum
  | base
  | future
  deriving DecidableEq

namespace Subquorum

/-- The subquorums in order. -/
def all : List Subquorum := [base, future]

/-- The number of a subquorum. -/
def index : Subquorum → UInt8
  | base => 0
  | future => 1

/-- The subquorum with a number. -/
def ofIndex (i : UInt8) : Option Subquorum :=
  if i = 0 then some base else if i = 1 then some future else none

theorem mem_all (q : Subquorum) : q ∈ all := by
  cases q <;> decide

@[simp]
theorem ofIndex_index (q : Subquorum) : ofIndex q.index = some q := by
  cases q <;> rfl

end Subquorum

/-- `signature_status`. -/
inductive SignatureStatus
  | none
  | rejected
  | approved
  deriving DecidableEq

/-- The status of a slot with a verdict. -/
def SignatureStatus.ofVerdict (approved : Bool) : SignatureStatus :=
  if approved then .approved else .rejected

/-- `quorum_signature`. -/
structure QuorumSignature where
  status : SignatureStatus := .none
  sig : Signature := 0
  deriving DecidableEq

/-- `blink_tx`, with the hash of its transaction. -/
structure BlinkTx where
  height : UInt64
  txHash : Hash
  signatures : Subquorum → Fin blinkSubquorumSize → QuorumSignature := fun _ _ => {}

/-- `blink_tx::quorum_height`, which is zero early in the chain. -/
def quorumHeight (h : UInt64) (q : Subquorum) : UInt64 :=
  let bh := h - h % UInt64.ofNat blinkQuorumInterval - UInt64.ofNat blinkQuorumLag +
    q.index.toUInt64 * UInt64.ofNat blinkQuorumInterval
  if bh > h then 0 else bh

/-- `blink_tx::hash`: what a validator signs for a verdict. -/
def verdictHash (crypto : Crypto) (height : UInt64) (txHash : Hash) (approved : Bool) : Hash :=
  crypto.cnFastHash (littleEndian 8 height.toNat ++ txHash.bytes ++ [if approved then 1 else 0])

namespace BlinkTx

variable (btx : BlinkTx)

variable (q : Subquorum)

/-- The status of a slot. -/
def status (position : Fin blinkSubquorumSize) : SignatureStatus :=
  (btx.signatures q position).status

/-- The transaction with another entry in one slot. -/
def setSlot (position : Fin blinkSubquorumSize) (entry : QuorumSignature) : BlinkTx :=
  { btx with
    signatures := fun q' position' =>
      if q' = q ∧ position' = position then entry else btx.signatures q' position' }

/-- `limit_signatures`: the slots from a size on are rejections, with no signature. No caller has a
size that is too large, for which the source throws. -/
def limitSignatures (maxSize : ℕ) : BlinkTx :=
  { btx with
    signatures := fun q' position =>
      let entry := btx.signatures q' position
      if q' = q ∧ maxSize ≤ position then { entry with status := .rejected } else entry }

/-- `add_prechecked_signature`. -/
def addPrecheckedSignature (position : Fin blinkSubquorumSize) (approved : Bool) (sig : Signature) :
    Bool × BlinkTx :=
  if btx.status q position ≠ .none then (false, btx)
  else (true, btx.setSlot q position ⟨.ofVerdict approved, sig⟩)

/-- `add_signature`, with nothing for the exception of a signature that does not verify. -/
def addSignature (crypto : Crypto) (q : Subquorum) (position : Fin blinkSubquorumSize)
    (approved : Bool) (sig : Signature) (pubkey : PublicKey) : Option (Bool × BlinkTx) :=
  if crypto.checkSignature (verdictHash crypto btx.height btx.txHash approved) pubkey sig then
    some (btx.addPrecheckedSignature q position approved sig)
  else none

/-- `sig_count`. -/
def sigCount (status : SignatureStatus) : ℕ :=
  (List.finRange blinkSubquorumSize).countP (fun position => btx.status q position = status)

/-- `blink_tx::approved`. -/
def approved : Bool := Subquorum.all.all (fun q => btx.sigCount q .approved ≥ blinkMinVotes)

/-- `blink_tx::rejected`. -/
def rejected : Bool :=
  Subquorum.all.any (fun q => btx.sigCount q .rejected > blinkSubquorumSize - blinkMinVotes)

/-! ## Slots -/

section

variable {btx} {q : Subquorum} {position : Fin blinkSubquorumSize}

/-- The slots of one status in a subquorum. -/
def slots (btx : BlinkTx) (q : Subquorum) (status : SignatureStatus) :
    Finset (Fin blinkSubquorumSize) :=
  Finset.univ.filter (fun position => btx.status q position = status)

theorem mem_slots {status : SignatureStatus} :
    position ∈ btx.slots q status ↔ btx.status q position = status := by
  simp [slots]

theorem sigCount_eq_card (status : SignatureStatus) :
    btx.sigCount q status = (btx.slots q status).card := by
  unfold sigCount slots
  rw [Lib.countP_finRange_eq_card]
  simp

theorem approved_iff : btx.approved = true ↔ ∀ q, blinkMinVotes ≤ (btx.slots q .approved).card := by
  unfold BlinkTx.approved
  simp only [List.all_eq_true, decide_eq_true_eq, sigCount_eq_card]
  exact ⟨fun h q => h q (Subquorum.mem_all q), fun h q _ => h q⟩

theorem rejected_iff : btx.rejected = true ↔
    ∃ q, blinkSubquorumSize - blinkMinVotes < (btx.slots q .rejected).card := by
  unfold BlinkTx.rejected
  simp only [List.any_eq_true, decide_eq_true_eq, sigCount_eq_card]
  exact ⟨fun ⟨q, _, h⟩ => ⟨q, h⟩, fun ⟨q, h⟩ => ⟨q, Subquorum.mem_all q, h⟩⟩

/-- The slots of a subquorum are too few for both verdicts. -/
theorem not_approved_and_rejected : ¬(btx.approved = true ∧ btx.rejected = true) := by
  rintro ⟨happroved, hrejected⟩
  obtain ⟨q, hrejected⟩ := rejected_iff.mp hrejected
  have happroved := approved_iff.mp happroved q
  have hcommon := Lib.card_add_card_le (btx.slots q .approved) (btx.slots q .rejected)
  have hdisjoint : btx.slots q .approved ∩ btx.slots q .rejected = ∅ := by
    refine Finset.eq_empty_of_forall_notMem fun position h => ?_
    obtain ⟨ha, hr⟩ := Finset.mem_inter.mp h
    rw [mem_slots] at ha hr
    rw [ha] at hr
    cases hr
  rw [hdisjoint, Finset.card_empty, Fintype.card_fin] at hcommon
  unfold blinkMinVotes blinkSubquorumSize at *
  omega

/-- Every slot that is taken in one transaction is the same in another. -/
def Extends (btx' btx : BlinkTx) : Prop :=
  ∀ q position, btx.status q position ≠ .none →
    btx'.signatures q position = btx.signatures q position

theorem Extends.refl (btx : BlinkTx) : btx.Extends btx := fun _ _ _ => rfl

variable {btx' : BlinkTx}

theorem Extends.status (h : btx'.Extends btx) (htaken : btx.status q position ≠ .none) :
    btx'.status q position = btx.status q position :=
  congrArg QuorumSignature.status (h q position htaken)

theorem Extends.trans {btx'' : BlinkTx} (h : btx''.Extends btx') (h' : btx'.Extends btx) :
    btx''.Extends btx := by
  intro q position htaken
  rw [h q position (by rwa [h'.status htaken]), h' q position htaken]

/-- A verdict is kept when more slots are taken. -/
theorem Extends.slots_subset (h : btx'.Extends btx) {status : SignatureStatus}
    (hstatus : status ≠ .none) : btx.slots q status ⊆ btx'.slots q status := by
  intro position hmem
  rw [mem_slots] at hmem ⊢
  rw [h.status (by rwa [hmem]), hmem]

theorem Extends.approved (h : btx'.Extends btx) (happroved : btx.approved = true) :
    btx'.approved = true := by
  rw [approved_iff] at happroved ⊢
  intro q
  exact (happroved q).trans (Finset.card_le_card (h.slots_subset (by decide)))

theorem Extends.rejected (h : btx'.Extends btx) (hrejected : btx.rejected = true) :
    btx'.rejected = true := by
  rw [rejected_iff] at hrejected ⊢
  obtain ⟨q, hcount⟩ := hrejected
  exact ⟨q, hcount.trans_le (Finset.card_le_card (h.slots_subset (by decide)))⟩

/-- What a slot holds after a signature was added somewhere. -/
theorem signatures_addPrecheckedSignature (btx : BlinkTx) (q q' : Subquorum)
    (position position' : Fin blinkSubquorumSize) (approved : Bool) (sig : Signature) :
    (btx.addPrecheckedSignature q position approved sig).2.signatures q' position' =
      if (q' = q ∧ position' = position) ∧ btx.status q position = .none then
        ⟨.ofVerdict approved, sig⟩
      else btx.signatures q' position' := by
  unfold addPrecheckedSignature
  by_cases hfree : btx.status q position = .none
  · rw [if_neg (not_not.mpr hfree)]
    simp only [setSlot, hfree, and_true]
  · rw [if_pos hfree, if_neg (fun h => hfree h.2)]

theorem extends_addPrecheckedSignature {btx : BlinkTx} {q : Subquorum}
    {position : Fin blinkSubquorumSize} {approved : Bool} {sig : Signature} :
    (btx.addPrecheckedSignature q position approved sig).2.Extends btx := by
  intro q' position' htaken
  rw [signatures_addPrecheckedSignature, if_neg]
  rintro ⟨⟨rfl, rfl⟩, hfree⟩
  exact htaken hfree

theorem ofVerdict_ne_none {approved : Bool} : SignatureStatus.ofVerdict approved ≠ .none := by
  cases approved <;> decide

/-- The slot of an added signature is taken, by this signature or by another one before it. -/
theorem status_addPrecheckedSignature_ne (btx : BlinkTx) (q : Subquorum)
    (position : Fin blinkSubquorumSize) (approved : Bool) (sig : Signature) :
    (btx.addPrecheckedSignature q position approved sig).2.status q position ≠ .none := by
  unfold status
  rw [signatures_addPrecheckedSignature]
  split
  · exact ofVerdict_ne_none
  · rename_i htaken
    exact fun h => htaken ⟨⟨rfl, rfl⟩, h⟩

end

end BlinkTx

end Xeqm.Blink
