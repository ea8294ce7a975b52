import Xeqm.ServiceNodes.VerifyBlock

/-!
# What verified signatures are

`verify_quorum_signatures` accepts a list of signatures exactly if it has the right
number of them, in order where that is asked for, no voter twice, and each one is good.
-/

namespace Xeqm.ServiceNodes

open Cryptonote Lib List

variable {crypto : Crypto} {quorum : Quorum} {type : QuorumType} {hash : Hash} {block : Option Block}
  {votes : List QuorumSignature} {seen : List UInt16}

/-- A vote of a validator of the quorum, with its signature on the hash. -/
structure ValidVote (crypto : Crypto) (quorum : Quorum) (type : QuorumType) (hash : Hash)
    (block : Option Block) (vote : QuorumSignature) : Prop where
  inRange : vote.voterIndex.toNat < maxQuorumSize
  participates : participates type block vote.voterIndex = true
  signed : ∃ key, quorum.validators[vote.voterIndex.toNat]? = some key ∧
    crypto.checkSignature hash key vote.signature = true

/-- One round of the loop. -/
theorem verifySignatures_cons {ordered : Bool} {vote : QuorumSignature}
    {rest : List QuorumSignature} :
    verifySignatures crypto quorum type ordered hash block seen (vote :: rest) = true ↔
      (ordered = true → ∀ next ∈ rest.head?, vote.voterIndex < next.voterIndex) ∧
      vote.voterIndex ∉ seen ∧ ValidVote crypto quorum type hash block vote ∧
      verifySignatures crypto quorum type ordered hash block (vote.voterIndex :: seen) rest = true := by
  have horder : (ordered = true ∧
      rest.head?.any (fun next => decide (vote.voterIndex ≥ next.voterIndex)) = true) ↔
      ¬ (ordered = true → ∀ next ∈ rest.head?, vote.voterIndex < next.voterIndex) := by
    cases rest.head? with
    | none => simp
    | some => simp
  rw [verifySignatures]
  constructor
  · intro h
    split at h
    · cases h
    rename_i hordered
    split at h
    · cases h
    rename_i key hkey
    split at h
    · cases h
    rename_i hparticipates
    split at h
    · cases h
    split at h
    · cases h
    rename_i hseen
    split at h
    · cases h
    rename_i hsigned
    rw [horder, not_not] at hordered
    refine ⟨hordered, hseen, ⟨by omega, by simpa using hparticipates, key, hkey, ?_⟩, h⟩
    simpa using hsigned
  · rintro ⟨hordered, hseen, ⟨hrange, hparticipates, key, hkey, hsigned⟩, hrest⟩
    rw [if_neg (by rw [horder, not_not]; exact hordered)]
    simp only [hkey]
    simp [hparticipates, hseen, hsigned, hrest, Nat.not_le_of_lt hrange]

/-- The votes that the loop accepts. -/
theorem verifySignatures_iff {ordered : Bool} :
    verifySignatures crypto quorum type ordered hash block seen votes = true ↔
      (ordered = true → votes.Pairwise (fun vote next => vote.voterIndex < next.voterIndex)) ∧
      votes.Pairwise (fun vote next => vote.voterIndex ≠ next.voterIndex) ∧
      ∀ vote ∈ votes, vote.voterIndex ∉ seen ∧ ValidVote crypto quorum type hash block vote := by
  induction votes generalizing seen with
  | nil => simp [verifySignatures]
  | cons vote rest ih =>
    rw [verifySignatures_cons, ih]
    constructor
    · rintro ⟨hfirst, hseen, hvote, hordered, hdistinct, hrest⟩
      refine ⟨fun hord => ?_, ?_, ?_⟩
      · -- the next voter is above this one, and all others above that
        refine pairwise_cons.mpr ⟨fun next hnext => ?_, hordered hord⟩
        cases rest with
        | nil => cases hnext
        | cons second =>
          have hsecond : vote.voterIndex < second.voterIndex := hfirst hord second rfl
          rcases mem_cons.mp hnext with rfl | hnext
          · exact hsecond
          · exact UInt16.lt_trans hsecond ((pairwise_cons.mp (hordered hord)).1 next hnext)
      · refine pairwise_cons.mpr ⟨fun next hnext heq => ?_, hdistinct⟩
        exact (hrest next hnext).1 (heq ▸ mem_cons_self)
      · intro next hnext
        rcases mem_cons.mp hnext with rfl | hnext
        · exact ⟨hseen, hvote⟩
        · exact ⟨fun hmem => (hrest next hnext).1 (mem_cons_of_mem _ hmem), (hrest next hnext).2⟩
    · rintro ⟨hordered, hdistinct, hvotes⟩
      obtain ⟨hne, hdistinct⟩ := pairwise_cons.mp hdistinct
      obtain ⟨hseen, hvote⟩ := hvotes vote mem_cons_self
      refine ⟨fun hord next hnext => ?_, hseen, hvote, fun hord => ?_, hdistinct, ?_⟩
      · exact (pairwise_cons.mp (hordered hord)).1 next (mem_of_mem_head? hnext)
      · exact (pairwise_cons.mp (hordered hord)).2
      · intro next hnext
        obtain ⟨hunseen, hvalid⟩ := hvotes next (mem_cons_of_mem _ hnext)
        refine ⟨fun hmem => ?_, hvalid⟩
        rcases mem_cons.mp hmem with heq | hmem
        · exact hne next hnext heq.symm
        · exact hunseen hmem

/-- Voters in ascending order are different voters. -/
theorem voters_ne_of_lt (h : votes.Pairwise (fun vote next => vote.voterIndex < next.voterIndex)) :
    votes.Pairwise (fun vote next => vote.voterIndex ≠ next.voterIndex) :=
  h.imp fun hlt heq => absurd (heq ▸ hlt) (UInt16.lt_irrefl _)

/-- What `verify_quorum_signatures` accepts for a checkpoint, and what for a Pulse block. -/
theorem verifyQuorumSignatures_iff (crypto : Crypto) (quorum : Quorum) (hfVersion : Hf)
    (hash : Hash) (votes : List QuorumSignature) (block : Option Block) :
    (verifyQuorumSignatures crypto quorum .checkpointing hfVersion hash votes block = true ↔
      (13 ≤ votes.length ∧ votes.length ≤ 20) ∧
      (hfVersion ≥ Hf.hf13EnforceCheckpoints →
        votes.Pairwise (fun vote next => vote.voterIndex < next.voterIndex)) ∧
      votes.Pairwise (fun vote next => vote.voterIndex ≠ next.voterIndex) ∧
      ∀ vote ∈ votes, ValidVote crypto quorum .checkpointing hash block vote) ∧
    (verifyQuorumSignatures crypto quorum .pulse hfVersion hash votes block = true ↔
      (votes.length = 7 ∧
        block.any (fun b => b.pulse.validatorBitset.toNat < 2 ^ pulseQuorumNumValidators)) ∧
      votes.Pairwise (fun vote next => vote.voterIndex < next.voterIndex) ∧
      ∀ vote ∈ votes, ValidVote crypto quorum .pulse hash block vote) := by
  simp only [verifyQuorumSignatures, Bool.and_eq_true, verifySignatures_iff]
  refine ⟨and_congr decide_eq_true_iff (by simp), and_congr decide_eq_true_iff ?_⟩
  constructor
  · rintro ⟨hordered, -, hvotes⟩
    exact ⟨hordered (by simp), fun vote hvote => (hvotes vote hvote).2⟩
  · rintro ⟨hordered, hvotes⟩
    exact ⟨fun _ => hordered, voters_ne_of_lt hordered,
      fun vote hvote => ⟨not_mem_nil, hvotes vote hvote⟩⟩

end Xeqm.ServiceNodes
