import Xeqm.Lib.Votes
import Xeqm.ServiceNodes.QuorumCop
import Xeqm.ServiceNodes.QuorumSignatures

/-!
# Checkpoints that votes make

Whatever votes are handled, a checkpoint that they make carries thirteen good signatures
of different validators; two checkpoints for one height have six signers in common.
-/

namespace Xeqm.ServiceNodes

open Cryptonote Lib Checkpoints List

variable {crypto : Crypto} {quorum : Quorum}

/-- A good signature of a validator on a block. -/
abbrev ValidSignature (crypto : Crypto) (quorum : Quorum) (hash : Hash) (s : QuorumSignature) :
    Prop :=
  ValidVote crypto quorum .checkpointing hash none s

/-- The signatures of a checkpoint are good and in the order of the voters. -/
structure Sound (crypto : Crypto) (quorum : Quorum) (checkpoint : Checkpoint) : Prop where
  sorted : SortedBy voter checkpoint.signatures
  valid : ∀ s ∈ checkpoint.signatures, ValidSignature crypto quorum checkpoint.blockHash s

/-- A checkpoint with enough good signatures. -/
structure Attested (crypto : Crypto) (quorum : Quorum) (checkpoint : Checkpoint) : Prop
    extends Sound crypto quorum checkpoint where
  enough : checkpointMinVotes ≤ checkpoint.signatures.length

/-! ## Votes in the pool -/

/-- The votes of an entry of the pool are good and in the order of the voters. -/
structure VotesOk (crypto : Crypto) (quorum : Quorum) (hash : Hash) (votes : List PoolVoteEntry) :
    Prop where
  sorted : SortedBy PoolVoteEntry.index votes
  valid : ∀ entry ∈ votes, ValidSignature crypto quorum hash entry.quorumSignature

theorem votesOk_nil (hash : Hash) : VotesOk crypto quorum hash [] :=
  ⟨.nil, fun _ h => absurd h not_mem_nil⟩

variable {votes : List PoolVoteEntry} {hash : Hash} {vote : QuorumVote}
  {signatures : List QuorumSignature}

/-- One more good vote. -/
theorem VotesOk.insert {entry : PoolVoteEntry} (h : VotesOk crypto quorum hash votes)
    (hentry : ValidSignature crypto quorum hash entry.quorumSignature) :
    VotesOk crypto quorum hash (insertUnique PoolVoteEntry.index entry votes).1 := by
  refine ⟨insertUnique_sorted h.sorted, fun entry' hmem => ?_⟩
  rcases mem_insertUnique hmem with rfl | hmem
  · exact hentry
  · exact h.valid entry' hmem

namespace VotingPool

section

variable {κ : Type} [DecidableEq κ] {key : κ} {vote : QuorumVote} {entries : List (PoolEntry κ)}
  {P : κ → List PoolVoteEntry → Prop}

theorem setRelayedIn_keeps {index : UInt16} {now : UInt64}
    (hentries : ∀ entry ∈ entries, P entry.key entry.votes)
    (hmark : ∀ votes, P key votes → P key (markSent index now votes)) :
    ∀ entry ∈ setRelayedIn key index now entries, P entry.key entry.votes := by
  induction entries with
  | nil => exact fun entry hmem => absurd hmem not_mem_nil
  | cons head rest ih =>
    obtain ⟨hhead, hrest⟩ := forall_mem_cons.mp hentries
    unfold setRelayedIn
    split
    · rename_i hkey
      subst hkey
      exact forall_mem_cons.mpr ⟨hmark _ hhead, hrest⟩
    · exact forall_mem_cons.mpr ⟨hhead, ih hrest⟩

end

/-- Marking a vote as sent changes no vote. -/
theorem markSent_map_vote (index : UInt16) (now : UInt64) (votes : List PoolVoteEntry) :
    (markSent index now votes).map PoolVoteEntry.vote = votes.map PoolVoteEntry.vote := by
  induction votes with
  | nil => rfl
  | cons _ _ ih =>
    unfold markSent
    split
    · rfl
    · rw [map_cons, map_cons, ih]

end VotingPool

/-- Only the votes themselves count. -/
theorem VotesOk.of_map_vote {votes' : List PoolVoteEntry} (h : VotesOk crypto quorum hash votes)
    (heq : votes'.map PoolVoteEntry.vote = votes.map PoolVoteEntry.vote) :
    VotesOk crypto quorum hash votes' := by
  constructor
  · have hsorted : (votes.map PoolVoteEntry.vote).Pairwise
        (fun a b => a.indexInGroup.toNat < b.indexInGroup.toNat) := pairwise_map.mpr h.sorted
    rw [← heq] at hsorted
    exact (pairwise_map (f := PoolVoteEntry.vote)).mp hsorted
  · intro entry hmem
    have hvote : entry.vote ∈ votes.map PoolVoteEntry.vote := heq ▸ mem_map_of_mem hmem
    obtain ⟨entry', hmem', hsame⟩ := mem_map.mp hvote
    have hvalid := h.valid entry' hmem'
    rwa [PoolVoteEntry.quorumSignature, hsame] at hvalid

/-- A checkpoint vote that is verified is a good signature of a validator. -/
theorem verifyVoteSignature_checkpointing {vvc : VoteVerificationContext}
    (hcontent : vote.content = .checkpointing hash)
    (hsize : quorum.validators.length = checkpointQuorumSize)
    (h : (verifyVoteSignature crypto vote vvc quorum).1 = true) :
    ValidSignature crypto quorum hash
      { voterIndex := vote.indexInGroup, signature := vote.signature } := by
  unfold verifyVoteSignature at h
  cases hgroup : vote.group with
  | invalid => simp [hgroup] at h
  | validator =>
    simp only [hgroup] at h
    cases hkey : quorum.validators[vote.indexInGroup.toNat]? with
    | none => simp [hkey] at h
    | some key =>
      simp only [hkey, verifyValidatorVote, hcontent] at h
      refine ⟨?_, rfl, key, hkey, ?_⟩
      · obtain ⟨hlt, -⟩ := List.getElem?_eq_some_iff.mp hkey
        rw [hsize] at hlt
        exact lt_of_lt_of_le hlt (le_max_left _ _)
      · split at h
        · rename_i hsigned
          exact hsigned
        · cases h
  | worker =>
    simp only [hgroup, hcontent] at h
    split at h <;> cases h

/-! ## Checkpoints from votes -/

/-- Putting the votes into the signatures of a checkpoint. -/
theorem mergeVotes_spec (signatures : List QuorumSignature) (votes : List PoolVoteEntry)
    (hsorted : SortedBy voter signatures) :
    SortedBy voter (mergeVotes signatures votes).1 ∧
      signatures ⊆ (mergeVotes signatures votes).1 ∧
      (∀ entry ∈ votes, ∃ s ∈ (mergeVotes signatures votes).1, voter s = entry.index) ∧
      ∀ s ∈ (mergeVotes signatures votes).1,
        s ∈ signatures ∨ ∃ entry ∈ votes, s = entry.quorumSignature := by
  unfold mergeVotes
  generalize false = updated
  induction votes generalizing signatures updated with
  | nil =>
    exact ⟨hsorted, .refl _, fun entry h => absurd h not_mem_nil, fun s hs => .inl hs⟩
  | cons entry _ ih =>
    have hinserted : SortedBy voter (insertUnique voter entry.quorumSignature signatures).1 :=
      insertUnique_sorted hsorted
    obtain ⟨hsorted', hsub, hkeys, hmem⟩ := ih _ hinserted
      (updated || (insertUnique voter entry.quorumSignature signatures).2)
    refine ⟨hsorted', Subset.trans subset_insertUnique hsub, ?_, ?_⟩
    · intro entry' hentry'
      rcases mem_cons.mp hentry' with rfl | hentry'
      · obtain ⟨s, hs, hkey⟩ := @exists_key_insertUnique _ _ _ voter entry'.quorumSignature signatures
        exact ⟨s, hsub hs, hkey⟩
      · exact hkeys entry' hentry'
    · intro s hs
      rcases hmem s hs with hs | ⟨entry', hentry', rfl⟩
      · rcases mem_insertUnique hs with rfl | hs
        · exact .inr ⟨entry, mem_cons_self, rfl⟩
        · exact .inl hs
      · exact .inr ⟨entry', mem_cons_of_mem _ hentry', rfl⟩

/-- Signatures in order stay as they are. -/
theorem sortSignatures_eq (h : SortedBy voter signatures) :
    Store.sortSignatures signatures = signatures := by
  apply Pairwise.insertionSort_eq
  exact h.imp fun hlt => le_of_lt hlt

variable {chainHeight : UInt64}

variable {vote : QuorumVote} {existing : Option Checkpoint} {checkpoint : Checkpoint}

/-- Votes make a checkpoint of their own, or are merged into the one that is there. -/
theorem checkpointOfVotes_cases
    (h : checkpointOfVotes chainHeight vote hash votes existing = some checkpoint) :
    checkpoint = { makeEmptyServiceNodeCheckpoint hash vote.blockHeight.toNat with
        signatures := votes.map PoolVoteEntry.quorumSignature } ∨
      ∃ c ∈ existing, c.blockHash = hash ∧ checkpoint = { c with
        signatures := (mergeVotes (Store.sortSignatures c.signatures) votes).1 } := by
  unfold checkpointOfVotes at h
  grind

/-- The checkpoint that votes make is for their height, if what it extends is. -/
theorem checkpointOfVotes_height (hexisting : ∀ c ∈ existing, c.height = vote.blockHeight.toNat)
    (h : checkpointOfVotes chainHeight vote hash votes existing = some checkpoint) :
    checkpoint.height = vote.blockHeight.toNat := by
  obtain rfl | ⟨c, hc, -, rfl⟩ := checkpointOfVotes_cases h
  · rfl
  · exact hexisting c hc

/-- The checkpoint that good votes make is attested, if what it extends is sound. -/
theorem checkpointOfVotes_attested (hvotes : VotesOk crypto quorum hash votes)
    (hmin : checkpointMinVotes ≤ votes.length) (hexisting : ∀ c ∈ existing, Sound crypto quorum c)
    (h : checkpointOfVotes chainHeight vote hash votes existing = some checkpoint) :
    Attested crypto quorum checkpoint := by
  obtain rfl | ⟨c, hc, rfl, rfl⟩ := checkpointOfVotes_cases h
  · refine { sorted := ?_, valid := fun s hs => ?_, enough := by simpa using hmin }
    · exact pairwise_map.mpr hvotes.sorted
    · obtain ⟨entry, hentry, rfl⟩ := mem_map.mp hs
      exact hvotes.valid entry hentry
  · have hsound := hexisting c hc
    rw [sortSignatures_eq hsound.sorted]
    obtain ⟨hsorted, -, hkeys, hmem⟩ := mergeVotes_spec c.signatures votes hsound.sorted
    refine { sorted := hsorted, valid := fun s hs => ?_, enough := ?_ }
    · rcases hmem s hs with hs | ⟨entry, hentry, rfl⟩
      · exact hsound.valid s hs
      · exact hvotes.valid entry hentry
    · exact le_trans hmin (hvotes.sorted.length_le hkeys)

/-! ## The store -/

/-- What a stored checkpoint for the height is: its voters differ, its signatures are good,
and one of service nodes has enough of them. -/
structure RowOk (crypto : Crypto) (quorum : Quorum) (checkpoint : Checkpoint) : Prop where
  distinct : (checkpoint.signatures.map QuorumSignature.voterIndex).Nodup
  valid : ∀ s ∈ checkpoint.signatures, ValidSignature crypto quorum checkpoint.blockHash s
  enough : checkpoint.type = .serviceNode → checkpointMinVotes ≤ checkpoint.signatures.length

/-- Different voters in order are in strict order. -/
theorem sortedBy_sortSignatures (h : (signatures.map QuorumSignature.voterIndex).Nodup) :
    SortedBy voter (Store.sortSignatures signatures) := by
  have hperm : (Store.sortSignatures signatures).Perm signatures := perm_insertionSort _ _
  have hsorted : (Store.sortSignatures signatures).Pairwise (fun a b => voter a ≤ voter b) :=
    pairwise_insertionSort _ _
  have hdistinct : (Store.sortSignatures signatures).Pairwise
      (fun a b => a.voterIndex ≠ b.voterIndex) :=
    pairwise_map.mp ((hperm.map _).nodup_iff.mpr h)
  refine (hsorted.and hdistinct).imp ?_
  rintro a b ⟨hle, hne⟩
  exact Nat.lt_of_le_of_ne hle fun heq => hne (UInt16.toNat_inj.mp heq)

/-- The row of one height is good. -/
def StoreOk (crypto : Crypto) (quorum : Quorum) (height : ℕ) (store : Store) : Prop :=
  ∀ row ∈ store.rows, row.height = height → RowOk crypto quorum row

section

variable {height : ℕ} {store : Store} {checkpoint : Checkpoint}

section

variable (h : StoreOk crypto quorum height store)

include h

/-- What is read of the row for the height. -/
theorem StoreOk.getBlockCheckpoint (hget : store.getBlockCheckpoint height = some checkpoint) :
    Sound crypto quorum checkpoint ∧
      (checkpoint.type = .serviceNode → checkpointMinVotes ≤ checkpoint.signatures.length) := by
  obtain ⟨row, hrow, rfl⟩ := Option.map_eq_some_iff.mp hget
  obtain ⟨hmem, hheight⟩ := OrdSet.find?_eq_some_iff.mp hrow
  obtain ⟨hdistinct, hvalid, henough⟩ := h row hmem hheight
  have hperm : (Store.sortSignatures row.signatures).Perm row.signatures := perm_insertionSort _ _
  refine ⟨⟨sortedBy_sortSignatures hdistinct, ?_⟩, ?_⟩
  · exact fun s hs => hvalid s (hperm.mem_iff.mp hs)
  · exact fun htype => (henough htype).trans_eq hperm.length_eq.symm

/-- Storing a checkpoint that is good if it is for the height. -/
theorem StoreOk.updateCheckpoint (hcheckpoint : checkpoint.height = height →
      (∀ s ∈ checkpoint.signatures, ValidSignature crypto quorum checkpoint.blockHash s) ∧
      (checkpoint.type = .serviceNode → checkpointMinVotes ≤ checkpoint.signatures.length)) :
    StoreOk crypto quorum height (store.updateCheckpoint checkpoint).2 := by
  intro row hrow hheight
  rcases Store.mem_updateCheckpoint hrow with hrow | ⟨rfl, hdistinct⟩
  · exact h row hrow hheight
  · exact ⟨hdistinct, (hcheckpoint hheight).1, (hcheckpoint hheight).2⟩

theorem StoreOk.removeBlockCheckpoint (removed : ℕ) :
    StoreOk crypto quorum height (store.removeBlockCheckpoint removed) :=
  fun row hrow => h row (OrdSet.mem_erase.mp hrow).1

theorem StoreOk.addCheckpoint (fixed : ℕ) (hash : Hash) :
    StoreOk crypto quorum height (store.addCheckpoint fixed hash).2 := by
  unfold Store.addCheckpoint
  split
  · exact h
  · exact h.updateCheckpoint fun _ => ⟨fun s hs => absurd hs not_mem_nil, nofun⟩

end

/-- A verified checkpoint is good. -/
theorem verifyCheckpoint_valid {hfVersion : Hf}
    (h : verifyCheckpoint crypto hfVersion checkpoint quorum = true) :
    (∀ s ∈ checkpoint.signatures, ValidSignature crypto quorum checkpoint.blockHash s) ∧
      (checkpoint.type = .serviceNode → checkpointMinVotes ≤ checkpoint.signatures.length) := by
  unfold verifyCheckpoint at h
  cases htype : checkpoint.type with
  | serviceNode =>
    simp only [htype, Bool.and_eq_true, verifyQuorumSignatures, hasQuorumShape,
      decide_eq_true_eq] at h
    obtain ⟨-, ⟨hmin, -⟩, hloop⟩ := h
    exact ⟨fun s hs => ((verifySignatures_iff.mp hloop).2.2 s hs).2, fun _ => hmin⟩
  | hardcoded =>
    simp only [htype, decide_eq_true_eq, length_eq_zero_iff] at h
    refine ⟨fun s hs => absurd (h ▸ hs) not_mem_nil, fun htype => ?_⟩
    cases htype

end

/-! ## Runs -/

/-- What every run keeps, for a height with a fixed quorum. -/
structure CopOk (crypto : Crypto) (quorum : Quorum) (height : UInt64) (cop : QuorumCop) :
    Prop where
  pool : ∀ entry ∈ cop.votePool.checkpointPool, entry.key.height = height →
    VotesOk crypto quorum entry.key.hash entry.votes
  store : StoreOk crypto quorum height.toNat cop.checkpoints
  stored : ∀ checkpoint ∈ cop.stored, checkpoint.height = height.toNat →
    Attested crypto quorum checkpoint

section

variable {height : UInt64} {cop : QuorumCop}

section

variable (h : CopOk crypto quorum height cop)

include h

/-- A verified checkpoint vote in the pool. -/
theorem CopOk.addVote (hvote : vote.blockHeight = height → ValidSignature crypto quorum hash
      { voterIndex := vote.indexInGroup, signature := vote.signature }) :
    let added := VotingPool.addVote { height := vote.blockHeight, hash } vote
      cop.votePool.checkpointPool
    (∀ entry ∈ added.1, entry.key.height = height →
      VotesOk crypto quorum entry.key.hash entry.votes) ∧
      (vote.blockHeight = height → VotesOk crypto quorum hash added.2.1) :=
  VotingPool.addVote_keeps
    (P := fun (key : CheckpointKey) votes =>
      key.height = height → VotesOk crypto quorum key.hash votes)
    h.pool (fun _ => votesOk_nil hash) fun _ hvotes hheight => (hvotes hheight).insert (hvote hheight)

/-- Enough good votes in the pool. -/
theorem CopOk.handleCheckpointVote
    (hvotes : vote.blockHeight = height → VotesOk crypto quorum hash votes) :
    CopOk crypto quorum height (handleCheckpointVote chainHeight vote hash votes cop) := by
  unfold ServiceNodes.handleCheckpointVote
  split
  · exact h
  rename_i hmin
  dsimp only
  split
  · exact h
  rename_i checkpoint hmade
  have hattested : checkpoint.height = height.toNat → Attested crypto quorum checkpoint := by
    intro hheight
    have hsame : checkpoint.height = vote.blockHeight.toNat :=
      checkpointOfVotes_height (fun c hc => Store.height_of_getBlockCheckpoint hc) hmade
    obtain rfl : vote.blockHeight = height := UInt64.toNat_inj.mp (hsame.symm.trans hheight)
    refine checkpointOfVotes_attested (hvotes rfl) (not_lt.mp hmin) (fun c hc => ?_) hmade
    exact (h.store.getBlockCheckpoint hc).1
  refine ⟨h.pool, h.store.updateCheckpoint (fun hheight => ?_), ?_⟩
  · exact ⟨(hattested hheight).valid, fun _ => (hattested hheight).enough⟩
  · intro c hc hheight
    rcases mem_append.mp hc with hc | hc
    · exact h.stored c hc hheight
    · obtain rfl := mem_singleton.mp hc
      exact hattested hheight

/-- A vote. -/
theorem CopOk.handleVote {around : VoteSurroundings}
    (hsize : quorum.validators.length = checkpointQuorumSize)
    (hquorum : ∀ q, around.getQuorum .checkpointing height = some q → q = quorum) :
    CopOk crypto quorum height (handleVote crypto around vote cop).2.2 := by
  unfold ServiceNodes.handleVote
  dsimp only
  split
  · exact h
  cases hget : around.getQuorum vote.content.type vote.blockHeight with
  | none => exact h
  | some q =>
    dsimp only
    split
    · exact h
    rename_i hsigned
    simp only [Bool.not_eq_true', Bool.not_eq_false] at hsigned
    cases hcontent : vote.content with
    | obligations =>
      simp only [VotingPool.addPoolVoteIfUnique, hcontent]
      split
      · exact ⟨h.pool, h.store, h.stored⟩
      · exact ⟨h.pool, h.store, h.stored⟩
    | checkpointing hash =>
      have hvalid : vote.blockHeight = height → ValidSignature crypto quorum hash
          { voterIndex := vote.indexInGroup, signature := vote.signature } := by
        rintro rfl
        obtain rfl := hquorum q (by rw [← hget, hcontent]; rfl)
        exact verifyVoteSignature_checkpointing hcontent hsize hsigned
      obtain ⟨hpool, hvotes⟩ := h.addVote hvalid
      simp only [VotingPool.addPoolVoteIfUnique, hcontent]
      split
      · exact ⟨hpool, h.store, h.stored⟩
      · refine CopOk.handleCheckpointVote ?_ hvotes
        exact ⟨hpool, h.store, h.stored⟩
    | blink | pulse =>
      simp only [VotingPool.addPoolVoteIfUnique, hcontent]
      split
      · exact h
      · exact h

end

/-- Marking votes as sent. -/
theorem setRelayed_keeps {pool : VotingPool} {votes : List QuorumVote} {now : UInt64}
    (h : ∀ entry ∈ pool.checkpointPool, entry.key.height = height →
      VotesOk crypto quorum entry.key.hash entry.votes) :
    ∀ entry ∈ (pool.setRelayed votes now).checkpointPool, entry.key.height = height →
      VotesOk crypto quorum entry.key.hash entry.votes := by
  unfold VotingPool.setRelayed
  induction votes generalizing pool with
  | nil => exact h
  | cons vote _ ih =>
    rw [foldl_cons]
    apply ih
    cases hcontent : vote.content with
    | checkpointing hash =>
      refine VotingPool.setRelayedIn_keeps (P := fun (key : CheckpointKey) votes =>
      key.height = height → VotesOk crypto quorum key.hash votes) h ?_
      intro votes hvotes hheight
      exact (hvotes hheight).of_map_vote (VotingPool.markSent_map_vote _ _ _)
    | obligations => exact h
    | blink => exact h
    | pulse => exact h

section

variable (h : CopOk crypto quorum height cop)
  (hsize : quorum.validators.length = checkpointQuorumSize)

include h hsize

/-- One step. -/
theorem CopOk.step {step : CopStep} (hsame : step.SameQuorum quorum height) :
    CopOk crypto quorum height (step.run crypto cop) := by
  cases step with
  | vote => exact h.handleVote hsize hsame
  | expire =>
    refine ⟨fun entry hentry => ?_, h.store, h.stored⟩
    exact h.pool entry (mem_of_mem_filter hentry)
  | used => exact ⟨h.pool, h.store, h.stored⟩
  | relayed => exact ⟨setRelayed_keeps h.pool, h.store, h.stored⟩
  | restart => exact ⟨fun entry hentry => absurd hentry not_mem_nil, h.store, h.stored⟩
  | attached hfVersion q checkpoint =>
    dsimp only [CopStep.run]
    split
    · rename_i hverified
      refine ⟨h.pool, h.store.updateCheckpoint (fun hheight => ?_), h.stored⟩
      obtain rfl := hsame hheight
      exact verifyCheckpoint_valid hverified
    · exact h
  | fixed fixed hash => exact ⟨h.pool, h.store.addCheckpoint fixed hash, h.stored⟩
  | removed removed => exact ⟨h.pool, h.store.removeBlockCheckpoint removed, h.stored⟩

/-- Every run. -/
theorem CopOk.runAll {steps : List CopStep}
    (hsame : ∀ step ∈ steps, step.SameQuorum quorum height) :
    CopOk crypto quorum height (CopStep.runAll crypto steps cop) := by
  induction steps generalizing cop with
  | nil => exact h
  | cons step _ ih =>
    obtain ⟨hstep, hrest⟩ := forall_mem_cons.mp hsame
    exact ih (h.step hsize hstep) hrest

end

/-- Nothing is there at the start. -/
theorem copOk_empty : CopOk crypto quorum height {} where
  pool _ hentry := absurd hentry not_mem_nil
  store _ he := absurd he not_mem_nil
  stored _ hc := absurd hc not_mem_nil

end

/-! ## Signers in common -/

/-- The validators whose signatures on its block a checkpoint carries. -/
def signers (crypto : Crypto) (quorum : Quorum) (checkpoint : Checkpoint) :
    Finset (Fin checkpointQuorumSize) :=
  Finset.univ.filter (fun v => ∃ s ∈ checkpoint.signatures, voter s = v ∧
    (quorum.validators[v.val]?).any (fun key =>
      crypto.checkSignature checkpoint.blockHash key s.signature) = true)

/-- Every signature of an attested checkpoint is of another signer. -/
theorem Attested.le_card_signers (h : Attested crypto quorum checkpoint)
    (hsize : quorum.validators.length = checkpointQuorumSize) :
    checkpointMinVotes ≤ (signers crypto quorum checkpoint).card := by
  have hsub : ∀ s ∈ checkpoint.signatures,
      ∃ v ∈ (signers crypto quorum checkpoint).toList, v.val = voter s := by
    intro s hs
    obtain ⟨-, -, key, hkey, hsigned⟩ := h.valid s hs
    obtain ⟨hlt, -⟩ := List.getElem?_eq_some_iff.mp hkey
    refine ⟨⟨voter s, hsize ▸ hlt⟩, ?_, rfl⟩
    rw [Finset.mem_toList, signers, Finset.mem_filter]
    refine ⟨Finset.mem_univ _, s, hs, rfl, ?_⟩
    exact (Option.any_eq_true _ _).mpr ⟨key, hkey, hsigned⟩
  calc checkpointMinVotes
      ≤ checkpoint.signatures.length := h.enough
    _ ≤ (signers crypto quorum checkpoint).toList.length := h.sorted.length_le hsub
    _ = (signers crypto quorum checkpoint).card := Finset.length_toList _

/-- In every run that takes one quorum of twenty for a height, the checkpoint of service nodes
that is stored for the height, and whatever the votes have stored for it, carry thirteen good
signatures in strict order; and for two different blocks of that height six validators have
signed both. -/
theorem voted_checkpoints_attested (crypto : Crypto) (quorum : Quorum) (height : UInt64)
    (hsize : quorum.validators.length = checkpointQuorumSize) (steps : List CopStep)
    (hsame : ∀ step ∈ steps, step.SameQuorum quorum height) :
    let cop := CopStep.runAll crypto steps {}
    (∀ checkpoint, cop.checkpoints.getBlockCheckpoint height.toNat = some checkpoint →
      checkpoint.type = .serviceNode → Attested crypto quorum checkpoint) ∧
    (∀ checkpoint ∈ cop.stored, checkpoint.height = height.toNat →
      Attested crypto quorum checkpoint) ∧
    ∀ one ∈ cop.stored, ∀ other ∈ cop.stored, one.height = height.toNat →
      other.height = height.toNat → one.blockHash ≠ other.blockHash →
      6 ≤ (signers crypto quorum one ∩ signers crypto quorum other).card := by
  intro cop
  have hok : CopOk crypto quorum height cop := copOk_empty.runAll hsize hsame
  refine ⟨?_, hok.stored, ?_⟩
  · intro checkpoint hget htype
    obtain ⟨hsound, henough⟩ := hok.store.getBlockCheckpoint hget
    exact { hsound with enough := henough htype }
  · intro one hone other hother hheight hheight' _
    -- thirteen and thirteen of twenty
    have hone := (hok.stored one hone hheight).le_card_signers hsize
    have hother := (hok.stored other hother hheight').le_card_signers hsize
    have hcommon := card_add_card_le (signers crypto quorum one) (signers crypto quorum other)
    rw [Fintype.card_fin] at hcommon
    have hmin : checkpointMinVotes = 13 := rfl
    have hquorum : checkpointQuorumSize = 20 := rfl
    omega

/-- Twenty validators. -/
def sampleValidators : Quorum :=
  { validators := (List.range 20).map (fun v => BitVec.ofNat _ (v + 1)), workers := [] }

/-- Votes of the validators from one on for a block of height 100. -/
def sampleVotes (hash : Hash) (first count : ℕ) : List CopStep :=
  (List.range count).map (fun v => .vote
    { chainHeight := 110, getQuorum := fun _ _ => some sampleValidators }
    { blockHeight := 100
      group := .validator
      indexInGroup := UInt16.ofNat (first + v)
      signature := default
      content := .checkpointing hash })

/-- The first thirteen validators vote for one block, the last thirteen for another. -/
theorem voted_checkpoints_attested_twice :
    let cop := CopStep.runAll acceptingCrypto (sampleVotes 1 0 13 ++ sampleVotes 2 7 13) {}
    cop.stored.map Checkpoint.blockHash = [1, 2] ∧
      ∀ one ∈ cop.stored, ∀ other ∈ cop.stored, one.height = 100 → other.height = 100 →
        one.blockHash ≠ other.blockHash →
        6 ≤ (signers acceptingCrypto sampleValidators one ∩
          signers acceptingCrypto sampleValidators other).card := by
  refine ⟨by decide +kernel, ?_⟩
  refine (voted_checkpoints_attested acceptingCrypto sampleValidators 100 (by decide) _ ?_).2.2
  intro step hstep
  have hvote : ∃ ballot, step = .vote
      { chainHeight := 110, getQuorum := fun _ _ => some sampleValidators } ballot := by
    rcases mem_append.mp hstep with hstep | hstep
    · obtain ⟨v, -, rfl⟩ := mem_map.mp hstep
      exact ⟨_, rfl⟩
    · obtain ⟨v, -, rfl⟩ := mem_map.mp hstep
      exact ⟨_, rfl⟩
  obtain ⟨ballot, rfl⟩ := hvote
  intro q hq
  exact (Option.some.inj hq).symm

end Xeqm.ServiceNodes
