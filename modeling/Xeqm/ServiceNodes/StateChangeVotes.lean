import Xeqm.ServiceNodes.StateChange

/-!
# Whose votes a state change carries

If the stored quorum did not sign a state change, `process_state_change_tx` looks for one among
the alternative states of that height. They are in an `unordered_map`, and the last one that the
loop comes to decides.
-/

namespace Xeqm.ServiceNodes

open Cryptonote Lib List

section

variable {σ : Type} (chain : Chain σ) (known : KnownStates) (block : Block)
  (change : TxExtraServiceNodeStateChange)

/-- The quorum signed a change. -/
def signed (quorum : Option Quorum) : Bool := quorum.any (fun quorum =>
  verifyTxStateChange chain.crypto change block.height quorum block.majorVersion)

/-- The state that is stored for the height of a change. -/
def votedState : Option State :=
  (known.history.find? change.blockHeight.toNat).or (known.archive.find? change.blockHeight.toNat)

/-- The quorum that is stored for the height of a change. -/
def storedQuorum : Option Quorum := (votedState known change).bind (·.quorums.obligations)

/-- The quorums of the alternative states of the height of a change. -/
def altQuorumsIn (order : List (Hash × State)) : List (Option Quorum) :=
  (order.filter (fun e => e.2.height = change.blockHeight.toNat)).map (·.2.quorums.obligations)

/-- The search of `process_state_change_tx`, with the alternative states in any order. -/
def stateChangeQuorumIn (order : List (Hash × State)) : UpdateM (Option Quorum) :=
  match votedState known change with
  | none => pure none
  | some state => do
    let quorum ← derefQuorum state.quorums.obligations
    if verifyTxStateChange chain.crypto change block.height quorum block.majorVersion then
      pure (some quorum)
    else altQuorum chain block change order none

theorem stateChangeQuorum_eq : stateChangeQuorum chain known block change =
    stateChangeQuorumIn chain known block change known.altStates.toList := rfl

/-- The votes of a change are accepted. -/
def AcceptsVotes (order : List (Hash × State)) (w : World) : Prop :=
  ∃ quorum, stateChangeQuorumIn chain known block change order w = .ok (some quorum) w

variable {chain known block change} {order : List (Hash × State)} {w : World}

/-- The last of the quorums decides, if none of them is missing. -/
theorem altQuorum_iff {found : Option Quorum} :
    (∃ quorum, altQuorum chain block change order found w = .ok (some quorum) w) ↔
      none ∉ altQuorumsIn change order ∧
        ((altQuorumsIn change order).getLast?.elim found.isSome (signed chain block change)) := by
  induction order generalizing found with
  | nil => cases found <;> simp [altQuorum, altQuorumsIn, pure, EStateM.pure]
  | cons e rest ih =>
    by_cases hheight : e.2.height = change.blockHeight.toNat
    · have hquorums : altQuorumsIn change (e :: rest) =
          e.2.quorums.obligations :: altQuorumsIn change rest := by simp [altQuorumsIn, hheight]
      rw [hquorums, getLast?_cons, mem_cons, altQuorum, if_neg (not_not.mpr hheight)]
      cases hquorum : e.2.quorums.obligations with
      | none => simp [derefQuorum, throw_bind_run]
      | some =>
        change (∃ q, altQuorum chain block change rest _ w = .ok (some q) w) ↔ _
        rw [ih]
        cases (altQuorumsIn change rest).getLast? <;> simp [signed]
    · have hquorums : altQuorumsIn change (e :: rest) = altQuorumsIn change rest := by
        simp [altQuorumsIn, hheight]
      rw [hquorums, ← ih]
      simp only [altQuorum, if_pos hheight]

theorem acceptsVotes_iff : AcceptsVotes chain known block change order w ↔
    signed chain block change (storedQuorum known change) ∨ storedQuorum known change ≠ none ∧
      none ∉ altQuorumsIn change order ∧
      ∃ last, (altQuorumsIn change order).getLast? = some last ∧ signed chain block change last := by
  unfold AcceptsVotes stateChangeQuorumIn storedQuorum
  cases hstate : votedState known change with
  | none => simp [signed, pure, EStateM.pure]
  | some state =>
    cases hquorum : state.quorums.obligations with
    | none => simp [derefQuorum, throw_bind_run, signed, hquorum]
    | some quorum =>
      simp only [hquorum, derefQuorum, pure_bind, Option.bind_some, signed, Option.any_some]
      split
      · simp_all [pure, EStateM.pure]
      · rw [altQuorum_iff]
        cases (altQuorumsIn change order).getLast? <;> simp_all [signed]

/-- Votes are accepted exactly if the stored quorum or that of an alternative state signed the
change, whatever the order of these states, just if the stored quorum signed it, or no alternative
state of the height did, or there is a stored quorum and all of them did. -/
theorem votes_accepted_iff (chain : Chain σ) (known : KnownStates) (block : Block)
    (change : TxExtraServiceNodeStateChange) (w : World) :
    let stored := storedQuorum known change
    let others := altQuorumsIn change known.altStates.toList
    (∀ order, order.Perm known.altStates.toList →
      (AcceptsVotes chain known block change order w ↔
        signed chain block change stored ∨ ∃ q ∈ others, signed chain block change q)) ↔
    signed chain block change stored ∨ (∀ q ∈ others, ¬ signed chain block change q) ∨
      (stored ≠ none ∧ ∀ q ∈ others, signed chain block change q) := by
  intro stored others
  constructor
  · intro hexact
    by_cases hstored : signed chain block change stored
    · exact .inl hstored
    by_cases hsome : ∃ q ∈ others, signed chain block change q
    · -- each state of the height is the last one in some order
      have hlast : ∀ q ∈ others, stored ≠ none ∧ signed chain block change q := by
        intro q hq
        obtain ⟨e, he, rfl⟩ := mem_map.mp hq
        obtain ⟨hmem, hheight⟩ := mem_filter.mp he
        obtain ⟨before, after, hsplit⟩ := append_of_mem hmem
        have horder : (before ++ after ++ [e]).Perm known.altStates.toList := by
          rw [hsplit]
          exact (perm_append_singleton e _).trans perm_middle.symm
        obtain ⟨hquorum, -, q', hq', hsigned⟩ :=
          (acceptsVotes_iff.mp ((hexact _ horder).mpr (.inr hsome))).resolve_left hstored
        have heq : e.2.quorums.obligations = q' := by simpa [altQuorumsIn, hheight] using hq'
        exact ⟨hquorum, heq ▸ hsigned⟩
      obtain ⟨q, hq, -⟩ := hsome
      exact .inr (.inr ⟨(hlast q hq).1, fun q hq => (hlast q hq).2⟩)
    · exact .inr (.inl (fun q hq hsigned => hsome ⟨q, hq, hsigned⟩))
  · intro hcases order horder
    have hmem : ∀ q, q ∈ altQuorumsIn change order ↔ q ∈ others :=
      fun q => ((horder.filter _).map _).mem_iff
    rw [acceptsVotes_iff]
    refine or_congr_right' fun hstored => ⟨?_, ?_⟩
    · rintro ⟨-, -, q, hq, hsigned⟩
      exact ⟨q, (hmem q).mp (mem_of_getLast? hq), hsigned⟩
    · rintro ⟨q, hq, hsigned⟩
      obtain hstored' | hnone | ⟨hquorum, hall⟩ := hcases
      · exact absurd hstored' hstored
      · exact absurd hsigned (hnone q hq)
      obtain ⟨last, hlast⟩ := Option.isSome_iff_exists.mp
        (getLast?_isSome.mpr (ne_nil_of_mem ((hmem q).mpr hq)))
      refine ⟨hquorum, fun hmissing => ?_, last, hlast, hall _ ((hmem _).mp (mem_of_getLast? hlast))⟩
      exact Bool.noConfusion (hall none ((hmem none).mp hmissing))

end

/-- A state of height 5 with an obligations quorum. -/
def quorumState (quorum : Quorum) : State := { height := 5, quorums := { obligations := quorum } }

/-- A change with the votes of the first seven validators. -/
def votedChange : TxExtraServiceNodeStateChange :=
  { state := .deregister, blockHeight := 5, serviceNodeIndex := 0
    votes := (range 7).map (fun i => { validatorIndex := UInt32.ofNat i, signature := 0 }) }

/-- The first of two alternative states signed the change, the second one decides. -/
theorem signed_change_refused :
    let chain := acceptingChain ⟨.fakechain, []⟩ emptyChainDb
    let block : Block := { majorVersion := Hf.hf12Checkpointing, height := 9, hash := 0 }
    let signer : Quorum := { validators := replicate 10 0, workers := [0] }
    let known : KnownStates :=
      { history := OrdSet.insert (quorumState {}) OrdSet.empty
        altStates := (KeyMap.set OrdSet.empty 1 (quorumState signer)).set 2 (quorumState {}) }
    let w : World := ⟨{}, {}⟩
    signed chain block votedChange signer = true ∧
      stateChangeQuorum chain known block votedChange w = .ok none w :=
  ⟨by decide +kernel, rfl⟩

/-- The votes that the loop accepts are of different validators, who signed the hash. -/
theorem verifyVotes_spec {crypto : Crypto} {hfVersion : Hf} {hash : Hash} {quorum : Quorum}
    {tracker : Int32} {seen : List UInt32} {votes : List StateChangeVote}
    (h : verifyVotes crypto hfVersion hash quorum tracker seen votes = true) :
    votes.Pairwise (fun vote next => vote.validatorIndex ≠ next.validatorIndex) ∧
      ∀ vote ∈ votes, vote.validatorIndex ∉ seen ∧
        ∃ key, quorum.validators[vote.validatorIndex.toNat]? = some key ∧
          crypto.checkSignature hash key vote.signature = true := by
  induction votes generalizing tracker seen with
  | nil => simp
  | cons vote rest ih =>
    rw [verifyVotes] at h
    split at h
    · cases h
    split at h
    · cases h
    rename_i key hkey
    split at h
    · cases h
    rename_i hseen
    split at h
    · cases h
    rename_i hsigned
    obtain ⟨hdistinct, hrest⟩ := ih h
    refine ⟨pairwise_cons.mpr ⟨fun next hnext heq => ?_, hdistinct⟩, fun next hnext => ?_⟩
    · exact (hrest next hnext).1 (heq ▸ mem_cons_self)
    · rcases mem_cons.mp hnext with rfl | hnext
      · exact ⟨hseen, key, hkey, not_not.mp hsigned⟩
      · exact ⟨fun hmem => (hrest next hnext).1 (mem_cons_of_mem _ hmem), (hrest next hnext).2⟩

/-- What an accepted state change carries: votes of seven different validators with their
signatures, a worker of the quorum, and a height that the chain has passed not long ago. -/
theorem verifyTxStateChange_votes (crypto : Crypto) (change : TxExtraServiceNodeStateChange)
    (latestHeight : ℕ) (quorum : Quorum) (hfVersion : Hf)
    (h : verifyTxStateChange crypto change latestHeight quorum hfVersion = true) :
    7 ≤ change.votes.length ∧
    change.votes.Pairwise (fun vote next => vote.validatorIndex ≠ next.validatorIndex) ∧
    (∀ vote ∈ change.votes, ∃ key, quorum.validators[vote.validatorIndex.toNat]? = some key ∧
      crypto.checkSignature (makeStateChangeVoteHash crypto change) key vote.signature = true) ∧
    change.serviceNodeIndex.toNat < quorum.workers.length ∧
    change.blockHeight.toNat < latestHeight ∧
    latestHeight < change.blockHeight.toNat + voteLifetime := by
  unfold verifyTxStateChange at h
  simp only [ite_eq_iff, Bool.false_eq_true, and_false, false_or] at h
  obtain ⟨-, hmin, -, hworker, hnew, hold, hvotes⟩ := h
  obtain ⟨hdistinct, hsigned⟩ := verifyVotes_spec hvotes
  refine ⟨not_lt.mp hmin, hdistinct, fun vote hvote => (hsigned vote hvote).2,
    not_le.mp hworker, not_le.mp hnew, ?_⟩
  -- a sum that wraps is below every later height
  exact (not_le.mp hold).trans_le (Nat.mod_le _ _)

/-- A change that seven validators have signed. -/
theorem votedChange_votes : 7 ≤ votedChange.votes.length :=
  (verifyTxStateChange_votes acceptingCrypto votedChange 9
    { validators := replicate 10 0, workers := [0] } Hf.hf12Checkpointing (by decide +kernel)).1

end Xeqm.ServiceNodes
