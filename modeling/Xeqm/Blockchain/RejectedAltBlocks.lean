import Xeqm.Blockchain.AltBlockChecks
import Xeqm.Blockchain.SwitchFailure

/-!
# Rejected alternative blocks

`handle_alternative_block` stores a block before its last checks, and takes it out again only
where a switch fails on it. A block that one of those checks rejects stays among the
alternative blocks, and later blocks can build on it.
-/

namespace Xeqm.Blockchain

open Cryptonote ServiceNodes Checkpoints Lib List

variable {σ : Type} {rules : Rules σ} {chain after : ChainState σ} {block : Block}
  {checkpoint : Option Checkpoint} {rest : List AltBlock}

/-! ## After a failed switch -/

/-- Abandoning a chain returns only after its last block, and without that block. -/
theorem abandonChain_ok {disconnected : List BlockAndCheckpoint} {splitHeight : ℕ} {alt : AltBlock}
    {later : List AltBlock}
    (h : abandonChain rules disconnected splitHeight alt later chain = .ok () after) :
    later = [] ∧ after.getAltBlock alt.block.hash = none := by
  obtain ⟨complete, s, -, h⟩ := bind_eq_ok_iff.mp h
  rw [modify_bind_run] at h
  obtain ⟨_, removed, hremove, hlater⟩ := bind_eq_ok_iff.mp h
  have hgone : removed.getAltBlock alt.block.hash = none := by
    cases hsome : ((s.addBlockAsInvalid alt.block).getAltBlock alt.block.hash).isSome with
    | true =>
      rw [removeAltBlock_of_some hsome] at hremove
      cases hremove
      exact (getAltBlock_erase rfl).trans (if_pos rfl)
    | false =>
      rw [removeAltBlock_of_none (by simpa using hsome)] at hremove
      cases hremove
  cases later with
  | nil =>
    cases hlater
    exact ⟨rfl, hgone⟩
  | cons next =>
    -- the failed block would have to be removed again
    have hagain : (removed.addBlockAsInvalid next.block).getAltBlock alt.block.hash = none := hgone
    rw [List.forM, bind_assoc, modify_bind_run,
      bind_run_of_error (removeAltBlock_of_none hagain)] at hlater
    cases hlater

/-- A switch that returns false has removed the last block of its chain. -/
theorem switch_false_gone {handleOld : Block → Option Checkpoint → ChainM σ Verdict}
    {init : List AltBlock} {alt : AltBlock} {keep : Bool}
    (hparent : ∀ front rest, init ++ [alt] = front :: rest →
      chain.blockExists front.block.prevId = true)
    (h : switchToAlternativeBlockchain rules handleOld (init ++ [alt]) keep chain =
      .ok false after) : after.getAltBlock alt.block.hash = none := by
  cases hlist : init ++ [alt] with
  | nil => simp at hlist
  | cons front rest =>
    rw [hlist] at h
    unfold switchToAlternativeBlockchain at h
    dsimp only at h
    rw [get_bind_run, hparent front rest hlist] at h
    obtain ⟨disconnected, cut, -, h⟩ := bind_eq_ok_iff.mp h
    rw [get_bind_run] at h
    obtain ⟨_, detached, -, h⟩ := bind_eq_ok_iff.mp h
    obtain ⟨failed, connected, hconnect, h⟩ := bind_eq_ok_iff.mp h
    obtain ⟨-, hsplit⟩ := connectChain_ok hconnect
    cases failed with
    | none =>
      -- a connected chain makes the switch return true
      cases keep with
      | false =>
        obtain ⟨_, s, -, h⟩ := bind_eq_ok_iff.mp h
        cases h
      | true =>
        obtain ⟨_, s, -, h⟩ := bind_eq_ok_iff.mp h
        obtain ⟨_, s', -, h⟩ := bind_eq_ok_iff.mp h
        cases h
    | some failed =>
      obtain ⟨bad, later⟩ := failed
      obtain ⟨_, s, habandon, h⟩ := bind_eq_ok_iff.mp h
      cases h
      obtain ⟨rfl, hgone⟩ := abandonChain_ok habandon
      obtain ⟨before, hbefore⟩ := hsplit bad [] rfl
      rw [← hlist] at hbefore
      obtain ⟨-, hlast⟩ := append_inj' hbefore rfl
      cases hlast
      exact hgone

/-! ## Rejected blocks that stay -/

theorem getAltBlock_eq_none_iff {hash : Hash} :
    chain.getAltBlock hash = none ↔ ∀ alt ∈ chain.altBlocks, alt.block.hash ≠ hash := by
  rw [ChainState.getAltBlock, OrdSet.find?_eq_none_iff]
  exact forall₂_congr fun alt _ => (Ranked.rank_injective.eq_iff).not

/-- The chain for a block starts on its root. -/
theorem front_prevId {ancestors : List AltBlock} {rootHeight : ℕ} {alt front : AltBlock}
    (h : (builtChain chain ancestors rootHeight).chain ++ [alt] = front :: rest) :
    front.block.prevId = rootOf ancestors alt.block.prevId := by
  have hhead := congrArg List.head? h
  rw [builtChain, head?_append, head?_reverse, getLast?_map] at hhead
  unfold rootOf
  cases hlast : ancestors.getLast? with
  | none =>
    rw [hlast] at hhead
    cases hhead
    rfl
  | some last =>
    rw [hlast] at hhead
    cases hhead
    exact congrArg Block.prevId (extendedInfo_block chain.checkpoints last)

/-- The block is stored already, and the checks made before a block is stored reject it. -/
def RejectedWhileStored (rules : Rules σ) (block : Block) (checkpoint : Option Checkpoint)
    (chain : ChainState σ) : Prop :=
  (chain.getAltBlock block.hash).isSome = true ∧
    ∃ verdict after, checkAlternative rules block checkpoint chain = .ok (.error verdict) after ∧
      verdict.rejects

/-- The block passes the checks made before a block is stored, and one of those made afterwards
rejects it, or the blocks of the main chain cannot be read to weigh it. -/
def RejectedOnceStored (rules : Rules σ) (block : Block) (checkpoint : Option Checkpoint)
    (chain : ChainState σ) : Prop :=
  ∃ pending checked,
    checkAlternative rules block checkpoint chain = .ok (.ok pending) checked ∧
    ∃ verdict after, checkStored rules block checkpoint
        { checked with altBlocks := OrdSet.insert pending.alt checked.altBlocks } =
          .ok verdict after ∧
      (verdict = none → pending.choose after = .failed)

/-- No alternative chain holds a block with this hash. -/
def ChainState.NotInAltChains (chain : ChainState σ) (hash : Hash) : Prop :=
  ∀ fuel prevId ancestors, altAncestors chain.altBlocks fuel prevId = some ancestors →
    ∀ alt ∈ ancestors, alt.block.hash ≠ hash

theorem notInAltChains_of_gone {hash : Hash} (h : chain.getAltBlock hash = none) :
    chain.NotInAltChains hash :=
  fun _ _ _ hwalk _ halt => getAltBlock_eq_none_iff.mp h _ (altAncestors_of_mem hwalk halt).1

/-- The chain of a block that passed the first checks stands on the main chain. -/
theorem Checks.front_onMain {pending : Pending}
    (h : Checks rules block checkpoint chain after (.ok pending)) {front : AltBlock}
    (hfront : pending.built.chain ++ [pending.alt] = front :: rest) :
    after.blockExists front.block.prevId = true := by
  cases h with
  | passed _ build _ alt =>
    have hbuilds := buildAltChain_ok build
    generalize hres : (.ok pending.built : Except Verdict BuiltChain) = res at hbuilds
    cases hbuilds with
    | rejected => cases hres
    | built _ onMain rows =>
      rw [Except.ok.inj hres] at hfront
      rw [front_prevId hfront, alt.1, ChainState.blockExists, rows]
      exact onMain

/-- A block the function rejects is gone from the alternative blocks, and from the chains they
make, unless it was stored before, or was rejected only after it was stored. -/
theorem rejected_alt_block_gone_iff {fuel : ℕ}
    (hsame : ∀ row ∈ chain.altBlocks, row.block.hash = block.hash → row.block = block) :
    (∀ verdict after,
        handleAlternativeBlock rules (fuel + 1) block checkpoint chain = .ok verdict after →
        verdict.rejects → after.getAltBlock block.hash = none ∧ after.NotInAltChains block.hash) ↔
      ¬ RejectedWhileStored rules block checkpoint chain ∧
        ¬ RejectedOnceStored rules block checkpoint chain := by
  constructor
  · intro hgone
    refine ⟨?_, ?_⟩
    · rintro ⟨hstored, verdict, after, hcheck, hrejects⟩
      have hrun : handleAlternativeBlock rules (fuel + 1) block checkpoint chain =
          .ok verdict after := by
        unfold handleAlternativeBlock
        rw [bind_run_of_ok hcheck]
        rfl
      obtain ⟨row, hrow⟩ := Option.isSome_iff_exists.mp hstored
      obtain ⟨hmem, hrank⟩ := OrdSet.find?_eq_some_iff.mp hrow
      have hblock := hsame row hmem (Ranked.rank_injective hrank)
      have hnone := getAltBlock_eq_none_iff.mp (hgone verdict after hrun hrejects).1
      cases checkAlternative_ok hcheck with
      | orphan => exact hrejects.elim (fun h => nomatch h) fun h => nomatch h
      | rejected _ loses notOwn =>
        exact hnone row (loses.2.2.2 row hmem (notOwn row hmem hblock)) (by rw [hblock])
    · rintro ⟨pending, checked, hcheck, verdict, after, hstored, hchoose⟩
      obtain ⟨halt, hfresh⟩ := (checkAlternative_ok hcheck).fresh_alt
      obtain ⟨⟨rest, hafter⟩, hrejects⟩ := checkStored_ok hstored
      have hrun : ∃ v, v.rejects ∧
          handleAlternativeBlock rules (fuel + 1) block checkpoint chain = .ok v after := by
        unfold handleAlternativeBlock
        rw [bind_run_of_ok hcheck]
        dsimp only
        rw [bind_run_of_ok (addAltBlock_of_fresh hfresh), bind_run_of_ok hstored]
        cases verdict with
        | some v => exact ⟨v, hrejects v rfl, rfl⟩
        | none =>
          refine ⟨{ result := false }, .inl rfl, ?_⟩
          dsimp only
          rw [get_bind_run, hchoose rfl]
          rfl
      obtain ⟨v, hv, hrun⟩ := hrun
      have hnone := getAltBlock_eq_none_iff.mp (hgone v after hrun hv).1
      refine hnone pending.alt ?_ (by rw [halt])
      rw [hafter]
      exact OrdSet.mem_insert.mpr (.inr ⟨rfl, OrdSet.find?_eq_none_iff.mp hfresh⟩)
  · rintro ⟨hwhile, honce⟩ verdict after hrun hrejects
    suffices hgone : after.getAltBlock block.hash = none from
      ⟨hgone, notInAltChains_of_gone hgone⟩
    obtain ⟨result, checked, hcheck, hrun⟩ := bind_eq_ok_iff.mp hrun
    cases result with
    | error =>
      cases hrun
      have hfresh : chain.getAltBlock block.hash = none := by
        rw [← Option.not_isSome_iff_eq_none]
        exact fun hstored => hwhile ⟨hstored, _, _, hcheck, hrejects⟩
      cases checkAlternative_ok hcheck with
      | orphan same =>
        rw [same]
        exact hfresh
      | rejected _ loses =>
        rw [getAltBlock_eq_none_iff] at hfresh ⊢
        exact fun alt halt => hfresh alt (loses.2.2.1 alt halt)
    | ok pending =>
      have hchecks := checkAlternative_ok hcheck
      obtain ⟨halt, hfresh⟩ := hchecks.fresh_alt
      dsimp only at hrun
      rw [bind_run_of_ok (addAltBlock_of_fresh hfresh)] at hrun
      obtain ⟨stored, s, hstored, hrun⟩ := bind_eq_ok_iff.mp hrun
      obtain ⟨⟨rest, hs⟩, -⟩ := checkStored_ok hstored
      cases stored with
      | some v => exact absurd ⟨pending, checked, hcheck, some v, s, hstored, nofun⟩ honce
      | none =>
        dsimp only at hrun
        rw [get_bind_run] at hrun
        cases hchoose : pending.choose s with
        | failed =>
          exact absurd ⟨pending, checked, hcheck, none, s, hstored, fun _ => hchoose⟩ honce
        | stay =>
          rw [hchoose] at hrun
          cases hrun
          exact hrejects.elim (fun h => nomatch h) fun h => nomatch h
        | switch =>
          rw [hchoose] at hrun
          obtain ⟨switched, s', hswitch, hrun⟩ := bind_eq_ok_iff.mp hrun
          cases switched with
          | true =>
            cases hrun
            exact hrejects.elim (fun h => nomatch h) fun h => nomatch h
          | false =>
            cases hrun
            rw [← halt]
            refine switch_false_gone (fun front rest hfront => ?_) hswitch
            rw [hs]
            exact hchecks.front_onMain hfront

/-- A block on which the switch to its chain fails is gone. -/
theorem rejected_alt_block_gone_after_switch :
    let rules := sampleRules (fun b => b.hash = 4)
    let chain := sampleChain [sampleBlock 1 0 0, sampleBlock 2 1 1] [sampleBlock 3 1 1]
    (returned (handleAlternativeBlock rules 1 (sampleBlock 4 3 2) none chain)).map
        (fun verdict => (verdict.result, verdict.bvc.verificationFailed)) = some (false, true) ∧
      ∀ verdict after,
        handleAlternativeBlock rules 1 (sampleBlock 4 3 2) none chain = .ok verdict after →
        verdict.rejects → after.getAltBlock 4 = none ∧ after.NotInAltChains 4 := by
  refine ⟨by decide +kernel, ?_⟩
  refine (@rejected_alt_block_gone_iff _ _ _ (sampleBlock 4 3 2) _ _ (by decide +kernel)).mpr ⟨?_, ?_⟩
  · rintro ⟨hstored, -⟩
    revert hstored
    decide +kernel
  · rintro ⟨pending, checked, hcheck, verdict, after, hstored, hchoose⟩
    cases hcheck
    cases hstored
    have := hchoose rfl
    revert this
    decide +kernel

/-- The transactions of block 3 are not known when it comes, so that it is rejected. It stays
among the alternative blocks, and with the next block it becomes the main chain. -/
theorem rejected_alt_block_kept :
    let chain := sampleChain [sampleBlock 1 0 0, sampleBlock 2 1 1] []
    let rules := sampleRules (fun _ => false)
    let rejected := handleAlternativeBlock { rules with altBlockTxs := fun _ _ => .unknown } 1
      (sampleBlock 3 1 1) none chain
    let built := handleAlternativeBlock rules 1 (sampleBlock 4 3 2) none (finalState rejected)
    (returned rejected).map Verdict.result = some false ∧
      ((finalState rejected).getAltBlock 3).isSome = true ∧
      (returned built).map Verdict.result = some true ∧
      (finalState built).mainChain.map Block.hash = [1, 3, 4] := by
  decide +kernel

end Xeqm.Blockchain
