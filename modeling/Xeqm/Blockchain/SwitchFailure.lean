import Xeqm.Blockchain.Effects

/-!
# A switch that fails

When a block of the alternative chain is not accepted, the switch is rolled back and the
failed block is removed from the alternative blocks. The loop over the blocks after it tries
to remove the failed block again, so with one such block the switch ends in an exception and
the later blocks stay.
-/

namespace Xeqm.Blockchain

open Cryptonote ServiceNodes Checkpoints Lib List

variable {σ : Type} {rules : Rules σ} {chain after : ChainState σ}

/-! ## The parts of a switch -/

variable {hash : Hash}

/-- What is popped was on top of the main chain. -/
theorem popUntil_ok {fuel : ℕ} {disconnected result : List BlockAndCheckpoint}
    (h : popUntil rules hash fuel disconnected chain = .ok result after) :
    ∃ popped, result = popped ++ disconnected ∧
      chain.mainChain = after.mainChain ++ popped.map BlockAndCheckpoint.block := by
  induction fuel generalizing disconnected chain with
  | zero => cases h
  | succ _ ih =>
    unfold popUntil at h
    rw [get_bind_run] at h
    split at h
    · cases h
      exact ⟨[], rfl, by simp⟩
    · obtain ⟨block, cut, hpop, h⟩ := bind_eq_ok_iff.mp h
      obtain ⟨popped, rfl, hmain⟩ := ih h
      refine ⟨popped ++ [⟨block, cut.checkpoints.store.getBlockCheckpoint block.height⟩], by simp, ?_⟩
      rw [popBlockFromDb_ok hpop, hmain, map_append, append_assoc]
      rfl

/-- Popping down to a height cuts the main chain there. -/
theorem popToHeight_ok {height fuel : ℕ} (h : popToHeight rules height fuel chain = .ok () after) :
    after.height = height ∧ ∃ popped, chain.mainChain = after.mainChain ++ popped := by
  induction fuel generalizing chain with
  | zero => cases h
  | succ fuel ih =>
    unfold popToHeight at h
    rw [get_bind_run] at h
    split at h
    · rename_i hheight
      cases h
      exact ⟨hheight, [], by simp⟩
    · obtain ⟨block, cut, hpop, h⟩ := bind_eq_ok_iff.mp h
      obtain ⟨hheight, popped, hmain⟩ := ih h
      refine ⟨hheight, popped ++ [block], ?_⟩
      rw [popBlockFromDb_ok hpop, hmain, append_assoc]

variable {complete : Bool} {entries : List BlockAndCheckpoint}

/-- The blocks that are added again, all of them or not. -/
theorem readdChain_ok (h : readdChain rules entries chain = .ok complete after) :
    (complete = true ∧ after.mainChain = chain.mainChain ++ entries.map BlockAndCheckpoint.block) ∨
      (complete = false ∧ after.mainChain.length < chain.mainChain.length + entries.length) := by
  induction entries generalizing chain with
  | nil =>
    cases h
    exact .inl ⟨rfl, by simp⟩
  | cons entry rest ih =>
    obtain ⟨verdict, added, hhandle, h⟩ := bind_eq_ok_iff.mp h
    rcases handleBlockToMainChain_ok hhandle with ⟨haccepted, hmain⟩ | ⟨hnot, hmain⟩
    · rw [if_pos haccepted] at h
      rcases ih h with ⟨hcomplete, hafter⟩ | ⟨hcomplete, hafter⟩
      · exact .inl ⟨hcomplete, by rw [hafter, hmain, append_assoc]; rfl⟩
      · refine .inr ⟨hcomplete, ?_⟩
        rw [hmain, length_append, length_singleton] at hafter
        rw [length_cons]
        omega
    · rw [if_neg hnot] at h
      cases h
      refine .inr ⟨rfl, ?_⟩
      rw [hmain, length_cons]
      omega

/-- Accepted alternative blocks are added on top; the first one that is not, if any, splits
the alternative chain. -/
theorem connectChain_ok {altChain : List AltBlock} {failed : Option (AltBlock × List AltBlock)}
    (h : connectChain rules altChain chain = .ok failed after) :
    (∃ added, after.mainChain = chain.mainChain ++ added) ∧
      ∀ alt later, failed = some (alt, later) → ∃ before, altChain = before ++ alt :: later := by
  induction altChain generalizing chain with
  | nil =>
    cases h
    exact ⟨⟨[], by simp⟩, nofun⟩
  | cons alt _ ih =>
    obtain ⟨verdict, added, hhandle, h⟩ := bind_eq_ok_iff.mp h
    rcases handleBlockToMainChain_ok hhandle with ⟨haccepted, hmain⟩ | ⟨hnot, hmain⟩
    · rw [if_pos haccepted] at h
      obtain ⟨⟨more, hmore⟩, hsplit⟩ := ih h
      refine ⟨⟨alt.block :: more, by rw [hmore, hmain, append_assoc]; rfl⟩, ?_⟩
      intro alt' later hfailed
      obtain ⟨before, rfl⟩ := hsplit alt' later hfailed
      exact ⟨alt :: before, rfl⟩
    · rw [if_neg hnot] at h
      cases h
      refine ⟨⟨[], by simp [hmain]⟩, ?_⟩
      intro alt' later hfailed
      cases hfailed
      exact ⟨[], rfl⟩

/-- A rollback restores the original chain if all its blocks are accepted again, and falls
short of it otherwise. -/
theorem rollbackBlockchainSwitching_ok {base added : List Block}
    (hmain : chain.mainChain = base ++ added)
    (h : rollbackBlockchainSwitching rules entries base.length chain = .ok complete after) :
    (complete = true ∧ after.mainChain = base ++ entries.map BlockAndCheckpoint.block) ∨
      (complete = false ∧ after.mainChain.length < base.length + entries.length) := by
  have hheight : chain.height = base.length + added.length := by
    have := congrArg List.length hmain
    simpa [ChainState.mainChain, ChainState.height] using this
  unfold rollbackBlockchainSwitching at h
  rw [get_bind_run, if_neg (by omega)] at h
  obtain ⟨_, cut, hpop, h⟩ := bind_eq_ok_iff.mp h
  obtain ⟨hcut, popped, hpopped⟩ := popToHeight_ok hpop
  obtain ⟨_, detached, hdetach, h⟩ := bind_eq_ok_iff.mp h
  cases hdetach
  have hbase : cut.mainChain = base := by
    rw [hmain] at hpopped
    refine (append_inj_left hpopped ?_).symm
    rw [← hcut]
    simp [ChainState.mainChain, ChainState.height]
  have hreadd := readdChain_ok h
  change (complete = true ∧ after.mainChain = cut.mainChain ++ _) ∨
    (complete = false ∧ after.mainChain.length < cut.mainChain.length + _) at hreadd
  rwa [hbase] at hreadd

/-! ## Removing alternative blocks -/

theorem removeAltBlock_of_some (h : (chain.getAltBlock hash).isSome = true) :
    removeAltBlock hash chain = .ok ()
      { chain with altBlocks := OrdSet.erase chain.altBlocks (Ranked.rank hash) } := by
  unfold removeAltBlock
  rw [get_bind_run, if_pos h]
  rfl

theorem removeAltBlock_of_none (h : chain.getAltBlock hash = none) :
    removeAltBlock hash chain = .error .dbError chain := by
  unfold removeAltBlock
  rw [get_bind_run, h]
  rfl

/-- An erased block is gone, the others stay. -/
theorem getAltBlock_erase {other : Hash} {store : AltStore}
    (hstore : chain.altBlocks = OrdSet.erase store (Ranked.rank hash)) : chain.getAltBlock other =
      if other = hash then none else store.find? (Ranked.rank other) := by
  unfold ChainState.getAltBlock
  rw [hstore]
  split
  · rename_i heq
    subst heq
    exact OrdSet.find?_eq_none_iff.mpr fun a ha => (OrdSet.mem_erase.mp ha).2
  · rename_i hne
    have hrank : Ranked.rank other ≠ Ranked.rank hash := fun h => hne (Ranked.rank_injective h)
    cases hfind : store.find? (Ranked.rank other) with
    | none =>
      refine OrdSet.find?_eq_none_iff.mpr fun a ha => ?_
      exact OrdSet.find?_eq_none_iff.mp hfind a (OrdSet.mem_erase.mp ha).1
    | some =>
      obtain ⟨hmem, hkey⟩ := OrdSet.find?_eq_some_iff.mp hfind
      refine OrdSet.find?_eq_some_iff.mpr ⟨OrdSet.mem_erase.mpr ⟨hmem, ?_⟩, hkey⟩
      rwa [hkey]

/-! ## The switch -/

/-- A switch in which the blocks down to the parent of the alternative chain have been popped
and one of its blocks has not been accepted. -/
structure FailsAt (rules : Rules σ) (altChain : List AltBlock) (chain : ChainState σ)
    (disconnected : List BlockAndCheckpoint) (cut : ChainState σ) (alt : AltBlock)
    (later : List AltBlock) (failed : ChainState σ) : Prop where
  parent : ∃ front rest, altChain = front :: rest ∧ chain.blockExists front.block.prevId = true ∧
    popUntil rules front.block.prevId (chain.height + 1) [] chain = .ok disconnected cut
  connect : connectChain rules altChain (finalState (execDetachHooks rules cut.height cut)) =
    .ok (some (alt, later)) failed

section

variable {altChain : List AltBlock} {disconnected : List BlockAndCheckpoint}
  {cut failed : ChainState σ} {alt : AltBlock} {later : List AltBlock}

section

variable (h : FailsAt rules altChain chain disconnected cut alt later failed)

include h

/-- Then the failed switch is what abandoning the chain comes to. -/
theorem FailsAt.switch_eq (handleOld : Block → Option Checkpoint → ChainM σ Verdict) (keep : Bool) :
    switchToAlternativeBlockchain rules handleOld altChain keep chain =
      (abandonChain rules disconnected cut.height alt later >>= fun _ => pure false) failed := by
  obtain ⟨front, rest, rfl, hparent, hpop⟩ := h.parent
  unfold switchToAlternativeBlockchain
  dsimp only
  rw [get_bind_run, hparent]
  simp only [Bool.not_true, Bool.false_eq_true, if_false]
  rw [bind_run_of_ok hpop, get_bind_run]
  have hdetach : execDetachHooks rules cut.height cut =
      .ok () (finalState (execDetachHooks rules cut.height cut)) := rfl
  rw [bind_run_of_ok hdetach, bind_run_of_ok h.connect]

/-- At the failure the alternative blocks are those from before the switch. -/
theorem FailsAt.sameAlt : failed.altBlocks = chain.altBlocks := by
  obtain ⟨front, rest, -, -, hpop⟩ := h.parent
  have hcut : cut.altBlocks = chain.altBlocks := (popUntil_sameAlt _ _ _).of_ok hpop
  have hconnect : failed.altBlocks = _ := (connectChain_sameAlt _).of_ok h.connect
  rw [hconnect, ← hcut]
  rfl

/-- At the failure the main chain is the part that was not popped, with alternative blocks on
top. -/
theorem FailsAt.mainChain :
    chain.mainChain = cut.mainChain ++ disconnected.map BlockAndCheckpoint.block ∧
      ∃ added, failed.mainChain = cut.mainChain ++ added := by
  obtain ⟨front, rest, -, -, hpop⟩ := h.parent
  obtain ⟨popped, heq, hmain⟩ := popUntil_ok hpop
  rw [append_nil] at heq
  subst heq
  exact ⟨hmain, (connectChain_ok h.connect).1⟩

/-- The failed block and the later ones are on the alternative chain. -/
theorem FailsAt.mem :
    ∃ before, altChain = before ++ alt :: later := (connectChain_ok h.connect).2 alt later rfl

/-- What a rollback comes to, after the failure. -/
theorem FailsAt.rollback_ok
    (hroll : rollbackBlockchainSwitching rules disconnected cut.height failed = .ok complete after) :
    after.mainChain = chain.mainChain ↔ complete = true := by
  obtain ⟨hmain, added, hadded⟩ := h.mainChain
  have hheight : cut.height = cut.mainChain.length := by
    simp [ChainState.height, ChainState.mainChain]
  rw [hheight] at hroll
  rcases rollbackBlockchainSwitching_ok hadded hroll with ⟨hcomplete, hafter⟩ | ⟨hcomplete, hafter⟩
  · simp [hcomplete, hafter, hmain]
  · rw [hcomplete]
    refine iff_of_false (fun heq => ?_) Bool.false_ne_true
    rw [heq, hmain, length_append, length_map] at hafter
    exact lt_irrefl _ hafter

end

/-- A switch that fails leaves the main chain as it was, with the failed block and the later
ones removed, exactly if the popped blocks are all accepted again and the failed block was the
last one. -/
theorem failed_switch_restores_iff
    (h : FailsAt rules altChain chain disconnected cut alt later failed)
    (handleOld : Block → Option Checkpoint → ChainM σ Verdict) (keep : Bool)
    (hstored : ∀ a ∈ altChain, (chain.getAltBlock a.block.hash).isSome = true)
    (hdistinct : (altChain.map (fun a => a.block.hash)).Nodup) :
    let final := finalState (switchToAlternativeBlockchain rules handleOld altChain keep chain)
    (final.mainChain = chain.mainChain ∧
        ∀ a ∈ alt :: later, final.getAltBlock a.block.hash = none) ↔
      (∃ restored, rollbackBlockchainSwitching rules disconnected cut.height failed =
        .ok true restored) ∧ later = [] := by
  intro final
  obtain ⟨before, hsplit⟩ := h.mem
  have hmem : ∀ a ∈ alt :: later, (chain.getAltBlock a.block.hash).isSome = true :=
    fun a ha => hstored a (by rw [hsplit]; exact mem_append_right _ ha)
  have hfinal : final = finalState (abandonChain rules disconnected cut.height alt later failed) := by
    simp only [final, h.switch_eq, finalState_bind_pure]
  unfold abandonChain at hfinal
  cases hroll : rollbackBlockchainSwitching rules disconnected cut.height failed with
  | error _ s =>
    have hsame : s.altBlocks = failed.altBlocks := by
      have := @rollbackBlockchainSwitching_sameAlt _ rules disconnected cut.height failed
      rwa [hroll] at this
    rw [bind_run_of_error hroll, finalState_error] at hfinal
    refine iff_of_false (fun hboth => ?_) fun hok => by obtain ⟨⟨_, hr⟩, -⟩ := hok; cases hr
    have hnone := hboth.2 alt mem_cons_self
    have hsome := hmem alt mem_cons_self
    rw [hfinal, ChainState.getAltBlock, hsame, h.sameAlt] at hnone
    rw [ChainState.getAltBlock, hnone] at hsome
    cases hsome
  | ok _ s =>
    have hsame : s.altBlocks = chain.altBlocks :=
      ((rollbackBlockchainSwitching_sameAlt _ _).of_ok hroll).trans h.sameAlt
    have hpresent : ((s.addBlockAsInvalid alt.block).getAltBlock alt.block.hash).isSome = true := by
      have := hmem alt mem_cons_self
      rwa [ChainState.getAltBlock, ← hsame] at this
    rw [bind_run_of_ok hroll, modify_bind_run,
      bind_run_of_ok (removeAltBlock_of_some hpresent)] at hfinal
    have hrollback := h.rollback_ok hroll
    cases later with
    | nil =>
      have hmain : final.mainChain = s.mainChain := by
        rw [hfinal]
        rfl
      have hgone : final.getAltBlock alt.block.hash = none := by
        rw [@getAltBlock_erase _ final alt.block.hash alt.block.hash s.altBlocks
          (by rw [hfinal]; rfl), if_pos rfl]
      rw [hmain, hrollback]
      simp [hgone]
    | cons next =>
      -- the failed block is not found a second time
      have hgone : ∀ t : ChainState σ, t.altBlocks = OrdSet.erase s.altBlocks
          (Ranked.rank alt.block.hash) → t.getAltBlock alt.block.hash = none :=
        fun t ht => by rw [getAltBlock_erase ht, if_pos rfl]
      rw [List.forM, bind_assoc, modify_bind_run,
        bind_run_of_error (removeAltBlock_of_none (hgone _ rfl))] at hfinal
      refine iff_of_false (fun hboth => ?_) fun hok => by cases hok.2
      have hnone := hboth.2 next (mem_cons_of_mem _ mem_cons_self)
      have hne : next.block.hash ≠ alt.block.hash := by
        rw [hsplit, map_append] at hdistinct
        have := (nodup_append.mp hdistinct).2.1
        simp only [map_cons, nodup_cons, mem_cons, not_or] at this
        exact fun heq => this.1.1 heq.symm
      rw [@getAltBlock_erase _ final alt.block.hash next.block.hash s.altBlocks
        (by rw [hfinal]; rfl), if_neg hne, hsame] at hnone
      have hsome := hmem next (mem_cons_of_mem _ mem_cons_self)
      rw [ChainState.getAltBlock, hnone] at hsome
      cases hsome

end

/-- The second of two alternative blocks fails. -/
theorem failed_switch_restores_second :
    let chain := sampleChain [sampleBlock 1 0 0, sampleBlock 2 1 1]
      [sampleBlock 3 1 1, sampleBlock 4 3 2]
    let final := finalState (switchToAlternativeBlockchain (sampleRules (fun b => b.hash = 4))
      (fun _ _ => throw .diverges) chain.altBlocks.toList false chain)
    final.mainChain = chain.mainChain ∧ final.getAltBlock 4 = none := by
  intro chain final
  have hfails : FailsAt (sampleRules (fun b => b.hash = 4)) chain.altBlocks.toList chain
      [{ block := sampleBlock 2 1 1, checkpoint := none }] _
      { block := sampleBlock 4 3 2, height := 2 } [] _ :=
    ⟨⟨_, _, rfl, rfl, rfl⟩, rfl⟩
  obtain ⟨hmain, hgone⟩ := (failed_switch_restores_iff hfails (fun _ _ => throw .diverges) false
    (by decide +kernel) (by decide +kernel)).mpr ⟨⟨_, rfl⟩, rfl⟩
  exact ⟨hmain, hgone _ mem_cons_self⟩

/-- The first of two alternative blocks fails: the second one stays, and the switch does not
return. -/
theorem later_alt_block_kept :
    let chain := sampleChain [sampleBlock 1 0 0, sampleBlock 2 1 1]
      [sampleBlock 3 1 1, sampleBlock 4 3 2]
    let altChain := chain.altBlocks.toList
    let result := switchToAlternativeBlockchain (sampleRules (fun b => b.hash = 3))
      (fun _ _ => throw .diverges) altChain false chain
    altChain.map (fun a => a.block.hash) = [3, 4] ∧ thrown result = some .dbError ∧
      (finalState result).mainChain = chain.mainChain ∧
      (finalState result).getAltBlock 3 = none ∧
      ((finalState result).getAltBlock 4).isSome = true := by
  decide +kernel

end Xeqm.Blockchain
