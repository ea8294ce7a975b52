import Xeqm.Blockchain.AltBlocks

/-!
# What the functions of the chain change

The alternative blocks change only where they are stored and removed. The main chain grows by
a block that is accepted, loses its top when a block is popped, and stays otherwise.
-/

namespace Xeqm.Blockchain

open Cryptonote ServiceNodes Checkpoints Lib List

variable {σ : Type} {rules : Rules σ} {chain after : ChainState σ} {block : Block}
  {checkpoint : Option Checkpoint}

/-! ## The alternative blocks -/

/-- The rule for checkpoints changes no stored one. -/
@[simp]
theorem isAlternativeBlockAllowed_store {checkpoints : Registry} {n k : ℕ} :
    (checkpoints.isAlternativeBlockAllowed n k).2.store = checkpoints.store := by
  unfold Registry.isAlternativeBlockAllowed
  split
  · rfl
  · split <;> rfl

/-- The alternative blocks are the same. -/
def SameAltBlocks (chain after : ChainState σ) : Prop := after.altBlocks = chain.altBlocks

instance : Std.Refl (SameAltBlocks (σ := σ)) := ⟨fun _ => rfl⟩

instance : IsTrans (ChainState σ) SameAltBlocks := ⟨fun _ _ _ h h' => h'.trans h⟩

/-- The checks of a block leave the chain alone; those of an alternative block may move the
immutable height. -/
theorem basicBlockChecks_keeps {altBlock : Bool} :
    Keeps (fun s s' => s' = s ∨ s' = { s with
      checkpoints := (s.checkpoints.isAlternativeBlockAllowed s.height block.height).2 })
      (basicBlockChecks rules block altBlock) := by
  intro chain
  unfold basicBlockChecks
  rw [get_bind_run]
  dsimp only
  split
  · exact .inl rfl
  · split
    · split
      · exact .inl rfl
      · rw [modify_bind_run]
        split
        · exact .inr rfl
        · split
          · exact .inr rfl
          · exact .inr rfl
    · split
      · exact .inl rfl
      · split
        · exact .inl rfl
        · split
          · exact .inl rfl
          · exact .inl rfl

theorem basicBlockChecks_sameAlt {altBlock : Bool} :
    Keeps SameAltBlocks (basicBlockChecks rules block altBlock) := by
  refine basicBlockChecks_keeps.mono ?_
  rintro chain _ (rfl | rfl)
  · rfl
  · rfl

theorem popBlockFromDb_sameAlt : Keeps SameAltBlocks (popBlockFromDb rules) := by
  refine .get_bind fun chain => ?_
  split
  · rfl
  cases chain.rows.getLast? with
  | none => rfl
  | some =>
    dsimp only
    split <;> rfl

theorem execDetachHooks_sameAlt (height : ℕ) : Keeps SameAltBlocks (execDetachHooks rules height) :=
  .modify fun _ => rfl

theorem handleBlockToMainChain_sameAlt :
    Keeps SameAltBlocks (handleBlockToMainChain rules block checkpoint) := by
  refine .bind basicBlockChecks_sameAlt fun passed => ?_
  split
  · exact .pure
  · refine .read (fun current => ?_)
    split
    · refine .bind (.modify (fun s => ?_)) (fun _ => .pure)
      split <;> rfl
    · refine .bind (.modify (fun _ => rfl)) (fun _ => ?_)
      refine .read fun stored => ?_
      refine .bind (.modify (fun _ => rfl)) fun _ => ?_
      split
      · refine .bind popBlockFromDb_sameAlt (fun _ => ?_)
        refine .read fun _ => ?_
        exact .bind (execDetachHooks_sameAlt _) fun _ => .pure
      · exact .bind (.modify (fun _ => rfl)) fun _ => .pure

theorem popUntil_sameAlt (hash : Hash) (fuel : ℕ) (disconnected : List BlockAndCheckpoint) :
    Keeps SameAltBlocks (popUntil rules hash fuel disconnected) := by
  induction fuel generalizing disconnected with
  | zero => exact .throw
  | succ _ ih =>
    refine .read fun _ => ?_
    split
    · exact .pure
    · refine .bind popBlockFromDb_sameAlt (fun _ => ?_)
      exact .read fun _ => ih _

theorem popToHeight_sameAlt (height fuel : ℕ) : Keeps SameAltBlocks (popToHeight rules height fuel) := by
  induction fuel with
  | zero => exact .throw
  | succ _ ih =>
    refine .read fun _ => ?_
    split
    · exact .pure
    · exact .bind popBlockFromDb_sameAlt fun _ => ih

theorem readdChain_sameAlt (entries : List BlockAndCheckpoint) :
    Keeps SameAltBlocks (readdChain rules entries) := by
  induction entries with
  | nil => exact .pure
  | cons _ _ ih =>
    refine .bind handleBlockToMainChain_sameAlt fun _ => ?_
    split
    · exact ih
    · exact .pure

theorem rollbackBlockchainSwitching_sameAlt (entries : List BlockAndCheckpoint) (height : ℕ) :
    Keeps SameAltBlocks (rollbackBlockchainSwitching rules entries height) := by
  refine .read fun _ => ?_
  split
  · exact .pure
  · refine .bind (popToHeight_sameAlt _ _) (fun _ => ?_)
    exact .bind (execDetachHooks_sameAlt _) fun _ => readdChain_sameAlt _

theorem connectChain_sameAlt (altChain : List AltBlock) :
    Keeps SameAltBlocks (connectChain rules altChain) := by
  induction altChain with
  | nil => exact .pure
  | cons _ _ ih =>
    refine .bind handleBlockToMainChain_sameAlt fun _ => ?_
    split
    · exact ih
    · exact .pure

/-! ## The main chain -/

/-- A popped block was the top of the chain. -/
theorem popBlockFromDb_ok (h : popBlockFromDb rules chain = .ok block after) :
    chain.mainChain = after.mainChain ++ [block] := by
  unfold popBlockFromDb at h
  rw [get_bind_run] at h
  split at h
  · cases h
  cases hlast : chain.rows.getLast? with
  | none =>
    rw [hlast] at h
    cases h
  | some =>
    rw [hlast] at h
    dsimp only at h
    split at h
    · cases h
    cases h
    obtain ⟨before, hbefore⟩ := getLast?_eq_some_iff.mp hlast
    simp only [ChainState.mainChain, hbefore, dropLast_concat, map_append, map_singleton]

/-- The checks change no block of the main chain. -/
theorem basicBlockChecks_rows (altBlock : Bool) :
    Keeps (fun s s' => s'.rows = s.rows) (basicBlockChecks rules block altBlock) := by
  refine basicBlockChecks_keeps.mono ?_
  rintro chain _ (rfl | rfl)
  · rfl
  · rfl

@[simp]
theorem trimHistory_map_block (rows : List ChainRow) :
    (trimHistory rules rows).map ChainRow.block = rows.map ChainRow.block := by
  unfold trimHistory
  apply ext_getElem
  · simp
  · intro i h h'
    simp

/-- A block is added if it is accepted; otherwise the chain is as before. -/
theorem handleBlockToMainChain_ok {verdict : Verdict}
    (h : handleBlockToMainChain rules block checkpoint chain = .ok verdict after) :
    (verdict.accepted ∧ after.mainChain = chain.mainChain ++ [block]) ∨
      (¬ verdict.accepted ∧ after.mainChain = chain.mainChain) := by
  obtain ⟨passed, checked, hchecks, h⟩ := bind_eq_ok_iff.mp h
  have hrows : checked.rows = chain.rows := (basicBlockChecks_rows false).of_ok hchecks
  have hfailed : ¬ Verdict.failed.accepted := fun h => by cases h.1
  split at h
  · cases h
    exact .inr ⟨hfailed, by rw [ChainState.mainChain, hrows]; rfl⟩
  · rw [get_bind_run] at h
    cases hcheck : rules.checkMainBlock checked block with
    | rejected =>
      simp only [hcheck, modify_bind_run] at h
      cases h
      refine .inr ⟨hfailed, ?_⟩
      simp only [ChainState.mainChain]
      split <;> simp [ChainState.addBlockAsInvalid, hrows]
    | passed =>
      simp only [hcheck, modify_bind_run, get_bind_run] at h
      split at h
      · obtain ⟨popped, cut, hpop, h⟩ := bind_eq_ok_iff.mp h
        have htop := popBlockFromDb_ok hpop
        cases h
        refine .inr ⟨hfailed, ?_⟩
        simp only [ChainState.mainChain, map_append, map_singleton, hrows] at htop ⊢
        exact (append_inj_left' htop rfl).symm
      · cases h
        refine .inl ⟨⟨rfl, rfl⟩, ?_⟩
        simp [ChainState.mainChain, hrows]

end Xeqm.Blockchain
