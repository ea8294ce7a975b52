import Xeqm.Blockchain.Effects

/-!
# The checks of an alternative block

What the parts of `handle_alternative_block` come to: the chain that is built for a block, the
checks made before the block is stored, and those made afterwards.
-/

namespace Xeqm.Blockchain

open Cryptonote ServiceNodes Checkpoints Lib List

variable {σ : Type} {rules : Rules σ} {chain after : ChainState σ} {block : Block}
  {checkpoint : Option Checkpoint} {hashes : List Hash}

/-- The function returned false or marked the block as failing verification. -/
def Verdict.rejects (verdict : Verdict) : Prop :=
  verdict.result = false ∨ verdict.bvc.verificationFailed = true

theorem Verdict.failed_rejects : Verdict.failed.rejects := .inl rfl

/-! ## The ancestors of a block -/

section

variable {store : AltStore} {prevId : Hash} {ancestors : List AltBlock} {fuel : ℕ}

/-- The walk does not depend on how long it may be. -/
theorem altAncestors_unique {fuel' : ℕ} {ancestors' : List AltBlock}
    (h : altAncestors store fuel prevId = some ancestors)
    (h' : altAncestors store fuel' prevId = some ancestors') : ancestors = ancestors' := by
  induction fuel generalizing fuel' prevId ancestors ancestors' with
  | zero => cases h
  | succ _ ih =>
    cases fuel' with
    | zero => cases h'
    | succ =>
      unfold altAncestors at h h'
      cases hfind : store.find? (Ranked.rank prevId) with
      | none =>
        simp only [hfind, Option.some.injEq] at h h'
        rw [← h, ← h']
      | some =>
        simp only [hfind] at h h'
        obtain ⟨rest, hrest, rfl⟩ := Option.map_eq_some_iff.mp h
        obtain ⟨rest', hrest', rfl⟩ := Option.map_eq_some_iff.mp h'
        rw [ih hrest hrest']

/-- From every block of the walk the rest of it goes on. -/
theorem altAncestors_of_mem (h : altAncestors store fuel prevId = some ancestors) {alt : AltBlock}
    (halt : alt ∈ ancestors) : alt ∈ store ∧ ∃ fuel' rest,
      altAncestors store fuel' alt.block.prevId = some rest ∧ rest.length < ancestors.length := by
  induction fuel generalizing prevId ancestors with
  | zero => cases h
  | succ fuel ih =>
    unfold altAncestors at h
    cases hfind : store.find? (Ranked.rank prevId) with
    | none =>
      simp only [hfind, Option.some.injEq] at h
      subst h
      cases halt
    | some =>
      simp only [hfind] at h
      obtain ⟨rest, hrest, rfl⟩ := Option.map_eq_some_iff.mp h
      rcases mem_cons.mp halt with rfl | halt
      · exact ⟨(OrdSet.find?_eq_some_iff.mp hfind).1, fuel, rest, hrest, Nat.lt_succ_self _⟩
      · obtain ⟨hmem, fuel', rest', hrest', hlt⟩ := ih hrest halt
        exact ⟨hmem, fuel', rest', hrest', Nat.lt_succ_of_lt hlt⟩

/-- A stored block is not among its own ancestors. -/
theorem not_mem_own_ancestors {row : AltBlock} (hrow : row ∈ store)
    (h : altAncestors store fuel row.block.prevId = some ancestors) :
    row.block.hash ∉ ancestors.map (fun alt => alt.block.hash) := by
  intro hmem
  obtain ⟨alt, halt, heq⟩ := mem_map.mp hmem
  obtain ⟨hstored, fuel', rest, hrest, hlt⟩ := altAncestors_of_mem h halt
  obtain rfl := OrdSet.eq_of_key_eq hstored hrow (congrArg Ranked.rank heq)
  rw [altAncestors_unique hrest h] at hlt
  exact lt_irrefl _ hlt

end

/-! ## Before the block is stored -/

/-- Alternative blocks may go, but none comes, and only those with some hashes go. -/
def LosesAt (hashes : List Hash) (chain after : ChainState σ) : Prop :=
  after.rows = chain.rows ∧ after.checkpoints.store = chain.checkpoints.store ∧
    (∀ alt ∈ after.altBlocks, alt ∈ chain.altBlocks) ∧
    ∀ alt ∈ chain.altBlocks, alt.block.hash ∉ hashes → alt ∈ after.altBlocks

instance (hashes : List Hash) : Std.Refl (LosesAt (σ := σ) hashes) :=
  ⟨fun _ => ⟨rfl, rfl, fun _ h => h, fun _ h _ => h⟩⟩

instance (hashes : List Hash) : IsTrans (ChainState σ) (LosesAt hashes) :=
  ⟨fun _ _ _ h h' => ⟨h'.1.trans h.1, h'.2.1.trans h.2.1, fun a ha => h.2.2.1 a (h'.2.2.1 a ha),
    fun a ha hnot => h'.2.2.2 a (h.2.2.2 a ha hnot) hnot⟩⟩

theorem removeAltBlock_loses {hash : Hash} (h : hash ∈ hashes) :
    Keeps (LosesAt (σ := σ) hashes) (removeAltBlock hash) := by
  refine .get_bind fun chain => ?_
  split
  · refine ⟨rfl, rfl, fun a ha => (OrdSet.mem_erase.mp ha).1, fun a ha hnot => ?_⟩
    refine OrdSet.mem_erase.mpr ⟨ha, fun hrank => hnot ?_⟩
    rwa [Ranked.rank_injective hrank]
  · exact Std.Refl.refl chain

/-- The parent of the first block of an alternative chain. -/
def rootOf (ancestors : List AltBlock) (prevId : Hash) : Hash :=
  (ancestors.getLast?.map (fun alt => alt.block.prevId)).getD prevId

theorem orThrow_bind_eq_ok {α β : Type} {fault : Fault} {value : Option α} {f : α → ChainM σ β}
    {b : β} (h : (orThrow fault value >>= f) chain = .ok b after) :
    ∃ a, value = some a ∧ f a chain = .ok b after := by
  cases value with
  | none => cases h
  | some a => exact ⟨a, rfl, h⟩

/-- What building an alternative chain comes to: a rejection, for which the blocks of the chain
may go, or the chain, on a block of the main chain. -/
inductive Builds (chain : ChainState σ) (prevId : Hash) (after : ChainState σ) :
    Except Verdict BuiltChain → Prop
  | rejected {ancestors : List AltBlock} {verdict : Verdict}
    (walk : altAncestors chain.altBlocks (chain.altBlocks.size + 1) prevId = some ancestors)
    (rejects : verdict.rejects)
    (loses : LosesAt (ancestors.map (fun alt => alt.block.hash)) chain after) :
    Builds chain prevId after (.error verdict)
  | built {ancestors : List AltBlock} {rootHeight : ℕ}
    (walk : altAncestors chain.altBlocks (chain.altBlocks.size + 1) prevId = some ancestors)
    (onMain : chain.blockExists (rootOf ancestors prevId) = true)
    (rows : after.rows = chain.rows) (altBlocks : after.altBlocks = chain.altBlocks)
    (checkpoints : after.checkpoints.store = chain.checkpoints.store) :
    Builds chain prevId after (.ok (builtChain chain ancestors rootHeight))

theorem buildAltChain_ok {prevId : Hash} {result : Except Verdict BuiltChain}
    (h : buildAltChain prevId chain = .ok result after) : Builds chain prevId after result := by
  unfold buildAltChain at h
  obtain ⟨ancestors, hwalk, h⟩ := orThrow_bind_eq_ok h
  have hcleanup : ∀ s : ChainState σ,
      LosesAt (ancestors.map (fun alt => alt.block.hash)) s (finalState
        ((ancestors.reverse.forM (fun alt => removeAltBlock alt.block.hash)) s)) := by
    refine Keeps.forM fun alt halt => removeAltBlock_loses ?_
    exact mem_map.mpr ⟨alt, mem_reverse.mp halt, rfl⟩
  cases hlast : ancestors.getLast? with
  | none =>
    simp only [hlast] at h
    split at h
    · rename_i hexists
      obtain ⟨rootHeight, -, h⟩ := orThrow_bind_eq_ok h
      cases h
      exact .built hwalk (by rw [rootOf, hlast]; exact hexists) rfl rfl rfl
    · cases h
      exact .rejected hwalk (.inl rfl) (Std.Refl.refl chain)
  | some front =>
    simp only [hlast] at h
    obtain ⟨below, -, h⟩ := orThrow_bind_eq_ok h
    split at h
    · obtain ⟨_, s, hremove, h⟩ := bind_eq_ok_iff.mp h
      cases h
      have := hcleanup chain
      rw [hremove] at this
      exact .rejected hwalk Verdict.failed_rejects this
    · rename_i hpass
      rw [modify_bind_run] at h
      split at h
      · obtain ⟨rootHeight, -, h⟩ := orThrow_bind_eq_ok h
        cases h
        refine .built hwalk ?_ rfl rfl isAlternativeBlockAllowed_store
        rw [rootOf, hlast]
        simpa using (not_or.mp (not_or.mp hpass).2).1
      · obtain ⟨_, s, hremove, h⟩ := bind_eq_ok_iff.mp h
        cases h
        have hcut := hcleanup { chain with checkpoints :=
          (chain.checkpoints.isAlternativeBlockAllowed chain.height front.height).2 }
        rw [hremove] at hcut
        refine .rejected hwalk Verdict.failed_rejects (IsTrans.trans _ _ _ ?_ hcut)
        exact ⟨rfl, isAlternativeBlockAllowed_store, fun _ h => h, fun _ h _ => h⟩

/-- What the checks before the block is stored come to: an orphan is let go, a block is
rejected, or there is a chain for a block that is not stored yet. -/
inductive Checks (rules : Rules σ) (block : Block) (checkpoint : Option Checkpoint)
    (chain after : ChainState σ) : Except Verdict Pending → Prop
  | orphan (same : after = chain) :
    Checks rules block checkpoint chain after
      (.error { result := true, bvc := { markedAsOrphaned := true } })
  | rejected {verdict : Verdict} {hashes : List Hash} (rejects : verdict.rejects)
    (loses : LosesAt hashes chain after)
    (notOwn : ∀ row ∈ chain.altBlocks, row.block = block → row.block.hash ∉ hashes) :
    Checks rules block checkpoint chain after (.error verdict)
  | passed {pending : Pending} {checked : ChainState σ}
    (checks : basicBlockChecks rules block true chain = .ok true checked)
    (build : buildAltChain block.prevId checked = .ok (.ok pending.built) after)
    (fresh : chain.getAltBlock block.hash = none)
    (alt : pending.alt.block = block ∧ pending.alt.height = block.height ∧
      pending.alt.checkpoint = checkpoint) :
    Checks rules block checkpoint chain after (.ok pending)

/-- The checks of an alternative block change no stored checkpoint, block or alternative
block. -/
theorem basicBlockChecks_loses (altBlock : Bool) :
    Keeps (LosesAt (σ := σ) []) (basicBlockChecks rules block altBlock) := by
  refine basicBlockChecks_keeps.mono ?_
  rintro chain _ (rfl | rfl)
  · exact Std.Refl.refl _
  · exact ⟨rfl, isAlternativeBlockAllowed_store, fun _ h => h, fun _ h _ => h⟩

theorem LosesAt.mono (h : LosesAt [] chain after) : LosesAt hashes chain after :=
  ⟨h.1, h.2.1, h.2.2.1, fun a ha _ => h.2.2.2 a ha not_mem_nil⟩

theorem checkAlternative_ok {result : Except Verdict Pending}
    (h : checkAlternative rules block checkpoint chain = .ok result after) :
    Checks rules block checkpoint chain after result := by
  unfold checkAlternative at h
  rw [get_bind_run] at h
  split at h
  · cases h
    exact .orphan rfl
  · obtain ⟨passed, checked, hchecks, h⟩ := bind_eq_ok_iff.mp h
    have hloses : LosesAt [] chain checked := (basicBlockChecks_loses true).of_ok hchecks
    have hsame : checked.altBlocks = chain.altBlocks := basicBlockChecks_sameAlt.of_ok hchecks
    -- a rejection of a block once its chain is built, or before, removes nothing
    have hreject : ∀ {verdict : Verdict}, verdict.rejects →
        Checks rules block checkpoint chain checked (.error verdict) :=
      fun hv => .rejected hv hloses fun _ _ _ => not_mem_nil
    cases passed with
    | false =>
      cases h
      exact hreject Verdict.failed_rejects
    | true =>
      obtain ⟨built, s, hbuild, h⟩ := bind_eq_ok_iff.mp h
      have hbuilds := buildAltChain_ok hbuild
      cases hbuilds with
      | rejected walk rejects loses =>
        cases h
        refine .rejected rejects (IsTrans.trans _ _ _ hloses.mono loses) ?_
        rintro row hrow rfl
        rw [hsame] at walk
        exact not_mem_own_ancestors hrow walk
      | built walk onMain rows altBlocks checkpoints =>
        have hbuilt : LosesAt [] chain s :=
          IsTrans.trans _ _ _ hloses ⟨rows, checkpoints, fun a ha => altBlocks ▸ ha,
            fun a ha _ => altBlocks ▸ ha⟩
        have hreject : ∀ {verdict : Verdict}, verdict.rejects →
            Checks rules block checkpoint chain s (.error verdict) :=
          fun hv => .rejected hv hbuilt fun _ _ _ => not_mem_nil
        dsimp only at h
        split at h
        · cases h
          exact hreject Verdict.failed_rejects
        · split at h
          · cases h
            exact hreject Verdict.failed_rejects
          · obtain ⟨difficulty, -, h⟩ := orThrow_bind_eq_ok h
            split at h
            · cases h
              exact hreject (.inl rfl)
            · rename_i hfresh
              cases hweight : rules.altBlockWeight chain block with
              | none =>
                rw [hweight] at h
                cases h
                exact hreject Verdict.failed_rejects
              | some =>
                simp only [hweight] at h
                obtain ⟨coins, -, h⟩ := orThrow_bind_eq_ok h
                cases h
                exact .passed hchecks hbuild (by simpa using hfresh) ⟨rfl, rfl, rfl⟩

/-- A block that passed the first checks is not stored yet. -/
theorem Checks.fresh_alt {pending : Pending}
    (h : Checks rules block checkpoint chain after (.ok pending)) :
    pending.alt.block = block ∧ after.getAltBlock pending.alt.block.hash = none := by
  cases h with
  | passed checks build fresh alt =>
    refine ⟨alt.1, ?_⟩
    rw [alt.1]
    have hsame := basicBlockChecks_sameAlt.of_ok checks
    have hbuilds := buildAltChain_ok build
    generalize hres : (.ok pending.built : Except Verdict BuiltChain) = res at hbuilds
    cases hbuilds with
    | rejected => cases hres
    | built _ _ _ altBlocks =>
      rw [ChainState.getAltBlock, altBlocks, hsame]
      exact fresh

/-! ## Once the block is stored -/

theorem addAltBlock_of_fresh {alt : AltBlock} (h : chain.getAltBlock alt.block.hash = none) :
    addAltBlock alt chain =
      .ok () { chain with altBlocks := OrdSet.insert alt chain.altBlocks } := by
  unfold addAltBlock
  rw [get_bind_run, h]
  rfl

/-- The checks of a stored block change no block or checkpoint, and the verdicts they give
reject it. -/
theorem checkStored_ok {verdict : Option Verdict}
    (h : checkStored rules block checkpoint chain = .ok verdict after) :
    (∃ rest, after = { chain with rest }) ∧ ∀ v, verdict = some v → v.rejects := by
  unfold checkStored at h
  rw [get_bind_run] at h
  split at h
  · cases h
    exact ⟨⟨_, rfl⟩, fun v hv => Option.some.inj hv ▸ Verdict.failed_rejects⟩
  · cases htxs : rules.altBlockTxs chain block with
    | failed =>
      rw [htxs] at h
      cases h
      exact ⟨⟨_, rfl⟩, fun v hv => Option.some.inj hv ▸ Verdict.failed_rejects⟩
    | unknown =>
      rw [htxs] at h
      cases h
      exact ⟨⟨_, rfl⟩, fun v hv => Option.some.inj hv ▸ .inl rfl⟩
    | found =>
      rw [htxs] at h
      obtain ⟨_, s, hset, h⟩ := bind_eq_ok_iff.mp h
      cases hset
      split at h
      · cases h
        exact ⟨⟨_, rfl⟩, fun v hv => nomatch hv⟩
      · cases h
        exact ⟨⟨_, rfl⟩, fun v hv => Option.some.inj hv ▸ .inl rfl⟩

end Xeqm.Blockchain
