import Xeqm.Blockchain.Difficulty
import Xeqm.Lib.Runs

/-!
# The cache of difficulties

`get_difficulty_for_next_block` keeps the arrays that it calculated from and the last difficulty. It
is asked between additions and removals of blocks in any order. What it answers is compared with
what it would answer if nothing was kept.
-/

namespace Xeqm.Blockchain

open Cryptonote Lib List

/-- The main chain and the cache. -/
structure DifficultyState where
  rows : List ChainRow := []
  cache : DifficultyCache := {}
  deriving DecidableEq

/-- What happens to the chain and the cache. -/
inductive DifficultyStep
  /-- `get_difficulty_for_next_block`. -/
  | query (pulse : Bool)
  /-- `handle_block_to_main_chain`, for a block that passes all checks but the one of its parent. -/
  | add (block : Block)
  /-- `pop_block_from_db`. -/
  | pop
  /-- `reset_and_set_genesis_block`, up to the addition of the block. -/
  | reset
  /-- A block of an alternative chain is handled, or the chain starts to switch to one. -/
  | invalidate
  /-- The daemon starts again. -/
  | restart
  deriving DecidableEq

/-- The cumulative difficulty of the top block. -/
def topDifficulty (rows : List ChainRow) : UInt64 :=
  (rows.getLast?.map ChainRow.cumulativeDifficulty).getD 0

section

variable (calculation : Calculation) (net : Network) (fixedDifficulty : UInt64)

/-- What `get_difficulty_for_next_block` answers with empty caches. -/
def freshDifficulty (pulse : Bool) (rows : List ChainRow) : UInt64 :=
  (getDifficultyForNextBlock calculation net fixedDifficulty pulse rows {}).1

namespace DifficultyState

variable (s : DifficultyState)

/-- The kept arrays no longer count. -/
def invalidated : DifficultyCache := { s.cache with height := 0 }

/-- What happens in one step. -/
def step (s : DifficultyState) : DifficultyStep → DifficultyState
  | .query pulse =>
    { s with
      cache := (getDifficultyForNextBlock calculation net fixedDifficulty pulse s.rows s.cache).2 }
  | .add block =>
    if block.prevId = topHash s.rows then
      let (difficulty, cache) :=
        getDifficultyForNextBlock calculation net fixedDifficulty block.hasPulse s.rows s.cache
      { rows := s.rows ++
          [{ block, cumulativeDifficulty := difficulty + topDifficulty s.rows }]
        cache }
    else s
  | .pop =>
    { rows := if s.rows.length > 1 then s.rows.dropLast else s.rows, cache := s.invalidated }
  | .reset => { rows := [], cache := s.invalidated }
  | .invalidate => { s with cache := s.invalidated }
  | .restart => { s with cache := {} }

/-- Whether a step asks for a difficulty, and then for what kind of block. -/
def asks : DifficultyStep → Option Bool
  | .query pulse => some pulse
  | .add block => if block.prevId = topHash s.rows then some block.hasPulse else none
  | _ => none

/-- The difficulty that the step asks for is what it would be with empty caches. -/
def AnswersFresh (step : DifficultyStep) : Prop :=
  ∀ pulse ∈ s.asks step,
    (getDifficultyForNextBlock calculation net fixedDifficulty pulse s.rows s.cache).1 =
      freshDifficulty calculation net fixedDifficulty pulse s.rows

/-- The step calculates a difficulty on a chain of fewer than two blocks while arrays of a longer
chain are kept. -/
def Stale (step : DifficultyStep) : Prop :=
  s.asks step = some false ∧ fixedDifficulty = 0 ∧ topHash s.rows ≠ s.cache.topHash ∧
    s.rows.length < 2 ∧ s.cache.timestamps ≠ []

instance (step : DifficultyStep) : Decidable (s.Stale fixedDifficulty step) :=
  inferInstanceAs (Decidable (_ ∧ _))

end DifficultyState

/-! ## Chains and their top -/

/-- Hashes tell the known blocks apart, and none is null. -/
structure DistinctHashes (known : List Block) : Prop where
  inj : ∀ b ∈ known, ∀ b' ∈ known, b.hash = b'.hash → b = b'
  nonnull : ∀ block ∈ known, block.hash ≠ 0

/-- A chain of known blocks, each on top of the one before and with the difficulty that was fresh
then. -/
inductive Grown (known : List Block) : List ChainRow → Prop
  | nil : Grown known []
  | add {rows : List ChainRow} {block : Block} (grown : Grown known rows) (hknown : block ∈ known)
      (hprev : block.prevId = topHash rows) :
      Grown known (rows ++
        [{ block
           cumulativeDifficulty :=
            freshDifficulty calculation net fixedDifficulty block.hasPulse rows +
              topDifficulty rows }])

end

@[simp]
theorem topHash_append (rows : List ChainRow) (row : ChainRow) :
    topHash (rows ++ [row]) = row.block.hash := by
  simp [topHash]

section

variable {calculation : Calculation} {net : Network} {fixedDifficulty : UInt64} {known : List Block}
  {rows rows' : List ChainRow}

section

variable (hdistinct : DistinctHashes known) (h : Grown calculation net fixedDifficulty known rows)

include hdistinct h

/-- Only the empty chain has no top. -/
theorem Grown.eq_nil (htop : topHash rows = 0) : rows = [] := by
  cases h with
  | nil => rfl
  | add _ hknown =>
    rw [topHash_append] at htop
    exact absurd htop (hdistinct.nonnull _ hknown)

/-- The top of a chain determines the chain. -/
theorem Grown.unique (h' : Grown calculation net fixedDifficulty known rows')
    (htop : topHash rows = topHash rows') : rows = rows' := by
  induction h generalizing rows' with
  | nil => exact (h'.eq_nil hdistinct htop.symm).symm
  | add _ hknown hprev ih =>
    cases h' with
    | nil =>
      rw [topHash_append] at htop
      exact absurd htop (hdistinct.nonnull _ hknown)
    | add grown' hknown' hprev' =>
      rw [topHash_append, topHash_append] at htop
      obtain rfl := hdistinct.inj _ hknown _ hknown' htop
      obtain rfl := ih grown' (hprev.symm.trans hprev')
      rfl

end

/-- A chain without its top has grown as well. -/
theorem Grown.dropLast (h : Grown calculation net fixedDifficulty known rows) :
    Grown calculation net fixedDifficulty known rows.dropLast := by
  cases h with
  | nil => exact Grown.nil
  | add grown =>
    rw [dropLast_concat]
    exact grown

end

/-! ## The invariant -/

section

variable {calculation : Calculation} {net : Network} {known : List Block}

/-- What holds as long as no difficulty was calculated from stale arrays. -/
structure CacheSound (calculation : Calculation) (net : Network) (known : List Block)
    (s : DifficultyState) : Prop where
  grown : Grown calculation net 0 known s.rows
  /-- The arrays hold the window of the chain up to the kept height. -/
  window : s.cache.height ≠ 0 → s.cache.height ≤ s.rows.length ∧
    s.cache.timestamps =
        timestampsOf (powWindow (powCount net s.cache.height) (s.rows.take s.cache.height)) ∧
      s.cache.difficulties =
        difficultiesOf (powWindow (powCount net s.cache.height) (s.rows.take s.cache.height))
  paired : s.cache.timestamps.length = s.cache.difficulties.length
  /-- The kept difficulty is the one of the chain with the kept top. -/
  entry : ∃ rows, Grown calculation net 0 known rows ∧ topHash rows = s.cache.topHash ∧
    freshDifficulty calculation net 0 false rows = s.cache.difficulty

theorem cacheSound_start : CacheSound calculation net known {} where
  grown := Grown.nil
  window := fun h => absurd rfl h
  paired := rfl
  entry := ⟨[], Grown.nil, rfl, rfl⟩

variable {s : DifficultyState}

/-- The kept height goes to zero, and the chain to any that has grown. -/
theorem CacheSound.invalidated (hs : CacheSound calculation net known s) {rows : List ChainRow}
    (hrows : Grown calculation net 0 known rows) :
    CacheSound calculation net known ⟨rows, s.invalidated⟩ where
  grown := hrows
  window := fun h => absurd rfl h
  paired := hs.paired
  entry := hs.entry

variable (hcalculation : ∀ target mode, calculation [] [] target mode = 1)

include hcalculation

theorem freshDifficulty_eq (rows : List ChainRow) (htop : topHash rows = 0 → rows = []) :
    freshDifficulty calculation net 0 false rows =
      calculation (timestampsOf (powWindow (powCount net rows.length) rows))
        (difficultiesOf (powWindow (powCount net rows.length) rows))
        (getConfig net.nettype).targetBlockTime (difficultyMode net rows.length) := by
  by_cases hnil : topHash rows = 0
  · have hone : freshDifficulty calculation net 0 false [] = 1 := rfl
    rw [htop hnil, hone, powWindow_eq_nil _ (by decide)]
    exact (hcalculation _ _).symm
  · exact getDifficultyForNextBlock_empty hnil

variable (hdistinct : DistinctHashes known)

include hdistinct

section

variable (hs : CacheSound calculation net known s)

include hs

/-- A sound cache that is not stale gives the fresh difficulty, and stays sound. -/
theorem CacheSound.query
    (hfresh : topHash s.rows ≠ s.cache.topHash → s.rows.length < 2 → s.cache.timestamps = []) :
    (getDifficultyForNextBlock calculation net 0 false s.rows s.cache).1 =
        freshDifficulty calculation net 0 false s.rows ∧
      CacheSound calculation net known
        ⟨s.rows, (getDifficultyForNextBlock calculation net 0 false s.rows s.cache).2⟩ := by
  by_cases htop : topHash s.rows = s.cache.topHash
  · have hkept : getDifficultyForNextBlock calculation net 0 false s.rows s.cache =
        (s.cache.difficulty, s.cache) := by
      unfold getDifficultyForNextBlock
      rw [if_neg (by decide), if_neg (by decide), if_pos htop]
    obtain ⟨rows, hgrown, htop', hdifficulty⟩ := hs.entry
    obtain rfl := hgrown.unique hdistinct hs.grown (htop'.trans htop.symm)
    rw [hkept]
    exact ⟨hdifficulty.symm, hs⟩
  · have hfill : fillTimestampsAndDifficultiesForPow net s.rows s.cache =
        windowArrays net s.rows := by
      refine fill_of_window (fun htwo => ?_) fun hheight => (hs.window hheight).2
      have hts := hfresh htop htwo
      have hds := hs.paired
      rw [hts, length_nil, eq_comm, length_eq_zero_iff] at hds
      exact ⟨hts, hds⟩
    have heq := @freshDifficulty_eq _ net hcalculation s.rows (hs.grown.eq_nil hdistinct)
    have hcalculated : getDifficultyForNextBlock calculation net 0 false s.rows s.cache =
        (freshDifficulty calculation net 0 false s.rows,
          ⟨(windowArrays net s.rows).1, (windowArrays net s.rows).2, s.rows.length,
            topHash s.rows, freshDifficulty calculation net 0 false s.rows⟩) := by
      unfold getDifficultyForNextBlock
      rw [if_neg (by decide), if_neg (by decide), if_neg htop, hfill, heq]
      rfl
    rw [hcalculated]
    refine ⟨rfl, hs.grown, fun _ => ⟨le_refl _, ?_⟩, ?_, s.rows, hs.grown, rfl, rfl⟩
    · dsimp only
      rw [take_length]
      exact ⟨rfl, rfl⟩
    · exact (length_map _).trans (length_map _).symm

/-- A block of either kind is asked for. -/
theorem CacheSound.ask {step : DifficultyStep} {pulse : Bool} (hasks : s.asks step = some pulse)
    (hstale : ¬s.Stale 0 step) :
    (getDifficultyForNextBlock calculation net 0 pulse s.rows s.cache).1 =
        freshDifficulty calculation net 0 pulse s.rows ∧
      CacheSound calculation net known
        ⟨s.rows, (getDifficultyForNextBlock calculation net 0 pulse s.rows s.cache).2⟩ := by
  cases pulse with
  | true => exact ⟨rfl, hs⟩
  | false =>
    refine hs.query hcalculation hdistinct fun htop hshort => ?_
    by_contra hne
    exact hstale ⟨hasks, rfl, htop, hshort, hne⟩

/-- A step that is not stale answers as with empty caches and keeps the invariant. -/
theorem CacheSound.step {step : DifficultyStep} (hstep : ∀ block, step = .add block → block ∈ known)
    (hstale : ¬s.Stale 0 step) :
    s.AnswersFresh calculation net 0 step ∧
      CacheSound calculation net known (s.step calculation net 0 step) := by
  have hask (pulse : Bool) (hasks : s.asks step = some pulse) :=
    hs.ask hcalculation hdistinct hasks hstale
  refine ⟨fun pulse hasks => (hask pulse hasks).1, ?_⟩
  cases step with
  | query pulse => exact (hask pulse rfl).2
  | add block =>
    unfold DifficultyState.step
    dsimp only
    split
    · rename_i hprev
      have hasks : s.asks (.add block) = some block.hasPulse := if_pos hprev
      obtain ⟨hanswer, hsound⟩ := hask _ hasks
      rw [hanswer]
      refine ⟨hs.grown.add (hstep block rfl) hprev, fun hheight => ?_, hsound.paired, hsound.entry⟩
      obtain ⟨hle, harrays⟩ := hsound.window hheight
      rw [take_append_of_le_length hle]
      exact ⟨le_trans hle (by simp), harrays⟩
    · exact hs
  | pop =>
    refine hs.invalidated ?_
    split
    · exact hs.grown.dropLast
    · exact hs.grown
  | reset => exact hs.invalidated Grown.nil
  | invalidate => exact hs.invalidated hs.grown
  | restart => exact { cacheSound_start with grown := hs.grown, window := fun h => absurd rfl h }

end

end

/-! ## The shape of a run

How difficulties are calculated decides about the numbers, but not about which blocks are on the
chain or which timestamps are kept.
-/

/-- Two states that differ in their difficulties only. -/
structure SameShape (s s' : DifficultyState) : Prop where
  blocks : s.rows.map ChainRow.block = s'.rows.map ChainRow.block
  timestamps : s.cache.timestamps = s'.cache.timestamps
  difficulties : s.cache.difficulties.length = s'.cache.difficulties.length
  height : s.cache.height = s'.cache.height
  topHash : s.cache.topHash = s'.cache.topHash

variable {fixedDifficulty : UInt64} {calculation : Calculation} {s : DifficultyState}

namespace SameShape

variable {s s' : DifficultyState}

theorem refl (s : DifficultyState) : SameShape s s := ⟨rfl, rfl, rfl, rfl, rfl⟩

section

variable (h : SameShape s s')

include h

theorem symm : SameShape s' s :=
  ⟨h.blocks.symm, h.timestamps.symm, h.difficulties.symm, h.height.symm, h.topHash.symm⟩

theorem length_rows : s.rows.length = s'.rows.length := by
  have hlength := congrArg List.length h.blocks
  rwa [length_map, length_map] at hlength

theorem topHash_rows : Blockchain.topHash s.rows = Blockchain.topHash s'.rows := by
  have heq (rows : List ChainRow) : Blockchain.topHash rows =
      ((rows.map ChainRow.block).getLast?.map Block.hash).getD 0 := by
    rw [getLast?_map, Option.map_map]
    rfl
  rw [heq, heq, h.blocks]

theorem timestampsOf_rows : timestampsOf s.rows = timestampsOf s'.rows := by
  have heq (rows : List ChainRow) : timestampsOf rows =
      (rows.map ChainRow.block).map Block.timestamp := by
    rw [map_map]
    rfl
  rw [heq, heq, h.blocks]

/-- The same timestamps are filled in, and as many difficulties. -/
theorem fill (net : Network) :
    (fillTimestampsAndDifficultiesForPow net s.rows s.cache).1 =
        (fillTimestampsAndDifficultiesForPow net s'.rows s'.cache).1 ∧
      (fillTimestampsAndDifficultiesForPow net s.rows s.cache).2.length =
        (fillTimestampsAndDifficultiesForPow net s'.rows s'.cache).2.length := by
  have hdrop (n : ℕ) (rows : List ChainRow) :
      timestampsOf (rows.drop n) = (timestampsOf rows).drop n := map_drop
  have htake (n : ℕ) (rows : List ChainRow) :
      timestampsOf (rows.take n) = (timestampsOf rows).take n := map_take
  have hlength (rows : List ChainRow) : (difficultiesOf rows).length = rows.length := length_map _
  unfold fillTimestampsAndDifficultiesForPow
  dsimp only
  rw [h.length_rows, h.height, h.timestamps, h.difficulties]
  split
  · exact ⟨rfl, h.difficulties⟩
  · split <;>
      simp only [hdrop, htake, h.timestampsOf_rows, h.difficulties, length_lastN,
        length_append, hlength, length_drop, length_take, h.length_rows, true_and]

/-- The cache keeps its shape when a difficulty is asked for, whatever the calculation is. -/
theorem ask (calculation calculation' : Calculation) (net : Network) (fixedDifficulty : UInt64)
    (pulse : Bool) {rows rows' : List ChainRow}
    (hrows : rows.map ChainRow.block = rows'.map ChainRow.block) :
    SameShape
      ⟨rows, (getDifficultyForNextBlock calculation net fixedDifficulty pulse s.rows s.cache).2⟩
      ⟨rows',
        (getDifficultyForNextBlock calculation' net fixedDifficulty pulse s'.rows s'.cache).2⟩ := by
  have hfill := h.fill net
  unfold getDifficultyForNextBlock
  rw [h.topHash_rows, h.topHash]
  split
  · exact ⟨hrows, h.timestamps, h.difficulties, h.height, h.topHash⟩
  · split
    · exact ⟨hrows, h.timestamps, h.difficulties, h.height, h.topHash⟩
    · split
      · exact ⟨hrows, h.timestamps, h.difficulties, h.height, h.topHash⟩
      · exact ⟨hrows, hfill.1, hfill.2, h.length_rows, rfl⟩

theorem step (calculation calculation' : Calculation) (net : Network) (fixedDifficulty : UInt64)
    (step : DifficultyStep) :
    SameShape (s.step calculation net fixedDifficulty step)
      (s'.step calculation' net fixedDifficulty step) := by
  cases step with
  | query pulse => exact h.ask calculation calculation' net fixedDifficulty pulse h.blocks
  | add block =>
    unfold DifficultyState.step
    dsimp only
    rw [h.topHash_rows]
    split
    · refine h.ask calculation calculation' net fixedDifficulty block.hasPulse ?_
      rw [map_append, map_append, h.blocks]
      rfl
    · exact h
  | pop =>
    refine ⟨?_, h.timestamps, h.difficulties, rfl, h.topHash⟩
    unfold DifficultyState.step
    dsimp only
    rw [h.length_rows]
    split
    · rw [map_dropLast, map_dropLast, h.blocks]
    · exact h.blocks
  | reset => exact ⟨rfl, h.timestamps, h.difficulties, rfl, h.topHash⟩
  | invalidate => exact ⟨h.blocks, h.timestamps, h.difficulties, rfl, h.topHash⟩
  | restart => exact ⟨h.blocks, rfl, rfl, rfl, rfl⟩

theorem stale {step : DifficultyStep}
    (hstale : s.Stale fixedDifficulty step) : s'.Stale fixedDifficulty step := by
  have hasks : s.asks step = s'.asks step := by
    cases step <;> simp only [DifficultyState.asks, h.topHash_rows]
  obtain ⟨hask, hfixed, htop, hshort, hkept⟩ := hstale
  exact ⟨hasks ▸ hask, hfixed, by rwa [← h.topHash_rows, ← h.topHash], h.length_rows ▸ hshort,
    h.timestamps ▸ hkept⟩

end

end SameShape

/-! ## Fresh answers -/

/-- The calculation that tells whether there are any timestamps. -/
def tellingCalculation : Calculation := fun timestamps _ _ _ => if timestamps = [] then 1 else 2

/-- A stale step answers with what the kept arrays give. -/
theorem DifficultyState.Stale.not_fresh {step : DifficultyStep}
    (h : s.Stale fixedDifficulty step) (net : Network) :
    ¬s.AnswersFresh tellingCalculation net fixedDifficulty step := by
  obtain ⟨hasks, rfl, htop, hshort, hkept⟩ := h
  have hone : freshDifficulty tellingCalculation net 0 false s.rows = 1 := by
    unfold freshDifficulty getDifficultyForNextBlock fillTimestampsAndDifficultiesForPow
    rw [if_neg (by decide), if_neg (by decide), if_pos hshort]
    split <;> rfl
  have htwo : (getDifficultyForNextBlock tellingCalculation net 0 false s.rows s.cache).1 = 2 := by
    unfold getDifficultyForNextBlock fillTimestampsAndDifficultiesForPow
    rw [if_neg (by decide), if_neg (by decide), if_neg htop, if_pos hshort]
    exact if_neg hkept
  intro hfresh
  have heq := hfresh false hasks
  rw [hone, htwo] at heq
  exact absurd heq (by decide)

/-- With a fixed difficulty nothing is kept. -/
theorem DifficultyState.answersFresh_fixed {net : Network}
    (hfixed : fixedDifficulty ≠ 0) (s : DifficultyState)
    (step : DifficultyStep) : s.AnswersFresh calculation net fixedDifficulty step := by
  intro pulse _
  unfold freshDifficulty getDifficultyForNextBlock
  rw [if_pos hfixed, if_pos hfixed]

/-- All along a run without a stale step, the answers are as with empty caches. -/
theorem CacheSound.answersFresh {net : Network} {known : List Block}
    (hcalculation : ∀ target mode, calculation [] [] target mode = 1)
    (hdistinct : DistinctHashes known)
    (hs : CacheSound calculation net known s) {steps : List DifficultyStep}
    (hsteps : ∀ block, .add block ∈ steps → block ∈ known)
    (h : AllAlong (DifficultyState.step calculation net 0) (fun s step => ¬s.Stale 0 step) s
      steps) :
    AllAlong (DifficultyState.step calculation net 0)
      (DifficultyState.AnswersFresh calculation net 0) s steps := by
  induction steps generalizing s with
  | nil => trivial
  | cons step _ ih =>
    obtain ⟨hstale, hrest⟩ := h
    have hknown (block : Block) (heq : step = .add block) : block ∈ known :=
      hsteps block (mem_cons.mpr (.inl heq.symm))
    obtain ⟨hanswer, hnext⟩ := hs.step hcalculation hdistinct hknown hstale
    exact ⟨hanswer, ih hnext (fun block hmem => hsteps block (mem_cons_of_mem _ hmem)) hrest⟩

/-- Whatever way of calculating is used that gives one for no blocks at all, the answers along a run
are those of empty caches exactly if no step of the run is stale. -/
theorem difficulty_answers_fresh_iff (net : Network) (fixedDifficulty : UInt64)
    {known : List Block} (hdistinct : DistinctHashes known) {steps : List DifficultyStep}
    (hsteps : ∀ block, .add block ∈ steps → block ∈ known) (average : Average) :
    (∀ calculation : Calculation, (∀ target mode, calculation [] [] target mode = 1) →
      AllAlong (DifficultyState.step calculation net fixedDifficulty)
        (DifficultyState.AnswersFresh calculation net fixedDifficulty) {} steps) ↔
      AllAlong (DifficultyState.step (nextDifficultyV2 average) net fixedDifficulty)
        (fun s step => ¬s.Stale fixedDifficulty step) {} steps := by
  -- which steps are stale does not depend on the calculation
  have hshape (calculation calculation' : Calculation)
      (h : AllAlong (DifficultyState.step calculation net fixedDifficulty)
        (fun s step => ¬s.Stale fixedDifficulty step) {} steps) :
      AllAlong (DifficultyState.step calculation' net fixedDifficulty)
        (fun s step => ¬s.Stale fixedDifficulty step) {} steps := by
    refine .related (R := SameShape) ?_ ?_ (SameShape.refl {}) h
    · intro s s' step hR
      exact hR.step calculation calculation' net fixedDifficulty step
    · intro s s' step hR hstale hstale'
      exact hstale (hR.symm.stale hstale')
  constructor
  · intro hfresh
    refine hshape tellingCalculation _ ?_
    refine (hfresh tellingCalculation (fun _ _ => rfl)).related (fun _ _ _ heq => heq ▸ rfl) ?_ rfl
    rintro s _ step rfl hanswer hstale
    exact hstale.not_fresh net hanswer
  · intro hnever calculation hcalculation
    have hnever' := hshape _ calculation hnever
    by_cases hfixed : fixedDifficulty = 0
    · subst hfixed
      exact cacheSound_start.answersFresh hcalculation hdistinct hsteps hnever'
    · refine hnever'.related (fun _ _ _ heq => heq ▸ rfl) ?_ rfl
      rintro s _ step rfl -
      exact s.answersFresh_fixed hfixed step

/-- The first blocks of a chain, a second apart. -/
def quickBlock (height : ℕ) : Block where
  majorVersion := Hf.hf7
  height
  hash := BitVec.ofNat _ (height + 1)
  prevId := BitVec.ofNat _ height
  timestamp := UInt64.ofNat height

/-- Five blocks, a query, and all but the first block popped. -/
def quickRun : List DifficultyStep :=
  (List.range 5).map (fun height => .add (quickBlock height)) ++
    [.query false, .pop, .pop, .pop, .pop]

/-- A run that asks no more is never stale. -/
theorem difficulty_answers_fresh_quick :
    AllAlong (DifficultyState.step (nextDifficultyV2 exactAverage) { nettype := .mainnet } 0)
      (DifficultyState.AnswersFresh (nextDifficultyV2 exactAverage) { nettype := .mainnet } 0) {}
      quickRun := by
  have hdistinct : DistinctHashes ((List.range 5).map quickBlock) :=
    ⟨by decide +kernel, by decide +kernel⟩
  have hsteps : ∀ block, .add block ∈ quickRun → block ∈ (List.range 5).map quickBlock := by
    intro block h
    simpa [quickRun] using h
  refine (difficulty_answers_fresh_iff { nettype := .mainnet } 0 hdistinct hsteps
    exactAverage).mpr ?_ _ fun _ _ => rfl
  decide +kernel

/-- After it, the first block alone has the difficulty of five. -/
theorem difficulty_of_popped_blocks :
    let mainnet : Network := { nettype := .mainnet }
    let calculation := nextDifficultyV2 exactAverage
    let s := quickRun.foldl (DifficultyState.step calculation mainnet 0) {}
    s.rows.length = 1 ∧
      (getDifficultyForNextBlock calculation mainnet 0 false s.rows s.cache).1 = 19 ∧
      freshDifficulty calculation mainnet 0 false s.rows = 1 := by
  decide +kernel

end Xeqm.Blockchain
