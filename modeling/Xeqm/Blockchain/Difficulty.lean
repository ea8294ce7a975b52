import Mathlib.Data.Rat.Floor
import Xeqm.Blockchain.State
import Xeqm.Lib.Window

/-!
# Difficulties

The difficulty that `get_difficulty_for_next_block` asks of the next block of the main chain, and
the one that `get_difficulty_for_alternative_chain` asks of the next block of a branch. Each picks
the blocks that it looks at, their number and the rules of the calculation on its own.
-/

namespace Xeqm.Blockchain

open Cryptonote Lib List

variable (net : Network) (rows : List ChainRow)

/-! ## The calculation -/

/-- `old::DIFFICULTY_WINDOW`. -/
def difficultyWindow : ℕ := 59

/-- `old::DIFFICULTY_BLOCKS_COUNT`. -/
def difficultyBlocksCount (beforeHf16 : Bool) : ℕ :=
  if beforeHf16 then difficultyWindow + 2 else difficultyWindow + 1

/-- `PULSE_FIXED_DIFFICULTY`. -/
def pulseFixedDifficulty : UInt64 := 1000000

/-- `DEVNET_DIFF_CAP`. -/
def devnetDiffCap : UInt64 := 2000

/-- `difficulty_calc_mode`. -/
inductive DifficultyCalcMode
  | useOldLwma
  | hf12Override
  | hf16Override
  | devnet
  | normal
  deriving DecidableEq

/-- The networks with a cap on every difficulty. -/
def isCapped (nettype : NetworkType) : Bool :=
  nettype = .devnet ∨ nettype = .localdev ∨ nettype = .stagenet

/-- Whether a height is among the first of a hard fork, as many as the window has. -/
def startsFork (version : Hf) (height : ℕ) : Bool :=
  match hardForkFirstHeight version (getHardForks net) with
  | none => false
  | some start => start ≤ height ∧ height ≤ start + difficultyWindow

/-- `difficulty_mode`. -/
def difficultyMode (height : ℕ) : DifficultyCalcMode :=
  if isCapped net.nettype then .devnet
  else if !isHardForkAtLeast net Hf.hf10Bulletproofs height then .useOldLwma
  else if startsFork net Hf.hf12Checkpointing height then .hf12Override
  else if net.nettype = .mainnet ∧ startsFork net Hf.hf16Pulse height then .hf16Override
  else .normal

/-- The floating-point part of `next_difficulty_v2`: what it makes of timestamps, cumulative
difficulties, the target time and the choice of the old average. -/
abbrev Average := List UInt64 → List UInt64 → ℕ → Bool → UInt64

/-- The caps at the end of `next_difficulty_v2`. -/
def capDifficulty (targetSeconds : ℕ) (mode : DifficultyCalcMode) (nextDifficulty : UInt64) :
    UInt64 :=
  match mode with
  | .devnet => min nextDifficulty devnetDiffCap
  | .hf12Override => min nextDifficulty (30000000 * UInt64.ofNat targetSeconds)
  | .hf16Override => min nextDifficulty pulseFixedDifficulty
  | .useOldLwma | .normal => nextDifficulty

/-- `next_difficulty_v2`. The arrays are cut to the window at their end. -/
def nextDifficultyV2 (average : Average) (timestamps cumulativeDifficulties : List UInt64)
    (targetSeconds : ℕ) (mode : DifficultyCalcMode) : UInt64 :=
  if timestamps.length < 4 then 1
  else
    let nextDifficulty := average (timestamps.take (difficultyWindow + 1))
      (cumulativeDifficulties.take (difficultyWindow + 1)) targetSeconds (mode = .useOldLwma)
    capDifficulty targetSeconds mode (if nextDifficulty = 0 then 1 else nextDifficulty)

/-- The average of `next_difficulty_v2` over rational numbers, as its floating-point numbers
approximate it. -/
def exactAverage : Average := fun timestamps cumulativeDifficulties targetSeconds oldLwma =>
  let target : ℤ := targetSeconds
  let n := timestamps.length - 1
  let k : ℚ := (n * (n + 1) / 2 : ℕ)
  let solveTimes := List.zipWith (fun before after : UInt64 =>
    let solveTime : ℤ := after.toNat - before.toNat
    let solveTime := if oldLwma then max solveTime (-7 * target) else solveTime
    min solveTime (7 * target)) timestamps timestamps.tail
  let difficulties := List.zipWith (fun before after => after - before) cumulativeDifficulties
    cumulativeDifficulties.tail
  let lwma : ℚ := ((solveTimes.zipIdx 1).map (fun t => (t.1 * t.2 : ℚ) / k)).sum
  let harmonicMean : ℚ := n / (difficulties.map (fun d => 1 / (d.toNat : ℚ))).sum
  let lwma : ℚ := if round lwma < target / 20 then (target / 20 : ℤ) else lwma
  UInt64.ofNat ⌊harmonicMean * target / lwma * (998 / 1000)⌋₊

/-! ## The main chain -/

/-- Any way to calculate a difficulty. -/
abbrev Calculation := List UInt64 → List UInt64 → ℕ → DifficultyCalcMode → UInt64

/-- The blocks that a difficulty depends on, the first block of the chain never among them. -/
def powWindow (count : ℕ) (rows : List ChainRow) : List ChainRow :=
  rows.drop (max (rows.length - count) 1)

/-- The number of blocks that count at a height of the main chain. -/
def powCount (chainHeight : ℕ) : ℕ :=
  difficultyBlocksCount (!isHardForkAtLeast net Hf.hf16Pulse chainHeight)

/-- The timestamps of some blocks. -/
def timestampsOf : List UInt64 := rows.map (fun row => row.block.timestamp)

/-- The cumulative difficulties of some blocks. -/
def difficultiesOf : List UInt64 := rows.map ChainRow.cumulativeDifficulty

/-- The part of `m_cache` that keeps difficulties. -/
structure DifficultyCache where
  timestamps : List UInt64 := []
  difficulties : List UInt64 := []
  /-- `m_timestamps_and_difficulties_height`. -/
  height : ℕ := 0
  /-- `m_difficulty_for_next_block_top_hash`. -/
  topHash : Hash := 0
  /-- `m_difficulty_for_next_miner_block`. -/
  difficulty : UInt64 := 1
  deriving DecidableEq

/-- `top_block_hash`. -/
def topHash : Hash := (rows.getLast?.map (fun row => row.block.hash)).getD 0

/-- `fill_timestamps_and_difficulties_for_pow`, with `add_timestamp_and_difficulty` at its end. The
chain is as high as it is given to be. -/
def fillTimestampsAndDifficultiesForPow (cache : DifficultyCache) : List UInt64 × List UInt64 :=
  let chainHeight := rows.length
  if chainHeight < 2 then (cache.timestamps, cache.difficulties)
  else
    let blockCount := powCount net chainHeight
    let (timestamps, difficulties) :=
      if cache.height = 0 ∨ chainHeight ≠ cache.height + 1 ∨
          cache.timestamps.length > blockCount ∨ cache.difficulties.length > blockCount then
        let startHeight := max (chainHeight - min chainHeight blockCount) 1
        let missing := (rows.take (chainHeight - 1)).drop startHeight
        (timestampsOf missing, difficultiesOf missing)
      else (cache.timestamps, cache.difficulties)
    let top := rows.drop (chainHeight - 1)
    (lastN blockCount (timestamps ++ timestampsOf top),
      lastN blockCount (difficulties ++ difficultiesOf top))

/-- `get_difficulty_for_next_block`: the difficulty and the cache after it. -/
def getDifficultyForNextBlock (calculation : Calculation) (net : Network)
    (fixedDifficulty : UInt64) (pulse : Bool) (rows : List ChainRow) (cache : DifficultyCache) :
    UInt64 × DifficultyCache :=
  if fixedDifficulty ≠ 0 then (if rows.length = 0 then 1 else fixedDifficulty, cache)
  else if pulse then
    (if isCapped net.nettype then min pulseFixedDifficulty devnetDiffCap else pulseFixedDifficulty,
      cache)
  else if topHash rows = cache.topHash then (cache.difficulty, cache)
  else
    let (timestamps, difficulties) := fillTimestampsAndDifficultiesForPow net rows cache
    let difficulty := calculation timestamps difficulties (getConfig net.nettype).targetBlockTime
      (difficultyMode net rows.length)
    (difficulty, ⟨timestamps, difficulties, rows.length, topHash rows, difficulty⟩)

/-! ## Alternative chains -/

/-- The number of blocks that count for the next block of a branch: it depends on the version of the
last block of the branch, or else on the height of the main chain of now. -/
def altCount (chainHeight : ℕ) (altChain : List AltBlock) : ℕ :=
  difficultyBlocksCount
    (match altChain.getLast? with
      | some last => last.block.majorVersion < Hf.hf16Pulse
      | none => !isHardForkAtLeast net Hf.hf16Pulse chainHeight)

/-- `get_difficulty_for_alternative_chain`. -/
def getDifficultyForAlternativeChain (calculation : Calculation) (net : Network)
    (fixedDifficulty : UInt64) (pulse : Bool) (rows : List ChainRow) (altChain : List AltBlock)
    (altBlockHeight : ℕ) : UInt64 :=
  if fixedDifficulty ≠ 0 then if rows.length = 0 then 1 else fixedDifficulty
  else if pulse then pulseFixedDifficulty
  else
    let blockCount := altCount net rows.length altChain
    let stop := (altChain.head?.map AltBlock.height).getD altBlockHeight
    let altTimestamps := altChain.map (fun alt => alt.block.timestamp)
    let altDifficulties := altChain.map AltBlock.cumulativeDifficulty
    let mode := difficultyMode net (stop + altChain.length + 1)
    let target := (getConfig net.nettype).targetBlockTime
    if altChain.length < blockCount then
      let mainChainCount := min (blockCount - min blockCount altChain.length) stop
      let start := stop - mainChainCount
      let start := if start = 0 then start + 1 else start
      let missing := (rows.take stop).drop start
      -- the source returns `false` here
      if altChain.length + missing.length > blockCount then 0
      else
        calculation (timestampsOf missing ++ altTimestamps)
          (difficultiesOf missing ++ altDifficulties) target mode
    else
      calculation (lastN blockCount altTimestamps) (lastN blockCount altDifficulties) target mode

/-- The row that an alternative block gets on the main chain, as far as difficulties go. -/
def AltBlock.toRow (alt : AltBlock) : ChainRow where
  block := alt.block
  cumulativeDifficulty := alt.cumulativeDifficulty

/-! ## The windows -/

section

variable {net : Network} {rows : List ChainRow} {branch : List AltBlock} {stop count : ℕ}

theorem difficultyBlocksCount_cases (before : Bool) :
    difficultyBlocksCount before = 60 ∨ difficultyBlocksCount before = 61 := by
  cases before
  · exact .inl rfl
  · exact .inr rfl

theorem powCount_cases (net : Network) (chainHeight : ℕ) :
    powCount net chainHeight = 60 ∨ powCount net chainHeight = 61 :=
  difficultyBlocksCount_cases _

theorem altCount_cases (net : Network) (chainHeight : ℕ) (branch : List AltBlock) :
    altCount net chainHeight branch = 60 ∨ altCount net chainHeight branch = 61 :=
  difficultyBlocksCount_cases _

theorem timestampsOf_append (l l' : List ChainRow) :
    timestampsOf (l ++ l') = timestampsOf l ++ timestampsOf l' :=
  map_append

theorem difficultiesOf_append (l l' : List ChainRow) :
    difficultiesOf (l ++ l') = difficultiesOf l ++ difficultiesOf l' :=
  map_append

theorem timestampsOf_lastN (n : ℕ) (l : List ChainRow) :
    timestampsOf (lastN n l) = lastN n (timestampsOf l) :=
  map_lastN

theorem difficultiesOf_lastN (n : ℕ) (l : List ChainRow) :
    difficultiesOf (lastN n l) = lastN n (difficultiesOf l) :=
  map_lastN

theorem length_powWindow (hcount : 0 < count) (rows : List ChainRow) :
    (powWindow count rows).length = min count (rows.length - 1) := by
  unfold powWindow
  rw [length_drop]
  omega

/-- The blocks below the top and the top. -/
theorem drop_take_append_drop {start : ℕ} (h : start ≤ rows.length - 1) :
    (rows.take (rows.length - 1)).drop start ++ rows.drop (rows.length - 1) = rows.drop start := by
  have hlength : start ≤ (rows.take (rows.length - 1)).length := by
    rw [length_take]
    omega
  rw [← drop_append_of_le_length hlength, take_append_drop]

/-- The arrays that hold the window of the chain. -/
def windowArrays (net : Network) (rows : List ChainRow) : List UInt64 × List UInt64 :=
  (timestampsOf (powWindow (powCount net rows.length) rows),
    difficultiesOf (powWindow (powCount net rows.length) rows))

/-- Without a cache, the window of the chain is filled in. -/
theorem fill_refill {cache : DifficultyCache} (htwo : 2 ≤ rows.length)
    (hrefill : cache.height = 0 ∨ rows.length ≠ cache.height + 1 ∨
      cache.timestamps.length > powCount net rows.length ∨
      cache.difficulties.length > powCount net rows.length) :
    fillTimestampsAndDifficultiesForPow net rows cache = windowArrays net rows := by
  unfold fillTimestampsAndDifficultiesForPow windowArrays
  dsimp only
  rw [if_neg (by omega), if_pos hrefill]
  have hcount := powCount_cases net rows.length
  generalize powCount net rows.length = count at *
  have hstart : max (rows.length - min rows.length count) 1 = max (rows.length - count) 1 := by
    omega
  have hjoin : (rows.take (rows.length - 1)).drop (max (rows.length - min rows.length count) 1) ++
      rows.drop (rows.length - 1) = powWindow count rows := by
    rw [hstart, drop_take_append_drop (by omega)]
    rfl
  have hlength : (powWindow count rows).length ≤ count := by
    rw [length_powWindow (by omega)]
    exact min_le_left _ _
  rw [← timestampsOf_append, ← difficultiesOf_append, hjoin, ← timestampsOf_lastN,
    ← difficultiesOf_lastN, lastN_of_length_le hlength]

/-- Arrays that hold the window of the chain below its top give the window of the chain. -/
theorem lastN_powWindow_append (htwo : 2 ≤ rows.length) {count count' : ℕ}
    (hcount : count = 60 ∨ count = 61) (hcount' : count' = 60 ∨ count' = 61) :
    lastN count' (powWindow count (rows.take (rows.length - 1)) ++ rows.drop (rows.length - 1)) =
      powWindow count' rows := by
  have hlength : (rows.take (rows.length - 1)).length = rows.length - 1 := by
    rw [length_take]
    omega
  unfold powWindow lastN
  rw [hlength, drop_take_append_drop (by omega), drop_drop, length_drop]
  congr 1
  omega

theorem powWindow_eq_nil (count : ℕ) (h : rows.length < 2) : powWindow count rows = [] :=
  drop_eq_nil_of_le (by omega)

/-- Arrays that hold the window of an earlier part of the chain, or are not to count, lead to the
window of the chain. -/
theorem fill_of_window {cache : DifficultyCache}
    (hshort : rows.length < 2 → cache.timestamps = [] ∧ cache.difficulties = [])
    (hcache : cache.height ≠ 0 →
      cache.timestamps =
          timestampsOf (powWindow (powCount net cache.height) (rows.take cache.height)) ∧
        cache.difficulties =
          difficultiesOf (powWindow (powCount net cache.height) (rows.take cache.height))) :
    fillTimestampsAndDifficultiesForPow net rows cache = windowArrays net rows := by
  by_cases htwo : rows.length < 2
  · obtain ⟨hts, hds⟩ := hshort htwo
    unfold fillTimestampsAndDifficultiesForPow windowArrays
    rw [hts, hds, powWindow_eq_nil _ htwo]
    exact if_pos htwo
  by_cases hrefill : cache.height = 0 ∨ rows.length ≠ cache.height + 1 ∨
      cache.timestamps.length > powCount net rows.length ∨
      cache.difficulties.length > powCount net rows.length
  · exact fill_refill (not_lt.mp htwo) hrefill
  · unfold fillTimestampsAndDifficultiesForPow windowArrays
    dsimp only
    rw [if_neg htwo, if_neg hrefill]
    push Not at hrefill
    obtain ⟨hheight, hnext, -⟩ := hrefill
    have hbelow : rows.length - 1 = cache.height := by omega
    have hwindow := lastN_powWindow_append (not_lt.mp htwo) (powCount_cases net cache.height)
      (powCount_cases net rows.length)
    obtain ⟨hts, hds⟩ := hcache hheight
    rw [hts, hds, ← timestampsOf_append, ← difficultiesOf_append, ← timestampsOf_lastN,
      ← difficultiesOf_lastN]
    rw [hbelow] at hwindow ⊢
    rw [hwindow]

/-- The arrays that the alternative chain collects, from the main chain and from its own blocks. -/
theorem alt_window (hstop : 0 < stop) (hrows : stop ≤ rows.length)
    (hcount : branch.length < count) :
    let start := stop - min (count - min count branch.length) stop
    (rows.take stop).drop (if start = 0 then start + 1 else start) ++ branch.map AltBlock.toRow =
      powWindow count (rows.take stop ++ branch.map AltBlock.toRow) := by
  intro start
  unfold powWindow
  have hlength : (rows.take stop ++ branch.map AltBlock.toRow).length = stop + branch.length := by
    rw [length_append, length_take, length_map]
    omega
  have hstart : (if start = 0 then start + 1 else start) =
      max (stop + branch.length - count) 1 := by
    split <;> omega
  have hle : max (stop + branch.length - count) 1 ≤ (rows.take stop).length := by
    rw [length_take]
    omega
  rw [hstart, hlength, drop_append_of_le_length hle]

/-- A branch that is long enough has the whole window. -/
theorem alt_window_long (hstop : 0 < stop) (hrows : stop ≤ rows.length)
    (hcount : count ≤ branch.length) :
    lastN count (branch.map AltBlock.toRow) =
      powWindow count (rows.take stop ++ branch.map AltBlock.toRow) := by
  have htake : (rows.take stop).length = stop := by
    rw [length_take]
    omega
  have hmax : max (stop + branch.length - count) 1 = stop + (branch.length - count) := by omega
  unfold powWindow lastN
  rw [length_append, htake, length_map, hmax, ← drop_drop]
  congr 1
  have hdrop := @drop_left _ (rows.take stop) (branch.map AltBlock.toRow)
  rw [htake] at hdrop
  exact hdrop.symm

/-- With empty caches, the difficulty is calculated from the window of the chain. -/
theorem getDifficultyForNextBlock_empty {calculation : Calculation} (hhash : topHash rows ≠ 0) :
    (getDifficultyForNextBlock calculation net 0 false rows {}).1 =
      calculation (timestampsOf (powWindow (powCount net rows.length) rows))
        (difficultiesOf (powWindow (powCount net rows.length) rows))
        (getConfig net.nettype).targetBlockTime (difficultyMode net rows.length) := by
  have hfill : fillTimestampsAndDifficultiesForPow net rows {} = windowArrays net rows :=
    fill_of_window (fun _ => ⟨rfl, rfl⟩) fun h => absurd rfl h
  unfold getDifficultyForNextBlock
  rw [if_neg (by decide), if_neg (by decide), if_neg hhash, hfill]
  rfl

/-- The difficulty of the next block of a branch is calculated from the window of the chain that the
branch would make, but with a count and a mode of its own. -/
theorem getDifficultyForAlternativeChain_eq (calculation : Calculation) (hstop : 0 < stop)
    (hrows : stop ≤ rows.length) (hbranch : ∀ first ∈ branch.head?, first.height = stop) :
    getDifficultyForAlternativeChain calculation net 0 false rows branch (stop + branch.length) =
      let window := powWindow (altCount net rows.length branch)
        (rows.take stop ++ branch.map AltBlock.toRow)
      calculation (timestampsOf window) (difficultiesOf window)
        (getConfig net.nettype).targetBlockTime
        (difficultyMode net (stop + branch.length + 1)) := by
  have hfirst : (branch.head?.map AltBlock.height).getD (stop + branch.length) = stop := by
    cases branch with
    | nil => rfl
    | cons first => exact hbranch first rfl
  have hts : branch.map (fun alt => alt.block.timestamp) =
      timestampsOf (branch.map AltBlock.toRow) := by
    unfold timestampsOf
    rw [map_map]
    rfl
  have hds : branch.map AltBlock.cumulativeDifficulty =
      difficultiesOf (branch.map AltBlock.toRow) := by
    unfold difficultiesOf
    rw [map_map]
    rfl
  have hcount := altCount_cases net rows.length branch
  unfold getDifficultyForAlternativeChain
  rw [if_neg (by decide), if_neg (by decide)]
  dsimp only
  rw [hfirst, hts, hds]
  split
  · rename_i hshort
    have hwindow := alt_window hstop hrows hshort
    have hlength := congrArg List.length hwindow
    rw [length_powWindow (by omega), length_append, length_map] at hlength
    rw [if_neg (by omega), ← timestampsOf_append, ← difficultiesOf_append, hwindow]
  · rename_i hlong
    have hwindow := alt_window_long hstop hrows (not_lt.mp hlong)
    rw [← timestampsOf_lastN, ← difficultiesOf_lastN, hwindow]

end

/-! ## Agreement

A branch should be judged as the main chain that it would make. The two functions agree on the
window unless a hard fork changes its size in between, and on the mode unless it changes at the
height: the alternative chain looks one height further.
-/

/-- What `next_difficulty_v2` makes of the last blocks of a chain before it applies a cap. -/
def averageOf (average : Average) (net : Network) (count : ℕ) (oldLwma : Bool)
    (chain : List ChainRow) : UInt64 :=
  let window := powWindow count chain
  let nextDifficulty := average ((timestampsOf window).take (difficultyWindow + 1))
    ((difficultiesOf window).take (difficultyWindow + 1)) (getConfig net.nettype).targetBlockTime
    oldLwma
  if nextDifficulty = 0 then 1 else nextDifficulty

/-- The two functions take the same average for the next block of a branch that makes a chain:
over as many blocks, as far as that matters, and both the old one or both the new one. -/
def SameAverage (net : Network) (chainHeight : ℕ) (branch : List AltBlock)
    (chain : List ChainRow) : Prop :=
  (chain.length ≤ difficultyWindow + 2 ∨
      altCount net chainHeight branch = powCount net chain.length) ∧
    (difficultyMode net (chain.length + 1) = .useOldLwma ↔
      difficultyMode net chain.length = .useOldLwma)

instance (net : Network) (chainHeight : ℕ) (branch : List AltBlock) (chain : List ChainRow) :
    Decidable (SameAverage net chainHeight branch chain) :=
  inferInstanceAs (Decidable (_ ∧ _))

/-- The two functions come to the same difficulty for the next block of a branch. A Pulse block
needs a network without a cap. For a mined one they take the same average and are in the same mode,
or no cap is below that average; or the two averages they take are the same under the caps. -/
def SameDifficulty (average : Average) (net : Network) (chainHeight : ℕ) (pulse : Bool)
    (branch : List AltBlock) (chain : List ChainRow) : Prop :=
  if pulse then isCapped net.nettype = false
  else
    let mode := difficultyMode net (chain.length + 1)
    let mode' := difficultyMode net chain.length
    let cap := capDifficulty (getConfig net.nettype).targetBlockTime
    let next := averageOf average net (altCount net chainHeight branch) (mode = .useOldLwma) chain
    let next' := averageOf average net (powCount net chain.length) (mode' = .useOldLwma) chain
    chain.length ≤ 4 ∨
      if SameAverage net chainHeight branch chain then
        mode = mode' ∨ cap mode next = next ∧ cap mode' next = next
      else cap mode next = cap mode' next'

section

variable {net : Network} {rows : List ChainRow} {branch : List AltBlock}

theorem targetBlockTime_cases (nettype : NetworkType) :
    (getConfig nettype).targetBlockTime ∈ [5, 30, 60] := by
  cases nettype <;> decide

theorem min_eq_min_iff {next cap cap' : UInt64} (h : cap ≠ cap') :
    min next cap = min next cap' ↔ min next cap = next ∧ min next cap' = next := by
  change (if next ≤ cap then next else cap) = (if next ≤ cap' then next else cap') ↔
    (if next ≤ cap then next else cap) = next ∧ (if next ≤ cap' then next else cap') = next
  split_ifs <;> grind

/-- Different modes with the same average have different caps. -/
theorem capDifficulty_eq_iff {mode mode' : DifficultyCalcMode} {next : UInt64} {target : ℕ}
    (htarget : target ∈ [5, 30, 60]) (hold : mode = .useOldLwma ↔ mode' = .useOldLwma) :
    capDifficulty target mode next = capDifficulty target mode' next ↔ mode = mode' ∨
      capDifficulty target mode next = next ∧ capDifficulty target mode' next = next := by
  by_cases hsame : mode = mode'
  · rw [hsame]
    exact iff_of_true rfl (.inl rfl)
  rw [or_iff_right hsame]
  have hcaps : devnetDiffCap ≠ pulseFixedDifficulty ∧ ∀ target ∈ [5, 30, 60],
      30000000 * UInt64.ofNat target ≠ devnetDiffCap ∧
      30000000 * UInt64.ofNat target ≠ pulseFixedDifficulty := by decide
  obtain ⟨hdevnet, hpulse⟩ := hcaps.2 target htarget
  cases mode <;> cases mode' <;> first
    | exact absurd rfl hsame
    | exact absurd (hold.mp rfl) (by decide)
    | exact absurd (hold.mpr rfl) (by decide)
    | exact min_eq_min_iff hcaps.1
    | exact min_eq_min_iff hcaps.1.symm
    | exact min_eq_min_iff hdevnet
    | exact min_eq_min_iff hdevnet.symm
    | exact min_eq_min_iff hpulse
    | exact min_eq_min_iff hpulse.symm
    | exact ⟨fun h => ⟨rfl, h.symm⟩, fun h => h.2.symm⟩
    | exact ⟨fun h => ⟨h, rfl⟩, fun h => h.1⟩

/-- The size of the window makes no difference on a short chain. -/
theorem powWindow_of_short {count count' : ℕ} (hcount : count = 60 ∨ count = 61)
    (hcount' : count' = 60 ∨ count' = 61) (hshort : rows.length ≤ difficultyWindow + 2) :
    powWindow count rows = powWindow count' rows := by
  unfold difficultyWindow at hshort
  unfold powWindow
  congr 1
  omega

/-- The difficulty that follows from the last blocks of a chain. -/
theorem nextDifficultyV2_powWindow {average : Average} {count : ℕ} (hcount : count = 60 ∨ count = 61)
    (mode : DifficultyCalcMode) :
    nextDifficultyV2 average (timestampsOf (powWindow count rows))
        (difficultiesOf (powWindow count rows)) (getConfig net.nettype).targetBlockTime mode =
      if rows.length ≤ 4 then 1
      else capDifficulty (getConfig net.nettype).targetBlockTime mode
        (averageOf average net count (mode = .useOldLwma) rows) := by
  have hlength : (timestampsOf (powWindow count rows)).length = min count (rows.length - 1) := by
    unfold timestampsOf
    rw [length_map, length_powWindow (by omega)]
  unfold nextDifficultyV2
  rw [hlength]
  by_cases hfour : rows.length ≤ 4
  · rw [if_pos (by omega), if_pos hfour]
  · rw [if_neg (by omega), if_neg hfour]
    rfl

end

/-- A chain with blocks a minute apart, of the same difficulty each. -/
def steadyRow (version : Hf) (height : ℕ) : ChainRow where
  block :=
    { majorVersion := version, height, hash := BitVec.ofNat _ (height + 1)
      prevId := BitVec.ofNat _ height, timestamp := 60 * UInt64.ofNat height }
  cumulativeDifficulty := 2000001 * UInt64.ofNat (height + 1)

/-- The block of a steady chain, as an alternative block. -/
def steadyAlt (version : Hf) (height : ℕ) : AltBlock where
  block := (steadyRow version height).block
  height
  cumulativeDifficulty := (steadyRow version height).cumulativeDifficulty

end Xeqm.Blockchain
