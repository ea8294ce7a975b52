import Xeqm.Blockchain.Switching
import Xeqm.Common.Median

/-!
# Alternative blocks

`handle_alternative_block`: a block that does not extend the main chain is checked, stored
among the alternative blocks, checked again, and may make its chain the main one.
-/

namespace Xeqm.Blockchain

open Cryptonote ServiceNodes Checkpoints Lib

variable {σ : Type}

variable (checkpoints : Registry) (chain : ChainState σ) (alt : AltBlock)

/-! ## The alternative chain -/

/-- The stored blocks from one on down to the main chain, in this order; none if they never
get there. -/
def altAncestors (store : AltStore) : ℕ → Hash → Option (List AltBlock)
  | 0, _ => none
  | fuel + 1, prevId =>
    match store.find? (Ranked.rank prevId) with
    | none => some []
    | some alt => (altAncestors store fuel alt.block.prevId).map (alt :: ·)

/-- Whether an alternative block carries a checkpoint or is the block of a stored one. -/
def isCheckpointed : Bool :=
  let check := checkpoints.checkBlock alt.height alt.block.hash
  alt.checkpoint.isSome || check.isACheckpoint && check.result

/-- Whether the checkpoint that is stored for the height of a block is for another block. -/
def isContradicted (height : ℕ) (hash : Hash) : Bool :=
  let check := checkpoints.checkBlock height hash
  check.isACheckpoint && !check.result

/-- A stored block as it goes into the alternative chain: with the stored checkpoint, if it is
its own and none came with the block. -/
def extendedInfo : AltBlock :=
  if alt.checkpoint.isNone ∧ isCheckpointed checkpoints alt then
    { alt with checkpoint := checkpoints.store.getBlockCheckpoint alt.height }
  else alt

@[simp]
theorem extendedInfo_block : (extendedInfo checkpoints alt).block = alt.block := by
  unfold extendedInfo
  split <;> rfl

@[simp]
theorem extendedInfo_height : (extendedInfo checkpoints alt).height = alt.height := by
  unfold extendedInfo
  split <;> rfl

/-- An alternative chain from the main chain on, the timestamps for its next block, and the
checkpoints counted for it and against it. -/
structure BuiltChain where
  chain : List AltBlock
  timestamps : List UInt64
  numAltCheckpoints : ℕ
  numCheckpoints : ℕ

/-- `BLOCKCHAIN_TIMESTAMP_CHECK_WINDOW`. -/
def timestampCheckWindow : ℕ := 11

/-- `complete_timestamps_vector`. -/
def completeTimestampsVector (startTopHeight : ℕ) (timestamps : List UInt64) : List UInt64 :=
  if timestamps.length ≥ timestampCheckWindow then timestamps
  else if startTopHeight ≥ chain.height then timestamps
  else
    let stop := startTopHeight - (timestampCheckWindow - timestamps.length)
    let rows := (chain.rows.take (startTopHeight + 1)).drop (stop + 1)
    timestamps ++ rows.reverse.map (fun row => row.block.timestamp)

/-- The chain of some stored blocks, given from the last one down, on a block of the main
chain. -/
def builtChain (ancestors : List AltBlock) (rootHeight : ℕ) : BuiltChain :=
  { chain := (ancestors.map (extendedInfo chain.checkpoints)).reverse
    timestamps := completeTimestampsVector chain rootHeight
      (ancestors.map (fun alt => alt.block.timestamp))
    numAltCheckpoints := ancestors.countP (isCheckpointed chain.checkpoints)
    numCheckpoints := ancestors.countP (fun alt =>
      isContradicted chain.checkpoints alt.height alt.block.hash) }

/-- `build_alt_chain`, with the verdict if it fails. -/
def buildAltChain (prevId : Hash) : ChainM σ (Except Verdict BuiltChain) := do
  let chain ← get
  let ancestors ← orThrow .diverges
    (altAncestors chain.altBlocks (chain.altBlocks.size + 1) prevId)
  let cleanup : ChainM σ (Except Verdict BuiltChain) := do
    ancestors.reverse.forM (fun alt => removeAltBlock alt.block.hash)
    pure (.error .failed)
  match ancestors.getLast? with
  | none =>
    if chain.blockExists prevId then
      let rootHeight ← orThrow .blockDne (chain.getBlockHeight prevId)
      pure (.ok (builtChain chain ancestors rootHeight))
    else pure (.error { result := false })
  | some front =>
    let root := front.block.prevId
    let below ← orThrow .blockDne (chain.rowBelow front.height)
    if chain.height < front.height ∨ !chain.blockExists root ∨ below.block.hash ≠ root then cleanup
    else
      let (allowed, checkpoints) :=
        chain.checkpoints.isAlternativeBlockAllowed chain.height front.height
      modify (fun chain => { chain with checkpoints })
      if allowed then
        let rootHeight ← orThrow .blockDne (chain.getBlockHeight root)
        pure (.ok (builtChain chain ancestors rootHeight))
      else cleanup

/-! ## The choice between the chains -/

/-- `PULSE_BASE_WEIGHT`. -/
def pulseBaseWeight : UInt64 := 144403552893600

/-- `MIN_WEIGHT_INCREMENT`. -/
def minWeightIncrement : UInt64 := 1

/-- What a block adds to the weight of its chain. -/
def blockChoiceWeight (block : Block) : UInt64 :=
  minWeightIncrement +
    if block.hasPulse then pulseBaseWeight / (1 + block.pulse.round.toUInt64) else 0

/-- The weight of a chain of blocks. -/
def chainWeight (blocks : List Block) : UInt64 :=
  blocks.foldl (fun weight block => weight + blockChoiceWeight block) 0

/-- What is done with an alternative chain. -/
inductive Choice
  /-- The main chain cannot be read. -/
  | failed
  | stay
  | switch (keepDisconnectedChain : Bool)
  deriving DecidableEq

/-- The choice between the main chain and the alternative one, given the checkpoints counted
for and against the latter and its cumulative difficulty. -/
def chooseChain (majorVersion : Hf) (altChain : List AltBlock)
    (numAltCheckpoints numCheckpoints : ℕ) (altDifficulty : UInt64) : Choice :=
  if majorVersion ≥ Hf.hf16Pulse then
    if numAltCheckpoints > numCheckpoints then .switch false
    else if numAltCheckpoints = numCheckpoints then
      let start := (altChain.head?.map AltBlock.height).getD 0
      let finish := max ((altChain.getLast?.map AltBlock.height).getD 0 + 1) chain.height
      match chain.getBlocks start (finish - start) with
      | none => .failed
      | some blocks =>
        if chainWeight (altChain.map AltBlock.block) > chainWeight blocks then .switch false
        else .stay
    else .stay
  else
    match chain.rows.getLast? with
    | none => .failed
    | some top =>
      let greaterPow : Bool := altDifficulty > top.cumulativeDifficulty
      if majorVersion ≥ Hf.hf13EnforceCheckpoints then
        if numAltCheckpoints > numCheckpoints then .switch false
        else if greaterPow ∧ numAltCheckpoints = numCheckpoints then .switch true
        else .stay
      else if greaterPow then .switch true
      else .stay

/-! ## Handling a block -/

/-- `MONEY_SUPPLY`. -/
def moneySupply : UInt64 := 0 - 1

/-- A block that has passed the checks before it is stored: its row and its chain. -/
structure Pending where
  alt : AltBlock
  built : BuiltChain

/-- The cumulative difficulty of the parent, with `none` if it cannot be read. -/
def prevDifficulty (prevData : Option AltBlock) (prevId : Hash) : Option UInt64 :=
  match prevData with
  | some prev => some prev.cumulativeDifficulty
  | none => do
    let row ← chain.rowAt (← chain.getBlockHeight prevId)
    pure row.cumulativeDifficulty

/-- The coins generated up to the parent, with `none` if they cannot be read. -/
def prevCoins (prevData : Option AltBlock) (height : ℕ) : Option UInt64 :=
  match prevData with
  | some prev => some prev.alreadyGeneratedCoins
  | none => (chain.rowBelow height).map ChainRow.generatedCoins

variable (rules : Rules σ)

/-- The part of `handle_alternative_block` before the block is stored. -/
def checkAlternative (block : Block) (checkpoint : Option Checkpoint) :
    ChainM σ (Except Verdict Pending) := do
  let chain ← get
  let prevData := chain.getAltBlock block.prevId
  if !chain.blockExists block.prevId && prevData.isNone then
    pure (.error { result := true, bvc := { markedAsOrphaned := true } })
  else if !(← basicBlockChecks rules block true) then pure (.error .failed)
  else
    match ← buildAltChain block.prevId with
    | .error verdict => pure (.error verdict)
    | .ok built =>
      if Tools.median built.timestamps > block.timestamp then pure (.error .failed)
      else
        let difficulty := rules.altDifficulty chain built.chain block.height block.hasPulse
        if !block.hasPulse && !rules.verifyBlockPow chain block difficulty then
          pure (.error .failed)
        else
          let prevDifficulty ← orThrow .blockDne (prevDifficulty chain prevData block.prevId)
          if (chain.getAltBlock block.hash).isSome then pure (.error { result := false })
          else
            match rules.altBlockWeight chain block with
            | none => pure (.error .failed)
            | some weight =>
              let reward := (block.minerVouts.map Prod.snd).sum
              let prevCoins ← orThrow .blockDne (prevCoins chain prevData block.height)
              let alt : AltBlock :=
                { block, checkpoint
                  height := block.height
                  cumulativeWeight := weight
                  cumulativeDifficulty := difficulty + prevDifficulty
                  alreadyGeneratedCoins :=
                    if reward < moneySupply - prevCoins then prevCoins + reward else moneySupply }
              pure (.ok { alt, built })

/-- The checks of `handle_alternative_block` once the block is stored, with the verdict if one
of them fails. -/
def checkStored (block : Block) (checkpoint : Option Checkpoint) : ChainM σ (Option Verdict) := do
  let chain ← get
  let check := chain.checkpoints.checkBlock block.height block.hash
  if checkpoint.isNone && !check.result && !check.serviceNodeCheckpoint then pure (some .failed)
  else
    match rules.altBlockTxs chain block with
    | .failed => pure (some .failed)
    | .unknown => pure (some { result := false })
    | .found txs =>
      let (added, rest) := rules.altBlockAdd chain block txs checkpoint
      set { chain with rest }
      if added then pure none else pure (some { result := false })

/-- The choice for a stored block, which counts with its own checkpoint. -/
def Pending.choose (pending : Pending) (chain : ChainState σ) : Choice :=
  chooseChain chain pending.alt.block.majorVersion (pending.built.chain ++ [pending.alt])
    (pending.built.numAltCheckpoints + if pending.alt.checkpoint.isSome then 1 else 0)
    (pending.built.numCheckpoints +
      if isContradicted chain.checkpoints pending.alt.height pending.alt.block.hash then 1 else 0)
    pending.alt.cumulativeDifficulty

/-- `handle_alternative_block`, with a bound on how often it is entered anew for the blocks of
an old chain. -/
def handleAlternativeBlock : ℕ → Block → Option Checkpoint → ChainM σ Verdict
  | 0, _, _ => throw .diverges
  | fuel + 1, block, checkpoint => do
    match ← checkAlternative rules block checkpoint with
    | .error verdict => pure verdict
    | .ok pending =>
      addAltBlock pending.alt
      match ← checkStored rules block checkpoint with
      | some verdict => pure verdict
      | none =>
        match pending.choose (← get) with
        | .failed => pure { result := false }
        | .stay => pure { result := true }
        | .switch keepDisconnectedChain =>
          let switched ← switchToAlternativeBlockchain rules (handleAlternativeBlock fuel)
            (pending.built.chain ++ [pending.alt]) keepDisconnectedChain
          if switched then pure { result := true, bvc := { addedToMainChain := true } }
          else pure .failed

end Xeqm.Blockchain
