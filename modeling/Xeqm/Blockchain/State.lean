import Xeqm.Checkpoints.Finality

/-!
# The state of a blockchain

The main chain, the alternative blocks and the checkpoints of `Blockchain`, and the queries
that its functions make on them. What lies outside, such as the transaction pool and the
service node list, is one more component that the rules of the chain act on.
-/

namespace Xeqm.Blockchain

open Cryptonote ServiceNodes Checkpoints Lib

/-- A row of `blocks`: a block of the main chain with what is stored about it. -/
structure ChainRow where
  block : Block
  weight : UInt64 := 0
  longTermWeight : UInt64 := 0
  cumulativeDifficulty : UInt64 := 0
  generatedCoins : UInt64 := 0
  /-- Whether the body of the block is still there. -/
  hasBody : Bool := true
  deriving DecidableEq

/-- A row of `alt_blocks`; in memory, `block_extended_info`. -/
structure AltBlock where
  block : Block
  height : ℕ
  cumulativeWeight : UInt64 := 0
  cumulativeDifficulty : UInt64 := 0
  alreadyGeneratedCoins : UInt64 := 0
  checkpoint : Option Checkpoint := none
  deriving DecidableEq

/-- The alternative blocks, each under its hash. -/
abbrev AltStore := OrdSet (fun alt : AltBlock => Ranked.rank alt.block.hash)

/-- `block_and_checkpoint`. -/
structure BlockAndCheckpoint where
  block : Block
  checkpoint : Option Checkpoint
  deriving DecidableEq

/-- `Blockchain`: the main chain from its first block on, the alternative blocks, the
checkpoints, the blocks known to be invalid, and the rest of the daemon. -/
structure ChainState (σ : Type) where
  rows : List ChainRow
  altBlocks : AltStore := OrdSet.empty
  checkpoints : Registry := {}
  invalidBlocks : List Hash := []
  rest : σ

/-- The exceptions of the database and of the chain. -/
inductive Fault
  | blockDne
  | dbError
  | cannotPopGenesis
  /-- No exception: the code does not return. -/
  | diverges
  deriving DecidableEq

/-- Computations on the chain. -/
abbrev ChainM (σ : Type) := EStateM Fault (ChainState σ)

/-- `block_verification_context`. -/
structure BlockVerificationContext where
  addedToMainChain : Bool := false
  verificationFailed : Bool := false
  markedAsOrphaned : Bool := false
  deriving DecidableEq

/-- What a function that handles a block returns, with the context it has filled. -/
structure Verdict where
  result : Bool
  bvc : BlockVerificationContext := {}
  deriving DecidableEq

/-- A block that fails verification. -/
def Verdict.failed : Verdict := { result := false, bvc := { verificationFailed := true } }

/-- The block was accepted on the main chain. -/
abbrev Verdict.accepted (verdict : Verdict) : Prop :=
  verdict.result = true ∧ verdict.bvc.addedToMainChain = true

namespace ChainState

variable {σ : Type} (chain : ChainState σ)

/-- The blocks of the main chain. -/
def mainChain : List Block := chain.rows.map ChainRow.block

/-- `height`, the number of blocks. -/
def height : ℕ := chain.rows.length

/-- `top_block_hash`. -/
def topBlockHash : Hash := (chain.rows.getLast?.map (fun row => row.block.hash)).getD 0

/-- `block_exists`. -/
def blockExists (hash : Hash) : Bool := chain.rows.any (fun row => row.block.hash = hash)

/-- The row of a height, with `none` for a `BLOCK_DNE`. -/
def rowAt (height : ℕ) : Option ChainRow := chain.rows[height]?

/-- The row below a height. -/
def rowBelow (height : ℕ) : Option ChainRow := if height = 0 then none else chain.rowAt (height - 1)

/-- `get_block_height`. -/
def getBlockHeight (hash : Hash) : Option ℕ := chain.rows.findIdx? (fun row => row.block.hash = hash)

/-- `get_alt_block`. -/
def getAltBlock (hash : Hash) : Option AltBlock := chain.altBlocks.find? (Ranked.rank hash)

/-- `_get_blocks`: the blocks from a height on, as far as there are any, if all their bodies
are there. -/
def getBlocks (start count : ℕ) : Option (List Block) :=
  if start ≥ chain.height then none
  else
    let rows := (chain.rows.drop start).take count
    if rows.all ChainRow.hasBody then some (rows.map ChainRow.block) else none

/-- `add_block_as_invalid`. -/
def addBlockAsInvalid (block : Block) : ChainState σ :=
  { chain with invalidBlocks := if block.hash ∈ chain.invalidBlocks then chain.invalidBlocks
      else block.hash :: chain.invalidBlocks }

end ChainState

section

variable {σ : Type}

/-- A value that the database may not have. -/
def orThrow {α : Type} (fault : Fault) : Option α → ChainM σ α
  | some a => pure a
  | none => throw fault

/-- `add_alt_block`. -/
def addAltBlock (alt : AltBlock) : ChainM σ Unit := do
  if ((← get).getAltBlock alt.block.hash).isSome then throw .dbError
  else modify (fun chain => { chain with altBlocks := OrdSet.insert alt chain.altBlocks })

/-- `remove_alt_block`. -/
def removeAltBlock (hash : Hash) : ChainM σ Unit := do
  if ((← get).getAltBlock hash).isSome then
    modify (fun chain => { chain with altBlocks := OrdSet.erase chain.altBlocks (Ranked.rank hash) })
  else throw .dbError

end

end Xeqm.Blockchain
