import Xeqm.Blockchain.State

/-!
# Switching to an alternative chain

Blocks are popped down to where the alternative chain starts, then the alternative blocks
are added one by one; if one of them fails, the chain is rolled back and the popped blocks
are added again.
-/

namespace Xeqm.Blockchain

open Cryptonote ServiceNodes Checkpoints Lib

/-- What the checks of `handle_block_to_main_chain` come to before the block goes to the
database: a rejection, which may note the block as invalid, or the columns of its row. -/
inductive MainCheck (σ : Type)
  | rejected (invalid : Bool) (rest : σ)
  | passed (weight longTermWeight cumulativeDifficulty generatedCoins : UInt64) (rest : σ)

/-- The transactions of an alternative block: the query fails, one is not known or cannot be
parsed, or all are found. -/
inductive TxLookup
  | failed
  | unknown
  | found (txs : List Transaction)

/-- The rules of the chain that read or change the rest of the daemon. -/
structure Rules (σ : Type) where
  net : Network
  /-- `m_max_sync_height`. -/
  maxSyncHeight : ℕ := 0
  /-- `trim_history`: the height below which no bodies are kept, 0 for a full node. -/
  trimTarget : List ChainRow → ℕ := fun _ => 0
  /-- The checks of `basic_block_checks` on the block alone; the flag marks an alternative one. -/
  basicChecks : ChainState σ → Block → Bool → Bool
  /-- The checks of `handle_block_to_main_chain` up to `add_block`. -/
  checkMainBlock : ChainState σ → Block → MainCheck σ
  /-- `block_add` of the service node list and of the name system, and the hooks before that
  of the checkpoints. -/
  blockAdd : ChainState σ → Block → Option Checkpoint → Bool × σ
  /-- What popping a block does, such as returning its transactions to the pool. -/
  popped : Block → σ → σ
  /-- The hooks for a chain that was cut, other than that of the checkpoints. -/
  detached : ℕ → σ → σ
  /-- The hooks after a switch. -/
  postAdd : List Block → σ → σ
  /-- `get_difficulty_for_alternative_chain`. -/
  altDifficulty : ChainState σ → List AltBlock → ℕ → Bool → UInt64
  /-- `verify_block_pow`. -/
  verifyBlockPow : ChainState σ → Block → UInt64 → Bool
  /-- The weight of an alternative block, unless it has a transaction that cannot be parsed. -/
  altBlockWeight : ChainState σ → Block → Option UInt64
  /-- The transactions of an alternative block. -/
  altBlockTxs : ChainState σ → Block → TxLookup
  /-- The hooks for an alternative block, such as `service_node_list::alt_block_add`. -/
  altBlockAdd : ChainState σ → Block → List Transaction → Option Checkpoint → Bool × σ

variable {σ : Type} (rules : Rules σ)

/-- `basic_block_checks`. -/
def basicBlockChecks (block : Block) (altBlock : Bool) : ChainM σ Bool := do
  let chain ← get
  if rules.maxSyncHeight ≠ 0 ∧ block.height ≥ rules.maxSyncHeight then pure false
  else if altBlock then
    if block.height = 0 then pure false
    else
      let (allowed, checkpoints) :=
        chain.checkpoints.isAlternativeBlockAllowed chain.height block.height
      modify (fun chain => { chain with checkpoints })
      if !allowed then pure false
      else if block.majorVersion ≠ getNetworkVersion rules.net block.height then pure false
      else pure (rules.basicChecks chain block true)
  else
    let check := chain.checkpoints.checkBlock chain.height block.hash
    if block.prevId ≠ chain.topBlockHash then pure false
    else if block.majorVersion ≠ getNetworkVersion rules.net chain.height then pure false
    else if chain.checkpoints.isInCheckpointZone chain.height ∧ !check.result ∧
        (!check.serviceNodeCheckpoint ∨ block.majorVersion ≥ Hf.hf13EnforceCheckpoints) then
      pure false
    else pure (rules.basicChecks chain block false)

/-- `pop_block_from_db`. -/
def popBlockFromDb : ChainM σ Block := do
  let chain ← get
  if chain.height ≤ 1 then throw .cannotPopGenesis
  else
    match chain.rows.getLast? with
    | none => throw .blockDne
    | some top =>
      if !top.hasBody then throw .blockDne
      else
        set { chain with rows := chain.rows.dropLast, rest := rules.popped top.block chain.rest }
        pure top.block

/-- `exec_detach_hooks`. -/
def execDetachHooks (height : ℕ) : ChainM σ Unit :=
  modify (fun chain => { chain with
    checkpoints := chain.checkpoints.blockchainDetached height
    rest := rules.detached height chain.rest })

/-- `trim_history`: the bodies of old blocks go. -/
def trimHistory (rows : List ChainRow) : List ChainRow :=
  rows.mapIdx (fun height row =>
    { row with hasBody := row.hasBody && decide (rules.trimTarget rows ≤ height) })

/-- `handle_block_to_main_chain`. -/
def handleBlockToMainChain (block : Block) (checkpoint : Option Checkpoint) : ChainM σ Verdict := do
  if !(← basicBlockChecks rules block false) then pure .failed
  else
    match rules.checkMainBlock (← get) block with
    | .rejected invalid rest =>
      modify (fun chain =>
        { (if invalid then chain.addBlockAsInvalid block else chain) with rest })
      pure .failed
    | .passed weight longTermWeight cumulativeDifficulty generatedCoins rest =>
      let row : ChainRow :=
        { block, weight, longTermWeight, cumulativeDifficulty, generatedCoins }
      modify (fun chain => { chain with rows := chain.rows ++ [row], rest })
      let (added, rest) := rules.blockAdd (← get) block checkpoint
      modify (fun chain => { chain with rest })
      if !added then
        let _ ← popBlockFromDb rules
        execDetachHooks rules (← get).height
        pure .failed
      else
        modify (fun chain => { chain with
          rows := trimHistory rules chain.rows
          checkpoints := chain.checkpoints.blockAdd block checkpoint })
        pure { result := true, bvc := { addedToMainChain := true } }

/-- Pops blocks until the top one has a hash; the popped ones, from the lowest on, with their
checkpoints. -/
def popUntil (hash : Hash) :
    ℕ → List BlockAndCheckpoint → ChainM σ (List BlockAndCheckpoint)
  | 0, _ => throw .diverges
  | fuel + 1, disconnected => do
    if (← get).topBlockHash = hash then pure disconnected
    else
      let block ← popBlockFromDb rules
      let checkpoint := (← get).checkpoints.store.getBlockCheckpoint block.height
      popUntil hash fuel ({ block, checkpoint } :: disconnected)

/-- Pops blocks down to a height. -/
def popToHeight (height : ℕ) : ℕ → ChainM σ Unit
  | 0 => throw .diverges
  | fuel + 1 => do
    if (← get).height = height then pure ()
    else
      let _ ← popBlockFromDb rules
      popToHeight height fuel

/-- Adds the blocks of the original chain again, as long as they are accepted. -/
def readdChain : List BlockAndCheckpoint → ChainM σ Bool
  | [] => pure true
  | entry :: rest => do
    let verdict ← handleBlockToMainChain rules entry.block entry.checkpoint
    if verdict.accepted then readdChain rest else pure false

/-- `rollback_blockchain_switching`. -/
def rollbackBlockchainSwitching (originalChain : List BlockAndCheckpoint) (rollbackHeight : ℕ) :
    ChainM σ Bool := do
  let chain ← get
  if rollbackHeight > chain.height then pure true
  else
    popToHeight rules rollbackHeight (chain.height + 1)
    execDetachHooks rules rollbackHeight
    readdChain rules originalChain

/-- Adds the blocks of the alternative chain: the first one that fails and those after it. -/
def connectChain : List AltBlock → ChainM σ (Option (AltBlock × List AltBlock))
  | [] => pure none
  | alt :: rest => do
    let verdict ← handleBlockToMainChain rules alt.block alt.checkpoint
    if verdict.accepted then connectChain rest
    else pure (some (alt, rest))

/-- What is done once an alternative block has failed: the rollback, and its removal. The
blocks after it are noted as invalid, and for each of them the failed block is removed again. -/
def abandonChain (disconnected : List BlockAndCheckpoint) (splitHeight : ℕ) (alt : AltBlock)
    (later : List AltBlock) : ChainM σ Unit := do
  let _ ← rollbackBlockchainSwitching rules disconnected splitHeight
  modify (fun chain => chain.addBlockAsInvalid alt.block)
  removeAltBlock alt.block.hash
  later.forM (fun other => do
    modify (fun chain => chain.addBlockAsInvalid other.block)
    removeAltBlock alt.block.hash)

/-- `switch_to_alternative_blockchain`, given `handle_alternative_block` for the blocks of the
old chain. -/
def switchToAlternativeBlockchain (handleOld : Block → Option Checkpoint → ChainM σ Verdict)
    (altChain : List AltBlock) (keepDisconnectedChain : Bool) : ChainM σ Bool := do
  match altChain with
  | [] => pure false
  | front :: _ =>
    let chain ← get
    if !chain.blockExists front.block.prevId then pure false
    else
      let disconnected ← popUntil rules front.block.prevId (chain.height + 1) []
      let splitHeight := (← get).height
      execDetachHooks rules splitHeight
      match ← connectChain rules altChain with
      | some (alt, later) =>
        abandonChain rules disconnected splitHeight alt later
        pure false
      | none =>
        if keepDisconnectedChain then
          disconnected.forM (fun old => do let _ ← handleOld old.block old.checkpoint)
        altChain.forM (fun alt => removeAltBlock alt.block.hash)
        modify (fun chain => { chain with
          rest := rules.postAdd (altChain.map AltBlock.block) chain.rest })
        pure true

/-! ## Concrete runs -/

/-- Rules for concrete runs, which accept everything but some blocks. -/
def sampleRules (rejects : Block → Bool) : Rules Unit where
  net := { nettype := .fakechain, fakechainHardforks := [⟨Hf.hf16Pulse, 0, 0⟩] }
  basicChecks := fun _ _ _ => true
  checkMainBlock := fun _ block =>
    if rejects block then .rejected false () else .passed 0 0 0 0 ()
  blockAdd := fun _ _ _ => (true, ())
  popped := fun _ _ => ()
  detached := fun _ _ => ()
  postAdd := fun _ _ => ()
  altDifficulty := fun _ _ _ _ => 1
  verifyBlockPow := fun _ _ _ => true
  altBlockWeight := fun _ _ => some 0
  altBlockTxs := fun _ _ => .found []
  altBlockAdd := fun _ _ _ _ => (true, ())

/-- A mined block, with its hash and that of the block before it. -/
def sampleBlock (hash prevId : Hash) (height : ℕ) : Block :=
  { majorVersion := Hf.hf16Pulse, height, hash, prevId }

/-- A chain of blocks with some alternative blocks. -/
def sampleChain (main alt : List Block) (checkpoints : Store := {}) : ChainState Unit where
  rows := main.map (fun block => { block })
  altBlocks := alt.foldl (fun store block => OrdSet.insert { block, height := block.height } store)
    OrdSet.empty
  checkpoints := { store := checkpoints }
  rest := ()

end Xeqm.Blockchain
