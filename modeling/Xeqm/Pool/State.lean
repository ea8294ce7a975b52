import Mathlib.Algebra.GroupWithZero.Nat
import Mathlib.Data.Prod.Lex
import Mathlib.Algebra.Order.Ring.Rat
import Xeqm.Cryptonote.Transaction
import Xeqm.Lib.KeyMap

/-!
# The transaction pool

The class `tx_memory_pool`: a table of transactions in the database, and three structures in
memory that mirror it: the transactions that spend each key image, the transactions in the order
of their priority, and the weight of all of them. A change of the table that is not committed is
rolled back; the structures in memory are not.
-/

namespace Xeqm.Pool

open Cryptonote Lib

/-- `tx_priority`. -/
inductive TxPriority
  | l2Event
  | stateChange
  | standard
  deriving DecidableEq

/-- The place of a priority in the order. -/
def TxPriority.rank : TxPriority → ℕ
  | .l2Event => 0
  | .stateChange => 1
  | .standard => 2

/-- `is_l2_event_tx`. -/
def isL2EventTx : TxType → Bool
  | .ethereumServiceNodeExitRequest | .ethereumServiceNodeExit
  | .ethereumStakingRequirementUpdated | .ethereumPurgeMissingServiceNode
  | .ethereumNewServiceNodeV2 => true
  | .standard | .stateChange | .keyImageUnlock | .stake | .oxenNameSystem => false

/-- `transaction::is_transfer`. -/
def isTransfer : TxType → Bool
  | .standard | .stake | .oxenNameSystem => true
  | _ => false

/-- A transaction with its blob, as the pool sees it. -/
structure PoolTx where
  id : Hash
  /-- The number of its `txversion`. -/
  version : ℕ := 4
  type : TxType := .standard
  /-- `check_inputs_types_supported`: all inputs are of the type `txin_to_key`. -/
  inputsSupported : Bool := true
  /-- The key images of the inputs. -/
  keyImages : List KeyImage := []
  /-- The number of outputs. -/
  outputs : ℕ := 0
  /-- `rct_signatures.txnFee`. -/
  txnFee : ℕ := 0
  /-- `get_transaction_weight`. A transaction has a blob, so it weighs something. -/
  weight : ℕ
  weight_pos : 0 < weight := by decide
  deriving DecidableEq

/-- The priority of a transaction. -/
def PoolTx.priority (tx : PoolTx) : TxPriority :=
  if isL2EventTx tx.type then .l2Event
  else if !isTransfer tx.type then .stateChange
  else .standard

/-- `txpool_tx_meta_t`. -/
structure TxMeta where
  weight : ℕ
  fee : ℕ
  keptByBlock : Bool
  receiveTime : ℕ
  doubleSpendSeen : Bool
  deriving DecidableEq

/-- What the table holds for a transaction. -/
structure PoolEntry where
  tx : PoolTx
  info : TxMeta
  deriving DecidableEq

/-- `tx_by_fee_and_receive_time_entry`. -/
structure PriorityEntry where
  priority : TxPriority
  feePerByte : ℚ
  receiveTime : ℕ
  id : Hash
  deriving DecidableEq

/-- `txCompare`: by priority, descending fee, time and hash. -/
def PriorityEntry.key (entry : PriorityEntry) : ℕ ×ₗ ℚ ×ₗ ℕ ×ₗ ℕ :=
  toLex (entry.priority.rank, toLex (-entry.feePerByte,
    toLex (entry.receiveTime, Ranked.rank entry.id)))

/-- `key_images_container`. A key image that no transaction spends has no entry. -/
abbrev KeyImageIndex := KeyImage → List Hash

/-- `tx_memory_pool`. -/
structure TxPool where
  /-- The tables `txpool_meta` and `txpool_blob`. -/
  txs : KeyMap Hash PoolEntry := OrdSet.empty
  spentKeyImages : KeyImageIndex := fun _ => []
  txsByPriority : OrdSet PriorityEntry.key := OrdSet.empty
  txpoolWeight : ℕ := 0
  txpoolMaxWeight : ℕ
  timedOutTransactions : List Hash := []
  cookie : ℕ := 0

/-- `tx_pool_options`. -/
structure TxPoolOptions where
  keptByBlock : Bool := false
  approvedBlink : Bool := false
  feePercent : ℕ := 100
  burnFixed : ℕ := 0
  burnPercent : ℕ := 0
  deriving DecidableEq

/-- What the blockchain, the blinks and the clock answer during a call. -/
structure PoolEnv where
  readOnly : Bool := false
  hfVersion : Hf
  /-- `get_tx_miner_fee`, with the amount that is burned. -/
  minerFee : PoolTx → Option (ℕ × ℕ)
  checkFee : (weight outputs fee burned : ℕ) → TxPoolOptions → Bool
  /-- `have_duplicated_non_standard_tx`, over the transactions of the pool. -/
  duplicatedNonStandard : PoolTx → List PoolTx → Bool
  checkTxOutputs : PoolTx → Bool
  checkTxInputs : PoolTx → Bool
  /-- `m_blinks`. -/
  hasBlink : Hash → Bool
  /-- `get_transactions_heights`, with 0 for a transaction that is not mined. -/
  txHeight : Hash → ℕ
  immutableHeight : ℕ
  /-- `Blockchain::have_tx`. -/
  haveTx : Hash → Bool
  now : ℕ

/-- `get_transaction_weight_limit`. -/
def transactionWeightLimit (version : Hf) : ℕ :=
  if version ≥ Hf.hf10Bulletproofs then 300000 / 2 - 600 else 300000 - 600

namespace TxPool

variable (pool : TxPool)

variable (env : PoolEnv) (opts : TxPoolOptions) (tx : PoolTx) (id : Hash)

/-- `find_tx_in_sorted_container`. -/
def findInSorted : Option PriorityEntry :=
  pool.txsByPriority.toList.find? (fun entry => entry.id = id)

/-- `have_tx_keyimges_as_spent`. -/
def haveTxKeyimgesAsSpent : Bool :=
  tx.keyImages.any (fun image => pool.spentKeyImages image ≠ [])

/-- The conflicting transactions that `have_tx_keyimges_as_spent` collects. -/
def conflictTxs : List Hash := tx.keyImages.flatMap pool.spentKeyImages

/-! ## Key images -/

/-- The loop of `insert_key_images`. -/
def insertLoop (id : Hash) (keptByBlock : Bool) : List KeyImage → KeyImageIndex →
    Bool × KeyImageIndex
  | [], index => (true, index)
  | image :: images, index =>
    if !(keptByBlock || index image = []) then (false, index)
    else if id ∈ index image then (false, index)
    else insertLoop id keptByBlock images (Function.update index image (index image ++ [id]))

/-- `insert_key_images`. -/
def insertKeyImages (keptByBlock : Bool) : Bool × TxPool :=
  match insertLoop tx.id keptByBlock tx.keyImages pool.spentKeyImages with
  | (true, index) => (true, { pool with spentKeyImages := index, cookie := pool.cookie + 1 })
  | (false, index) => (false, { pool with spentKeyImages := index })

/-- The loop of `remove_transaction_keyimages`. -/
def removeLoop (id : Hash) : List KeyImage → KeyImageIndex → Bool × KeyImageIndex
  | [], index => (true, index)
  | image :: images, index =>
    if id ∉ index image then (false, index)
    else removeLoop id images (Function.update index image ((index image).erase id))

/-- `remove_transaction_keyimages`. -/
def removeTransactionKeyimages (actualHash : Hash) : TxPool :=
  match removeLoop actualHash tx.keyImages pool.spentKeyImages with
  | (true, index) => { pool with spentKeyImages := index, cookie := pool.cookie + 1 }
  | (false, index) => { pool with spentKeyImages := index }

/-! ## Removal -/

/-- What every removal does first: the table, the weight and the key images. The weight of a
consistent pool includes that of the entry, so that the subtraction does not wrap. -/
def detach (stored : PoolEntry) (weight : ℕ) : TxPool :=
  let pool := { pool with
    txs := pool.txs.remove id
    txpoolWeight := pool.txpoolWeight - weight }
  pool.removeTransactionKeyimages stored.tx id

/-- `m_txs_by_priority.erase`. -/
def eraseEntry (entry : PriorityEntry) : TxPool :=
  { pool with txsByPriority := pool.txsByPriority.erase entry.key }

/-- The erasure of an entry that is looked up, if it is found. -/
def eraseFound : TxPool :=
  match pool.findInSorted id with
  | some entry => pool.eraseEntry entry
  | none => pool

/-- `remove_tx`, with the place in the order if the caller has it. -/
def removeTx (txid : Hash) (place : Option PriorityEntry) : Bool × TxPool :=
  match place.or (pool.findInSorted txid) with
  | none => (false, pool)
  | some entry =>
    match pool.txs.get? txid with
    | none => (false, pool)
    | some stored => (true, (pool.detach txid stored stored.info.weight).eraseEntry entry)

/-- The removals of `remove_blink_conflicts`, up to the first that fails. -/
def removeTxs (pool : TxPool) : List Hash → Bool × TxPool
  | [] => (true, pool)
  | txid :: txids =>
    match pool.removeTx txid none with
    | (false, pool) => (false, pool)
    | (true, pool) => removeTxs pool txids

/-- The loop of `remove_blink_conflicts` over the conflicting transactions: those in the pool, and
the height to roll back to. -/
def sortConflicts (env : PoolEnv) (rollback : Option ℕ) : List Hash → List Hash × ℕ →
    Option (List Hash × ℕ)
  | [], found => some found
  | txid :: txids, (mempoolTxs, needed) =>
    if env.txHeight txid = 0 then sortConflicts env rollback txids (mempoolTxs ++ [txid], needed)
    else if env.txHeight txid > env.immutableHeight ∧ rollback.isSome then
      let needed := if needed = 0 ∨ needed > env.txHeight txid then env.txHeight txid else needed
      sortConflicts env rollback txids (mempoolTxs, needed)
    else none

/-- `remove_blink_conflicts`, with the rollback height that it leaves. -/
def removeBlinkConflicts (conflictTxs : List Hash) (rollback : Option ℕ) :
    Bool × Option ℕ × TxPool :=
  if conflictTxs.any env.hasBlink then (false, rollback, pool)
  else
    match sortConflicts env rollback conflictTxs ([], rollback.getD 0) with
    | none => (false, rollback, pool)
    | some (mempoolTxs, needed) =>
      match pool.removeTxs mempoolTxs with
      -- the table is rolled back
      | (false, after) => (false, rollback, { after with txs := pool.txs })
      | (true, after) =>
        (true, rollback.map (fun height => if needed < height then needed else height), after)

/-- `take_tx`. -/
def takeTx : Bool × TxPool :=
  match pool.txs.get? id with
  | none => (false, pool)
  | some stored =>
    let pool := (pool.detach id stored stored.info.weight).eraseFound id
    (true, { pool with cookie := pool.cookie + 1 })

/-! ## Pruning -/

/-- `try_pruning`. -/
def tryPruning (skip : Hash) (pool : TxPool) (entry : PriorityEntry) : Bool × TxPool :=
  match pool.txs.get? entry.id with
  | none => (false, pool)
  | some stored =>
    if stored.info.keptByBlock || env.hasBlink entry.id || entry.id = skip then (true, pool)
    else pool.removeTx entry.id (some entry)

/-- The loop of `prune` from the front: non-standard transactions that are too old. -/
def pruneOld (env : PoolEnv) (skip : Hash) : List PriorityEntry → TxPool → Bool × TxPool
  | [], pool => (true, pool)
  | entry :: entries, pool =>
    -- `MEMPOOL_PRUNE_NON_STANDARD_TX_LIFETIME` is an hour
    if entry.priority = .standard ∨ entry.receiveTime + 3600 ≥ env.now then (true, pool)
    else
      match tryPruning env skip pool entry with
      | (false, pool) => (false, pool)
      | (true, pool) => pruneOld env skip entries pool

/-- The loop of `prune` from the back: the lowest fees while the pool is too heavy. -/
def pruneHeavy (env : PoolEnv) (skip : Hash) : List PriorityEntry → TxPool → Bool × TxPool
  | [], pool => (true, pool)
  | entry :: entries, pool =>
    if pool.txpoolWeight ≤ pool.txpoolMaxWeight ∨ entry.priority ≠ .standard then (true, pool)
    else
      match tryPruning env skip pool entry with
      | (false, pool) => (false, pool)
      | (true, pool) => pruneHeavy env skip entries pool

/-- `prune`. -/
def prune (skip : Hash) : TxPool :=
  match pruneOld env skip pool.txsByPriority.toList pool with
  | (false, after) => { after with txs := pool.txs }
  | (true, after) =>
    -- the first transaction is never removed
    match pruneHeavy env skip after.txsByPriority.toList.tail.reverse after with
    | (false, after) => { after with txs := pool.txs }
    | (true, after) =>
      if after.txs.size ≠ pool.txs.size then { after with cookie := after.cookie + 1 } else after

/-! ## Addition -/

/-- Why a transaction is not added. -/
inductive AddTxError
  | readOnly
  | version0
  | timedOut
  | unsupportedInputs
  | feeTooLow
  | tooBig
  | doubleSpend
  | duplicateNonStandard
  | invalidOutput
  | invalidInput
  | keyImages
  deriving DecidableEq

/-- The update of one transaction by `mark_double_spend`. -/
def markOne (pool : TxPool) (txid : Hash) : TxPool :=
  { pool with txs := pool.txs.adjust txid (fun stored =>
      { stored with info := { stored.info with doubleSpendSeen := true } }) }

/-- `mark_double_spend`. -/
def markDoubleSpend : TxPool :=
  let conflicts := pool.conflictTxs tx
  let changed := conflicts.any (fun txid =>
    (pool.txs.get? txid).any (fun stored => !stored.info.doubleSpendSeen))
  let pool := conflicts.foldl markOne pool
  if changed then { pool with cookie := pool.cookie + 1 } else pool

/-- The checks of `add_tx` before it looks for conflicts, with the fee. -/
def earlyChecks : Except AddTxError ℕ :=
  if env.readOnly then .error .readOnly
  else if tx.version = 0 then .error .version0
  else if !opts.keptByBlock ∧ tx.id ∈ pool.timedOutTransactions then .error .timedOut
  else if !tx.inputsSupported then .error .unsupportedInputs
  else
    match env.minerFee tx with
    | none => .error .feeTooLow
    | some (fee, burned) =>
      if !opts.keptByBlock ∧ tx.version ≥ 2 ∧ burned > tx.txnFee then .error .feeTooLow
      else if !opts.keptByBlock ∧ isTransfer tx.type ∧
          !env.checkFee tx.weight tx.outputs fee burned opts then .error .feeTooLow
      else if (!opts.keptByBlock ∨ env.hfVersion ≥ Hf.hf10Bulletproofs) ∧
          tx.weight > transactionWeightLimit env.hfVersion then .error .tooBig
      else .ok fee

/-- What `add_tx` does about conflicts: whether the transaction is a double spend. -/
def resolveConflicts (rollback : Option ℕ) : Bool × Option ℕ × TxPool :=
  if !pool.haveTxKeyimgesAsSpent tx then (false, rollback, pool)
  else if opts.keptByBlock then
    ((pool.conflictTxs tx).any (fun txid => txid ≠ tx.id && env.hasBlink txid), rollback, pool)
  else if opts.approvedBlink then
    match pool.removeBlinkConflicts env (pool.conflictTxs tx) rollback with
    | (removed, rollback, after) => (!removed, rollback, after)
  else (true, rollback, pool)

/-- The part of `add_tx` that adds the transaction and then prunes. -/
def insertTx (fee : ℕ) : Option AddTxError × TxPool :=
  let info : TxMeta :=
    { weight := tx.weight
      fee
      keptByBlock := opts.keptByBlock
      receiveTime := env.now
      doubleSpendSeen := !env.checkTxInputs tx && (pool.haveTxKeyimgesAsSpent tx ||
        env.duplicatedNonStandard tx (pool.txs.toList.map (fun e => e.2.tx))) }
  match pool.insertKeyImages tx opts.keptByBlock with
  -- the table is rolled back
  | (false, after) => (some .keyImages, after)
  | (true, after) =>
    let entry : PriorityEntry :=
      { priority := tx.priority
        feePerByte := (fee : ℚ) / tx.weight
        receiveTime := env.now
        id := tx.id }
    let added := { after with
      txs := after.txs.set tx.id { tx, info }
      txsByPriority := after.txsByPriority.insert entry
      txpoolWeight := after.txpoolWeight + tx.weight
      cookie := after.cookie + 1 }
    (none, added.prune env tx.id)

/-- The checks of `add_tx` after the conflicts. -/
def lateChecks : Option AddTxError :=
  if !opts.keptByBlock ∧ env.duplicatedNonStandard tx (pool.txs.toList.map (fun e => e.2.tx)) then
    some .duplicateNonStandard
  else if !env.checkTxOutputs tx then some .invalidOutput
  -- a transaction of a block may become valid again
  else if !env.checkTxInputs tx ∧ !opts.keptByBlock then some .invalidInput
  else none

/-- `add_tx`: the reason if the transaction is not added, the rollback height and the pool. -/
def addTx (rollback : Option ℕ) : Option AddTxError × Option ℕ × TxPool :=
  match pool.earlyChecks env opts tx with
  | .error error => (some error, rollback, pool)
  | .ok fee =>
    match pool.resolveConflicts env opts tx rollback with
    | (true, rollback, pool) => (some .doubleSpend, rollback, pool.markDoubleSpend tx)
    | (false, rollback, pool) =>
      match pool.lateChecks env opts tx with
      | some .duplicateNonStandard =>
        (some .duplicateNonStandard, rollback, pool.markDoubleSpend tx)
      | some error => (some error, rollback, pool)
      | none =>
        let (error, pool) := pool.insertTx env opts tx fee
        (error, rollback, pool)

/-! ## Expiry and validation -/

/-- The age of a transaction, as an unsigned number. -/
def txAge (now receiveTime : ℕ) : ℕ := (now + 2 ^ 64 - receiveTime) % 2 ^ 64

/-- The transaction is older than `MEMPOOL_TX_LIVETIME`, or `MEMPOOL_TX_FROM_ALT_BLOCK_LIVETIME`
if it was in a block. -/
def isStuck (info : TxMeta) : Bool :=
  (txAge env.now info.receiveTime > 24 * 3600 && !info.keptByBlock) ||
    (txAge env.now info.receiveTime > 48 * 3600 && info.keptByBlock)

/-- What `remove_stuck_transactions` does while it goes through the table. -/
def timeOut (pool : TxPool) (id : Hash) : TxPool :=
  let pool := pool.eraseFound id
  { pool with timedOutTransactions := id :: pool.timedOutTransactions }

/-- What `remove_stuck_transactions` does afterwards. -/
def detachStuck (pool : TxPool) (e : Hash × PoolEntry) : TxPool :=
  match pool.txs.get? e.1 with
  | none => pool
  | some stored => pool.detach e.1 stored e.2.info.weight

/-- `remove_stuck_transactions`. -/
def removeStuckTransactions : TxPool :=
  let remove := pool.txs.toList.filter (fun e => isStuck env e.2.info)
  if env.readOnly ∨ remove = [] then pool
  else
    let pool := (remove.map Prod.fst).foldl timeOut pool
    let pool := remove.foldl detachStuck pool
    { pool with cookie := pool.cookie + 1 }

/-- The removal of one transaction by `validate`. -/
def removeInvalid (pool : TxPool) (e : Hash × PoolEntry) : TxPool :=
  match pool.txs.get? e.1 with
  | none => pool
  | some stored => (pool.detach e.1 stored stored.tx.weight).eraseFound e.1

/-- `validate`. -/
def validate : TxPool :=
  let remove := pool.txs.toList.filter (fun e =>
    e.2.info.weight > transactionWeightLimit env.hfVersion || env.haveTx e.1)
  let pool := { pool with
    txpoolWeight := (pool.txs.toList.map (fun e => e.2.info.weight)).sum }
  let after := remove.foldl removeInvalid pool
  if remove = [] then after else { after with cookie := after.cookie + 1 }

end TxPool

/-! ## Runs -/

/-- An operation of the pool, with what is answered during the call. -/
inductive PoolStep
  | addTx (env : PoolEnv) (opts : TxPoolOptions) (tx : PoolTx) (rollback : Option ℕ)
  | removeBlinkConflicts (env : PoolEnv) (tx : PoolTx) (rollback : Option ℕ)
  | takeTx (id : Hash)
  | prune (env : PoolEnv) (skip : Hash)
  | removeStuckTransactions (env : PoolEnv)
  | validate (env : PoolEnv)

/-- The pool after an operation. -/
def PoolStep.run (pool : TxPool) : PoolStep → TxPool
  | .addTx env opts tx rollback => (pool.addTx env opts tx rollback).2.2
  | .removeBlinkConflicts env tx rollback =>
    (pool.removeBlinkConflicts env (pool.conflictTxs tx) rollback).2.2
  | .takeTx id => (pool.takeTx id).2
  | .prune env skip => pool.prune env skip
  | .removeStuckTransactions env => pool.removeStuckTransactions env
  | .validate env => pool.validate env

/-- The pool after operations. -/
def PoolStep.runAll (pool : TxPool) (steps : List PoolStep) : TxPool :=
  steps.foldl PoolStep.run pool

end Xeqm.Pool
