import Xeqm.ChainDb.Tables
import Xeqm.Cryptonote.Config

/-!
# The chain store and its write transactions

`BlockchainSQLiteDB` as its one writing thread sees it: the committed tables, the
tables of the open write transaction and the members kept in memory. A write
transaction is a batch, or belongs to one block; inside a batch the transactions
of single blocks do nothing.
-/

namespace Xeqm.ChainDb

open Cryptonote Lib

/-- `BlockchainSQLiteDB`. -/
structure Store where
  net : Network
  /-- `m_read_only`. -/
  readOnly : Bool := false
  /-- The committed tables. -/
  disk : Tables := {}
  /-- `m_write`: the tables as the open write transaction leaves them. -/
  write : Option Tables := none
  /-- `m_batch_active`. -/
  batchActive : Bool := false
  /-- `m_batch_transactions`. -/
  batchTransactions : Bool := true
  /-- `m_history`. -/
  history : ℕ := 0
  /-- `m_history_start`. -/
  historyStart : ℕ := 0

variable {s : Store}

namespace Store

/-- The tables that the writing thread reads. -/
def tables (s : Store) : Tables := s.write.getD s.disk

theorem tables_of_closed (hwrite : s.write = none) : s.tables = s.disk := by
  simp [tables, hwrite]

theorem tables_of_open {t : Tables} (hwrite : s.write = some t) : s.tables = t := by
  simp [tables, hwrite]

end Store

/-- Operations of the chain store. -/
abbrev StoreM := EStateM Fault Store

/-! ## Write transactions -/

/-- The constraints that `COMMIT` checks: what belongs to a block has its block. -/
def Tables.foreignKeysHold (t : Tables) : Bool :=
  let stored (height : ℕ) : Bool := t.blocks.any (fun row => row.height = height)
  t.transactions.all (fun row => stored row.height) && t.outputs.all (fun row => stored row.height) &&
    t.keyImages.all (fun row => stored row.height)

/-- Statements inside the open write transaction. -/
def onWriteConn {α : Type} (statements : TableM α) : StoreM α := fun s =>
  match s.write with
  | none => .error .noWriteTxn s
  | some t =>
    match statements t with
    | .ok a t => .ok a { s with write := some t }
    | .error e t => .error e { s with write := some t }

/-- `begin_write`. -/
def beginWrite (batch : Bool) : StoreM Unit :=
  modify (fun s => { s with write := some s.disk, batchActive := batch })

/-- `end_write`. A transaction that cannot be committed is rolled back. -/
def endWrite (commit : Bool) : StoreM Unit := fun s =>
  let closed := { s with write := none, batchActive := false }
  match s.write with
  | none => .ok () closed
  | some t =>
    if commit then
      if t.foreignKeysHold then .ok () { closed with disk := t } else .error .foreignKey closed
    else .ok () closed

/-- `in_write_txn`. -/
def inWriteTxn (statements : TableM Unit) : StoreM Unit := fun s =>
  if s.write.isSome then onWriteConn statements s
  else
    match statements s.disk with
    | .ok () t =>
      if t.foreignKeysHold then .ok () { s with disk := t } else .error .foreignKey s
    | .error e _ => .error e s

/-- `require_writer`. -/
def requireWriter : StoreM Unit := do
  let s ← get
  rejectIf s.write.isNone .noWriteTxn

/-- `require_batch_writer`. -/
def requireBatchWriter : StoreM Unit := do
  let s ← get
  rejectIf (!s.batchTransactions) .batchesDisabled
  rejectIf (!s.batchActive) .noBatch

/-- `batch_start`. -/
def batchStart : StoreM Bool := do
  let s ← get
  rejectIf (!s.batchTransactions) .batchesDisabled
  if s.batchActive then pure false
  else
    rejectIf s.write.isSome .writeTxnOpen
    beginWrite true
    pure true

/-- `batch_stop`. -/
def batchStop : StoreM Unit := do
  requireBatchWriter
  endWrite true

/-- `batch_abort`. -/
def batchAbort : StoreM Unit := do
  requireBatchWriter
  endWrite false

/-- `block_wtxn_start`. -/
def blockWtxnStart : StoreM Unit := do
  let s ← get
  if s.write.isNone then beginWrite false
  else rejectIf (!s.batchActive) .writeTxnOpen

/-- `block_wtxn_stop`. -/
def blockWtxnStop : StoreM Unit := do
  requireWriter
  let s ← get
  if !s.batchActive then endWrite true else pure ()

/-- `block_wtxn_abort`. -/
def blockWtxnAbort : StoreM Unit := do
  requireWriter
  let s ← get
  if !s.batchActive then endWrite false else pure ()

/-! ## Blocks -/

/-- `add_block`, which needs an open write transaction. -/
def storeBlock (input : BlockInput) : StoreM ℕ := do
  let s ← get
  onWriteConn (addBlock s.historyStart input)

/-- Statements in the write transaction of a block, which is aborted if they throw.
If the commit itself fails there is no transaction left to abort. -/
def inBlockTxn {α : Type} (statements : TableM α) : StoreM α := do
  blockWtxnStart
  tryCatch
    (do
      let a ← onWriteConn statements
      blockWtxnStop
      pure a)
    (fun e => do
      blockWtxnAbort
      throw e)

/-- `add_block` in a write transaction of its own. -/
def addBlockTxn (input : BlockInput) : StoreM ℕ := do
  let s ← get
  inBlockTxn (addBlock s.historyStart input)

/-- `pop_block`. -/
def popBlock : StoreM (Block × List Tx) := inBlockTxn removeTopBlock

section

variable {α : Type} {statements : TableM α} {s : Store}

section

variable {t : Tables} (hwrite : s.write = some t)

include hwrite

theorem onWriteConn_eq_ok {t' : Tables} {a : α} (hrun : statements t = .ok a t') :
    onWriteConn statements s = .ok a { s with write := some t' } := by
  simp [onWriteConn, hwrite, hrun]

theorem onWriteConn_eq_error {t' : Tables} {e : Fault} (hrun : statements t = .error e t') :
    onWriteConn statements s = .error e { s with write := some t' } := by
  simp [onWriteConn, hwrite, hrun]

theorem blockWtxnStart_of_batch (hbatch : s.batchActive = true) : blockWtxnStart s = .ok () s := by
  unfold blockWtxnStart
  rw [get_bind_run, hwrite, hbatch]
  rfl

theorem blockWtxnStart_of_open (hbatch : s.batchActive = false) :
    blockWtxnStart s = .error .writeTxnOpen s := by
  unfold blockWtxnStart
  rw [get_bind_run, hwrite, hbatch]
  rfl

theorem requireWriter_of_open : requireWriter s = .ok () s := by
  unfold requireWriter
  rw [get_bind_run, hwrite]
  rfl

theorem blockWtxnStop_of_open :
    blockWtxnStop s = if s.batchActive then .ok () s else endWrite true s := by
  unfold blockWtxnStop
  rw [bind_run_of_ok (requireWriter_of_open hwrite), get_bind_run]
  cases s.batchActive <;> rfl

theorem blockWtxnAbort_of_open :
    blockWtxnAbort s = if s.batchActive then .ok () s else endWrite false s := by
  unfold blockWtxnAbort
  rw [bind_run_of_ok (requireWriter_of_open hwrite), get_bind_run]
  cases s.batchActive <;> rfl

/-- Inside a batch nothing is undone. -/
theorem inBlockTxn_of_batch (hbatch : s.batchActive = true) :
    inBlockTxn statements s = onWriteConn statements s := by
  unfold inBlockTxn
  rw [bind_run_of_ok (blockWtxnStart_of_batch hwrite hbatch)]
  cases hrun : statements t with
  | error =>
    have hbody := onWriteConn_eq_error hwrite hrun
    rw [tryCatch_run_of_error (bind_run_of_error hbody), bind_run_of_ok (a := ()), hbody, throw_run]
    rw [blockWtxnAbort_of_open rfl]
    simp [hbatch]
  | ok _ t' =>
    have hbody := onWriteConn_eq_ok hwrite hrun
    have hstop : blockWtxnStop { s with write := some t' } = .ok () { s with write := some t' } := by
      rw [blockWtxnStop_of_open rfl]
      simp [hbatch]
    rw [hbody]
    apply tryCatch_run_of_ok
    rw [bind_run_of_ok hbody, bind_run_of_ok hstop, pure_run]

theorem inBlockTxn_of_open (hbatch : s.batchActive = false) :
    inBlockTxn statements s = .error .writeTxnOpen s := by
  exact bind_run_of_error (blockWtxnStart_of_open hwrite hbatch)

end

variable (hwrite : s.write = none)

include hwrite

theorem blockWtxnStart_of_closed :
    blockWtxnStart s = .ok () { s with write := some s.disk, batchActive := false } := by
  unfold blockWtxnStart
  rw [get_bind_run, hwrite]
  rfl

theorem requireWriter_of_closed : requireWriter s = .error .noWriteTxn s := by
  unfold requireWriter
  rw [get_bind_run, hwrite]
  rfl

/-- Outside of any write transaction, what the statements did is kept if they return
and the constraints hold. -/
theorem inBlockTxn_of_closed :
    inBlockTxn statements s =
      match statements s.disk with
      | .ok a t =>
        if t.foreignKeysHold then .ok a { s with disk := t, batchActive := false }
        else .error .noWriteTxn { s with batchActive := false }
      | .error e _ => .error e { s with batchActive := false } := by
  let opened : Store := { s with write := some s.disk, batchActive := false }
  have hstart : blockWtxnStart s = .ok () opened := blockWtxnStart_of_closed hwrite
  unfold inBlockTxn
  rw [bind_run_of_ok hstart]
  cases hrun : statements s.disk with
  | error e t =>
    have hbody : onWriteConn statements opened = .error e { opened with write := some t } :=
      onWriteConn_eq_error rfl hrun
    rw [tryCatch_run_of_error (bind_run_of_error hbody), bind_run_of_ok (blockWtxnAbort_of_open rfl)]
    simp [opened, hwrite]
  | ok a t =>
    have hbody : onWriteConn statements opened = .ok a { opened with write := some t } :=
      onWriteConn_eq_ok rfl hrun
    have hstop : blockWtxnStop { opened with write := some t } =
        endWrite true { opened with write := some t } := blockWtxnStop_of_open rfl
    by_cases hkeys : t.foreignKeysHold = true
    · have hcommit : blockWtxnStop { opened with write := some t } =
          .ok () { s with disk := t, batchActive := false } := by
        rw [hstop]
        simp [endWrite, hkeys, opened, hwrite]
      have hbodyOk : (do
          let a ← onWriteConn statements
          blockWtxnStop
          pure a) opened = .ok a { s with disk := t, batchActive := false } := by
        rw [bind_run_of_ok hbody, bind_run_of_ok hcommit, pure_run]
      rw [tryCatch_run_of_ok hbodyOk]
      simp [hkeys]
    · have hfail : blockWtxnStop { opened with write := some t } =
          .error .foreignKey { s with batchActive := false } := by
        rw [hstop]
        simp [endWrite, hkeys, opened, hwrite]
      have hbodyFail : (do
          let a ← onWriteConn statements
          blockWtxnStop
          pure a) opened = .error .foreignKey { s with batchActive := false } := by
        rw [bind_run_of_ok hbody, bind_run_of_error hfail]
      rw [tryCatch_run_of_error hbodyFail]
      -- the failed commit has closed the transaction, so the abort has none to abort
      have habort : blockWtxnAbort { s with batchActive := false } =
          .error .noWriteTxn { s with batchActive := false } :=
        bind_run_of_error (requireWriter_of_closed hwrite)
      rw [bind_run_of_error habort]
      simp [hkeys]

theorem inBlockTxn_eq_ok {s' : Store} {a : α} (h : inBlockTxn statements s = .ok a s') :
    ∃ t, statements s.disk = .ok a t ∧ s' = { s with disk := t, batchActive := false } := by
  rw [inBlockTxn_of_closed hwrite] at h
  split at h
  · rename_i t hrun
    split at h
    · cases h
      exact ⟨t, hrun, rfl⟩
    · cases h
  · cases h

theorem inBlockTxn_eq_error {s' : Store} {e : Fault} (h : inBlockTxn statements s = .error e s') :
    s' = { s with batchActive := false } := by
  rw [inBlockTxn_of_closed hwrite] at h
  split at h
  · split at h
    · cases h
    · cases h
      rfl
  · cases h
    rfl

end

/-! ## History -/

/-- `HISTORY_MIN_BLOCKS`. -/
def historyMinBlocks : ℕ := 720

/-- `HISTORY_LOCK_MARGIN`. -/
def historyLockMargin : ℕ := 360

/-- `INLINE_TRIM_MAX`. -/
def inlineTrimMax : ℕ := 2000

/-- `staking_num_lock_blocks` of `history.cpp`. -/
def stakingNumLockBlocks : NetworkType → ℕ
  | .fakechain => 30
  | .testnet => (getConfig .testnet).blocksIn (48 * hour)
  | nettype => (getConfig nettype).blocksIn (14 * 24 * hour)

/-- `history_minimum`. -/
def historyMinimum (net : Network) (height : ℕ) : ℕ :=
  let early := max historyMinBlocks (stakingNumLockBlocks net.nettype + historyLockMargin)
  match hardForkBegins net Hf.hf15Ons with
  | none => early
  | some hf15 => if height < hf15 then early else historyMinBlocks

/-- `history_window`. -/
def historyWindow (net : Network) (history height : ℕ) : ℕ :=
  if history = 0 then 0 else max history (historyMinimum net height)

/-- `history_trim_target`. -/
def historyTrimTarget (s : Store) : ℕ :=
  if s.history = 0 then 0
  else chainHeight s.tables - historyWindow s.net s.history (chainHeight s.tables)

/-- `trim_history_to`. -/
def trimHistoryTo (finish : ℕ) : StoreM Unit := do
  let s ← get
  if finish ≤ s.historyStart then pure ()
  else
    inWriteTxn (modify (Tables.trim s.historyStart finish))
    modify (fun s => { s with historyStart := finish })

/-- Outside of any write transaction a trim is committed if the constraints hold. -/
theorem trimTables_of_closed (hwrite : s.write = none) (finish : ℕ) :
    inWriteTxn (modify (Tables.trim s.historyStart finish)) s =
      if (s.disk.trim s.historyStart finish).foreignKeysHold then
        .ok () { s with disk := s.disk.trim s.historyStart finish }
      else .error .foreignKey s := by
  simp [inWriteTxn, hwrite]

/-- `trim_history`. -/
def trimHistory : StoreM Unit := do
  let s ← get
  if s.history = 0 ∨ s.readOnly then pure ()
  else if historyTrimTarget s ≤ s.historyStart then pure ()
  else trimHistoryTo (min (historyTrimTarget s) (s.historyStart + inlineTrimMax))

/-- `set_history`. -/
def setHistory (blocks : ℕ) : StoreM Unit := do
  let s ← get
  if blocks = s.history then pure ()
  else if blocks = 0 ∨ blocks < historyMinBlocks ∨ s.readOnly then throw .historyRefused
  else
    inWriteTxn (modify (fun t => { t with history := blocks }))
    modify (fun s => { s with history := blocks })

/-- `reset`. -/
def reset : StoreM Unit := do
  let s ← get
  if s.write.isSome then throw .writeTxnOpen
  else modify (fun s => { s with disk := { history := s.disk.history }, historyStart := 0 })

/-! ## Alternative blocks -/

/-- `add_alt_block`. -/
def addAltBlock (row : AltBlockRow) : StoreM Unit :=
  inWriteTxn do
    let t ← get
    rejectIf (t.altBlocks.any (fun known => known.hash = row.hash)) .altBlockExists
    modify (fun t => { t with altBlocks := t.altBlocks ++ [row] })

/-- `remove_alt_block`. -/
def removeAltBlock (hash : Hash) : StoreM Unit :=
  inWriteTxn do
    let t ← get
    rejectIf (!t.altBlocks.any (fun row => row.hash = hash)) .altBlockNotFound
    modify (fun t => { t with altBlocks := t.altBlocks.filter (fun row => row.hash ≠ hash) })

/-- `drop_alt_blocks`. -/
def dropAltBlocks : StoreM Unit := inWriteTxn (modify (fun t => { t with altBlocks := [] }))

end Xeqm.ChainDb
