import Mathlib.Algebra.GroupWithZero.Nat
import Xeqm.Cryptonote.Transaction
import Xeqm.Lib.Effect
import Xeqm.Lib.Table

/-!
# The tables of the chain store

The chain tables of `blockchain_db/sqlite/blockchain_sqlite.cpp` and the
statements that add a block, take one away and read outputs. A stored blob is
kept as the value it encodes. Columns that none of these statements reads are
left out.
-/

namespace Xeqm.ChainDb

open Cryptonote Lib List

/-- `txversion`. -/
inductive TxVersion
  | v0
  | v1
  | v2Ringct
  | v3PerOutputUnlockTimes
  | v4TxTypes
  deriving DecidableEq

/-- The number a version is stored as. -/
def TxVersion.toNat : TxVersion → ℕ
  | .v0 => 0
  | .v1 => 1
  | .v2Ringct => 2
  | .v3PerOutputUnlockTimes => 3
  | .v4TxTypes => 4

instance : LE TxVersion := ⟨fun v w => v.toNat ≤ w.toNat⟩

instance (v w : TxVersion) : Decidable (v ≤ w) := inferInstanceAs (Decidable (v.toNat ≤ w.toNat))

/-- `txin_v`, without the contents of the two script inputs. -/
inductive TxIn
  | gen (height : ℕ)
  | toScript
  | toScripthash
  | toKey (keyImage : KeyImage)
  deriving DecidableEq

/-- `tx_out`. -/
structure TxOut where
  amount : UInt64 := 0
  /-- The key, if the output is a `txout_to_key`. -/
  target : Option PublicKey
  deriving DecidableEq

/-- `transaction`: what the chain store reads of one. -/
structure Tx where
  version : TxVersion := .v4TxTypes
  type : TxType := .standard
  unlockTime : UInt64 := 0
  outputUnlockTimes : List UInt64 := []
  vin : List TxIn := []
  vout : List TxOut := []
  /-- `get_transaction_hash`. -/
  hash : Hash
  /-- Whether the extra holds both a transaction secret key and the address of a
  contributor. -/
  stakes : Bool := false
  deriving DecidableEq

namespace Tx

/-- `is_miner_tx`. -/
def isMinerTx (tx : Tx) : Bool :=
  match tx.vin with
  | [.gen _] => true
  | _ => false

/-- The unlock time of the output at a position. -/
def unlockTimeAt (tx : Tx) (i : ℕ) : UInt64 :=
  if .v3PerOutputUnlockTimes ≤ tx.version then tx.outputUnlockTimes.getD i 0 else tx.unlockTime

/-- `has_blacklisted_outputs`. -/
def hasBlacklistedOutputs (tx : Tx) : Bool := decide (.v2Ringct ≤ tx.version) && tx.stakes

end Tx

/-- `block`: what the chain store reads of one. -/
structure Block where
  majorVersion : Hf
  /-- `get_block_hash`. -/
  hash : Hash
  prevId : Hash := 0
  minerTx : Option Tx := none
  txHashes : List Hash := []
  deriving DecidableEq

/-- A row of `blocks`. -/
structure BlockRow where
  height : ℕ
  hash : Hash
  rctOutputs : ℕ
  /-- The `blob` column, null once the body was dropped. -/
  body : Option Block
  deriving DecidableEq

/-- A row of `transactions`. -/
structure TransactionRow where
  id : ℕ
  hash : Hash
  height : ℕ
  type : TxType
  miner : Bool
  unlockTime : UInt64
  /-- The `unprunable` and `prunable` columns together. -/
  blob : Tx
  deriving DecidableEq

/-- A row of `outputs`. -/
structure OutputRow where
  id : ℕ
  amount : UInt64
  amountIndex : ℕ
  height : ℕ
  unlockTime : UInt64
  pubkey : PublicKey
  txId : Option ℕ
  localIndex : ℕ
  blacklisted : Bool := false
  deriving DecidableEq

/-- A row of `key_images`. -/
structure KeyImageRow where
  keyImage : KeyImage
  height : ℕ
  deriving DecidableEq

/-- A row of `trimmed_txes`. -/
structure TrimmedTxRow where
  hash : Hash
  height : ℕ
  type : TxType
  deriving DecidableEq

/-- A row of `alt_blocks`. -/
structure AltBlockRow where
  hash : Hash
  height : ℕ
  prevHash : Hash
  deriving DecidableEq

/-- The tables that the chain path reads and writes, with the two counts it keeps
in `properties`. -/
structure Tables where
  blocks : List BlockRow := []
  transactions : List TransactionRow := []
  outputs : List OutputRow := []
  keyImages : List KeyImageRow := []
  trimmedTxes : List TrimmedTxRow := []
  altBlocks : List AltBlockRow := []
  history : ℕ := 0
  historyStart : ℕ := 0
  deriving DecidableEq

/-- What the chain store throws. -/
inductive Fault
  | blockExists
  | blockParentDne
  | blockDne
  | txExists
  | keyImageExists
  | outputDne
  | wrongOutputType
  | rctOutputWithoutCommitment
  | blacklistFailed
  | txNotFound
  | altBlockExists
  | altBlockNotFound
  | inconsistentSizes
  | minerTxPresence
  | multipleRows
  | foreignKey
  | noWriteTxn
  | writeTxnOpen
  | noBatch
  | batchesDisabled
  | historyRefused
  deriving DecidableEq

/-- Statements on the tables. Those before a throw stay in effect. -/
abbrev TableM := EStateM Fault Tables

/-- `chain_height`. -/
def chainHeight (t : Tables) : ℕ := nextKey BlockRow.height t.blocks

/-- `prepared_maybe_get`: a query that may find one row. -/
def maybeGet {α : Type} : List α → Except Fault (Option α)
  | [] => .ok none
  | [row] => .ok (some row)
  | _ => .error .multipleRows

/-- A query that finds a row finds no other. -/
theorem maybeGet_eq_ok_iff {α : Type} {rows : List α} {row : Option α} :
    maybeGet rows = .ok row ↔ rows = row.toList := by
  cases row with
  | none | some =>
    match rows with
    | [] => simp [maybeGet]
    | [_] => simp [maybeGet]
    | _ :: _ :: _ => simp [maybeGet]

/-- Throws if a condition holds. -/
def rejectIf {σ : Type} (c : Prop) [Decidable c] (fault : Fault) : EStateM Fault σ Unit :=
  if c then throw fault else pure ()

/-- A query inside a statement. -/
def query {α : Type} (result : Except Fault α) : TableM α :=
  match result with
  | .ok a => pure a
  | .error e => throw e

variable {R : Tables → Tables → Prop} {t t' : Tables}

section

variable {σ α : Type} {c : Prop} [Decidable c] {fault : Fault}

theorem rejectIf_eq_ok_iff {s s' : σ} {u : Unit} :
    rejectIf c fault s = .ok u s' ↔ ¬ c ∧ s' = s := by
  unfold rejectIf
  split
  · rename_i hc
    simp [hc]
  · rename_i hc
    simp [hc, eq_comm]

theorem rejectIf_bind_eq_ok_iff {f : Unit → EStateM Fault σ α} {s s' : σ} {a : α} :
    (rejectIf c fault >>= f) s = .ok a s' ↔ ¬ c ∧ f () s = .ok a s' := by
  unfold rejectIf
  split <;> simp_all [throw_bind_run]

theorem query_bind_eq_ok_iff {β : Type} {result : Except Fault β} {f : β → TableM α} {a : α} :
    (query result >>= f) t = .ok a t' ↔ ∃ b, result = .ok b ∧ f b t = .ok a t' := by
  cases result with
  | ok => simp [query]
  | error => simp [query, throw_bind_run]

theorem rejectIf_keeps {R : σ → σ → Prop} [Std.Refl R] : Keeps R (rejectIf c fault) :=
  .ite_pure fun _ => .throw

theorem query_keeps [Std.Refl R] (result : Except Fault α) : Keeps R (query result) := by
  cases result with
  | ok => exact .pure
  | error => exact .throw

end

variable (historyStart : ℕ) (txHash : Hash)

/-- `tx_exists` with the id of the transaction. -/
def txExistsId (t : Tables) (txHash : Hash) : Except Fault (Option ℕ) := do
  let row ← maybeGet (t.transactions.filter (fun row => row.hash = txHash))
  pure (row.map TransactionRow.id)

/-- The lookup of a hash in `trimmed_txes`, made only once something was trimmed. -/
def txTrimmed (t : Tables) (txHash : Hash) : Except Fault Bool :=
  if historyStart = 0 then pure false
  else do
    let row ← maybeGet (t.trimmedTxes.filter (fun row => row.hash = txHash))
    pure row.isSome

theorem txExistsId_eq_ok_iff {txHash : Hash} {id : Option ℕ} :
    txExistsId t txHash = .ok id ↔ ∃ row : Option TransactionRow,
      t.transactions.filter (fun row => row.hash = txHash) = row.toList ∧
      id = row.map TransactionRow.id := by
  unfold txExistsId
  rw [except_bind_eq_ok_iff]
  constructor
  · rintro ⟨row, hrow, hid⟩
    cases hid
    exact ⟨row, maybeGet_eq_ok_iff.mp hrow, rfl⟩
  · rintro ⟨row, hrow, rfl⟩
    exact ⟨row, maybeGet_eq_ok_iff.mpr hrow, rfl⟩

theorem txTrimmed_eq_false {historyStart : ℕ} {txHash : Hash}
    (h : txTrimmed historyStart t txHash = .ok false) (hstart : historyStart ≠ 0) :
    ∀ row ∈ t.trimmedTxes, row.hash ≠ txHash := by
  unfold txTrimmed at h
  rw [if_neg hstart] at h
  obtain ⟨row, hget, hrow⟩ := except_bind_eq_ok_iff.mp h
  cases row with
  | some => cases hrow
  | none =>
    have hnil := maybeGet_eq_ok_iff.mp hget
    intro row hmem heq
    have : row ∈ t.trimmedTxes.filter (fun row => row.hash = txHash) :=
      mem_filter.mpr ⟨hmem, by simpa using heq⟩
    rw [hnil] at this
    exact absurd this not_mem_nil

/-- `tx_exists`. -/
def txExists (t : Tables) (txHash : Hash) : Except Fault Bool := do
  let id ← txExistsId t txHash
  if id.isSome then pure true else txTrimmed historyStart t txHash

/-- `has_key_image`. -/
def hasKeyImage (t : Tables) (keyImage : KeyImage) : Bool :=
  t.keyImages.any (fun row => row.keyImage = keyImage)

/-! ## Adding a block -/

/-- `add_spent_key`. -/
def addSpentKey (keyImage : KeyImage) : TableM Unit := do
  let t ← get
  rejectIf (hasKeyImage t keyImage) .keyImageExists
  modify (fun t => { t with keyImages := t.keyImages ++ [⟨keyImage, chainHeight t⟩] })

/-- `remove_spent_key`. -/
def removeSpentKey (keyImage : KeyImage) : TableM Unit :=
  modify (fun t => { t with keyImages := t.keyImages.filter (fun row => row.keyImage ≠ keyImage) })

/-- The key images of a transaction's inputs are recorded in order, up to the first
input of another kind; whether there is none. -/
def addSpentKeys : List TxIn → TableM Bool
  | [] => pure true
  | .toKey keyImage :: rest => do
    addSpentKey keyImage
    addSpentKeys rest
  | _ :: _ => pure false

/-- The key images of all inputs are removed again. -/
def removeSpentKeys : List TxIn → TableM Unit
  | [] => pure ()
  | .toKey keyImage :: rest => do
    removeSpentKey keyImage
    removeSpentKeys rest
  | _ :: rest => removeSpentKeys rest

/-- The row of a new transaction. -/
def newTransaction (t : Tables) (txHash : Hash) (tx : Tx) : TransactionRow :=
  { id := nextKey TransactionRow.id t.transactions
    hash := txHash
    height := chainHeight t
    type := tx.type
    miner := tx.isMinerTx
    unlockTime := tx.unlockTime
    blob := tx }

/-- `add_transaction_data`. -/
def addTransactionData (tx : Tx) : TableM ℕ := do
  let t ← get
  let id ← query (txExistsId t txHash)
  rejectIf id.isSome .txExists
  let trimmed ← query (txTrimmed historyStart t txHash)
  rejectIf trimmed .txExists
  modify (fun t => { t with transactions := t.transactions ++ [newTransaction t txHash tx] })
  pure (nextKey TransactionRow.id t.transactions)

/-- The row of a new output. -/
def newOutput (t : Tables) (txHash : Hash) (amount : UInt64) (key : PublicKey) (localIndex : ℕ)
    (unlockTime : UInt64) : OutputRow :=
  { id := nextKey OutputRow.id t.outputs
    amount := amount
    amountIndex := nextKey OutputRow.amountIndex (t.outputs.filter (fun row => row.amount = amount))
    height := chainHeight t
    unlockTime := unlockTime
    pubkey := key
    txId := (t.transactions.find? (fun row => row.hash = txHash)).map TransactionRow.id
    localIndex := localIndex }

/-- `add_output`. Of the commitment only its presence matters here. -/
def addOutput (output : TxOut) (localIndex : ℕ) (unlockTime : UInt64) (commitment : Bool) :
    TableM ℕ :=
  match output.target with
  | none => throw .wrongOutputType
  | some key => do
    rejectIf (output.amount = 0 ∧ ¬ commitment) .rctOutputWithoutCommitment
    let t ← get
    let row := newOutput t txHash output.amount key localIndex unlockTime
    modify (fun t => { t with outputs := t.outputs ++ [row] })
    pure row.amountIndex

/-- The output as it is stored: those of a miner transaction have amount zero from
RingCT on. -/
def storedOutput (tx : Tx) (output : TxOut) : TxOut :=
  if tx.isMinerTx ∧ .v2Ringct ≤ tx.version then { output with amount := 0 } else output

/-- The outputs of a transaction from a position on, with their amount indices. -/
def addOutputs (txHash : Hash) (tx : Tx) : ℕ → List TxOut → TableM (List ℕ)
  | _, [] => pure []
  | i, output :: rest => do
    let index ← addOutput txHash (storedOutput tx output) i (tx.unlockTimeAt i)
      (decide (.v2Ringct ≤ tx.version))
    let indices ← addOutputs txHash tx (i + 1) rest
    pure (index :: indices)

/-- The flag of one row, as `add_output_blacklist` sets it. -/
def OutputRow.blacklist (indices : List ℕ) (row : OutputRow) : OutputRow :=
  if row.amount = 0 ∧ row.amountIndex ∈ indices then { row with blacklisted := true } else row

/-- `add_output_blacklist`. The number of rows that a statement updates has to be
the number of indices it lists. -/
def addOutputBlacklist (blacklist : List ℕ) : TableM Unit :=
  if blacklist = [] then pure ()
  else do
    let t ← get
    let indices := blacklist.dedup
    let found := t.outputs.countP (fun row => row.amount = 0 ∧ row.amountIndex ∈ indices)
    modify (fun t => { t with outputs := t.outputs.map (OutputRow.blacklist indices) })
    rejectIf (found ≠ indices.length) .blacklistFailed

/-- The part of `add_transaction` after the key images. -/
def storeTransaction (tx : Tx) : TableM Unit := do
  let _ ← addTransactionData historyStart txHash tx
  let indices ← addOutputs txHash tx 0 tx.vout
  if tx.hasBlacklistedOutputs then addOutputBlacklist indices else pure ()

/-- `add_transaction`. An input of an unsupported kind ends it without an error. -/
def addTransaction (tx : Tx) : TableM Unit :=
  if tx.isMinerTx then storeTransaction historyStart txHash tx
  else do
    let supported ← addSpentKeys tx.vin
    if supported then storeTransaction historyStart txHash tx
    else removeSpentKeys tx.vin

/-- A block with the bodies of its transactions, as `add_block` is given it. -/
structure BlockInput where
  block : Block
  txs : List Tx := []
  deriving DecidableEq

namespace BlockInput

/-- The transactions that `add_block` adds, in order, each under its hash. -/
def transactions (input : BlockInput) : List (Hash × Tx) :=
  input.block.minerTx.toList.map (fun tx => (tx.hash, tx)) ++ input.block.txHashes.zip input.txs

/-- `num_rct_outs`. -/
def numRctOuts (input : BlockInput) : ℕ :=
  (input.block.minerTx.toList.map
    (fun tx => if .v2Ringct ≤ tx.version then tx.vout.length else 0)).sum +
  (input.txs.map (fun tx => tx.vout.countP (fun output => output.amount = 0))).sum

end BlockInput

/-- `prev_rct_outputs`, once the top block turns out to be the parent. -/
def parentRctOutputs (t : Tables) (block : Block) : Except Fault ℕ :=
  if chainHeight t = 0 then .ok 0
  else
    match t.blocks.find? (fun row => row.height + 1 = chainHeight t) with
    | none => .error .blockDne
    | some top => if top.hash ≠ block.prevId then .error .blockParentDne else .ok top.rctOutputs

/-- `BlockchainSQLiteDB::add_block`: the row of the block. -/
def addBlockRow (input : BlockInput) : TableM Unit := do
  let t ← get
  let known ← query (maybeGet (t.blocks.filter (fun row => row.hash = input.block.hash)))
  rejectIf known.isSome .blockExists
  let rctOutputs ← query (parentRctOutputs t input.block)
  modify (fun t => { t with blocks := t.blocks ++
    [⟨chainHeight t, input.block.hash, rctOutputs + input.numRctOuts, some input.block⟩] })

/-- `BlockchainDB::add_block`. -/
def addBlock (input : BlockInput) : TableM ℕ := do
  rejectIf (input.block.txHashes.length ≠ input.txs.length) .inconsistentSizes
  rejectIf (decide (ethBls ≤ input.block.majorVersion) = input.block.minerTx.isSome)
    .minerTxPresence
  let t ← get
  input.transactions.forM (fun entry => addTransaction historyStart entry.1 entry.2)
  addBlockRow input
  pure (chainHeight t)

/-! ## Taking a block away -/

/-- Deleting the row of a block takes its transactions, outputs and key images
with it. -/
def Tables.deleteBlock (height : ℕ) (t : Tables) : Tables :=
  { t with
    blocks := t.blocks.filter (fun row => row.height ≠ height)
    transactions := t.transactions.filter (fun row => row.height ≠ height)
    outputs := t.outputs.filter (fun row => row.height ≠ height)
    keyImages := t.keyImages.filter (fun row => row.height ≠ height) }

/-- `get_top_block`, of a chain that is not empty. -/
def getTopBlock : TableM Block := do
  let t ← get
  match t.blocks.find? (fun row => row.height + 1 = chainHeight t) with
  | none => throw .blockDne
  | some top =>
    match top.body with
    | none => throw .blockDne
    | some block => pure block

/-- `get_tx`, as `pop_block` uses it. -/
def getTx : TableM Tx := do
  let t ← get
  match t.transactions.find? (fun row => row.hash = txHash) with
  | none => throw .txNotFound
  | some row => pure row.blob

/-- The transactions with the given hashes. -/
def getTxs : List Hash → TableM (List Tx)
  | [] => pure []
  | txHash :: rest => do
    let tx ← getTx txHash
    let txs ← getTxs rest
    pure (tx :: txs)

/-- What `pop_block` returns, which is read before anything is removed. -/
def readTopBlock : TableM (Block × List Tx) := do
  let t ← get
  rejectIf (chainHeight t = 0) .blockDne
  let block ← getTopBlock
  let txs ← getTxs block.txHashes.reverse
  pure (block, txs)

/-- `remove_block`. -/
def removeBlock : TableM Unit := do
  let t ← get
  rejectIf (chainHeight t = 0) .blockDne
  modify (Tables.deleteBlock (chainHeight t - 1))

/-- `pop_block`, inside its write transaction. -/
def removeTopBlock : TableM (Block × List Tx) := do
  let popped ← readTopBlock
  removeBlock
  pure popped

theorem getTxs_keeps [Std.Refl R] [IsTrans Tables R] (hashes : List Hash) :
    Keeps R (getTxs hashes) := by
  induction hashes with
  | nil => exact .pure
  | cons txHash _ ih =>
    have hget : Keeps R (getTx txHash) := by
      refine .read fun t => ?_
      split
      · exact .throw
      · exact .pure
    exact .bind hget fun _ => .bind ih fun _ => .pure

/-- The block that `get_top_block` returns is the body of the top row. -/
theorem getTopBlock_eq_ok {block : Block} (h : getTopBlock t = .ok block t') :
    t' = t ∧ ∃ top ∈ t.blocks, top.height + 1 = chainHeight t ∧ top.body = some block := by
  unfold getTopBlock at h
  rw [get_bind_run] at h
  cases hfind : t.blocks.find? (fun row => row.height + 1 = chainHeight t) with
  | none => simp [hfind] at h
  | some top =>
    rw [hfind] at h
    cases hbody : top.body with
    | none => simp [hbody] at h
    | some =>
      simp only [hbody, pure_run, EStateM.Result.ok.injEq] at h
      obtain ⟨rfl, rfl⟩ := h
      exact ⟨rfl, top, mem_of_find?_eq_some hfind, by simpa using find?_some hfind, hbody⟩

theorem readTopBlock_keeps [Std.Refl R] [IsTrans Tables R] : Keeps R readTopBlock := by
  have htop : Keeps R getTopBlock := by
    refine .read fun t => ?_
    split
    · exact .throw
    · split
      · exact .throw
      · exact .pure
  refine .read fun t => ?_
  refine .bind rejectIf_keeps fun _ => ?_
  refine .bind htop fun block => ?_
  exact .bind (getTxs_keeps _) fun _ => .pure

/-- What is read for a pop is the body of the top block. -/
theorem readTopBlock_eq_ok {popped : Block × List Tx} (h : readTopBlock t = .ok popped t') :
    t' = t ∧ ∃ top ∈ t.blocks, top.height + 1 = chainHeight t ∧ top.body = some popped.1 := by
  refine ⟨((readTopBlock_keeps (R := Eq)).of_ok h).symm, ?_⟩
  unfold readTopBlock at h
  obtain ⟨-, h⟩ := rejectIf_bind_eq_ok_iff.mp h
  obtain ⟨block, t₁, hblock, h⟩ := bind_eq_ok_iff.mp h
  obtain ⟨-, top, hmem, hheight, hbody⟩ := getTopBlock_eq_ok hblock
  obtain ⟨txs, t₂, -, h⟩ := bind_eq_ok_iff.mp h
  cases h
  exact ⟨top, hmem, hheight, hbody⟩

/-- A pop takes away the top block, if its body can be read, and nothing else. -/
theorem removeTopBlock_cases {t : Tables} :
    (∃ e, removeTopBlock t = .error e t) ∨
    ∃ popped, ∃ top ∈ t.blocks, top.height + 1 = chainHeight t ∧ top.body = some popped.1 ∧
      removeTopBlock t = .ok popped (t.deleteBlock top.height) := by
  cases hread : readTopBlock t with
  | error e t' =>
    have hsame : t = t' := by
      have := readTopBlock_keeps (R := Eq) t
      rwa [hread] at this
    left
    refine ⟨e, ?_⟩
    exact bind_run_of_error (hsame ▸ hread)
  | ok popped t' =>
    obtain ⟨rfl, top, hmem, hheight, hbody⟩ := readTopBlock_eq_ok hread
    right
    refine ⟨popped, top, hmem, hheight, hbody, ?_⟩
    have hdelete : removeBlock t' = .ok () (t'.deleteBlock top.height) := by
      unfold removeBlock
      rw [get_bind_run, ← hheight, Nat.add_sub_cancel]
      exact bind_run_of_ok (a := ()) (rejectIf_eq_ok_iff.mpr ⟨Nat.succ_ne_zero _, rfl⟩)
    unfold removeTopBlock
    rw [bind_run_of_ok hread, bind_run_of_ok hdelete, pure_run]

/-! ## Trimming the history -/

/-- `is_transfer_type`. -/
def isTransferType (type : TxType) : Bool := type = .standard ∨ type = .stake

/-- The row that a dropped transaction leaves. -/
def TransactionRow.trimmed (row : TransactionRow) : TrimmedTxRow := ⟨row.hash, row.height, row.type⟩

/-- The body of a block row dropped if its height is in a range. -/
def BlockRow.dropBody (start finish : ℕ) (row : BlockRow) : BlockRow :=
  if start ≤ row.height ∧ row.height < finish then { row with body := none } else row

/-- `trim_history_to`, inside its write transaction. -/
def Tables.trim (start finish : ℕ) (t : Tables) : Tables :=
  { t with
    blocks := t.blocks.map (BlockRow.dropBody start finish)
    trimmedTxes := t.trimmedTxes ++ (t.transactions.filter (fun row =>
      start ≤ row.height ∧ row.height < finish ∧ ¬ row.miner ∧ ¬ isTransferType row.type)).map
        TransactionRow.trimmed
    transactions := t.transactions.filter (fun row =>
      ¬ (start ≤ row.height ∧ row.height < finish))
    altBlocks := t.altBlocks.filter (fun row => ¬ row.height < finish)
    historyStart := finish }

/-! ## Reading outputs -/

/-- `get_output_tx_and_index`: the transaction that made an output and its position
there. -/
def getOutputTxAndIndex (t : Tables) (amount : UInt64) (index : ℕ) : Except Fault (Hash × ℕ) := do
  let outputs := t.outputs.filter (fun row => row.amount = amount ∧ row.amountIndex = index)
  let row ← maybeGet (outputs.flatMap (fun output =>
    (t.transactions.filter (fun row => output.txId = some row.id)).map
      (fun row => (row.hash, output.localIndex))))
  match row with
  | none => .error .outputDne
  | some found => .ok found

/-- The amount indices of the outputs that refer to a transaction id, in the order of
their positions. -/
def outputIndices (t : Tables) (txId : ℕ) : List ℕ :=
  ((t.outputs.filter (fun row => row.txId = some txId)).mergeSort
    (fun row row' => row.localIndex ≤ row'.localIndex)).map OutputRow.amountIndex

/-- `get_tx_amount_output_indices`. -/
def getTxAmountOutputIndices (t : Tables) (txId nTxes : ℕ) : List (List ℕ) :=
  (List.range nTxes).map (fun i => outputIndices t (txId + i))

end Xeqm.ChainDb
