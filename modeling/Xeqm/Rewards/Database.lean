import Xeqm.Cryptonote.Config
import Xeqm.Lib.Effect

/-!
# The rewards database

The tables of `blockchain_db/sqlite/db_sqlite.cpp` with the triggers that run
when the height changes, and the operations the service node list calls. A
computation that throws keeps what it wrote before; a single SQL statement that
fails writes nothing.
-/

namespace Xeqm.Rewards

open Cryptonote Lib

/-- The address of a payment, on either chain. -/
inductive PayoutAddress
  | eth (address : EthAddress)
  | oxen (address : AccountPublicAddress)
  deriving DecidableEq

/-- A row of `batched_payments_accrued`. -/
structure AccruedRow where
  address : PayoutAddress
  amount : ℤ := 0
  payoutOffset : Option ℤ := none
  lifetimeLockedStakes : ℤ := 0
  lifetimeUnlockedStakes : ℤ := 0
  lifetimeLiquidatedStakes : ℤ := 0
  lifetimeRewards : ℤ := 0
  deriving DecidableEq

/-- A row of `batched_payments_accrued_recent` or `_archive`. -/
structure BackupRow where
  height : ℕ
  row : AccruedRow
  deriving DecidableEq

/-- A row of `delayed_payments`. -/
structure DelayedPayment where
  ethAddress : EthAddress
  amount : UInt64
  payoutHeight : ℕ
  height : ℕ
  blockHeight : ℕ
  blockTxIndex : ℕ
  contributorIndex : ℕ
  liquidationAmount : UInt64
  deriving DecidableEq

/-- `BlockchainSQLite`: the height it believes to be at, and its tables. -/
structure RewardsDb where
  height : ℕ := 0
  /-- The row of `batch_db_info`. -/
  infoHeight : ℕ := 0
  accrued : List AccruedRow := []
  recent : List BackupRow := []
  archive : List BackupRow := []
  delayedPayments : List DelayedPayment := []
  deriving DecidableEq

/-- `PaymentTableType`. -/
inductive PaymentTableType
  | nil
  | recent
  | archive
  deriving DecidableEq

/-- The exceptions of the database: a violated constraint of a table, a row that is
not an address of the expected kind, and the errors of the reward calculation. -/
inductive DbFault
  | constraint
  | badAddress
  | rewardTooLarge
  | rewardTooSmall
  | invalidDistribution
  | nodeNotFound
  deriving DecidableEq

/-- A computation on the database. -/
abbrev DbM := EStateM DbFault RewardsDb

/-- The `INSERT ... SELECT` of `make_recent` and `make_archive`: it fails when a
copied address already has a row at that height. -/
def copyAccrued (accrued : List AccruedRow) (height : ℕ) (backup : List BackupRow) :
    Option (List BackupRow) :=
  if accrued.any (fun row => backup.any (fun b => b.height = height ∧ b.row.address = row.address))
  then none
  else some (backup ++ accrued.map (fun row => ⟨height, row⟩))

/-- Drops the backup rows below `height - window`. -/
def prune (height window : ℕ) (backup : List BackupRow) : List BackupRow :=
  backup.filter (fun b => height ≤ b.height + window)

/-- `UPDATE batch_db_info SET height = ?` with its three triggers. -/
def setInfoHeight (conf : NetworkConfig) (newHeight : ℕ) (db : RewardsDb) : Option RewardsDb :=
  if newHeight > db.infoHeight then
    match copyAccrued db.accrued newHeight db.recent with
    | none => none
    | some recent =>
      let db := { db with
        infoHeight := newHeight, recent := prune newHeight conf.historyRecentKeepWindow recent }
      if newHeight % conf.historyArchiveInterval = 0 then
        match copyAccrued db.accrued newHeight db.archive with
        | none => none
        | some archive => some { db with
            archive := prune newHeight conf.historyArchiveKeepWindow archive
            delayedPayments := db.delayedPayments.filter
              (fun p => newHeight ≤ p.payoutHeight + conf.historyArchiveKeepWindow) }
      else some db
  else if newHeight < db.infoHeight then
    some { db with
      infoHeight := newHeight
      recent := db.recent.filter (fun b => b.height ≤ newHeight)
      archive := db.archive.filter (fun b => b.height ≤ newHeight)
      delayedPayments := db.delayedPayments.filter (fun p => p.height ≤ newHeight) }
  else some db

/-- `update_height`: the member variable is set before the statement runs. -/
def updateHeight (conf : NetworkConfig) (newHeight : ℕ) : DbM Unit := fun db =>
  let db := { db with height := newHeight }
  match setInfoHeight conf newHeight db with
  | none => .error .constraint db
  | some db => .ok () db

variable {conf : NetworkConfig} {db db' : RewardsDb}

theorem setInfoHeight_frame {newHeight : ℕ} (h : setInfoHeight conf newHeight db = some db') :
    db'.height = db.height ∧ db'.accrued = db.accrued := by
  unfold setInfoHeight at h
  dsimp only at h
  repeat' split at h
  all_goals cases h
  all_goals exact ⟨rfl, rfl⟩

/-- The height in memory is set even if the tables refuse it, and the balances stay. -/
theorem updateHeight_frame (conf : NetworkConfig) (newHeight : ℕ) (db : RewardsDb) :
    (finalState (updateHeight conf newHeight db)).height = newHeight ∧
      (finalState (updateHeight conf newHeight db)).accrued = db.accrued := by
  unfold updateHeight
  dsimp only
  split
  · exact ⟨rfl, rfl⟩
  · rename_i hset
    exact setInfoHeight_frame hset

/-- The height a completed write leaves in the rewards database. -/
theorem updateHeight_height {newHeight : ℕ}
    (h : updateHeight conf newHeight db = .ok () db') : db'.height = newHeight := by
  simpa [h] using (updateHeight_frame conf newHeight db).1

/-- `reset_database`: all tables are dropped and created again. -/
def resetDatabase (conf : NetworkConfig) : DbM Unit := do
  modify (fun db => { height := db.height })
  updateHeight conf 0

/-- `batch_payments_accrued_has_any`. -/
def batchPaymentsAccruedHasAny (db : RewardsDb) (recent : Bool) (height : ℕ) : Bool :=
  (if recent then db.recent else db.archive).any (fun b => b.height = height)

/-- The rows a backup table holds for a height. -/
def backupRows (backup : List BackupRow) (height : ℕ) : List AccruedRow :=
  (backup.filter (fun b => b.height = height)).map BackupRow.row

/-- `BlockchainSQLite::blockchain_detached`. The rescan transaction it may open
has no effect on what is stored. -/
def blockchainDetached (conf : NetworkConfig) (history : PaymentTableType) (newHeight : ℕ) :
    DbM Unit := do
  let db ← get
  if newHeight = db.height then
    pure ()
  else
    match history with
    | .nil => resetDatabase conf
    | .recent => modify (fun db => { db with accrued := backupRows db.recent newHeight })
    | .archive => modify (fun db => { db with accrued := backupRows db.archive newHeight })
  updateHeight conf newHeight

/-- What is unique among the delayed payments. -/
def DelayedPayment.place (p : DelayedPayment) : ℕ × ℕ × ℕ :=
  (p.blockHeight, p.blockTxIndex, p.contributorIndex)

/-- The payments that are inserted before one that breaks the uniqueness. -/
def insertedDelayed : List DelayedPayment → List DelayedPayment → List DelayedPayment
  | _, [] => []
  | stored, p :: rest =>
    if p.place ∈ stored.map DelayedPayment.place then []
    else p :: insertedDelayed (stored ++ [p]) rest

/-- `add_delayed_payments`. A payment that breaks the uniqueness rolls the whole call back, unless
a rescan holds the transaction. -/
def addDelayedPayments (rescanning : Bool) (payments : List DelayedPayment) (db : RewardsDb) :
    RewardsDb × Bool :=
  let inserted := insertedDelayed db.delayedPayments payments
  if inserted = payments ∨ rescanning then
    ({ db with delayedPayments := db.delayedPayments ++ inserted }, inserted = payments)
  else (db, false)

end Xeqm.Rewards
