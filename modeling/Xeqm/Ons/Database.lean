import Mathlib.Data.List.Sort
import Xeqm.Lib.Latest
import Xeqm.Ons.Validation

/-!
# The name system database

The tables of `name_system_db`, its queries, and what a block does to it. A name is never
changed in place: a purchase, an update and a renewal each add a row, and a query takes the
row with the largest update height.
-/

namespace Xeqm.Ons

open Cryptonote
open Lib (latestBy)

/-- A row of the table `owner`. -/
structure OwnerRow where
  id : ℕ
  address : GenericOwner
  deriving DecidableEq

/-- `name_system_db`. -/
structure NameSystemDb where
  nettype : NetworkType
  owners : List OwnerRow := []
  /-- The largest id that the autoincrementing key of `owner` has had. -/
  ownerSequence : ℕ := 0
  mappings : List MappingRow := []
  lastProcessedHeight : ℕ := 0
  lastProcessedHash : Hash := 0
  deriving DecidableEq

/-! ## Groups of rows -/

/-- The number of a type in the table. -/
def MappingType.number : MappingType → ℕ
  | .session => 0
  | .wallet => 1
  | .lokinet => 2
  | .lokinet2Years => 3
  | .lokinet5Years => 4
  | .lokinet10Years => 5

/-- What the rows are grouped by. -/
def MappingRow.group (row : MappingRow) : Hash × MappingType := (row.nameHash, row.type)

/-- The groups of `GROUP BY name_hash, type`, in their order. -/
def sortGroups (keys : List (Hash × MappingType)) : List (Hash × MappingType) :=
  keys.dedup.insertionSort (fun a b => a.1 < b.1 ∨ (a.1 = b.1 ∧ a.2.number ≤ b.2.number))

/-- The latest row of every group, for rows that come with more data. -/
def latestOfGroups {α : Type} (row : α → MappingRow) (rows : List α) : List α :=
  (sortGroups (rows.map (fun a => (row a).group))).filterMap (fun key =>
    latestBy (fun a => (row a).updateHeight) (rows.filter (fun a => (row a).group = key)))

/-- The row is one of a name of some type. -/
def MappingRow.isOf (type : MappingType) (nameHash : Hash) (row : MappingRow) : Bool :=
  row.type = type.dbMappingType && row.nameHash = nameHash

namespace NameSystemDb

variable (db : NameSystemDb)

/-! ## Queries -/

/-- `get_owner_by_id`. -/
def ownerById (id : ℕ) : Option GenericOwner :=
  (db.owners.find? (fun owner => owner.id = id)).map OwnerRow.address

/-- `get_owner_by_key`, with the id. -/
def ownerByKey (key : GenericOwner) : Option ℕ :=
  (db.owners.find? (fun owner => owner.address = key)).map OwnerRow.id

/-- The rows that the join with the owners keeps. -/
def joined : List MappingRow :=
  db.mappings.filter (fun row => (db.ownerById row.ownerId).isSome)

/-- `sql_get_mapping_from_statement`: a row with its owners, with `none` if it does not load. -/
def load (row : MappingRow) : Option MappingRecord :=
  if row.encryptedValue.length > bufferSize then none
  else do
    let owner ← db.ownerById row.ownerId
    match row.backupOwnerId with
    | none => pure { row, owner, backupOwner := .null }
    | some id =>
      let backupOwner ← db.ownerById id
      pure { row, owner, backupOwner }

/-- `get_mapping`, without a height. -/
def getMapping (type : MappingType) (nameHash : Hash) : Option MappingRecord :=
  (latestBy MappingRow.updateHeight (db.joined.filter (MappingRow.isOf type nameHash))).bind db.load

/-- `get_mapping`, with a height at which the name is to be active. -/
def getActiveMapping (type : MappingType) (nameHash : Hash) (blockchainHeight : ℕ) :
    Option MappingRecord :=
  (db.getMapping type nameHash).filter (fun record => record.active blockchainHeight)

/-- `resolve`. -/
def resolve (type : MappingType) (nameHash : Hash) (blockchainHeight : ℕ) : Option (List UInt8) :=
  (latestBy MappingRow.updateHeight (db.mappings.filter (fun row =>
    row.isOf type nameHash && row.unexpired blockchainHeight))).map MappingRow.encryptedValue

/-- `get_mappings`. -/
def getMappings (nameHash : Hash) (blockchainHeight : Option ℕ) (onlyTypes : List MappingType) :
    List MappingRecord :=
  (latestOfGroups id (db.joined.filter (fun row =>
    row.nameHash = nameHash &&
      (onlyTypes.isEmpty || row.type ∈ onlyTypes.map MappingType.dbMappingType) &&
      blockchainHeight.all row.unexpired))).filterMap db.load

/-- Whether one of the owners of a row is among some. -/
def ownedBy (owners : List GenericOwner) (row : MappingRow) : Bool :=
  (db.ownerById row.ownerId).any (· ∈ owners) ||
    (row.backupOwnerId.bind db.ownerById).any (· ∈ owners)

/-- `get_mappings_by_owners`. -/
def getMappingsByOwners (owners : List GenericOwner) (blockchainHeight : Option ℕ) :
    List MappingRecord :=
  (latestOfGroups id (db.joined.filter (fun row =>
    db.ownedBy owners row && blockchainHeight.all row.unexpired))).filterMap db.load

/-- `get_mappings_by_owner`, which looks at the expiry of the records afterwards. -/
def getMappingsByOwner (owner : GenericOwner) (blockchainHeight : Option ℕ) :
    List MappingRecord :=
  ((latestOfGroups id (db.joined.filter (db.ownedBy [owner]))).filterMap db.load).filter
    (fun record => blockchainHeight.all record.active)

/-! ## Blocks -/

/-- `add_or_get_owner_id`. -/
def addOrGetOwnerId (key : GenericOwner) : ℕ × NameSystemDb :=
  match db.ownerByKey key with
  | some id => (id, db)
  | none =>
    let id := db.ownerSequence + 1
    (id, { db with owners := db.owners ++ [{ id, address := key }], ownerSequence := id })

/-- The id of an owner that may be missing. -/
def addOrGetOptionalOwnerId (key : Option GenericOwner) : Option ℕ × NameSystemDb :=
  match key with
  | some key =>
    let (id, db) := db.addOrGetOwnerId key
    (some id, db)
  | none => (none, db)

/-- The id that the next of some rows gets. -/
def nextRowId (rows : List MappingRow) : ℕ := (rows.map MappingRow.id).foldl max 0 + 1

/-- Two rows have the same key in the unique index. -/
def sameKey (a b : MappingRow) : Bool :=
  a.nameHash = b.nameHash && a.type = b.type && a.updateHeight = b.updateHeight

/-- An insertion into `mappings`, with `none` if it violates the unique index. -/
def insertMapping (row : MappingRow) : Option NameSystemDb :=
  if db.mappings.any (sameKey row) then none
  else some { db with mappings := db.mappings ++ [{ row with id := nextRowId db.mappings }] }

/-- `add_ons_entry` for a purchase. -/
def addPurchase (height : ℕ) (entry : OnsExtra) (txHash : Hash) : Option NameSystemDb :=
  let (ownerId, db) := db.addOrGetOwnerId entry.owner
  let (backupOwnerId, db) :=
    db.addOrGetOptionalOwnerId (if entry.backupOwner.isSet then some entry.backupOwner else none)
  db.insertMapping
    { id := 0
      type := entry.type.dbMappingType
      nameHash := entry.nameHash
      encryptedValue := entry.encryptedValue
      txid := txHash
      ownerId, backupOwnerId
      updateHeight := height
      expirationHeight := (expiryBlocks db.nettype entry.type).map (· + height) }

/-- `add_ons_entry` for an update or a renewal: a copy of the last row with what changes. -/
def addChange (height : ℕ) (entry : OnsExtra) (txHash : Hash) : Option NameSystemDb :=
  let renewing := entry.isRenewing
  let (ownerId, db) := db.addOrGetOptionalOwnerId (if renewing then none else entry.newOwner)
  let (backupOwnerId, db) :=
    db.addOrGetOptionalOwnerId (if renewing then none else entry.newBackupOwner)
  match latestBy MappingRow.updateHeight
      (db.mappings.filter (MappingRow.isOf entry.type entry.nameHash)) with
  -- the `SELECT` finds no row to copy
  | none => some db
  | some last =>
    db.insertMapping { last with
      txid := txHash
      updateHeight := height
      expirationHeight :=
        if renewing then
          last.expirationHeight.map (· + (expiryBlocks db.nettype entry.type).getD 0)
        else last.expirationHeight
      ownerId := ownerId.getD last.ownerId
      backupOwnerId := backupOwnerId.or last.backupOwnerId
      encryptedValue :=
        (if renewing then none else entry.newValue).getD last.encryptedValue }

/-- `add_ons_entry`. -/
def addOnsEntry (height : ℕ) (entry : OnsExtra) (txHash : Hash) : Option NameSystemDb :=
  if entry.isBuying then db.addPurchase height entry txHash else db.addChange height entry txHash

/-- One pass of the loop of `add_block`, with `none` for a failure. -/
def addTx (crypto : OnsCrypto) (version : Hf) (height : ℕ) (db : NameSystemDb) (tx : OnsTx) :
    Option NameSystemDb :=
  if tx.type ≠ .oxenNameSystem then some db
  else
    match validateOnsTx crypto db.nettype db.getMapping version height tx with
    | .error _ => none
    | .ok entry => db.addOnsEntry height entry tx.hash

/-- The loop of `add_block`. -/
def addTxs (crypto : OnsCrypto) (block : OnsBlock) : Option NameSystemDb :=
  if block.majorVersion ≥ Hf.hf15Ons then
    block.txs.foldlM (addTx crypto block.majorVersion block.height) db
  else some db

/-- `add_block`. A block that fails leaves nothing in the database. -/
def addBlock (crypto : OnsCrypto) (block : OnsBlock) : Bool × NameSystemDb :=
  if db.lastProcessedHeight ≥ block.height then (true, db)
  else
    match db.addTxs crypto block with
    | none => (false, db)
    | some after =>
      (true, { after with lastProcessedHeight := block.height, lastProcessedHash := block.hash })

/-- `prune_db`. -/
def pruneDb (topHeight : ℕ) (topHash : Hash) : NameSystemDb :=
  let mappings := db.mappings.filter (fun row => row.updateHeight ≤ topHeight)
  let owners := db.owners.filter (fun owner =>
    mappings.any (fun row => row.ownerId = owner.id || row.backupOwnerId = some owner.id))
  let pruned := { db with mappings, owners }
  if topHeight < db.lastProcessedHeight then
    { pruned with lastProcessedHeight := topHeight, lastProcessedHash := topHash }
  else pruned

end NameSystemDb

/-! ## Runs -/

/-- A call that changes the database. -/
inductive OnsStep
  | addBlock (block : OnsBlock)
  | pruneDb (topHeight : ℕ) (topHash : Hash)

/-- The database after a call. -/
def OnsStep.run (crypto : OnsCrypto) (db : NameSystemDb) : OnsStep → NameSystemDb
  | .addBlock block => (db.addBlock crypto block).2
  | .pruneDb topHeight topHash => db.pruneDb topHeight topHash

/-- The database after calls. -/
def OnsStep.runAll (crypto : OnsCrypto) (db : NameSystemDb) (steps : List OnsStep) :
    NameSystemDb :=
  steps.foldl (OnsStep.run crypto) db

/-- A block that buys a lokinet name. -/
def purchaseBlock : OnsBlock where
  majorVersion := .hf16Pulse
  height := 10
  hash := 100
  txs := [
    { hash := 11
      extra := some
        { type := .lokinet
          nameHash := 5
          fields := { owner := true, encryptedValue := true }
          owner := .ed25519 7
          encryptedValue := List.replicate 72 0 }
      burned := 15000000000 }]

/-- The block is accepted and the name is recorded. -/
example : ((NameSystemDb.mk .mainnet [] 0 [] 0 0).addBlock .acceptAll purchaseBlock).1 = true ∧
    (((NameSystemDb.mk .mainnet [] 0 [] 0 0).addBlock .acceptAll purchaseBlock).2.resolve
      .lokinet2Years 5 20).isSome := by
  decide +kernel

end Xeqm.Ons
