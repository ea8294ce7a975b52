import Xeqm.Ons.Database

/-!
# The history of the names

What the database is for: the list of all versions of all names, each with its owners. There is
no table of owners here, so nothing depends on the numbers that the owners have.
-/

namespace Xeqm.Ons

open Cryptonote
open Lib (latestBy)

/-- The versions of all names, with the block they go up to. -/
structure NameHistory where
  nettype : NetworkType
  records : List MappingRecord
  lastProcessedHeight : ℕ
  lastProcessedHash : Hash

/-- One of the owners of a record is among some. -/
def MappingRecord.ownedBy (owners : List GenericOwner) (record : MappingRecord) : Bool :=
  record.owner ∈ owners || (record.row.backupOwnerId.isSome && record.backupOwner ∈ owners)

namespace NameHistory

variable (history : NameHistory)

variable (height : ℕ) (entry : OnsExtra) (txHash : Hash)

/-! ## Queries -/

/-- The last version of a name. -/
def getMapping (type : MappingType) (nameHash : Hash) : Option MappingRecord :=
  latestBy (fun record => record.row.updateHeight)
    (history.records.filter (fun record => record.row.isOf type nameHash))

/-- The last version of a name, if it is active. -/
def getActiveMapping (type : MappingType) (nameHash : Hash) (blockchainHeight : ℕ) :
    Option MappingRecord :=
  (history.getMapping type nameHash).filter (fun record => record.active blockchainHeight)

/-- The value of the last version of a name that has not expired. -/
def resolve (type : MappingType) (nameHash : Hash) (blockchainHeight : ℕ) : Option (List UInt8) :=
  (latestBy (fun record => record.row.updateHeight) (history.records.filter (fun record =>
    record.row.isOf type nameHash && record.row.unexpired blockchainHeight))).map
    (fun record => record.row.encryptedValue)

/-- The last versions of a name of some types. -/
def getMappings (nameHash : Hash) (blockchainHeight : Option ℕ) (onlyTypes : List MappingType) :
    List MappingRecord :=
  latestOfGroups MappingRecord.row (history.records.filter (fun record =>
    record.row.nameHash = nameHash &&
      (onlyTypes.isEmpty || record.row.type ∈ onlyTypes.map MappingType.dbMappingType) &&
      blockchainHeight.all record.row.unexpired))

/-- The last versions with one of some owners. -/
def getMappingsByOwners (owners : List GenericOwner) (blockchainHeight : Option ℕ) :
    List MappingRecord :=
  latestOfGroups MappingRecord.row (history.records.filter (fun record =>
    record.ownedBy owners && blockchainHeight.all record.row.unexpired))

/-- The last versions with an owner. -/
def getMappingsByOwner (owner : GenericOwner) (blockchainHeight : Option ℕ) :
    List MappingRecord :=
  (latestOfGroups MappingRecord.row (history.records.filter
    (MappingRecord.ownedBy [owner]))).filter (fun record => blockchainHeight.all record.active)

/-! ## Blocks -/

/-- A version is added, unless the name has one of this height. -/
def insert (record : MappingRecord) : Option NameHistory :=
  if history.records.any (fun other => NameSystemDb.sameKey record.row other.row) then none
  else
    let id := NameSystemDb.nextRowId (history.records.map MappingRecord.row)
    some { history with
      records := history.records ++ [{ record with row := { record.row with id } }] }

/-- The first version of a registration. -/
def purchase : MappingRecord where
  row :=
    { id := 0
      type := entry.type.dbMappingType
      nameHash := entry.nameHash
      encryptedValue := entry.encryptedValue
      txid := txHash
      ownerId := 0
      backupOwnerId := if entry.backupOwner.isSet then some 0 else none
      updateHeight := height
      expirationHeight := (expiryBlocks history.nettype entry.type).map (· + height) }
  owner := entry.owner
  backupOwner := if entry.backupOwner.isSet then entry.backupOwner else .null

/-- The version after a renewal. -/
def renewal (last : MappingRecord) : MappingRecord :=
  { last with row := { last.row with
      txid := txHash
      updateHeight := height
      expirationHeight :=
        last.row.expirationHeight.map (· + (expiryBlocks history.nettype entry.type).getD 0) } }

/-- The version after an update. -/
def update (last : MappingRecord) : MappingRecord where
  row := { last.row with
    txid := txHash
    updateHeight := height
    backupOwnerId := (entry.newBackupOwner.map (fun _ => 0)).or last.row.backupOwnerId
    encryptedValue := entry.newValue.getD last.row.encryptedValue }
  owner := entry.newOwner.getD last.owner
  backupOwner := entry.newBackupOwner.getD last.backupOwner

/-- The version after an update or a renewal. -/
def change (last : MappingRecord) : MappingRecord :=
  if entry.isRenewing then history.renewal height entry txHash last
  else update height entry txHash last

/-- What a valid entry does. -/
def addOnsEntry : Option NameHistory :=
  if entry.isBuying then history.insert (history.purchase height entry txHash)
  else
    match history.getMapping entry.type entry.nameHash with
    | none => some history
    | some last => history.insert (history.change height entry txHash last)

/-- What a transaction does, with `none` for one that is refused. -/
def addTx (crypto : OnsCrypto) (version : Hf) (height : ℕ) (history : NameHistory) (tx : OnsTx) :
    Option NameHistory :=
  if tx.type ≠ .oxenNameSystem then some history
  else
    match validateOnsTx crypto history.nettype history.getMapping version height tx with
    | .error _ => none
    | .ok entry => history.addOnsEntry height entry tx.hash

/-- What the transactions of a block do. -/
def addTxs (crypto : OnsCrypto) (block : OnsBlock) : Option NameHistory :=
  if block.majorVersion ≥ Hf.hf15Ons then
    block.txs.foldlM (addTx crypto block.majorVersion block.height) history
  else some history

/-- What a block does. -/
def addBlock (crypto : OnsCrypto) (block : OnsBlock) : Bool × NameHistory :=
  if history.lastProcessedHeight ≥ block.height then (true, history)
  else
    match history.addTxs crypto block with
    | none => (false, history)
    | some after =>
      (true, { after with lastProcessedHeight := block.height, lastProcessedHash := block.hash })

end NameHistory

end Xeqm.Ons
