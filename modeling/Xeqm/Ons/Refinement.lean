import Xeqm.Ons.History

/-!
# The database stands for a history

In every database that a run leads to, each row names owners that are in the table. Such a
database stands for a history, and its queries and blocks are those of the history.
-/

namespace Xeqm.Ons

open Cryptonote List
open Lib (latestBy latestBy_map mem_of_latestBy)

/-! ## Groups -/

section

variable {α β : Type} {row : α → MappingRow} {row' : β → MappingRow} {rows : List α}

/-- The latest row of a group is one of the rows. -/
theorem mem_latestOfGroups {a : α} (h : a ∈ latestOfGroups row rows) : a ∈ rows := by
  obtain ⟨key, -, hlatest⟩ := mem_filterMap.mp h
  exact mem_of_mem_filter (mem_of_latestBy hlatest)

/-- The groups of rows that come with other data. -/
theorem latestOfGroups_map {f : α → β} (hgroup : ∀ a, (row' (f a)).group = (row a).group)
    (hheight : ∀ a, (row' (f a)).updateHeight = (row a).updateHeight) :
    latestOfGroups row' (rows.map f) = (latestOfGroups row rows).map f := by
  unfold latestOfGroups
  rw [map_filterMap, map_map]
  have hkeys : (fun b => (row' b).group) ∘ f = fun a => (row a).group := funext hgroup
  rw [hkeys]
  apply filterMap_congr
  intro key _
  have hfilter : (rows.map f).filter (fun b => (row' b).group = key) =
      (rows.filter (fun a => (row a).group = key)).map f := by
    rw [filter_map]
    congr 1
    apply filter_congr
    intro a _
    simp only [Function.comp_apply, hgroup]
  rw [hfilter]
  exact latestBy_map fun a _ => hheight a

end

/-! ## Records without the numbers of owners -/

/-- The row without the numbers of its owners. -/
def MappingRow.withoutOwnerIds (row : MappingRow) : MappingRow :=
  { row with ownerId := 0, backupOwnerId := row.backupOwnerId.map (fun _ => 0) }

/-- The record without the numbers of its owners. -/
def MappingRecord.withoutOwnerIds (record : MappingRecord) : MappingRecord :=
  { record with row := record.row.withoutOwnerIds }

@[simp]
theorem MappingRecord.withoutOwnerIds_withoutOwnerIds (record : MappingRecord) :
    record.withoutOwnerIds.withoutOwnerIds = record.withoutOwnerIds := by
  cases hbackup : record.row.backupOwnerId <;>
    simp [MappingRecord.withoutOwnerIds, MappingRow.withoutOwnerIds, hbackup]

section

variable {g g' : Lookup} (hg : ∀ type nameHash, (g type nameHash).map
  MappingRecord.withoutOwnerIds = (g' type nameHash).map MappingRecord.withoutOwnerIds)

include hg

/-- A purchase looks at no number of an owner. -/
theorem validateBuy_congr {height : ℕ} {entry : OnsExtra} {mapping mapping' : Option MappingRecord}
    (hmapping : mapping.map MappingRecord.withoutOwnerIds =
      mapping'.map MappingRecord.withoutOwnerIds) :
    validateBuy g mapping height entry = validateBuy g' mapping' height entry := by
  have hany {m m' : Option MappingRecord} {p : MappingRecord → Bool}
      (hp : ∀ r : MappingRecord, p r.withoutOwnerIds = p r)
      (h : m.map MappingRecord.withoutOwnerIds = m'.map MappingRecord.withoutOwnerIds) :
      m.any p = m'.any p := by
    have hm (o : Option MappingRecord) : (o.map MappingRecord.withoutOwnerIds).any p = o.any p := by
      cases o with
      | none => rfl
      | some r => exact hp r
    rw [← hm m, ← hm m', h]
  unfold validateBuy
  rw [hany (fun _ => rfl) hmapping]
  cases entry.type.altType with
  | none => rfl
  | some type =>
    simp only [Option.bind_some]
    rw [hany (fun _ => rfl) (hg type entry.nameHash)]

/-- The checks look at no number of an owner. -/
theorem validateOnsTx_congr {crypto : OnsCrypto} {nettype : NetworkType} {version : Hf} {height : ℕ}
    {tx : OnsTx} :
    validateOnsTx crypto nettype g version height tx =
      validateOnsTx crypto nettype g' version height tx := by
  have hprevious (entry : OnsExtra) :
      expectedPrevTxid crypto g height entry = expectedPrevTxid crypto g' height entry := by
    have h := hg entry.type entry.nameHash
    unfold expectedPrevTxid
    dsimp only
    rw [validateBuy_congr hg h]
    cases hm : g entry.type entry.nameHash with
    | none =>
      cases hm' : g' entry.type entry.nameHash with
      | none => rfl
      | some =>
        rw [hm, hm'] at h
        cases h
    | some mapping =>
      cases hm' : g' entry.type entry.nameHash with
      | none =>
        rw [hm, hm'] at h
        cases h
      | some mapping' =>
        rw [hm, hm'] at h
        have heq : mapping.withoutOwnerIds = mapping'.withoutOwnerIds := Option.some.inj h
        have hupdate : validateUpdate crypto (some mapping) height entry =
            validateUpdate crypto (some mapping') height entry := by
          change validateUpdate crypto (some mapping.withoutOwnerIds) height entry =
            validateUpdate crypto (some mapping'.withoutOwnerIds) height entry
          rw [heq]
        have hrenewal : validateRenewal (some mapping) height =
            validateRenewal (some mapping') height := by
          change validateRenewal (some mapping.withoutOwnerIds) height =
            validateRenewal (some mapping'.withoutOwnerIds) height
          rw [heq]
        rw [hupdate, hrenewal]
  unfold validateOnsTx validateAgainstPreviousMapping
  simp only [hprevious]

end

namespace NameSystemDb

/-! ## Well-formed databases -/

/-- The ids of the owners are different, and the sequence is past them. -/
structure OwnersIntact (db : NameSystemDb) : Prop where
  nodup : (db.owners.map OwnerRow.id).Nodup
  le_sequence : ∀ owner ∈ db.owners, owner.id ≤ db.ownerSequence

/-- Every row can be loaded, and a row of a type that expires has its expiry. -/
structure WellFormed (db : NameSystemDb) : Prop extends OwnersIntact db where
  owner_known : ∀ row ∈ db.mappings, (db.ownerById row.ownerId).isSome
  backup_known : ∀ row ∈ db.mappings, ∀ id ∈ row.backupOwnerId, (db.ownerById id).isSome
  fits : ∀ row ∈ db.mappings, row.encryptedValue.length ≤ bufferSize
  expires : ∀ row ∈ db.mappings, row.type.isLokinetType → row.expirationHeight.isSome

/-- The record of a row, without the numbers of its owners. -/
def record (db : NameSystemDb) (row : MappingRow) : MappingRecord where
  row := row.withoutOwnerIds
  owner := (db.ownerById row.ownerId).getD .null
  backupOwner := (row.backupOwnerId.bind db.ownerById).getD .null

/-- The history that a database stands for. -/
def history (db : NameSystemDb) : NameHistory where
  nettype := db.nettype
  records := db.mappings.map db.record
  lastProcessedHeight := db.lastProcessedHeight
  lastProcessedHash := db.lastProcessedHash

variable {db : NameSystemDb}

/-- The latest of the records that are chosen by what their rows hold. -/
theorem latest_filter (p : MappingRow → Bool) (q : MappingRecord → Bool)
    (hpq : ∀ row ∈ db.mappings, q (db.record row) = p row) :
    latestBy (fun record => record.row.updateHeight) (db.history.records.filter q) =
      (latestBy MappingRow.updateHeight (db.mappings.filter p)).map db.record := by
  have hfilter : db.history.records.filter q = (db.mappings.filter p).map db.record := by
    rw [history, filter_map]
    exact congrArg _ (filter_congr hpq)
  rw [hfilter]
  exact latestBy_map fun row _ => rfl

theorem resolve_history (type : MappingType) (nameHash : Hash) (height : ℕ) :
    db.resolve type nameHash height = db.history.resolve type nameHash height := by
  unfold resolve NameHistory.resolve
  rw [latest_filter (fun row => row.isOf type nameHash && row.unexpired height) _
    (fun row _ => rfl), Option.map_map]
  rfl

namespace WellFormed

variable (hdb : db.WellFormed) {row : MappingRow}

include hdb

theorem joined_eq : db.joined = db.mappings := filter_eq_self.mpr hdb.owner_known

theorem load_eq (hrow : row ∈ db.mappings) :
    (db.load row).map MappingRecord.withoutOwnerIds = some (db.record row) := by
  obtain ⟨owner, howner⟩ := Option.isSome_iff_exists.mp (hdb.owner_known row hrow)
  unfold load record
  rw [if_neg (Nat.not_lt.mpr (hdb.fits row hrow)), howner]
  cases hbackup : row.backupOwnerId with
  | none => simp [MappingRecord.withoutOwnerIds]
  | some id =>
    obtain ⟨backup, hknown⟩ := Option.isSome_iff_exists.mp (hdb.backup_known row hrow id hbackup)
    simp [MappingRecord.withoutOwnerIds, hknown]

/-! ## Queries -/

theorem getMapping_history (type : MappingType) (nameHash : Hash) :
    (db.getMapping type nameHash).map MappingRecord.withoutOwnerIds =
      db.history.getMapping type nameHash := by
  unfold getMapping NameHistory.getMapping
  rw [hdb.joined_eq, latest_filter (MappingRow.isOf type nameHash) _ (fun row _ => rfl)]
  cases hlatest : latestBy MappingRow.updateHeight
      (db.mappings.filter (MappingRow.isOf type nameHash)) with
  | none => rfl
  | some row => exact hdb.load_eq (mem_of_mem_filter (mem_of_latestBy hlatest))

theorem getActiveMapping_history (type : MappingType) (nameHash : Hash) (height : ℕ) :
    (db.getActiveMapping type nameHash height).map MappingRecord.withoutOwnerIds =
      db.history.getActiveMapping type nameHash height := by
  unfold getActiveMapping NameHistory.getActiveMapping
  rw [← hdb.getMapping_history type nameHash]
  cases db.getMapping type nameHash with
  | none => rfl
  | some record =>
    rw [Option.map_some, Option.filter_some, Option.filter_some]
    change _ = if record.active height = true then _ else _
    split <;> rfl

/-- The latest rows of the groups of some rows, loaded. -/
theorem latestOfGroups_filter (p : MappingRow → Bool) (q : MappingRecord → Bool)
    (hpq : ∀ row ∈ db.mappings, q (db.record row) = p row) :
    ((latestOfGroups id (db.joined.filter p)).filterMap db.load).map
        MappingRecord.withoutOwnerIds =
      latestOfGroups MappingRecord.row (db.history.records.filter q) := by
  have hfilter : db.history.records.filter q = (db.mappings.filter p).map db.record := by
    rw [history, filter_map]
    exact congrArg _ (filter_congr hpq)
  rw [hfilter, hdb.joined_eq, map_filterMap,
    latestOfGroups_map (fun row => rfl) (fun row => rfl), ← filterMap_eq_map]
  apply filterMap_congr
  intro row hrow
  exact hdb.load_eq (mem_of_mem_filter (mem_latestOfGroups hrow))

/-- What a query for an owner looks at. -/
theorem ownedBy_record (owners : List GenericOwner) (hrow : row ∈ db.mappings) :
    (db.record row).ownedBy owners = db.ownedBy owners row := by
  obtain ⟨owner, howner⟩ := Option.isSome_iff_exists.mp (hdb.owner_known row hrow)
  unfold MappingRecord.ownedBy ownedBy record
  cases hbackup : row.backupOwnerId with
  | none => simp [howner, MappingRow.withoutOwnerIds, hbackup]
  | some id =>
    obtain ⟨backup, hknown⟩ := Option.isSome_iff_exists.mp (hdb.backup_known row hrow id hbackup)
    simp [howner, hknown, MappingRow.withoutOwnerIds, hbackup]

theorem getMappings_history (nameHash : Hash) (height : Option ℕ) (onlyTypes : List MappingType) :
    (db.getMappings nameHash height onlyTypes).map MappingRecord.withoutOwnerIds =
      db.history.getMappings nameHash height onlyTypes :=
  hdb.latestOfGroups_filter _ _ fun _ _ => rfl

theorem getMappingsByOwners_history (owners : List GenericOwner) (height : Option ℕ) :
    (db.getMappingsByOwners owners height).map MappingRecord.withoutOwnerIds =
      db.history.getMappingsByOwners owners height := by
  apply hdb.latestOfGroups_filter
  intro row hrow
  rw [hdb.ownedBy_record owners hrow]
  rfl

theorem getMappingsByOwner_history (owner : GenericOwner) (height : Option ℕ) :
    (db.getMappingsByOwner owner height).map MappingRecord.withoutOwnerIds =
      db.history.getMappingsByOwner owner height := by
  unfold getMappingsByOwner NameHistory.getMappingsByOwner
  rw [← hdb.latestOfGroups_filter (db.ownedBy [owner]) (MappingRecord.ownedBy [owner])
    (fun row hrow => hdb.ownedBy_record [owner] hrow), filter_map]
  rfl

end WellFormed

end NameSystemDb

end Xeqm.Ons
