import Xeqm.Ons.Refinement

/-!
# What a block adds to the database

A transaction that is accepted adds at most one row, and the owners that the row names. This is
what it does to the history that the database stands for.
-/

namespace Xeqm.Ons.NameSystemDb

open Cryptonote List
open Lib (latestBy mem_of_latestBy)

variable {db grown : NameSystemDb}

/-! ## Owners -/

/-- Owners are added with fresh ids, and nothing else changes. -/
structure OwnersGrow (db grown : NameSystemDb) : Prop where
  eq : grown = { db with owners := grown.owners, ownerSequence := grown.ownerSequence }
  added : ∃ new, grown.owners = db.owners ++ new ∧ ∀ owner ∈ new, db.ownerSequence < owner.id
  sequence : db.ownerSequence ≤ grown.ownerSequence

variable {row : MappingRow} {id : ℕ}

namespace OwnersGrow

theorem refl (db : NameSystemDb) : OwnersGrow db db := ⟨rfl, ⟨[], by simp⟩, le_rfl⟩

theorem trans {a b c : NameSystemDb} (hab : OwnersGrow a b) (hbc : OwnersGrow b c) :
    OwnersGrow a c := by
  obtain ⟨new, hnew, hids⟩ := hab.added
  obtain ⟨new', hnew', hids'⟩ := hbc.added
  refine ⟨?_, ⟨new ++ new', by rw [hnew', hnew, append_assoc], ?_⟩, hab.sequence.trans hbc.sequence⟩
  · rw [hbc.eq, hab.eq]
  · intro owner howner
    rcases mem_append.mp howner with h | h
    · exact hids owner h
    · exact hab.sequence.trans_lt (hids' owner h)

section

variable (h : OwnersGrow db grown)

include h

theorem mappings : grown.mappings = db.mappings := by rw [h.eq]

theorem nettype : grown.nettype = db.nettype := by rw [h.eq]

/-- An owner that was known keeps its id. -/
theorem ownerById {owner : GenericOwner} (hknown : db.ownerById id = some owner) :
    grown.ownerById id = some owner := by
  obtain ⟨new, hnew, -⟩ := h.added
  unfold NameSystemDb.ownerById at hknown ⊢
  obtain ⟨row, hrow, haddress⟩ := Option.map_eq_some_iff.mp hknown
  rw [hnew, find?_append, hrow]
  exact congrArg some haddress

theorem ownerById_eq (hknown : (db.ownerById id).isSome) :
    grown.ownerById id = db.ownerById id := by
  obtain ⟨owner, howner⟩ := Option.isSome_iff_exists.mp hknown
  rw [howner, h.ownerById howner]

theorem isSome (hknown : (db.ownerById id).isSome) : (grown.ownerById id).isSome := by
  rw [h.ownerById_eq hknown]
  exact hknown

/-- A row with known owners keeps its record. -/
theorem record_eq (howner : (db.ownerById row.ownerId).isSome)
    (hbackup : ∀ id ∈ row.backupOwnerId, (db.ownerById id).isSome) :
    grown.record row = db.record row := by
  unfold record
  rw [h.ownerById_eq howner]
  cases hid : row.backupOwnerId with
  | none => rfl
  | some id => rw [Option.bind_some, Option.bind_some, h.ownerById_eq (hbackup id hid)]

/-- The history does not change. -/
theorem history_eq (hdb : db.WellFormed) : grown.history = db.history := by
  have hrecords : grown.mappings.map grown.record = db.mappings.map db.record := by
    rw [h.mappings]
    apply map_congr_left
    intro row hrow
    exact h.record_eq (hdb.owner_known row hrow) (hdb.backup_known row hrow)
  unfold history
  rw [hrecords, h.eq]

end

end OwnersGrow

section

variable (h : db.OwnersIntact) {key : GenericOwner}

include h

/-- An owner is found under its id. -/
theorem OwnersIntact.ownerById_eq_some_iff :
    db.ownerById id = some key ↔ ⟨id, key⟩ ∈ db.owners := by
  unfold ownerById
  constructor
  · intro hfind
    obtain ⟨row, hrow, rfl⟩ := Option.map_eq_some_iff.mp hfind
    have hid : row.id = id := by simpa using find?_some hrow
    subst hid
    exact mem_of_find?_eq_some hrow
  · intro hmem
    cases hfind : db.owners.find? (fun owner => owner.id = id) with
    | none =>
      have hnone := find?_eq_none.mp hfind _ hmem
      simp at hnone
    | some other =>
      have hid : other.id = id := by simpa using find?_some hfind
      have heq := inj_on_of_nodup_map h.nodup (mem_of_find?_eq_some hfind) hmem hid
      rw [heq]
      rfl

/-- The owner of an id that was found by its key. -/
theorem OwnersIntact.ownerById_of_ownerByKey
    (hkey : db.ownerByKey key = some id) : db.ownerById id = some key := by
  obtain ⟨row, hrow, rfl⟩ := Option.map_eq_some_iff.mp hkey
  have haddress : row.address = key := by simpa using find?_some hrow
  rw [h.ownerById_eq_some_iff, ← haddress]
  exact mem_of_find?_eq_some hrow

/-- An id past the sequence belongs to no owner. -/
theorem OwnersIntact.ownerById_fresh : db.ownerById (db.ownerSequence + 1) = none := by
  unfold ownerById
  rw [Option.map_eq_none_iff, find?_eq_none]
  intro owner howner
  have hle := h.le_sequence owner howner
  simp only [decide_eq_true_eq]
  omega

/-- `add_or_get_owner_id` makes the owner known under the id that it returns. -/
theorem addOrGetOwnerId_spec (hget : db.addOrGetOwnerId key = (id, grown)) :
    OwnersGrow db grown ∧ grown.OwnersIntact ∧ grown.ownerById id = some key ∧
      ∀ owner ∈ grown.owners, owner ∈ db.owners ∨ id = owner.id := by
  unfold addOrGetOwnerId at hget
  cases hkey : db.ownerByKey key with
  | some =>
    rw [hkey] at hget
    cases hget
    exact ⟨.refl db, h, h.ownerById_of_ownerByKey hkey, fun owner howner => .inl howner⟩
  | none =>
    rw [hkey] at hget
    cases hget
    refine ⟨⟨rfl, ⟨[⟨db.ownerSequence + 1, key⟩], rfl, by simp⟩, Nat.le_succ _⟩, ⟨?_, ?_⟩, ?_, ?_⟩
    · dsimp only
      rw [map_append, nodup_append]
      refine ⟨h.nodup, by simp, ?_⟩
      intro id hid id' hid'
      obtain ⟨owner, howner, rfl⟩ := mem_map.mp hid
      have hle := h.le_sequence owner howner
      have hid' : id' = db.ownerSequence + 1 := by simpa using hid'
      omega
    · intro owner howner
      rcases mem_append.mp howner with hold | hnew
      · exact (h.le_sequence owner hold).trans (Nat.le_succ _)
      · rw [mem_singleton.mp hnew]
    · have hfresh := h.ownerById_fresh
      unfold ownerById at hfresh ⊢
      rw [Option.map_eq_none_iff] at hfresh
      rw [find?_append, hfresh]
      simp
    · intro owner howner
      rcases mem_append.mp howner with hold | hnew
      · exact .inl hold
      · rw [mem_singleton.mp hnew]
        exact .inr rfl

end

/-- An id that may be missing finds a key that may be missing. -/
structure Finds (db : NameSystemDb) (id : Option ℕ) (key : Option GenericOwner) : Prop where
  known : ∀ i ∈ id, (db.ownerById i).isSome
  bind_eq : id.bind db.ownerById = key
  isSome_eq : id.isSome = key.isSome

variable {key : Option GenericOwner} {id : Option ℕ}

/-- The same for an owner that may be missing. -/
theorem addOrGetOptionalOwnerId_spec (h : db.OwnersIntact)
    (hget : db.addOrGetOptionalOwnerId key = (id, grown)) :
    OwnersGrow db grown ∧ grown.OwnersIntact ∧ grown.Finds id key ∧
      ∀ owner ∈ grown.owners, owner ∈ db.owners ∨ id = some owner.id := by
  cases key with
  | none =>
    cases hget
    exact ⟨.refl db, h, ⟨by simp, rfl, rfl⟩, fun owner howner => .inl howner⟩
  | some key =>
    cases hfirst : db.addOrGetOwnerId key with
    | mk =>
      simp only [addOrGetOptionalOwnerId, hfirst] at hget
      cases hget
      obtain ⟨hgrow, hintact, hknown, hused⟩ := addOrGetOwnerId_spec h hfirst
      refine ⟨hgrow, hintact, ⟨by simp [hknown], hknown, rfl⟩, ?_⟩
      intro owner howner
      rcases hused owner howner with hold | hid
      · exact .inl hold
      · exact .inr (congrArg some hid)

theorem Finds.grow (h : db.Finds id key) (hgrow : OwnersGrow db grown) : grown.Finds id key := by
  refine ⟨?_, ?_, h.isSome_eq⟩
  · exact fun i hi => hgrow.isSome (h.known i hi)
  · rw [← h.bind_eq]
    cases id with
    | none => rfl
    | some i => exact hgrow.ownerById_eq (h.known i rfl)

/-- The owner of a copied row: the new one, or else the one before. -/
theorem Finds.owner_eq (h : grown.Finds id key) (hgrow : OwnersGrow db grown) {old : ℕ}
    (hold : (db.ownerById old).isSome) :
    (grown.ownerById (id.getD old)).getD .null = key.getD ((db.ownerById old).getD .null) := by
  rw [← h.bind_eq]
  cases id with
  | none => rw [Option.getD_none, hgrow.ownerById_eq hold]; rfl
  | some i =>
    obtain ⟨owner, howner⟩ := Option.isSome_iff_exists.mp (h.known i rfl)
    simp [howner]

/-- The backup owner of a copied row. -/
theorem Finds.backupOwner_eq (h : grown.Finds id key) (hgrow : OwnersGrow db grown) {old : Option ℕ}
    (hold : ∀ i ∈ old, (db.ownerById i).isSome) :
    ((id.or old).bind grown.ownerById).getD .null =
      key.getD ((old.bind db.ownerById).getD .null) := by
  rw [← h.bind_eq]
  cases id with
  | none =>
    cases old with
    | none => rfl
    | some i =>
      change (grown.ownerById i).getD .null = (db.ownerById i).getD .null
      rw [hgrow.ownerById_eq (hold i rfl)]
  | some i =>
    obtain ⟨owner, howner⟩ := Option.isSome_iff_exists.mp (h.known i rfl)
    simp [howner]

/-- A copied row has a backup owner if one is set or there was one. -/
theorem Finds.map_or {old : Option ℕ} (h : grown.Finds id key) :
    (id.or old).map (fun _ => 0) = (key.map (fun _ => 0)).or (old.map (fun _ => 0)) := by
  have hsome := h.isSome_eq
  cases id with
  | none =>
    have hnone : key = none := by simpa using hsome.symm
    rw [hnone]
    rfl
  | some =>
    obtain ⟨owner, howner⟩ := Option.isSome_iff_exists.mp hsome.symm
    rw [howner]
    rfl

/-! ## Rows -/

/-- A row that is about to be added, with the owners that it names added before. -/
structure AddsRow (height : ℕ) (db grown : NameSystemDb) (row : MappingRow) : Prop where
  grow : OwnersGrow db grown
  intact : grown.OwnersIntact
  owner_known : (grown.ownerById row.ownerId).isSome
  backup_known : ∀ id ∈ row.backupOwnerId, (grown.ownerById id).isSome
  used : ∀ owner ∈ grown.owners, owner ∈ db.owners ∨
    row.ownerId = owner.id ∨ row.backupOwnerId = some owner.id
  fits : row.encryptedValue.length ≤ bufferSize
  expires : row.type.isLokinetType → row.expirationHeight.isSome
  updateHeight : row.updateHeight = height

/-- An insertion adds the record of the row to the history. -/
theorem insertMapping_history (row : MappingRow) :
    (grown.insertMapping row).map history = grown.history.insert (grown.record row) := by
  have hids : (grown.mappings.map grown.record).map MappingRecord.row =
      grown.mappings.map MappingRow.withoutOwnerIds := by
    rw [map_map]
    rfl
  have hnext : nextRowId (grown.mappings.map MappingRow.withoutOwnerIds) =
      nextRowId grown.mappings := by
    unfold nextRowId
    rw [map_map]
    rfl
  unfold insertMapping NameHistory.insert
  have hany : grown.history.records.any
      (fun other => sameKey (grown.record row).row other.row) =
        grown.mappings.any (sameKey row) := by
    unfold history
    rw [any_map]
    rfl
  rw [hany]
  split
  · rfl
  · simp only [Option.map_some, history, hids, hnext, map_append, map_cons, map_nil]
    rfl

variable {entry : OnsExtra} {txHash : Hash} {height : ℕ}

section

variable (hdb : db.WellFormed) (hfits : entry.encryptedValue.length ≤ bufferSize)

include hdb hfits

/-- A purchase adds a row with the record of the purchase. -/
theorem addPurchase_eq :
    ∃ grown row, AddsRow height db grown row ∧
      db.addPurchase height entry txHash = grown.insertMapping row ∧
      grown.record row = db.history.purchase height entry txHash := by
  cases hfirst : db.addOrGetOwnerId entry.owner with
  | mk ownerId first =>
  cases hsecond : first.addOrGetOptionalOwnerId
      (if entry.backupOwner.isSet then some entry.backupOwner else none) with
  | mk backupOwnerId second =>
  obtain ⟨hgrow, hintact, hknown, hused⟩ := addOrGetOwnerId_spec hdb.toOwnersIntact hfirst
  obtain ⟨hgrow', hintact', hfinds, hused'⟩ := addOrGetOptionalOwnerId_spec hintact hsecond
  have howner := hgrow'.ownerById hknown
  unfold addPurchase
  simp only [hfirst, hsecond]
  refine ⟨second, _, ⟨hgrow.trans hgrow', hintact', ?_, hfinds.known, ?_, hfits, ?_, rfl⟩, rfl, ?_⟩
  · rw [howner]
    rfl
  · intro owner hmem
    rcases hused' owner hmem with hmem | hid
    · rcases hused owner hmem with hmem | hid
      · exact .inl hmem
      · exact .inr (.inl hid)
    · exact .inr (.inr hid)
  · intro htype
    rw [MappingType.isLokinetType_dbMappingType] at htype
    obtain ⟨blocks, hblocks, -⟩ := expiryBlocks_pos second.nettype htype
    simp [hblocks]
  · unfold record NameHistory.purchase MappingRow.withoutOwnerIds
    rw [howner, hfinds.bind_eq, (hgrow.trans hgrow').nettype]
    have hsome := hfinds.isSome_eq
    cases hset : entry.backupOwner.isSet with
    | false =>
      rw [hset] at hsome
      have hnone : backupOwnerId = none := by simpa using hsome
      rw [hnone]
      rfl
    | true =>
      rw [hset] at hsome
      obtain ⟨id, hid⟩ := Option.isSome_iff_exists.mp hsome
      rw [hid]
      rfl

/-- An update or a renewal adds a row with the record after the change. -/
theorem addChange_eq {last : MappingRow}
    (hlast : latestBy MappingRow.updateHeight
      (db.mappings.filter (MappingRow.isOf entry.type entry.nameHash)) = some last) :
    ∃ grown row, AddsRow height db grown row ∧
      db.addChange height entry txHash = grown.insertMapping row ∧
      grown.record row = db.history.change height entry txHash (db.record last) := by
  cases hfirst : db.addOrGetOptionalOwnerId (if entry.isRenewing then none else entry.newOwner) with
  | mk ownerId first =>
  cases hsecond : first.addOrGetOptionalOwnerId
      (if entry.isRenewing then none else entry.newBackupOwner) with
  | mk backupOwnerId second =>
  obtain ⟨hgrow, hintact, hfinds, hused⟩ := addOrGetOptionalOwnerId_spec hdb.toOwnersIntact hfirst
  obtain ⟨hgrow', hintact', hfinds', hused'⟩ := addOrGetOptionalOwnerId_spec hintact hsecond
  have hall := hgrow.trans hgrow'
  have hfinds := hfinds.grow hgrow'
  have hmem : last ∈ db.mappings := mem_of_mem_filter (mem_of_latestBy hlast)
  have hlast' := hlast
  rw [← hall.mappings] at hlast'
  unfold addChange
  simp only [hfirst, hsecond, hlast']
  refine ⟨second, _, ⟨hall, hintact', ?_, ?_, ?_, ?_, ?_, rfl⟩, rfl, ?_⟩
  · dsimp only
    cases ownerId with
    | none => exact hall.isSome (hdb.owner_known last hmem)
    | some id => exact hfinds.known id rfl
  · dsimp only
    intro id hid
    cases backupOwnerId with
    | none => exact hall.isSome (hdb.backup_known last hmem id hid)
    | some => exact hfinds'.known id hid
  · intro owner howner
    rcases hused' owner howner with howner | hid
    · rcases hused owner howner with howner | hid
      · exact .inl howner
      · exact .inr (.inl (by rw [hid]; rfl))
    · exact .inr (.inr (by rw [hid]; rfl))
  · dsimp only
    have hvalue := hdb.fits last hmem
    unfold OnsExtra.newValue
    split
    · exact hvalue
    · split
      · exact hfits
      · exact hvalue
  · dsimp only
    intro htype
    have hexpires := hdb.expires last hmem htype
    split
    · rw [Option.isSome_map]
      exact hexpires
    · exact hexpires
  · have howner := hfinds.owner_eq hall (hdb.owner_known last hmem)
    have hbackup := hfinds'.backupOwner_eq hall (hdb.backup_known last hmem)
    have hids : (backupOwnerId.or last.backupOwnerId).map (fun _ => 0) = _ := hfinds'.map_or
    unfold record NameHistory.change MappingRow.withoutOwnerIds
    rw [howner, hbackup, hids, hall.nettype]
    cases entry.isRenewing <;> rfl

/-- A valid entry adds a row. -/
theorem addOnsEntry_eq
    (hrecorded : entry.isBuying = false → (db.getMapping entry.type entry.nameHash).isSome) :
    ∃ grown row, AddsRow height db grown row ∧
      db.addOnsEntry height entry txHash = grown.insertMapping row ∧
      db.history.addOnsEntry height entry txHash = db.history.insert (grown.record row) := by
  unfold addOnsEntry NameHistory.addOnsEntry
  cases hbuying : entry.isBuying with
  | true =>
    obtain ⟨grown, row, hadds, heq, hrecord⟩ := addPurchase_eq hdb hfits
    exact ⟨grown, row, hadds, heq, by rw [hrecord]; rfl⟩
  | false =>
    have hmapping := hrecorded hbuying
    unfold getMapping at hmapping
    rw [hdb.joined_eq] at hmapping
    cases hlast : latestBy MappingRow.updateHeight
        (db.mappings.filter (MappingRow.isOf entry.type entry.nameHash)) with
    | none =>
      rw [hlast] at hmapping
      cases hmapping
    | some last =>
      obtain ⟨grown, row, hadds, heq, hrecord⟩ := addChange_eq hdb hfits hlast
      refine ⟨grown, row, hadds, heq, ?_⟩
      have hget : db.history.getMapping entry.type entry.nameHash = some (db.record last) := by
        unfold NameHistory.getMapping
        rw [latest_filter (MappingRow.isOf entry.type entry.nameHash) _ (fun _ _ => rfl), hlast]
        rfl
      rw [hget, hrecord]
      rfl

end

/-! ## Transactions -/

variable {after : NameSystemDb}

/-- The rows after an insertion. -/
theorem insertMapping_eq_some (h : grown.insertMapping row = some after) :
    (∀ other ∈ grown.mappings, sameKey row other = false) ∧
      after = { grown with
        mappings := grown.mappings ++ [{ row with id := nextRowId grown.mappings }] } := by
  unfold insertMapping at h
  split at h
  · cases h
  rename_i hany
  refine ⟨?_, (Option.some.inj h).symm⟩
  intro other hother
  simpa using fun hsame => hany (any_eq_true.mpr ⟨other, hother, hsame⟩)

/-- An insertion with known owners keeps the database well-formed. -/
theorem AddsRow.wellFormed (hadds : AddsRow height db grown row) (hdb : db.WellFormed)
    (h : grown.insertMapping row = some after) : after.WellFormed := by
  obtain ⟨-, rfl⟩ := insertMapping_eq_some h
  have hrow {other : MappingRow}
      (hother : other ∈ grown.mappings ++ [{ row with id := nextRowId grown.mappings }]) :
      other ∈ db.mappings ∨ other = { row with id := nextRowId grown.mappings } := by
    rw [hadds.grow.mappings] at hother ⊢
    simpa using hother
  refine ⟨⟨hadds.intact.nodup, hadds.intact.le_sequence⟩, ?_, ?_, ?_, ?_⟩
  · intro other hother
    rcases hrow hother with hold | rfl
    · exact hadds.grow.isSome (hdb.owner_known other hold)
    · exact hadds.owner_known
  · intro other hother id hid
    rcases hrow hother with hold | rfl
    · exact hadds.grow.isSome (hdb.backup_known other hold id hid)
    · exact hadds.backup_known id hid
  · intro other hother
    rcases hrow hother with hold | rfl
    · exact hdb.fits other hold
    · exact hadds.fits
  · intro other hother
    rcases hrow hother with hold | rfl
    · exact hdb.expires other hold
    · exact hadds.expires

section

variable {crypto : OnsCrypto} {version : Hf} {height : ℕ} {tx : OnsTx} {getMapping : Lookup}

/-- The value of a valid entry fits into the buffer. -/
theorem fits_of_validateOnsTx {nettype : NetworkType}
    (h : validateOnsTx crypto nettype getMapping version height tx = .ok entry) :
    entry.encryptedValue.length ≤ bufferSize := by
  obtain ⟨-, hfields, -⟩ := validateOnsTx_ok h
  rcases value_of_validateFields hfields with ⟨-, hnil⟩ | ⟨-, hvalid⟩
  · simp [hnil]
  · exact length_le_of_validateEncrypted hvalid

/-- A valid entry that is no purchase has a recorded name. -/
theorem recorded_of_validateOnsTx {nettype : NetworkType}
    (h : validateOnsTx crypto nettype getMapping version height tx = .ok entry)
    (hbuying : entry.isBuying = false) : (getMapping entry.type entry.nameHash).isSome := by
  obtain ⟨-, -, haccepted⟩ := validateOnsTx_ok h
  cases haccepted with
  | update _ _ hrecorded => rw [hrecorded]; rfl
  | purchase hbuys =>
    rw [hbuying] at hbuys
    cases hbuys
  | renewal _ _ hrecorded => rw [hrecorded]; rfl

section

variable (hdb : db.WellFormed)

include hdb

/-- The checks on the database are those on its history. -/
theorem WellFormed.validateOnsTx_history :
    validateOnsTx crypto db.nettype db.getMapping version height tx =
      validateOnsTx crypto db.history.nettype db.history.getMapping version height tx := by
  apply validateOnsTx_congr
  intro type nameHash
  rw [← hdb.getMapping_history type nameHash, Option.map_map]
  exact congrFun (congrArg _ (funext fun record =>
    record.withoutOwnerIds_withoutOwnerIds.symm)) _

/-- What a transaction that is accepted does to the database. -/
theorem WellFormed.addTx_cases (h : addTx crypto version height db tx = some after) :
    after = db ∨ ∃ grown row, AddsRow height db grown row ∧
      grown.insertMapping row = some after := by
  unfold addTx at h
  split at h
  · exact .inl (Option.some.inj h).symm
  · right
    cases hvalid : validateOnsTx crypto db.nettype db.getMapping version height tx with
    | error =>
      rw [hvalid] at h
      cases h
    | ok =>
      rw [hvalid] at h
      obtain ⟨grown, row, hadds, heq, -⟩ := addOnsEntry_eq hdb (fits_of_validateOnsTx hvalid)
        (recorded_of_validateOnsTx hvalid)
      exact ⟨grown, row, hadds, heq.symm.trans h⟩

/-- A transaction does to the database what it does to the history. -/
theorem WellFormed.addTx_history :
    (addTx crypto version height db tx).map history =
      db.history.addTx crypto version height tx := by
  unfold addTx NameHistory.addTx
  split
  · rfl
  rw [← hdb.validateOnsTx_history]
  cases hvalid : validateOnsTx crypto db.nettype db.getMapping version height tx with
  | error => rfl
  | ok =>
    obtain ⟨grown, row, hadds, heq, hhistory⟩ := addOnsEntry_eq hdb
      (fits_of_validateOnsTx hvalid) (recorded_of_validateOnsTx hvalid)
    dsimp only
    rw [heq, hhistory, insertMapping_history, hadds.grow.history_eq hdb]

theorem WellFormed.addTx (h : addTx crypto version height db tx = some after) :
    after.WellFormed := by
  rcases hdb.addTx_cases h with rfl | ⟨grown, row, hadds, hinsert⟩
  · exact hdb
  · exact hadds.wellFormed hdb hinsert

/-- Transactions do to the database what they do to the history. -/
theorem WellFormed.foldlM_addTx (txs : List OnsTx) :
    (txs.foldlM (NameSystemDb.addTx crypto version height) db).map history =
        txs.foldlM (NameHistory.addTx crypto version height) db.history ∧
      ∀ after, txs.foldlM (NameSystemDb.addTx crypto version height) db = some after →
        after.WellFormed := by
  induction txs generalizing db with
  | nil => exact ⟨rfl, fun after h => Option.some.inj h ▸ hdb⟩
  | cons tx _ ih =>
    rw [foldlM_cons, foldlM_cons, ← hdb.addTx_history]
    cases hfirst : NameSystemDb.addTx crypto version height db tx with
    | none => exact ⟨rfl, fun after h => by cases h⟩
    | some => exact ih (hdb.addTx hfirst)

end

end

/-! ## Blocks -/

variable {crypto : OnsCrypto} {block : OnsBlock}

theorem WellFormed.addTxs_history (hdb : db.WellFormed) :
    (db.addTxs crypto block).map history = db.history.addTxs crypto block ∧
      ∀ after, db.addTxs crypto block = some after → after.WellFormed := by
  unfold addTxs NameHistory.addTxs
  split
  · exact hdb.foldlM_addTx block.txs
  · exact ⟨rfl, fun after h => Option.some.inj h ▸ hdb⟩

/-- A block does to the database what it does to the history. -/
theorem WellFormed.addBlock_history (hdb : db.WellFormed) :
    ((db.addBlock crypto block).1, (db.addBlock crypto block).2.history) =
      db.history.addBlock crypto block := by
  unfold addBlock NameHistory.addBlock
  rw [← hdb.addTxs_history.1]
  change _ = if db.lastProcessedHeight ≥ block.height then _ else _
  split
  · rfl
  · cases db.addTxs crypto block <;> rfl

end Xeqm.Ons.NameSystemDb
