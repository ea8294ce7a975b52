import Xeqm.Ons.Blocks

/-!
# Runs of the name system database

What holds of the database after every sequence of blocks and prunings.
-/

namespace Xeqm.Ons.NameSystemDb

open Cryptonote List

variable {db after : NameSystemDb}

/-- No row is above some height, and every owner is named by a row. -/
structure Sound (height : ℕ) (db : NameSystemDb) : Prop extends WellFormed db where
  used : ∀ owner ∈ db.owners, ∃ row ∈ db.mappings,
    row.ownerId = owner.id ∨ row.backupOwnerId = some owner.id
  bounded : ∀ row ∈ db.mappings, row.updateHeight ≤ height

theorem Sound.mono {height height' : ℕ} (h : db.Sound height) (hle : height ≤ height') :
    db.Sound height' :=
  { h with bounded := fun row hrow => (h.bounded row hrow).trans hle }

theorem sound_empty {nettype : NetworkType} : Sound 0 { nettype } where
  nodup := by simp
  le_sequence := by simp
  owner_known := by simp
  backup_known := by simp
  fits := by simp
  expires := by simp
  used := by simp
  bounded := by simp

/-! ## Blocks -/

section

variable {crypto : OnsCrypto} {version : Hf} {height : ℕ}

theorem Sound.addTx {tx : OnsTx} (hdb : db.Sound height)
    (h : NameSystemDb.addTx crypto version height db tx = some after) : after.Sound height := by
  rcases hdb.toWellFormed.addTx_cases h with rfl | ⟨grown, row, hadds, hinsert⟩
  · exact hdb
  · have hwellFormed := hadds.wellFormed hdb.toWellFormed hinsert
    obtain ⟨-, rfl⟩ := insertMapping_eq_some hinsert
    refine { hwellFormed with used := ?_, bounded := ?_ }
    · intro owner howner
      rcases hadds.used owner howner with hold | hnew
      · obtain ⟨other, hother, hnames⟩ := hdb.used owner hold
        exact ⟨other, by simp [hadds.grow.mappings, hother], hnames⟩
      · exact ⟨_, mem_append_right _ (mem_singleton_self _), hnew⟩
    · intro other hother
      rcases mem_append.mp hother with hold | hnew
      · exact hdb.bounded other (hadds.grow.mappings ▸ hold)
      · rw [mem_singleton.mp hnew]
        exact hadds.updateHeight.le

theorem Sound.foldlM_addTx {txs : List OnsTx} (hdb : db.Sound height)
    (h : txs.foldlM (NameSystemDb.addTx crypto version height) db = some after) :
    after.Sound height := by
  induction txs generalizing db with
  | nil => exact Option.some.inj h ▸ hdb
  | cons _ _ ih =>
    obtain ⟨next, hnext, hrest⟩ := Option.bind_eq_some_iff.mp h
    exact ih (hdb.addTx hnext) hrest

end

variable {crypto : OnsCrypto}

/-- What a block does to the database. -/
theorem addBlock_cases (block : OnsBlock) :
    (db.addBlock crypto block).2 = db ∨
      (db.lastProcessedHeight < block.height ∧ ∃ processed,
        db.addTxs crypto block = some processed ∧ (db.addBlock crypto block).2 =
          { processed with
            lastProcessedHeight := block.height, lastProcessedHash := block.hash }) := by
  unfold addBlock
  split
  · exact .inl rfl
  · rename_i hheight
    cases hprocessed : db.addTxs crypto block with
    | none => exact .inl rfl
    | some processed => exact .inr ⟨not_le.mp hheight, processed, rfl, rfl⟩

theorem Sound.addTxs {block : OnsBlock} (hdb : db.Sound block.height)
    (h : db.addTxs crypto block = some after) : after.Sound block.height := by
  unfold NameSystemDb.addTxs at h
  split at h
  · exact hdb.foldlM_addTx h
  · exact Option.some.inj h ▸ hdb

theorem Sound.addBlock (hdb : db.Sound db.lastProcessedHeight) (block : OnsBlock) :
    (db.addBlock crypto block).2.Sound (db.addBlock crypto block).2.lastProcessedHeight := by
  rcases addBlock_cases block with heq | ⟨hheight, processed, hprocessed, heq⟩
  · rw [heq]
    exact hdb
  · rw [heq]
    have hsound := (hdb.mono hheight.le).addTxs hprocessed
    exact { hsound with }

/-! ## Pruning -/

variable {topHeight : ℕ} {topHash : Hash}

@[simp]
theorem pruneDb_mappings : (db.pruneDb topHeight topHash).mappings =
    db.mappings.filter (fun row => row.updateHeight ≤ topHeight) := by
  unfold pruneDb
  split <;> rfl

@[simp]
theorem pruneDb_ownerSequence :
    (db.pruneDb topHeight topHash).ownerSequence = db.ownerSequence := by
  unfold pruneDb
  split <;> rfl

@[simp]
theorem pruneDb_lastProcessedHeight :
    (db.pruneDb topHeight topHash).lastProcessedHeight = min db.lastProcessedHeight topHeight := by
  unfold pruneDb
  split <;> simp <;> omega

/-- The owners that a pruning keeps are those that the rows name. -/
theorem pruneDb_owners : (db.pruneDb topHeight topHash).owners =
    db.owners.filter (fun owner => (db.pruneDb topHeight topHash).mappings.any (fun row =>
      row.ownerId = owner.id || row.backupOwnerId = some owner.id)) := by
  unfold pruneDb
  split <;> rfl

theorem mem_owners_pruneDb {owner : OwnerRow} :
    owner ∈ (db.pruneDb topHeight topHash).owners ↔ owner ∈ db.owners ∧
      ∃ row ∈ (db.pruneDb topHeight topHash).mappings,
        row.ownerId = owner.id ∨ row.backupOwnerId = some owner.id := by
  rw [pruneDb_owners, mem_filter, any_eq_true]
  simp only [Bool.or_eq_true, decide_eq_true_eq]

/-- An owner that a kept row names stays known. -/
theorem isSome_ownerById_pruneDb (hdb : db.OwnersIntact)
    (hpruned : (db.pruneDb topHeight topHash).OwnersIntact) {id : ℕ}
    (hknown : (db.ownerById id).isSome)
    (hnamed : ∃ row ∈ (db.pruneDb topHeight topHash).mappings,
      row.ownerId = id ∨ row.backupOwnerId = some id) :
    ((db.pruneDb topHeight topHash).ownerById id).isSome := by
  obtain ⟨key, hkey⟩ := Option.isSome_iff_exists.mp hknown
  rw [hdb.ownerById_eq_some_iff] at hkey
  have hmem := mem_owners_pruneDb.mpr ⟨hkey, hnamed⟩
  rw [hpruned.ownerById_eq_some_iff.mpr hmem]
  rfl

theorem OwnersIntact.pruneDb (hdb : db.OwnersIntact) :
    (db.pruneDb topHeight topHash).OwnersIntact := by
  constructor
  · rw [pruneDb_owners]
    exact hdb.nodup.sublist (filter_sublist.map _)
  · intro owner howner
    rw [pruneDb_ownerSequence]
    exact hdb.le_sequence owner (mem_owners_pruneDb.mp howner).1

theorem Sound.pruneDb (hdb : db.Sound db.lastProcessedHeight) :
    (db.pruneDb topHeight topHash).Sound
      (db.pruneDb topHeight topHash).lastProcessedHeight := by
  have hintact : (db.pruneDb topHeight topHash).OwnersIntact := hdb.toOwnersIntact.pruneDb
  have hrow {row : MappingRow} (h : row ∈ (db.pruneDb topHeight topHash).mappings) :
      row ∈ db.mappings ∧ row.updateHeight ≤ topHeight := by
    simpa using h
  refine { hintact with
    owner_known := ?_, backup_known := ?_, fits := ?_, expires := ?_, used := ?_, bounded := ?_ }
  · intro row h
    exact isSome_ownerById_pruneDb hdb.toOwnersIntact hintact (hdb.owner_known row (hrow h).1)
      ⟨row, h, .inl rfl⟩
  · intro row h id hid
    exact isSome_ownerById_pruneDb hdb.toOwnersIntact hintact
      (hdb.backup_known row (hrow h).1 id hid) ⟨row, h, .inr hid⟩
  · intro row h
    exact hdb.fits row (hrow h).1
  · intro row h
    exact hdb.expires row (hrow h).1
  · intro owner howner
    exact (mem_owners_pruneDb.mp howner).2
  · intro row h
    rw [pruneDb_lastProcessedHeight]
    exact le_min (hdb.bounded row (hrow h).1) (hrow h).2

/-! ## Runs -/

theorem Sound.run (hdb : db.Sound db.lastProcessedHeight) (step : OnsStep) :
    (step.run crypto db).Sound (step.run crypto db).lastProcessedHeight := by
  cases step with
  | addBlock block => exact hdb.addBlock block
  | pruneDb => exact hdb.pruneDb

/-- Every database that a run from the empty one leads to is sound. -/
theorem Sound.runAll (hdb : db.Sound db.lastProcessedHeight) (steps : List OnsStep) :
    (OnsStep.runAll crypto db steps).Sound
      (OnsStep.runAll crypto db steps).lastProcessedHeight := by
  induction steps generalizing db with
  | nil => exact hdb
  | cons step _ ih => exact ih (hdb.run step)

end Xeqm.Ons.NameSystemDb
