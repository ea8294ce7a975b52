import Xeqm.Ons.Runs

/-!
# Undoing blocks of the name system

Pruning to a height gives back the database as it was right after the block of that height, apart
from the sequence of the ids of owners. Adding the blocks again gives the same answers, apart from
those ids: an id is never given twice.
-/

namespace Xeqm.Ons

open Cryptonote List

namespace NameSystemDb

/-- Rows and owners are added to a database. -/
structure Extends (base db : NameSystemDb) : Prop where
  rows : ∃ new, db.mappings = base.mappings ++ new ∧
    ∀ row ∈ new, base.lastProcessedHeight < row.updateHeight
  owners : ∃ new, db.owners = base.owners ++ new ∧ ∀ owner ∈ new, base.ownerSequence < owner.id
  sequence : base.ownerSequence ≤ db.ownerSequence
  nettype : db.nettype = base.nettype
  height : base.lastProcessedHeight ≤ db.lastProcessedHeight
  hash : db.lastProcessedHeight = base.lastProcessedHeight →
    db.lastProcessedHash = base.lastProcessedHash

variable {base db grown after : NameSystemDb} {crypto : OnsCrypto}

namespace Extends

theorem refl (base : NameSystemDb) : Extends base base :=
  ⟨⟨[], by simp⟩, ⟨[], by simp⟩, le_rfl, rfl, le_rfl, fun _ => rfl⟩

section

variable (h : Extends base db)

include h

theorem ownersGrow (hgrow : OwnersGrow db grown) : Extends base grown := by
  obtain ⟨new, hnew, hids⟩ := h.owners
  obtain ⟨new', hnew', hids'⟩ := hgrow.added
  refine ⟨by rw [hgrow.mappings]; exact h.rows, ⟨new ++ new', ?_, ?_⟩,
    h.sequence.trans hgrow.sequence, hgrow.nettype.trans h.nettype, by rw [hgrow.eq]; exact h.height,
    by rw [hgrow.eq]; exact h.hash⟩
  · rw [hnew', hnew, append_assoc]
  · intro owner howner
    rcases mem_append.mp howner with hold | hnew
    · exact hids owner hold
    · exact h.sequence.trans_lt (hids' owner hnew)

theorem insertMapping {row : MappingRow} (hheight : base.lastProcessedHeight < row.updateHeight)
    (hinsert : db.insertMapping row = some after) : Extends base after := by
  obtain ⟨-, rfl⟩ := insertMapping_eq_some hinsert
  obtain ⟨new, hnew, hheights⟩ := h.rows
  refine ⟨⟨new ++ [_], by rw [hnew, append_assoc], ?_⟩, h.owners, h.sequence, h.nettype,
    h.height, h.hash⟩
  intro other hother
  rcases mem_append.mp hother with hold | hlast
  · exact hheights other hold
  · rw [mem_singleton.mp hlast]
    exact hheight

theorem foldlM_addTx {version : Hf} {height : ℕ} {txs : List OnsTx} (hdb : db.WellFormed)
    (hheight : base.lastProcessedHeight < height)
    (htxs : txs.foldlM (NameSystemDb.addTx crypto version height) db = some after) :
    Extends base after := by
  induction txs generalizing db with
  | nil => exact Option.some.inj htxs ▸ h
  | cons _ _ ih =>
    obtain ⟨next, hnext, hrest⟩ := Option.bind_eq_some_iff.mp htxs
    refine ih ?_ (hdb.addTx hnext) hrest
    rcases hdb.addTx_cases hnext with rfl | ⟨grown, row, hadds, hinsert⟩
    · exact h
    · exact (h.ownersGrow hadds.grow).insertMapping (hadds.updateHeight ▸ hheight) hinsert

theorem addBlock (hdb : db.WellFormed) (block : OnsBlock) :
    Extends base (db.addBlock crypto block).2 := by
  rcases addBlock_cases block with heq | ⟨hfresh, processed, hprocessed, heq⟩
  · rw [heq]
    exact h
  · have hextends : Extends base processed := by
      unfold addTxs at hprocessed
      split at hprocessed
      · exact h.foldlM_addTx hdb (h.height.trans_lt hfresh) hprocessed
      · exact Option.some.inj hprocessed ▸ h
    rw [heq]
    exact ⟨hextends.rows, hextends.owners, hextends.sequence, hextends.nettype,
      h.height.trans hfresh.le, fun hsame => absurd hsame (h.height.trans_lt hfresh).ne'⟩

theorem addBlocks (hdb : db.Sound db.lastProcessedHeight) (blocks : List OnsBlock) :
    Extends base (OnsStep.runAll crypto db (blocks.map .addBlock)) := by
  induction blocks generalizing db with
  | nil => exact h
  | cons block _ ih => exact ih (h.addBlock hdb.toWellFormed block) (hdb.addBlock block)

section

variable (hbase : base.Sound base.lastProcessedHeight)

include hbase

/-- The rows that a pruning keeps. -/
theorem filter_mappings :
    db.mappings.filter (fun row => row.updateHeight ≤ base.lastProcessedHeight) =
      base.mappings := by
  obtain ⟨new, hnew, hheights⟩ := h.rows
  have hkept : base.mappings.filter (fun row => row.updateHeight ≤ base.lastProcessedHeight) =
      base.mappings :=
    filter_eq_self.mpr fun row hrow => decide_eq_true (hbase.bounded row hrow)
  have hdropped : new.filter (fun row => row.updateHeight ≤ base.lastProcessedHeight) = [] :=
    filter_eq_nil_iff.mpr fun row hrow => by simpa using hheights row hrow
  rw [hnew, filter_append, hkept, hdropped, append_nil]

/-- The owners that a pruning keeps: all that were there are named by a row that was there, and
no such row names an owner that came later. -/
theorem filter_owners :
    db.owners.filter (fun owner => base.mappings.any (fun row =>
      row.ownerId = owner.id || row.backupOwnerId = some owner.id)) = base.owners := by
  obtain ⟨new, hnew, hids⟩ := h.owners
  have hknown {id : ℕ} (hid : (base.ownerById id).isSome) : id ≤ base.ownerSequence := by
    obtain ⟨key, hkey⟩ := Option.isSome_iff_exists.mp hid
    exact hbase.le_sequence _ (hbase.toOwnersIntact.ownerById_eq_some_iff.mp hkey)
  have hkept : base.owners.filter (fun owner => base.mappings.any (fun row =>
      row.ownerId = owner.id || row.backupOwnerId = some owner.id)) = base.owners := by
    apply filter_eq_self.mpr
    intro owner howner
    simpa using hbase.used owner howner
  have hdropped : new.filter (fun owner => base.mappings.any (fun row =>
      row.ownerId = owner.id || row.backupOwnerId = some owner.id)) = [] := by
    apply filter_eq_nil_iff.mpr
    intro owner howner hany
    obtain ⟨row, hrow, hnames⟩ := any_eq_true.mp hany
    have hlt := hids owner howner
    simp only [Bool.or_eq_true, decide_eq_true_eq] at hnames
    rcases hnames with hid | hid
    · have hle := hknown (hbase.owner_known row hrow)
      omega
    · have hle := hknown (hbase.backup_known row hrow owner.id hid)
      omega
  rw [hnew, filter_append, hkept, hdropped, append_nil]

/-- A pruning gives back the database that was extended, apart from the sequence of owners. -/
theorem pruneDb_eq :
    db.pruneDb base.lastProcessedHeight base.lastProcessedHash =
      { base with ownerSequence := db.ownerSequence } := by
  unfold pruneDb
  dsimp only
  rw [h.filter_mappings hbase, h.filter_owners hbase, h.nettype]
  split
  · rfl
  rename_i hnot
  have hsame : db.lastProcessedHeight = base.lastProcessedHeight :=
    le_antisymm (not_lt.mp hnot) h.height
  rw [hsame, h.hash hsame]

end

end

end Extends

end NameSystemDb

/-- Two databases answer all queries alike, as far as a view of a record goes. -/
structure AnswersAlike (view : MappingRecord → MappingRecord) (a b : NameSystemDb) : Prop where
  getMapping : ∀ type nameHash,
    (a.getMapping type nameHash).map view = (b.getMapping type nameHash).map view
  getActiveMapping : ∀ type nameHash height,
    (a.getActiveMapping type nameHash height).map view =
      (b.getActiveMapping type nameHash height).map view
  resolve : ∀ type nameHash height,
    a.resolve type nameHash height = b.resolve type nameHash height
  getMappings : ∀ nameHash height onlyTypes,
    (a.getMappings nameHash height onlyTypes).map view =
      (b.getMappings nameHash height onlyTypes).map view
  getMappingsByOwners : ∀ owners height,
    (a.getMappingsByOwners owners height).map view =
      (b.getMappingsByOwners owners height).map view
  getMappingsByOwner : ∀ owner height,
    (a.getMappingsByOwner owner height).map view = (b.getMappingsByOwner owner height).map view

variable {a b : NameSystemDb}

namespace AnswersAlike

/-- Databases with the same rows and owners answer alike. -/
theorem of_tables (hmappings : a.mappings = b.mappings) (howners : a.owners = b.owners)
    (view : MappingRecord → MappingRecord) :
    AnswersAlike view a b := by
  obtain ⟨nettype, owners, sequence, mappings, height, hash⟩ := a
  obtain ⟨nettype', owners', sequence', mappings', height', hash'⟩ := b
  cases hmappings
  cases howners
  exact ⟨fun _ _ => rfl, fun _ _ _ => rfl, fun _ _ _ => rfl, fun _ _ _ => rfl, fun _ _ => rfl,
    fun _ _ => rfl⟩

/-- Databases that stand for the same versions answer alike, apart from the ids of owners. -/
theorem of_history (ha : a.WellFormed) (hb : b.WellFormed) (h : a.history = b.history) :
    AnswersAlike MappingRecord.withoutOwnerIds a b where
  getMapping type nameHash := by rw [ha.getMapping_history, hb.getMapping_history, h]
  getActiveMapping type nameHash height := by
    rw [ha.getActiveMapping_history, hb.getActiveMapping_history, h]
  resolve type nameHash height := by
    rw [NameSystemDb.resolve_history, NameSystemDb.resolve_history, h]
  getMappings nameHash height onlyTypes := by
    rw [ha.getMappings_history, hb.getMappings_history, h]
  getMappingsByOwners owners height := by
    rw [ha.getMappingsByOwners_history, hb.getMappingsByOwners_history, h]
  getMappingsByOwner owner height := by
    rw [ha.getMappingsByOwner_history, hb.getMappingsByOwner_history, h]

end AnswersAlike

/-- Blocks do the same to databases that stand for the same history. -/
theorem history_addBlocks {crypto : OnsCrypto} (ha : a.Sound a.lastProcessedHeight)
    (hb : b.Sound b.lastProcessedHeight) (h : a.history = b.history) (blocks : List OnsBlock) :
    (OnsStep.runAll crypto a (blocks.map .addBlock)).history =
      (OnsStep.runAll crypto b (blocks.map .addBlock)).history := by
  induction blocks generalizing a b with
  | nil => exact h
  | cons block _ ih =>
    refine ih (ha.addBlock block) (hb.addBlock block) ?_
    have hblock := @NameSystemDb.WellFormed.addBlock_history a crypto block ha.toWellFormed
    rw [h, ← hb.toWellFormed.addBlock_history] at hblock
    exact congrArg Prod.snd hblock

/-- For every run of the database and every blocks added after it: pruning to the height of the
run makes all queries answer as they did then, and adding the blocks again makes them answer as
before the pruning, apart from the ids of owners. -/
theorem pruneDb_undoes_blocks (crypto : OnsCrypto) (nettype : NetworkType) (steps : List OnsStep)
    (blocks : List OnsBlock) :
    let base := OnsStep.runAll crypto { nettype } steps
    let db := OnsStep.runAll crypto base (blocks.map .addBlock)
    let pruned := db.pruneDb base.lastProcessedHeight base.lastProcessedHash
    AnswersAlike id pruned base ∧
      AnswersAlike MappingRecord.withoutOwnerIds
        (OnsStep.runAll crypto pruned (blocks.map .addBlock)) db := by
  intro base db pruned
  have hbase : base.Sound base.lastProcessedHeight := .runAll NameSystemDb.sound_empty steps
  have hdb : db.Sound db.lastProcessedHeight := hbase.runAll _
  have hpruned : pruned.Sound pruned.lastProcessedHeight := hdb.pruneDb
  have heq : pruned = { base with ownerSequence := db.ownerSequence } :=
    ((NameSystemDb.Extends.refl base).addBlocks hbase blocks).pruneDb_eq hbase
  constructor
  · have hmappings : pruned.mappings = base.mappings := by rw [heq]
    have howners : pruned.owners = base.owners := by rw [heq]
    exact .of_tables hmappings howners id
  · have hhistory : pruned.history = base.history := by
      rw [heq]
      rfl
    exact .of_history (hpruned.runAll _).toWellFormed hdb.toWellFormed
      (history_addBlocks hpruned hbase hhistory blocks)

section Sample

/-- A database before a name is bought. -/
def unsold : NameSystemDb :=
  OnsStep.runAll .acceptAll { nettype := .mainnet }
    [.addBlock { majorVersion := .hf16Pulse, height := 1, hash := 1 }]

/-- The database with the name. -/
def sold : NameSystemDb := OnsStep.runAll .acceptAll unsold [.addBlock purchaseBlock]

/-- When a block is added again, the owner in it gets another id. -/
theorem readded_owner_gets_other_id :
    ¬AnswersAlike id
      (OnsStep.runAll .acceptAll
        (sold.pruneDb unsold.lastProcessedHeight unsold.lastProcessedHash)
        [.addBlock purchaseBlock]) sold := by
  intro h
  exact absurd (h.getMapping .lokinet 5) (by decide +kernel)

end Sample

end Xeqm.Ons
