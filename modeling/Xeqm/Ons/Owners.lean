import Mathlib.Data.List.Dedup
import Xeqm.Ons.Ownership

/-!
# Names by owner

The queries for an owner choose the rows of the owner before they take the latest of each name,
so that a row from before a transfer is still found.
-/

namespace Xeqm.Ons

open Cryptonote List
open Lib

/-- The last record of a name has one of the owners, and is active if there is a height. -/
def HeldBy (owners : List GenericOwner) (height : Option ℕ) (last : Option MappingRecord) : Prop :=
  ∃ record ∈ last, record.ownedBy owners = true ∧ height.all record.active = true

/-- A history with some of its records. -/
def NameHistory.choose (p : MappingRecord → Bool) (history : NameHistory) : NameHistory :=
  { history with records := history.records.filter p }

/-- The names that a query reports are those whose last record has one of the owners. -/
def ReportsHeld (db : NameSystemDb) (owners : List GenericOwner) (height : Option ℕ)
    (result : List MappingRecord) : Prop :=
  ∀ type nameHash, (∃ record ∈ result, record.row.isOf type nameHash = true) ↔
    HeldBy owners height (db.getMapping type nameHash)

variable {type : MappingType} {nameHash : Hash} {record : MappingRecord}
  {owners : List GenericOwner} {height : Option ℕ} {db : NameSystemDb}

/-- The record of a name in the result of a query by groups is the latest one. -/
theorem mem_latestOfGroups_iff {history : NameHistory} :
    record ∈ latestOfGroups MappingRecord.row history.records ∧
        record.row.isOf type nameHash = true ↔
      history.getMapping type nameHash = some record := by
  have hisOf (record : MappingRecord) : record.row.isOf type nameHash = true ↔
      record.row.group = (nameHash, type.dbMappingType) := by
    simp [MappingRow.isOf, MappingRow.group, and_comm]
  unfold latestOfGroups sortGroups NameHistory.getMapping
  simp only [mem_filterMap, mem_insertionSort, mem_dedup, mem_map]
  have hfilter : history.records.filter (fun record => record.row.isOf type nameHash) =
      history.records.filter (fun record => record.row.group = (nameHash, type.dbMappingType)) :=
    filter_congr fun record _ => by rw [Bool.eq_iff_iff, hisOf, decide_eq_true_eq]
  rw [hisOf, hfilter]
  constructor
  · rintro ⟨⟨key, -, hlatest⟩, hgroup⟩
    have hkey := of_decide_eq_true (mem_filter.mp (mem_of_latestBy hlatest)).2
    rwa [← hgroup, hkey]
  · intro hlatest
    obtain ⟨hmem, hgroup⟩ := mem_filter.mp (mem_of_latestBy hlatest)
    exact ⟨⟨_, ⟨record, hmem, of_decide_eq_true hgroup⟩, hlatest⟩, of_decide_eq_true hgroup⟩

theorem heldBy_withoutOwnerIds {last : Option MappingRecord} :
    HeldBy owners height (last.map MappingRecord.withoutOwnerIds) ↔ HeldBy owners height last := by
  have howned (record : MappingRecord) :
      record.withoutOwnerIds.ownedBy owners = record.ownedBy owners := by
    cases hbackup : record.row.backupOwnerId <;>
      simp [MappingRecord.ownedBy, MappingRecord.withoutOwnerIds, MappingRow.withoutOwnerIds, hbackup]
  cases last with
  | none => rfl
  | some =>
    simp only [HeldBy, Option.map_some, Option.mem_some_iff, exists_eq_left', howned]
    exact Iff.rfl

/-- A query that chooses records before it takes the latest of each name, and others afterwards,
reports what is held exactly if each record that it finds is of a name that is held. -/
theorem reportsHeld_iff (hdb : db.WellFormed) {result : List MappingRecord}
    {p q : MappingRecord → Bool}
    (hresult : result.map MappingRecord.withoutOwnerIds =
      (latestOfGroups MappingRecord.row (db.history.choose p).records).filter q)
    (hpq : ∀ record, p record = true ∧ q record = true ↔
      record.ownedBy owners = true ∧ height.all record.active = true) :
    ReportsHeld db owners height result ↔ ∀ type nameHash record,
      (db.history.choose p).getMapping type nameHash = some record → q record = true →
        HeldBy owners height (db.getMapping type nameHash) := by
  refine forall_congr' fun type => forall_congr' fun nameHash => ?_
  have hfound : (∃ record ∈ result, record.row.isOf type nameHash = true) ↔
      ∃ record, (db.history.choose p).getMapping type nameHash = some record ∧ q record = true := by
    have hmap : (∃ record ∈ result, record.row.isOf type nameHash = true) ↔ ∃ record ∈
        result.map MappingRecord.withoutOwnerIds, record.row.isOf type nameHash = true := by
      simp only [mem_map, exists_exists_and_eq_and]
      exact Iff.rfl
    rw [hmap, hresult]
    simp only [← mem_latestOfGroups_iff, mem_filter]
    exact exists_congr fun record => by tauto
  rw [hfound]
  refine ⟨fun h record hlatest hq => h.mp ⟨record, hlatest, hq⟩, fun h => ⟨?_, ?_⟩⟩
  · rintro ⟨record, hlatest, hq⟩
    exact h record hlatest hq
  · rw [← heldBy_withoutOwnerIds, hdb.getMapping_history]
    rintro ⟨record, hlast, howned⟩
    obtain ⟨hp, hq⟩ := (hpq record).mpr howned
    refine ⟨record, ?_, hq⟩
    unfold NameHistory.getMapping NameHistory.choose
    rw [filter_comm]
    exact latestBy_filter hlast hp

/-- The queries report exactly the names that the owners hold, if and only if each name of which
they find a record is held: the first finds any unexpired record with one of the owners, the
second the last one with the owner. -/
theorem owner_queries_exact_iff (crypto : OnsCrypto) (nettype : NetworkType) (steps : List OnsStep)
    (owners : List GenericOwner) (owner : GenericOwner) (height : Option ℕ) :
    let db := OnsStep.runAll crypto { nettype } steps
    (ReportsHeld db owners height (db.getMappingsByOwners owners height) ∧
        ReportsHeld db [owner] height (db.getMappingsByOwner owner height)) ↔
      (∀ type nameHash, ∀ record ∈ db.history.records, record.row.isOf type nameHash = true →
        record.ownedBy owners = true → height.all record.active = true →
          HeldBy owners height (db.getMapping type nameHash)) ∧
      ∀ type nameHash record,
        (db.history.choose (MappingRecord.ownedBy [owner])).getMapping type nameHash = some record →
        height.all record.active = true → HeldBy [owner] height (db.getMapping type nameHash) := by
  intro db
  have hdb : db.WellFormed :=
    (NameSystemDb.Sound.runAll NameSystemDb.sound_empty steps).toWellFormed
  have hchosen (record : MappingRecord) : (record.ownedBy owners &&
      height.all record.row.unexpired) = true ∧ true = true ↔
      record.ownedBy owners = true ∧ height.all record.active = true := by
    rw [Bool.and_eq_true, and_iff_left rfl]
    exact Iff.rfl
  rw [reportsHeld_iff hdb ((hdb.getMappingsByOwners_history owners height).trans
      (filter_true _).symm) hchosen,
    reportsHeld_iff hdb (hdb.getMappingsByOwner_history owner height) (fun _ => Iff.rfl)]
  refine and_congr_left fun _ => forall_congr' fun type => forall_congr' fun nameHash => ?_
  constructor
  · intro h record hrecord hisOf howned hactive
    by_contra hnot
    have hnone := Option.eq_none_iff_forall_ne_some.mpr (fun latest hlatest =>
      hnot (h latest hlatest rfl))
    exact filter_eq_nil_iff.mp (latestBy_eq_none_iff.mp hnone) record
      (mem_filter.mpr ⟨hrecord, ((hchosen record).mpr ⟨howned, hactive⟩).1⟩) hisOf
  · intro h record hlatest _
    obtain ⟨hmem, hisOf⟩ := mem_filter.mp (mem_of_latestBy hlatest)
    obtain ⟨hrecord, hp⟩ := mem_filter.mp hmem
    obtain ⟨howned, hactive⟩ := (hchosen record).mp ⟨hp, rfl⟩
    exact h record hrecord hisOf howned hactive

/-- After the transfer the name is still reported for the owner before. -/
theorem transferred_name_reported :
    let db := OnsStep.runAll .acceptAll { nettype := .mainnet }
      [.addBlock purchaseBlock, .addBlock transferBlock]
    (db.getMapping .lokinet 5).map MappingRecord.owner = some (.ed25519 8) ∧
      (db.getMappingsByOwner (.ed25519 7) none).map (fun record => record.row.nameHash) = [5] ∧
      (db.getMappingsByOwners [.ed25519 7] (some 30)).map
        (fun record => record.row.nameHash) = [5] := by
  decide +kernel

end Xeqm.Ons
