import Xeqm.Lib.PrefixCode
import Xeqm.Ons.Validation

/-!
# What the signature of an update covers

The bytes that are signed for an update are the value, the owners that are set and the previous
transaction, one after the other. They tell two updates of one record apart by the value and by
the owners in their order, but not by which of the two owners a single one is, nor by whether an
address is a subaddress.
-/

namespace Xeqm.Ons

open Cryptonote List

variable (extra : OnsExtra)

/-- What an update asks for: the new value, owner and backup owner, each if it is set. -/
def OnsExtra.changes : Option (List UInt8) × Option GenericOwner × Option GenericOwner :=
  (extra.newValue, extra.newOwner, extra.newBackupOwner)

/-- An update against a record, past the checks on its fields. -/
structure UpdateOf (crypto : OnsCrypto) (record : MappingRow) (update : OnsExtra) : Prop where
  updating : update.isUpdating = true
  type : update.type.dbMappingType = record.type
  nameHash : update.nameHash = record.nameHash
  prevTxid : update.prevTxid = record.txid
  fields : ∃ version, validateFields crypto version update = .ok ()

/-- The owner without its subaddress flag, which is not signed. -/
def GenericOwner.unflagged : GenericOwner → GenericOwner
  | .monero address _ => .monero address false
  | .ed25519 key => .ed25519 key

/-- The owners that an update sets, as they are signed. -/
def OnsExtra.signedOwners : List GenericOwner :=
  (extra.newOwner.toList ++ extra.newBackupOwner.toList).map GenericOwner.unflagged

/-! ## Owners -/

theorem GenericOwner.length_bytes (owner : GenericOwner) :
    owner.bytes.length = 33 ∨ owner.bytes.length = 65 := by
  cases owner with
  | monero => right; simp [GenericOwner.bytes]
  | ed25519 => left; simp [GenericOwner.bytes]

theorem GenericOwner.bytes_ne_nil (owner : GenericOwner) : owner.bytes ≠ [] := by
  cases owner <;> exact cons_ne_nil _ _

/-- The first byte of an owner says how many follow. -/
theorem GenericOwner.bytes_prefixFree :
    Lib.PrefixFree GenericOwner.bytes GenericOwner.unflagged := by
  intro a b x y h
  cases a with
  | monero address =>
    cases b with
    | monero address' =>
      simp only [GenericOwner.bytes, cons_append, List.cons.injEq, true_and, append_assoc] at h
      obtain ⟨hspend, hrest⟩ := append_inj h (by simp)
      obtain ⟨hview, hxy⟩ := append_inj hrest (by simp)
      obtain ⟨spend, view⟩ := address
      obtain ⟨spend', view'⟩ := address'
      obtain rfl : spend = spend' := Blob.bytes_injective hspend
      obtain rfl : view = view' := Blob.bytes_injective hview
      exact ⟨rfl, hxy⟩
    | ed25519 => exact absurd (List.cons.inj h).1 (by decide)
  | ed25519 =>
    cases b with
    | monero => exact absurd (List.cons.inj h).1 (by decide)
    | ed25519 =>
      simp only [GenericOwner.bytes, cons_append, List.cons.injEq, true_and] at h
      obtain ⟨hkey, hxy⟩ := append_inj h (by simp)
      exact ⟨by rw [Blob.bytes_injective hkey], hxy⟩

/-- The bytes of an owner do not hold its subaddress flag. -/
theorem GenericOwner.bytes_unflagged (owner : GenericOwner) :
    owner.unflagged.bytes = owner.bytes := by
  cases owner <;> rfl

/-! ## Updates -/

/-- The bytes of the owners that an update sets. -/
def OnsExtra.ownerBytes : List UInt8 :=
  (extra.newOwner.toList ++ extra.newBackupOwner.toList).flatMap GenericOwner.bytes

/-- The bytes of the owners are those of the owners as they are signed. -/
theorem OnsExtra.ownerBytes_eq :
    extra.ownerBytes = extra.signedOwners.flatMap GenericOwner.bytes := by
  simp only [OnsExtra.ownerBytes, OnsExtra.signedOwners, flatMap_map, GenericOwner.bytes_unflagged]

/-- The bytes of the owners determine the owners as they are signed. -/
theorem OnsExtra.ownerBytes_eq_iff {u v : OnsExtra} :
    u.ownerBytes = v.ownerBytes ↔ u.signedOwners = v.signedOwners := by
  constructor
  · exact GenericOwner.bytes_prefixFree.map_eq_of_flatMap_eq GenericOwner.bytes_ne_nil
  · intro h
    rw [u.ownerBytes_eq, v.ownerBytes_eq, h]

/-- The bytes of the owners have one of a few lengths. -/
theorem OnsExtra.length_ownerBytes : extra.ownerBytes.length ∈ [0, 33, 65, 66, 98, 130] := by
  unfold OnsExtra.ownerBytes
  cases extra.newOwner with
  | none =>
    cases extra.newBackupOwner with
    | none => simp
    | some backup => rcases backup.length_bytes with h | h <;> simp [h]
  | some owner =>
    cases extra.newBackupOwner with
    | none => rcases owner.length_bytes with h | h <;> simp [h]
    | some backup =>
      rcases owner.length_bytes with h | h <;> rcases backup.length_bytes with h' | h' <;>
        simp [h, h']

namespace UpdateOf

variable {crypto : OnsCrypto} {record : MappingRow} {u v : OnsExtra}

/-- The lengths a value of a record of this type can have. -/
def valueLengths : MappingType → List ℕ
  | .wallet => [0, 105, 113]
  | .session => [0, 49, 73]
  | .lokinet | .lokinet2Years | .lokinet5Years | .lokinet10Years => [0, 72]

section

variable (hu : UpdateOf crypto record u)

include hu

theorem length_encryptedValue : u.encryptedValue.length ∈ valueLengths record.type := by
  obtain ⟨version, hfields⟩ := hu.fields
  rw [← hu.type]
  rcases value_of_validateFields hfields with ⟨-, hnil⟩ | ⟨-, hvalid⟩
  · cases u.type <;> simp [hnil, valueLengths, MappingType.dbMappingType, MappingType.isLokinetType]
  · cases htype : u.type <;>
      simp [htype, validateEncrypted, valueLengths, MappingType.dbMappingType,
        MappingType.isLokinetType] at hvalid ⊢ <;> omega

/-- A value fits into the buffer. -/
theorem length_encryptedValue_le : u.encryptedValue.length ≤ bufferSize := by
  obtain ⟨version, hfields⟩ := hu.fields
  rcases value_of_validateFields hfields with ⟨-, hnil⟩ | ⟨-, hvalid⟩
  · simp [hnil]
  · exact length_le_of_validateEncrypted hvalid

/-- The bytes that are signed are the value, the owners and the previous transaction. -/
theorem signedData_eq :
    u.signedData record.txid = u.encryptedValue ++ u.ownerBytes ++ record.txid.bytes := by
  unfold OnsExtra.signedData txExtraSignature
  rw [if_neg (Nat.not_lt.mpr hu.length_encryptedValue_le)]
  unfold OnsExtra.ownerBytes
  cases u.newOwner <;> cases u.newBackupOwner <;> simp [appendOwner]

/-- The value is set if and only if it has bytes. -/
theorem newValue_eq :
    u.newValue = if u.encryptedValue = [] then none else some u.encryptedValue := by
  obtain ⟨version, hfields⟩ := hu.fields
  rcases value_of_validateFields hfields with ⟨hunset, hnil⟩ | ⟨hset, hvalid⟩
  · rw [if_pos hnil, OnsExtra.newValue, hunset]
    rfl
  · have hne : u.encryptedValue ≠ [] := by
      intro hnil
      rw [hnil] at hvalid
      cases htype : u.type <;> simp [htype, validateEncrypted] at hvalid
    rw [if_neg hne, OnsExtra.newValue, hset]
    rfl

/-- No two lengths of values of one type differ by as much as two lengths of owners. -/
theorem length_value_eq (hv : UpdateOf crypto record v)
    (h : u.encryptedValue.length + u.ownerBytes.length =
      v.encryptedValue.length + v.ownerBytes.length) :
    u.encryptedValue.length = v.encryptedValue.length := by
  have hu' := hu.length_encryptedValue
  have hv' := hv.length_encryptedValue
  have huo := u.length_ownerBytes
  have hvo := v.length_ownerBytes
  simp only [mem_cons, not_mem_nil, or_false] at huo hvo
  cases htype : record.type <;>
    simp only [htype, valueLengths, mem_cons, not_mem_nil, or_false] at hu' hv' <;> omega

/-- Two updates of one record have the same signed bytes if and only if they have the same value
and the same signed owners. -/
theorem signedData_eq_iff (hv : UpdateOf crypto record v) :
    u.signedData record.txid = v.signedData record.txid ↔
      u.encryptedValue = v.encryptedValue ∧ u.signedOwners = v.signedOwners := by
  rw [hu.signedData_eq, hv.signedData_eq, ← OnsExtra.ownerBytes_eq_iff]
  constructor
  · intro h
    have h := append_cancel_right h
    have hlength := congrArg List.length h
    simp only [length_append] at hlength
    exact append_inj h (length_value_eq hu hv hlength)
  · rintro ⟨hvalue, howners⟩
    rw [hvalue, howners]

end

end UpdateOf

/-- The signed bytes of two updates of one record with different changes differ if and only if
the updates differ in the value or in the signed owners. -/
theorem signed_updates_differ_iff {crypto : OnsCrypto} {record : MappingRow} {u v : OnsExtra}
    (hu : UpdateOf crypto record u) (hv : UpdateOf crypto record v) :
    (u.changes ≠ v.changes → u.signedData record.txid ≠ v.signedData record.txid) ↔
      (u.changes = v.changes ∨ u.newValue ≠ v.newValue ∨ u.signedOwners ≠ v.signedOwners) := by
  have hvalue : u.newValue = v.newValue ↔ u.encryptedValue = v.encryptedValue := by
    rw [hu.newValue_eq, hv.newValue_eq]
    constructor
    · intro h
      split at h <;> split at h <;> simp_all
    · intro h
      rw [h]
  rw [Ne, Ne, Ne, UpdateOf.signedData_eq_iff hu hv, hvalue]
  tauto

section Ambiguous

/-- A registered session name. -/
def sessionRow : MappingRow where
  id := 1
  type := .session
  nameHash := 5
  encryptedValue := List.replicate 73 0
  txid := 9
  ownerId := 1
  backupOwnerId := none
  updateHeight := 100
  expirationHeight := none

/-- An update of the session name that sets the owner to a key. -/
def ownerUpdate : OnsExtra where
  type := .session
  nameHash := 5
  prevTxid := 9
  fields := { owner := true, signature := true }
  owner := .ed25519 7
  signature := { type := .ed25519, data := 1 }

/-- An update of the session name that sets the backup owner to the same key. -/
def backupOwnerUpdate : OnsExtra where
  type := .session
  nameHash := 5
  prevTxid := 9
  fields := { backupOwner := true, signature := true }
  backupOwner := .ed25519 7
  signature := { type := .ed25519, data := 1 }

/-- An update of the session name that sets the backup owner to another key. -/
def otherBackupOwnerUpdate : OnsExtra := { backupOwnerUpdate with backupOwner := .ed25519 8 }

theorem ownerUpdate_updateOf : UpdateOf .acceptAll sessionRow ownerUpdate :=
  ⟨rfl, rfl, rfl, rfl, Hf.hf15Ons, by decide⟩

theorem otherBackupOwnerUpdate_updateOf : UpdateOf .acceptAll sessionRow otherBackupOwnerUpdate :=
  ⟨rfl, rfl, rfl, rfl, Hf.hf15Ons, by decide⟩

/-- An update of the owner and an update of the backup owner to another key are signed apart. -/
theorem signed_updates_differ_sample :
    UpdateOf .acceptAll sessionRow ownerUpdate ∧
      UpdateOf .acceptAll sessionRow otherBackupOwnerUpdate ∧
      ownerUpdate.signedData sessionRow.txid ≠ otherBackupOwnerUpdate.signedData sessionRow.txid :=
  ⟨ownerUpdate_updateOf, otherBackupOwnerUpdate_updateOf,
    (signed_updates_differ_iff ownerUpdate_updateOf otherBackupOwnerUpdate_updateOf).mpr
      (.inr (.inr (by decide))) (by decide)⟩

/-- An update of the owner and an update of the backup owner to the same key are signed alike. -/
theorem signed_updates_agree :
    UpdateOf .acceptAll sessionRow ownerUpdate ∧
      UpdateOf .acceptAll sessionRow backupOwnerUpdate ∧
      ownerUpdate.changes ≠ backupOwnerUpdate.changes ∧
      ownerUpdate.signedData sessionRow.txid = backupOwnerUpdate.signedData sessionRow.txid :=
  ⟨ownerUpdate_updateOf, ⟨rfl, rfl, rfl, rfl, Hf.hf15Ons, by decide⟩, by decide, by decide⟩

end Ambiguous

end Xeqm.Ons
