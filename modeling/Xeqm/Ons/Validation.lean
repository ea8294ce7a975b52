import Xeqm.Lib.Effect
import Xeqm.Ons.Types

/-!
# The checks on a name transaction

`validate_ons_tx` and `validate_against_previous_mapping`, over the query of the database that
they call.
-/

namespace Xeqm.Ons

open Cryptonote

variable (crypto : OnsCrypto)

/-- A row of the table `mappings`. -/
structure MappingRow where
  id : ℕ
  type : MappingType
  nameHash : Hash
  encryptedValue : List UInt8
  txid : Hash
  ownerId : ℕ
  backupOwnerId : Option ℕ
  updateHeight : ℕ
  expirationHeight : Option ℕ
  deriving DecidableEq

/-- `mapping_record`: a row with its owners. -/
structure MappingRecord where
  row : MappingRow
  owner : GenericOwner
  backupOwner : GenericOwner
  deriving DecidableEq

/-- `expiration_height IS NULL OR expiration_height >= ?`. -/
def MappingRow.unexpired (row : MappingRow) (height : ℕ) : Bool :=
  row.expirationHeight.all (fun expiration => height ≤ expiration)

/-- `mapping_record::active`, for a record that is loaded. -/
def MappingRecord.active (record : MappingRecord) (blockchainHeight : ℕ) : Bool :=
  record.row.unexpired blockchainHeight

/-- `get_mapping`, as the checks call it. -/
abbrev Lookup := MappingType → Hash → Option MappingRecord

/-- Why a name transaction is refused. -/
inductive OnsError
  | wrongTxType
  | noExtra
  | valueNotRequested
  | ownerNotRequested
  | backupOwnerNotRequested
  | signatureNotRequested
  | unexpectedVersion
  | typeDisallowed
  | invalidFields
  | sameOwners
  | nullNameHash
  | invalidValue
  | updateOfNothing
  | updateOfExpired
  | sameValue
  | sameOwner
  | sameBackupOwner
  | noSignatureData
  | badSignature
  | alreadyRegistered
  | otherTypeRegistered
  | renewalOfNothing
  | renewalOfExpired
  | notValid
  | wrongPrevTxid
  | wrongBurn
  deriving DecidableEq

/-- `check_condition`, with the return of its callers. -/
def checkCondition (failed : Bool) (error : OnsError) : Except OnsError Unit :=
  if failed then .error error else .ok ()

/-- The bytes that are signed for an update. -/
def OnsExtra.signedData (extra : OnsExtra) (prevTxid : Hash) : List UInt8 :=
  txExtraSignature extra.encryptedValue extra.newOwner extra.newBackupOwner prevTxid

/-- The signature of an update verifies under an owner. -/
def OnsExtra.signedBy (extra : OnsExtra) (prevTxid : Hash) (owner : GenericOwner) : Bool :=
  verifyOnsSignature crypto (crypto.generichash (extra.signedData prevTxid)) extra.signature owner

/-- The branch of `validate_against_previous_mapping` for an update, with the expected previous
transaction. -/
def validateUpdate (mapping : Option MappingRecord) (blockchainHeight : ℕ) (extra : OnsExtra) :
    Except OnsError Hash :=
  match mapping with
  | none => .error .updateOfNothing
  | some mapping => do
    checkCondition (!mapping.active blockchainHeight) .updateOfExpired
    checkCondition (extra.newValue = some mapping.row.encryptedValue) .sameValue
    checkCondition (extra.newOwner = some mapping.owner) .sameOwner
    checkCondition (extra.newBackupOwner = some mapping.backupOwner) .sameBackupOwner
    checkCondition (extra.signedData mapping.row.txid).isEmpty .noSignatureData
    checkCondition (!extra.signedBy crypto mapping.row.txid mapping.owner &&
      !extra.signedBy crypto mapping.row.txid mapping.backupOwner) .badSignature
    pure mapping.row.txid

/-- The type whose owners alone may buy a name of this type. -/
def MappingType.altType : MappingType → Option MappingType
  | .wallet => some .session
  | .session => some .wallet
  | _ => none

/-- The branch of `validate_against_previous_mapping` for a purchase. -/
def validateBuy (getMapping : Lookup) (mapping : Option MappingRecord) (blockchainHeight : ℕ)
    (extra : OnsExtra) : Except OnsError Hash := do
  checkCondition (mapping.any (fun mapping => mapping.active blockchainHeight)) .alreadyRegistered
  let altMapping := extra.type.altType.bind (fun type => getMapping type extra.nameHash)
  checkCondition (altMapping.any (fun alt =>
    let isAltRecordOwner (owner : GenericOwner) : Bool :=
      owner = alt.owner || owner = alt.backupOwner
    alt.active blockchainHeight && (!isAltRecordOwner extra.owner ||
      (extra.fields.backupOwner && !isAltRecordOwner extra.backupOwner)))) .otherTypeRegistered
  pure 0

/-- The branch of `validate_against_previous_mapping` for a renewal. -/
def validateRenewal (mapping : Option MappingRecord) (blockchainHeight : ℕ) :
    Except OnsError Hash :=
  match mapping with
  | none => .error .renewalOfNothing
  | some mapping => do
    checkCondition (!mapping.active blockchainHeight) .renewalOfExpired
    pure mapping.row.txid

/-- The branches of `validate_against_previous_mapping`, with the expected previous transaction. -/
def expectedPrevTxid (getMapping : Lookup) (blockchainHeight : ℕ) (extra : OnsExtra) :
    Except OnsError Hash :=
  let mapping := getMapping extra.type extra.nameHash
  if extra.isUpdating then validateUpdate crypto mapping blockchainHeight extra
  else if extra.isBuying then validateBuy getMapping mapping blockchainHeight extra
  else if extra.isRenewing then validateRenewal mapping blockchainHeight
  else .error .notValid

/-- `validate_against_previous_mapping`. -/
def validateAgainstPreviousMapping (getMapping : Lookup) (blockchainHeight : ℕ) (extra : OnsExtra) :
    Except OnsError Unit := do
  let expected ← expectedPrevTxid crypto getMapping blockchainHeight extra
  checkCondition (extra.prevTxid ≠ expected) .wrongPrevTxid

/-- The checks of `validate_ons_tx` on the fields alone. -/
def validateFields (version : Hf) (extra : OnsExtra) : Except OnsError Unit := do
  checkCondition (!extra.fields.encryptedValue && !extra.encryptedValue.isEmpty) .valueNotRequested
  checkCondition (!extra.fields.owner && extra.owner.isSet) .ownerNotRequested
  checkCondition (!extra.fields.backupOwner && extra.backupOwner.isSet) .backupOwnerNotRequested
  checkCondition (!extra.fields.signature && extra.signature.data ≠ 0) .signatureNotRequested
  checkCondition (extra.version ≠ 0) .unexpectedVersion
  checkCondition (!mappingTypeAllowed version extra.type) .typeDisallowed
  checkCondition (!extra.isBuying && !extra.isUpdating && !extra.isRenewing) .invalidFields
  checkCondition (extra.fields.owner && extra.fields.backupOwner &&
    extra.owner = extra.backupOwner) .sameOwners
  checkCondition (extra.nameHash = crypto.nullNameHash || extra.nameHash = 0) .nullNameHash
  checkCondition (extra.fields.encryptedValue &&
    !validateEncrypted extra.type extra.encryptedValue) .invalidValue

/-- The last check of `validate_ons_tx`. -/
def validateBurn (nettype : NetworkType) (version : Hf) (blockchainHeight burned : ℕ)
    (extra : OnsExtra) : Except OnsError Unit :=
  let burnRequired :=
    if extra.isBuying || extra.isRenewing then burnNeeded version nettype extra.type else 0
  -- blocks of a test network paid an earlier, higher fee
  let burn :=
    if version = Hf.hf18 ∧ burned > burnRequired ∧ blockchainHeight < 524000 then burnRequired
    else burned
  checkCondition (burn ≠ burnRequired) .wrongBurn

/-- `validate_ons_tx`, with what the transaction says about a name. -/
def validateOnsTx (nettype : NetworkType) (getMapping : Lookup) (version : Hf)
    (blockchainHeight : ℕ) (tx : OnsTx) : Except OnsError OnsExtra := do
  checkCondition (tx.type ≠ .oxenNameSystem) .wrongTxType
  match tx.extra with
  | none => .error .noExtra
  | some extra =>
    validateFields crypto version extra
    validateAgainstPreviousMapping crypto getMapping blockchainHeight extra
    validateBurn nettype version blockchainHeight tx.burned extra
    pure extra

/-! ## What the checks let through -/

theorem checkCondition_eq_ok_iff {failed : Bool} {error : OnsError} {u : Unit} :
    checkCondition failed error = .ok u ↔ failed = false := by
  cases failed <;> simp [checkCondition]

/-- What the checks on the fields say about the value. -/
theorem value_of_validateFields {crypto : OnsCrypto} {version : Hf} {extra : OnsExtra}
    (h : validateFields crypto version extra = .ok ()) :
    (extra.fields.encryptedValue = false ∧ extra.encryptedValue = []) ∨
      (extra.fields.encryptedValue = true ∧
        validateEncrypted extra.type extra.encryptedValue = true) := by
  simp only [validateFields, Lib.except_bind_eq_ok_iff, checkCondition_eq_ok_iff] at h
  obtain ⟨_, hunset, _, _, _, _, _, _, _, _, _, _, _, _, _, _, _, _, hset⟩ := h
  cases hvalue : extra.fields.encryptedValue with
  | false =>
    left
    simpa [hvalue] using hunset
  | true =>
    right
    simpa [hvalue] using hset

/-- A valid value fits into the buffer. -/
theorem length_le_of_validateEncrypted {type : MappingType} {value : List UInt8}
    (h : validateEncrypted type value = true) : value.length ≤ bufferSize := by
  cases type <;> simp only [validateEncrypted, Bool.or_eq_true, decide_eq_true_eq] at h <;>
    simp only [bufferSize] <;> omega

/-- What has to hold of the recorded names for an entry to be valid. -/
inductive Accepted (crypto : OnsCrypto) (getMapping : Lookup) (height : ℕ) (entry : OnsExtra) :
    Prop
  | update (mapping : MappingRecord) (updating : entry.isUpdating = true)
      (recorded : getMapping entry.type entry.nameHash = some mapping)
      (active : mapping.active height = true)
      (signed : entry.signedBy crypto mapping.row.txid mapping.owner = true ∨
        entry.signedBy crypto mapping.row.txid mapping.backupOwner = true)
  | purchase (buying : entry.isBuying = true)
      (free : ∀ mapping, getMapping entry.type entry.nameHash = some mapping →
        mapping.active height = false)
  | renewal (mapping : MappingRecord) (renewing : entry.isRenewing = true)
      (recorded : getMapping entry.type entry.nameHash = some mapping)
      (active : mapping.active height = true)

section

variable {crypto : OnsCrypto} {getMapping : Lookup} {height : ℕ} {entry : OnsExtra}

theorem Accepted.of_validate {u : Unit}
    (h : validateAgainstPreviousMapping crypto getMapping height entry = .ok u) :
    Accepted crypto getMapping height entry := by
  simp only [validateAgainstPreviousMapping, Lib.except_bind_eq_ok_iff] at h
  obtain ⟨prevTxid, h, -⟩ := h
  unfold expectedPrevTxid at h
  dsimp only at h
  split at h
  · rename_i hupdating
    unfold validateUpdate at h
    cases hmapping : getMapping entry.type entry.nameHash with
    | none =>
      rw [hmapping] at h
      cases h
    | some mapping =>
      rw [hmapping] at h
      simp only [Lib.except_bind_eq_ok_iff, checkCondition_eq_ok_iff] at h
      obtain ⟨_, hactive, _, _, _, _, _, _, _, _, _, hsigned, _⟩ := h
      refine .update mapping hupdating hmapping (by simpa using hactive) ?_
      simpa [or_iff_not_imp_left] using hsigned
  · split at h
    · rename_i hbuying
      simp only [validateBuy, Lib.except_bind_eq_ok_iff, checkCondition_eq_ok_iff] at h
      obtain ⟨_, hfree, _⟩ := h
      refine .purchase hbuying ?_
      intro mapping hmapping
      rw [hmapping] at hfree
      exact hfree
    · split at h
      · rename_i hrenewing
        unfold validateRenewal at h
        cases hmapping : getMapping entry.type entry.nameHash with
        | none =>
          rw [hmapping] at h
          cases h
        | some mapping =>
          rw [hmapping] at h
          simp only [Lib.except_bind_eq_ok_iff, checkCondition_eq_ok_iff] at h
          obtain ⟨_, hactive, _⟩ := h
          exact .renewal mapping hrenewing hmapping (by simpa using hactive)
      · cases h

/-- A transaction that passes the checks. -/
theorem validateOnsTx_ok {nettype : NetworkType} {version : Hf} {tx : OnsTx}
    (h : validateOnsTx crypto nettype getMapping version height tx = .ok entry) :
    tx.extra = some entry ∧ validateFields crypto version entry = .ok () ∧
      Accepted crypto getMapping height entry := by
  simp only [validateOnsTx, Lib.except_bind_eq_ok_iff] at h
  obtain ⟨_, -, h⟩ := h
  cases hextra : tx.extra with
  | none =>
    rw [hextra] at h
    cases h
  | some =>
    rw [hextra] at h
    simp only [Lib.except_bind_eq_ok_iff] at h
    obtain ⟨_, hfields, _, hprevious, _, -, heq⟩ := h
    cases heq
    exact ⟨rfl, hfields, .of_validate hprevious⟩

end

end Xeqm.Ons
