import Xeqm.Cryptonote.Config
import Xeqm.Cryptonote.Transaction

/-!
# Names and their owners

The name system of `oxen_name_system.cpp`: the types of names, their owners, and the field of
a transaction that buys, updates or renews a name.
-/

namespace Xeqm.Ons

open Cryptonote

/-- `mapping_type`. -/
inductive MappingType
  | session
  | wallet
  | lokinet
  | lokinet2Years
  | lokinet5Years
  | lokinet10Years
  deriving DecidableEq

/-- `is_lokinet_type`. -/
def MappingType.isLokinetType : MappingType → Bool
  | .session | .wallet => false
  | .lokinet | .lokinet2Years | .lokinet5Years | .lokinet10Years => true

/-- `db_mapping_type`: the type under which a name is stored. -/
def MappingType.dbMappingType (type : MappingType) : MappingType :=
  if type.isLokinetType then .lokinet else type

/-- `mapping_type_allowed`. -/
def mappingTypeAllowed (version : Hf) (type : MappingType) : Bool :=
  (type = .session && version ≥ Hf.hf15Ons) || (type.isLokinetType && version ≥ Hf.hf16Pulse) ||
    (type = .wallet && version ≥ Hf.hf18)

/-- `REGISTRATION_YEAR_DAYS`. -/
def registrationYearDays : ℕ := 368

/-- The years of a registration. -/
def MappingType.years : MappingType → ℕ
  | .lokinet => 1
  | .lokinet2Years => 2
  | .lokinet5Years => 5
  | .lokinet10Years => 10
  | .session | .wallet => 0

/-- `expiry_blocks`, with `none` for a name that does not expire. -/
def expiryBlocks (nettype : NetworkType) (type : MappingType) : Option ℕ :=
  if type.isLokinetType then
    let testnetShort : Bool := nettype = .testnet ∧ type ≠ .lokinet10Years
    let blocksPerDay := (getConfig nettype).blocksIn (24 * hour)
    let result := blocksPerDay * registrationYearDays * type.years
    if testnetShort then some (result / registrationYearDays)
    else if nettype = .fakechain then some (result / (blocksPerDay * registrationYearDays / 2))
    else some result
  else none

@[simp]
theorem MappingType.isLokinetType_dbMappingType (type : MappingType) :
    type.dbMappingType.isLokinetType = type.isLokinetType := by
  cases type <;> rfl

/-- A name that expires does so after some blocks. -/
theorem expiryBlocks_pos (nettype : NetworkType) {type : MappingType}
    (h : type.isLokinetType = true) : ∃ blocks, expiryBlocks nettype type = some blocks ∧ 0 < blocks := by
  cases type with
  | session => cases h
  | wallet => cases h
  | _ => cases nettype <;> exact ⟨_, rfl, by decide⟩

/-- `burn_needed`. -/
def burnNeeded (version : Hf) (nettype : NetworkType) (type : MappingType) : ℕ :=
  let isTestnetHf21 : Bool := version = Hf.hf21Eth ∧ nettype = .testnet
  let basicFee := 1000000000 *
    if version ≥ Hf.hf21Eth ∧ !isTestnetHf21 then 100
    else if version ≥ Hf.hf18 then 7
    else if version ≥ Hf.hf16Pulse then 15
    else 20
  match type with
  | .lokinet | .session | .wallet => basicFee
  | .lokinet2Years => 2 * basicFee
  | .lokinet5Years => 4 * basicFee
  | .lokinet10Years => 6 * basicFee

/-- `generic_owner_sig_type`. -/
inductive SigType
  | monero
  | ed25519
  deriving DecidableEq

/-- `generic_owner`. -/
inductive GenericOwner
  | monero (address : AccountPublicAddress) (isSubaddress : Bool)
  | ed25519 (key : PublicKey)
  deriving DecidableEq

namespace GenericOwner

/-- `type`. -/
def sigType : GenericOwner → SigType
  | .monero _ _ => .monero
  | .ed25519 _ => .ed25519

/-- The owner `{}`. -/
def null : GenericOwner := .monero nullAddress false

/-- `operator bool`. -/
def isSet : GenericOwner → Bool
  | .monero address _ => address ≠ nullAddress
  | .ed25519 key => key ≠ 0

end GenericOwner

/-- `generic_signature`. -/
structure GenericSignature where
  type : SigType := .monero
  data : Signature := 0
  deriving DecidableEq

/-- `extra_field`: which fields a name transaction carries. -/
structure ExtraFields where
  owner : Bool := false
  backupOwner : Bool := false
  signature : Bool := false
  encryptedValue : Bool := false
  deriving DecidableEq

/-- `tx_extra_oxen_name_system`. -/
structure OnsExtra where
  version : UInt8 := 0
  type : MappingType
  nameHash : Hash
  /-- The transaction that last changed the name. -/
  prevTxid : Hash := 0
  fields : ExtraFields := {}
  owner : GenericOwner := .null
  backupOwner : GenericOwner := .null
  signature : GenericSignature := {}
  encryptedValue : List UInt8 := []
  deriving DecidableEq

namespace OnsExtra

variable (extra : OnsExtra)

/-- `is_updating`. -/
def isUpdating : Bool :=
  extra.fields.signature &&
    (extra.fields.owner || extra.fields.backupOwner || extra.fields.encryptedValue)

/-- `is_buying`. -/
def isBuying : Bool :=
  extra.fields.owner && extra.fields.encryptedValue && !extra.fields.signature

/-- `is_renewing`. -/
def isRenewing : Bool :=
  extra.fields = {} && extra.prevTxid ≠ 0 && extra.type.isLokinetType

/-- The new owner that is requested, if any. -/
def newOwner : Option GenericOwner := if extra.fields.owner then some extra.owner else none

/-- The new backup owner that is requested, if any. -/
def newBackupOwner : Option GenericOwner :=
  if extra.fields.backupOwner then some extra.backupOwner else none

/-- The new value that is requested, if any. -/
def newValue : Option (List UInt8) :=
  if extra.fields.encryptedValue then some extra.encryptedValue else none

end OnsExtra

/-- A transaction, with what is found in its extra. -/
structure OnsTx where
  hash : Hash
  type : TxType := .oxenNameSystem
  extra : Option OnsExtra := none
  /-- `get_burned_amount_from_tx_extra`. -/
  burned : ℕ := 0

/-- A block with its transactions. -/
structure OnsBlock where
  majorVersion : Hf
  height : ℕ
  hash : Hash
  txs : List OnsTx := []

/-- The functions of libsodium and of `crypto` that the name system calls. -/
structure OnsCrypto where
  /-- `crypto_generichash`. -/
  generichash : List UInt8 → Hash
  /-- `crypto::check_signature`. -/
  checkSignature : Hash → PublicKey → Signature → Bool
  /-- `crypto_sign_verify_detached`. -/
  verifyDetached : Signature → Hash → PublicKey → Bool
  /-- `null_name_hash`, the hash of the empty name. -/
  nullNameHash : Hash

/-- Functions under which every signature verifies. -/
def OnsCrypto.acceptAll : OnsCrypto where
  generichash _ := 0
  checkSignature _ _ _ := true
  verifyDetached _ _ _ := true
  nullNameHash := 0

/-! ## Values and signatures -/

/-- `validate_encrypted`: the lengths of an encrypted value. -/
def validateEncrypted (type : MappingType) (value : List UInt8) : Bool :=
  let overhead := 16 + 24
  match type with
  | .wallet => value.length = 73 + overhead || value.length = 65 + overhead
  -- an older value of a session name comes without its nonce
  | .session => value.length = 33 + overhead || value.length = 33 + overhead - 24
  | .lokinet | .lokinet2Years | .lokinet5Years | .lokinet10Years => value.length = 32 + overhead

/-- `mapping_value::BUFFER_SIZE`. -/
def bufferSize : ℕ := 73 + 40

/-- What `append_owner` appends for an owner. -/
def GenericOwner.bytes : GenericOwner → List UInt8
  | .monero address _ => 0 :: (address.spendPublicKey.bytes ++ address.viewPublicKey.bytes)
  | .ed25519 key => 1 :: key.bytes

/-- `append_owner`. -/
def appendOwner (buffer : List UInt8) (owner : Option GenericOwner) : List UInt8 :=
  match owner with
  | some owner => buffer ++ owner.bytes
  | none => buffer

/-- `tx_extra_signature`: the bytes that are signed for an update. -/
def txExtraSignature (value : List UInt8) (owner backupOwner : Option GenericOwner)
    (prevTxid : Hash) : List UInt8 :=
  if value.length > bufferSize then []
  else appendOwner (appendOwner value owner) backupOwner ++ prevTxid.bytes

/-- `verify_ons_signature`. -/
def verifyOnsSignature (crypto : OnsCrypto) (hash : Hash) (signature : GenericSignature)
    (owner : GenericOwner) : Bool :=
  if !owner.isSet ∨ signature.data = 0 then false
  else if owner.sigType ≠ signature.type then false
  else
    match owner with
    | .monero address _ => crypto.checkSignature hash address.spendPublicKey signature.data
    | .ed25519 key => crypto.verifyDetached signature.data hash key

end Xeqm.Ons
