import Mathlib.Data.Nat.Basic

/-!
# Fixed-size byte strings

Keys, hashes and addresses are plain byte arrays in the source. They are kept
here as bit vectors of the same size; the byte order is the one in which the
source compares them, most significant byte first, so that the order of the
byte arrays is the order of the numbers.
-/

namespace Xeqm

/-- A byte array of `n` bytes. -/
abbrev Blob (n : ℕ) := BitVec (8 * n)

/-- The bytes of a byte array, first byte first. -/
def Blob.bytes {n : ℕ} (b : Blob n) : List UInt8 :=
  (List.range n).map (fun i => UInt8.ofBitVec (b.extractLsb' (8 * (n - 1 - i)) 8))

@[simp]
theorem Blob.length_bytes {n : ℕ} (b : Blob n) : b.bytes.length = n := by
  simp [Blob.bytes]

/-- The bytes determine the byte array. -/
theorem Blob.bytes_injective {n : ℕ} {a b : Blob n} (h : a.bytes = b.bytes) : a = b := by
  apply BitVec.eq_of_getLsbD_eq
  intro j hj
  -- bit `j` is in the byte `j / 8` from the end
  have hbyte : UInt8.ofBitVec (a.extractLsb' (8 * (n - 1 - (n - 1 - j / 8))) 8) =
      UInt8.ofBitVec (b.extractLsb' (8 * (n - 1 - (n - 1 - j / 8))) 8) :=
    List.map_inj_left.mp h (n - 1 - j / 8) (List.mem_range.mpr (by omega))
  have hbits := congrArg (fun c : UInt8 => c.toBitVec.getLsbD (j % 8)) hbyte
  simp only [BitVec.getLsbD_extractLsb'] at hbits
  have hindex : 8 * (n - 1 - (n - 1 - j / 8)) + j % 8 = j := by omega
  simpa [hindex, Nat.mod_lt] using hbits

/-- The `n` little-endian bytes of a number. -/
def littleEndian (n x : ℕ) : List UInt8 :=
  (List.range n).map (fun i => UInt8.ofNat (x >>> (8 * i)))

/-- `crypto::public_key`. -/
abbrev PublicKey := Blob 32

/-- `crypto::hash`. -/
abbrev Hash := Blob 32

instance : LawfulBEq Hash := inferInstance

/-- `crypto::key_image`. -/
abbrev KeyImage := Blob 32

/-- `crypto::x25519_public_key`. -/
abbrev X25519PublicKey := Blob 32

/-- `crypto::secret_key`. -/
abbrev SecretKey := Blob 32

/-- `crypto::key_derivation`. -/
abbrev KeyDerivation := Blob 32

/-- `crypto::signature` and `crypto::ed25519_signature`. -/
abbrev Signature := Blob 64

/-- `eth::bls_public_key`. -/
abbrev BlsPublicKey := Blob 64

/-- `eth::address`. -/
abbrev EthAddress := Blob 20

/-- `cryptonote::account_public_address`. -/
structure AccountPublicAddress where
  spendPublicKey : PublicKey
  viewPublicKey : PublicKey
  deriving DecidableEq

/-- `cryptonote::null_address`. -/
def nullAddress : AccountPublicAddress := ⟨0, 0⟩

end Xeqm
