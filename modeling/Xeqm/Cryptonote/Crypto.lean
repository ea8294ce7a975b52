import Xeqm.Cryptonote.Transaction

/-!
# Cryptographic functions

The functions of `crypto`, of the hardware device layer and of libsodium that
the service node list calls. Nothing is assumed about them: every result holds
whatever they return.
-/

namespace Xeqm.Cryptonote

/-- The cryptographic functions, with `none` for a failing one. -/
structure Crypto where
  /-- `crypto::cn_fast_hash`. -/
  cnFastHash : List UInt8 → Hash
  /-- `crypto::check_key`. -/
  checkKey : PublicKey → Bool
  /-- `crypto::check_signature`. -/
  checkSignature : Hash → PublicKey → Signature → Bool
  /-- `crypto::check_key_image_signature`. -/
  checkKeyImageSignature : KeyImage → PublicKey → Signature → Bool
  /-- `crypto_sign_ed25519_verify_detached`. -/
  verifyEd25519 : Signature → List UInt8 → PublicKey → Bool
  /-- `crypto_sign_ed25519_pk_to_curve25519`. -/
  ed25519ToCurve25519 : PublicKey → Option X25519PublicKey
  /-- `crypto::generate_key_derivation`. -/
  generateKeyDerivation : PublicKey → SecretKey → Option KeyDerivation
  /-- `hw::device::derive_public_key`. -/
  derivePublicKey : KeyDerivation → ℕ → PublicKey → Option PublicKey
  /-- `get_staking_output_contribution`: the amount an output reveals. -/
  getStakingOutputContribution : Transaction → ℕ → KeyDerivation → UInt64

/-- Cryptography for concrete runs: it accepts everything, and a transaction
stakes the amount that its secret key encodes. -/
def acceptingCrypto : Crypto where
  cnFastHash := fun _ => 0
  checkKey := fun _ => true
  checkSignature := fun _ _ _ => true
  checkKeyImageSignature := fun _ _ _ => true
  verifyEd25519 := fun _ _ _ => true
  ed25519ToCurve25519 := fun key => some key
  generateKeyDerivation := fun _ key => some key
  derivePublicKey := fun _ _ key => some key
  getStakingOutputContribution := fun _ _ derivation => UInt64.ofNat derivation.toNat

end Xeqm.Cryptonote
