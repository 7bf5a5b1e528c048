import NodeAdmission.Key.Identity
import NodeAdmission.Signature.Compact
import NodeAdmission.Signature.Nonce
/-!
# Key pairs

A secret scalar together with its multiple of the base point. That this multiple is not infinity is
part of the type, and is the whole of what makes a scalar a secret.
-/

namespace NodeAdmission

open Curve

/-- A secret and its public point. -/
structure KeyPair where
  /-- The secret. -/
  secret : Scalar
  /-- The public key. -/
  point : Affine
  /-- The public key is the secret's multiple of the base point. -/
  smul_generator : secret * generator = .finite point
  /-- The key identifies itself by the compressed form. -/
  compressed : Bool

namespace KeyPair

/-- The key pair of a secret, which is a nonzero scalar. -/
def ofSecret? (secret : Octets 32) (compressed : Bool) : Except KeyError KeyPair :=
  if h : secret.toNat < groupOrder then
    match hp : (⟨secret.toNat, h⟩ : Scalar) * generator with
    | .finite point => .ok { secret := _, point, smul_generator := hp, compressed }
    | .infinity => .error .invalidPrivateKey
  else .error .invalidPrivateKey

/-- The secret as bytes. -/
def secretOctets (pair : KeyPair) : Octets 32 := .ofNat 32 pair.secret.val

/-- The public key as an identity key, which is always compressed. -/
def publicKey (pair : KeyPair) : IdentityKey := ⟨pair.point.compressed⟩

/-- The identity that recovery from the pair's signatures yields. -/
def keyId (pair : KeyPair) : KeyId := Hash.hash160 (pair.point.serialize pair.compressed)

/-- The signature of a hash with its identifier, if the nonce drawn for it gives one. -/
def signature? (pair : KeyPair) (hash : Hash) : Option (Signature × RecoveryId) := do
  let nonce ← Signature.nonce? pair.secret hash
  Signature.ofNonce? nonce pair.secret (Signature.messageScalar hash)

/-- The compact signature of a hash. -/
def sign (pair : KeyPair) (hash : Hash) : Except KeyError CompactSignature :=
  (pair.signature? hash).elim (.error .signingFailed) fun (sig, id) ↦
    .ok (.ofSignature sig id pair.compressed)

/-- The pair as log lines show it: the secret stays out. -/
def describe (pair : KeyPair) : String :=
  s!"Secp256k1KeyPair \x7b public_key: {pair.publicKey.describe}, " ++
    s!"compressed: {pair.compressed}, .. \x7d"

end KeyPair

end NodeAdmission
