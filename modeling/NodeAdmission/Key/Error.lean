/-!
# Failures of keys and signatures
-/

namespace NodeAdmission

/-- Why a key or a signature is refused. -/
inductive KeyError where
  | invalidPublicKey
  | invalidPrivateKey
  | invalidSignatureLength (actual : Nat)
  | invalidRecoveryHeader (header : UInt8)
  | invalidSignatureFormat
  | recoveryFailed
  | signingFailed
deriving DecidableEq

/-- The wording of a failure. -/
def KeyError.message : KeyError → String
  | invalidPublicKey => "Invalid public key"
  | invalidPrivateKey => "Invalid private key"
  | invalidSignatureLength actual => s!"Invalid signature length: expected 65, got {actual}"
  | invalidRecoveryHeader header => s!"Invalid recovery header: {header.toNat}"
  | invalidSignatureFormat => "Invalid signature format"
  | recoveryFailed => "Failed to recover public key"
  | signingFailed => "Signing failed"

end NodeAdmission
