import NodeAdmission.Chain.OutPoint
import NodeAdmission.Record.Capabilities
/-!
# Reasons of rejection
-/

namespace NodeAdmission

/-- Why a registration or a ping is not admitted. -/
inductive Rejection where
  /-- The block is not of the active chain, or too old. -/
  | staleOrUnknownAnchor (height : UInt32)
  /-- The key of the node is not a point of the curve. -/
  | invalidKey
  /-- No key can be recovered from the signature. -/
  | badSignature
  /-- The signature is not that of the node. -/
  | signerMismatch
  /-- A staked registration says nowhere to pay. -/
  | missingPaymentKeyHash
  /-- A staked registration lists no collateral, or too much. -/
  | emptyOrExcessiveCollateral (count : Nat) (max : UInt64)
  /-- An outpoint is listed twice. -/
  | duplicateCollateral (o : OutPoint)
  /-- An outpoint is unknown or spent. -/
  | unresolvableOrSpentCollateral (o : OutPoint)
  /-- The transaction has no output at that position. -/
  | collateralIndexOutOfRange (o : OutPoint)
  /-- The output does not pay the owner. -/
  | destinationMismatch (o : OutPoint)
  /-- The collateral is worth too little. -/
  | insufficientStake (total required : UInt64)
  /-- The tier is none that the network knows. -/
  | unrecognizedTier (byte : UInt8)
  /-- The config of a ping is refused. -/
  | malformedConfig (cause : ConfigError)
  /-- A ping carries the registration of another node. -/
  | identityMismatch
deriving DecidableEq

/-- The wording of a reason. -/
def Rejection.message : Rejection → String
  | staleOrUnknownAnchor height => s!"Stale or unknown anchor at height {height.toNat}"
  | invalidKey => "Invalid identity key"
  | badSignature => "Bad signature"
  | signerMismatch => "Signer mismatch"
  | missingPaymentKeyHash => "Missing payment key hash"
  | emptyOrExcessiveCollateral count max => s!"Collateral count {count} outside 1..={max.toNat}"
  | duplicateCollateral o => "Duplicate collateral: " ++ o.describe
  | unresolvableOrSpentCollateral o => "Unresolvable or spent collateral: " ++ o.describe
  | collateralIndexOutOfRange o => "Collateral output index out of range: " ++ o.describe
  | destinationMismatch o => "Collateral destination mismatch: " ++ o.describe
  | insufficientStake total required => s!"Insufficient stake: {total.toNat} < {required.toNat}"
  | unrecognizedTier byte => s!"Unrecognized tier: {byte.toNat}"
  | malformedConfig cause => "Malformed config: " ++ cause.message
  | identityMismatch => "Ping identity does not match embedded service node"

end NodeAdmission
