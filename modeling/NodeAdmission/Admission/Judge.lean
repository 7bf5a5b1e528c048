import NodeAdmission.Admission.Collateral
import NodeAdmission.Record.Ping
/-!
# Judging records

A registration is admitted if its node was seen at a block of the active chain, its key is a point
of the curve, and its tier is content: the free tier if the node itself signed, the staked tier if
the signer owns enough collateral.

A ping is admitted if its block is recent, its key is that of the registration it carries, its
config can be read, the node signed it, and the registration is admitted. The registration's own
block need not be recent then, since the ping's is.
-/

namespace NodeAdmission

/-- A decision, with the reason where it is a rejection. -/
abbrev Verdict := Except Rejection Unit

/-- The verdict is an admission. -/
def Verdict.isAdmission (v : Verdict) : Bool := v.isOk

namespace Audit

/-- The identity of the key that signed a hash. -/
def signerOf (hash : Hash) (signature : List UInt8) : Audit KeyId :=
  match recoverCompact hash signature with
  | .ok key => pure key.keyId
  | .error _ => reject .badSignature

end Audit

namespace Registration

/-- The node itself signed. -/
def judgeSelfSigned (r : Registration) : Audit Unit := do
  let signer ← Audit.signerOf r.sigHash r.signature
  Audit.require (signer = r.key.keyId) .signerMismatch

/-- The signer owns collateral of at least the value `required`. -/
def judgeStaked (chain : ChainAccess) (maxCount : UInt64) (required : Amount) (r : Registration) :
    Audit Unit := do
  Audit.require (r.paymentKeyHash ≠ .zero 20) .missingPaymentKeyHash
  Audit.ofExcept (Collateral.checkSet r.collateral maxCount)
  let owner ← Audit.signerOf r.sigHash r.signature
  let total ← Collateral.verify chain owner r.collateral
  Audit.require (required ≤ total) (.insufficientStake total required)

/-- The registration meets what its tier asks. -/
def judgeTier (chain : ChainAccess) (params : StakeParams) (r : Registration) : Audit Unit := do
  let policy ← Audit.get? (r.tier.policy? params) (.unrecognizedTier r.tier.toByte)
  if policy.requiresCollateral then
    r.judgeStaked chain params.maxCollateralCount policy.minCollateral
  else r.judgeSelfSigned

end Registration

/-- Judges a record. With `enforce` the last block seen must be a recent one. -/
def NodeRecord.judge (chain : ChainAccess) (params : StakeParams) (enforce : Bool)
    (n : NodeRecord) : Audit Unit := do
  let current ← Audit.askAnchor chain n.lastSeen enforce
  Audit.require current (.staleOrUnknownAnchor n.lastSeen.height)
  Audit.require n.key.isFullyValid .invalidKey
  n.registration.judgeTier chain params

/-- Judges a ping and the record that it carries. -/
def Ping.judge (chain : ChainAccess) (params : StakeParams) (p : Ping) : Audit Unit := do
  let current ← Audit.askAnchor chain p.anchor true
  Audit.require current (.staleOrUnknownAnchor p.anchor.height)
  Audit.require p.key.isFullyValid .invalidKey
  Audit.require (p.key = p.record.key) .identityMismatch
  let _ ← Audit.ofExcept ((Capabilities.parse p.config).mapError .malformedConfig)
  let signer ← Audit.signerOf p.sigHash p.signature
  Audit.require (signer = p.key.keyId) .signerMismatch
  p.record.judge chain params false

end NodeAdmission
