import NodeAdmission.Admission.Desk
import NodeAdmission.Json.Form
import NodeAdmission.Proofs.Admission.Stake
import NodeAdmission.Proofs.Admission.Acceptance
import NodeAdmission.Proofs.Wire.Exact
import NodeAdmission.Proofs.Record.Encoding
import NodeAdmission.Proofs.Record.RoundTrip
import NodeAdmission.Proofs.Chain.Spending
import NodeAdmission.Proofs.Chain.Anchors
import NodeAdmission.Proofs.Admission.Revocation
import NodeAdmission.Proofs.Curve.Group
import NodeAdmission.Proofs.Curve.Weighted
import NodeAdmission.Proofs.Curve.Base
import NodeAdmission.Proofs.Curve.Encoding
import NodeAdmission.Proofs.Signature.Recovery
import NodeAdmission.Proofs.Signature.Compact
import NodeAdmission.Proofs.Key.Encoding
import NodeAdmission.Proofs.Admission.Completeness
import NodeAdmission.Proofs.Record.Commitment
import NodeAdmission.Proofs.Admission.Pings
import NodeAdmission.Proofs.Record.Capabilities
import NodeAdmission.Proofs.Text.Numeral
import NodeAdmission.Proofs.Record.Grammar
import NodeAdmission.Proofs.Admission.Relay
import NodeAdmission.Proofs.Record.Overlap
import NodeAdmission.Proofs.Chain.Conflicts
import NodeAdmission.Proofs.Admission.Agreement
import NodeAdmission.Proofs.Admission.Questions
import NodeAdmission.Proofs.Admission.Repeats
import NodeAdmission.Proofs.Admission.Memory
import NodeAdmission.Proofs.Wire.Incremental
import NodeAdmission.Proofs.Record.Truncation
import NodeAdmission.Proofs.Curve.Order
import NodeAdmission.Proofs.Signature.Exactness
import NodeAdmission.Proofs.Signature.Malleability
import NodeAdmission.Proofs.Admission.Malleability
import NodeAdmission.Proofs.Stake.Forms
import NodeAdmission.Proofs.Record.Reading
import NodeAdmission.Proofs.Wire.CompactSize
import NodeAdmission.Proofs.Json.Entities
import NodeAdmission.Proofs.Record.Failure
