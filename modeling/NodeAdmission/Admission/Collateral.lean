import NodeAdmission.Admission.Audit
import NodeAdmission.Stake.Destination
/-!
# Checking collateral

The list of outpoints is first checked by itself: it must have elements, not too many, and none
twice. Then every outpoint is looked up in order; its output must pay the owner, and the values are
added up. Adding stops at the largest amount instead of wrapping around.

Outputs often share one script. A script that was found to pay the owner is remembered by its
identity and not taken apart again.
-/

namespace NodeAdmission.Collateral

/-! ## The list by itself -/

/-- The first element that is among those before it, `seen` included. -/
def firstRepeat? : List OutPoint → List OutPoint → Option OutPoint
  | _, [] => none
  | seen, o :: os => if o ∈ seen then some o else firstRepeat? (o :: seen) os

/-- The list has between one and `max` elements, and none twice. -/
def checkSet (outpoints : List OutPoint) (max : UInt64) : Except Rejection Unit :=
  if outpoints.isEmpty ∨ max.toNat < outpoints.length then
    .error (.emptyOrExcessiveCollateral outpoints.length max)
  else
    match firstRepeat? [] outpoints with
    | some o => .error (.duplicateCollateral o)
    | none => .ok ()

/-! ## The outputs -/

/-- The sum of two amounts, or the largest amount if it is beyond that. -/
def saturatingAdd (a b : Amount) : Amount :=
  if a.toNat + b.toNat < UInt64.size then a + b else UInt64.ofNat (UInt64.size - 1)

theorem toNat_saturatingAdd (a b : Amount) :
    (saturatingAdd a b).toNat =
      if a.toNat + b.toNat < UInt64.size then a.toNat + b.toNat else UInt64.size - 1 := by
  unfold saturatingAdd
  split
  · next h => exact (UInt64.toNat_add a b).trans (Nat.mod_eq_of_lt h)
  · rfl

/-- The script pays the owner of a key and nobody else. -/
def paysOwner (owner : KeyId) (script : List UInt8) : Bool :=
  (Destination.ofScript? script >>= Destination.keyHash?) == some owner

/-- Looks up the outpoints in order. `total` is the value so far, and `trusted` holds the identities
of the scripts found to pay the owner. -/
def verifyFrom (chain : ChainAccess) (owner : KeyId) (total : Amount) (trusted : List KeyId) :
    List OutPoint → Audit Amount
  | [] => pure total
  | o :: os => do
    let tx? ← Audit.askOutput chain o
    let tx ← Audit.get? tx? (.unresolvableOrSpentCollateral o)
    let out ← Audit.get? (tx.output? o.index) (.collateralIndexOutOfRange o)
    let total := saturatingAdd total out.value
    let script := Hash.hash160 out.script
    if script ∈ trusted then verifyFrom chain owner total trusted os
    else
      Audit.require (paysOwner owner out.script) (.destinationMismatch o)
      verifyFrom chain owner total (script :: trusted) os

/-- The value of the outputs, all of which must pay the owner. -/
def verify (chain : ChainAccess) (owner : KeyId) (outpoints : List OutPoint) : Audit Amount :=
  verifyFrom chain owner 0 [] outpoints

end NodeAdmission.Collateral
