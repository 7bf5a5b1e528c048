import NodeAdmission.Chain.Transaction
/-!
# Tiers and their stake

A node registers at a tier, which says what stake backs it. The free tier asks for none.
-/

namespace NodeAdmission

/-! ## Parameters -/

/-- What the network asks of registrations. -/
structure StakeParams where
  /-- The most outpoints that one registration may list, which bounds the questions it raises. -/
  maxCollateralCount : UInt64 := 10
  /-- The least value of the collateral at the staked tier: 5000 coins of 100,000,000 units. -/
  spvCollateral : Amount := 500_000_000_000
deriving DecidableEq

/-- What a tier asks of a registration. -/
structure TierPolicy where
  /-- The registration must be backed by collateral. -/
  requiresCollateral : Bool
  /-- The least value of that collateral. -/
  minCollateral : Amount
deriving DecidableEq

/-! ## Tiers -/

/-- A tier. A byte that names none is kept, so that the record can still be read and sent on. -/
inductive Tier where
  /-- No stake; the node signs for itself. -/
  | free
  /-- Backed by collateral, whose owner signs. -/
  | spv
  /-- A byte that names no tier. -/
  | unrecognized (byte : UInt8)
deriving DecidableEq

namespace Tier

/-- The tier that a byte names. -/
def ofByte (b : UInt8) : Tier :=
  if b = 0 then free else if b = 50 then spv else unrecognized b

/-- The byte of a tier. -/
def toByte : Tier → UInt8
  | free => 0
  | spv => 50
  | unrecognized b => b

@[simp] theorem toByte_ofByte (b : UInt8) : (ofByte b).toByte = b := by
  unfold ofByte
  split
  · next h => exact h.symm
  · split
    · next h => exact h.symm
    · rfl

/-- What a tier asks; a byte that names no tier has no answer. -/
def policy? (params : StakeParams) : Tier → Option TierPolicy
  | free => some { requiresCollateral := false, minCollateral := 0 }
  | spv => some { requiresCollateral := true, minCollateral := params.spvCollateral }
  | unrecognized _ => none

/-- The name of a tier, as operators know it. -/
def name : Tier → String
  | free => "OPEN"
  | spv => "SPV"
  | unrecognized b => s!"UNKNOWN({b.toNat})"

/-- The tier that an operator names, in upper or lower case ASCII letters. -/
def ofName? (name : String) : Option Tier :=
  let upper := name.toList.map Char.toUpper
  if upper = "OPEN".toList then some free
  else if upper = "SPV".toList then some spv
  else none

/-- The wording for a name that names no tier. -/
def unknownNameMessage (name : String) : String := "unknown tier name: " ++ name

end Tier

end NodeAdmission
