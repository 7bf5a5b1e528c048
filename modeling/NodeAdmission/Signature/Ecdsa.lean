import NodeAdmission.Bytes
import NodeAdmission.Curve.Point
/-!
# Signatures from which the signer is recovered

A signature on a scalar `z` is a pair of nonzero scalars `r` and `s`. Beside it the signer keeps a
`RecoveryId`, which says which of the points with that `r` was the nonce's; with it the public key
can be computed from the signature alone.

Of the two signatures `(r, s)` and `(r, -s)` only the one with the low `s` is produced and accepted.
-/

namespace NodeAdmission

open Curve

/-- A pair of nonzero scalars. -/
structure Signature where
  /-- The nonce point's `x`, modulo the group order. -/
  r : Scalar
  /-- The part that binds the message to the secret. -/
  s : Scalar
  /-- The first part is not zero. -/
  r_ne_zero : r ≠ 0
  /-- The second part is not zero. -/
  s_ne_zero : s ≠ 0
deriving DecidableEq

/-- Which point with a given `r` the nonce's point was. -/
structure RecoveryId where
  /-- Its `x` is `r` plus the group order, and not `r`. -/
  xOverflow : Bool
  /-- Its `y` is odd. -/
  yOdd : Bool
deriving DecidableEq

namespace Signature

/-- A scalar in the lower half of its range. -/
def isLow (s : Scalar) : Bool := s.val ≤ groupOrder / 2

/-- A message hash as a scalar. -/
def messageScalar (h : Hash) : Scalar := Fin.ofNat groupOrder h.toNat

/-- An `x` coordinate as a scalar. -/
def ofCoordinate (x : Coordinate) : Scalar := Fin.ofNat groupOrder x.val

/-- The signature of `z` under a secret, with a given nonce. There is none in the unlikely case
that one of its parts is zero. -/
def ofNonce? (nonce secret z : Scalar) : Option (Signature × RecoveryId) := do
  let point ← (nonce * generator).affine?
  let r := ofCoordinate point.x
  let s := Residue.inv nonce * (z + r * secret)
  let high := !isLow s
  let s := if high then -s else s
  if h : r ≠ 0 ∧ s ≠ 0 then
    some ({ r, s, r_ne_zero := h.1, s_ne_zero := h.2 },
      { xOverflow := groupOrder ≤ point.x.val, yOdd := point.yIsOdd != high })
  else none

/-- The nonce's point, as the signature and the identifier tell it. -/
def noncePoint? (sig : Signature) (id : RecoveryId) : Option Affine :=
  Affine.lift? (sig.r.val + if id.xOverflow then groupOrder else 0) id.yOdd

/-- The public key under which the signature of `z` is good: from the nonce's point `p`, the point
`r⁻¹ (s p - z g)`. A signature that is not low has no key. -/
def recover? (sig : Signature) (id : RecoveryId) (z : Scalar) : Option Affine := do
  guard (isLow sig.s)
  let point ← sig.noncePoint? id
  let w := Residue.inv sig.r
  (-(w * z) * generator + w * sig.s * Point.finite point).affine?

/-- The signature of `z` is good under a public key. -/
def Verifies (sig : Signature) (key : Affine) (z : Scalar) : Prop :=
  let w := Residue.inv sig.s
  ∃ p : Affine, w * z * generator + w * sig.r * Point.finite key = .finite p ∧
    ofCoordinate p.x = sig.r

end Signature

end NodeAdmission
