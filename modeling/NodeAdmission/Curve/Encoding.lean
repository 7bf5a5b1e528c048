import NodeAdmission.Bytes
import NodeAdmission.Curve.Point
/-!
# Points as bytes

A point is written compressed, as the parity of `y` and the number `x`, or in full as both
coordinates. Of the forms that are read here, those of 33 bytes, the compressed one is the one that
every point of the curve has exactly once. The compact form leaves the parity out: it stands for the
even `y`, which has a compressed form too.
-/

namespace NodeAdmission.Curve.Affine

/-- The compressed form: `2` or `3` for an even or odd `y`, then `x`. -/
def compressed (a : Affine) : Octets 33 where
  toList := (if a.yIsOdd then 3 else 2) :: bigEndian 32 a.x.val
  length_toList := by simp

/-- The full form: `4`, then `x` and `y`. -/
def uncompressed (a : Affine) : Octets 65 where
  toList := 4 :: (bigEndian 32 a.x.val ++ bigEndian 32 a.y.val)
  length_toList := by simp

/-- The bytes of the compressed or the full form. -/
def serialize (a : Affine) (compress : Bool) : List UInt8 :=
  if compress then a.compressed.toList else a.uncompressed.toList

/-- The point of the curve whose compressed form the bytes are. -/
def ofCompressed? (bytes : Octets 33) : Option Affine :=
  match bytes.toList with
  | 2 :: x => lift? (ofBigEndian x) false
  | 3 :: x => lift? (ofBigEndian x) true
  | _ => none

/-- The point of the curve for which 33 bytes stand, in the compressed form or in the compact one:
`5`, then `x`. -/
def ofShort? (bytes : Octets 33) : Option Affine :=
  match bytes.toList with
  | 5 :: x => lift? (ofBigEndian x) false
  | _ => ofCompressed? bytes

end NodeAdmission.Curve.Affine
