import NodeAdmission.Curve.Residue
/-!
# The curve secp256k1

The points of `y² = x³ + 7` over the field of `fieldOrder` elements, with the chord and tangent law.
A `Point` is plain data; `Point.OnCurve` says which points belong to the curve.
-/

namespace NodeAdmission.Curve

/-! ## Parameters -/

/-- The number of elements of the coordinate field, `2 ^ 256 - 2 ^ 32 - 977`. -/
def fieldOrder : Nat := 0xFFFFFFFFFFFFFFFFFFFFFFFFFFFFFFFFFFFFFFFFFFFFFFFFFFFFFFFEFFFFFC2F

/-- The number of points of the curve, infinity included. -/
def groupOrder : Nat := 0xFFFFFFFFFFFFFFFFFFFFFFFFFFFFFFFEBAAEDCE6AF48A03BBFD25E8CD0364141

instance : @NeZero Nat Zero.ofOfNat0 fieldOrder := ⟨Nat.succ_ne_zero _⟩

instance : @NeZero Nat Zero.ofOfNat0 groupOrder := ⟨Nat.succ_ne_zero _⟩

/-- An element of the coordinate field. -/
abbrev Coordinate := Fin fieldOrder

/-- A multiplier of points, which counts modulo the group order. -/
abbrev Scalar := Fin groupOrder

/-! ## Points -/

/-- The two coordinates of a point other than infinity. -/
structure Affine where
  /-- The horizontal coordinate. -/
  x : Coordinate
  /-- The vertical coordinate. -/
  y : Coordinate
deriving DecidableEq

/-- A point of the plane, or the point at infinity. -/
inductive Point where
  | infinity
  | finite (a : Affine)
deriving DecidableEq

/-- The right-hand side of the curve's equation. -/
def cubic (x : Coordinate) : Coordinate := x * x * x + 7

/-- The point satisfies the equation of the curve. -/
def Affine.OnCurve (a : Affine) : Prop := a.y * a.y = cubic a.x

instance (a : Affine) : Decidable a.OnCurve := inferInstanceAs (Decidable (_ = _))

/-- The point satisfies the equation of the curve, or is the point at infinity. -/
def Point.OnCurve : Point → Prop
  | .infinity => True
  | .finite a => a.OnCurve

/-- The base point of signatures. -/
def generator : Point := .finite
  { x := 0x79BE667EF9DCBBAC55A06295CE870B07029BFCDB2DCE28D959F2815B16F81798
    y := 0x483ADA7726A3C4655DA4FBFC0E1108A8FD17B448A68554199C47D08FFB10D4B8 }

namespace Affine

/-- The slope of the line through two points, or of the tangent where they have one `x`. -/
def slope (a b : Affine) : Coordinate :=
  if a.x = b.x then 3 * (a.x * a.x) * Residue.inv (2 * a.y)
  else (a.y - b.y) * Residue.inv (a.x - b.x)

/-- The third point of the line of slope `s` through two points, reflected in the `x` axis. -/
def chord (a b : Affine) (s : Coordinate) : Affine :=
  let x := s * s - a.x - b.x
  { x, y := s * (a.x - x) - a.y }

end Affine

namespace Point

/-- The sum of two points. Two points with one `x` are opposite or equal. -/
def add : Point → Point → Point
  | .infinity, q => q
  | p, .infinity => p
  | .finite a, .finite b =>
    if a.x = b.x ∧ a.y + b.y = 0 then .infinity else .finite (a.chord b (a.slope b))

instance : Add Point := ⟨add⟩

/-- The sum of `k` copies of a point. -/
def nsmul (k : Nat) (p : Point) : Point := repeated add .infinity p k

/-- The multiple of a point. -/
def smul (k : Scalar) (p : Point) : Point := nsmul k.val p

instance : HMul Scalar Point Point := ⟨smul⟩

/-- The coordinates of a point other than infinity. -/
def affine? : Point → Option Affine
  | .infinity => none
  | .finite a => some a

end Point

/-- The second coordinate is odd as a number. -/
def Affine.yIsOdd (a : Affine) : Bool := a.y.val % 2 == 1

/-- The point of the curve with the given `x` and the given parity of `y`. -/
def Affine.lift? (x : Nat) (yOdd : Bool) : Option Affine :=
  if h : x < fieldOrder then
    (Residue.sqrt? (cubic ⟨x, h⟩)).map fun y ↦
      let a : Affine := { x := ⟨x, h⟩, y }
      if a.yIsOdd = yOdd then a else { a with y := -y }
  else none

end NodeAdmission.Curve
