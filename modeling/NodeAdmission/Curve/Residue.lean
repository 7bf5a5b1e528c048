/-!
# Residues modulo a prime

Arithmetic modulo `m` is that of `Fin m`. This module adds the three operations the curve needs
beside addition and multiplication: powers by repeated squaring, the inverse by the extended
Euclidean algorithm, and the square root for a modulus that leaves remainder three modulo four.

## The inverse

The remainders `r` of Euclid's algorithm on `m` and `a` come with coefficients `t` such that
`a * t` is `r` or `-r` modulo `m`, the sign alternating from step to step. The coefficients are kept
as magnitudes, so each step costs one division and one multiplication, and the sign is settled once
at the end.
-/

namespace NodeAdmission.Curve

/-! ## Repetition by halving -/

/-- Applies `op` to `start` and `count` copies of `x`, doubling `x` while it halves the count. -/
@[specialize]
def repeated {α : Type} (op : α → α → α) (start x : α) (count : Nat) : α :=
  if count = 0 then start
  else
    repeated op (if count % 2 = 1 then op start x else start)
      (if count = 1 then x else op x x) (count / 2)
termination_by count
decreasing_by omega

namespace Residue

variable {m : Nat}

/-- A number as a residue. The modulus is that of the residue `a`, which is why it is not zero. -/
def reduce (a : Fin m) (k : Nat) : Fin m := ⟨k % m, Nat.mod_lt k a.pos⟩

/-- The power of a residue. -/
def pow (a : Fin m) (k : Nat) : Fin m := repeated (· * ·) (reduce a 1) a k

/-! ## The inverse -/

/-- Euclid's algorithm on `r₀` and `r₁`, with the coefficients `t₀` and `t₁` of the two remainders.
The answer is the coefficient of the last remainder that is not zero, and whether it is negative. -/
def lastCoefficient (r₀ r₁ t₀ t₁ : Nat) (negative : Bool) : Nat × Bool :=
  if r₁ = 0 then (t₀, negative)
  else lastCoefficient r₁ (r₀ % r₁) t₁ (t₀ + r₀ / r₁ * t₁) !negative
termination_by r₁
decreasing_by exact Nat.mod_lt _ (Nat.pos_of_ne_zero ‹_›)

/-- The inverse of a residue that is coprime to the modulus; zero has the inverse zero. -/
def inv (a : Fin m) : Fin m :=
  match lastCoefficient m a.val 0 1 true with
  | (t, false) => reduce a t
  | (t, true) => -reduce a t

/-! ## The square root -/

/-- A square root of `a`, if it has one, for a prime modulus of the form `4 k + 3`. -/
def sqrt? (a : Fin m) : Option (Fin m) :=
  let root := pow a ((m + 1) / 4)
  if root * root = a then some root else none

end Residue

end NodeAdmission.Curve
