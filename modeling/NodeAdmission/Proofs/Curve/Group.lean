import Mathlib.AlgebraicGeometry.EllipticCurve.Affine.Point
import NodeAdmission.Proofs.Curve.Prime
/-!
# The group of the curve

The points of the curve, as data, are the points of a Weierstrass curve: `ofGroup` is an injection
of that curve's group onto the points that satisfy the equation, and carries its addition and its
multiples to the computed ones.
-/

namespace NodeAdmission.Curve

open WeierstrassCurve.Affine

/-! ## The points as a group -/

/-- The Weierstrass curve with the equation `y² = x³ + 7`. -/
@[simps] def curve : WeierstrassCurve.Affine Coordinate where
  a₁ := 0
  a₂ := 0
  a₃ := 0
  a₄ := 0
  a₆ := 7

@[simp] theorem curve_negY (x y : Coordinate) : curve.negY x y = -y := by simp [negY]

theorem curve_Δ_ne_zero : curve.Δ ≠ 0 := by
  have h : curve.Δ = -27 * 28 ^ 2 := by
    simp only [WeierstrassCurve.Δ, WeierstrassCurve.b₂, WeierstrassCurve.b₄, WeierstrassCurve.b₆,
      WeierstrassCurve.b₈, curve]
    ring
  rw [h]
  decide +kernel

theorem nonsingular_iff (a : Affine) : curve.Nonsingular a.x a.y ↔ a.OnCurve := by
  rw [← equation_iff_nonsingular_of_Δ_ne_zero curve_Δ_ne_zero, equation_iff, Affine.OnCurve, cubic]
  simp only [curve]
  ring_nf

/-- A point of the group as plain data. -/
def ofGroup : curve.Point → Point
  | .zero => .infinity
  | .some x y _ => .finite { x, y }

/-- A point that satisfies the equation, as a point of the group. -/
def Point.toGroup : (p : Point) → p.OnCurve → curve.Point
  | .infinity, _ => 0
  | .finite a, h => .some a.x a.y ((nonsingular_iff a).mpr h)

@[simp] theorem ofGroup_toGroup {p : Point} (h : p.OnCurve) : ofGroup (p.toGroup h) = p := by
  cases p <;> rfl

theorem ofGroup_injective : Function.Injective ofGroup := by
  rintro (_ | ⟨x₁, y₁, h₁⟩) (_ | ⟨x₂, y₂, h₂⟩) h
  · rfl
  · cases h
  · cases h
  · cases h
    rfl

@[simp] theorem ofGroup_zero : ofGroup 0 = .infinity := rfl

theorem onCurve_ofGroup (P : curve.Point) : (ofGroup P).OnCurve := by
  rcases P with _ | ⟨x, y, h⟩
  · exact trivial
  · exact (nonsingular_iff { x, y }).mp h

theorem onCurve_of_ofGroup {P : curve.Point} {a : Affine} (h : ofGroup P = .finite a) :
    a.OnCurve := by
  have hcurve := onCurve_ofGroup P
  rwa [h] at hcurve

theorem exists_ofGroup_eq_finite_iff {P : curve.Point} : (∃ a, ofGroup P = .finite a) ↔ P ≠ 0 := by
  rcases P with _ | ⟨x, y, h⟩
  · exact iff_of_false (fun ⟨_, h⟩ ↦ by cases h) (fun h ↦ h rfl)
  · exact iff_of_true ⟨_, rfl⟩ (Point.some_ne_zero h)

/-! ## The law of chord and tangent -/

theorem slope_eq {a b : Affine} (h : ¬(a.x = b.x ∧ a.y = curve.negY b.x b.y)) :
    a.slope b = curve.slope a.x b.x a.y b.y := by
  rw [Affine.slope]
  by_cases hx : a.x = b.x
  · -- Not opposite over one `x`: the slope is that of the tangent.
    have hy : a.y ≠ curve.negY b.x b.y := fun hy ↦ h ⟨hx, hy⟩
    have hnum : 3 * (a.x * a.x) =
        3 * a.x ^ 2 + 2 * curve.a₂ * a.x + curve.a₄ - curve.a₁ * a.y := by
      simp only [curve]
      ring
    have hden : 2 * a.y = a.y - curve.negY a.x a.y := by
      rw [curve_negY]
      ring
    rw [if_pos hx, slope_of_Y_ne hx hy, hnum, hden]
    rfl
  · rw [if_neg hx, slope_of_X_ne hx]
    rfl

theorem chord_eq (a b : Affine) (s : Coordinate) :
    a.chord b s = { x := curve.addX a.x b.x s, y := curve.addY a.x b.x a.y s } := by
  have hx : s * s - a.x - b.x = curve.addX a.x b.x s := by
    simp only [addX, curve]
    ring
  rw [Affine.chord, hx, addY, negAddY, curve_negY]
  congr 1
  ring

theorem add_ofGroup (P Q : curve.Point) : (ofGroup P).add (ofGroup Q) = ofGroup (P + Q) := by
  rcases P with _ | ⟨x₁, y₁, h₁⟩
  · rfl
  rcases Q with _ | ⟨x₂, y₂, h₂⟩
  · rfl
  have hopposite : y₁ + y₂ = 0 ↔ y₁ = curve.negY x₂ y₂ := by
    rw [curve_negY, eq_neg_iff_add_eq_zero]
  simp only [ofGroup, Point.add, hopposite]
  by_cases h : x₁ = x₂ ∧ y₁ = curve.negY x₂ y₂
  · rw [if_pos h, Point.add_of_Y_eq h.1 h.2]
  · rw [if_neg h, Point.add_some h, slope_eq h, chord_eq]

theorem onCurve_add {p q : Point} (hp : p.OnCurve) (hq : q.OnCurve) : (p.add q).OnCurve := by
  rw [← ofGroup_toGroup hp, ← ofGroup_toGroup hq, add_ofGroup]
  exact onCurve_ofGroup _

theorem nsmul_ofGroup (k : ℕ) (P : curve.Point) : (ofGroup P).nsmul k = ofGroup (k • P) := by
  have h := repeated_eq Point.add ofGroup add_ofGroup 0 P k
  rwa [zero_add] at h

/-- The point with the same `x` on the other side of the `x` axis. -/
def Affine.opposite (a : Affine) : Affine := { a with y := -a.y }

theorem ofGroup_neg {P : curve.Point} {a : Affine} (h : ofGroup P = .finite a) :
    ofGroup (-P) = .finite a.opposite := by
  rcases P with _ | ⟨x, y, hP⟩
  · cases h
  · cases h
    rw [Point.neg_some, ofGroup, curve_negY, Affine.opposite]

end NodeAdmission.Curve
