import NodeAdmission.Proofs.Curve.Group
/-!
# Adding points without dividing

The law of chord and tangent divides for every sum, and a quotient costs as much as some hundred
products. A point that is kept as `x / z ^ 2` and `y / z ^ 3` is added to another one with products
only, so that a multiple takes one division at its end (`toPoint_nsmul`). Facts about multiples of
fixed points are evaluated in this form.

Brought to the denominators of `z z'`, the two `x` differ by `dx` and the two `y` by `dy`. The sum
has, up to its own denominator, these slopes:

| | `z` of the sum | slope, times that `z` |
|---|---|---|
| tangent | `2 y z` | `3 x ^ 2` |
| chord | `z z' dx` | `dy` |
-/

namespace NodeAdmission.Curve

/-! ## Two points of the curve -/

namespace Affine

variable {a b : Affine}

/-- Points over one `x` that differ are opposite. -/
theorem OnCurve.add_eq_zero (ha : a.OnCurve) (hb : b.OnCurve) (hx : a.x = b.x)
    (hy : a.y ≠ b.y) : a.y + b.y = 0 := by
  have hsquare : a.y * a.y = b.y * b.y := by
    rw [OnCurve] at ha hb
    rw [ha, hb, hx]
  exact eq_neg_iff_add_eq_zero.mp ((mul_self_eq_mul_self_iff.mp hsquare).resolve_left hy)

theorem slope_tangent (hy : a.y ≠ 0) : a.slope a * (2 * a.y) = 3 * (a.x * a.x) := by
  have htwo : (2 : Coordinate) ≠ 0 := by decide
  rw [slope, if_pos rfl]
  exact div_mul_cancel₀ _ (mul_ne_zero htwo hy)

theorem slope_chord (hx : a.x ≠ b.x) : a.slope b * (a.x - b.x) = a.y - b.y := by
  rw [slope, if_neg hx]
  exact div_mul_cancel₀ _ (sub_ne_zero.mpr hx)

end Affine

/-! ## Weighted coordinates -/

/-- The point with the coordinates `x / z ^ 2` and `y / z ^ 3`, or infinity where `z` is zero. -/
structure Weighted where
  x : Coordinate
  y : Coordinate
  z : Coordinate

namespace Weighted

/-- A point with the denominators one. -/
def ofPoint : Point → Weighted
  | .infinity => { x := 1, y := 1, z := 0 }
  | .finite a => { x := a.x, y := a.y, z := 1 }

/-- The point itself. -/
def toPoint (p : Weighted) : Point :=
  if p.z = 0 then .infinity
  else
    let w := Residue.inv p.z
    .finite { x := p.x * (w * w), y := p.y * (w * w * w) }

/-- The sum of a point with itself. -/
def double (p : Weighted) : Weighted :=
  let slope := 3 * (p.x * p.x)
  let xyy := p.x * (p.y * p.y)
  let x := slope * slope - 8 * xyy
  { x, y := slope * (4 * xyy - x) - 8 * (p.y * p.y * (p.y * p.y)), z := 2 * (p.y * p.z) }

/-- The difference of the `x`, over the denominators of both points. -/
def dx (p q : Weighted) : Coordinate := p.x * (q.z * q.z) - q.x * (p.z * p.z)

/-- The difference of the `y`, over the denominators of both points. -/
def dy (p q : Weighted) : Coordinate := p.y * (q.z * q.z * q.z) - q.y * (p.z * p.z * p.z)

/-- The sum of two points with different `x`. -/
def chord (p q : Weighted) : Weighted :=
  let d := p.dx q
  let slope := p.dy q
  let x₁ := p.x * (q.z * q.z) * (d * d)
  let x := slope * slope + d * (d * d) - 2 * x₁
  { x, y := slope * (x₁ - x) - p.y * (q.z * q.z * q.z) * (d * (d * d)), z := p.z * q.z * d }

/-- The sum of two points. -/
def add (p q : Weighted) : Weighted :=
  if p.z = 0 then q
  else if q.z = 0 then p
  else if p.dx q ≠ 0 then p.chord q
  else if p.dy q = 0 then p.double
  else ofPoint .infinity

/-- The sum of `k` copies of a point. -/
def nsmul (k : ℕ) (p : Weighted) : Weighted := repeated add (ofPoint .infinity) p k

/-! ## Reading a point -/

variable {p q : Weighted} {a b : Affine}

theorem toPoint_eq_infinity_iff : p.toPoint = .infinity ↔ p.z = 0 := by
  rw [toPoint]
  split <;> simp [*]

theorem toPoint_eq_finite_iff :
    p.toPoint = .finite a ↔ p.z ≠ 0 ∧ p.x = a.x * p.z ^ 2 ∧ p.y = a.y * p.z ^ 3 := by
  rw [toPoint]
  split
  · next hz => simp [hz]
  · next hz =>
    have hw : Residue.inv p.z = p.z⁻¹ := rfl
    rcases a with ⟨x, y⟩
    simp only [Point.finite.injEq, Affine.mk.injEq, hw, ne_eq, hz, not_false_eq_true, true_and]
    rw [← pow_two, ← pow_succ, inv_pow, inv_pow, ← div_eq_mul_inv, ← div_eq_mul_inv,
      div_eq_iff (pow_ne_zero 2 hz), div_eq_iff (pow_ne_zero 3 hz)]

@[simp] theorem toPoint_ofPoint (p : Point) : (ofPoint p).toPoint = p := by
  cases p with
  | infinity => exact toPoint_eq_infinity_iff.mpr rfl
  | finite a => exact toPoint_eq_finite_iff.mpr ⟨one_ne_zero, by simp [ofPoint], by simp [ofPoint]⟩

/-! ## One sum -/

theorem toPoint_double (hp : p.toPoint = .finite a) :
    p.double.toPoint = (Point.finite a).add (.finite a) := by
  obtain ⟨hz, hpx, hpy⟩ := toPoint_eq_finite_iff.mp hp
  have htwo : (2 : Coordinate) ≠ 0 := by decide
  rw [Point.add]
  by_cases hy : a.y = 0
  · -- The tangent is vertical.
    have hdouble : p.double.z = 0 := by simp [double, hpy, hy]
    rw [toPoint_eq_infinity_iff.mpr hdouble, if_pos ⟨rfl, by rw [hy, add_zero]⟩]
  · have hsum : a.y + a.y ≠ 0 := two_mul a.y ▸ mul_ne_zero htwo hy
    have hslope := Affine.slope_tangent hy
    rw [if_neg fun h ↦ hsum h.2]
    generalize a.slope a = s at hslope
    -- With the slope in place of `3 x ^ 2`, the coordinates are the same polynomials.
    have htangent : 3 * (p.x * p.x) = s * (2 * a.y) * p.z ^ 4 := by
      rw [hslope, hpx]
      ring
    rw [toPoint_eq_finite_iff, double, Affine.chord]
    dsimp only
    rw [htangent, hpx, hpy]
    refine ⟨mul_ne_zero htwo (mul_ne_zero (mul_ne_zero hy (pow_ne_zero 3 hz)) hz), ?_, ?_⟩
    · ring
    · ring

/-- What the differences of the weighted coordinates say of the points. -/
theorem dx_dy_eq (hp : p.toPoint = .finite a) (hq : q.toPoint = .finite b) :
    p.dx q = (a.x - b.x) * (p.z * q.z) ^ 2 ∧ p.dy q = (a.y - b.y) * (p.z * q.z) ^ 3 := by
  obtain ⟨-, hpx, hpy⟩ := toPoint_eq_finite_iff.mp hp
  obtain ⟨-, hqx, hqy⟩ := toPoint_eq_finite_iff.mp hq
  constructor
  · rw [dx, hpx, hqx]
    ring
  · rw [dy, hpy, hqy]
    ring

theorem toPoint_chord (hp : p.toPoint = .finite a) (hq : q.toPoint = .finite b) (hx : a.x ≠ b.x) :
    (p.chord q).toPoint = .finite (a.chord b (a.slope b)) := by
  obtain ⟨hpz, hpx, hpy⟩ := toPoint_eq_finite_iff.mp hp
  obtain ⟨hqz, -, -⟩ := toPoint_eq_finite_iff.mp hq
  obtain ⟨hdx, hdy⟩ := dx_dy_eq hp hq
  have hz : p.z * q.z ≠ 0 := mul_ne_zero hpz hqz
  rw [← Affine.slope_chord hx] at hdy
  rw [toPoint_eq_finite_iff, chord, Affine.chord]
  dsimp only
  rw [hdx, hdy, hpx, hpy]
  refine ⟨mul_ne_zero hz (mul_ne_zero (sub_ne_zero.mpr hx) (pow_ne_zero 2 hz)), ?_, ?_⟩
  · ring
  · ring

theorem dx_eq_zero_iff (hp : p.toPoint = .finite a) (hq : q.toPoint = .finite b) :
    p.dx q = 0 ↔ a.x = b.x := by
  have hz : p.z * q.z ≠ 0 :=
    mul_ne_zero (toPoint_eq_finite_iff.mp hp).1 (toPoint_eq_finite_iff.mp hq).1
  rw [(dx_dy_eq hp hq).1, mul_eq_zero_iff_right (pow_ne_zero 2 hz), sub_eq_zero]

theorem dy_eq_zero_iff (hp : p.toPoint = .finite a) (hq : q.toPoint = .finite b) :
    p.dy q = 0 ↔ a.y = b.y := by
  have hz : p.z * q.z ≠ 0 :=
    mul_ne_zero (toPoint_eq_finite_iff.mp hp).1 (toPoint_eq_finite_iff.mp hq).1
  rw [(dx_dy_eq hp hq).2, mul_eq_zero_iff_right (pow_ne_zero 3 hz), sub_eq_zero]

/-- On the curve, the points are added as the law of chord and tangent adds them. -/
theorem toPoint_add (hp : p.toPoint.OnCurve) (hq : q.toPoint.OnCurve) :
    (p.add q).toPoint = p.toPoint.add q.toPoint := by
  rw [add]
  rcases hpa : p.toPoint with _ | a
  · rw [if_pos (toPoint_eq_infinity_iff.mp hpa)]
    rfl
  rw [if_neg (toPoint_eq_finite_iff.mp hpa).1]
  rcases hqb : q.toPoint with _ | b
  · rw [if_pos (toPoint_eq_infinity_iff.mp hqb), hpa]
    rfl
  rw [if_neg (toPoint_eq_finite_iff.mp hqb).1]
  have hdx := dx_eq_zero_iff hpa hqb
  have hdy := dy_eq_zero_iff hpa hqb
  rw [hpa] at hp
  rw [hqb] at hq
  by_cases hx : a.x = b.x
  · rw [if_neg (not_not.mpr (hdx.mpr hx))]
    by_cases hy : a.y = b.y
    · obtain rfl : a = b := congrArg₂ Affine.mk hx hy
      rw [if_pos (hdy.mpr rfl), toPoint_double hpa]
    · have hopposite : a.y + b.y = 0 := Affine.OnCurve.add_eq_zero hp hq hx hy
      rw [if_neg (hdy.not.mpr hy), toPoint_ofPoint, Point.add, if_pos ⟨hx, hopposite⟩]
  · rw [if_pos (hdx.not.mpr hx), toPoint_chord hpa hqb hx, Point.add, if_neg fun h ↦ hx h.1]

theorem onCurve_toPoint_add (hp : p.toPoint.OnCurve) (hq : q.toPoint.OnCurve) :
    (p.add q).toPoint.OnCurve := by
  rw [toPoint_add hp hq]
  exact onCurve_add hp hq

/-! ## Multiples -/

theorem toPoint_nsmul {p : Point} (hp : p.OnCurve) (k : ℕ) :
    ((ofPoint p).nsmul k).toPoint = p.nsmul k := by
  have hinfinity : (ofPoint .infinity).toPoint.OnCurve := by
    rw [toPoint_ofPoint]
    exact trivial
  have h := map_repeated toPoint (fun p ↦ p.toPoint.OnCurve) onCurve_toPoint_add toPoint_add
    hinfinity ((toPoint_ofPoint p).symm ▸ hp) k
  rwa [toPoint_ofPoint, toPoint_ofPoint] at h

end Weighted

end NodeAdmission.Curve
