import NodeAdmission.Proofs.Curve.Weighted
/-!
# The base point

The base point has prime order `groupOrder` in the group of the curve, so its multiples (`multiple`)
add and multiply as their scalars do.
-/

namespace NodeAdmission.Curve

theorem onCurve_generator : generator.OnCurve := by
  rw [generator, Point.OnCurve]
  decide +kernel

/-- The base point as a point of the group. -/
def base : curve.Point := generator.toGroup onCurve_generator

@[simp] theorem ofGroup_base : ofGroup base = generator := ofGroup_toGroup _

theorem groupOrder_nsmul_base : groupOrder • base = 0 := by
  have h : ((Weighted.ofPoint generator).nsmul groupOrder).z = 0 := by decide +kernel
  rw [← Weighted.toPoint_eq_infinity_iff, Weighted.toPoint_nsmul onCurve_generator, ← ofGroup_base,
    nsmul_ofGroup] at h
  exact ofGroup_injective h

theorem addOrderOf_base : addOrderOf base = groupOrder := by
  have := Fact.mk prime_groupOrder
  -- The order divides a prime and is not one.
  refine addOrderOf_eq_prime groupOrder_nsmul_base fun h ↦ ?_
  have hgenerator : generator = .infinity := by rw [← ofGroup_base, h, ofGroup_zero]
  cases hgenerator

/-! ## Multiples of the base point -/

/-- The multiple of the base point by a scalar. -/
def multiple (k : Scalar) : curve.Point := k.val • base

theorem mod_groupOrder_nsmul_base (k : ℕ) : (k % groupOrder) • base = k • base := by
  rw [← addOrderOf_base, mod_addOrderOf_nsmul]

theorem multiple_add (k l : Scalar) : multiple (k + l) = multiple k + multiple l := by
  rw [multiple, Fin.val_add, mod_groupOrder_nsmul_base, add_nsmul, multiple, multiple]

theorem nsmul_multiple (k l : Scalar) : k.val • multiple l = multiple (k * l) := by
  rw [multiple, multiple, ← mul_nsmul', Fin.val_mul, mod_groupOrder_nsmul_base]

theorem multiple_eq_zero_iff {k : Scalar} : multiple k = 0 ↔ k = 0 := by
  rw [multiple, ← addOrderOf_dvd_iff_nsmul_eq_zero, addOrderOf_base]
  constructor
  · exact fun h ↦ Fin.ext (Nat.eq_zero_of_dvd_of_lt h k.isLt)
  · rintro rfl
    exact Nat.dvd_zero _

theorem multiple_neg (k : Scalar) : multiple (-k) = -multiple k := by
  rw [eq_neg_iff_add_eq_zero, ← multiple_add, neg_add_cancel]
  exact multiple_eq_zero_iff.mpr rfl

theorem multiple_injective : Function.Injective multiple := by
  intro k l h
  rw [← sub_eq_zero, ← multiple_eq_zero_iff, sub_eq_add_neg, multiple_add, multiple_neg, h,
    add_neg_cancel]

@[simp] theorem smul_ofGroup (k : Scalar) (P : curve.Point) : k * ofGroup P = ofGroup (k.val • P) :=
  nsmul_ofGroup k.val P

@[simp] theorem ofGroup_add_ofGroup (P Q : curve.Point) : ofGroup P + ofGroup Q = ofGroup (P + Q) :=
  add_ofGroup P Q

theorem smul_generator (k : Scalar) : k * generator = ofGroup (multiple k) := by
  rw [← ofGroup_base, smul_ofGroup, multiple]

theorem onCurve_of_smul_generator {k : Scalar} {a : Affine} (h : k * generator = .finite a) :
    a.OnCurve :=
  onCurve_of_ofGroup ((smul_generator k).symm.trans h)

theorem smul_generator_neg {k : Scalar} {a : Affine} (h : k * generator = .finite a) :
    -k * generator = .finite a.opposite := by
  rw [smul_generator] at h
  rw [smul_generator, multiple_neg, ofGroup_neg h]

/-- The coordinates of a multiple of the base point, with one division. -/
theorem smul_generator_eq_toPoint (k : Scalar) :
    k * generator = ((Weighted.ofPoint generator).nsmul k.val).toPoint :=
  (Weighted.toPoint_nsmul onCurve_generator k.val).symm

/-- The nonzero scalars are those whose multiple of the base point is not infinity. -/
theorem exists_smul_generator_eq_finite_iff {k : Scalar} :
    (∃ a, k * generator = .finite a) ↔ k ≠ 0 := by
  rw [smul_generator, exists_ofGroup_eq_finite_iff, ne_eq, multiple_eq_zero_iff]

end NodeAdmission.Curve
