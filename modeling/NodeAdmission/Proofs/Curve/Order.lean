import Mathlib.GroupTheory.Perm.Cycle.Type
import Mathlib.GroupTheory.SpecificGroups.Cyclic.Basic
import NodeAdmission.Proofs.Curve.Encoding
/-!
# The number of points

The curve has no other points than the multiples of its base point (`exists_multiple_eq`), so
whatever holds of scalars holds of points. The number of points is counted without enumerating them:

* it is a multiple of the order of the base point, which is a prime;
* it is less than three times that, as a point other than infinity is given by its `x` and a parity;
* it is not twice that, as a point of order two would lie on the `x` axis.
-/

namespace NodeAdmission.Curve

/-- A point other than infinity by its `x` and the parity of its `y`. -/
def xAndParity (P : curve.Point) : Option (Coordinate × Bool) :=
  (ofGroup P).affine?.map fun a ↦ (a.x, a.yIsOdd)

theorem xAndParity_eq_some_iff {P : curve.Point} {x : Coordinate} {yOdd : Bool} :
    xAndParity P = some (x, yOdd) ↔ IsPointAt x.val yOdd P := by
  rw [xAndParity, IsPointAt]
  cases ofGroup P <;> simp [Point.affine?, Fin.ext_iff]

theorem xAndParity_eq_none_iff {P : curve.Point} : xAndParity P = none ↔ P = 0 := by
  rw [← not_ne_iff (a := P), ← exists_ofGroup_eq_finite_iff, xAndParity]
  cases ofGroup P <;> simp [Point.affine?]

theorem xAndParity_injective : Function.Injective xAndParity := by
  intro P Q h
  rcases hP : xAndParity P with _ | ⟨x, yOdd⟩
  · rw [hP] at h
    rw [xAndParity_eq_none_iff.mp hP, xAndParity_eq_none_iff.mp h.symm]
  · rw [hP] at h
    exact (xAndParity_eq_some_iff.mp hP).unique (xAndParity_eq_some_iff.mp h.symm)

instance : Finite curve.Point := .of_injective xAndParity xAndParity_injective

theorem card_points_le : Nat.card curve.Point ≤ 2 * fieldOrder + 1 := by
  have h := Nat.card_le_card_of_injective xAndParity xAndParity_injective
  have hbool : Nat.card Bool = 2 := Nat.card_eq_fintype_card
  rwa [Finite.card_option, Nat.card_prod, Nat.card_fin, hbool, mul_comm] at h

theorem ne_neg_self {P : curve.Point} (h : P ≠ 0) : P ≠ -P := by
  intro hself
  obtain ⟨⟨x, yOdd⟩, hP⟩ := Option.ne_none_iff_exists'.mp (xAndParity_eq_none_iff.not.mpr h)
  have hneg := xAndParity_eq_some_iff.mpr (xAndParity_eq_some_iff.mp hP).neg
  rw [← hself, hP] at hneg
  exact Bool.not_ne_self yOdd (Prod.mk.inj (Option.some.inj hneg)).2.symm

theorem not_two_dvd_card_points : ¬2 ∣ Nat.card curve.Point := by
  intro h
  have := Fact.mk Nat.prime_two
  obtain ⟨P, hP⟩ := exists_prime_addOrderOf_dvd_card' 2 h
  have hdouble : P + P = 0 := by
    rw [← two_nsmul, ← hP, addOrderOf_nsmul_eq_zero]
  refine ne_neg_self ?_ (eq_neg_of_add_eq_zero_left hdouble)
  rintro rfl
  rw [addOrderOf_zero] at hP
  cases hP

theorem card_points : Nat.card curve.Point = groupOrder := by
  obtain ⟨cofactor, hcard⟩ : groupOrder ∣ Nat.card curve.Point :=
    addOrderOf_base ▸ addOrderOf_dvd_natCard base
  have hsmall : 2 * fieldOrder + 1 < groupOrder * 3 := by decide
  have hpos : 0 < Nat.card curve.Point := Nat.card_pos
  have hlt : cofactor < 3 := by
    have hle := card_points_le
    rw [hcard] at hle
    exact Nat.lt_of_mul_lt_mul_left (hle.trans_lt hsmall)
  obtain rfl | rfl | rfl : cofactor = 0 ∨ cofactor = 1 ∨ cofactor = 2 := by omega
  · rw [hcard, mul_zero] at hpos
    exact absurd hpos (lt_irrefl 0)
  · rw [hcard, mul_one]
  · exact absurd ⟨groupOrder, hcard.trans (mul_comm _ _)⟩ not_two_dvd_card_points

/-- Every point of the curve is a multiple of the base point. -/
theorem exists_multiple_eq (P : curve.Point) : ∃ k, multiple k = P := by
  have := Fact.mk prime_groupOrder
  have hbase : base ≠ 0 := by
    intro h
    rw [← AddMonoid.addOrderOf_eq_one_iff, addOrderOf_base] at h
    exact prime_groupOrder.ne_one h
  obtain ⟨k, hk⟩ : P ∈ AddSubmonoid.multiples base := mem_multiples_of_prime_card card_points hbase
  exact ⟨Fin.ofNat groupOrder k, (mod_groupOrder_nsmul_base k).trans hk⟩

end NodeAdmission.Curve
