import NodeAdmission.Curve.Encoding
import NodeAdmission.Proofs.Curve.Base
/-!
# Points from their compressed form

A point of the curve is found from its `x` and the parity of its `y`, and nothing else is found
(`lift?_eq_some_iff`), hence from its compressed form (`ofCompressed?_compressed`). The two points
with one `x` are told apart by that parity: opposite nonzero residues have different parities, as
the modulus is odd. And there are two, since the curve does not meet the `x` axis: `-7` is not a
cube. `IsPointAt` says the same of the points of the group.
-/

namespace NodeAdmission.Curve

/-! ## No point on the axis -/

theorem cubic_ne_zero (x : Coordinate) : cubic x ≠ 0 := by
  intro h
  have hcube : x * x * x = -7 := eq_neg_of_add_eq_zero_left h
  have hresidue : Residue.pow (-7 : Coordinate) ((fieldOrder - 1) / 3) ≠ 1 := by decide +kernel
  have hx : x ≠ 0 := by
    rintro rfl
    exact absurd hcube (by decide +kernel)
  refine hresidue ?_
  rw [← hcube]
  exact Residue.pow_cube_eq_one prime_fieldOrder (by decide) hx

theorem Affine.OnCurve.y_ne_zero {a : Affine} (h : a.OnCurve) : a.y ≠ 0 := by
  intro hy
  rw [Affine.OnCurve, hy, mul_zero] at h
  exact cubic_ne_zero a.x h.symm

/-! ## Residues as bytes -/

/-- A residue is read back from 32 bytes, unless the modulus is too large for them. -/
theorem Residue.ofBigEndian_val {m : ℕ} (hm : m ≤ span 32) (a : Fin m) :
    ofBigEndian (bigEndian 32 a.val) = a.val :=
  ofBigEndian_bigEndian_of_lt (a.isLt.trans_le hm)

theorem Residue.bigEndian_val_injective {m : ℕ} (hm : m ≤ span 32) :
    Function.Injective fun a : Fin m ↦ bigEndian 32 a.val := by
  intro a b h
  have hback := congrArg ofBigEndian h
  rw [ofBigEndian_val hm, ofBigEndian_val hm] at hback
  exact Fin.ext hback

/-! ## Two points over one `x` -/

theorem Residue.val_neg_of_ne_zero {m : ℕ} [NeZero m] {a : Fin m} (h : a ≠ 0) :
    (-a).val = m - a.val := by
  rw [Fin.val_neg, if_neg h]

namespace Affine

variable {a : Affine}

theorem yIsOdd_opposite (h : a.y ≠ 0) : a.opposite.yIsOdd = !a.yIsOdd := by
  have hval : (-a.y).val = fieldOrder - a.y.val := Residue.val_neg_of_ne_zero h
  have hlt : a.y.val < fieldOrder := a.y.isLt
  have hodd : fieldOrder % 2 = 1 := by decide
  have hparity : (fieldOrder - a.y.val) % 2 = 1 ↔ ¬a.y.val % 2 = 1 := by omega
  rw [Bool.eq_iff_iff, Bool.not_eq_true', ← Bool.not_eq_true]
  simpa only [yIsOdd, opposite, hval, beq_iff_eq] using hparity

theorem onCurve_opposite (h : a.OnCurve) : a.opposite.OnCurve := by
  rw [OnCurve, opposite, neg_mul_neg]
  exact h

theorem onCurve_of_lift? {x : ℕ} {yOdd : Bool} (h : lift? x yOdd = some a) :
    a.OnCurve ∧ a.x.val = x ∧ a.yIsOdd = yOdd := by
  rw [lift?, Option.dite_none_right_eq_some] at h
  obtain ⟨hx, h⟩ := h
  obtain ⟨y, hroot, ha⟩ := Option.map_eq_some_iff.mp h
  have hcurve : OnCurve { x := ⟨x, hx⟩, y } := Residue.mul_self_of_sqrt? hroot
  by_cases hparity : yIsOdd { x := ⟨x, hx⟩, y } = yOdd
  · rw [if_pos hparity] at ha
    exact ha ▸ ⟨hcurve, rfl, hparity⟩
  · -- The point on the other side of the axis is another point, and has the other parity.
    rw [if_neg hparity] at ha
    have hflip : yIsOdd { x := ⟨x, hx⟩, y := -y } = yOdd :=
      (yIsOdd_opposite hcurve.y_ne_zero).trans (Bool.not_eq.mpr hparity)
    exact ha ▸ ⟨onCurve_opposite hcurve, rfl, hflip⟩

/-- A point of the curve is the one with its `x` and its parity. -/
theorem lift?_eq_some (h : a.OnCurve) : lift? a.x.val a.yIsOdd = some a := by
  rw [lift?, dif_pos a.x.isLt, Fin.eta, ← h]
  rcases Residue.sqrt?_mul_self prime_fieldOrder (by decide) a.y with hroot | hroot
  · rw [hroot, Option.map_some, if_pos rfl]
  · -- The root found is the other one, which the parity tells.
    have hflip : yIsOdd { x := a.x, y := -a.y } = !a.yIsOdd := yIsOdd_opposite h.y_ne_zero
    rw [hroot, Option.map_some, if_neg, neg_neg]
    rw [hflip]
    exact Bool.not_ne_self _

theorem lift?_eq_some_iff {x : ℕ} {yOdd : Bool} :
    lift? x yOdd = some a ↔ a.OnCurve ∧ a.x.val = x ∧ a.yIsOdd = yOdd := by
  constructor
  · exact onCurve_of_lift?
  · rintro ⟨hcurve, rfl, rfl⟩
    exact lift?_eq_some hcurve

/-- There is a point over `x`, and then one of either parity, exactly if `x` is a coordinate at
which the curve's equation has a solution. -/
theorem exists_lift?_eq_some_iff {x : ℕ} {yOdd : Bool} :
    (∃ a, lift? x yOdd = some a) ↔ ∃ h : x < fieldOrder, IsSquare (cubic ⟨x, h⟩) := by
  constructor
  · rintro ⟨a, ha⟩
    obtain ⟨hcurve, rfl, -⟩ := onCurve_of_lift? ha
    exact ⟨a.x.isLt, a.y, hcurve.symm⟩
  · rintro ⟨hx, y, hy⟩
    have hroot : ∃ root, Residue.sqrt? (cubic ⟨x, hx⟩) = some root := by
      rw [hy]
      exact (Residue.sqrt?_mul_self prime_fieldOrder (by decide) y).elim
        (fun h ↦ ⟨_, h⟩) fun h ↦ ⟨_, h⟩
    obtain ⟨root, hroot⟩ := hroot
    rw [lift?, dif_pos hx, hroot]
    exact ⟨_, rfl⟩

theorem ofCompressed?_compressed (h : a.OnCurve) : ofCompressed? a.compressed = some a := by
  have hx : ofBigEndian (bigEndian 32 a.x.val) = a.x.val := Residue.ofBigEndian_val (by decide) a.x
  rw [← lift?_eq_some h]
  cases hodd : a.yIsOdd <;> simp [ofCompressed?, compressed, hodd, hx]

theorem toList_compressed :
    a.compressed.toList = (if a.yIsOdd then 3 else 2) :: bigEndian 32 a.x.val := rfl

/-- Only compressed forms of points are read, each as its point. -/
theorem ofCompressed?_eq_some_iff {bytes : Octets 33} :
    ofCompressed? bytes = some a ↔ a.OnCurve ∧ a.compressed = bytes := by
  constructor
  · intro h
    -- Either tag is followed by 32 bytes, and these are the coordinate.
    have htagged : ∀ {tag : UInt8} {x : List UInt8} {yOdd : Bool}, bytes.toList = tag :: x →
        lift? (ofBigEndian x) yOdd = some a → tag = (if yOdd then 3 else 2) →
        a.OnCurve ∧ a.compressed = bytes := by
      intro tag x yOdd hbytes hlift htag
      obtain ⟨hcurve, hx, hparity⟩ := onCurve_of_lift? hlift
      have hlength : x.length = 32 := by
        have h33 := bytes.length_toList
        rw [hbytes, List.length_cons] at h33
        omega
      have hlist : a.compressed.toList = tag :: x := by
        rw [toList_compressed, hparity, hx, bigEndian_ofBigEndian hlength, htag]
      exact ⟨hcurve, Octets.ext (hlist.trans hbytes.symm)⟩
    rw [ofCompressed?] at h
    split at h
    · next x hbytes => exact htagged hbytes h rfl
    · next x hbytes => exact htagged hbytes h rfl
    · cases h
  · rintro ⟨hcurve, rfl⟩
    exact ofCompressed?_compressed hcurve

theorem ofShort?_compressed (h : a.OnCurve) : ofShort? a.compressed = some a := by
  rw [ofShort?]
  split
  · next x hbytes =>
    rw [toList_compressed] at hbytes
    have htag : (if a.yIsOdd then 3 else 2 : UInt8) = 5 := (List.cons.inj hbytes).1
    split at htag <;> cases htag
  · exact ofCompressed?_compressed h

@[simp] theorem length_serialize (compress : Bool) :
    (a.serialize compress).length = if compress then 33 else 65 := by
  cases compress
  · exact a.uncompressed.length_toList
  · exact a.compressed.length_toList

/-- In one form, two points of the curve have the same bytes only if they are the same point. -/
theorem eq_of_serialize_eq {b : Affine} (ha : a.OnCurve) (hb : b.OnCurve) {compress : Bool}
    (h : a.serialize compress = b.serialize compress) : a = b := by
  cases compress with
  | false =>
    obtain ⟨hx, hy⟩ := List.append_inj (List.cons.inj h).2 (by simp)
    have hinj : Function.Injective fun c : Coordinate ↦ bigEndian 32 c.val :=
      Residue.bigEndian_val_injective (by decide)
    exact congrArg₂ Affine.mk (hinj hx) (hinj hy)
  | true =>
    have hbytes : a.compressed = b.compressed := Octets.ext h
    exact Option.some.inj <| by
      rw [← ofCompressed?_compressed ha, hbytes, ofCompressed?_compressed hb]

end Affine

/-! ## Points of the group -/

/-- The point of the curve with a given `x` and a given parity of `y`. -/
def IsPointAt (x : ℕ) (yOdd : Bool) (R : curve.Point) : Prop :=
  ∃ a, ofGroup R = .finite a ∧ a.x.val = x ∧ a.yIsOdd = yOdd

namespace IsPointAt

variable {x : ℕ} {yOdd : Bool} {R R' : curve.Point}

theorem iff_lift? :
    IsPointAt x yOdd R ↔ ∃ a, Affine.lift? x yOdd = some a ∧ ofGroup R = .finite a := by
  constructor
  · rintro ⟨a, hR, hx, hparity⟩
    exact ⟨a, Affine.lift?_eq_some_iff.mpr ⟨onCurve_of_ofGroup hR, hx, hparity⟩, hR⟩
  · rintro ⟨a, ha, hR⟩
    obtain ⟨-, hx, hparity⟩ := Affine.lift?_eq_some_iff.mp ha
    exact ⟨a, hR, hx, hparity⟩

theorem unique (h : IsPointAt x yOdd R) (h' : IsPointAt x yOdd R') : R = R' := by
  obtain ⟨a, ha, hR⟩ := iff_lift?.mp h
  obtain ⟨b, hb, hR'⟩ := iff_lift?.mp h'
  refine ofGroup_injective ?_
  rw [hR, hR', Option.some.inj (ha.symm.trans hb)]

theorem neg (h : IsPointAt x yOdd R) : IsPointAt x (!yOdd) (-R) := by
  obtain ⟨a, hR, hx, rfl⟩ := h
  exact ⟨a.opposite, ofGroup_neg hR, hx, Affine.yIsOdd_opposite (onCurve_of_ofGroup hR).y_ne_zero⟩

theorem ne_zero (h : IsPointAt x yOdd R) : R ≠ 0 := by
  obtain ⟨a, hR, -⟩ := h
  exact exists_ofGroup_eq_finite_iff.mp ⟨a, hR⟩

/-- There is such a point as soon as `x` is a coordinate that has a point. -/
theorem exists_iff :
    (∃ R, IsPointAt x yOdd R) ↔ ∃ h : x < fieldOrder, IsSquare (cubic ⟨x, h⟩) := by
  have hlift : (∃ a, Affine.lift? x yOdd = some a) ↔
      ∃ h : x < fieldOrder, IsSquare (cubic ⟨x, h⟩) := Affine.exists_lift?_eq_some_iff
  rw [← hlift]
  constructor
  · rintro ⟨R, hR⟩
    obtain ⟨a, ha, -⟩ := iff_lift?.mp hR
    exact ⟨a, ha⟩
  · rintro ⟨a, ha⟩
    have hcurve : (Point.finite a).OnCurve := (Affine.lift?_eq_some_iff.mp ha).1
    exact ⟨_, iff_lift?.mpr ⟨a, ha, ofGroup_toGroup hcurve⟩⟩

end IsPointAt

end NodeAdmission.Curve
