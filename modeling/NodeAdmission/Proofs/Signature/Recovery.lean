import NodeAdmission.Proofs.Curve.Encoding
import NodeAdmission.Signature.Ecdsa
/-!
# Recovery inverts signing

A signature that was made with some nonce has its public key recovered from it, and is good under
that key. Whether `s` was replaced by `-s` does not matter: the replaced signature is the one that
the opposite nonce gives, and its identifier names the opposite nonce's point (`OfNonce`).
-/

namespace NodeAdmission.Signature

open Curve

variable {secret nonce z : Scalar} {key : Affine} {sig : Signature} {id : RecoveryId}

theorem r_pos (sig : Signature) : 0 < sig.r.val :=
  Nat.pos_of_ne_zero fun h ↦ sig.r_ne_zero (Fin.ext h)

theorem s_pos (sig : Signature) : 0 < sig.s.val :=
  Nat.pos_of_ne_zero fun h ↦ sig.s_ne_zero (Fin.ext h)

theorem isLow_neg {s : Scalar} (h : isLow s = false) : isLow (-s) = true := by
  simp only [isLow, decide_eq_false_iff_not, decide_eq_true_iff] at h ⊢
  have hodd : groupOrder % 2 = 1 := by decide
  have hs : s ≠ 0 := by
    rintro rfl
    exact h (Nat.zero_le _)
  rw [Residue.val_neg_of_ne_zero hs]
  omega

/-! ## The nonce's point, from `r` and the identifier -/

/-- The overflow bit says how often the group order was taken off an `x` coordinate. -/
theorem ofCoordinate_val_add (x : Coordinate) :
    (ofCoordinate x).val + (if decide (groupOrder ≤ x.val) then groupOrder else 0) = x.val := by
  have hlt : x.val < fieldOrder := x.isLt
  have hfield : fieldOrder < 2 * groupOrder := by decide
  have hval : (ofCoordinate x).val = x.val % groupOrder := rfl
  rw [hval]
  by_cases h : groupOrder ≤ x.val
  · rw [if_pos (decide_eq_true h), Nat.mod_eq_sub_mod h, Nat.mod_eq_of_lt (by omega)]
    omega
  · rw [if_neg (by simpa using h), Nat.mod_eq_of_lt (by omega), Nat.add_zero]

/-! ## Signatures by their nonce -/

/-- The signature and the identifier are what the nonce gives, where `s` need not be low. -/
structure OfNonce (sig : Signature) (id : RecoveryId) (nonce secret z : Scalar) (point : Affine) :
    Prop where
  /-- The nonce's point. -/
  smul_generator : nonce * generator = .finite point
  /-- The first part is the point's `x`. -/
  r_eq : sig.r = ofCoordinate point.x
  /-- The second part binds the message to the secret. -/
  mul_s : nonce * sig.s = z + sig.r * secret
  /-- The identifier is the point's. -/
  id_eq : id = { xOverflow := groupOrder ≤ point.x.val, yOdd := point.yIsOdd }

namespace OfNonce

variable {point : Affine}

theorem noncePoint?_eq_some (h : OfNonce sig id nonce secret z point) :
    sig.noncePoint? id = some point := by
  rw [noncePoint?, h.r_eq, h.id_eq, ofCoordinate_val_add]
  exact Affine.lift?_eq_some (onCurve_of_smul_generator h.smul_generator)

theorem recover?_eq_some (h : OfNonce sig id nonce secret z point) (hlow : isLow sig.s = true)
    (hkey : secret * generator = .finite key) : sig.recover? id z = some key := by
  have hscalar : -(sig.r⁻¹ * z) + sig.r⁻¹ * sig.s * nonce = secret := by
    calc -(sig.r⁻¹ * z) + sig.r⁻¹ * sig.s * nonce
        = sig.r⁻¹ * (nonce * sig.s - z) := by ring
      _ = sig.r⁻¹ * (sig.r * secret) := by rw [h.mul_s, add_sub_cancel_left]
      _ = secret := inv_mul_cancel_left₀ sig.r_ne_zero secret
  -- The nonce's point is a multiple of the base point too, so the scalars alone are to be added.
  have hsum : -(sig.r⁻¹ * z) * generator + sig.r⁻¹ * sig.s * Point.finite point = .finite key := by
    rw [← h.smul_generator, Curve.smul_generator, Curve.smul_generator, smul_ofGroup,
      nsmul_multiple, ofGroup_add_ofGroup, ← multiple_add, hscalar, ← Curve.smul_generator, hkey]
  rw [recover?, h.noncePoint?_eq_some, hlow]
  exact congrArg Point.affine? hsum

theorem verifies (h : OfNonce sig id nonce secret z point)
    (hkey : secret * generator = .finite key) : sig.Verifies key z := by
  have hscalar : sig.s⁻¹ * z + sig.s⁻¹ * sig.r * secret = nonce := by
    calc sig.s⁻¹ * z + sig.s⁻¹ * sig.r * secret
        = sig.s⁻¹ * (z + sig.r * secret) := by ring
      _ = sig.s⁻¹ * (sig.s * nonce) := by rw [← h.mul_s, mul_comm nonce]
      _ = nonce := inv_mul_cancel_left₀ sig.s_ne_zero nonce
  refine ⟨point, ?_, h.r_eq.symm⟩
  change sig.s⁻¹ * z * generator + sig.s⁻¹ * sig.r * Point.finite key = .finite point
  rw [← hkey, Curve.smul_generator, Curve.smul_generator, smul_ofGroup, nsmul_multiple,
    ofGroup_add_ofGroup, ← multiple_add, hscalar, ← Curve.smul_generator, h.smul_generator]

end OfNonce

theorem affine?_eq_some_iff {p : Point} {a : Affine} : p.affine? = some a ↔ p = .finite a := by
  cases p <;> simp [Point.affine?]

/-- What is signed with a nonce, before and after the choice of the low `s`. -/
theorem exists_of_ofNonce?_eq_some (h : ofNonce? nonce secret z = some (sig, id)) :
    ∃ point s, nonce * generator = .finite point ∧ sig.r = ofCoordinate point.x ∧
      nonce * s = z + sig.r * secret ∧ sig.s = (if !isLow s then -s else s) ∧
      id = { xOverflow := groupOrder ≤ point.x.val, yOdd := point.yIsOdd != !isLow s } := by
  simp only [ofNonce?, Option.bind_eq_bind, Option.bind_eq_some_iff, affine?_eq_some_iff,
    Option.dite_none_right_eq_some, Option.some.injEq, Prod.mk.injEq] at h
  obtain ⟨point, hpoint, hne, rfl, rfl⟩ := h
  have hnonce : nonce ≠ 0 := exists_smul_generator_eq_finite_iff.mp ⟨point, hpoint⟩
  exact ⟨point, _, hpoint, rfl, mul_inv_cancel_left₀ hnonce _, rfl, rfl⟩

/-- The signature is low, and it is the signature of the nonce or of its opposite. -/
theorem isLow_and_exists_ofNonce (h : ofNonce? nonce secret z = some (sig, id)) :
    isLow sig.s = true ∧ ∃ k point, OfNonce sig id k secret z point := by
  obtain ⟨point, s, hpoint, hr, hs, hsig, rfl⟩ := exists_of_ofNonce?_eq_some h
  rcases hlow : isLow s with _ | _
  · -- The nonce that gives `-s` is `-nonce`, and its point has the other parity.
    have hneg : sig.s = -s := by simpa [hlow] using hsig
    refine ⟨hneg ▸ isLow_neg hlow, -nonce, point.opposite, ?_, hr, ?_, ?_⟩
    · exact smul_generator_neg hpoint
    · rw [hneg, neg_mul_neg, hs]
    · rw [Affine.yIsOdd_opposite (onCurve_of_smul_generator hpoint).y_ne_zero, Bool.not_false,
        Bool.bne_true]
      rfl
  · have hsame : sig.s = s := by simpa [hlow] using hsig
    refine ⟨hsame ▸ hlow, nonce, point, hpoint, hr, ?_, ?_⟩
    · rw [hsame, hs]
    · rw [Bool.not_true, Bool.bne_false]

end NodeAdmission.Signature
