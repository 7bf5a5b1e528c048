import NodeAdmission.Proofs.Signature.Compact
/-!
# One key for one point

A node is its key, and a key is 33 bytes: keys are compared, ordered and hashed as bytes. Were there
two keys of one point, one secret could sign for two nodes. There are not: a key passes exactly if
it is the compressed form of a point (`isFullyValid_iff_exists`), and a point has one such form.

It takes the tag to say so. A key in the compact form denotes a point as well, the one that has the
compressed form with the tag `2`, and it is only for its tag that it does not pass.

## The form in numbers

`IsPointForm` says which bytes pass without speaking of points: behind the tag stands a number
below the field's order whose cube plus seven is a square modulo that order. The two tags are two
points over one number, since no such square is zero.
-/

namespace NodeAdmission

open Curve

/-- The bytes are a tag for a parity and then a number, in 32 bytes if there are 33 in all, at which
the equation of the curve has a solution. -/
def IsPointForm (bytes : List UInt8) : Prop :=
  ∃ tag x, bytes = tag :: x ∧ (tag = 2 ∨ tag = 3) ∧ ofBigEndian x < fieldOrder ∧
    ∃ y, y ^ 2 ≡ ofBigEndian x ^ 3 + 7 [MOD fieldOrder]

/-! ## Squares of residues and of numbers -/

open scoped Fin.CommRing in
theorem Curve.isSquare_cubic_iff {x : ℕ} (h : x < fieldOrder) :
    IsSquare (cubic ⟨x, h⟩) ↔ ∃ y, y ^ 2 ≡ x ^ 3 + 7 [MOD fieldOrder] := by
  have hcongr : ∀ a b : ℕ, (a : Coordinate) = (b : Coordinate) ↔ a ≡ b [MOD fieldOrder] := by
    intro a b
    rw [Fin.ext_iff, Fin.val_natCast, Fin.val_natCast, Nat.ModEq]
  have hcubic : cubic ⟨x, h⟩ = ((x ^ 3 + 7 : ℕ) : Coordinate) := by
    have hx : (⟨x, h⟩ : Coordinate) = (x : Coordinate) := Fin.ext (Nat.mod_eq_of_lt h).symm
    rw [cubic, hx]
    push_cast
    ring
  rw [hcubic]
  constructor
  · rintro ⟨y, hy⟩
    refine ⟨y.val, (hcongr _ _).mp ?_⟩
    rw [hy, Nat.cast_pow, Fin.cast_val_eq_self, pow_two]
  · rintro ⟨y, hy⟩
    refine ⟨(y : Coordinate), ?_⟩
    rw [← (hcongr _ _).mpr hy, Nat.cast_pow, pow_two]

namespace IdentityKey

variable {key key' : IdentityKey} {a : Affine}

/-! ## Keys that pass -/

theorem hasPointTag_iff :
    key.hasPointTag = true ↔ ∃ tag x, key.bytes = tag :: x ∧ (tag = 2 ∨ tag = 3) := by
  rw [hasPointTag]
  cases key.bytes <;> simp

/-- Behind a tag for a parity, the point is that of the compressed form. -/
theorem point?_of_hasPointTag (h : key.hasPointTag = true) :
    key.point? = Affine.ofCompressed? key.octets := by
  obtain ⟨tag, x, hbytes, htag⟩ := hasPointTag_iff.mp h
  rw [point?, Affine.ofShort?]
  split
  · next y hcompact =>
    -- The tag of the compact form is neither of the two.
    have hfive : tag = 5 := (List.cons.inj (hbytes.symm.trans hcompact)).1
    rcases htag with rfl | rfl <;> cases hfive
  · rfl

/-- The key of a point is the point's compressed form. -/
theorem isFullyValid_and_point?_eq_some_iff :
    key.isFullyValid = true ∧ key.point? = some a ↔ a.OnCurve ∧ a.compressed = key.octets := by
  rw [← Affine.ofCompressed?_eq_some_iff]
  constructor
  · rintro ⟨hvalid, hpoint⟩
    rw [← point?_of_hasPointTag (Bool.and_eq_true_iff.mp hvalid).1, hpoint]
  · intro h
    have htag := hasPointTag_of_compressed (Affine.ofCompressed?_eq_some_iff.mp h).2
    have hpoint : key.point? = some a := (point?_of_hasPointTag htag).trans h
    refine ⟨?_, hpoint⟩
    rw [isFullyValid, htag, hpoint]
    rfl

theorem isFullyValid_iff_exists :
    key.isFullyValid = true ↔ ∃ a : Affine, a.OnCurve ∧ a.compressed = key.octets := by
  simp only [← isFullyValid_and_point?_eq_some_iff, exists_and_left]
  constructor
  · intro h
    exact ⟨h, Option.isSome_iff_exists.mp (Bool.and_eq_true_iff.mp h).2⟩
  · exact fun h ↦ h.1

/-- Behind a tag for a parity, whether there is a point is a question about the number alone. -/
theorem exists_point?_iff {tag : UInt8} {x : List UInt8} (hbytes : key.bytes = tag :: x)
    (htag : tag = 2 ∨ tag = 3) :
    (∃ a, key.point? = some a) ↔ ∃ h : ofBigEndian x < fieldOrder, IsSquare (cubic ⟨_, h⟩) := by
  have hlift : ∃ yOdd, key.point? = Affine.lift? (ofBigEndian x) yOdd := by
    rw [point?_of_hasPointTag (hasPointTag_iff.mpr ⟨tag, x, hbytes, htag⟩), Affine.ofCompressed?]
    rw [bytes] at hbytes
    rcases htag with rfl | rfl
    · rw [hbytes]
      exact ⟨false, rfl⟩
    · rw [hbytes]
      exact ⟨true, rfl⟩
  obtain ⟨yOdd, hpoint⟩ := hlift
  rw [hpoint]
  exact Affine.exists_lift?_eq_some_iff

/-- Which keys pass, in numbers. -/
theorem isFullyValid_iff_isPointForm : key.isFullyValid = true ↔ IsPointForm key.bytes := by
  rw [isFullyValid, Bool.and_eq_true_iff, Option.isSome_iff_exists, hasPointTag_iff]
  constructor
  · rintro ⟨⟨tag, x, hbytes, htag⟩, hpoint⟩
    obtain ⟨hlt, hsquare⟩ := (exists_point?_iff hbytes htag).mp hpoint
    exact ⟨tag, x, hbytes, htag, hlt, (isSquare_cubic_iff hlt).mp hsquare⟩
  · rintro ⟨tag, x, hbytes, htag, hlt, hsquare⟩
    have hpoint := (exists_point?_iff hbytes htag).mpr ⟨hlt, (isSquare_cubic_iff hlt).mpr hsquare⟩
    exact ⟨⟨tag, x, hbytes, htag⟩, hpoint⟩

theorem compare_self (key : IdentityKey) : compare key key = .eq :=
  Std.ReflOrd.compare_self (a := key.bytes)

/-! ## Keys of one point -/

theorem eq_of_point?_eq (h : key.isFullyValid = true) (h' : key'.isFullyValid = true)
    (hpoint : key.point? = key'.point?) : key = key' := by
  obtain ⟨a, hcurve, hkey⟩ := isFullyValid_iff_exists.mp h
  have ha := (isFullyValid_and_point?_eq_some_iff.mpr ⟨hcurve, hkey⟩).2
  obtain ⟨-, hkey'⟩ := isFullyValid_and_point?_eq_some_iff.mp ⟨h', hpoint ▸ ha⟩
  exact IdentityKey.ext (hkey.symm.trans hkey')

/-- **One key for one point.** A key passes exactly if its bytes are a tag for a parity and a number
at which the equation of the curve has a solution. Two keys of one point that pass are the same
bytes, and so cannot be told apart by any comparison or hash; the point gives these bytes back in
compressed form. Every point has such a key, and a key pair's public key is the one of its point. -/
theorem one_for_each_point :
    (∀ key : IdentityKey, key.isFullyValid = true ↔ IsPointForm key.bytes) ∧
    (∀ key key' : IdentityKey, key.isFullyValid = true → key'.isFullyValid = true →
      key.point? = key'.point? →
      key.bytes = key'.bytes ∧ key = key' ∧ compare key key' = .eq ∧ key.keyId = key'.keyId) ∧
    (∀ (key : IdentityKey) (a : Affine), key.isFullyValid = true → key.point? = some a →
      a.compressed.toList = key.bytes) ∧
    (∀ a : Affine, a.OnCurve →
      ∃! key : IdentityKey, key.isFullyValid = true ∧ key.point? = some a) ∧
    ∀ pair : KeyPair, pair.publicKey.isFullyValid = true ∧
      pair.publicKey.point? = some pair.point := by
  refine ⟨fun _ ↦ isFullyValid_iff_isPointForm, ?_, ?_, ?_, ?_⟩
  · intro key key' h h' hpoint
    obtain rfl := eq_of_point?_eq h h' hpoint
    exact ⟨rfl, rfl, key.compare_self, rfl⟩
  · intro key a h hpoint
    obtain ⟨-, hkey⟩ := isFullyValid_and_point?_eq_some_iff.mp ⟨h, hpoint⟩
    exact congrArg Octets.toList hkey
  · intro a hcurve
    refine ⟨⟨a.compressed⟩, isFullyValid_and_point?_eq_some_iff.mpr ⟨hcurve, rfl⟩, ?_⟩
    rintro key hkey
    obtain ⟨-, hoctets⟩ := isFullyValid_and_point?_eq_some_iff.mp hkey
    exact IdentityKey.ext hoctets.symm
  · intro pair
    exact ⟨pair.isFullyValid_publicKey, pair.point?_publicKey⟩

/-- The base point's number behind a tag. -/
def ofBase (tag : UInt8) : IdentityKey where
  octets := ⟨tag :: bigEndian 32
    0x79BE667EF9DCBBAC55A06295CE870B07029BFCDB2DCE28D959F2815B16F81798, by simp⟩

/-- The base point has a key in the compact form too, which does not pass. The one that passes is
also the public key of the secret one. -/
theorem one_for_each_point_base :
    (ofBase 5).point? = generator.affine? ∧ ¬IsPointForm (ofBase 5).bytes ∧
      ∃ a, generator = .finite a ∧ a.OnCurve ∧ a.compressed.toList = (ofBase 2).bytes ∧
        (∃! key : IdentityKey, key.isFullyValid = true ∧ key.point? = some a) ∧
        ∃ pair, KeyPair.ofSecret? (.ofNat 32 1) true = .ok pair ∧
          pair.publicKey.isFullyValid = true ∧ (ofBase 2).isFullyValid = true ∧
          pair.publicKey.point? = (ofBase 2).point? ∧ compare pair.publicKey (ofBase 2) = .eq := by
  obtain ⟨hform, hsame, hback, honly, hpair⟩ := one_for_each_point
  have hcompact : (ofBase 5).point? = generator.affine? ∧ (ofBase 5).isFullyValid = false := by
    decide +kernel
  have hbase : (ofBase 2).point? = generator.affine? ∧ (ofBase 2).isFullyValid = true := by
    decide +kernel
  obtain ⟨pair, hsecret, hval, -⟩ :=
    @KeyPair.exists_ofSecret?_eq_ok (.ofNat 32 1) (by decide) (by decide) true
  have hunit : (1 : Scalar) * generator = generator := by decide +kernel
  have hpoint : .finite pair.point = generator := by
    have hone : pair.secret = 1 := Fin.ext hval
    rw [← pair.smul_generator, hone, hunit]
  obtain ⟨hvalid, hpublic⟩ := hpair pair
  have hequal : pair.publicKey.point? = (ofBase 2).point? := by
    rw [hpublic, hbase.1, ← hpoint]
    rfl
  have hcurve : pair.point.OnCurve := onCurve_of_smul_generator pair.smul_generator
  refine ⟨hcompact.1, ?_, pair.point, hpoint.symm, hcurve, ?_, honly _ hcurve, pair, hsecret,
    hvalid, hbase.2, hequal, (hsame _ _ hvalid hbase.2 hequal).2.2.1⟩
  · rw [← hform, hcompact.2]
    exact Bool.false_ne_true
  · exact hback _ _ hbase.2 (hequal.symm.trans hpublic)

end IdentityKey

end NodeAdmission
