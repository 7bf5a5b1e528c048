import NodeAdmission.Proofs.Signature.Exactness
/-!
# No second signature with the same nonce

From a signature `(r, s)` of a hash everybody can compute `(r, -s)`, which a verification of the
plain kind accepts as well, and whoever reads a compact signature can flip the parity that its
header tells. Recovery refuses the first, as only one of `s` and `-s` is low, and takes the second
for the signature of somebody else.

What makes the two edits fail is one equation. Two signatures of one hash with one `r` that recover
to one key satisfy `s R = s' R'`, where `R` and `R'` have one `x`. So the points are equal or
opposite, and then so are the scalars; opposite ones are not both low.
-/

namespace NodeAdmission

open Curve

/-! ## Two signatures with one nonce -/

namespace Signature

variable {sig sig' : Signature} {id id' : RecoveryId} {z : Scalar} {key : Affine}

theorem not_le_half_of_add_eq_zero {s t : Scalar} (hs : s ≠ 0) (h : s + t = 0)
    (hlow : s.val ≤ (groupOrder - 1) / 2) : ¬t.val ≤ (groupOrder - 1) / 2 := by
  have hodd : groupOrder % 2 = 1 := by decide
  rw [← neg_eq_of_add_eq_zero_right h, Residue.val_neg_of_ne_zero hs]
  omega

/-- A low signature with one `r`, and one overflow bit, is determined by its key. -/
theorem eq_of_recover?_eq (hr : sig.r = sig'.r) (hx : id.xOverflow = id'.xOverflow)
    (h : sig.recover? id z = some key) (h' : sig'.recover? id' z = some key) :
    sig = sig' ∧ id = id' := by
  obtain ⟨hlow, R, hR, hkey⟩ := recover?_eq_some_iff.mp h
  obtain ⟨hlow', R', hR', hkey'⟩ := recover?_eq_some_iff.mp h'
  rw [IsNoncePoint, ← hr, ← hx] at hR'
  obtain ⟨k, rfl⟩ := exists_multiple_eq R
  obtain ⟨k', rfl⟩ := exists_multiple_eq R'
  have hk : k ≠ 0 := fun hzero ↦ hR.ne_zero (multiple_eq_zero_iff.mpr hzero)
  have hscalars : sig.s * k = sig'.s * k' := by
    have hsigner := multiple_injective <| by
      simpa only [signer_multiple] using ofGroup_injective (hkey.trans hkey'.symm)
    rw [← hr] at hsigner
    exact sub_left_injective (mul_left_cancel₀ (inv_ne_zero sig.r_ne_zero) hsigner)
  by_cases hparity : id.yOdd = id'.yOdd
  · -- One point, hence one `s`.
    rw [← hparity] at hR'
    rw [multiple_injective (hR'.unique hR)] at hscalars
    have hs : sig.s = sig'.s := mul_right_cancel₀ hk hscalars
    rcases sig with ⟨r, s, _, _⟩
    rcases sig' with ⟨r', s', _, _⟩
    rcases id with ⟨xOverflow, yOdd⟩
    rcases id' with ⟨xOverflow', yOdd'⟩
    cases hr
    cases hs
    cases hx
    cases hparity
    exact ⟨rfl, rfl⟩
  · -- Opposite points, hence an `s` and its opposite.
    have hopposite : multiple k' = -multiple k := by
      rw [Bool.eq_not.mpr (Ne.symm hparity)] at hR'
      exact hR'.unique hR.neg
    rw [← multiple_neg] at hopposite
    rw [multiple_injective hopposite, mul_neg, eq_neg_iff_add_eq_zero, ← add_mul] at hscalars
    have hsum : sig.s + sig'.s = 0 := (mul_eq_zero.mp hscalars).resolve_right hk
    exact absurd hlow' (not_le_half_of_add_eq_zero sig.s_ne_zero hsum hlow)

end Signature

/-! ## Two byte strings with one nonce -/

namespace CompactParts

variable {c c' : CompactParts}

/-- Three bits are all there is to a header in use. -/
theorem flags_eq (h : c.HeaderInRange) :
    c.flags = c.yOdd.toNat + 2 * c.xOverflow.toNat + 4 * c.compressed.toNat := by
  have hlt := flags_lt h
  rw [yOdd, xOverflow, compressed]
  generalize c.flags = flags at hlt
  interval_cases flags <;> rfl

theorem header_eq (h : c.HeaderInRange) (h' : c'.HeaderInRange) (hy : c.yOdd = c'.yOdd)
    (hx : c.xOverflow = c'.xOverflow) (hcompressed : c.compressed = c'.compressed) :
    c.header = c'.header := by
  have hflags : c.flags = c'.flags := by
    rw [flags_eq h, flags_eq h', hy, hx, hcompressed]
  have hle : 27 ≤ c.header.toNat := UInt8.le_iff_toNat_le.mp h.1
  have hle' : 27 ≤ c'.header.toNat := UInt8.le_iff_toNat_le.mp h'.1
  rw [flags, flags] at hflags
  refine UInt8.toNat_inj.mp ?_
  omega

end CompactParts

namespace CompactSignature

/-- Two byte strings tell one `x` of the nonce's point, and one form of the key. They may differ in
the parity of the nonce's point, and in `s`. -/
structure SharesNonce (bytes bytes' : List UInt8) : Prop where
  r : (bytes.drop 1).take 32 = (bytes'.drop 1).take 32
  xOverflow : (CompactParts.ofBytes bytes).xOverflow = (CompactParts.ofBytes bytes').xOverflow
  compressed : (CompactParts.ofBytes bytes).compressed = (CompactParts.ofBytes bytes').compressed

/-- The byte string with another header and the opposite `s`. -/
def negated (header : UInt8) (bytes : List UInt8) : List UInt8 :=
  header :: ((bytes.drop 1).take 32 ++ bigEndian 32 (groupOrder - (CompactParts.ofBytes bytes).s))

/-- The parts are all there is to the 65 bytes. -/
theorem toList_eq (c : CompactSignature) :
    c.octets.toList =
      c.parts.header :: (bigEndian 32 c.parts.r ++ bigEndian 32 c.parts.s) := by
  rcases c with ⟨⟨_ | ⟨header, rest⟩, h⟩⟩
  · cases h
  · have hrest : rest.length = 64 := Nat.succ.inj h
    have hr : bigEndian 32 (ofBigEndian (rest.take 32)) = rest.take 32 :=
      bigEndian_ofBigEndian (by simp [hrest])
    have hs : bigEndian 32 (ofBigEndian (rest.drop 32)) = rest.drop 32 :=
      bigEndian_ofBigEndian (by simp [hrest])
    rw [s_parts, r_parts]
    change header :: rest = header ::
      (bigEndian 32 (ofBigEndian (rest.take 32)) ++ bigEndian 32 (ofBigEndian (rest.drop 32)))
    rw [hr, hs, List.take_append_drop]

variable {hash : Hash} {bytes bytes' : List UInt8} {key key' : RecoveredKey}

theorem eq_of_point_eq (h : recoverCompact hash bytes = .ok key)
    (h' : recoverCompact hash bytes' = .ok key') (hshares : SharesNonce bytes bytes')
    (hpoint : key.point = key'.point) : bytes = bytes' := by
  obtain ⟨c, rfl, hc⟩ := recoverCompact_eq_ok_iff.mp h
  obtain ⟨c', rfl, hc'⟩ := recoverCompact_eq_ok_iff.mp h'
  obtain ⟨hheader, sig, hsig, hrecover, -⟩ := exists_of_recover_eq_ok hc
  obtain ⟨hheader', sig', hsig', hrecover', -⟩ := exists_of_recover_eq_ok hc'
  obtain ⟨hr, hs⟩ := signature?_eq_some_iff.mp hsig
  obtain ⟨hr', hs'⟩ := signature?_eq_some_iff.mp hsig'
  have hsame : sig.r = sig'.r := Fin.ext <| by
    rw [← hr, ← hr', r_parts, r_parts, hshares.r]
  rw [← hpoint] at hrecover'
  obtain ⟨rfl, hid⟩ := Signature.eq_of_recover?_eq hsame hshares.xOverflow hrecover hrecover'
  have hyOdd : c.parts.yOdd = c'.parts.yOdd := congrArg RecoveryId.yOdd hid
  rw [c.toList_eq, c'.toList_eq, hr, hs, hr', hs',
    CompactParts.header_eq hheader hheader' hyOdd hshares.xOverflow hshares.compressed]

theorem s_parts_range_of_recover {c : CompactSignature} (h : c.recover hash = .ok key) :
    1 ≤ c.parts.s ∧ c.parts.s ≤ (groupOrder - 1) / 2 := by
  obtain ⟨-, sig, hsig, hrecover, -⟩ := exists_of_recover_eq_ok h
  obtain ⟨hlow, -⟩ := (recover?_eq_some_iff_parts hsig).mp hrecover
  have hpos := sig.s_pos
  rw [← (signature?_eq_some_iff.mp hsig).2] at hpos
  exact ⟨hpos, hlow⟩

theorem recoverCompact_negated_ne_ok (h : recoverCompact hash bytes = .ok key) (header : UInt8) :
    recoverCompact hash (negated header bytes) ≠ .ok key' := by
  intro h'
  obtain ⟨c, rfl, hc⟩ := recoverCompact_eq_ok_iff.mp h
  obtain ⟨c', hbytes, hc'⟩ := recoverCompact_eq_ok_iff.mp h'
  obtain ⟨hpos, hlow⟩ := s_parts_range_of_recover hc
  have hs : c'.parts.s = groupOrder - c.parts.s := by
    have hdrop : (negated header c.octets.toList).drop 33 = bigEndian 32 (groupOrder - c.parts.s) :=
      List.drop_left' (by simp [c.octets.length_toList])
    rw [s_parts, hbytes, hdrop, ofBigEndian_bigEndian_of_lt]
    exact (Nat.sub_le _ _).trans_lt (by decide)
  have hodd : groupOrder % 2 = 1 := by decide
  have hlow' := (s_parts_range_of_recover hc').2
  omega

/-- The two signers of a hash are two keys with one identity. -/
def SignersCollide (hash : Hash) (bytes bytes' : List UInt8) : Prop :=
  ∃ key key', recoverCompact hash bytes = .ok key ∧ recoverCompact hash bytes' = .ok key' ∧
    key.serialize ≠ key'.serialize ∧ key.keyId = key'.keyId

theorem onCurve_and_compressed_of_recoverCompact (h : recoverCompact hash bytes = .ok key) :
    key.point.OnCurve ∧ key.compressed = (CompactParts.ofBytes bytes).compressed := by
  obtain ⟨c, rfl, hc⟩ := recoverCompact_eq_ok_iff.mp h
  obtain ⟨-, sig, -, hrecover, hcompressed⟩ := exists_of_recover_eq_ok hc
  exact ⟨Signature.onCurve_of_recover? hrecover, hcompressed⟩

/-- What is checked of a signer is its identity. -/
theorem eq_or_signersCollide (h : recoverCompact hash bytes = .ok key)
    (h' : recoverCompact hash bytes' = .ok key') (hshares : SharesNonce bytes bytes')
    (hid : key.keyId = key'.keyId) : bytes = bytes' ∨ SignersCollide hash bytes bytes' := by
  by_cases hpoint : key.point = key'.point
  · exact .inl (eq_of_point_eq h h' hshares hpoint)
  · refine .inr ⟨key, key', h, h', fun hserialize ↦ hpoint ?_, hid⟩
    obtain ⟨hcurve, hcompressed⟩ := onCurve_and_compressed_of_recoverCompact h
    obtain ⟨hcurve', hcompressed'⟩ := onCurve_and_compressed_of_recoverCompact h'
    have hsame : key.compressed = key'.compressed := by
      rw [hcompressed, hcompressed', hshares.compressed]
    rw [RecoveredKey.serialize, RecoveredKey.serialize, ← hsame] at hserialize
    exact Affine.eq_of_serialize_eq hcurve hcurve' hserialize

/-- Two signatures of a hash by one identity: neither is the other one negated, and if they share
the nonce, they are the same. -/
theorem not_malleable (h : recoverCompact hash bytes = .ok key)
    (h' : recoverCompact hash bytes' = .ok key') (hid : key.keyId = key'.keyId) :
    (∀ header, bytes' ≠ negated header bytes) ∧
      (SharesNonce bytes bytes' → bytes = bytes' ∨ SignersCollide hash bytes bytes') := by
  constructor
  · rintro header rfl
    exact recoverCompact_negated_ne_ok h header h'
  · intro hshares
    exact eq_or_signersCollide h h' hshares hid

end CompactSignature

end NodeAdmission
