import NodeAdmission.Proofs.Curve.Order
import NodeAdmission.Proofs.Signature.Compact
/-!
# What is recovered, exactly

Recovery is computed on plain coordinates. Here it is described in the group of the curve: `R` is
the point with the `x` and the parity that the signature tells, and the key is `r⁻¹ (s R - z G)`
(`signer`). All points are multiples of the base point, so whatever `R` is, it is the nonce's point
of a signature that the recovered key's owner could have made (`exists_ofNonce`). Hence a recovered
key always verifies, and the one thing that a verification could still refuse is a high `s`.

```text
65 bytes?  header?  r, s in range?  s low, R on the curve, key finite?   key
    │          │           │                       │
 length     header      format                 recovery                  (first failure)
```
-/

namespace NodeAdmission

open Curve

/-! ## The recovered key -/

namespace Signature

/-- The public key `r⁻¹ (s R - z G)`. -/
def signer (r s z : Scalar) (R : curve.Point) : curve.Point :=
  r⁻¹.val • (s.val • R - z.val • base)

theorem signer_multiple (r s z k : Scalar) :
    signer r s z (multiple k) = multiple (r⁻¹ * (s * k - z)) := by
  have hz : z.val • base = multiple z := rfl
  rw [signer, hz, nsmul_multiple, sub_eq_add_neg, ← multiple_neg, ← multiple_add,
    ← sub_eq_add_neg, nsmul_multiple]

variable {sig : Signature} {id : RecoveryId} {z : Scalar} {key : Affine}

/-- The nonce's point, as the signature and the identifier tell it. -/
def IsNoncePoint (sig : Signature) (id : RecoveryId) (R : curve.Point) : Prop :=
  IsPointAt (sig.r.val + if id.xOverflow then groupOrder else 0) id.yOdd R

/-- The computed sum is the key. -/
theorem add_smul_ofGroup_eq (R : curve.Point) :
    -(sig.r⁻¹ * z) * generator + sig.r⁻¹ * sig.s * ofGroup R =
      ofGroup (signer sig.r sig.s z R) := by
  obtain ⟨k, rfl⟩ := exists_multiple_eq R
  have hscalar : -(sig.r⁻¹ * z) + sig.r⁻¹ * sig.s * k = sig.r⁻¹ * (sig.s * k - z) := by ring
  rw [Curve.smul_generator, smul_ofGroup, nsmul_multiple, ofGroup_add_ofGroup, ← multiple_add,
    hscalar, signer_multiple]

theorem recover?_eq_some_iff :
    sig.recover? id z = some key ↔ sig.s.val ≤ (groupOrder - 1) / 2 ∧
      ∃ R, sig.IsNoncePoint id R ∧ ofGroup (signer sig.r sig.s z R) = .finite key := by
  have hhalf : isLow sig.s = true ↔ sig.s.val ≤ (groupOrder - 1) / 2 := decide_eq_true_iff
  have hsum : ∀ a R, ofGroup R = .finite a →
      (-(Residue.inv sig.r * z) * generator + Residue.inv sig.r * sig.s * Point.finite a).affine? =
        (ofGroup (signer sig.r sig.s z R)).affine? :=
    fun a R hR ↦ congrArg Point.affine? (hR ▸ add_smul_ofGroup_eq R)
  simp only [recover?, Option.bind_eq_bind, Option.bind_eq_some_iff, Option.guard_eq_some',
    hhalf, exists_const]
  refine and_congr_right fun _ ↦ ?_
  constructor
  · rintro ⟨a, ha, hkey⟩
    have hcurve : (Point.finite a).OnCurve := (Affine.lift?_eq_some_iff.mp ha).1
    obtain ⟨R, hR⟩ : ∃ R, ofGroup R = .finite a := ⟨_, ofGroup_toGroup hcurve⟩
    rw [hsum a R hR] at hkey
    exact ⟨R, IsPointAt.iff_lift?.mpr ⟨a, ha, hR⟩, affine?_eq_some_iff.mp hkey⟩
  · rintro ⟨R, hpoint, hkey⟩
    obtain ⟨a, ha, hR⟩ := IsPointAt.iff_lift?.mp hpoint
    refine ⟨a, ha, ?_⟩
    rw [hsum a R hR]
    exact affine?_eq_some_iff.mpr hkey

/-- Whatever is recovered could have been signed: the secret is the recovered key's, and the nonce
is the scalar of `R`. -/
theorem exists_ofNonce (h : sig.recover? id z = some key) :
    ∃ nonce secret point, OfNonce sig id nonce secret z point ∧
      secret * generator = .finite key := by
  obtain ⟨-, R, ⟨point, hR, hx, hparity⟩, hkey⟩ := recover?_eq_some_iff.mp h
  obtain ⟨nonce, rfl⟩ := exists_multiple_eq R
  rw [signer_multiple] at hkey
  have hr : sig.r.val < groupOrder := sig.r.isLt
  refine ⟨nonce, sig.r⁻¹ * (sig.s * nonce - z), point, ⟨?_, ?_, ?_, ?_⟩, ?_⟩
  · rw [Curve.smul_generator, hR]
  · refine Fin.ext ?_
    change sig.r.val = point.x.val % groupOrder
    rw [hx]
    split
    · rw [Nat.add_mod_right, Nat.mod_eq_of_lt hr]
    · rw [Nat.add_zero, Nat.mod_eq_of_lt hr]
  · rw [mul_inv_cancel_left₀ sig.r_ne_zero, add_sub_cancel, mul_comm]
  · -- As `r` is below the group order, `x` is not below it exactly if the order was added.
    have hoverflow : decide (groupOrder ≤ point.x.val) = id.xOverflow := by
      rw [hx]
      cases id.xOverflow <;> simp
    rw [hoverflow, hparity]
  · rw [Curve.smul_generator, hkey]

theorem onCurve_of_recover? (h : sig.recover? id z = some key) : key.OnCurve := by
  obtain ⟨-, R, -, hkey⟩ := recover?_eq_some_iff.mp h
  exact onCurve_of_ofGroup hkey

theorem verifies_of_recover? (h : sig.recover? id z = some key) : sig.Verifies key z := by
  obtain ⟨nonce, secret, point, hnonce, hkey⟩ := exists_ofNonce h
  exact hnonce.verifies hkey

end Signature

/-! ## The parts of the bytes -/

/-- What the bytes of a compact signature spell. -/
structure CompactParts where
  /-- The first byte. -/
  header : UInt8
  /-- The number that the next 32 bytes spell. -/
  r : ℕ
  /-- The number that the 32 bytes behind it spell. -/
  s : ℕ

namespace CompactParts

/-- The parts of a byte string, of which those that it is too short for are zero. -/
def ofBytes (bytes : List UInt8) : CompactParts where
  header := bytes.headD 0
  r := ofBigEndian ((bytes.drop 1).take 32)
  s := ofBigEndian ((bytes.drop 33).take 32)

variable (c : CompactParts)

/-- What the header adds to its base. -/
def flags : ℕ := c.header.toNat - 27

/-- The `y` of the nonce's point is odd. -/
def yOdd : Bool := c.flags.testBit 0

/-- The `x` of the nonce's point is beyond the group order. -/
def xOverflow : Bool := c.flags.testBit 1

/-- The signer identifies itself by the compressed form. -/
def compressed : Bool := c.flags.testBit 2

/-- The `x` of the nonce's point. -/
def x : ℕ := c.r + if c.xOverflow then groupOrder else 0

/-- The header is one of the eight that are in use. -/
def HeaderInRange : Prop := 27 ≤ c.header ∧ c.header ≤ 34

/-- Both numbers are scalars other than zero. -/
def ScalarsInRange : Prop :=
  (1 ≤ c.r ∧ c.r ≤ groupOrder - 1) ∧ 1 ≤ c.s ∧ c.s ≤ groupOrder - 1

/-- The nonce's point. -/
def IsNoncePoint (R : curve.Point) : Prop := IsPointAt c.x c.yOdd R

/-- The key that a nonce's point gives for a signed scalar. -/
def signer (z : Scalar) (R : curve.Point) : curve.Point :=
  Signature.signer (Fin.ofNat groupOrder c.r) (Fin.ofNat groupOrder c.s) z R

/-- There is a key for a signed scalar. -/
structure Recoverable (z : Scalar) : Prop where
  /-- The second number is in the lower half. -/
  low : c.s ≤ (groupOrder - 1) / 2
  /-- The curve has a point at `x`. -/
  onCurve : ∃ h : c.x < fieldOrder, IsSquare (cubic ⟨c.x, h⟩)
  /-- The key is not the point at infinity. -/
  signer_ne_zero : ∀ R, c.IsNoncePoint R → c.signer z R ≠ 0

instance : Decidable c.HeaderInRange := inferInstanceAs (Decidable (_ ∧ _))

variable {c}

theorem exists_isNoncePoint_iff :
    (∃ R, c.IsNoncePoint R) ↔ ∃ h : c.x < fieldOrder, IsSquare (cubic ⟨c.x, h⟩) :=
  IsPointAt.exists_iff

theorem flags_lt (h : c.HeaderInRange) : c.flags < 8 := by
  have hle : c.header.toNat ≤ 34 := UInt8.le_iff_toNat_le.mp h.2
  rw [flags]
  omega

theorem ofNat_flags :
    RecoveryId.ofNat c.flags = { xOverflow := c.xOverflow, yOdd := c.yOdd } := by
  rw [RecoveryId.ofNat, xOverflow, yOdd, Nat.testBit_zero, Nat.testBit_eq_decide_div_mod_eq]
  rfl

theorem flags_div (h : c.HeaderInRange) : (c.flags / 4 == 1) = c.compressed := by
  have hlt := flags_lt h
  have hmod : c.flags / 2 ^ 2 % 2 = c.flags / 4 := by omega
  rw [compressed, Nat.testBit_eq_decide_div_mod_eq, hmod]
  rfl

end CompactParts

/-! ## Recovery in terms of the parts -/

namespace CompactSignature

variable {c : CompactSignature} {hash : Hash} {sig : Signature} {z : Scalar}

/-- The parts of the 65 bytes. -/
def parts (c : CompactSignature) : CompactParts := .ofBytes c.octets.toList

theorem header_parts (c : CompactSignature) : c.parts.header = c.header := by
  rcases c with ⟨⟨_ | ⟨header, rest⟩, h⟩⟩
  · cases h
  · rfl

theorem s_parts (c : CompactSignature) :
    c.parts.s = ofBigEndian (c.octets.toList.drop 33) := by
  have htake : (c.octets.toList.drop 33).take 32 = c.octets.toList.drop 33 :=
    List.take_of_length_le (by rw [List.length_drop, c.octets.length_toList])
  rw [parts, CompactParts.ofBytes, htake]

theorem r_parts (c : CompactSignature) :
    c.parts.r = ofBigEndian ((c.octets.toList.drop 1).take 32) := rfl

theorem scalarsInRange_parts_iff :
    c.parts.ScalarsInRange ↔
      (0 < c.parts.r ∧ c.parts.r < groupOrder) ∧ 0 < c.parts.s ∧ c.parts.s < groupOrder := by
  have hpos : 0 < groupOrder := by decide
  rw [CompactParts.ScalarsInRange]
  omega

theorem signature?_eq_none_iff : c.signature? = none ↔ ¬c.parts.ScalarsInRange := by
  rw [scalarsInRange_parts_iff, s_parts, r_parts, signature?, dite_eq_right_iff]
  exact ⟨fun h hrange ↦ Option.some_ne_none _ (h hrange), fun h hrange ↦ absurd hrange h⟩

/-- The bytes spell a signature exactly if they spell its two numbers. -/
theorem signature?_eq_some_iff :
    c.signature? = some sig ↔ c.parts.r = sig.r.val ∧ c.parts.s = sig.s.val := by
  rw [s_parts, r_parts, signature?, Option.dite_none_right_eq_some]
  constructor
  · rintro ⟨hrange, hsig⟩
    rw [← Option.some.inj hsig]
    exact ⟨rfl, rfl⟩
  · rintro ⟨hr, hs⟩
    have hscalars : (0 < sig.r.val ∧ sig.r.val < groupOrder) ∧ 0 < sig.s.val ∧
        sig.s.val < groupOrder := ⟨⟨sig.r_pos, sig.r.isLt⟩, sig.s_pos, sig.s.isLt⟩
    simpa only [hr, hs, exists_prop, and_true] using hscalars

/-- The header is judged first, then the two numbers, then recovery. -/
theorem recover_eq (c : CompactSignature) (hash : Hash) :
    c.recover hash =
      if c.parts.HeaderInRange then
        c.signature?.elim (.error .invalidSignatureFormat) fun sig ↦
          (sig.recover? { xOverflow := c.parts.xOverflow, yOdd := c.parts.yOdd }
            (Signature.messageScalar hash)).elim (.error .recoveryFailed)
              fun point ↦ .ok { point, compressed := c.parts.compressed }
      else .error (.invalidRecoveryHeader c.parts.header) := by
  have hrange : c.parts.HeaderInRange ↔ ¬(c.header < 27 ∨ 34 < c.header) := by
    rw [CompactParts.HeaderInRange, header_parts, not_or, UInt8.not_lt, UInt8.not_lt]
  by_cases h : c.parts.HeaderInRange
  · have hflags : c.header.toNat - headerBase = c.parts.flags := by
      rw [CompactParts.flags, header_parts]
      rfl
    simp only [recover, if_neg (hrange.mp h), if_pos h, hflags, CompactParts.ofNat_flags,
      CompactParts.flags_div h]
    cases c.signature? with
    | none => rfl
    | some sig =>
      dsimp only [Option.elim_some]
      cases sig.recover? { xOverflow := c.parts.xOverflow, yOdd := c.parts.yOdd }
        (Signature.messageScalar hash) <;> rfl
  · rw [recover, if_pos (not_not.mp (hrange.not.mp h)), if_neg h, header_parts]

/-- Recovery of a spelled signature, in terms of the parts. -/
theorem recover?_eq_some_iff_parts {point : Affine} (h : c.signature? = some sig) :
    sig.recover? { xOverflow := c.parts.xOverflow, yOdd := c.parts.yOdd } z = some point ↔
      c.parts.s ≤ (groupOrder - 1) / 2 ∧
        ∃ R, c.parts.IsNoncePoint R ∧ ofGroup (c.parts.signer z R) = .finite point := by
  obtain ⟨hr, hs⟩ := signature?_eq_some_iff.mp h
  have hscalar : ∀ k : Scalar, Fin.ofNat groupOrder k.val = k :=
    fun k ↦ Fin.ext (Nat.mod_eq_of_lt k.isLt)
  rw [Signature.recover?_eq_some_iff]
  simp only [CompactParts.IsNoncePoint, CompactParts.x, CompactParts.signer, hr, hs, hscalar]
  rfl

theorem exists_recover?_eq_some_iff (h : c.signature? = some sig) :
    (∃ point, sig.recover? { xOverflow := c.parts.xOverflow, yOdd := c.parts.yOdd } z =
      some point) ↔ c.parts.Recoverable z := by
  simp only [recover?_eq_some_iff_parts h]
  constructor
  · rintro ⟨point, hlow, R, hR, hkey⟩
    refine ⟨hlow, CompactParts.exists_isNoncePoint_iff.mp ⟨R, hR⟩, fun R' hR' hzero ↦ ?_⟩
    rw [hR.unique hR', hzero] at hkey
    cases hkey
  · rintro ⟨hlow, hcurve, hkey⟩
    obtain ⟨R, hR⟩ := CompactParts.exists_isNoncePoint_iff.mpr hcurve
    obtain ⟨point, hpoint⟩ := exists_ofGroup_eq_finite_iff.mpr (hkey R hR)
    exact ⟨point, hlow, R, hR, hpoint⟩

/-- A key is recovered from a spelled signature. -/
theorem exists_of_recover_eq_ok {key : RecoveredKey} (h : c.recover hash = .ok key) :
    c.parts.HeaderInRange ∧ ∃ sig, c.signature? = some sig ∧
      sig.recover? { xOverflow := c.parts.xOverflow, yOdd := c.parts.yOdd }
        (Signature.messageScalar hash) = some key.point ∧
      key.compressed = c.parts.compressed := by
  by_cases hheader : c.parts.HeaderInRange
  · rw [recover_eq, if_pos hheader] at h
    rcases hsig : c.signature? with _ | sig
    · rw [hsig] at h
      cases h
    · rw [hsig, Option.elim_some] at h
      rcases hpoint : sig.recover? _ (Signature.messageScalar hash) with _ | point
      · rw [hpoint] at h
        cases h
      · rw [hpoint] at h
        cases h
        exact ⟨hheader, sig, rfl, hpoint, rfl⟩
  · rw [recover_eq, if_neg hheader] at h
    cases h

/-- The checks of recovery, in their order, with the failure of each. -/
theorem recover_outcome (c : CompactSignature) (hash : Hash) :
    (¬c.parts.HeaderInRange ∧ c.recover hash = .error (.invalidRecoveryHeader c.parts.header)) ∨
    (c.parts.HeaderInRange ∧ ¬c.parts.ScalarsInRange ∧
      c.recover hash = .error .invalidSignatureFormat) ∨
    (c.parts.HeaderInRange ∧ c.parts.ScalarsInRange ∧
      ¬c.parts.Recoverable (Signature.messageScalar hash) ∧
      c.recover hash = .error .recoveryFailed) ∨
    (c.parts.HeaderInRange ∧ c.parts.ScalarsInRange ∧
      c.parts.Recoverable (Signature.messageScalar hash) ∧ ∃ key, c.recover hash = .ok key) := by
  rw [recover_eq]
  by_cases hheader : c.parts.HeaderInRange
  · rw [if_pos hheader]
    rcases hsig : c.signature? with _ | sig
    · exact .inr (.inl ⟨hheader, signature?_eq_none_iff.mp hsig, rfl⟩)
    · have hscalars : c.parts.ScalarsInRange := by
        rw [← not_not (a := c.parts.ScalarsInRange), ← signature?_eq_none_iff, hsig]
        exact Option.some_ne_none sig
      rw [← exists_recover?_eq_some_iff hsig, Option.elim_some]
      rcases hpoint : sig.recover? _ (Signature.messageScalar hash) with _ | point
      · exact .inr (.inr (.inl ⟨hheader, hscalars, by simp, rfl⟩))
      · exact .inr (.inr (.inr ⟨hheader, hscalars, ⟨point, rfl⟩, _, rfl⟩))
  · rw [if_neg hheader]
    exact .inl ⟨hheader, rfl⟩

end CompactSignature

theorem recoverCompact_eq_ok_iff {hash : Hash} {bytes : List UInt8} {key : RecoveredKey} :
    recoverCompact hash bytes = .ok key ↔
      ∃ c : CompactSignature, c.octets.toList = bytes ∧ c.recover hash = .ok key := by
  constructor
  · intro h
    rw [recoverCompact, CompactSignature.ofBytes?] at h
    rcases ho : Octets.ofList? 65 bytes with _ | octets
    · rw [ho] at h
      cases h
    · rw [ho] at h
      exact ⟨⟨octets⟩, Octets.ofList?_eq_some_iff.mp ho, h⟩
  · rintro ⟨c, rfl, h⟩
    rw [c.recoverCompact_toList, h]

theorem recoverCompact_of_length_ne {bytes : List UInt8} (h : bytes.length ≠ 65) (hash : Hash) :
    recoverCompact hash bytes = .error (.invalidSignatureLength bytes.length) := by
  rw [recoverCompact, CompactSignature.ofBytes?, Octets.ofList?, dif_neg h]
  rfl

/-- What is recovered is the key of the nonce's point, and the signature is good under it. -/
theorem exists_signer_of_recoverCompact {hash : Hash} {bytes : List UInt8} {key : RecoveredKey}
    (h : recoverCompact hash bytes = .ok key) :
    (∃ R, (∀ R', (CompactParts.ofBytes bytes).IsNoncePoint R' ↔ R' = R) ∧
      ofGroup ((CompactParts.ofBytes bytes).signer (Signature.messageScalar hash) R) =
        .finite key.point ∧
      key.compressed = (CompactParts.ofBytes bytes).compressed) ∧
    ∃ sig : Signature, sig.r.val = (CompactParts.ofBytes bytes).r ∧
      sig.s.val = (CompactParts.ofBytes bytes).s ∧
      sig.Verifies key.point (Signature.messageScalar hash) := by
  obtain ⟨c, rfl, hrecover⟩ := recoverCompact_eq_ok_iff.mp h
  obtain ⟨-, sig, hsig, hpoint, hcompressed⟩ := CompactSignature.exists_of_recover_eq_ok hrecover
  obtain ⟨hr, hs⟩ := CompactSignature.signature?_eq_some_iff.mp hsig
  obtain ⟨-, R, hR, hsigner⟩ := (CompactSignature.recover?_eq_some_iff_parts hsig).mp hpoint
  have hunique : ∀ R', c.parts.IsNoncePoint R' ↔ R' = R :=
    fun R' ↦ ⟨fun hR' ↦ hR'.unique hR, fun h ↦ h ▸ hR⟩
  exact ⟨⟨R, hunique, hsigner, hcompressed⟩, sig, hr.symm, hs.symm,
    Signature.verifies_of_recover? hpoint⟩

/-- **Recovery is exact.** A key is recovered exactly from 65 bytes with a header that is in use and
nonzero scalars of which the second is low, such that the curve has a point over the `x` that they
tell and the key `r⁻¹ (s R - z G)` is not infinity, where `R` is the point over `x` with the told
parity. It is then that key, in the told form, and the signature is good under it. Otherwise the
failure is that of the first check that fails. -/
theorem recoverCompact_exact (hash : Hash) (bytes : List UInt8) :
    let c := CompactParts.ofBytes bytes
    let z := Signature.messageScalar hash
    ((∃ key, recoverCompact hash bytes = .ok key) ↔
      bytes.length = 65 ∧ c.HeaderInRange ∧ c.ScalarsInRange ∧ c.Recoverable z) ∧
    (∀ key, recoverCompact hash bytes = .ok key →
      (∃ R, (∀ R', c.IsNoncePoint R' ↔ R' = R) ∧ ofGroup (c.signer z R) = .finite key.point ∧
        key.compressed = c.compressed) ∧
      ∃ sig : Signature, sig.r.val = c.r ∧ sig.s.val = c.s ∧ sig.Verifies key.point z) ∧
    ∀ e, recoverCompact hash bytes = .error e ↔
      (bytes.length ≠ 65 ∧ e = .invalidSignatureLength bytes.length) ∨
      (bytes.length = 65 ∧ ¬c.HeaderInRange ∧ e = .invalidRecoveryHeader c.header) ∨
      (bytes.length = 65 ∧ c.HeaderInRange ∧ ¬c.ScalarsInRange ∧ e = .invalidSignatureFormat) ∨
      (bytes.length = 65 ∧ c.HeaderInRange ∧ c.ScalarsInRange ∧ ¬c.Recoverable z ∧
        e = .recoveryFailed) := by
  intro c z
  by_cases hlength : bytes.length = 65
  · let compact : CompactSignature := ⟨⟨bytes, hlength⟩⟩
    have hrecover : recoverCompact hash bytes = compact.recover hash :=
      compact.recoverCompact_toList hash
    have hparts : compact.parts = c := rfl
    have houtcome := compact.recover_outcome hash
    rw [hparts, ← hrecover] at houtcome
    -- Each outcome decides both what succeeds and what fails.
    rcases houtcome with ⟨hheader, hout⟩ | ⟨hheader, hscalars, hout⟩ |
      ⟨hheader, hscalars, hfails, hout⟩ | ⟨hheader, hscalars, hholds, key, hout⟩
    · refine ⟨?_, fun _ ↦ exists_signer_of_recoverCompact, ?_⟩ <;>
        simp [hlength, hheader, hout, eq_comm]
    · refine ⟨?_, fun _ ↦ exists_signer_of_recoverCompact, ?_⟩ <;>
        simp [hlength, hheader, hscalars, hout, eq_comm]
    · refine ⟨?_, fun _ ↦ exists_signer_of_recoverCompact, ?_⟩ <;>
        simp [hlength, hheader, hscalars, hfails, z, hout, eq_comm]
    · refine ⟨?_, fun _ ↦ exists_signer_of_recoverCompact, ?_⟩ <;>
        simp [hlength, hheader, hscalars, hholds, z, hout]
  · have hout := recoverCompact_of_length_ne hlength hash
    refine ⟨?_, fun _ ↦ exists_signer_of_recoverCompact, ?_⟩ <;> simp [hlength, hout, eq_comm]

/-- A signature of the zero hash whose nonce's point has its `x` beyond the group order: the curve
has points over `n + 2`. With `r` and `s` both two, the nonce's point is the key. -/
def CompactSignature.ofOverflow (header : UInt8) : List UInt8 :=
  header :: (bigEndian 32 2 ++ bigEndian 32 2)

/-- The point over `n + 2` with an odd `y`. -/
def Curve.Affine.ofOverflow : Affine where
  x := Fin.ofNat fieldOrder (groupOrder + 2)
  y := 0x36b1aa62eb77c1973025cbcbea9740eed8eacdab8772268b395064453269d1d3

theorem recoverCompact_ofOverflow :
    recoverCompact (.zero 32) (CompactSignature.ofOverflow 34) =
        .ok { point := .ofOverflow, compressed := true } ∧
      recoverCompact (.zero 32) (CompactSignature.ofOverflow 33) =
        .ok { point := Affine.ofOverflow.opposite, compressed := true } := by
  decide +kernel

/-- The signature with the overflowing `x` is good under the key that is recovered from it, and
fails to be a signature with a header beyond the last one. -/
theorem recoverCompact_exact_overflow :
    (CompactParts.ofBytes (CompactSignature.ofOverflow 34)).xOverflow = true ∧
      (∃ sig : Signature, sig.s = 2 ∧
        sig.Verifies .ofOverflow (Signature.messageScalar (.zero 32))) ∧
      recoverCompact (.zero 32) (CompactSignature.ofOverflow 35) =
        .error (.invalidRecoveryHeader 35) := by
  obtain ⟨-, hkey, -⟩ := recoverCompact_exact (.zero 32) (CompactSignature.ofOverflow 34)
  obtain ⟨-, sig, -, hs, hverifies⟩ := hkey _ recoverCompact_ofOverflow.1
  obtain ⟨-, -, hfailure⟩ := recoverCompact_exact (.zero 32) (CompactSignature.ofOverflow 35)
  have hheader : ¬(CompactParts.ofBytes (CompactSignature.ofOverflow 35)).HeaderInRange := by
    decide
  have htwo : (CompactParts.ofBytes (CompactSignature.ofOverflow 34)).s = 2 := by decide
  exact ⟨by decide, ⟨sig, Fin.ext (hs.trans htwo), hverifies⟩,
    (hfailure _).mpr (.inr (.inl ⟨by decide, hheader, rfl⟩))⟩

end NodeAdmission
