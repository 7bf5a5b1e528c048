import NodeAdmission.Key.Pair
import NodeAdmission.Proofs.Signature.Recovery
/-!
# Signing and recovery on bytes

The 65 bytes of a compact signature give back the signature, the identifier and the flag that were
packed into them, so recovery from what a key pair signed yields that pair's key in the form under
which the pair identifies itself (`KeyPair.recover_of_sign`).
-/

namespace NodeAdmission

open Curve

/-! ## The 65 bytes -/

namespace CompactSignature

variable {sig : Signature} {id : RecoveryId} {compressed : Bool} {hash : Hash}

theorem header_ofSignature :
    (ofSignature sig id compressed).header =
      UInt8.ofNat (headerBase + id.toNat + if compressed then 4 else 0) := rfl

theorem header_ofSignature_range :
    if compressed then 31 ≤ (ofSignature sig id compressed).header ∧
      (ofSignature sig id compressed).header ≤ 34
    else 27 ≤ (ofSignature sig id compressed).header ∧
      (ofSignature sig id compressed).header ≤ 30 := by
  rw [header_ofSignature]
  rcases id with ⟨_ | _, _ | _⟩ <;> cases compressed <;> decide

theorem signature?_ofSignature : (ofSignature sig id compressed).signature? = some sig := by
  have hval : ∀ k : Scalar, ofBigEndian (bigEndian 32 k.val) = k.val :=
    Residue.ofBigEndian_val (by decide)
  have hr : ofBigEndian (((ofSignature sig id compressed).octets.toList.drop 1).take 32) =
      sig.r.val := by
    simp [ofSignature, hval]
  have hs : ofBigEndian ((ofSignature sig id compressed).octets.toList.drop 33) = sig.s.val := by
    simp [ofSignature, hval]
  have hscalars : (0 < sig.r.val ∧ sig.r.val < groupOrder) ∧ 0 < sig.s.val ∧
      sig.s.val < groupOrder := ⟨⟨sig.r_pos, sig.r.isLt⟩, sig.s_pos, sig.s.isLt⟩
  simp only [signature?, hr, hs, dif_pos hscalars]

/-- Recovery takes the bytes apart again. -/
theorem recover_ofSignature {point : Affine}
    (h : sig.recover? id (Signature.messageScalar hash) = some point) :
    (ofSignature sig id compressed).recover hash = .ok { point, compressed } := by
  have hrange : ¬((ofSignature sig id compressed).header < 27 ∨
      34 < (ofSignature sig id compressed).header) := by
    rw [header_ofSignature]
    rcases id with ⟨_ | _, _ | _⟩ <;> cases compressed <;> decide
  -- Above the base the two low bits are the identifier, and the next one is the form.
  have hid : .ofNat ((ofSignature sig id compressed).header.toNat - headerBase) = id := by
    rw [header_ofSignature]
    rcases id with ⟨_ | _, _ | _⟩ <;> cases compressed <;> rfl
  have hcompressed :
      (((ofSignature sig id compressed).header.toNat - headerBase) / 4 == 1) = compressed := by
    rw [header_ofSignature]
    rcases id with ⟨_ | _, _ | _⟩ <;> cases compressed <;> rfl
  simp only [recover, if_neg hrange, signature?_ofSignature, hid, h, hcompressed]

theorem ofBytes?_toList (c : CompactSignature) : ofBytes? c.octets.toList = .ok c := by
  rw [ofBytes?, Octets.ofList?_eq_some_iff.mpr rfl]

theorem recoverCompact_toList (c : CompactSignature) (hash : Hash) :
    recoverCompact hash c.octets.toList = c.recover hash := by
  rw [recoverCompact, ofBytes?_toList]
  rfl

end CompactSignature

/-! ## Key pairs -/

/-- A compressed form has one of the two tags. -/
theorem IdentityKey.hasPointTag_of_compressed {key : IdentityKey} {a : Affine}
    (h : a.compressed = key.octets) : key.hasPointTag = true := by
  rw [hasPointTag, bytes, ← h, Affine.toList_compressed]
  cases a.yIsOdd <;> rfl

namespace KeyPair

variable {pair : KeyPair} {hash : Hash} {c : CompactSignature}

/-- A number from one to the group order's predecessor is a secret. -/
theorem exists_ofSecret?_eq_ok {secret : Octets 32} (h : 1 ≤ secret.toNat)
    (h' : secret.toNat < groupOrder) (compressed : Bool) :
    ∃ pair, ofSecret? secret compressed = .ok pair ∧ pair.secret.val = secret.toNat ∧
      pair.compressed = compressed := by
  have hne : (⟨secret.toNat, h'⟩ : Scalar) ≠ 0 := by
    intro hzero
    have hval : secret.toNat = 0 := congrArg Fin.val hzero
    omega
  obtain ⟨point, hpoint⟩ := exists_smul_generator_eq_finite_iff.mpr hne
  refine ⟨{ secret := _, point, smul_generator := hpoint, compressed }, ?_, rfl, rfl⟩
  rw [ofSecret?, dif_pos h']
  split
  · next p hp =>
    cases hp.symm.trans hpoint
    rfl
  · next hp => cases hp.symm.trans hpoint

theorem point?_publicKey (pair : KeyPair) : pair.publicKey.point? = some pair.point :=
  Affine.ofShort?_compressed (onCurve_of_smul_generator pair.smul_generator)

theorem isFullyValid_publicKey (pair : KeyPair) : pair.publicKey.isFullyValid = true := by
  have htag : pair.publicKey.hasPointTag = true := IdentityKey.hasPointTag_of_compressed rfl
  rw [IdentityKey.isFullyValid, htag, point?_publicKey]
  rfl

theorem keyId_publicKey (h : pair.compressed = true) : pair.publicKey.keyId = pair.keyId := by
  rw [keyId, h]
  rfl

theorem sign_eq_ok_iff :
    pair.sign hash = .ok c ↔ ∃ sig id, pair.signature? hash = some (sig, id) ∧
      c = .ofSignature sig id pair.compressed := by
  rw [sign]
  cases pair.signature? hash with
  | none => simp
  | some signed => simp [Prod.ext_iff, eq_comm]

theorem exists_sign_eq_ok (h : (pair.signature? hash).isSome = true) :
    ∃ c, pair.sign hash = .ok c := by
  obtain ⟨⟨sig, id⟩, hsigned⟩ := Option.isSome_iff_exists.mp h
  exact ⟨_, sign_eq_ok_iff.mpr ⟨sig, id, hsigned, rfl⟩⟩

/-- Records and pings are signed by storing a signature in them. -/
theorem sign_bind_pure_eq_ok_iff {α : Type} {store : CompactSignature → α} {a : α} :
    (pair.sign hash >>= fun c ↦ pure (store c)) = .ok a ↔
      ∃ c, pair.sign hash = .ok c ∧ a = store c := by
  cases pair.sign hash with
  | error e => simp [bind, Except.bind]
  | ok c => simp [bind, Except.bind, pure, Except.pure, eq_comm]

/-- What a pair signs is a low signature, good under the pair's key and recovered to it. -/
theorem exists_signature_of_sign (h : pair.sign hash = .ok c) :
    ∃ sig id, c = .ofSignature sig id pair.compressed ∧ Signature.isLow sig.s = true ∧
      sig.Verifies pair.point (Signature.messageScalar hash) ∧
      sig.recover? id (Signature.messageScalar hash) = some pair.point := by
  obtain ⟨sig, id, hsigned, rfl⟩ := sign_eq_ok_iff.mp h
  simp only [signature?, Option.bind_eq_bind, Option.bind_eq_some_iff] at hsigned
  obtain ⟨nonce, -, hnonce⟩ := hsigned
  obtain ⟨hlow, k, point, hk⟩ := Signature.isLow_and_exists_ofNonce hnonce
  exact ⟨sig, id, rfl, hlow, hk.verifies pair.smul_generator,
    hk.recover?_eq_some hlow pair.smul_generator⟩

theorem recover_of_sign (h : pair.sign hash = .ok c) :
    c.recover hash = .ok { point := pair.point, compressed := pair.compressed } := by
  obtain ⟨sig, id, rfl, -, -, hrecover⟩ := exists_signature_of_sign h
  exact CompactSignature.recover_ofSignature hrecover

theorem recoverCompact_of_sign (h : pair.sign hash = .ok c) :
    recoverCompact hash c.octets.toList = .ok ⟨pair.point, pair.compressed⟩ := by
  rw [CompactSignature.recoverCompact_toList, recover_of_sign h]

end KeyPair

/-- **Recovery inverts signing.** Every number from one to the group order's predecessor is a
secret, and what its pair signs has a header for the pair's form and a low signature that is good
under the pair's key. From the bytes alone that very key is recovered, in the form and under the
identity that the pair has. -/
theorem recoverCompact_sign (secret : Octets 32)
    (hsecret : 1 ≤ secret.toNat ∧ secret.toNat ≤ groupOrder - 1) (compressed : Bool) :
    ∃ pair, KeyPair.ofSecret? secret compressed = .ok pair ∧ pair.secret.val = secret.toNat ∧
      ∀ (hash : Hash) (c : CompactSignature), pair.sign hash = .ok c →
        (if compressed then 31 ≤ c.header ∧ c.header ≤ 34 else 27 ≤ c.header ∧ c.header ≤ 30) ∧
        (∃ sig, c.signature? = some sig ∧ sig.s.val ≤ (groupOrder - 1) / 2 ∧
          sig.Verifies pair.point (Signature.messageScalar hash)) ∧
        ∃ key, recoverCompact hash c.octets.toList = .ok key ∧ key.point = pair.point ∧
          key.compressed = compressed ∧ key.keyId = pair.keyId ∧
          (compressed = true → key.keyId = pair.publicKey.keyId) ∧
          key.serialize.length = if compressed then 33 else 65 := by
  have hlt : secret.toNat < groupOrder := by
    have hpos : 0 < groupOrder := by decide
    omega
  obtain ⟨pair, hpair, hval, rfl⟩ := KeyPair.exists_ofSecret?_eq_ok hsecret.1 hlt compressed
  refine ⟨pair, hpair, hval, fun hash c hsign ↦ ?_⟩
  have hrecover := KeyPair.recoverCompact_of_sign hsign
  obtain ⟨sig, id, rfl, hlow, hverifies, -⟩ := KeyPair.exists_signature_of_sign hsign
  have hhalf : sig.s.val ≤ (groupOrder - 1) / 2 := of_decide_eq_true hlow
  exact ⟨CompactSignature.header_ofSignature_range,
    ⟨sig, CompactSignature.signature?_ofSignature, hhalf, hverifies⟩,
    _, hrecover, rfl, rfl, rfl, fun h ↦ (KeyPair.keyId_publicKey h).symm,
    Affine.length_serialize pair.compressed⟩

/-- A hash that is signed. -/
def sampleHash : Hash :=
  .ofNat 32 0xca87572c75dcb2dcb35909741130e6e49aef774ec2476a4f0ff6aed1e9007d1e

theorem exists_sign_sampleHash_eq_ok {pair : KeyPair} (h : pair.secret = 1) :
    ∃ c, pair.sign sampleHash = .ok c := by
  have hsigned : (pair.signature? sampleHash).isSome = true := by
    rw [KeyPair.signature?, h]
    -- The nonce's point takes one division this way, and not one for each sum.
    simp only [Signature.ofNonce?, smul_generator_eq_toPoint]
    decide +kernel
  exact KeyPair.exists_sign_eq_ok hsigned

/-- The secret one signs a hash in the uncompressed form, and is recovered in that form. -/
theorem recoverCompact_sign_one :
    (1 ≤ (Octets.ofNat 32 1).toNat ∧ (Octets.ofNat 32 1).toNat ≤ groupOrder - 1) ∧
      ∃ pair c, KeyPair.ofSecret? (.ofNat 32 1) false = .ok pair ∧
        pair.sign sampleHash = .ok c ∧ (27 ≤ c.header ∧ c.header ≤ 30) ∧
        ∃ key, recoverCompact sampleHash c.octets.toList = .ok key ∧ key.point = pair.point ∧
          key.serialize.length = 65 := by
  have hsecret : 1 ≤ (Octets.ofNat 32 1).toNat ∧ (Octets.ofNat 32 1).toNat ≤ groupOrder - 1 := by
    decide
  obtain ⟨pair, hpair, hval, hsigned⟩ := recoverCompact_sign (.ofNat 32 1) hsecret false
  obtain ⟨c, hc⟩ := exists_sign_sampleHash_eq_ok (Fin.ext hval : pair.secret = 1)
  obtain ⟨hheader, -, key, hkey, hpoint, -, -, -, hlength⟩ := hsigned sampleHash c hc
  exact ⟨hsecret, pair, c, hpair, hc, hheader, key, hkey, hpoint, hlength⟩

end NodeAdmission
