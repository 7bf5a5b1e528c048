import NodeAdmission.Proofs.Admission.Acceptance
import NodeAdmission.Proofs.Record.RoundTrip
import NodeAdmission.Proofs.Signature.Compact
import NodeAdmission.Proofs.Stake.Destination
/-!
# Honest registrations are admitted

What an honest node signs and sends is admitted by every peer (`honest_registration_admitted`). The
signature survives the wire because what is signed does not depend on the signature, and the key
that a peer recovers from it is the signer's in the form the signer uses. For the staked tier the
outputs may pay the owner's key or its hash, and hashes may collide: only scripts that pay the owner
are ever remembered.
-/

namespace NodeAdmission

open Collateral

variable {pair : KeyPair} {n sent : NodeRecord}

/-! ## Signed records -/

/-- The registration with another signature. -/
def Registration.withSignature (r : Registration) (signature : List UInt8) : Registration :=
  { r with signature }

/-- The signed bytes leave the signature out. -/
@[simp] theorem Registration.sigHash_withSignature (r : Registration) (signature : List UInt8) :
    (r.withSignature signature).sigHash = r.sigHash := rfl

theorem NodeRecord.sign_eq_ok_iff :
    n.sign pair = .ok sent ↔ ∃ c, pair.sign n.registration.sigHash = .ok c ∧
      sent = { n with registration := n.registration.withSignature c.octets.toList } := by
  rw [sign, Registration.sign, bind_assoc]
  exact KeyPair.sign_bind_pure_eq_ok_iff

/-- A signed record is read back with the signature, from which the signer is recovered: what was
signed does not depend on the signature. -/
theorem NodeRecord.exists_signature_of_sign (h : n.sign pair = .ok sent)
    (hlength : n.registration.collateral.length ≤ Wire.maxLength)
    (htier : n.registration.tier.normal = n.registration.tier) (clock : Time) :
    ∃ signature,
      (reader clock).whole sent.encode =
        .ok (.receive clock (n.registration.withSignature signature)) ∧
      recoverCompact (n.registration.withSignature signature).sigHash signature =
        .ok { point := pair.point, compressed := pair.compressed } := by
  obtain ⟨c, hc, rfl⟩ := sign_eq_ok_iff.mp h
  have hfits : (n.registration.withSignature c.octets.toList).Fits :=
    ⟨hlength, c.octets.length_toList.trans_le (by decide)⟩
  have hnormal : (n.registration.withSignature c.octets.toList).normal =
      n.registration.withSignature c.octets.toList := Registration.normal_eq_self_iff.mpr htier
  refine ⟨c.octets.toList, ?_, ?_⟩
  · rw [Wire.Reader.whole_of_append (reader_encode hfits []), hnormal]
  · rw [Registration.sigHash_withSignature, KeyPair.recoverCompact_of_sign hc]

/-! ## The two tiers -/

namespace NodeRecord

variable {chain : ChainAccess} {params : StakeParams} {enforce : Bool}

theorem outcome_judge_of_selfSigned (hanchor : chain.checkAnchor n.lastSeen enforce = true)
    (htier : n.registration.tier = .free) (hcompressed : pair.compressed = true)
    (hkey : n.key = pair.publicKey)
    (hrecover : recoverCompact n.registration.sigHash n.registration.signature =
      .ok ⟨pair.point, pair.compressed⟩) :
    (n.judge chain params enforce).outcome = .ok () := by
  have hself : n.registration.judgeSelfSigned.outcome = .ok () := by
    refine Registration.outcome_judgeSelfSigned_eq_ok_iff.mpr ⟨_, hrecover, ?_⟩
    rw [← key, hkey, KeyPair.keyId_publicKey hcompressed]
    rfl
  exact outcome_judge_iff_judgeTier.mpr ⟨hanchor, hkey ▸ pair.isFullyValid_publicKey,
    Registration.outcome_judgeTier_eq_ok_iff.mpr (.inl ⟨htier, hself⟩)⟩

/-- An owner whose outputs are worth enough is admitted, whatever hashes collide. -/
theorem outcome_judge_of_backs {owner : RecoveredKey}
    (hanchor : chain.checkAnchor n.lastSeen enforce = true) (hvalid : n.key.isFullyValid = true)
    (htier : n.registration.tier = .spv) (hpay : n.registration.paymentKeyHash ≠ .zero 20)
    (hset : checkSet n.registration.collateral params.maxCollateralCount = .ok ())
    (hrecover : recoverCompact n.registration.sigHash n.registration.signature = .ok owner)
    (hbacks : Backs chain owner.keyId params.spvCollateral n.registration.collateral) :
    (n.judge chain params enforce).outcome = .ok () := by
  have hsigner : (Audit.signerOf n.registration.sigHash n.registration.signature).outcome =
      .ok owner.keyId :=
    Audit.outcome_signerOf_eq_ok_iff.mpr ⟨owner, hrecover, rfl⟩
  have hstaked : (n.registration.judgeStaked chain params.maxCollateralCount
      params.spvCollateral).outcome = .ok () :=
    Registration.outcome_judgeStaked_eq_ok_iff_steps.mpr ⟨hpay, hset, _, hsigner,
      (exists_outcome_verify_iff hbacks.identityTells).mpr hbacks⟩
  exact outcome_judge_iff_judgeTier.mpr ⟨hanchor, hvalid,
    Registration.outcome_judgeTier_eq_ok_iff.mpr (.inr ⟨htier, hstaked⟩)⟩

end NodeRecord

/-- Both scripts that pay the owner of a pair are read as paying the owner's identity. -/
theorem KeyPair.ofScript?_eq_some {owner : KeyPair} {script : List UInt8}
    (h : script = Destination.payToKeyHash owner.keyId ∨
      script = Destination.payToKey (owner.point.serialize owner.compressed)) :
    Destination.ofScript? script = some (.keyHash owner.keyId) := by
  rcases h with rfl | rfl
  · exact Destination.ofScript?_payToKeyHash _
  · exact Destination.ofScript?_payToKey_serialize _ _

/-- **Honest registrations are admitted by every peer.** A free registration that its own node
signed with a compressed key is admitted, and so is a staked one that says where to pay and whose
owner signed it, if it lists the owner's outputs without repetition, no more of them than are
allowed, and they are worth enough. The record is encoded, and read at any time; the peer only has
to accept the block that the node had seen. -/
theorem honest_registration_admitted (made clock : Time) (r : Registration)
    (hlength : r.collateral.length ≤ Wire.maxLength) :
    (∀ pair : KeyPair, pair.compressed = true → r.tier = .free → r.key = pair.publicKey →
      ∀ sent, (NodeRecord.receive made r).sign pair = .ok sent →
      ∃ m, (NodeRecord.reader clock).whole sent.encode = .ok m ∧
        ∀ chain params enforce, chain.checkAnchor r.anchor enforce = true →
          (m.judge chain params enforce).outcome = .ok ()) ∧
    ∀ identity owner : KeyPair, r.tier = .spv → r.key = identity.publicKey →
      r.paymentKeyHash ≠ .zero 20 →
      ∀ sent, (NodeRecord.receive made r).sign owner = .ok sent →
      ∃ m, (NodeRecord.reader clock).whole sent.encode = .ok m ∧
        ∀ (chain : ChainAccess) params enforce outs, chain.checkAnchor r.anchor enforce = true →
          r.collateral.Nodup → 1 ≤ r.collateral.length →
          r.collateral.length ≤ params.maxCollateralCount.toNat →
          List.Forall₂ chain.Resolves r.collateral outs →
          (∀ out ∈ outs, out.script = Destination.payToKeyHash owner.keyId ∨
            out.script = Destination.payToKey (owner.point.serialize owner.compressed)) →
          params.spvCollateral.toNat ≤ (outs.map fun out ↦ out.value.toNat).sum →
          (m.judge chain params enforce).outcome = .ok () := by
  constructor
  · intro pair hcompressed htier hkey sent hsign
    obtain ⟨signature, hread, hrecover⟩ :=
      NodeRecord.exists_signature_of_sign hsign hlength (htier ▸ rfl) clock
    refine ⟨_, hread, fun chain params enforce hanchor ↦ ?_⟩
    exact NodeRecord.outcome_judge_of_selfSigned hanchor htier hcompressed hkey hrecover
  · intro identity owner htier hkey hpay sent hsign
    obtain ⟨signature, hread, hrecover⟩ :=
      NodeRecord.exists_signature_of_sign hsign hlength (htier ▸ rfl) clock
    refine ⟨_, hread, ?_⟩
    intro chain params enforce outs hanchor hnodup hpos hcount hresolves hscripts hsum
    have hvalid : r.key.isFullyValid = true := hkey ▸ identity.isFullyValid_publicKey
    have hpays : ∀ out ∈ outs,
        Destination.ofScript? out.script = some (.keyHash owner.keyId) :=
      fun out hout ↦ KeyPair.ofScript?_eq_some (hscripts out hout)
    have hset : checkSet r.collateral params.maxCollateralCount = .ok () :=
      checkSet_eq_ok_iff.mpr ⟨hnodup, hpos, hcount⟩
    exact NodeRecord.outcome_judge_of_backs hanchor hvalid htier hpay hset hrecover
      ⟨outs, hresolves, hpays, hsum⟩

/-! ## A free and a staked registration -/

/-- The pair of the secret one, whose public key is the base point. -/
def KeyPair.unit (compressed : Bool) : KeyPair where
  secret := 1
  point := Curve.generator.affine?.get rfl
  smul_generator := by
    rw [Curve.smul_generator_eq_toPoint]
    decide +kernel
  compressed := compressed

/-- A free registration of the base point. -/
def Registration.freeSample : Registration where
  key := (KeyPair.unit true).publicKey
  tier := .free
  paymentKeyHash := .zero 20
  collateral := []
  anchor := { height := 0, hash := .zero 32 }
  signature := []

/-- One output pays the hash of the base point's uncompressed key, the other the key itself. -/
def KeyPair.unitOutputs : List Output :=
  [{ value := 300_000_000_000, script := Destination.payToKeyHash (KeyPair.unit false).keyId },
    { value := 200_000_000_000
      script := Destination.payToKey ((KeyPair.unit false).point.serialize false) }]

/-- A staked registration of the base point. -/
def Registration.stakedSample : Registration := .listingTwo (KeyPair.unit true).publicKey []

theorem NodeRecord.exists_sign_receive_eq_ok {r : Registration} {c : CompactSignature} (made : Time)
    (h : pair.sign r.sigHash = .ok c) : ∃ sent, (receive made r).sign pair = .ok sent :=
  ⟨_, sign_eq_ok_iff.mpr ⟨c, h, rfl⟩⟩

theorem Registration.sigHash_freeSample : freeSample.sigHash = sampleHash := by decide +kernel

theorem exists_sign_freeSample_eq_ok :
    ∃ sent, (NodeRecord.receive 5 .freeSample).sign (.unit true) = .ok sent := by
  obtain ⟨c, hc⟩ := exists_sign_sampleHash_eq_ok (rfl : (KeyPair.unit true).secret = 1)
  rw [← Registration.sigHash_freeSample] at hc
  exact NodeRecord.exists_sign_receive_eq_ok 5 hc

theorem exists_sign_stakedSample_eq_ok :
    ∃ sent, (NodeRecord.receive 5 .stakedSample).sign (.unit false) = .ok sent := by
  have hsigned : ((KeyPair.unit false).signature?
      Registration.stakedSample.sigHash).isSome = true := by
    simp only [KeyPair.signature?, Signature.ofNonce?, Curve.smul_generator_eq_toPoint]
    decide +kernel
  obtain ⟨c, hc⟩ := KeyPair.exists_sign_eq_ok hsigned
  exact NodeRecord.exists_sign_receive_eq_ok 5 hc

/-- The free registration is signed with the compressed key, the staked one with the uncompressed
key, whose two outputs are together worth just enough. -/
theorem honest_registration_admitted_samples :
    (∃ sent m, (NodeRecord.receive 5 .freeSample).sign (.unit true) = .ok sent ∧
      (NodeRecord.reader 9).whole sent.encode = .ok m ∧
      (m.judge (.paying []) {} true).outcome = .ok ()) ∧
    ∃ sent m, (NodeRecord.receive 5 .stakedSample).sign (.unit false) = .ok sent ∧
      (NodeRecord.reader 9).whole sent.encode = .ok m ∧
      (m.judge (.paying KeyPair.unitOutputs) {} true).outcome = .ok () := by
  constructor
  · obtain ⟨sent, hsign⟩ := exists_sign_freeSample_eq_ok
    obtain ⟨hfree, -⟩ := honest_registration_admitted 5 9 .freeSample (by decide)
    obtain ⟨m, hread, hjudge⟩ := hfree (.unit true) rfl rfl rfl sent hsign
    exact ⟨sent, m, hsign, hread, hjudge _ {} true rfl⟩
  · obtain ⟨sent, hsign⟩ := exists_sign_stakedSample_eq_ok
    obtain ⟨-, hstaked⟩ := honest_registration_admitted 5 9 .stakedSample (by decide)
    obtain ⟨m, hread, hjudge⟩ := hstaked (.unit true) (.unit false) rfl rfl (by decide) sent hsign
    have hresolves : List.Forall₂ (ChainAccess.paying KeyPair.unitOutputs).Resolves
        Registration.stakedSample.collateral KeyPair.unitOutputs :=
      .cons ⟨_, rfl, rfl⟩ (.cons ⟨_, rfl, rfl⟩ .nil)
    have hscripts : ∀ out ∈ KeyPair.unitOutputs,
        out.script = Destination.payToKeyHash (KeyPair.unit false).keyId ∨
          out.script = Destination.payToKey ((KeyPair.unit false).point.serialize false) :=
      List.forall_mem_cons.mpr ⟨.inl rfl, List.forall_mem_cons.mpr ⟨.inr rfl, by simp⟩⟩
    exact ⟨sent, m, hsign, hread, hjudge _ {} true KeyPair.unitOutputs rfl (by decide) (by decide)
      (by decide) hresolves hscripts (by decide)⟩

end NodeAdmission
