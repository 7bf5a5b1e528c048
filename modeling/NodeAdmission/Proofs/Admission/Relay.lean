import NodeAdmission.Proofs.Admission.Completeness
import NodeAdmission.Proofs.Admission.Pings
import NodeAdmission.Proofs.Record.Capabilities
/-!
# Pings that are passed on

A receiver writes the block and the config of a ping into the record that the ping carries. Three
statements say that this does no harm.

* What an honest node sends about an admitted record is admitted by every receiver
  (`honest_ping_admitted`).
* The record of an admitted ping can stand without the ping: it is admitted by itself, at a recent
  block, and what is noted of its config is what the strict reading says
  (`admitted_ping_snapshot`).
* Against the ping as it was read, the receiver's copy can only gain, and only where the block of
  the registration is not accepted any more (`reconciling_only_relaxes`).

All three rest on `Ping.outcome_judge_congr`: what is noted in a record has no part in either of the
two signed messages, and of the block noted there it only matters that the chain accepts it. The
chain does, since it accepted the ping's own block as a recent one.
-/

namespace NodeAdmission

variable {chain : ChainAccess} {params : StakeParams} {clock : Time} {bytes : List UInt8} {p : Ping}

/-! ## What travels -/

theorem Ping.fields_readBack
    (htier : p.record.registration.tier.normal = p.record.registration.tier) :
    (p.readBack clock).fields = p.fields := by
  have hregistration : p.record.registration.normal = p.record.registration :=
    Registration.normal_eq_self_iff.mpr htier
  simp only [fields, readBack, NodeRecord.receive, hregistration]

/-- Bytes that are read as a ping are received as that ping, at any other times too. -/
theorem Ping.exists_receive_of_whole (h : (reader clock).whole bytes = .ok p) (clocks : Readings) :
    ∃ q, receive clocks bytes = .ok q ∧ q.fields = p.fields ∧ q.record.lastSeen = p.anchor := by
  obtain ⟨⟨hfits, htier, -⟩, hbytes⟩ := reader_eq_ok_iff.mp (Wire.Reader.whole_eq_ok_iff.mp h)
  rw [List.append_nil] at hbytes
  refine ⟨(p.readBack clocks.record).reconcile clocks.ping, hbytes ▸ receive_encode clocks hfits,
    ?_, rfl⟩
  rw [fields_reconcile, fields_readBack htier]

/-! ## Recent blocks are known blocks -/

/-- A block that the chain accepts as a recent one it also accepts as a known one. -/
def ChainAccess.RecentAreKnown (chain : ChainAccess) : Prop :=
  ∀ a, chain.checkAnchor a true = true → chain.checkAnchor a false = true

theorem View.recentAreKnown_access (v : View) : v.access.RecentAreKnown := by
  intro a h
  have hblock : v.blockHash? a.height = some a.hash := by
    simp only [access, checkAnchor, Bool.and_eq_true, decide_eq_true_eq] at h
    exact h.1
  simp [access, checkAnchor, hblock]

/-! ## Honest pings -/

/-- A ping before it is signed. -/
def Ping.unsigned (key : IdentityKey) (anchor : Anchor) (config : String) (record : NodeRecord) :
    Ping where
  key
  anchor
  config
  record
  signature := []

/-- The ping with another signature. -/
def Ping.withSignature (p : Ping) (signature : List UInt8) : Ping := { p with signature }

theorem Ping.sign_eq_ok_iff {pair : KeyPair} {sent : Ping} :
    p.sign pair = .ok sent ↔ ∃ c, pair.sign p.sigHash = .ok c ∧
      sent = p.withSignature c.octets.toList :=
  KeyPair.sign_bind_pure_eq_ok_iff

/-- A tier without a policy is never admitted, so the tier of an admitted record is read back. -/
theorem NodeRecord.tier_normal_of_judge {n : NodeRecord} {enforce : Bool}
    (h : (n.judge chain params enforce).outcome = .ok ()) :
    n.registration.tier.normal = n.registration.tier := by
  obtain ⟨-, -, hjudge⟩ := outcome_judge_iff_judgeTier.mp h
  rcases Registration.outcome_judgeTier_eq_ok_iff.mp hjudge with ⟨htier, -⟩ | ⟨htier, -⟩
  · rw [htier]
    rfl
  · rw [htier]
    rfl

namespace Ping

variable {pair : KeyPair} {n : NodeRecord} {a : Anchor} {config : String} {signature : List UInt8}

/-- What a node signs of its own admitted record is admitted where it is made. -/
theorem outcome_judge_of_signed
    (hrecover : recoverCompact (unsigned pair.publicKey a config n).sigHash signature =
      .ok ⟨pair.point, pair.compressed⟩)
    (hcompressed : pair.compressed = true) (hkey : n.key = pair.publicKey)
    (hconfig : ∃ c, Capabilities.parse config = .ok c)
    (hrecord : (n.judge chain params false).outcome = .ok ())
    (hanchor : chain.checkAnchor a true = true) :
    (((unsigned pair.publicKey a config n).withSignature signature).judge chain params).outcome =
      .ok () := by
  refine outcome_judge_iff_judgeEnvelope.mpr ⟨outcome_judgeEnvelope_eq_ok_iff.mpr ?_, hrecord⟩
  -- The signed bytes leave the signature out.
  exact ⟨hanchor, pair.isFullyValid_publicKey, hkey.symm, hconfig, _, hrecover,
    (KeyPair.keyId_publicKey hcompressed).symm⟩

end Ping

/-- **Honest pings survive being passed on.** A node with a compressed key pings about an admitted
record of itself, at a block that the chain accepts as a recent one and as a known one, with a
config that the strict reading accepts. What it signs and sends is received at any time as a ping
with the sender's hashes, and admitted, whatever the sender had noted in the record. -/
theorem honest_ping_admitted (pair : KeyPair) (hcompressed : pair.compressed = true)
    (n : NodeRecord) (hkey : n.key = pair.publicKey) (hfits : n.registration.Fits) (a : Anchor)
    (config : String) (hlength : (Wire.utf8 config).length ≤ Wire.maxLength)
    (hconfig : ∃ c, Capabilities.parse config = .ok c) (sent : Ping)
    (hsign : (Ping.unsigned pair.publicKey a config n).sign pair = .ok sent) (clocks : Readings) :
    ∃ p, Ping.receive clocks sent.encode = .ok p ∧ p.sigHash = sent.sigHash ∧ p.hash = sent.hash ∧
      ∀ (chain : ChainAccess) (params : StakeParams),
        (n.judge chain params false).outcome = .ok () →
        (∀ enforce, chain.checkAnchor a enforce = true) →
        (p.judge chain params).outcome = .ok () := by
  obtain ⟨c, hsigned, rfl⟩ := Ping.sign_eq_ok_iff.mp hsign
  let sent := (Ping.unsigned pair.publicKey a config n).withSignature c.octets.toList
  let received := (sent.readBack clocks.record).reconcile clocks.ping
  have hsent : sent.Fits := ⟨hlength, hfits, c.octets.length_toList.trans_le (by decide)⟩
  have hreceive : Ping.receive clocks sent.encode = .ok received := Ping.receive_encode clocks hsent
  have hbytes : received.signedBytes = sent.signedBytes := sent.signedBytes_readBack clocks.record
  refine ⟨received, hreceive, congrArg Hash.sha256d hbytes,
    Ping.hash_eq_of_signedBytes hbytes rfl, ?_⟩
  intro chain params hrecord hanchor
  have hjudge : (sent.judge chain params).outcome = .ok () :=
    Ping.outcome_judge_of_signed (KeyPair.recoverCompact_of_sign hsigned) hcompressed hkey hconfig
      hrecord (hanchor true)
  have hfields : received.fields = sent.fields := by
    have htier : sent.record.registration.tier.normal = sent.record.registration.tier :=
      NodeRecord.tier_normal_of_judge hrecord
    exact (Ping.fields_reconcile _ clocks.ping).trans (Ping.fields_readBack htier)
  have hseen : chain.checkAnchor n.lastSeen false = true :=
    (NodeRecord.outcome_judge_iff_judgeTier.mp hrecord).1
  rw [← hjudge]
  exact Ping.outcome_judge_congr hfields fun _ ↦ ⟨hanchor false, hseen⟩

/-! ## A ping about an old registration -/

/-- A chain without outputs that accepts one block as recent and another one as known. -/
def ChainAccess.ofTwoBlocks (recent known : Anchor) : ChainAccess where
  lookup _ := none
  checkAnchor a enforce := a = recent || (a = known && !enforce)

theorem KeyPair.recoverCompact_ofNonce {pair : KeyPair} {nonce : Curve.Scalar} {hash : Hash}
    {signed : Signature × RecoveryId}
    (h : Signature.ofNonce? nonce pair.secret (Signature.messageScalar hash) = some signed) :
    recoverCompact hash
        (CompactSignature.ofSignature signed.1 signed.2 pair.compressed).octets.toList =
      .ok ⟨pair.point, pair.compressed⟩ := by
  obtain ⟨hlow, k, point, hk⟩ := Signature.isLow_and_exists_ofNonce h
  rw [CompactSignature.recoverCompact_toList]
  exact CompactSignature.recover_ofSignature (hk.recover?_eq_some hlow pair.smul_generator)

/-- The bytes that the pair of the secret one signs a hash with, if its nonce is one. -/
def CompactSignature.byUnit (hash : Hash)
    (h : (Signature.ofNonce? 1 1 (Signature.messageScalar hash)).isSome) : List UInt8 :=
  let signed := (Signature.ofNonce? 1 1 (Signature.messageScalar hash)).get h
  (ofSignature signed.1 signed.2 true).octets.toList

theorem recoverCompact_byUnit (hash : Hash)
    (h : (Signature.ofNonce? 1 1 (Signature.messageScalar hash)).isSome) :
    recoverCompact hash (CompactSignature.byUnit hash h) =
      .ok ⟨(KeyPair.unit true).point, true⟩ := by
  have hnonce : Signature.ofNonce? 1 (KeyPair.unit true).secret (Signature.messageScalar hash) =
      some ((Signature.ofNonce? 1 1 (Signature.messageScalar hash)).get h) :=
    (Option.some_get h).symm
  have hrecover := KeyPair.recoverCompact_ofNonce hnonce
  rw [CompactSignature.byUnit]
  exact hrecover

/-- The signature of the free sample with the nonce one. -/
def CompactSignature.ofUnitNonce : List UInt8 := byUnit sampleHash (by decide +kernel)

theorem recoverCompact_ofUnitNonce :
    recoverCompact Registration.freeSample.sigHash CompactSignature.ofUnitNonce =
      .ok ⟨(KeyPair.unit true).point, true⟩ := by
  rw [Registration.sigHash_freeSample]
  exact recoverCompact_byUnit sampleHash _

/-- The free sample with its signature, as a record in which a useless config was noted. -/
def NodeRecord.signedSample : NodeRecord :=
  ((receive 5 (Registration.freeSample.withSignature CompactSignature.ofUnitNonce)).setConfig
    "BTC,50").notePing 8

theorem NodeRecord.fits_signedSample : signedSample.registration.Fits := ⟨by decide, by decide⟩

/-- The block at which the sample pings. -/
def Anchor.recentSample : Anchor := { height := 500, hash := .replicate 32 0xc1 }

/-- The chain on which the block of the free sample is known, but not recent any more. -/
def ChainAccess.ofSamples : ChainAccess := .ofTwoBlocks .recentSample Registration.freeSample.anchor

theorem NodeRecord.outcome_judge_signedSample :
    (signedSample.judge .ofSamples {} false).outcome = .ok () := by
  have hkey : signedSample.key = (KeyPair.unit true).publicKey := rfl
  exact outcome_judge_of_selfSigned (by decide) rfl rfl hkey recoverCompact_ofUnitNonce

/-- What the sample node signs when it pings. -/
def Ping.unsignedSample : Ping :=
  .unsigned (KeyPair.unit true).publicKey .recentSample "50,BTC" .signedSample

theorem Ping.exists_sign_unsignedSample_eq_ok :
    ∃ sent, unsignedSample.sign (.unit true) = .ok sent := by
  have hsigned : ((KeyPair.unit true).signature? unsignedSample.sigHash).isSome = true := by
    simp only [KeyPair.signature?, Signature.ofNonce?, Curve.smul_generator_eq_toPoint]
    decide +kernel
  obtain ⟨c, hc⟩ := KeyPair.exists_sign_eq_ok hsigned
  exact ⟨_, sign_eq_ok_iff.mpr ⟨c, hc, rfl⟩⟩

theorem Capabilities.parse_sample :
    parse "50,BTC" = .ok { protocol := 50, services := ["BTC"] } := by
  decide +kernel

/-- The block of the registration is not recent, and the sender had noted another config. -/
theorem honest_ping_admitted_old_registration :
    ∃ sent p, Ping.unsignedSample.sign (.unit true) = .ok sent ∧
      (NodeRecord.signedSample.judge .ofSamples {} false).outcome = .ok () ∧
      Ping.receive ⟨9, 10⟩ sent.encode = .ok p ∧ p.hash = sent.hash ∧
      (p.judge .ofSamples {}).outcome = .ok () := by
  obtain ⟨sent, hsign⟩ := Ping.exists_sign_unsignedSample_eq_ok
  obtain ⟨p, hreceive, -, hhash, hjudge⟩ := honest_ping_admitted (.unit true) rfl .signedSample rfl
    NodeRecord.fits_signedSample .recentSample "50,BTC" (by decide)
    ⟨_, Capabilities.parse_sample⟩ sent hsign ⟨9, 10⟩
  have hrecord := NodeRecord.outcome_judge_signedSample
  have haccepted : ∀ enforce, ChainAccess.ofSamples.checkAnchor .recentSample enforce = true :=
    fun _ ↦ rfl
  exact ⟨sent, p, hsign, hrecord, hreceive, hhash, hjudge _ {} hrecord haccepted⟩

/-- What the sample node sends can be read and received, and is admitted in both forms. -/
theorem Ping.exists_received_sample :
    ∃ bytes p q, (Ping.reader 7).whole bytes = .ok p ∧ Ping.receive ⟨9, 10⟩ bytes = .ok q ∧
      (p.judge .ofSamples {}).outcome = .ok () ∧ (q.judge .ofSamples {}).outcome = .ok () := by
  obtain ⟨sent, hsign⟩ := exists_sign_unsignedSample_eq_ok
  obtain ⟨c, hsigned, rfl⟩ := sign_eq_ok_iff.mp hsign
  let sent := unsignedSample.withSignature c.octets.toList
  have hconfig : (Wire.utf8 unsignedSample.config).length ≤ Wire.maxLength := by decide
  have hfits : sent.Fits :=
    ⟨hconfig, NodeRecord.fits_signedSample, c.octets.length_toList.trans_le (by decide)⟩
  have hread : (reader 7).whole sent.encode = .ok (sent.readBack 7) :=
    Wire.Reader.whole_of_append (reader_encode hfits [])
  obtain ⟨q, hreceive, hfields, hlast⟩ := exists_receive_of_whole hread ⟨9, 10⟩
  have hsent : (sent.judge .ofSamples {}).outcome = .ok () :=
    outcome_judge_of_signed (KeyPair.recoverCompact_of_sign hsigned) rfl rfl
      ⟨_, Capabilities.parse_sample⟩ NodeRecord.outcome_judge_signedSample rfl
  -- The chain knows both blocks that are noted in the copies of the record.
  have hknown : ChainAccess.ofSamples.checkAnchor Registration.freeSample.anchor false = true := rfl
  have hseen : ChainAccess.ofSamples.checkAnchor q.record.lastSeen false = true := by
    rw [hlast]
    rfl
  have hp : ((sent.readBack 7).judge .ofSamples {}).outcome = .ok () := by
    rw [← hsent]
    exact outcome_judge_congr (fields_readBack rfl) fun _ ↦ ⟨hknown, hknown⟩
  have hq : (q.judge .ofSamples {}).outcome = .ok () := by
    rw [← hp]
    exact outcome_judge_congr hfields fun _ ↦ ⟨hseen, hknown⟩
  exact ⟨sent.encode, sent.readBack 7, q, hread, hreceive, hp, hq⟩

/-! ## The record of an admitted ping -/

/-- **The record of an admitted ping can stand alone.** It is of the node that pinged and was seen
at the block of the ping. It is admitted with the demand for a recent block, however old the block
of its registration is. Its config is that of the ping, and although the lenient reading is noted of
it, that is what the strict reading says: a version of at least one, and the tags. -/
theorem admitted_ping_snapshot (clocks : Readings) (bytes : List UInt8) (chain : ChainAccess)
    (params : StakeParams) (p : Ping) (hreceive : Ping.receive clocks bytes = .ok p)
    (hjudge : (p.judge chain params).outcome = .ok ()) :
    p.record.key = p.key ∧ p.record.lastSeen = p.anchor ∧
      (p.record.judge chain params true).outcome = .ok () ∧
      p.record.config = p.config ∧
      Capabilities.parse p.config = .ok p.record.capabilities ∧
      1 ≤ p.record.capabilities.protocol := by
  obtain ⟨q, -, rfl⟩ := Ping.receive_eq_ok_iff.mp hreceive
  obtain ⟨henvelope, hrecord⟩ := Ping.outcome_judge_iff_judgeEnvelope.mp hjudge
  obtain ⟨hanchor, -, hkey, ⟨c, hc⟩, -⟩ := Ping.outcome_judgeEnvelope_eq_ok_iff.mp henvelope
  have hknown : chain.checkAnchor q.anchor false = true :=
    (NodeRecord.outcome_judge_iff_judgeTier.mp hrecord).1
  have hcapabilities : Capabilities.parseLenient q.config = c :=
    Capabilities.parseLenient_of_parse hc
  have hpositive : 1 ≤ c.protocol := by
    obtain ⟨-, hne, -⟩ := Capabilities.parse_eq_ok_iff.mp hc
    rw [UInt32.le_iff_toNat_le]
    exact Nat.one_le_iff_ne_zero.mpr fun hzero ↦ hne (UInt32.toNat_inj.mp hzero)
  refine ⟨hkey.symm, rfl, ?_, rfl, ?_, ?_⟩
  · -- The block noted in the record is the ping's, which was accepted as a recent one.
    rw [← hrecord]
    exact NodeRecord.outcome_judge_congr rfl hanchor hknown
  · exact hc.trans (congrArg Except.ok hcapabilities.symm)
  · exact hpositive.trans_eq (congrArg Capabilities.protocol hcapabilities.symm)

/-- The record of the sample ping is admitted at a recent block, which its registration's is not. -/
theorem admitted_ping_snapshot_old_registration :
    ChainAccess.ofSamples.checkAnchor Registration.freeSample.anchor true = false ∧
      ∃ bytes p, Ping.receive ⟨9, 10⟩ bytes = .ok p ∧ (p.judge .ofSamples {}).outcome = .ok () ∧
        (p.record.judge .ofSamples {} true).outcome = .ok () ∧
        1 ≤ p.record.capabilities.protocol := by
  obtain ⟨bytes, -, p, -, hreceive, -, hjudge⟩ := Ping.exists_received_sample
  obtain ⟨-, -, hrecord, -, -, hpositive⟩ :=
    admitted_ping_snapshot ⟨9, 10⟩ bytes .ofSamples {} p hreceive hjudge
  exact ⟨rfl, bytes, p, hreceive, hjudge, hrecord, hpositive⟩

/-! ## The ping as it was read -/

/-- **Reconciling only relaxes, and only through the block of the registration.** Bytes that are
read as a ping are received at any time. On a chain for which recent blocks are known blocks, as
they are for every view, the received ping is admitted if the ping as it was read is; and the two
verdicts are the same, reason included, if the chain knows the block of the registration. -/
theorem reconciling_only_relaxes :
    (∀ v : View, v.access.RecentAreKnown) ∧
    ∀ (clock : Time) (clocks : Readings) (bytes : List UInt8) (p : Ping),
      (Ping.reader clock).whole bytes = .ok p →
      ∃ q, Ping.receive clocks bytes = .ok q ∧
        ∀ (chain : ChainAccess) (params : StakeParams), chain.RecentAreKnown →
          ((p.judge chain params).outcome = .ok () → (q.judge chain params).outcome = .ok ()) ∧
          (chain.checkAnchor p.record.registration.anchor false = true →
            (q.judge chain params).outcome = (p.judge chain params).outcome) := by
  refine ⟨View.recentAreKnown_access, ?_⟩
  intro clock clocks bytes p hread
  obtain ⟨q, hreceive, hfields, hlast⟩ := Ping.exists_receive_of_whole hread clocks
  refine ⟨q, hreceive, ?_⟩
  intro chain params hknown
  have hanchors : q.anchor = p.anchor := congrArg (fun travels ↦ travels.2.1) hfields
  have hsame : chain.checkAnchor p.record.lastSeen false = true →
      (q.judge chain params).outcome = (p.judge chain params).outcome := by
    intro hseen
    refine Ping.outcome_judge_congr hfields fun hanchor ↦ ⟨?_, hseen⟩
    rw [hlast, ← hanchors]
    exact hknown _ hanchor
  obtain ⟨⟨-, -, hfresh⟩, -⟩ := Ping.reader_eq_ok_iff.mp (Wire.Reader.whole_eq_ok_iff.mp hread)
  constructor
  · -- Where the ping as read is admitted, the block of its record was accepted.
    intro hjudge
    obtain ⟨-, hrecord⟩ := Ping.outcome_judge_iff_judgeEnvelope.mp hjudge
    rw [hsame (NodeRecord.outcome_judge_iff_judgeTier.mp hrecord).1, hjudge]
  · -- A record as it was read was seen at the block of its registration.
    intro hregistration
    rw [hfresh] at hsame
    exact hsame hregistration

/-- The sample ping is admitted as it was read, so it is admitted as it is received. -/
theorem reconciling_only_relaxes_sample :
    ChainAccess.ofSamples.RecentAreKnown ∧
      ∃ bytes p q, (Ping.reader 7).whole bytes = .ok p ∧ Ping.receive ⟨9, 10⟩ bytes = .ok q ∧
        (p.judge .ofSamples {}).outcome = .ok () ∧ (q.judge .ofSamples {}).outcome = .ok () := by
  have hknown : ChainAccess.ofSamples.RecentAreKnown := by
    intro a h
    obtain rfl : a = .recentSample := by
      simpa [ChainAccess.ofSamples, ChainAccess.ofTwoBlocks] using h
    rfl
  obtain ⟨bytes, p, -, hread, -, hjudge, -⟩ := Ping.exists_received_sample
  obtain ⟨q, hreceive, hverdicts⟩ := reconciling_only_relaxes.2 7 ⟨9, 10⟩ bytes p hread
  exact ⟨hknown, bytes, p, q, hread, hreceive, hjudge, (hverdicts _ {} hknown).1 hjudge⟩

end NodeAdmission
