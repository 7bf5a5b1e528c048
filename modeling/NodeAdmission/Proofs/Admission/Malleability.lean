import NodeAdmission.Proofs.Admission.Relay
import NodeAdmission.Proofs.Record.Commitment
import NodeAdmission.Proofs.Signature.Malleability
/-!
# One admitted encoding for a claim and a nonce

A signature stands behind what it signs, so whoever passes a record or a ping on could replace it
without touching the claim, and a ping with another signature is another ping to everybody who tells
pings apart by their hash. Knowing the signature alone, one can negate its `s` and edit the parity
in its header. Neither gives a second admitted encoding of the claim (`signatures_not_malleable`).

For a ping and for a free registration the claim itself says who has to sign. For a staked one the
chain does: the memory of scripts is empty at the first outpoint, so whatever hashes collide, the
first output is found to pay the signer.
-/

namespace NodeAdmission

variable {chain : ChainAccess} {params : StakeParams}

/-! ## Who has to sign -/

namespace Registration

variable {r s : Registration}

theorem key_and_tierByte_of_signedBytes (h : r.signedBytes = s.signedBytes) :
    r.key = s.key ∧ r.tier.toByte = s.tier.toByte := by
  simp only [signedBytes, IdentityKey.bytes, List.append_assoc] at h
  obtain ⟨hkey, hrest⟩ := Wire.octets_append_eq_append_iff.mp h
  exact ⟨IdentityKey.ext hkey, (Wire.u8_append_eq_append_iff.mp hrest).1⟩

/-- The chain or the claim says that a key has to sign the registration. -/
def MustSign (chain : ChainAccess) (r : Registration) (id : KeyId) : Prop :=
  (r.tier = .free ∧ id = r.key.keyId) ∨
    (r.tier = .spv ∧ r.collateral.length < UInt64.size ∧
      ∃ o os out, r.collateral = o :: os ∧ chain.Resolves o out ∧
        Destination.ofScript? out.script = some (.keyHash id))

theorem MustSign.unique {id id' : KeyId} (h : r.signedBytes = s.signedBytes)
    (hr : r.MustSign chain id) (hs : s.MustSign chain id') : id = id' := by
  obtain ⟨hkey, htier⟩ := key_and_tierByte_of_signedBytes h
  rcases hr with ⟨hfree, rfl⟩ | ⟨hspv, hcount, o, os, out, hlist, hresolves, hpays⟩
  · rcases hs with ⟨-, rfl⟩ | ⟨hspv', -⟩
    · rw [hkey]
    · rw [hfree, hspv'] at htier
      exact absurd htier (by decide)
  · rcases hs with ⟨hfree', -⟩ | ⟨-, hcount', o', os', out', hlist', hresolves', hpays'⟩
    · rw [hspv, hfree'] at htier
      exact absurd htier (by decide)
    · have hcollateral : o :: os = o' :: os' := by
        rw [← hlist, ← hlist']
        exact ((signedBytes_eq_iff hcount hcount').mp h).collateral
      obtain ⟨rfl, -⟩ := List.cons.inj hcollateral
      rw [hresolves.unique hresolves', hpays'] at hpays
      exact (Destination.keyHash.inj (Option.some.inj hpays)).symm

end Registration

theorem Collateral.pays_of_outcome_verify_cons {owner : KeyId} {o : OutPoint} {os : List OutPoint}
    {total : Amount} (h : (verify chain owner (o :: os)).outcome = .ok total) :
    ∃ out, chain.Resolves o out ∧ Destination.ofScript? out.script = some (.keyHash owner) := by
  rw [verify, verifyFrom] at h
  simp only [Audit.outcome_bind_eq_ok_iff, Audit.outcome_get?_eq_ok_iff] at h
  obtain ⟨_, htx?, tx, htx, out, hout, h⟩ := h
  rw [if_neg List.not_mem_nil, Audit.outcome_bind_eq_ok_iff] at h
  obtain ⟨_, hpays, -⟩ := h
  exact ⟨out, ⟨tx, (Except.ok.inj htx?).trans htx, hout⟩,
    paysOwner_iff.mp (Audit.outcome_require_eq_ok_iff.mp hpays)⟩

theorem NodeRecord.exists_signer_of_judge {n : NodeRecord} {enforce : Bool}
    (h : (n.judge chain params enforce).outcome = .ok ()) :
    ∃ key, recoverCompact n.registration.sigHash n.registration.signature = .ok key ∧
      n.registration.MustSign chain key.keyId := by
  obtain ⟨-, -, htier⟩ := outcome_judge_iff_judgeTier.mp h
  rcases Registration.outcome_judgeTier_eq_ok_iff.mp htier with ⟨hfree, hself⟩ | ⟨hspv, hstaked⟩
  · obtain ⟨key, hkey, hid⟩ := Registration.outcome_judgeSelfSigned_eq_ok_iff.mp hself
    exact ⟨key, hkey, .inl ⟨hfree, hid⟩⟩
  · obtain ⟨-, hset, id, hsigner, total, hverify, -⟩ :=
      Registration.outcome_judgeStaked_eq_ok_iff_steps.mp hstaked
    obtain ⟨key, hkey, rfl⟩ := Audit.outcome_signerOf_eq_ok_iff.mp hsigner
    obtain ⟨-, hpos, hle⟩ := Collateral.checkSet_eq_ok_iff.mp hset
    obtain ⟨o, os, hlist⟩ := List.exists_cons_of_length_pos hpos
    rw [hlist] at hverify
    obtain ⟨out, hresolves, hpays⟩ := Collateral.pays_of_outcome_verify_cons hverify
    exact ⟨key, hkey, .inr ⟨hspv, hle.trans_lt (UInt64.toNat_lt_size _), o, os, out, hlist,
      hresolves, hpays⟩⟩

theorem Ping.exists_signer_of_judge {p : Ping} (h : (p.judge chain params).outcome = .ok ()) :
    ∃ key, recoverCompact p.sigHash p.signature = .ok key ∧ key.keyId = p.key.keyId := by
  obtain ⟨henvelope, -⟩ := outcome_judge_iff_judgeEnvelope.mp h
  obtain ⟨-, -, -, -, hsigner⟩ := outcome_judgeEnvelope_eq_ok_iff.mp henvelope
  exact hsigner

theorem Ping.key_of_signedBytes {p q : Ping} (h : p.signedBytes = q.signedBytes) :
    p.key = q.key := by
  simp only [signedBytes, IdentityKey.bytes, List.append_assoc] at h
  exact IdentityKey.ext (Wire.octets_append_eq_append_iff.mp h).1

/-! ## One signature -/

open CompactSignature in
/-- **Compact signatures are not malleable.** Of the signatures of one hash with one nonce and one
form, no two recover to one key, and none with a negated `s` recovers to any. So of two admitted
records, or two admitted pings, that sign the same bytes, neither has the other's signature with a
negated `s`, under any header; and if the signatures differ only in the parity of the header and in
`s`, they do not differ, and pings have one hash, unless two keys are found that have one
identity. -/
theorem signatures_not_malleable :
    (∀ hash bytes bytes' key key', recoverCompact hash bytes = .ok key →
      recoverCompact hash bytes' = .ok key' → SharesNonce bytes bytes' →
      key.point = key'.point → bytes = bytes') ∧
    (∀ hash bytes key, recoverCompact hash bytes = .ok key →
      ∀ header key', recoverCompact hash (negated header bytes) ≠ .ok key') ∧
    (∀ chain params params' enforce enforce' (m n : NodeRecord),
      (m.judge chain params enforce).outcome = .ok () →
      (n.judge chain params' enforce').outcome = .ok () →
      m.registration.signedBytes = n.registration.signedBytes →
      (∀ header, n.registration.signature ≠ negated header m.registration.signature) ∧
      (SharesNonce m.registration.signature n.registration.signature →
        m.registration.signature = n.registration.signature ∨
          SignersCollide m.registration.sigHash m.registration.signature
            n.registration.signature)) ∧
    ∀ chain chain' params params' (p q : Ping), (p.judge chain params).outcome = .ok () →
      (q.judge chain' params').outcome = .ok () → p.signedBytes = q.signedBytes →
      (∀ header, q.signature ≠ negated header p.signature) ∧
      (SharesNonce p.signature q.signature →
        (p.signature = q.signature ∧ p.hash = q.hash) ∨
          SignersCollide p.sigHash p.signature q.signature) := by
  refine ⟨?_, ?_, ?_, ?_⟩
  · intro hash bytes bytes' key key' h h' hshares hpoint
    exact eq_of_point_eq h h' hshares hpoint
  · intro hash bytes key h header key'
    exact recoverCompact_negated_ne_ok h header
  · intro chain params params' enforce enforce' m n hm hn hbytes
    obtain ⟨key, hkey, hmust⟩ := NodeRecord.exists_signer_of_judge hm
    obtain ⟨key', hkey', hmust'⟩ := NodeRecord.exists_signer_of_judge hn
    have hhash : n.registration.sigHash = m.registration.sigHash :=
      congrArg Hash.sha256d hbytes.symm
    rw [hhash] at hkey'
    exact not_malleable hkey hkey' (hmust.unique hbytes hmust')
  · intro chain chain' params params' p q hp hq hbytes
    obtain ⟨key, hkey, hid⟩ := Ping.exists_signer_of_judge hp
    obtain ⟨key', hkey', hid'⟩ := Ping.exists_signer_of_judge hq
    have hhash : q.sigHash = p.sigHash := congrArg Hash.sha256d hbytes.symm
    have hsame : key.keyId = key'.keyId := by
      rw [hid, hid', Ping.key_of_signedBytes hbytes]
    rw [hhash] at hkey'
    obtain ⟨hnegated, hshared⟩ := not_malleable hkey hkey' hsame
    refine ⟨hnegated, fun hshares ↦ (hshared hshares).imp_left fun hsignature ↦ ?_⟩
    exact ⟨hsignature, Ping.hash_eq_of_signedBytes hbytes hsignature⟩

/-- With the other parity in its header a signature is still one, but of another key; and the sample
record is not admitted with its signature negated. -/
theorem signatures_not_malleable_samples :
    (∃ key key', recoverCompact (.zero 32) (CompactSignature.ofOverflow 34) = .ok key ∧
      recoverCompact (.zero 32) (CompactSignature.ofOverflow 33) = .ok key' ∧
      key.point ≠ key'.point) ∧
    (NodeRecord.signedSample.judge .ofSamples {} false).outcome = .ok () ∧
    ∀ header, ((NodeRecord.receive 5 (Registration.freeSample.withSignature
      (CompactSignature.negated header CompactSignature.ofUnitNonce))).judge .ofSamples {}
        false).outcome ≠ .ok () := by
  obtain ⟨hpoints, -, hrecords, -⟩ := signatures_not_malleable
  constructor
  · obtain ⟨hkey, hkey'⟩ := recoverCompact_ofOverflow
    refine ⟨_, _, hkey, hkey', fun hpoint ↦ ?_⟩
    have hbytes := hpoints _ _ _ _ _ hkey hkey' ⟨rfl, by decide, by decide⟩ hpoint
    exact absurd hbytes (by decide)
  · have hsample := NodeRecord.outcome_judge_signedSample
    refine ⟨hsample, fun header hnegated ↦ ?_⟩
    exact (hrecords _ _ _ _ _ _ _ hsample hnegated rfl).1 header rfl

end NodeAdmission
