import NodeAdmission.Proofs.Record.RoundTrip
import NodeAdmission.Proofs.Wire.Delimited
/-!
# What hashes commit to

Four byte strings are hashed: what is signed of a registration, what identifies a record, what is
signed of a ping, and what identifies a ping. Each of them is equal for two values exactly if the
values agree in the fields that it is made of (`hashed_bytes_commit`), so a hash can only stay the
same under a change of such a field if the change is a collision, and no other field matters to it.

Nothing frames the fields: the collateral stands before the anchor, and a config of any length
before a signature and a time. Each field has to tell by itself where it ends. Readers accept much
less than what can be hashed, so the statements do not go through reading back.
-/

namespace NodeAdmission

open Wire

variable {x y : List UInt8}

/-! ## Fields -/

theorem OutPoint.encode_append_eq_append_iff {o p : OutPoint} :
    o.encode ++ x = p.encode ++ y ↔ o = p ∧ x = y :=
  append_eq_append_iff_of_reader OutPoint.reader_eq_ok_iff

theorem Anchor.encode_append_eq_append_iff {a b : Anchor} :
    a.encode ++ x = b.encode ++ y ↔ a = b ∧ x = y :=
  append_eq_append_iff_of_reader Anchor.reader_eq_ok_iff

/-! ## Registrations -/

namespace Registration

/-- Two registrations make the same claim: all of it that is signed. Tiers count by their bytes. -/
structure SameClaim (r s : Registration) : Prop where
  key : r.key = s.key
  tierByte : r.tier.toByte = s.tier.toByte
  paymentKeyHash : r.paymentKeyHash = s.paymentKeyHash
  collateral : r.collateral = s.collateral
  anchor : r.anchor = s.anchor

/-- The number of outpoints and the length of the signature can be written. -/
structure Countable (r : Registration) : Prop where
  collateral : r.collateral.length < UInt64.size
  signature : r.signature.length < UInt64.size

variable {r s : Registration}

theorem signedBytes_append_eq_append_iff (hr : r.collateral.length < UInt64.size)
    (hs : s.collateral.length < UInt64.size) :
    r.signedBytes ++ x = s.signedBytes ++ y ↔ r.SameClaim s ∧ x = y := by
  have hkey : r.key.octets = s.key.octets ↔ r.key = s.key := IdentityKey.ext_iff.symm
  -- From the left, every field is split off what follows it.
  simp only [signedBytes, IdentityKey.bytes, List.append_assoc]
  rw [octets_append_eq_append_iff, u8_append_eq_append_iff, octets_append_eq_append_iff,
    list_append_eq_append_iff OutPoint.encode_append_eq_append_iff hr hs,
    Anchor.encode_append_eq_append_iff, hkey]
  constructor
  · rintro ⟨hkey, htier, hpayment, hcollateral, hanchor, hrest⟩
    exact ⟨⟨hkey, htier, hpayment, hcollateral, hanchor⟩, hrest⟩
  · rintro ⟨⟨hkey, htier, hpayment, hcollateral, hanchor⟩, hrest⟩
    exact ⟨hkey, htier, hpayment, hcollateral, hanchor, hrest⟩

theorem signedBytes_eq_iff (hr : r.collateral.length < UInt64.size)
    (hs : s.collateral.length < UInt64.size) :
    r.signedBytes = s.signedBytes ↔ r.SameClaim s := by
  simpa using signedBytes_append_eq_append_iff (x := []) (y := []) hr hs

theorem encode_append_eq_append_iff (hr : r.Countable) (hs : s.Countable) :
    r.encode ++ x = s.encode ++ y ↔ (r.SameClaim s ∧ r.signature = s.signature) ∧ x = y := by
  rw [encode_eq_append, encode_eq_append, List.append_assoc, List.append_assoc,
    signedBytes_append_eq_append_iff hr.collateral hs.collateral,
    varBytes_append_eq_append_iff hr.signature hs.signature, and_assoc]

end Registration

/-! ## Records -/

namespace NodeRecord

/-- Two records have the same identity. What was noted of pings, the config apart, is none of it. -/
structure SameIdentity (m n : NodeRecord) : Prop where
  claim : m.registration.SameClaim n.registration
  config : m.config = n.config
  signature : m.registration.signature = n.registration.signature
  regTime : m.regTime = n.regTime

/-- The lengths in a record can be written. -/
structure Countable (n : NodeRecord) : Prop where
  registration : n.registration.Countable
  config : (utf8 n.config).length < UInt64.size

theorem identityBytes_eq_iff {m n : NodeRecord} (hm : m.Countable) (hn : n.Countable) :
    m.identityBytes = n.identityBytes ↔ m.SameIdentity n := by
  have htime : i64 m.regTime = i64 n.regTime ↔ m.regTime = n.regTime := by
    simpa using i64_append_eq_append_iff (a := m.regTime) (b := n.regTime) (s := []) (t := [])
  simp only [identityBytes, List.append_assoc]
  rw [Registration.signedBytes_append_eq_append_iff hm.registration.collateral
      hn.registration.collateral, varText_append_eq_append_iff hm.config hn.config,
    varBytes_append_eq_append_iff hm.registration.signature hn.registration.signature, htime]
  constructor
  · rintro ⟨hclaim, hconfig, hsignature, htime⟩
    exact ⟨hclaim, hconfig, hsignature, htime⟩
  · rintro ⟨hclaim, hconfig, hsignature, htime⟩
    exact ⟨hclaim, hconfig, hsignature, htime⟩

end NodeRecord

/-! ## Pings -/

namespace Ping

/-- Two pings make the same claim: all of it that is signed. Of the records that they carry, that is
what travels. -/
structure SameClaim (p q : Ping) : Prop where
  key : p.key = q.key
  anchor : p.anchor = q.anchor
  config : p.config = q.config
  registration : p.record.registration.SameClaim q.record.registration
  registrationSignature : p.record.registration.signature = q.record.registration.signature

/-- The lengths in a ping can be written. -/
structure Countable (p : Ping) : Prop where
  config : (utf8 p.config).length < UInt64.size
  registration : p.record.registration.Countable
  signature : p.signature.length < UInt64.size

variable {p q : Ping}

theorem signedBytes_append_eq_append_iff (hp : p.Countable) (hq : q.Countable) :
    p.signedBytes ++ x = q.signedBytes ++ y ↔ p.SameClaim q ∧ x = y := by
  have hkey : p.key.octets = q.key.octets ↔ p.key = q.key := IdentityKey.ext_iff.symm
  simp only [signedBytes, IdentityKey.bytes, NodeRecord.encode, List.append_assoc]
  rw [octets_append_eq_append_iff, Anchor.encode_append_eq_append_iff,
    varText_append_eq_append_iff hp.config hq.config,
    Registration.encode_append_eq_append_iff hp.registration hq.registration, hkey]
  constructor
  · rintro ⟨hkey, hanchor, hconfig, ⟨hclaim, hsignature⟩, hrest⟩
    exact ⟨⟨hkey, hanchor, hconfig, hclaim, hsignature⟩, hrest⟩
  · rintro ⟨⟨hkey, hanchor, hconfig, hclaim, hsignature⟩, hrest⟩
    exact ⟨hkey, hanchor, hconfig, ⟨hclaim, hsignature⟩, hrest⟩

theorem signedBytes_eq_iff (hp : p.Countable) (hq : q.Countable) :
    p.signedBytes = q.signedBytes ↔ p.SameClaim q := by
  simpa using signedBytes_append_eq_append_iff (x := []) (y := []) hp hq

theorem identityBytes_eq_iff (hp : p.Countable) (hq : q.Countable) :
    p.identityBytes = q.identityBytes ↔ p.SameClaim q ∧ p.signature = q.signature := by
  have hsignature : varBytes p.signature = varBytes q.signature ↔ p.signature = q.signature := by
    simpa using varBytes_append_eq_append_iff (s := []) (t := []) hp.signature hq.signature
  rw [identityBytes, identityBytes, signedBytes_append_eq_append_iff hp hq, hsignature]

end Ping

/-! ## The four hashes -/

/-- Two byte strings that differ and have one hash. -/
def Hash.Collision (x y : List UInt8) : Prop := x ≠ y ∧ sha256d x = sha256d y

theorem Hash.sha256d_eq_iff {agree : Prop} (h : x = y ↔ agree) :
    sha256d x = sha256d y ↔ agree ∨ Collision x y := by
  rw [← h]
  constructor
  · intro hhash
    by_cases hbytes : x = y
    · exact .inl hbytes
    · exact .inr ⟨hbytes, hhash⟩
  · rintro (rfl | hcollision)
    · rfl
    · exact hcollision.2

/-- **Hashes commit to fields.** The bytes that are hashed are equal exactly if all fields are that
they are made of, and then so are the hashes. The hashes of values that differ in such a field are
equal only if their bytes collide. -/
theorem hashed_bytes_commit :
    (∀ r s : Registration, r.collateral.length < UInt64.size → s.collateral.length < UInt64.size →
      (r.signedBytes = s.signedBytes ↔ r.SameClaim s) ∧
      (r.sigHash = s.sigHash ↔ r.SameClaim s ∨ Hash.Collision r.signedBytes s.signedBytes)) ∧
    (∀ m n : NodeRecord, m.Countable → n.Countable →
      (m.identityBytes = n.identityBytes ↔ m.SameIdentity n) ∧
      (m.hash = n.hash ↔ m.SameIdentity n ∨ Hash.Collision m.identityBytes n.identityBytes)) ∧
    ∀ p q : Ping, p.Countable → q.Countable →
      ((p.signedBytes = q.signedBytes ↔ p.SameClaim q) ∧
        (p.sigHash = q.sigHash ↔ p.SameClaim q ∨ Hash.Collision p.signedBytes q.signedBytes)) ∧
      (p.identityBytes = q.identityBytes ↔ p.SameClaim q ∧ p.signature = q.signature) ∧
      (p.hash = q.hash ↔ (p.SameClaim q ∧ p.signature = q.signature) ∨
        Hash.Collision p.identityBytes q.identityBytes) := by
  refine ⟨fun r s hr hs ↦ ?_, fun m n hm hn ↦ ?_, fun p q hp hq ↦ ?_⟩
  · have hbytes := Registration.signedBytes_eq_iff hr hs
    exact ⟨hbytes, Hash.sha256d_eq_iff hbytes⟩
  · have hbytes := NodeRecord.identityBytes_eq_iff hm hn
    exact ⟨hbytes, Hash.sha256d_eq_iff hbytes⟩
  · have hsigned := Ping.signedBytes_eq_iff hp hq
    have hbytes := Ping.identityBytes_eq_iff hp hq
    exact ⟨⟨hsigned, Hash.sha256d_eq_iff hsigned⟩, hbytes, Hash.sha256d_eq_iff hbytes⟩

/-- Neither the way in which a tier was built nor what a receiver noted changes the identity of a
ping; one letter of the config does change the bytes of it. -/
theorem hashed_bytes_commit_configs :
    ((Ping.ofTierAndConfig (.unrecognized 50) "50,BTC").Countable ∧
      ((Ping.ofTierAndConfig .spv "50,BTC").reconcile 7).Countable ∧
      (Ping.ofTierAndConfig .spv "50,BTX").Countable) ∧
    (Ping.ofTierAndConfig (.unrecognized 50) "50,BTC").hash =
      ((Ping.ofTierAndConfig .spv "50,BTC").reconcile 7).hash ∧
    (Ping.ofTierAndConfig (.unrecognized 50) "50,BTC").identityBytes ≠
      (Ping.ofTierAndConfig .spv "50,BTX").identityBytes := by
  have hfirst : (Ping.ofTierAndConfig (.unrecognized 50) "50,BTC").Countable :=
    ⟨by decide, ⟨by decide, by decide⟩, by decide⟩
  have hsecond : ((Ping.ofTierAndConfig .spv "50,BTC").reconcile 7).Countable :=
    ⟨by decide, ⟨by decide, by decide⟩, by decide⟩
  have hthird : (Ping.ofTierAndConfig .spv "50,BTX").Countable :=
    ⟨by decide, ⟨by decide, by decide⟩, by decide⟩
  obtain ⟨-, -, hpings⟩ := hashed_bytes_commit
  refine ⟨⟨hfirst, hsecond, hthird⟩, ?_, ?_⟩
  · have hclaim : (Ping.ofTierAndConfig (.unrecognized 50) "50,BTC").SameClaim
        ((Ping.ofTierAndConfig .spv "50,BTC").reconcile 7) :=
      ⟨rfl, rfl, rfl, ⟨rfl, rfl, rfl, rfl, rfl⟩, rfl⟩
    exact (hpings _ _ hfirst hsecond).2.2.mpr (.inl ⟨hclaim, rfl⟩)
  · intro hbytes
    obtain ⟨hclaim, -⟩ := (hpings _ _ hfirst hthird).2.1.mp hbytes
    exact absurd hclaim.config (by decide)

end NodeAdmission
