import NodeAdmission.Record.Registration
/-!
# Pings

A ping claims that the holder of a key has seen a block and offers what a config says, consistent
with the registration that the ping carries along.

As for registrations, the hashed bytes and the bytes that travel are two lists of fields, which
agree by `Ping.encode_eq_append` and `Ping.identityBytes_eq_encode`.
-/

namespace NodeAdmission

open Wire

/-- A ping with the record of its node. -/
structure Ping where
  /-- The key of the node. -/
  key : IdentityKey
  /-- The block that the node has seen. -/
  anchor : Anchor
  /-- What the node offers. -/
  config : String
  /-- The registration that the ping carries, and what was noted of it. -/
  record : NodeRecord
  /-- The signature of the node. -/
  signature : List UInt8
deriving DecidableEq

/-- The readings of the clock that are taken while a ping is received. The clock runs on in between,
and may be set back. -/
structure Readings where
  /-- The reading at which the record in the ping is read. -/
  record : Time
  /-- The reading at which the ping is noted in the record. -/
  ping : Time

/-- A clock that stands still. -/
instance : Coe Time Readings := ⟨fun clock ↦ ⟨clock, clock⟩⟩

namespace Ping

/-- The bytes that are signed. -/
def signedBytes (p : Ping) : List UInt8 :=
  p.key.bytes ++ p.anchor.encode ++ varText p.config ++ p.record.encode

/-- The hash that is signed. -/
def sigHash (p : Ping) : Hash := Hash.sha256d p.signedBytes

/-- The bytes that identify a ping. -/
def identityBytes (p : Ping) : List UInt8 := p.signedBytes ++ varBytes p.signature

/-- The identity of a ping. -/
def hash (p : Ping) : Hash := Hash.sha256d p.identityBytes

/-- The bytes of a ping. -/
def encode (p : Ping) : List UInt8 :=
  p.key.bytes ++ p.anchor.encode ++ varText p.config ++ p.record.encode ++ varBytes p.signature

/-- What travels is what is signed, and the signature. -/
theorem encode_eq_append (p : Ping) : p.encode = p.signedBytes ++ varBytes p.signature := by
  rw [encode, signedBytes]

/-- A ping is identified by the bytes that travel, unlike a record. -/
theorem identityBytes_eq_encode (p : Ping) : p.identityBytes = p.encode := by
  rw [identityBytes, encode_eq_append]

theorem hash_eq_sha256d_encode (p : Ping) : p.hash = Hash.sha256d p.encode := by
  rw [hash, identityBytes_eq_encode]

theorem hash_eq_of_signedBytes {p q : Ping} (h : p.signedBytes = q.signedBytes)
    (hsignature : p.signature = q.signature) : p.hash = q.hash := by
  rw [hash, hash, identityBytes, identityBytes, h, hsignature]

/-- Reads a ping at a reading of the clock. -/
def reader (clock : Time) : Reader Ping := do
  let key ← .octets 33
  let anchor ← Anchor.reader
  let config ← .varText
  let record ← NodeRecord.reader clock
  let signature ← .varBytes
  return { key := ⟨key⟩, anchor, config, record, signature }

/-- The ping with its block and its config noted in the record that it carries. -/
def reconcile (p : Ping) (clock : Time) : Ping :=
  { p with record := ((p.record.setLastSeen p.anchor).setConfig p.config).notePing clock }

/-- The ping whose encoding the bytes are, read and then reconciled. -/
def receive (clocks : Readings) (bytes : List UInt8) : Except DecodeError Ping :=
  (fun p ↦ p.reconcile clocks.ping) <$> (reader clocks.record).whole bytes

/-- The ping signed with a key pair. -/
def sign (p : Ping) (pair : KeyPair) : Except KeyError Ping := do
  let signature ← pair.sign p.sigHash
  return { p with signature := signature.octets.toList }

end Ping

end NodeAdmission
