import NodeAdmission.Key.Pair
import NodeAdmission.Record.Capabilities
import NodeAdmission.Stake.Tier
/-!
# Registrations

A registration claims that a key, at a tier, backed by collateral, belongs to a live service
provider that has seen a block. This is what travels. A receiver keeps it as a `NodeRecord`, which
adds what the receiver itself has noted: times, the last anchor seen, and the config.

The hashes are taken over bytes that have names of their own here, so that what a hash commits to
can be stated without speaking of the hash. Their fields are listed apart from those of the encoding
that travels; how the two lists agree is a theorem (`Registration.encode_eq_append`).
-/

namespace NodeAdmission

open Wire

/-! ## The claim -/

/-- A registration as it travels. -/
structure Registration where
  /-- The key of the node. -/
  key : IdentityKey
  /-- The tier at which it serves. -/
  tier : Tier
  /-- Where payments go; zero for none. -/
  paymentKeyHash : KeyId
  /-- The outputs that back the registration. -/
  collateral : List OutPoint
  /-- The block that the node had seen when it signed. -/
  anchor : Anchor
  /-- The signature of the node, or of the owner of its collateral. -/
  signature : List UInt8
deriving DecidableEq

namespace Registration

/-- The bytes that are signed. -/
def signedBytes (r : Registration) : List UInt8 :=
  r.key.bytes ++ u8 r.tier.toByte ++ r.paymentKeyHash.toList ++ list OutPoint.encode r.collateral ++
    r.anchor.encode

/-- The hash that is signed. -/
def sigHash (r : Registration) : Hash := Hash.sha256d r.signedBytes

/-- The bytes of a registration. -/
def encode (r : Registration) : List UInt8 :=
  r.key.bytes ++ u8 r.tier.toByte ++ r.paymentKeyHash.toList ++ list OutPoint.encode r.collateral ++
    r.anchor.encode ++ varBytes r.signature

/-- What travels is what is signed, and the signature. -/
theorem encode_eq_append (r : Registration) : r.encode = r.signedBytes ++ varBytes r.signature := by
  rw [encode, signedBytes]

/-- Reads a registration. -/
def reader : Reader Registration := do
  let key ← .octets 33
  let tier ← .u8
  let paymentKeyHash ← .octets 20
  let collateral ← .list OutPoint.reader OutPoint.encodedSize
  let anchor ← Anchor.reader
  let signature ← .varBytes
  return { key := ⟨key⟩, tier := .ofByte tier, paymentKeyHash, collateral, anchor, signature }

/-- The registration signed with a key pair. -/
def sign (r : Registration) (pair : KeyPair) : Except KeyError Registration := do
  let signature ← pair.sign r.sigHash
  return { r with signature := signature.octets.toList }

end Registration

/-! ## Time -/

/-- A time in seconds from the start of 1970. -/
abbrev Time := Int64

/-- The time that is noted for a reading of the clock, which is never before 1970. -/
def Time.noted (clock : Time) : Time := if clock < 0 then 0 else clock

/-! ## The record -/

/-- A registration with what its receiver has noted. -/
structure NodeRecord where
  /-- The registration. -/
  registration : Registration
  /-- When it was received. -/
  regTime : Time
  /-- When the last ping was received; zero for never. -/
  pingTime : Time
  /-- The last block that the node is known to have seen. -/
  lastSeen : Anchor
  /-- The config of the last ping. -/
  config : String
  /-- What that config says. -/
  capabilities : Capabilities
deriving DecidableEq

namespace NodeRecord

/-- A registration received at a reading of the clock. -/
def receive (clock : Time) (r : Registration) : NodeRecord where
  registration := r
  regTime := clock.noted
  pingTime := 0
  lastSeen := r.anchor
  config := ""
  capabilities := { protocol := 0, services := [] }

/-- The key of the node. -/
def key (n : NodeRecord) : IdentityKey := n.registration.key

/-- The record of a node whose key is not even tagged as one. -/
def isNull (n : NodeRecord) : Bool := !n.key.hasPointTag

/-- The record with another last block seen. -/
def setLastSeen (n : NodeRecord) (a : Anchor) : NodeRecord := { n with lastSeen := a }

/-- The record with a config, whatever it says. -/
def setConfig (n : NodeRecord) (config : String) : NodeRecord :=
  { n with config, capabilities := .parseLenient config }

/-- The record with a ping noted at a reading of the clock. -/
def notePing (n : NodeRecord) (clock : Time) : NodeRecord := { n with pingTime := clock.noted }

/-- The bytes that identify the record. -/
def identityBytes (n : NodeRecord) : List UInt8 :=
  n.registration.signedBytes ++ varText n.config ++ varBytes n.registration.signature ++
    i64 n.regTime

/-- The identity of the record. -/
def hash (n : NodeRecord) : Hash := Hash.sha256d n.identityBytes

/-- The bytes of a record, which are those of its registration. -/
def encode (n : NodeRecord) : List UInt8 := n.registration.encode

/-- Reads a record at a reading of the clock. -/
def reader (clock : Time) : Reader NodeRecord := receive clock <$> Registration.reader

/-- The record with its registration signed. -/
def sign (n : NodeRecord) (pair : KeyPair) : Except KeyError NodeRecord := do
  let registration ← n.registration.sign pair
  return { n with registration }

/-- Records are ordered by their keys, which alone tell them apart. -/
instance : Ord NodeRecord := ⟨fun a b ↦ compare a.key b.key⟩

/-- The records are of one node. -/
def sameNode (a b : NodeRecord) : Bool := compare a b == .eq

end NodeRecord

end NodeAdmission
