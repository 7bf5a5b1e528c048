import NodeAdmission.Curve.Encoding
import NodeAdmission.Hash.Digest
import NodeAdmission.Key.Error
import NodeAdmission.Text.Hex
/-!
# Identity keys

The key of a service node travels as 33 bytes, which may be anything: whether they are a point of
the curve is asked by `isFullyValid` when a record is judged, not when it is read.
-/

namespace NodeAdmission

open Curve

/-- The 33 bytes that stand for a public key. -/
@[ext]
structure IdentityKey where
  /-- The bytes as they travel. -/
  octets : Octets 33
deriving DecidableEq

namespace IdentityKey

/-- The key of an uninitialised record: zero bytes only. -/
def null : IdentityKey := ⟨.zero 33⟩

/-- The bytes of the key. -/
def bytes (key : IdentityKey) : List UInt8 := key.octets.toList

/-- The first byte is the tag of a compressed point. The other bytes are not looked at. -/
def hasPointTag (key : IdentityKey) : Bool :=
  match key.bytes with
  | tag :: _ => tag == 2 || tag == 3
  | [] => false

/-- The point of the curve that the key denotes, in either form of its length. -/
def point? (key : IdentityKey) : Option Affine := Affine.ofShort? key.octets

/-- The bytes are the compressed form of a point of the curve. The tag is asked for because a key in
the compact form denotes a point that has a compressed form already. -/
def isFullyValid (key : IdentityKey) : Bool := key.hasPointTag && key.point?.isSome

/-- The key, if its bytes are the compressed form of a point. -/
def ofOctets? (octets : Octets 33) : Except KeyError IdentityKey :=
  if isFullyValid ⟨octets⟩ then .ok ⟨octets⟩ else .error .invalidPublicKey

/-- The identity of the key. -/
def keyId (key : IdentityKey) : KeyId := Hash.hash160 key.bytes

/-- Keys are ordered by their bytes. -/
instance : Ord IdentityKey := ⟨fun a b ↦ compare a.octets b.octets⟩

/-- The key as log lines show it. -/
def describe (key : IdentityKey) : String := s!"Secp256k1PublicKey({Text.hex key.bytes})"

end IdentityKey

end NodeAdmission
