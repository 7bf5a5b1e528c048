import NodeAdmission.Curve.Point
import NodeAdmission.Hash.Digest
/-!
# Deterministic nonces

The nonce of a signature is drawn from the secret and the signed hash by a generator built on a
keyed hash, following RFC 6979 but for one point: the 32 bytes of the hash are fed in as they are,
and not as the number that they are modulo the group order. A drawn number that is zero or not below
the group order is passed over. That happens once in about `2 ^ 128` draws, so the generator is
given a small bound on its draws, after which there is no nonce.
-/

namespace NodeAdmission.Signature

open Curve Hash

/-- What the generator remembers between draws. -/
structure Drawer where
  /-- The key of the keyed hash. -/
  key : List UInt8
  /-- The last output of the keyed hash. -/
  value : List UInt8

namespace Drawer

/-- Mixes further input into the key, and renews the value under the new key. -/
def mix (g : Drawer) (input : List UInt8) : Drawer :=
  let key := (hmac g.key (g.value ++ input)).toList
  { key, value := (hmac key g.value).toList }

/-- The generator for a secret and a hash, both as 32 bytes. -/
def seeded (secret : Scalar) (hash : Hash) : Drawer :=
  let input := bigEndian 32 secret.val ++ hash.toList
  let fresh : Drawer := { key := List.replicate 32 0, value := List.replicate 32 1 }
  (fresh.mix (0 :: input)).mix (1 :: input)

/-- The first number drawn that is a nonzero scalar, among at most `draws`. -/
def next? (g : Drawer) : Nat → Option Scalar
  | 0 => none
  | draws + 1 =>
    let value := (hmac g.key g.value).toList
    let k := ofBigEndian value
    if h : 0 < k ∧ k < groupOrder then some ⟨k, h.2⟩
    else (mix { g with value } [0]).next? draws

end Drawer

/-- The bound on the draws for one nonce. -/
def maxDraws : Nat := 64

/-- The nonce for a hash under a secret. -/
def nonce? (secret : Scalar) (hash : Hash) : Option Scalar :=
  (Drawer.seeded secret hash).next? maxDraws

end NodeAdmission.Signature
