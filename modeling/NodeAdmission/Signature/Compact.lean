import NodeAdmission.Curve.Encoding
import NodeAdmission.Hash.Digest
import NodeAdmission.Key.Error
import NodeAdmission.Signature.Ecdsa
/-!
# Compact signatures

The 65 bytes `header ‖ r ‖ s` of a signature that carries its own recovery identifier. The header
is 27 plus the identifier, plus four if the signer's key identity is that of the compressed form.
-/

namespace NodeAdmission

open Curve

/-! ## The recovery identifier as a number -/

namespace RecoveryId

/-- The identifier as a number from 0 to 3. -/
def toNat (id : RecoveryId) : Nat := id.xOverflow.toNat * 2 + id.yOdd.toNat

/-- The identifier that the two low bits of a number spell. -/
def ofNat (n : Nat) : RecoveryId := { xOverflow := n / 2 % 2 == 1, yOdd := n % 2 == 1 }

theorem ofNat_toNat (id : RecoveryId) : ofNat id.toNat = id := by
  rcases id with ⟨_ | _, _ | _⟩ <;> rfl

end RecoveryId

/-! ## Recovered keys -/

/-- The key that a compact signature was recovered to. -/
structure RecoveredKey where
  /-- The public key. -/
  point : Affine
  /-- The signer identifies itself by the compressed form. -/
  compressed : Bool
deriving DecidableEq

namespace RecoveredKey

/-- The key in the form that its signer uses. -/
def serialize (key : RecoveredKey) : List UInt8 := key.point.serialize key.compressed

/-- The identity of the key in the form that its signer uses. -/
def keyId (key : RecoveredKey) : KeyId := Hash.hash160 key.serialize

end RecoveredKey

/-! ## The 65 bytes -/

/-- A signature in 65 bytes, not yet looked into. -/
@[ext]
structure CompactSignature where
  /-- The header, then `r` and `s`. -/
  octets : Octets 65
deriving DecidableEq

namespace CompactSignature

/-- The least header. -/
def headerBase : Nat := 27

/-- The bytes as a compact signature, which has 65 of them. -/
def ofBytes? (bytes : List UInt8) : Except KeyError CompactSignature :=
  match Octets.ofList? 65 bytes with
  | some octets => .ok ⟨octets⟩
  | none => .error (.invalidSignatureLength bytes.length)

/-- The header byte. -/
def header (c : CompactSignature) : UInt8 := c.octets.get 0

/-- The signature, if `r` and `s` are nonzero scalars. -/
def signature? (c : CompactSignature) : Option Signature :=
  let r := ofBigEndian ((c.octets.toList.drop 1).take 32)
  let s := ofBigEndian (c.octets.toList.drop 33)
  if h : (0 < r ∧ r < groupOrder) ∧ 0 < s ∧ s < groupOrder then
    some
      { r := ⟨r, h.1.2⟩
        s := ⟨s, h.2.2⟩
        r_ne_zero := fun e ↦ Nat.ne_of_gt h.1.1 (Fin.val_eq_of_eq e)
        s_ne_zero := fun e ↦ Nat.ne_of_gt h.2.1 (Fin.val_eq_of_eq e) }
  else none

/-- The 65 bytes of a signature. -/
def ofSignature (sig : Signature) (id : RecoveryId) (compressed : Bool) : CompactSignature where
  octets :=
    { toList := UInt8.ofNat (headerBase + id.toNat + if compressed then 4 else 0) ::
        (bigEndian 32 sig.r.val ++ bigEndian 32 sig.s.val)
      length_toList := by simp }

/-- The key that signed a hash. The header is judged first, then `r` and `s`, then recovery. -/
def recover (c : CompactSignature) (hash : Hash) : Except KeyError RecoveredKey :=
  if c.header < 27 ∨ 34 < c.header then .error (.invalidRecoveryHeader c.header)
  else
    let flags := c.header.toNat - headerBase
    match c.signature? with
    | none => .error .invalidSignatureFormat
    | some sig =>
      match sig.recover? (.ofNat flags) (Signature.messageScalar hash) with
      | none => .error .recoveryFailed
      | some point => .ok { point, compressed := flags / 4 == 1 }

/-- The signature as log lines show it. -/
def describe (c : CompactSignature) : String := s!"CompactSignature(header={c.header.toNat})"

end CompactSignature

/-- The key that signed a hash, by the bytes of a compact signature. -/
def recoverCompact (hash : Hash) (signature : List UInt8) : Except KeyError RecoveredKey :=
  CompactSignature.ofBytes? signature >>= fun c ↦ c.recover hash

end NodeAdmission
