import NodeAdmission.Hash.Digest
/-!
# Destinations of outputs

Who an output pays, read off its script. Three forms are known: the hash of a key, a key in full
(which pays the hash of that key), and the hash of a script.
-/

namespace NodeAdmission

/-- Who an output pays. -/
inductive Destination where
  /-- The owner of the key with this identity. -/
  | keyHash (id : KeyId)
  /-- Whoever meets the script with this identity. -/
  | scriptHash (id : KeyId)
deriving DecidableEq

namespace Destination

/-! ## Script instructions -/

/-- Duplicates the key. -/
def opDup : UInt8 := 0x76

/-- Hashes the key or the script. -/
def opHash160 : UInt8 := 0xa9

/-- Compares two hashes. -/
def opEqual : UInt8 := 0x87

/-- Compares two hashes and goes on if they are equal. -/
def opEqualVerify : UInt8 := 0x88

/-- Checks a signature. -/
def opCheckSig : UInt8 := 0xac

/-! ## Reading a script -/

/-- The 20 bytes in front of a given ending. -/
def hashBefore? (ending bytes : List UInt8) : Option KeyId :=
  if bytes.drop 20 = ending then Octets.ofList? 20 (bytes.take 20) else none

/-- The bytes start as a key of that length starts: compressed in 33 bytes, in full in 65. -/
def isKeyOfLength (length : UInt8) (key : List UInt8) : Bool :=
  key.length == length.toNat &&
    match key.head? with
    | some tag => (length == 33 && (tag == 2 || tag == 3)) || (length == 65 && tag == 4)
    | none => false

/-- The destination of a script of one of the three forms. -/
def ofScript? (script : List UInt8) : Option Destination :=
  match script with
  | 0x76 :: 0xa9 :: 20 :: rest => keyHash <$> hashBefore? [opEqualVerify, opCheckSig] rest
  | 0xa9 :: 20 :: rest => scriptHash <$> hashBefore? [opEqual] rest
  | length :: rest =>
    let key := rest.dropLast
    if rest.getLast? = some opCheckSig ∧ isKeyOfLength length key then
      some (keyHash (Hash.hash160 key))
    else none
  | [] => none

/-- The key identity, if a single key is paid. -/
def keyHash? : Destination → Option KeyId
  | keyHash id => some id
  | scriptHash _ => none

/-! ## Writing a script -/

/-- The script that pays the hash of a key. -/
def payToKeyHash (id : KeyId) : List UInt8 :=
  [opDup, opHash160, 20] ++ id.toList ++ [opEqualVerify, opCheckSig]

end Destination

end NodeAdmission
