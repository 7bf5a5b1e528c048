import NodeAdmission.Hash.Sha256
import NodeAdmission.Hash.Ripemd160
/-!
# Hashes in use

Records and transactions are named by a double SHA-256. Keys and scripts are named by the 20 bytes
of RIPEMD-160 over SHA-256. The keyed hash `hmac` feeds the choice of signature nonces.
-/

namespace NodeAdmission.Hash

/-- SHA-256 of SHA-256, the hash of signed preimages, records and transactions. -/
def sha256d (message : List UInt8) : Hash := sha256 (sha256 message).toList

/-- RIPEMD-160 of SHA-256, the identity of keys and scripts. -/
def hash160 (message : List UInt8) : KeyId := ripemd160 (sha256 message).toList

/-- A key of a keyed hash, filled up with zeros to one block, each byte combined with `mask`. -/
def maskedKey (mask : UInt8) (key : List UInt8) : List UInt8 :=
  let short := if key.length ≤ 64 then key else (sha256 key).toList
  (short ++ List.replicate (64 - short.length) 0).map (· ^^^ mask)

/-- The keyed hash of a message on SHA-256. -/
def hmac (key message : List UInt8) : Hash :=
  sha256 (maskedKey 0x5c key ++ (sha256 (maskedKey 0x36 key ++ message)).toList)

end NodeAdmission.Hash
