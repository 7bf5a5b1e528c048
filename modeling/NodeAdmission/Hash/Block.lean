import NodeAdmission.Bytes
/-!
# Messages in blocks of 64 bytes

Both hash functions read a message in blocks of sixteen 32-bit words, after a padding that ends it:
one byte `0x80`, as few zero bytes as complete a block, and the message's length in bits as an
eight-byte number. They differ in the byte order of the words and of that number.
-/

namespace NodeAdmission.Hash

/-- The message followed by its padding, `bitLength` writing the number of bits. -/
def padded (bitLength : Nat → List UInt8) (message : List UInt8) : List UInt8 :=
  message ++ 0x80 :: List.replicate ((119 - message.length % 64) % 64) 0 ++
    bitLength (8 * message.length)

/-- The elements in groups of `n + 1`; elements left over at the end are dropped. -/
def groups {α : Type} (n : Nat) (xs : List α) : List (List α) :=
  if xs.length ≤ n then [] else xs.take (n + 1) :: groups n (xs.drop (n + 1))
termination_by xs.length
decreasing_by simp only [List.length_drop]; omega

/-- The 32-bit words of each block of the padded message, `word` reading four bytes. -/
def messageBlocks (bitLength : Nat → List UInt8) (word : List UInt8 → Nat)
    (message : List UInt8) : List (List UInt32) :=
  (groups 63 (padded bitLength message)).map fun block ↦
    (groups 3 block).map fun bytes ↦ UInt32.ofNat (word bytes)

/-- The word with its bits rotated to the left; `places` is between 1 and 31. -/
def rotateLeft (x places : UInt32) : UInt32 := x <<< places ||| x >>> (32 - places)

/-- The word with its bits rotated to the right; `places` is between 1 and 31. -/
def rotateRight (x places : UInt32) : UInt32 := x >>> places ||| x <<< (32 - places)

end NodeAdmission.Hash
