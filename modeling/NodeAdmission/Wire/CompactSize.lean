import NodeAdmission.Wire.Reader
/-!
# Compact sizes

A 64-bit number in one, three, five or nine bytes:

| Number | Bytes |
|--------|-------|
| below `0xfd` | the number |
| up to `0xffff` | `0xfd` and two bytes |
| up to `0xffff_ffff` | `0xfe` and four bytes |
| above | `0xff` and eight bytes |

Only the shortest form is read, so a number has one form.
-/

namespace NodeAdmission.Wire

/-- A number as a compact size. -/
def compactSize (n : UInt64) : List UInt8 :=
  if n.toNat < 0xfd then [UInt8.ofNat n.toNat]
  else if n.toNat ≤ 0xffff then 0xfd :: littleEndian 2 n.toNat
  else if n.toNat ≤ 0xffff_ffff then 0xfe :: littleEndian 4 n.toNat
  else 0xff :: littleEndian 8 n.toNat

namespace Reader

/-- Reads a number of `width` bytes that is too large for the shorter forms. -/
def atLeast (least width : Nat) : Reader UInt64 := do
  let n ← number width
  if n < least then fail .nonMinimalCompactSize else return UInt64.ofNat n

/-- Reads a compact size. -/
def compactSize : Reader UInt64 := do
  let tag ← u8
  if tag = 0xfd then atLeast 0xfd 2
  else if tag = 0xfe then atLeast 0x1_0000 4
  else if tag = 0xff then atLeast 0x1_0000_0000 8
  else return tag.toUInt64

end Reader

end NodeAdmission.Wire
