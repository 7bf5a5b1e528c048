import NodeAdmission.Wire.CompactSize
/-!
# Fields with a length

Byte strings, texts and lists travel behind their length as a compact size. A length is accepted
only if the unread bytes can hold that many items of the least size an item has, so that no length
makes a reader set aside more room than the input is worth.
-/

namespace NodeAdmission.Wire

/-! ## Writing -/

/-- A byte string behind its length. -/
def varBytes (bytes : List UInt8) : List UInt8 :=
  compactSize (UInt64.ofNat bytes.length) ++ bytes

/-- The UTF-8 bytes of a text. -/
def utf8 (s : String) : List UInt8 := s.toByteArray.data.toList

/-- A text behind the number of its bytes. -/
def varText (s : String) : List UInt8 := varBytes (utf8 s)

/-- The items of a list behind their number. -/
def list {α : Type} (item : α → List UInt8) (items : List α) : List UInt8 :=
  compactSize (UInt64.ofNat items.length) ++ items.flatMap item

/-! ## Reading -/

/-- The largest length that is accepted. -/
def maxLength : Nat := 0x0200_0000

/-- The product of two sizes, or the largest 64-bit number if it is beyond that. -/
def saturatingMul (a b : Nat) : Nat := if a * b < UInt64.size then a * b else UInt64.size - 1

theorem saturatingMul_le_iff {a b k : Nat} (h : k < UInt64.size - 1) :
    saturatingMul a b ≤ k ↔ a * b ≤ k := by
  unfold saturatingMul
  split <;> omega

namespace Reader

variable {α : Type}

/-- Reads the length of a list whose items have at least `minItemSize` bytes, and at least one. -/
def length (minItemSize : Nat) : Reader Nat := do
  let n ← compactSize
  let unread ← remaining
  if maxLength < n.toNat ∨ unread < saturatingMul n.toNat (max minItemSize 1) then
    fail (.lengthTooLarge n)
  else return n.toNat

/-- Reads a byte string. -/
def varBytes : Reader (List UInt8) := do
  let n ← length 1
  let bytes ← octets n
  return bytes.toList

/-- Reads a text. -/
def varText : Reader String := do
  let bytes ← varBytes
  match String.fromUTF8? ⟨bytes.toArray⟩ with
  | some s => return s
  | none => fail .invalidUtf8

/-- Reads `count` items, put before those in `newest`, of which the last one read comes first. -/
def items (item : Reader α) : Nat → List α → Reader (List α)
  | 0, newest => fun unread ↦ (.ok newest.reverse, unread)
  | count + 1, newest => fun unread ↦
    match item unread with
    | (.ok a, rest) => items item count (a :: newest) rest
    | (.error e, rest) => (.error e, rest)

/-- Reads a list whose items have at least `minItemSize` bytes. -/
def list (item : Reader α) (minItemSize : Nat) : Reader (List α) := do
  let n ← length minItemSize
  items item n []

end Reader

end NodeAdmission.Wire
