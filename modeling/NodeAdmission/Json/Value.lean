import NodeAdmission.Text.Decimal
import NodeAdmission.Text.Hex
/-!
# JSON values

A value as a tree, and its compact text. Members of an object keep their order, and a name may occur
more than once: what that means is for whoever takes the tree apart.

A JSON text can spell strings that are no sequence of characters, by an escape for one half of a
surrogate pair without the other. Such a string is kept as `none`.
-/

namespace NodeAdmission

/-- A JSON value. -/
inductive Json where
  | null
  | bool (b : Bool)
  /-- A numeral of digits only. -/
  | natural (n : Nat)
  /-- Any other numeral, as it is written. -/
  | numeral (text : List Char)
  /-- A string, if it is a sequence of characters. -/
  | string (content : Option (List Char))
  | array (items : List Json)
  | object (members : List (Option (List Char) × Json))

namespace Json

/-! ## Compact text -/

/-- The four hexadecimal digits of a 16-bit number. -/
def fourDigits (n : Nat) : List Char :=
  [Nat.digitChar (n / 4096 % 16), Nat.digitChar (n / 256 % 16), Nat.digitChar (n / 16 % 16),
    Nat.digitChar (n % 16)]

/-- A character as it stands in a string. -/
def spellChar (c : Char) : List Char :=
  if c = '"' then ['\\', '"']
  else if c = '\\' then ['\\', '\\']
  else if c.toNat < 0x20 then '\\' :: 'u' :: fourDigits c.toNat
  else [c]

/-- A string between its quotes. -/
def spellString (content : Option (List Char)) : List Char :=
  match content with
  | some cs => '"' :: cs.flatMap spellChar ++ ['"']
  | none => '"' :: '\\' :: 'u' :: fourDigits 0xd800 ++ ['"']

mutual

/-- The text of a value, without white space. -/
def spell : Json → List Char
  | null => "null".toList
  | bool true => "true".toList
  | bool false => "false".toList
  | natural n => Nat.toDigits 10 n
  | numeral text => text
  | string content => spellString content
  | array items => '[' :: spellItems items ++ [']']
  | object members => '\x7b' :: spellMembers members ++ ['\x7d']

/-- The texts of the items of an array, with commas between them. -/
def spellItems : List Json → List Char
  | [] => []
  | [v] => spell v
  | v :: vs => spell v ++ ',' :: spellItems vs

/-- The texts of the members of an object, with commas between them. -/
def spellMembers : List (Option (List Char) × Json) → List Char
  | [] => []
  | [(name, v)] => spellString name ++ ':' :: spell v
  | (name, v) :: ms => spellString name ++ ':' :: spell v ++ ',' :: spellMembers ms

end

/-- A member under a name. -/
def member (name : String) (v : Json) : Option (List Char) × Json := (some name.toList, v)

end Json

end NodeAdmission
