import NodeAdmission.Json.Value
import NodeAdmission.Proofs.Text.Numeral
/-!
# The texts of a JSON value

A value can be written in many ways: with white space around it and around its parts, with a
character of a string as itself or as an escape, and with a numeral that is not the shortest. This
module says which texts spell a value (`Json.Spells`), as a grammar that no parser takes part in.

White space around a value is part of its text. So a list of items is nothing but their texts with
commas between them, and a member is the text of its name, a colon and the text of its value.
-/

namespace NodeAdmission.Json

/-- The text is white space, of which there are four characters. -/
def IsBlank (text : List Char) : Prop := ∀ c ∈ text, c = ' ' ∨ c = '\t' ∨ c = '\n' ∨ c = '\r'

instance (text : List Char) : Decidable (IsBlank text) :=
  List.decidableBAll (fun c ↦ c = ' ' ∨ c = '\t' ∨ c = '\n' ∨ c = '\r') text

/-! ## Strings -/

/-- The character is the hexadecimal digit for `d`, in either case. -/
def IsHexDigit (d : ℕ) (c : Char) : Prop :=
  d < 16 ∧ (c = Nat.digitChar d ∨ c = (Nat.digitChar d).toUpper)

/-- The letters that may follow a backslash, each with the character that both stand for. -/
def shortEscapes : List (Char × Char) :=
  [('"', '"'), ('\\', '\\'), ('/', '/'), ('b', '\x08'), ('f', '\x0c'), ('n', '\n'), ('r', '\r'),
    ('t', '\t')]

/-- The code units of what stands between two quotes. A character may stand for itself, unless it is
a quote, a backslash or a control character. -/
inductive SpellsUnits : List ℕ → List Char → Prop where
  | nil : SpellsUnits [] []
  | plain {units : List ℕ} {text : List Char} {c : Char} (hcontrol : 0x20 ≤ c.toNat)
    (hquote : c ≠ '"') (hbackslash : c ≠ '\\') (h : SpellsUnits units text) :
    SpellsUnits (c.toNat :: units) (c :: text)
  | short {units : List ℕ} {text : List Char} {letter c : Char}
    (hshort : (letter, c) ∈ shortEscapes) (h : SpellsUnits units text) :
    SpellsUnits (c.toNat :: units) ('\\' :: letter :: text)
  | hex {units : List ℕ} {text : List Char} {i j k l : ℕ} {a b c d : Char} (ha : IsHexDigit i a)
    (hb : IsHexDigit j b) (hc : IsHexDigit k c) (hd : IsHexDigit l d)
    (h : SpellsUnits units text) :
    SpellsUnits ((4096 * i + 256 * j + 16 * k + l) :: units)
      ('\\' :: 'u' :: a :: b :: c :: d :: text)

/-- The characters that code units stand for. Beyond the first `2 ^ 16`, a character may be written
as one unit or as the two halves of a surrogate pair. -/
inductive IsUnits : List Char → List ℕ → Prop where
  | nil : IsUnits [] []
  | one {cs : List Char} {units : List ℕ} (c : Char) (h : IsUnits cs units) :
    IsUnits (c :: cs) (c.toNat :: units)
  | pair {cs : List Char} {units : List ℕ} {c : Char} (hc : 0x1_0000 ≤ c.toNat)
    (h : IsUnits cs units) :
    IsUnits (c :: cs) ((0xd800 + (c.toNat - 0x1_0000) / 0x400) ::
      (0xdc00 + (c.toNat - 0x1_0000) % 0x400) :: units)

/-! ## Numerals -/

/-- Decimal digits, at least one. -/
def IsDigits (run : List Char) : Prop := run ≠ [] ∧ ∀ c ∈ run, c.isDigit = true

/-- Decimal digits, the first of which is not a zero unless it is the only one. -/
def IsWhole (run : List Char) : Prop := IsDigits run ∧ (run.head? = some '0' → run = ['0'])

/-- Nothing, or a point and digits. -/
def IsFraction (text : List Char) : Prop := text = [] ∨ ∃ run, text = '.' :: run ∧ IsDigits run

/-- Nothing, or a letter, at most one sign and digits. -/
def IsExponent (text : List Char) : Prop :=
  text = [] ∨ ∃ letter sign run, text = letter :: sign ++ run ∧ (letter = 'e' ∨ letter = 'E') ∧
    (sign = [] ∨ sign = ['+'] ∨ sign = ['-']) ∧ IsDigits run

/-! ## Values -/

/-- A member of an object, with the texts of its name and its value. -/
structure MemberText where
  name : Option (List Char)
  nameText : List Char
  value : Json
  valueText : List Char

namespace MemberText

/-- The member. -/
def toMember (m : MemberText) : Option (List Char) × Json := (m.name, m.value)

/-- The text of the member. -/
def text (m : MemberText) : List Char := m.nameText ++ ':' :: m.valueText

end MemberText

/-- The text spells the value. -/
inductive Spells : Json → List Char → Prop where
  | null : Spells null "null".toList
  | true : Spells (bool true) "true".toList
  | false : Spells (bool false) "false".toList
  | natural {run : List Char} (h : IsWhole run) : Spells (natural (Text.decimalValue run)) run
  /-- A numeral with a sign, a fraction or an exponent is kept as it is written. -/
  | numeral {sign whole fraction exponent : List Char} (hsign : sign = [] ∨ sign = ['-'])
    (hwhole : IsWhole whole) (hfraction : IsFraction fraction) (hexponent : IsExponent exponent)
    (hplain : ¬(sign = [] ∧ fraction = [] ∧ exponent = [])) :
    Spells (numeral (sign ++ whole ++ fraction ++ exponent))
      (sign ++ whole ++ fraction ++ exponent)
  /-- A string has a content if its units stand for characters. -/
  | string {content : Option (List Char)} {units : List ℕ} {text : List Char}
    (h : SpellsUnits units text) (hcontent : ∀ cs, content = some cs ↔ IsUnits cs units) :
    Spells (string content) ('"' :: text ++ ['"'])
  | emptyArray {blank : List Char} (h : IsBlank blank) :
    Spells (array []) ('[' :: blank ++ [']'])
  | array {items : List (Json × List Char)} (hne : items ≠ [])
    (h : ∀ item ∈ items, Spells item.1 item.2) :
    Spells (array (items.map Prod.fst)) ('[' :: [','].intercalate (items.map Prod.snd) ++ [']'])
  | emptyObject {blank : List Char} (h : IsBlank blank) :
    Spells (object []) ('\x7b' :: blank ++ ['\x7d'])
  | object {members : List MemberText} (hne : members ≠ [])
    (hname : ∀ m ∈ members, Spells (string m.name) m.nameText)
    (hvalue : ∀ m ∈ members, Spells m.value m.valueText) :
    Spells (object (members.map MemberText.toMember))
      ('\x7b' :: [','].intercalate (members.map MemberText.text) ++ ['\x7d'])
  | padded {v : Json} {before text after : List Char} (hbefore : IsBlank before)
    (h : Spells v text) (hafter : IsBlank after) : Spells v (before ++ text ++ after)

end NodeAdmission.Json
