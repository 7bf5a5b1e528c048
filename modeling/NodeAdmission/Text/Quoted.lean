import NodeAdmission.Text.Printable
/-!
# Quoted text

Text between double quotes, in a form that shows every character. Quotes, backslashes and the usual
control characters are written with a backslash, and every character that could not be seen alone
(an extender, or one that is not printable) by its code point.
-/

namespace NodeAdmission.Text

/-- The lowercase hexadecimal digits of a number, without leading zeros. -/
def hexNumeral (n : Nat) : List Char := Nat.toDigits 16 n

/-- The code point of a character in braces. -/
def codeEscape (c : Char) : List Char := '\\' :: 'u' :: '\x7b' :: hexNumeral c.toNat ++ ['\x7d']

/-- A character as it stands between the quotes. -/
def quotedChar (c : Char) : List Char :=
  match c with
  | '\x00' => ['\\', '0']
  | '\t' => ['\\', 't']
  | '\r' => ['\\', 'r']
  | '\n' => ['\\', 'n']
  | '"' => ['\\', '"']
  | '\\' => ['\\', '\\']
  | c => if isExtender c || !isPrintable c then codeEscape c else [c]

/-- The text between quotes. -/
def quoted (s : String) : String := String.ofList ('"' :: s.toList.flatMap quotedChar ++ ['"'])

end NodeAdmission.Text
