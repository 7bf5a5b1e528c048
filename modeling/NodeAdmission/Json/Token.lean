import NodeAdmission.Json.Value
/-!
# Tokens of JSON text

A JSON text is first cut into tokens: brackets, commas, colons and scalar values. White space
between tokens is a space, a tab, a line feed or a carriage return, and nothing else.
-/

namespace NodeAdmission.Json

/-- A token. -/
inductive Token where
  | openArray
  | closeArray
  | openObject
  | closeObject
  | comma
  | colon
  /-- A literal, a numeral or a string. -/
  | scalar (v : Json)

namespace Token

/-! ## Strings -/

/-- The character that a letter after a backslash stands for. -/
def shortEscape? (c : Char) : Option Char :=
  match c with
  | '"' => some '"'
  | '\\' => some '\\'
  | '/' => some '/'
  | 'b' => some '\x08'
  | 'f' => some '\x0c'
  | 'n' => some '\n'
  | 'r' => some '\r'
  | 't' => some '\t'
  | _ => none

/-- The number that four hexadecimal digits spell. -/
def fourDigits? (a b c d : Char) : Option Nat := do
  return 4096 * (← Text.hexDigit? a) + 256 * (← Text.hexDigit? b) + 16 * (← Text.hexDigit? c) +
    (← Text.hexDigit? d)

/-- The code units up to the closing quote, put after those in `units` (newest first), and the text
behind the quote. A character stands for its code point; an escape may give half a surrogate pair.
-/
def stringUnits? (units : List Nat) : List Char → Option (List Nat × List Char)
  | '"' :: rest => some (units.reverse, rest)
  | '\\' :: 'u' :: a :: b :: c :: d :: rest =>
    fourDigits? a b c d >>= fun n ↦ stringUnits? (n :: units) rest
  | '\\' :: c :: rest => shortEscape? c >>= fun e ↦ stringUnits? (e.toNat :: units) rest
  | c :: rest => if c.toNat < 0x20 ∨ c = '\\' then none else stringUnits? (c.toNat :: units) rest
  | [] => none

/-- The unit is the first half of a surrogate pair. -/
def isHighSurrogate (n : Nat) : Bool := 0xd800 ≤ n && n < 0xdc00

/-- The unit is the second half of a surrogate pair. -/
def isLowSurrogate (n : Nat) : Bool := 0xdc00 ≤ n && n < 0xe000

/-- The characters that code units spell, if every surrogate is part of a pair. -/
def characters? : List Nat → Option (List Char)
  | [] => some []
  | high :: low :: rest =>
    if isHighSurrogate high then
      if isLowSurrogate low then
        (characters? rest).map
          (Char.ofNat (0x10000 + (high - 0xd800) * 0x400 + (low - 0xdc00)) :: ·)
      else none
    else if isLowSurrogate high then none
    else (characters? (low :: rest)).map (Char.ofNat high :: ·)
  | [unit] => if isHighSurrogate unit || isLowSurrogate unit then none else some [Char.ofNat unit]

/-! ## Numerals -/

/-- A nonempty run of digits, and the text behind it. -/
def digitRun? (cs : List Char) : Option (List Char × List Char) :=
  let run := cs.takeWhile Char.isDigit
  if run.isEmpty then none else some (run, cs.dropWhile Char.isDigit)

/-- The whole part of a numeral: a zero, or digits that do not start with one. -/
def wholePart? (cs : List Char) : Option (List Char × List Char) :=
  match cs with
  | '0' :: rest => some (['0'], rest)
  | cs => digitRun? cs

/-- The fraction of a numeral, which may be missing. -/
def fraction? (cs : List Char) : Option (List Char × List Char) :=
  match cs with
  | '.' :: rest => (digitRun? rest).map fun (run, rest) ↦ ('.' :: run, rest)
  | cs => some ([], cs)

/-- The exponent of a numeral, which may be missing. -/
def exponent? (cs : List Char) : Option (List Char × List Char) :=
  match cs with
  | [] => some ([], [])
  | e :: rest =>
    if e = 'e' ∨ e = 'E' then
      let (sign, rest) :=
        match rest with
        | '+' :: rest => (['+'], rest)
        | '-' :: rest => (['-'], rest)
        | rest => ([], rest)
      (digitRun? rest).map fun (run, rest) ↦ (e :: sign ++ run, rest)
    else some ([], cs)

/-- A numeral, and the text behind it. -/
def numeral? (cs : List Char) : Option (Json × List Char) := do
  let (sign, cs) := match cs with
    | '-' :: cs => (['-'], cs)
    | cs => ([], cs)
  let (whole, cs) ← wholePart? cs
  let (fraction, cs) ← fraction? cs
  let (exponent, cs) ← exponent? cs
  if sign.isEmpty && fraction.isEmpty && exponent.isEmpty then
    return (.natural (← Text.digits? whole), cs)
  else return (.numeral (sign ++ whole ++ fraction ++ exponent), cs)

/-! ## Tokens -/

/-- The text behind a word that the text starts with. -/
def after? (word : List Char) (cs : List Char) : Option (List Char) :=
  if cs.take word.length = word then some (cs.drop word.length) else none

/-- The character is white space between tokens. -/
def isSpace (c : Char) : Bool := c == ' ' || c == '\t' || c == '\n' || c == '\r'

/-- The token that a text starts with, and the text behind it. -/
def first? (cs : List Char) : Option (Token × List Char) :=
  match cs with
  | '[' :: rest => some (openArray, rest)
  | ']' :: rest => some (closeArray, rest)
  | '\x7b' :: rest => some (openObject, rest)
  | '\x7d' :: rest => some (closeObject, rest)
  | ',' :: rest => some (comma, rest)
  | ':' :: rest => some (colon, rest)
  | '"' :: rest =>
    (stringUnits? [] rest).map fun (units, rest) ↦ (scalar (.string (characters? units)), rest)
  | 'n' :: rest => (after? "ull".toList rest).map fun rest ↦ (scalar .null, rest)
  | 't' :: rest => (after? "rue".toList rest).map fun rest ↦ (scalar (.bool true), rest)
  | 'f' :: rest => (after? "alse".toList rest).map fun rest ↦ (scalar (.bool false), rest)
  | cs => (numeral? cs).map fun (v, rest) ↦ (scalar v, rest)

/-- The tokens of a text of at most `fuel` characters, put after those in `tokens` (newest first).
-/
def scanFrom (tokens : List Token) : Nat → List Char → Option (List Token)
  | fuel, cs =>
    match cs.dropWhile isSpace with
    | [] => some tokens.reverse
    | c :: rest =>
      match fuel with
      | 0 => none
      | fuel + 1 => first? (c :: rest) >>= fun (token, rest) ↦ scanFrom (token :: tokens) fuel rest

/-- The tokens of a text. -/
def scan? (cs : List Char) : Option (List Token) := scanFrom [] cs.length cs

end Token

end NodeAdmission.Json
