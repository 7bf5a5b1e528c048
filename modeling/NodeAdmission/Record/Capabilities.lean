import NodeAdmission.Text.Blank
import NodeAdmission.Text.Decimal
import NodeAdmission.Text.Quoted
/-!
# Capability configs

A node tells what it offers in one text, such as `50,BTC,LTC`: a protocol version and then tags,
separated by commas and spaces. Pings must carry a config that `parse` accepts; to a record any
config can be assigned, as `parseLenient` reads it.
-/

namespace NodeAdmission

/-- Why a config is refused. -/
inductive ConfigError where
  /-- There is no text. -/
  | empty
  /-- The first token is not a number of 32 bits. -/
  | invalidProtocolVersion (token : String)
  /-- The version is zero. -/
  | nonPositiveProtocolVersion
deriving DecidableEq

/-- The wording of a refusal. -/
def ConfigError.message : ConfigError → String
  | empty => "empty config"
  | invalidProtocolVersion token => "invalid protocol version: " ++ Text.quoted token
  | nonPositiveProtocolVersion => "protocol version must be positive"

/-- What a config says. -/
structure Capabilities where
  /-- The protocol version; zero stands for none. -/
  protocol : UInt32
  /-- The tags in order. -/
  services : List String
deriving DecidableEq

namespace Capabilities

/-! ## Tokens -/

/-- The character separates tokens. -/
def isDelimiter (c : Char) : Bool := c == ',' || c == ' '

/-- The first token and the further ones. Tokens are empty where delimiters meet. -/
def tokens : List Char → List Char × List (List Char)
  | [] => ([], [])
  | c :: cs =>
    let rest := tokens cs
    if isDelimiter c then ([], rest.1 :: rest.2) else (c :: rest.1, rest.2)

/-- The tokens that are not empty. -/
def tags (ts : List (List Char)) : List String :=
  (ts.filter fun t ↦ !t.isEmpty).map String.ofList

/-! ## The protocol version -/

/-- The version that a token spells: a numeral of at most 32 bits, with white space around it. -/
def version? (token : List Char) : Option UInt32 :=
  match Text.numeral? (Text.trim token) with
  | some n => if n < UInt32.size then some (UInt32.ofNat n) else none
  | none => none

/-- The version that a token spells, or the refusal of the token as it was given. -/
def parseVersion (token : List Char) : Except ConfigError UInt32 :=
  match version? token with
  | some v => .ok v
  | none => .error (.invalidProtocolVersion (String.ofList token))

/-! ## Configs -/

/-- Reads a config that starts with a version of at least one. A config that starts with a
delimiter has an empty first token, which is no version. -/
def parse (config : String) : Except ConfigError Capabilities :=
  if config.isEmpty then .error .empty
  else
    let (first, more) := tokens config.toList
    match parseVersion first with
    | .error e => .error e
    | .ok v =>
      if v = 0 then .error .nonPositiveProtocolVersion
      else .ok { protocol := v, services := tags more }

/-- Reads any config. Empty tokens are dropped first; where the first of the others is no version,
the version is zero and that token is a tag. -/
def parseLenient (config : String) : Capabilities :=
  let (first, more) := tokens config.toList
  match tags (first :: more) with
  | [] => { protocol := 0, services := [] }
  | t :: ts =>
    match version? t.toList with
    | some v => { protocol := v, services := ts }
    | none => { protocol := 0, services := t :: ts }

end Capabilities

end NodeAdmission
