import NodeAdmission.Json.Token
/-!
# Values from tokens

The value that tokens spell is put together while one token after the other is taken: arrays and
objects that are not closed yet wait on a stack. The depth of a value is therefore limited by
nothing but the length of its text.
-/

namespace NodeAdmission.Json

/-- An array or an object that is still open, its parts newest first. -/
inductive Open where
  /-- An array that waits for an item. -/
  | array (items : List Json)
  /-- An object that waits for the value of a member. -/
  | object (members : List (Option (List Char) × Json)) (name : Option (List Char))

/-- What may come next. -/
inductive Expected where
  /-- A value. -/
  | value
  /-- The first item of an array, or its end. -/
  | itemOrEnd
  /-- The name of a member, behind the members that the object has already. -/
  | name (members : List (Option (List Char) × Json))
  /-- The name of the first member, or the end of the object. -/
  | nameOrEnd
  /-- The colon behind a name. -/
  | colon (members : List (Option (List Char) × Json)) (name : Option (List Char))
  /-- A comma, or the end of what encloses the value just completed. -/
  | continuation (v : Json)

/-- A document of which some tokens have been taken. -/
structure Progress where
  /-- What is still open, innermost first. -/
  stack : List Open
  /-- What may come next. -/
  expected : Expected

namespace Progress

/-- Nothing has been taken. -/
def start : Progress := { stack := [], expected := .value }

/-- Takes a token where a value is expected. -/
def takeValue? (stack : List Open) : Token → Option Progress
  | .scalar v => some ⟨stack, .continuation v⟩
  | .openArray => some ⟨stack, .itemOrEnd⟩
  | .openObject => some ⟨stack, .nameOrEnd⟩
  | _ => none

/-- Takes a token where the name of a member is expected. -/
def takeName? (stack : List Open) (members : List (Option (List Char) × Json)) :
    Token → Option Progress
  | .scalar (.string name) => some ⟨stack, .colon members name⟩
  | _ => none

/-- Takes a token behind a complete value. -/
def takeContinuation? (v : Json) : List Open → Token → Option Progress
  | .array items :: stack, .comma => some ⟨.array (v :: items) :: stack, .value⟩
  | .array items :: stack, .closeArray =>
    some ⟨stack, .continuation (.array (v :: items).reverse)⟩
  | .object members name :: stack, .comma => some ⟨stack, .name ((name, v) :: members)⟩
  | .object members name :: stack, .closeObject =>
    some ⟨stack, .continuation (.object ((name, v) :: members).reverse)⟩
  | _, _ => none

/-- Takes a token. -/
def take? (p : Progress) (token : Token) : Option Progress :=
  match p.expected, token with
  | .value, token => takeValue? p.stack token
  | .itemOrEnd, .closeArray => some ⟨p.stack, .continuation (.array [])⟩
  | .itemOrEnd, token => takeValue? (.array [] :: p.stack) token
  | .name members, token => takeName? p.stack members token
  | .nameOrEnd, .closeObject => some ⟨p.stack, .continuation (.object [])⟩
  | .nameOrEnd, token => takeName? p.stack [] token
  | .colon members name, .colon => some ⟨.object members name :: p.stack, .value⟩
  | .colon _ _, _ => none
  | .continuation v, token => takeContinuation? v p.stack token

/-- The value, if nothing is open any more. -/
def finish? (p : Progress) : Option Json :=
  match p.stack, p.expected with
  | [], .continuation v => some v
  | _, _ => none

end Progress

/-- The value that a text spells. -/
def parse? (text : List Char) : Option Json := do
  let tokens ← Token.scan? text
  let progress ← tokens.foldlM Progress.take? Progress.start
  progress.finish?

end NodeAdmission.Json
