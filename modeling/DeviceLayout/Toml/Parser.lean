import DeviceLayout.Toml.Token

/-!
# Reading TOML text

Statements are read from tokens one at a time, with a stack of the containers that are still
open (`Toml.Frame`). A value ends with its line unless an array is open, where line breaks do
not count; an inline table has no comma before its closing brace. Keys may have at most
`Toml.nestingLimit` parts, and at most so many containers may be open inside one another.
-/

namespace DeviceLayout.Toml

/-- How many parts a key may have, and how many containers may stand inside one another. -/
def nestingLimit : Nat := 79

/-! ## Keys -/

/-- A dotted key that has been read so far, last part first. -/
structure KeyPath where
  parts : List String := []
  /-- Whether a part has to come next, rather than a dot or the end. -/
  wantsPart : Bool := true

namespace KeyPath

/-- One more part. -/
def addPart (p : KeyPath) (part : String) : Option KeyPath :=
  if p.wantsPart then some ⟨part :: p.parts, false⟩ else none

/-- A dot. -/
def addDot (p : KeyPath) : Option KeyPath :=
  if p.wantsPart then none else some ⟨p.parts, true⟩

/-- A bare part, which is nothing if it is empty. -/
def addBare (p : KeyPath) (part : List Char) : Option KeyPath :=
  if part.isEmpty then some p
  else if part.all isKeyChar then p.addPart (String.ofList part)
  else none

/-- Bare parts with dots between them. -/
def addWord (p : KeyPath) (part : List Char) : List Char → Option KeyPath
  | [] => p.addBare part.reverse
  | '.' :: rest => (p.addBare part.reverse).bind fun p => p.addDot.bind fun p => p.addWord [] rest
  | c :: rest => p.addWord (c :: part) rest

/-- The key, if it ends here. -/
def finish? (p : KeyPath) : Option (List String) :=
  if p.wantsPart || nestingLimit < p.parts.length then none else some p.parts.reverse

end KeyPath

/-! ## Statements from tokens -/

/-- What a key is the key of. -/
inductive KeyPlace where
  /-- The header of a table. -/
  | header
  /-- The header of a table in an array. -/
  | element
  /-- A pair on a line of its own. -/
  | pair
  /-- An inline table with the members read so far, last one first. -/
  | member (done : List (List String × Toml))

/-- What waits for a value. -/
inductive Frame where
  /-- A pair on a line of its own. -/
  | pair (key : List String)
  /-- An array with the items read so far, last one first. -/
  | items (done : List Toml)
  /-- An inline table with the members read so far, last one first. -/
  | members (done : List (List String × Toml)) (key : List String)

/-- What has to come next. -/
inductive Expected where
  /-- A line. -/
  | lineStart
  /-- The rest of a header after its first bracket. -/
  | headerStart
  /-- More of a key, or what follows it. -/
  | key (place : KeyPlace) (path : KeyPath)
  /-- The second bracket that closes the header of a table in an array. -/
  | elementEnd (path : List String)
  /-- A value. -/
  | value
  /-- An item of the innermost array, or its end. -/
  | itemOrEnd
  /-- What follows a value. -/
  | after (v : Toml)
  /-- The end of a line. -/
  | lineEnd

/-- Where reading stands: what has to come next, what waits for a value, innermost first, and
the statements read so far, last one first. -/
structure Reading where
  expected : Expected := .lineStart
  stack : List Frame := []
  statements : List Statement := []

namespace Reading

/-- Go on to what has to come next. -/
def expect (r : Reading) (e : Expected) : Reading :=
  { r with expected := e }

/-- Read one more token of a key. -/
def stepKey (r : Reading) (place : KeyPlace) (path : KeyPath) : Token → Option Reading
  | .blank => some (r.expect (.key place path))
  | .word w => (path.addWord [] w).map fun path => r.expect (.key place path)
  | .line s => (path.addPart (String.ofList s)).map fun path => r.expect (.key place path)
  | .equals =>
    match place with
    | .pair => path.finish?.map fun key => { r with expected := .value, stack := [.pair key] }
    | .member done =>
      path.finish?.map fun key =>
        { r with expected := .value, stack := .members done key :: r.stack }
    | _ => none
  | .closeBracket =>
    match place with
    | .header =>
      path.finish?.map fun key =>
        { r with expected := .lineEnd, statements := .header key :: r.statements }
    | .element => path.finish?.map fun key => r.expect (.elementEnd key)
    | _ => none
  | .closeBrace =>
    match place with
    | .member [] =>
      if path.parts.isEmpty then some (r.expect (.after (.table .inline []))) else none
    | _ => none
  | _ => none

/-- Read the first token of a value. -/
def stepValue (r : Reading) : Token → Option Reading
  | .word w => (ofWord? w).map fun v => r.expect (.after v)
  | .line s | .block s => some (r.expect (.after (.string (String.ofList s))))
  | .openBracket =>
    if r.stack.length ≤ nestingLimit then
      some { r with expected := .itemOrEnd, stack := .items [] :: r.stack }
    else none
  | .openBrace =>
    if r.stack.length ≤ nestingLimit then some (r.expect (.key (.member []) {})) else none
  | _ => none

/-- Read one more token after a value. -/
def stepAfter (r : Reading) (v : Toml) : List Frame → Token → Option Reading
  | _, .blank => some (r.expect (.after v))
  | .pair key :: _, .newline =>
    some { expected := .lineStart, stack := [], statements := .pair key v :: r.statements }
  | .items _ :: _, .newline => some (r.expect (.after v))
  | .items done :: stack, .comma =>
    some { r with expected := .itemOrEnd, stack := .items (v :: done) :: stack }
  | .items done :: stack, .closeBracket =>
    some { r with expected := .after (.array (v :: done).reverse), stack }
  | .members done key :: stack, .comma =>
    some { r with expected := .key (.member ((key, v) :: done)) {}, stack }
  | .members done key :: stack, .closeBrace =>
    (inlineTable? ((key, v) :: done).reverse).map fun t => { r with expected := .after t, stack }
  | _, _ => none

/-- Read one more token. -/
def step (r : Reading) (t : Token) : Option Reading :=
  match r.expected, t with
  | .lineStart, .newline | .lineStart, .blank => some r
  | .lineStart, .openBracket => some (r.expect .headerStart)
  | .lineStart, t => r.stepKey .pair {} t
  | .headerStart, .openBracket => some (r.expect (.key .element {}))
  | .headerStart, t => r.stepKey .header {} t
  | .key place path, t => r.stepKey place path t
  | .elementEnd path, .closeBracket =>
    some { r with expected := .lineEnd, statements := .element path :: r.statements }
  | .value, .blank => some r
  | .value, t => r.stepValue t
  | .itemOrEnd, .blank | .itemOrEnd, .newline => some r
  | .itemOrEnd, .closeBracket =>
    match r.stack with
    | .items done :: stack => some { r with expected := .after (.array done.reverse), stack }
    | _ => none
  | .itemOrEnd, t => r.stepValue t
  | .after v, t => r.stepAfter v r.stack t
  | .lineEnd, .blank => some r
  | .lineEnd, .newline => some (r.expect .lineStart)
  | _, _ => none

end Reading

/-- The statements of a row of tokens. The end of the text ends the last line. -/
def statements? (tokens : List Token) : Option (List Statement) :=
  match (tokens ++ [Token.newline]).foldlM Reading.step {} with
  | some { expected := .lineStart, statements, .. } => some statements.reverse
  | _ => none

/-- The text without the byte order mark it may start with. -/
def dropMark : List Char → List Char
  | '\uFEFF' :: rest => rest
  | text => text

/-- The entries of the document that a text describes. -/
def parse? (text : String) : Option Entries := do
  let tokens ← scan (dropMark text.toList)
  let statements ← statements? tokens
  let document ← Document.ofStatements? statements
  return document.root

end DeviceLayout.Toml
