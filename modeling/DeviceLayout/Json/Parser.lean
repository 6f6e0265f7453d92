import DeviceLayout.Json.Token

/-!
# Reading JSON text

Values are built from tokens with a stack of the containers that are still open
(`Json.Frame`), so a text may nest as deep as it likes. `Json.parse?` accepts exactly one
value with white space around it.
-/

namespace DeviceLayout.Json

/-- A container that is still open, with the entries read so far, last one first. -/
inductive Frame where
  /-- An array that waits for a value. -/
  | items (done : List Json)
  /-- An object that waits for the value of `key`. -/
  | members (done : List (List Char × Json)) (key : List Char)

/-- What has to come next. -/
inductive Expected where
  /-- A value. -/
  | value
  /-- The first item of an array, or its end. -/
  | firstItem
  /-- The first key of an object, or its end. -/
  | firstKey
  /-- A key of an object that has members already. -/
  | key (done : List (List Char × Json))
  /-- The colon after a key. -/
  | colon (done : List (List Char × Json)) (key : List Char)
  /-- What follows a finished value. -/
  | after (j : Json)

/-- Where reading stands: what has to come next, and the open containers, innermost first. -/
abbrev Reading := Expected × List Frame

/-- The first token of a value. -/
def startValue (stack : List Frame) : Token → Option Reading
  | .null => some (.after .null, stack)
  | .bool b => some (.after (.bool b), stack)
  | .number digits => some (.after (.number digits), stack)
  | .string raw => some (.after (.string raw), stack)
  | .openBracket => some (.firstItem, stack)
  | .openBrace => some (.firstKey, stack)
  | _ => none

/-- Read one token. -/
def step : Reading → Token → Option Reading
  | (.value, stack), t => startValue stack t
  | (.firstItem, stack), .closeBracket => some (.after (.array []), stack)
  | (.firstItem, stack), t => startValue (.items [] :: stack) t
  | (.firstKey, stack), .closeBrace => some (.after (.object []), stack)
  | (.firstKey, stack), .string key => some (.colon [] key, stack)
  | (.key done, stack), .string key => some (.colon done key, stack)
  | (.colon done key, stack), .colon => some (.value, .members done key :: stack)
  | (.after j, .items done :: stack), .comma => some (.value, .items (j :: done) :: stack)
  | (.after j, .items done :: stack), .closeBracket =>
    some (.after (.array (j :: done).reverse), stack)
  | (.after j, .members done key :: stack), .comma => some (.key ((key, j) :: done), stack)
  | (.after j, .members done key :: stack), .closeBrace =>
    some (.after (.object ((key, j) :: done).reverse), stack)
  | _, _ => none

/-- The value that a row of tokens describes. -/
def ofTokens? (tokens : List Token) : Option Json :=
  match tokens.foldlM step (.value, []) with
  | some (.after j, []) => some j
  | _ => none

/-- The value a text describes. -/
def parse? (text : String) : Option Json :=
  (scan text.toList).bind ofTokens?

end DeviceLayout.Json
