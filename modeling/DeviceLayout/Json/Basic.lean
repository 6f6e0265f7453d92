import DeviceLayout.Json.Escape

/-!
# JSON values and their text

A value keeps its numbers and strings as they are spelled (`Json.number`, `Json.string`): the
spelling is checked when text is read, and it is understood only where a reader asks for it, so
the parts of a text nobody asks for may hold numbers of any size and strings that name no text.

Text is written in one of two styles that differ in white space alone: without any
(`Style.compact`), or with one item to a line (`Style.pretty`).
-/

namespace DeviceLayout

/-- A JSON value. Numbers and the insides of strings are kept as spelled. -/
inductive Json where
  | null
  | bool (b : Bool)
  | number (digits : List Char)
  | string (raw : List Char)
  | array (items : List Json)
  | object (members : List (List Char × Json))
  deriving Repr

namespace Json

/-! ## Building values -/

/-- The value of a text. -/
def ofString (s : String) : Json :=
  string (escape s.toList)

/-- The value of a natural number. -/
def ofNat (n : Nat) : Json :=
  number (numeral n)

/-- An object whose keys are given as texts. -/
def record (members : List (String × Json)) : Json :=
  object (members.map fun m => (escape m.1.toList, m.2))

/-! ## Writing text -/

/-- Where white space goes. -/
structure Style where
  /-- What stands before an item or a closing bracket at a given depth. -/
  newline : Nat → List Char
  /-- What stands between a colon and the value after it. -/
  gap : List Char

/-- No white space at all. -/
def Style.compact : Style :=
  ⟨fun _ => [], []⟩

/-- One item to a line, indented by two spaces for each level. -/
def Style.pretty : Style :=
  ⟨fun depth => '\n' :: List.replicate (2 * depth) ' ', [' ']⟩

/-- A string in its quotes. -/
def renderString (raw : List Char) : List Char :=
  '"' :: (raw ++ ['"'])

mutual

/-- The text of a value whose brackets stand at `depth`. -/
def render (s : Style) (depth : Nat) : Json → List Char
  | null => ['n', 'u', 'l', 'l']
  | bool true => ['t', 'r', 'u', 'e']
  | bool false => ['f', 'a', 'l', 's', 'e']
  | number digits => digits
  | string raw => renderString raw
  | array items => '[' :: renderItems s depth items
  | object members => '{' :: renderMembers s depth members

/-- The items of an array and its closing bracket. -/
def renderItems (s : Style) (depth : Nat) : List Json → List Char
  | [] => [']']
  | j :: rest => s.newline (depth + 1) ++ render s (depth + 1) j ++ renderMoreItems s depth rest

/-- The items of an array after the first, and its closing bracket. -/
def renderMoreItems (s : Style) (depth : Nat) : List Json → List Char
  | [] => s.newline depth ++ [']']
  | j :: rest =>
    ',' :: (s.newline (depth + 1) ++ render s (depth + 1) j ++ renderMoreItems s depth rest)

/-- The members of an object and its closing brace. -/
def renderMembers (s : Style) (depth : Nat) : List (List Char × Json) → List Char
  | [] => ['}']
  | (key, j) :: rest =>
    s.newline (depth + 1) ++ renderString key ++ ':' :: s.gap ++ render s (depth + 1) j ++
      renderMoreMembers s depth rest

/-- The members of an object after the first, and its closing brace. -/
def renderMoreMembers (s : Style) (depth : Nat) : List (List Char × Json) → List Char
  | [] => s.newline depth ++ ['}']
  | (key, j) :: rest =>
    ',' :: (s.newline (depth + 1) ++ renderString key ++ ':' :: s.gap ++
      render s (depth + 1) j ++ renderMoreMembers s depth rest)

end

/-- The text of a value. -/
def toText (s : Style) (j : Json) : String :=
  String.ofList (render s 0 j)

end Json

end DeviceLayout
