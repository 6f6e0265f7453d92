import DeviceLayout.Registry

/-!
# A registry in one line

A short text for diagnosis: the settings, how many classes and layouts there are, and the used
array types as terms. Text is quoted with a backslash before quotes and backslashes.
-/

namespace DeviceLayout

/-- A character inside quotes. -/
def quoteChar (c : Char) : String :=
  match c with
  | '"' => "\\\""
  | '\\' => "\\\\"
  | '\n' => "\\n"
  | '\r' => "\\r"
  | '\t' => "\\t"
  | '\x00' => "\\0"
  | c =>
    if c.toNat < 32 || c.toNat = 127 then
      "\\u\x7b" ++ String.ofList (Nat.toDigits 16 c.toNat) ++ "\x7d"
    else c.toString

/-- A text in quotes. -/
def quoted (s : String) : String :=
  "\"" ++ String.join (s.toList.map quoteChar) ++ "\""

/-- The name of a primitive as a constructor: capitalized. -/
def Primitive.term (p : Primitive) : String :=
  p.hostName.capitalize

/-- A type as a term: `Array(Class("a.B"))`. -/
def HostType.term : HostType → String
  | primitive p => "Primitive(" ++ p.term ++ ")"
  | named name => "Class(" ++ quoted name ++ ")"
  | array e => "Array(" ++ e.term ++ ")"

/-- The name of a packing policy as a constructor. -/
def Packing.term : Packing → String
  | sizeDescending => "SizeDescending"
  | byName => "ByName"

/-- A record with named fields: `Name { a: 1, b: 2 }`. -/
def recordTerm (name : String) (fields : List (String × String)) : String :=
  name ++ " \x7b " ++ ", ".intercalate (fields.map fun f => f.1 ++ ": " ++ f.2) ++ " \x7d"

/-- The settings as a term. -/
def LayoutConfig.term (c : LayoutConfig) : String :=
  recordTerm "LayoutConfig"
    [("object_header_size", toString c.headerSize.toNat),
      ("object_alignment", toString c.objectAlignment.toNat),
      ("align_fields", toString c.alignFields),
      ("packing", c.packing.term)]

/-- The summary of a registry. -/
def Registry.summary (config : LayoutConfig) (r : Registry) : String :=
  recordTerm "ClassRegistry"
    [("config", config.term),
      ("classes", toString r.catalog.classes.length),
      ("layouts", toString r.layouts.length),
      ("array_types", "[" ++ ", ".intercalate (r.catalog.arrays.map HostType.term) ++ "]")]

end DeviceLayout
