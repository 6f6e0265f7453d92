import DeviceLayout.Json.Parser

/-!
# Types with a JSON form

A `JsonForm` says how the values of a type are written as JSON and how they are read. Reading
is by type alone, with these rules.

* A record is an object or an array. In an object the keys may come in any order, keys that
  are not asked for are skipped with whatever they hold, and a key that is asked for comes at
  most once. In an array the entries come in the order of the record's fields.
* A choice among names is the name, or an object whose one key is the name and holds `null`.
* Numbers are plain digits within the range of the type.

Reading goes down at most `JsonForm.room` containers deep. What is skipped does not count.
-/

namespace DeviceLayout

/-- How values of a type are written as JSON and read back. Reading may enter as many
containers inside one another as its first argument says. -/
structure JsonForm (α : Type) where
  write : α → Json
  read : Nat → Json → Option α

namespace Json

/-- The text of a string value. -/
def text? : Json → Option String
  | string raw => (unescape raw).map String.ofList
  | _ => none

/-- The entries of a record for the given keys, in their order: for each key its value if there
is one. -/
def entries? (keys : List String) : Json → Option (List (Option Json))
  | array items =>
    if items.length ≤ keys.length then
      some (items.map some ++ List.replicate (keys.length - items.length) none)
    else none
  | object members => do
    let named ← members.mapM fun (key, j) => (unescape key).map fun k => (String.ofList k, j)
    keys.mapM fun key =>
      match named.filter fun m => m.1 = key with
      | [] => some none
      | [m] => some (some m.2)
      | _ => none
  | _ => none

/-- The name a choice is spelled with. -/
def name? : Nat → Json → Option String
  | _, string raw => text? (string raw)
  | _ + 1, object [(key, null)] => text? (string key)
  | _, _ => none

end Json

namespace JsonForm

variable {α : Type}

/-- How deep a text is read. -/
def room : Nat := 127

/-- The text of a value. -/
def toText (F : JsonForm α) (style : Json.Style) (a : α) : String :=
  (F.write a).toText style

/-- The value that a text describes. -/
def ofText? (F : JsonForm α) (text : String) : Option α :=
  (Json.parse? text).bind (F.read room)

/-! ## Basic forms -/

/-- Texts. -/
def text : JsonForm String where
  write := Json.ofString
  read _ j := j.text?

/-- Truth values. -/
def bool : JsonForm Bool where
  write := Json.bool
  read
    | _, .bool b => some b
    | _, _ => none

/-- Natural numbers below a bound. -/
def natBelow (bound : Nat) : JsonForm Nat where
  write := Json.ofNat
  read
    | _, .number digits => (ofDigits? 10 digits).filter fun n => n < bound
    | _, _ => none

/-- 32-bit words. -/
def word32 : JsonForm UInt32 where
  write n := Json.ofNat n.toNat
  read room j := ((natBelow UInt32.size).read room j).map UInt32.ofNat

/-- 64-bit words. -/
def word64 : JsonForm UInt64 where
  write n := Json.ofNat n.toNat
  read room j := ((natBelow UInt64.size).read room j).map UInt64.ofNat

/-- A choice among finitely many values by name. -/
def choice (values : List α) (name : α → String) : JsonForm α where
  write a := Json.ofString (name a)
  read room j := (j.name? room).bind fun s => values.find? fun a => name a = s

/-! ## Containers -/

/-- A value or `null`. -/
def optional (F : JsonForm α) : JsonForm (Option α) where
  write
    | none => .null
    | some a => F.write a
  read
    | _, .null => some none
    | room, j => (F.read room j).map some

/-- Lists. -/
def list (F : JsonForm α) : JsonForm (List α) where
  write as := .array (as.map F.write)
  read
    | room + 1, .array items => items.mapM (F.read room)
    | _, _ => none

/-- A record with the given keys: how its entries are written, and how a value is read from
them. An entry for each key is written, and each key has an entry to be read, perhaps none. -/
def record (keys : List String) (write : α → List Json)
    (read : Nat → List (Option Json) → Option α) : JsonForm α where
  write a := .record (keys.zip (write a))
  read
    | room + 1, j => (j.entries? keys).bind (read room)
    | 0, _ => none

/-- Read an entry that has to be there. -/
def require (F : JsonForm α) (room : Nat) (entry : Option Json) : Option α :=
  entry.bind (F.read room)

/-- Read an entry, or take a default if it is not there. -/
def orDefault (F : JsonForm α) (room : Nat) (default : α) : Option Json → Option α
  | none => some default
  | some j => F.read room j

end JsonForm

end DeviceLayout
