/-!
# Host types and their device storage

A host program declares fields with primitive types, class types and array types. On the
device a primitive is stored inline at its natural width, while everything with an identity
(a class instance, an array) is stored as one fixed-size handle into the flattened heap,
whatever the size of what the handle points at (`HostType.storage`).

Types have two spellings: the host's (`HostType.hostName`) and the device's
(`HostType.deviceName`). A device name is an identifier, so class names go through
`mangle`, which keeps ASCII letters, digits and underscores and turns every other
character into an underscore.
-/

namespace DeviceLayout

/-! ## Primitive types -/

/-- The primitive types of the host, in the host's order. -/
inductive Primitive where
  | boolean | byte | char | short | int | float | long | double
  deriving DecidableEq, Repr

/-- Inline storage size in bytes. -/
def Primitive.size : Primitive → UInt32
  | boolean | byte => 1
  | char | short => 2
  | int | float => 4
  | long | double => 8

/-- The device type that stores the primitive. -/
def Primitive.deviceName : Primitive → String
  | boolean | byte => "char"
  | char => "ushort"
  | short => "short"
  | int => "int"
  | float => "float"
  | long => "long"
  | double => "double"

/-- The host's spelling. -/
def Primitive.hostName : Primitive → String
  | boolean => "boolean"
  | byte => "byte"
  | char => "char"
  | short => "short"
  | int => "int"
  | float => "float"
  | long => "long"
  | double => "double"

/-- Position in the host's order. -/
def Primitive.rank : Primitive → Nat
  | boolean => 0
  | byte => 1
  | char => 2
  | short => 3
  | int => 4
  | float => 5
  | long => 6
  | double => 7

/-- All primitives, in the host's order. -/
def Primitive.all : List Primitive :=
  [boolean, byte, char, short, int, float, long, double]

/-- The primitive with a given host spelling. -/
def Primitive.ofHostName? (name : String) : Option Primitive :=
  all.find? fun p => p.hostName = name

theorem Primitive.ofHostName?_hostName (p : Primitive) : ofHostName? p.hostName = some p := by
  cases p <;> rfl

/-! ## Declared types -/

/-- A type as the host program declares it. -/
inductive HostType where
  /-- An inline primitive. -/
  | primitive (p : Primitive)
  /-- A class or interface, by fully-qualified name. -/
  | named (name : String)
  /-- An array of the element type. -/
  | array (element : HostType)
  deriving DecidableEq, Repr

namespace HostType

/-- The element type of an array. -/
def element? : HostType → Option HostType
  | array e => some e
  | _ => none

/-- The innermost type that is no array. -/
def base : HostType → HostType
  | array e => e.base
  | t => t

/-- The number of array dimensions, zero for a type that is no array. -/
def dimensions : HostType → Nat
  | array e => e.dimensions + 1
  | _ => 0

/-- The class a type mentions, looking through arrays. -/
def referencedClass? : HostType → Option String
  | primitive _ => none
  | named name => some name
  | array e => e.referencedClass?

/-- Whether this is an array type. -/
def isArray : HostType → Bool
  | array _ => true
  | _ => false

/-- The array types a type is made of, outermost first: the type itself if it is an array,
then its element if that is one, and so on. -/
def arrayLevels : HostType → List HostType
  | array e => array e :: e.arrayLevels
  | _ => []

/-- `t` wrapped into `n` array levels. -/
def arrayOf (t : HostType) : Nat → HostType
  | 0 => t
  | n + 1 => array (t.arrayOf n)

/-- A type has one level of arrays for each dimension. -/
theorem length_arrayLevels (t : HostType) : t.arrayLevels.length = t.dimensions := by
  induction t with
  | primitive p => rfl
  | named n => rfl
  | array e ih => simp [arrayLevels, dimensions, ih]

/-- A type is made of its base by adding its dimensions again. -/
theorem arrayOf_base_dimensions (t : HostType) : t.base.arrayOf t.dimensions = t := by
  induction t with
  | primitive p => rfl
  | named n => rfl
  | array e ih => simp [base, dimensions, arrayOf, ih]

theorem isArray_of_mem_arrayLevels {t level : HostType} (h : level ∈ t.arrayLevels) :
    level.isArray = true := by
  induction t with
  | primitive p => simp [arrayLevels] at h
  | named n => simp [arrayLevels] at h
  | array e ih =>
    rcases List.mem_cons.mp h with rfl | h
    · rfl
    · exact ih h

end HostType

/-! ## Names -/

/-- A character that may stand in a device identifier. -/
def isIdentifierChar (c : Char) : Bool :=
  c.isAlphanum || c = '_'

/-- A host class name as a device identifier: each other character becomes an underscore. -/
def mangle (name : String) : String :=
  name.map fun c => if isIdentifierChar c then c else '_'

namespace HostType

/-- The host's spelling: `int`, `a.b.C`, `a.b.C[][]`. -/
def hostName : HostType → String
  | primitive p => p.hostName
  | named name => name
  | array e => e.hostName ++ "[]"

/-- The device name of the type itself, not of its storage: `int`, `a_b_C`,
`a_b_C__array__array`. -/
def deviceName : HostType → String
  | primitive p => p.deviceName
  | named name => mangle name
  | array e => e.deviceName ++ "__array"

end HostType

/-! ## Storage -/

/-- How a field is stored. -/
inductive StorageKind where
  /-- A handle into the flattened heap. -/
  | reference
  /-- An inline value of fixed width. -/
  | value
  deriving DecidableEq, Repr

/-- The spelling of a storage kind in tables. -/
def StorageKind.name : StorageKind → String
  | reference => "reference"
  | value => "value"

/-- What the device keeps for a field: the kind, the size in bytes and the storage type. -/
structure Storage where
  kind : StorageKind
  size : UInt32
  deviceName : String
  deriving DecidableEq, Repr

/-- The storage of every handle: four bytes, held in an `int`. -/
def Storage.handle : Storage :=
  ⟨.reference, 4, "int"⟩

/-- Whether the storage is a handle. -/
def Storage.isReference (s : Storage) : Bool :=
  s.kind = .reference

/-- Primitives are stored inline; classes and arrays, arrays of primitives among them, as
one handle. -/
def HostType.storage : HostType → Storage
  | primitive p => ⟨.value, p.size, p.deviceName⟩
  | named _ | array _ => .handle

end DeviceLayout
