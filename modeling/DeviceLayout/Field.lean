import DeviceLayout.Program

/-!
# Used fields

A field enters the layout as a `Field`: a declaration together with the class that owns it.
Its storage follows from its declared type. Two fields are the same field when owner and name
agree (`Field.Same`), whatever their types.
-/

namespace DeviceLayout

/-- The index of a class in its registry. Ids are taken below `2 ^ 32` : a registry with at most
that many classes gives each of them an id that a 32-bit word holds. -/
structure ClassId where
  index : Nat
  deriving DecidableEq, Repr

/-- The text of a class id: `class0`, `class1`, … -/
def ClassId.text (id : ClassId) : String :=
  s!"class{id.index}"

/-- Class ids in the order of their indices. -/
def ClassId.compare (a b : ClassId) : Ordering :=
  Ord.compare a.index b.index

/-- A used field: the class that owns it and its declaration. -/
structure Field where
  owner : ClassId
  declaration : HostField
  deriving DecidableEq, Repr

namespace Field

/-- The field's name, which is unique in its class. -/
def name (f : Field) : String := f.declaration.name

/-- The declared type. -/
def type (f : Field) : HostType := f.declaration.type

/-- Whether there is one such field per class. -/
def isStatic (f : Field) : Bool := f.declaration.isStatic

/-- Whether there is one such field per instance. -/
def isInstance (f : Field) : Bool := !f.isStatic

/-- What the device keeps for the field. -/
def storage (f : Field) : Storage := f.type.storage

/-- Whether the field holds a handle. -/
def isReference (f : Field) : Bool := f.storage.isReference

/-- Storage size in bytes. -/
def size (f : Field) : UInt32 := f.storage.size

/-- What identifies a field: its owner and its name. -/
def key (f : Field) : ClassId × String := (f.owner, f.name)

/-- The same field, whatever is declared about it. -/
def Same (f g : Field) : Prop := f.key = g.key

instance (f g : Field) : Decidable (f.Same g) :=
  inferInstanceAs (Decidable (f.key = g.key))

end Field

end DeviceLayout
