import DeviceLayout.ClassDescriptor
import DeviceLayout.Config

/-!
# Placing the fields of a class

A class's instance fields are placed one after another behind its parent's instance layout,
or behind the object header for a root class; its static fields are placed from 0 in a block
of their own. Fields are taken in classification order, so offsets never overlap and never go
backwards. The end of the instance block, rounded up to the object alignment, is the size of
the class.
-/

namespace DeviceLayout

/-- Where one field lies. -/
structure PlacedField where
  name : String
  offset : UInt32
  size : UInt32
  deriving DecidableEq, Repr

/-- Place fields one after another from `start`, each aligned to its own size if asked for.
The placed fields and the end of the last one, if all of it fits into 32 bits. -/
def place (align : Bool) : List Field → UInt32 → Option (List PlacedField × UInt32)
  | [], start => some ([], start)
  | f :: rest, start => do
    let offset ← if align then alignUp start f.size else some start
    let stop ← addChecked offset f.size
    let (placed, last) ← place align rest stop
    return (⟨f.name, offset, f.size⟩ :: placed, last)

/-- The layout of one class. -/
structure Placement where
  classId : ClassId
  /-- Where the class's own instance fields begin. -/
  base : UInt32
  /-- The instance size, ancestors and padding included. -/
  size : UInt32
  /-- Own instance fields in offset order. -/
  instanceFields : List PlacedField
  /-- Static fields in offset order. -/
  staticFields : List PlacedField
  /-- The bytes the static block spans, padding included. -/
  staticExtent : UInt32
  deriving DecidableEq, Repr

namespace Placement

/-- Lay out a class behind a parent of the given size, or as a root. -/
def compute (c : ClassDescriptor) (parentSize : Option UInt32) (config : LayoutConfig) :
    Except LayoutError Placement :=
  let base := parentSize.getD config.headerSize
  let unavailable := fun block => LayoutError.layoutUnavailable c.hostName (.overflow block)
  if !c.frozen then .error (.notClassified c.hostName)
  else
    match place config.alignFields c.buckets.instanceFields base with
    | none => .error (unavailable .instanceBlock)
    | some (instanceFields, stop) =>
      match alignUp stop config.objectAlignment with
      | none => .error (unavailable .instanceBlock)
      | some size =>
        match place config.alignFields c.buckets.staticFields 0 with
        | none => .error (unavailable .staticBlock)
        | some (staticFields, staticExtent) =>
          .ok ⟨c.id, base, size, instanceFields, staticFields, staticExtent⟩

/-- What laying out a class logs. -/
def event (p : Placement) (name : String) : Event :=
  .laidOut name p.base p.size p.instanceFields.length p.staticExtent

/-- The offset of an own instance field. -/
def offsetOf? (p : Placement) (name : String) : Option UInt32 :=
  (p.instanceFields.find? fun f => f.name = name).map (·.offset)

/-- The offset of a static field within the static block. -/
def staticOffsetOf? (p : Placement) (name : String) : Option UInt32 :=
  (p.staticFields.find? fun f => f.name = name).map (·.offset)

end Placement

end DeviceLayout
