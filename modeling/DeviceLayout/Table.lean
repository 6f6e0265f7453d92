import DeviceLayout.Registry

/-!
# Layout tables

A table is the frozen result of a compile run: what code generation on the device and
serialization on the host have to agree on. `LayoutTable.snapshot` takes it from a registry
whose classes are all laid out. Per class it lists the four buckets with offsets; each field of
a bucket gets the offset that the class's layout gives to the field of that name.
-/

namespace DeviceLayout

/-! ## Entries -/

/-- A field with its place. -/
structure FieldLayout where
  name : String
  /-- The declared type in the host's spelling. -/
  hostType : String
  /-- The type the device stores. -/
  deviceType : String
  kind : StorageKind
  size : UInt32
  /-- The offset in the instance, or in the static block for a static field. -/
  offset : UInt32
  deriving DecidableEq, Repr

/-- The layout of a class as tables show it. -/
structure ClassLayout where
  hostName : String
  deviceName : String
  /-- The host name of the direct parent. -/
  parent : Option String
  /-- The instance size, ancestors and padding included. -/
  instanceSize : UInt32
  /-- The sum of the static fields' sizes. -/
  staticSize : UInt32
  /-- The number of instance fields that hold handles. -/
  refFieldCount : UInt64
  instanceRefs : List FieldLayout
  instanceValues : List FieldLayout
  staticRefs : List FieldLayout
  staticValues : List FieldLayout
  deriving DecidableEq, Repr

/-- A used array type. -/
structure ArrayTypeLayout where
  hostName : String
  deviceName : String
  /-- What the device stores for one element. -/
  elementDeviceType : String
  elementKind : StorageKind
  elementSize : UInt32
  deriving DecidableEq, Repr

/-- The layouts of a whole compile run, classes after their parents. -/
structure LayoutTable where
  config : LayoutConfig
  classes : List ClassLayout
  arrayTypes : List ArrayTypeLayout
  deriving DecidableEq, Repr

/-! ## Queries -/

namespace ClassLayout

/-- The class's own instance fields in offset order. -/
def instanceFields (c : ClassLayout) : List FieldLayout :=
  c.instanceRefs ++ c.instanceValues

/-- The static fields in offset order. -/
def staticFields (c : ClassLayout) : List FieldLayout :=
  c.staticRefs ++ c.staticValues

/-- A field by name, instance fields first. -/
def field? (c : ClassLayout) (name : String) : Option FieldLayout :=
  (c.instanceFields ++ c.staticFields).find? fun f => f.name = name

end ClassLayout

namespace LayoutTable

/-- A class by host name. -/
def class? (t : LayoutTable) (hostName : String) : Option ClassLayout :=
  t.classes.find? fun c => c.hostName = hostName

end LayoutTable

/-! ## Taking a table from a registry -/

/-- The entries of a bucket, given where the fields were placed. -/
def FieldLayout.ofFields (placed : List PlacedField) (fields : List Field) : List FieldLayout :=
  fields.filterMap fun f =>
    (placed.find? fun p => p.name = f.name).map fun p =>
      { name := f.name
        hostType := f.type.hostName
        deviceType := f.storage.deviceName
        kind := f.storage.kind
        size := p.size
        offset := p.offset }

/-- The entry of a class, given its layout and its parent's host name. -/
def ClassLayout.ofPlacement (c : ClassDescriptor) (p : Placement) (parent : Option String) :
    ClassLayout :=
  let b := c.buckets
  { hostName := c.hostName
    deviceName := c.deviceName
    parent := parent
    instanceSize := p.size
    staticSize := b.staticSize
    refFieldCount := UInt64.ofNat b.instanceRefs.length
    instanceRefs := FieldLayout.ofFields p.instanceFields b.instanceRefs
    instanceValues := FieldLayout.ofFields p.instanceFields b.instanceValues
    staticRefs := FieldLayout.ofFields p.staticFields b.staticRefs
    staticValues := FieldLayout.ofFields p.staticFields b.staticValues }

/-- The entry of an array type; other types have none. -/
def ArrayTypeLayout.ofType? (t : HostType) : Option ArrayTypeLayout :=
  t.element?.map fun element =>
    { hostName := t.hostName
      deviceName := t.deviceName
      elementDeviceType := element.storage.deviceName
      elementKind := element.storage.kind
      elementSize := element.storage.size }

/-- The entry of a class of a registry. -/
def Registry.classLayout (r : Registry) (c : ClassDescriptor) : Except LayoutError ClassLayout :=
  match r.layout? c.id with
  | none => .error (.layoutUnavailable c.hostName .notLaidOut)
  | some p =>
    let parent := (c.parent.bind r.catalog.class?).map (·.hostName)
    .ok (.ofPlacement c p parent)

/-- The table of a registry; every class has to be laid out. -/
def LayoutTable.snapshot (config : LayoutConfig) (r : Registry) : Except LayoutError LayoutTable :=
  (r.catalog.classes.mapM r.classLayout).map fun classes =>
    ⟨config, classes, r.catalog.arrays.filterMap ArrayTypeLayout.ofType?⟩

namespace Registry

/-- Classify and lay out every class, and take the table. -/
def finalize (S : Setting) : Action Registry LayoutTable := do
  onCatalog Catalog.classifyAll
  let r ← Action.get
  layOutAll S ((List.range r.catalog.classes.length).map ClassId.mk)
  let r ← Action.get
  Action.ofExcept (LayoutTable.snapshot S.config r)

end Registry

end DeviceLayout
