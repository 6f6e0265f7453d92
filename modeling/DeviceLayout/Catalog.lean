import DeviceLayout.ClassDescriptor
import DeviceLayout.Config

/-!
# The catalog of used classes and array types

The catalog holds one descriptor per host class that the device program needs, and the array
types it needs, both in the order they were discovered. Descriptors are never removed or
renamed, so the index of a class is its id for good, and a class always comes after its
parent: `Catalog.classFor` creates the missing part of an ancestor chain root first.

Discovery closes the catalog as it goes: a new field or array type brings in the class it
mentions, and an array type brings in the array types nested in it. Every step checks the
host before it changes anything on its own, but a failure in a later step leaves the earlier
ones in place.
-/

namespace DeviceLayout

/-- What stays fixed during a compile run: the host and the settings. -/
structure Setting where
  host : Host
  config : LayoutConfig := {}

/-- The used classes and array types, in discovery order. -/
structure Catalog where
  classes : List ClassDescriptor := []
  arrays : List HostType := []
  deriving DecidableEq, Repr

namespace Catalog

/-! ## Looking up -/

/-- The descriptor of an id. -/
def class? (c : Catalog) (id : ClassId) : Option ClassDescriptor :=
  c.classes[id.index]?

/-- The id of a host class, if it is in the catalog. -/
def lookup (c : Catalog) (name : String) : Option ClassId :=
  (c.classes.find? fun d => d.hostName = name).map (·.id)

/-- The descriptor of a host class, if it is in the catalog. -/
def classNamed? (c : Catalog) (name : String) : Option ClassDescriptor :=
  (c.lookup name).bind c.class?

/-- The number of registered fields over all classes. -/
def fieldCount (c : Catalog) : Nat :=
  (c.classes.flatMap (·.fields)).length

/-- The number of registered methods over all classes. -/
def methodCount (c : Catalog) : Nat :=
  (c.classes.flatMap (·.methods)).length

/-- The number of classified classes. -/
def frozenCount (c : Catalog) : Nat :=
  c.classes.countP (·.frozen)

/-- A class and its ancestors, nearest first. A parent is followed only to a smaller id, which
is where every parent is. -/
def lineage (c : Catalog) (id : ClassId) : List ClassId :=
  match (c.class? id).bind (·.parent) with
  | none => [id]
  | some parent => if _h : parent.index < id.index then id :: c.lineage parent else [id]
termination_by id.index

/-- A class and its ancestors, root first. -/
def ancestry (c : Catalog) (id : ClassId) : List ClassId :=
  (c.lineage id).reverse

/-- The nearest class at or above `id` that declares the field, with its declaration. -/
def declaring? (c : Catalog) (host : Host) (id : ClassId) (field : String) :
    Option (ClassId × HostField) :=
  (c.lineage id).findSome? fun owner => do
    let d ← c.class? owner
    let declaration ← host.declaredField d.hostName field
    return (owner, declaration)

/-! ## Classes -/

/-- Run an action on one descriptor; it is an error if there is none. -/
def onClass {α : Type} (id : ClassId) (x : Action ClassDescriptor α) : Action Catalog α := do
  let c ← Action.get
  match c.class? id with
  | none => Action.fail (.unknownClassId id)
  | some d =>
    Action.onPart (fun _ => d) (fun c d' => { c with classes := c.classes.set id.index d' }) x

/-- The id of a host class, which is created below `parent` if it is new. -/
def ensureClass (packing : Packing) (parent : Option ClassId) (name : String) :
    Action Catalog ClassId := do
  let c ← Action.get
  match c.lookup name with
  | some id => return id
  | none =>
    let id : ClassId := ⟨c.classes.length⟩
    let d : ClassDescriptor := { id, hostName := name, parent, packing }
    Action.tell (.newClass id name)
    Action.modify fun c => { c with classes := c.classes ++ [d] }
    return id

/-- The id of a host class below a chain of ancestors, root first; what is new is created. -/
def ensureChain (packing : Packing) (name : String) :
    Option ClassId → List String → Action Catalog ClassId
  | parent, [] => ensureClass packing parent name
  | parent, ancestor :: rest => do
    let id ← ensureClass packing parent ancestor
    ensureChain packing name (some id) rest

/-- The id of a host class, with descriptors for its whole ancestor chain. -/
def classFor (S : Setting) (name : String) : Action Catalog ClassId := do
  let c ← Action.get
  match c.lookup name with
  | some id => return id
  | none =>
    if !S.host.contains name then Action.fail (.unknownClass name)
    else
      match S.host.ancestors name with
      | none => Action.fail (.unresolvedAncestor name)
      | some ancestors => ensureChain S.config.packing name none ancestors.reverse

/-- Bring in the class a type mentions, if it mentions one. -/
def bringIn (S : Setting) (t : HostType) : Action Catalog Unit :=
  match t.referencedClass? with
  | none => return ()
  | some name => do
    let _ ← classFor S name
    return ()

/-! ## Array types -/

/-- The array types a type is made of that are not recorded yet, outermost first. -/
def missingArrays (c : Catalog) (t : HostType) : List HostType :=
  t.arrayLevels.filter fun level => level ∉ c.arrays

/-- Record an array type and the array types nested in it, and bring in the class at its base
if any of them is new. The answer is how many are; other types have none. -/
def recordArray (S : Setting) (t : HostType) : Action Catalog Nat := do
  let c ← Action.get
  let added := c.missingArrays t
  if added.isEmpty then return 0
  Action.tellAll (added.map .arrayType)
  Action.modify fun c => { c with arrays := c.arrays ++ added }
  bringIn S t
  return added.length

/-- Record array types one after another. -/
def recordArrays (S : Setting) : List HostType → Action Catalog Unit
  | [] => return ()
  | t :: rest => do
    let _ ← recordArray S t
    recordArrays S rest

/-! ## Members -/

/-- Register a method on the class that declares it; the answer says whether it is new. -/
def registerMethod (S : Setting) (m : MethodRef) : Action Catalog Bool := do
  let id ← classFor S m.className
  onClass id (ClassDescriptor.addMethod m)

/-- Register a field access. The field goes to the nearest class that declares it, which may be
an ancestor of the class it was accessed through; a new field brings in the class and the
array types of its type. The answer says whether it is new. -/
def registerField (S : Setting) (access : FieldRef) : Action Catalog Bool := do
  let through ← classFor S access.className
  let c ← Action.get
  match c.declaring? S.host through access.name with
  | none => Action.fail (.unknownField access)
  | some (owner, declaration) =>
    let added ← onClass owner (ClassDescriptor.addField declaration)
    if !added then return false
    bringIn S declaration.type
    let _ ← recordArray S declaration.type
    return true

/-- Register field accesses one after another; the answer is the number of new fields. -/
def registerFields (S : Setting) : List FieldRef → Action Catalog Nat
  | [] => return 0
  | access :: rest => do
    let added ← registerField S access
    let more ← registerFields S rest
    return added.toNat + more

/-! ## Classification -/

/-- Classify the fields of every class. Afterwards no class takes new fields. -/
def classifyAll : Action Catalog Unit := do
  let c ← Action.get
  Action.tellAll (c.classes.filterMap (·.freezeEvent?))
  Action.modify fun c => { c with classes := c.classes.map (·.freeze) }

end Catalog

end DeviceLayout
