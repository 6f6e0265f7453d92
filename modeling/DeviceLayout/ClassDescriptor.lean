import DeviceLayout.Action
import DeviceLayout.Order

/-!
# Class descriptors

A descriptor collects the used fields and methods of one host class. Fields are registered
until the first question about their classification; that question freezes the field list.
From then on the fields stand in four buckets (instance or static, reference or value), each
in packing order, and registering a new field is an error.

The buckets are a function of the field list (`ClassDescriptor.buckets`); all that freezing
adds to a descriptor is that its list can no longer grow.
-/

namespace DeviceLayout

/-! ## Buckets -/

/-- Classified fields, each bucket in packing order. -/
structure Buckets where
  instanceRefs : List Field
  instanceValues : List Field
  staticRefs : List Field
  staticValues : List Field
  deriving DecidableEq, Repr

namespace Buckets

/-- Sort fields into the four buckets. -/
def ofFields (packing : Packing) (fields : List Field) : Buckets where
  instanceRefs := packing.sort (fields.filter fun f => f.isReference && f.isInstance)
  instanceValues := packing.sort (fields.filter fun f => !f.isReference && f.isInstance)
  staticRefs := packing.sort (fields.filter fun f => f.isReference && f.isStatic)
  staticValues := packing.sort (fields.filter fun f => !f.isReference && f.isStatic)

/-- Instance fields in the order their offsets are assigned: references, then values. -/
def instanceFields (b : Buckets) : List Field :=
  b.instanceRefs ++ b.instanceValues

/-- Static fields: references, then values. -/
def staticFields (b : Buckets) : List Field :=
  b.staticRefs ++ b.staticValues

/-- All classified fields, instance fields first. -/
def all (b : Buckets) : List Field :=
  b.instanceFields ++ b.staticFields

/-- The number of classified fields. -/
def size (b : Buckets) : Nat :=
  b.all.length

/-- A field by name, instance fields first. -/
def field? (b : Buckets) (name : String) : Option Field :=
  b.all.find? fun f => f.name = name

/-- The sum of the static fields' sizes. -/
def staticSize (b : Buckets) : UInt32 :=
  b.staticFields.foldr (fun f total => f.size + total) 0

end Buckets

/-! ## Descriptors -/

/-- What is used of one host class, members in the order they were registered. -/
structure ClassDescriptor where
  id : ClassId
  /-- The class's fully-qualified host name. -/
  hostName : String
  parent : Option ClassId := none
  packing : Packing := .sizeDescending
  methods : List MethodRef := []
  fields : List Field := []
  /-- Whether the fields have been classified. -/
  frozen : Bool := false
  /-- Whether the class's methods have been walked as a whole. -/
  membersWalked : Bool := false
  /-- Whether the array types of the class's methods have been walked as a whole. -/
  arraysWalked : Bool := false
  deriving DecidableEq, Repr

namespace ClassDescriptor

/-- The device-side name of the class. -/
def deviceName (c : ClassDescriptor) : String :=
  mangle c.hostName

/-- Whether a field of this name is registered. -/
def hasField (c : ClassDescriptor) (name : String) : Bool :=
  c.fields.any fun f => f.name = name

/-- Whether the method is registered. -/
def hasMethod (c : ClassDescriptor) (m : MethodRef) : Bool :=
  m ∈ c.methods

/-- The methods, each with the id of its class. -/
def ownedMethods (c : ClassDescriptor) : List (ClassId × MethodRef) :=
  c.methods.map fun m => (c.id, m)

/-- Descriptors of the same host class. -/
def Same (c d : ClassDescriptor) : Prop :=
  c.hostName = d.hostName

instance (c d : ClassDescriptor) : Decidable (c.Same d) :=
  inferInstanceAs (Decidable (c.hostName = d.hostName))

/-- The fields in their buckets. -/
def buckets (c : ClassDescriptor) : Buckets :=
  .ofFields c.packing c.fields

/-- The descriptor with its fields classified. -/
def freeze (c : ClassDescriptor) : ClassDescriptor :=
  { c with frozen := true }

/-- What freezing the descriptor logs: its bucket sizes, unless it is frozen already. -/
def freezeEvent? (c : ClassDescriptor) : Option Event :=
  if c.frozen then none
  else
    let b := c.buckets
    some (.classified c.hostName b.instanceRefs.length b.instanceValues.length
      b.staticRefs.length b.staticValues.length)

/-! ## Registering members -/

/-- Register a field; the answer says whether it is new. A known name is refused quietly, a
new name on a frozen class is an error. -/
def addField (field : HostField) : Action ClassDescriptor Bool := do
  let c ← Action.get
  if c.hasField field.name then return false
  if c.frozen then Action.fail (.classFrozen c.hostName field.name)
  else
    Action.modify fun c => { c with fields := c.fields ++ [⟨c.id, field⟩] }
    return true

/-- Register a method; the answer says whether it is new. -/
def addMethod (m : MethodRef) : Action ClassDescriptor Bool := do
  let c ← Action.get
  if c.hasMethod m then return false
  Action.modify fun c => { c with methods := c.methods ++ [m] }
  return true

/-- Classify the fields, once, and answer the buckets. -/
def classify : Action ClassDescriptor Buckets := do
  let c ← Action.get
  Action.tellAll c.freezeEvent?.toList
  Action.modify freeze
  return c.buckets

end ClassDescriptor

/-! ## Requests to a descriptor -/

/-- What a caller may ask of a descriptor. -/
inductive ClassRequest where
  | addField (field : HostField)
  | addMethod (m : MethodRef)
  | hasMethod (m : MethodRef)
  | isFrozen
  | classify
  | buckets
  | referenceCount
  | staticSize
  | field (name : String)
  | fields
  | describe
  | copy
  deriving DecidableEq, Repr

/-- What a descriptor answers. -/
inductive ClassReply where
  | flag (b : Bool)
  | buckets (b : Buckets)
  | count (n : Nat)
  | size (n : UInt32)
  | field (f : Option Field)
  | fields (fs : List Field)
  | descriptor (c : ClassDescriptor)
  | done
  deriving DecidableEq, Repr

/-- Serve a request. Every question about classified fields freezes the descriptor. -/
def ClassRequest.serve : ClassRequest → Action ClassDescriptor ClassReply
  | addField f => .flag <$> ClassDescriptor.addField f
  | addMethod m => .flag <$> ClassDescriptor.addMethod m
  | hasMethod m => (fun c => .flag (c.hasMethod m)) <$> Action.get
  | isFrozen => (fun c => .flag c.frozen) <$> Action.get
  | classify | buckets => .buckets <$> ClassDescriptor.classify
  | referenceCount => (fun b => .count b.instanceRefs.length) <$> ClassDescriptor.classify
  | staticSize => (fun b => .size b.staticSize) <$> ClassDescriptor.classify
  | field name => (fun b => .field (b.field? name)) <$> ClassDescriptor.classify
  | fields => (fun c => .fields c.fields) <$> Action.get
  | describe => (fun c => .descriptor c) <$> Action.get
  | copy => Pure.pure .done

end DeviceLayout
