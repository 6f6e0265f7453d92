import DeviceLayout.Field
import DeviceLayout.Json.Form

/-!
# Facts about the host program as JSON

A declared type is an object with one key that says which shape it has, so a class that is
named like a primitive is not mistaken for one. The other facts are records.
-/

namespace DeviceLayout

/-- Primitives by their host names. -/
def Primitive.form : JsonForm Primitive :=
  .choice all hostName

/-- A declared type as JSON. -/
def HostType.write : HostType → Json
  | primitive p => .record [("Primitive", Primitive.form.write p)]
  | named name => .record [("Class", JsonForm.text.write name)]
  | array e => .record [("Array", e.write)]

/-- The declared type that JSON describes. -/
def HostType.read : Nat → Json → Option HostType
  | room + 1, .object [(key, j)] =>
    match Json.text? (.string key) with
    | some "Primitive" => (Primitive.form.read room j).map primitive
    | some "Class" => (JsonForm.text.read room j).map named
    | some "Array" => (HostType.read room j).map array
    | _ => none
  | _, _ => none

/-- Declared types. -/
def HostType.form : JsonForm HostType :=
  ⟨HostType.write, HostType.read⟩

/-- Storage kinds by their names. -/
def StorageKind.form : JsonForm StorageKind :=
  .choice [.reference, .value] name

/-- Storage. -/
def Storage.form : JsonForm Storage :=
  .record ["kind", "size", "device_name"]
    (fun s => [StorageKind.form.write s.kind, JsonForm.word32.write s.size,
      JsonForm.text.write s.deviceName])
    fun room entries => do
      let [kind, size, deviceName] := entries | none
      return {
        kind := ← StorageKind.form.require room kind
        size := ← JsonForm.word32.require room size
        deviceName := ← JsonForm.text.require room deviceName }

/-- Declared fields. -/
def HostField.form : JsonForm HostField :=
  .record ["name", "ty", "is_static"]
    (fun f => [JsonForm.text.write f.name, HostType.form.write f.type,
      JsonForm.bool.write f.isStatic])
    fun room entries => do
      let [name, type, isStatic] := entries | none
      return {
        name := ← JsonForm.text.require room name
        type := ← HostType.form.require room type
        isStatic := ← JsonForm.bool.require room isStatic }

/-- Field accesses. -/
def FieldRef.form : JsonForm FieldRef :=
  .record ["class", "name"]
    (fun f => [JsonForm.text.write f.className, JsonForm.text.write f.name])
    fun room entries => do
      let [className, name] := entries | none
      return {
        className := ← JsonForm.text.require room className
        name := ← JsonForm.text.require room name }

/-- Methods. -/
def MethodRef.form : JsonForm MethodRef :=
  .record ["class", "signature"]
    (fun m => [JsonForm.text.write m.className, JsonForm.text.write m.signature])
    fun room entries => do
      let [className, signature] := entries | none
      return {
        className := ← JsonForm.text.require room className
        signature := ← JsonForm.text.require room signature }

/-- What a method does. -/
def MethodFacts.form : JsonForm MethodFacts :=
  .record ["calls", "fields", "array_types"]
    (fun f => [(JsonForm.list MethodRef.form).write f.calls,
      (JsonForm.list FieldRef.form).write f.fields,
      (JsonForm.list HostType.form).write f.arrays])
    fun room entries => do
      let [calls, fields, arrays] := entries | none
      return {
        calls := ← (JsonForm.list MethodRef.form).require room calls
        fields := ← (JsonForm.list FieldRef.form).require room fields
        arrays := ← (JsonForm.list HostType.form).require room arrays }

/-- Class ids by their indices, which are 32-bit words. -/
def ClassId.form : JsonForm ClassId where
  write id := Json.ofNat id.index
  read room j := ((JsonForm.natBelow UInt32.size).read room j).map ClassId.mk

end DeviceLayout
