import DeviceLayout.Config
import DeviceLayout.Program.Json
import DeviceLayout.Table

/-!
# Settings, layout tables and layouts as JSON

The text of a table is what code generation and serialization exchange. Both styles of text
describe the same table (`LayoutTable.ofText`, `LayoutTable.toText`). A table shows the settings it
was made under; they are a record in which every field may be missing and then has its default, and
reading them does not validate them.
-/

namespace DeviceLayout

/-! ## Settings -/

/-- Packing policies by their names. -/
def Packing.form : JsonForm Packing :=
  .choice [.sizeDescending, .byName] name

/-- The keys of a configuration. -/
def LayoutConfig.keys : List String :=
  ["object-header-size", "object-alignment", "align-fields", "packing"]

/-- Configurations. -/
def LayoutConfig.form : JsonForm LayoutConfig :=
  .record keys
    (fun c => [JsonForm.word32.write c.headerSize, JsonForm.word32.write c.objectAlignment,
      JsonForm.bool.write c.alignFields, Packing.form.write c.packing])
    fun room entries => do
      let [headerSize, objectAlignment, alignFields, packing] := entries | none
      let c : LayoutConfig := {}
      return {
        headerSize := ← JsonForm.word32.orDefault room c.headerSize headerSize
        objectAlignment := ← JsonForm.word32.orDefault room c.objectAlignment objectAlignment
        alignFields := ← JsonForm.bool.orDefault room c.alignFields alignFields
        packing := ← Packing.form.orDefault room c.packing packing }

/-! ## Tables -/

/-- Field entries. -/
def FieldLayout.form : JsonForm FieldLayout :=
  .record ["name", "host_type", "device_type", "kind", "size", "offset"]
    (fun f => [JsonForm.text.write f.name, JsonForm.text.write f.hostType,
      JsonForm.text.write f.deviceType, StorageKind.form.write f.kind,
      JsonForm.word32.write f.size, JsonForm.word32.write f.offset])
    fun room entries => do
      let [name, hostType, deviceType, kind, size, offset] := entries | none
      return {
        name := ← JsonForm.text.require room name
        hostType := ← JsonForm.text.require room hostType
        deviceType := ← JsonForm.text.require room deviceType
        kind := ← StorageKind.form.require room kind
        size := ← JsonForm.word32.require room size
        offset := ← JsonForm.word32.require room offset }

/-- Lists of field entries. -/
def FieldLayout.listForm : JsonForm (List FieldLayout) :=
  .list form

/-- Class entries. The parent may be left out. -/
def ClassLayout.form : JsonForm ClassLayout :=
  .record ["host_name", "device_name", "parent", "instance_size", "static_size",
      "ref_field_count", "instance_ref_fields", "instance_nonref_fields", "static_ref_fields",
      "static_nonref_fields"]
    (fun c => [JsonForm.text.write c.hostName, JsonForm.text.write c.deviceName,
      (JsonForm.optional .text).write c.parent, JsonForm.word32.write c.instanceSize,
      JsonForm.word32.write c.staticSize, JsonForm.word64.write c.refFieldCount,
      FieldLayout.listForm.write c.instanceRefs, FieldLayout.listForm.write c.instanceValues,
      FieldLayout.listForm.write c.staticRefs, FieldLayout.listForm.write c.staticValues])
    fun room entries => do
      let [hostName, deviceName, parent, instanceSize, staticSize, refFieldCount,
        instanceRefs, instanceValues, staticRefs, staticValues] := entries | none
      return {
        hostName := ← JsonForm.text.require room hostName
        deviceName := ← JsonForm.text.require room deviceName
        parent := ← (JsonForm.optional .text).orDefault room none parent
        instanceSize := ← JsonForm.word32.require room instanceSize
        staticSize := ← JsonForm.word32.require room staticSize
        refFieldCount := ← JsonForm.word64.require room refFieldCount
        instanceRefs := ← FieldLayout.listForm.require room instanceRefs
        instanceValues := ← FieldLayout.listForm.require room instanceValues
        staticRefs := ← FieldLayout.listForm.require room staticRefs
        staticValues := ← FieldLayout.listForm.require room staticValues }

/-- Array-type entries. -/
def ArrayTypeLayout.form : JsonForm ArrayTypeLayout :=
  .record ["host_name", "device_name", "element_device_type", "element_kind", "element_size"]
    (fun a => [JsonForm.text.write a.hostName, JsonForm.text.write a.deviceName,
      JsonForm.text.write a.elementDeviceType, StorageKind.form.write a.elementKind,
      JsonForm.word32.write a.elementSize])
    fun room entries => do
      let [hostName, deviceName, elementDeviceType, elementKind, elementSize] := entries | none
      return {
        hostName := ← JsonForm.text.require room hostName
        deviceName := ← JsonForm.text.require room deviceName
        elementDeviceType := ← JsonForm.text.require room elementDeviceType
        elementKind := ← StorageKind.form.require room elementKind
        elementSize := ← JsonForm.word32.require room elementSize }

/-- Tables. -/
def LayoutTable.form : JsonForm LayoutTable :=
  .record ["config", "classes", "array_types"]
    (fun t => [LayoutConfig.form.write t.config,
      (JsonForm.list ClassLayout.form).write t.classes,
      (JsonForm.list ArrayTypeLayout.form).write t.arrayTypes])
    fun room entries => do
      let [config, classes, arrayTypes] := entries | none
      return {
        config := ← LayoutConfig.form.require room config
        classes := ← (JsonForm.list ClassLayout.form).require room classes
        arrayTypes := ← (JsonForm.list ArrayTypeLayout.form).require room arrayTypes }

/-- The text of a table. -/
def LayoutTable.toText (style : Json.Style) (t : LayoutTable) : String :=
  form.toText style t

/-- The table that a text describes. -/
def LayoutTable.ofText (text : String) : Except LayoutError LayoutTable :=
  match form.ofText? text with
  | some t => .ok t
  | none => .error .malformedJson

/-! ## Layouts of single classes -/

/-- A placed field. -/
def PlacedField.write (f : PlacedField) : Json :=
  .record [("name", JsonForm.text.write f.name), ("offset", JsonForm.word32.write f.offset),
    ("size", JsonForm.word32.write f.size)]

/-- The layout of a class. -/
def Placement.write (p : Placement) : Json :=
  .record [("class", ClassId.form.write p.classId), ("base", JsonForm.word32.write p.base),
    ("size", JsonForm.word32.write p.size),
    ("fields", .array (p.instanceFields.map PlacedField.write)),
    ("static_fields", .array (p.staticFields.map PlacedField.write)),
    ("static_extent", JsonForm.word32.write p.staticExtent)]

end DeviceLayout
