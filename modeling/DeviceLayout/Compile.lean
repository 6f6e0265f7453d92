import DeviceLayout.Program.Model
import DeviceLayout.Reachability
import DeviceLayout.Table
import DeviceLayout.Toml.Parser

/-!
# A compile run

The whole way from a program to its layout table: read the settings, walk from the entry
methods, lay out everything the walk found (`Program.compile`). The first error ends the run.

The settings stand under the key `layout` of a TOML document, whatever else the document holds.
They may be a table with a key for each setting, or an array with the settings in order; a setting
that is missing has its default. A configuration is validated once it has been read
(`LayoutConfig.ofText`).
-/
namespace DeviceLayout

/-! ## Settings from TOML -/

namespace Toml

/-- A value as a 32-bit word. -/
def word32? : Toml → Option UInt32
  | integer n => if 0 ≤ n ∧ n < UInt32.size then some (UInt32.ofNat n.toNat) else none
  | _ => none

/-- A value as a truth value. -/
def boolean? : Toml → Option Bool
  | boolean b => some b
  | _ => none

/-- Whether a value holds nothing: an empty table or array. -/
def isVoid : Toml → Bool
  | table _ entries => entries.isEmpty
  | array items => items.isEmpty
  | _ => false

/-- A value as a name: a string, or a table whose one key is the name and holds nothing. -/
def name? : Toml → Option String
  | string s => some s
  | table _ [(key, v)] => if v.isVoid then some key else none
  | _ => none

/-- A value as a packing policy. -/
def packing? (v : Toml) : Option Packing :=
  v.name?.bind Packing.ofName?

/-- Read a setting, or take its default if it is not there. -/
def orDefault {α : Type} (read : Toml → Option α) (default : α) : Option Toml → Option α
  | none => some default
  | some v => read v

end Toml

namespace LayoutConfig

/-- The configuration with the given settings. -/
def ofSettings? (headerSize objectAlignment alignFields packing : Option Toml) :
    Option LayoutConfig := do
  let c : LayoutConfig := {}
  return {
    headerSize := ← Toml.orDefault Toml.word32? c.headerSize headerSize
    objectAlignment := ← Toml.orDefault Toml.word32? c.objectAlignment objectAlignment
    alignFields := ← Toml.orDefault Toml.boolean? c.alignFields alignFields
    packing := ← Toml.orDefault Toml.packing? c.packing packing }

/-- The configuration that a value describes. A date is a table without settings. -/
def ofToml? : Toml → Option LayoutConfig
  | .table _ entries =>
    let setting := Toml.Entries.get? entries
    ofSettings? (setting "object-header-size") (setting "object-alignment")
      (setting "align-fields") (setting "packing")
  | .array items => ofSettings? items[0]? items[1]? items[2]? items[3]?
  | .date => some {}
  | _ => none

/-- The configuration of a document. -/
def ofEntries? (document : Toml.Entries) : Option LayoutConfig :=
  Toml.orDefault ofToml? {} (document.get? "layout")

/-- The configuration that a text describes; it is validated. -/
def ofText (text : String) : Except LayoutError LayoutConfig :=
  match (Toml.parse? text).bind ofEntries? with
  | some c => c.validate
  | none => .error .malformedConfig

/-- The configuration that the bytes of a file describe. -/
def ofBytes (bytes : ByteArray) : Except LayoutError LayoutConfig :=
  match String.fromUTF8? bytes with
  | some text => ofText text
  | none => .error .unreadableFile

/-- The configuration of a file, of which there may be none. -/
def ofFile : Option ByteArray → Except LayoutError LayoutConfig
  | some bytes => ofBytes bytes
  | none => .error .unreadableFile

end LayoutConfig

/-! ## Runs -/

/-- Walk from the entries and take the table. -/
def Registry.compile (S : Setting) (g : CallGraph) (entries : List MethodRef) :
    Action Registry (Report × LayoutTable) := do
  let report ← walk S g entries
  let table ← finalize S
  return (report, table)

/-- Compile a program under the settings of a text, starting from nothing. -/
def Program.compile (P : Program) (settings : String) (entries : List MethodRef) :
    Except LayoutError (Report × LayoutTable) := do
  let config ← LayoutConfig.ofText settings
  ((Registry.compile ⟨P.host, config⟩ P.graph entries).run {}).result

end DeviceLayout
