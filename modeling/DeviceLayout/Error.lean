import DeviceLayout.Field

/-!
# What can go wrong

`LayoutError` lists the causes for which discovery, reachability, layout and configuration
fail. Its wording is in `LayoutError.message` alone. Errors of discovery and reachability are
fatal to a compile run; a missing layout (`LayoutError.isLayoutUnavailable`) is a normal
answer to a caller that only asks.
-/

namespace DeviceLayout

/-- The two blocks of bytes a class has: one per instance, one for its static fields. -/
inductive Block where
  | instanceBlock
  | staticBlock
  deriving DecidableEq, Repr

/-- The name of a block in messages. -/
def Block.name : Block → String
  | instanceBlock => "instance"
  | staticBlock => "static"

/-- Why a class has no layout. -/
inductive UnavailableReason where
  /-- The block does not fit into 32-bit offsets. -/
  | overflow (block : Block)
  /-- An ancestor's fields have not been classified. -/
  | unclassifiedAncestor (name : String)
  /-- A layout request ended without a layout. -/
  | noResult
  /-- A table was asked for before the class was laid out. -/
  | notLaidOut
  deriving DecidableEq, Repr

/-- The wording of a reason. -/
def UnavailableReason.message : UnavailableReason → String
  | overflow block => s!"{block.name} block exceeds the 32-bit offset range"
  | unclassifiedAncestor name => s!"ancestor {name} has not been classified"
  | noResult => "layout computation produced no result"
  | notLaidOut => "not laid out before snapshot"

/-- The causes of failure. -/
inductive LayoutError where
  /-- The host has no class of this name. -/
  | unknownClass (name : String)
  /-- Neither the class nor any of its ancestors declares the field. -/
  | unknownField (access : FieldRef)
  /-- The call graph has no facts about the method. -/
  | unknownMethod (m : MethodRef)
  /-- The ancestor chain of the class is missing or cyclic. -/
  | unresolvedAncestor (className : String)
  /-- A new field was registered on a class whose fields are classified. -/
  | classFrozen (className field : String)
  /-- A layout was asked for before the class was classified. -/
  | notClassified (className : String)
  /-- The class has no layout. -/
  | layoutUnavailable (className : String) (reason : UnavailableReason)
  /-- The registry has no class of this id. -/
  | unknownClassId (id : ClassId)
  /-- The configured alignment is no power of two. -/
  | badAlignment (alignment : UInt32)
  /-- The configured header leaves no room for a field. -/
  | noRoom (headerSize : UInt32)
  /-- The configuration text cannot be read. -/
  | malformedConfig
  /-- The configuration file cannot be read. -/
  | unreadableFile
  /-- The JSON text does not describe a value of the type asked for. -/
  | malformedJson
  deriving DecidableEq, Repr

namespace LayoutError

/-- The wording of an error. -/
def message : LayoutError → String
  | unknownClass name => s!"Unknown class: {name}"
  | unknownField access => s!"Unknown field: {access.text}"
  | unknownMethod m => s!"Unknown method: {m.text}"
  | unresolvedAncestor name => s!"Unresolved ancestor chain for class {name}"
  | classFrozen name field => s!"Class {name} is frozen; cannot register field {field}"
  | notClassified name => s!"Class {name} has not been classified"
  | layoutUnavailable name reason => s!"Layout unavailable for {name}: {reason.message}"
  | unknownClassId id => s!"Unknown class id: {id.index}"
  | badAlignment n =>
    s!"Invalid layout config: object-alignment must be a non-zero power of two, got {n}"
  | noRoom n => s!"Invalid layout config: object-header-size {n} leaves no room for fields"
  | malformedConfig => "Failed to parse layout config"
  | unreadableFile => "Failed to read layout config"
  | malformedJson => "Failed to serialize layout table"

/-- Whether the error marks a missing layout rather than a broken program. -/
def isLayoutUnavailable : LayoutError → Bool
  | layoutUnavailable .. | notClassified _ => true
  | _ => false

end LayoutError

end DeviceLayout
