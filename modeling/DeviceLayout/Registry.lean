import DeviceLayout.Catalog
import DeviceLayout.Placement

/-!
# The registry

A registry is what one compile run knows: the catalog, the layouts computed so far, and the
methods whose facts have been followed. Layouts are computed on demand and kept. A class is
laid out after its ancestors, so a kept layout always stands on the kept layout of the parent;
a request that fails keeps the layouts of the ancestors before the class that failed.
-/

namespace DeviceLayout

/-- The state of one compile run. -/
structure Registry where
  catalog : Catalog := {}
  /-- The layouts computed so far, in the order they were computed. -/
  layouts : List Placement := []
  /-- The methods whose facts have been followed, in the order that happened. -/
  walked : List MethodRef := []
  deriving DecidableEq, Repr

namespace Registry

/-- Run an action on the catalog. -/
def onCatalog {α : Type} (x : Action Catalog α) : Action Registry α :=
  Action.onPart (·.catalog) (fun r c => { r with catalog := c }) x

/-- The layout of a class, if it has been computed. -/
def layout? (r : Registry) (id : ClassId) : Option Placement :=
  r.layouts.find? fun p => p.classId = id

/-! ## Laying out -/

/-- The cause of a failed layout, seen from the class that was asked for: an ancestor that has
not been classified makes the layout of that class unavailable. -/
def blame (target : ClassDescriptor) (failed : ClassId) : LayoutError → LayoutError
  | .notClassified name =>
    if failed = target.id then .notClassified name
    else .layoutUnavailable target.hostName (.unclassifiedAncestor name)
  | e => e

/-- Lay out the classes of a chain, root first, each behind the one before it. Layouts that
are known already are not computed again. -/
def layOutChain (config : LayoutConfig) (target : ClassDescriptor) :
    List ClassId → Option UInt32 → Action Registry Unit
  | [], _ => return ()
  | id :: rest, parentSize => do
    let r ← Action.get
    match r.layout? id with
    | some p => layOutChain config target rest (some p.size)
    | none =>
      match r.catalog.class? id with
      | none => Action.fail (.unknownClassId id)
      | some c =>
        match Placement.compute c parentSize config with
        | .error e => Action.fail (blame target id e)
        | .ok p =>
          Action.tell (p.event c.hostName)
          Action.modify fun r => { r with layouts := r.layouts ++ [p] }
          layOutChain config target rest (some p.size)

/-- The layout of a class, computed on the first request, ancestors first. -/
def layoutOf (S : Setting) (id : ClassId) : Action Registry Placement := do
  let r ← Action.get
  match r.catalog.class? id with
  | none => Action.fail (.unknownClassId id)
  | some target =>
    match r.layout? id with
    | some p => return p
    | none =>
      layOutChain S.config target (r.catalog.ancestry id) none
      let r ← Action.get
      match r.layout? id with
      | some p => return p
      | none => Action.fail (.layoutUnavailable target.hostName .noResult)

/-- Lay out classes one after another. -/
def layOutAll (S : Setting) : List ClassId → Action Registry Unit
  | [] => return ()
  | id :: rest => do
    let _ ← layoutOf S id
    layOutAll S rest

/-! ## Sizes -/

/-- The instance size of a class, computing its layout if need be. -/
def classSize (S : Setting) (id : ClassId) : Action Registry UInt32 :=
  (·.size) <$> layoutOf S id

/-- The instance size of a class, or 0 with a warning if it has no layout. The zero means that
the size is unknown, not that the class is empty. -/
def classSizeOrZero (S : Setting) (id : ClassId) : Action Registry UInt32 := do
  match ← Action.attempt (classSize S id) with
  | .ok n => return n
  | .error e =>
    Action.tell (.noSize id e)
    return 0

/-- The instance size of a class by the layouts computed so far, or 0 with a warning. -/
def knownSize (c : ClassDescriptor) : Action Registry UInt32 := do
  let r ← Action.get
  match r.layout? c.id with
  | some p => return p.size
  | none =>
    Action.tell (.noLayout c.hostName)
    return 0

end Registry

end DeviceLayout
