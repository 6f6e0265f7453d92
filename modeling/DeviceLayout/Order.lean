import DeviceLayout.Field

/-!
# Orders on types, names and fields

Types are ordered by shape first: primitives, then classes, then arrays. Within a shape,
primitives follow the host's order, classes their names, arrays their elements. References to
members are ordered by class, then by member. Names are ordered by code points, which is also
the order of their UTF-8 bytes.

Fields have one canonical order, the packing order. Offsets and tables both take fields in this
order, so the n-th field of an emitted structure and the n-th entry of its offset table are always
the same field. By default the largest fields come first, which keeps alignment padding away; the
other policy goes by name alone. Ties are settled by name, then by owner, so two different fields
never compare equal.
-/

namespace DeviceLayout

/-! ## Types and names -/

/-- Primitives in the host's order. -/
def Primitive.compare (p q : Primitive) : Ordering :=
  Ord.compare p.rank q.rank

/-- Primitives before classes before arrays. -/
def HostType.compare : HostType → HostType → Ordering
  | primitive p, primitive q => p.compare q
  | primitive _, _ => .lt
  | named _, primitive _ => .gt
  | named a, named b => Ord.compare a b
  | named _, array _ => .lt
  | array a, array b => a.compare b
  | array _, _ => .gt

/-- Methods by class, then by signature. -/
def MethodRef.compare (m n : MethodRef) : Ordering :=
  (Ord.compare m.className n.className).then (Ord.compare m.signature n.signature)

/-- Field accesses by class, then by name. -/
def FieldRef.compare (f g : FieldRef) : Ordering :=
  (Ord.compare f.className g.className).then (Ord.compare f.name g.name)

/-- Sort by a comparison; equal entries keep their order. -/
def sortBy {α : Type} (cmp : α → α → Ordering) (entries : List α) : List α :=
  entries.mergeSort fun a b => (cmp a b).isLE

/-- Drop each entry of a sorted list that equals the one before it. -/
def dropRepeats {α : Type} [DecidableEq α] : List α → List α
  | a :: b :: rest => if a = b then dropRepeats (b :: rest) else a :: dropRepeats (b :: rest)
  | short => short

/-! ## Packing -/

/-- How fields are ordered before they are placed. -/
inductive Packing where
  /-- Largest fields first, then by name. -/
  | sizeDescending
  /-- By name. -/
  | byName
  deriving DecidableEq, Repr

namespace Packing

/-- The spelling of a policy in configurations. -/
def name : Packing → String
  | sizeDescending => "size-descending"
  | byName => "by-name"

/-- The policy with a given spelling. -/
def ofName? (s : String) : Option Packing :=
  [sizeDescending, byName].find? fun p => p.name = s

/-- The policies have different spellings. -/
theorem ofName?_name (p : Packing) : ofName? p.name = some p := by
  cases p <;> rfl

/-- What the policy looks at before names: sizes, larger ones first, or nothing. -/
def compareSize : Packing → Field → Field → Ordering
  | sizeDescending, a, b => Ord.compare b.size a.size
  | byName, _, _ => .eq

/-- Compare two fields: by size if the policy says so, then by name, then by owner. -/
def compare (p : Packing) (a b : Field) : Ordering :=
  (p.compareSize a b).then
    ((Ord.compare a.name b.name).then (a.owner.compare b.owner))

/-- Fields in packing order. -/
def sort (p : Packing) (fields : List Field) : List Field :=
  sortBy p.compare fields

end Packing

end DeviceLayout
