import DeviceLayout.Program

/-!
# A program built from declarations

`Program` keeps classes and method facts in the order they were first declared. Every
declaration is final for its key: declaring a class again changes its parent and keeps its
fields, declaring a field or a method again replaces it in place. A field declared on a class
nobody declared makes that class a root.

A program answers as a `Host` (`Program.host`) and as a `CallGraph` (`Program.graph`). Its
ancestor chains are exact: `Program.ancestors` follows parents until a root, and gives no
chain when it meets an undeclared parent or a class for the second time.
-/

namespace DeviceLayout

/-! ## Lists keyed by their first component -/

/-- Give the entry of `key` the value `f` makes of its present value, at its place if there
is one and at the end otherwise. -/
def upsert {α β : Type} [DecidableEq α] (key : α) (f : Option β → β) :
    List (α × β) → List (α × β)
  | [] => [(key, f none)]
  | (k, v) :: rest => if k = key then (k, f (some v)) :: rest else (k, v) :: upsert key f rest

/-- The value of `key`. -/
def valueOf? {α β : Type} [DecidableEq α] (key : α) (entries : List (α × β)) : Option β :=
  (entries.find? fun e => e.1 = key).map (·.2)

/-- An update is seen under its own key and under no other. -/
theorem valueOf?_upsert {α β : Type} [DecidableEq α] (key key' : α) (f : Option β → β)
    (entries : List (α × β)) :
    valueOf? key' (upsert key f entries) =
      if key' = key then some (f (valueOf? key entries)) else valueOf? key' entries := by
  induction entries with
  | nil => by_cases h : key' = key <;> simp [upsert, valueOf?, h, eq_comm]
  | cons e rest ih =>
    obtain ⟨k, v⟩ := e
    unfold valueOf? at ih ⊢
    by_cases hk : k = key
    · subst hk
      by_cases h : key' = k
      · subst h; simp [upsert]
      · simp [upsert, h, Ne.symm h]
    · by_cases h : k = key'
      · subst h; simp [upsert, hk]
      · simp [upsert, hk, h, ih]

theorem mem_map_of_valueOf? {α β : Type} [DecidableEq α] {key : α} {v : β}
    {entries : List (α × β)} (h : valueOf? key entries = some v) :
    key ∈ entries.map (·.1) := by
  unfold valueOf? at h
  obtain ⟨e, he, rfl⟩ := Option.map_eq_some_iff.mp h
  have hk : e.1 = key := by simpa using List.find?_some he
  exact List.mem_map.mpr ⟨e, List.mem_of_find?_eq_some he, hk⟩

/-! ## Programs -/

/-- A declared class: its parent, and the fields declared on it in order. -/
structure HostClass where
  parent : Option String := none
  fields : List HostField := []
  deriving DecidableEq, Repr

/-- Declare a field: at the place of the field of the same name, or at the end. -/
def HostClass.declareField (field : HostField) : List HostField → List HostField
  | [] => [field]
  | f :: rest => if f.name = field.name then field :: rest else f :: declareField field rest

/-- A program: declared classes, and facts about methods. -/
structure Program where
  classes : List (String × HostClass) := []
  graph : CallGraph := {}

namespace Program

/-- Declare a class with its parent. -/
def declareClass (P : Program) (name : String) (parent : Option String) : Program :=
  { P with classes := upsert name (fun c => { c.getD {} with parent := parent }) P.classes }

/-- Declare a field on a class, which becomes a root if it was not declared. -/
def declareField (P : Program) (className : String) (field : HostField) : Program :=
  let declare := fun c : HostClass => { c with fields := HostClass.declareField field c.fields }
  { P with classes := upsert className (fun c => declare (c.getD {})) P.classes }

/-- Record the facts of a method. -/
def declareMethod (P : Program) (m : MethodRef) (facts : MethodFacts) : Program :=
  { P with graph := ⟨upsert m (fun _ => facts) P.graph.entries⟩ }

/-- The declaration of a class. -/
def class? (P : Program) (name : String) : Option HostClass :=
  valueOf? name P.classes

/-- The names of the declared classes. -/
def classNames (P : Program) : List String :=
  P.classes.map (·.1)

/-- The number of declared classes. -/
def classCount (P : Program) : Nat :=
  P.classes.length

/-! ## Ancestors -/

/-- The parents above class `c`, nearest first, when `seen` holds the classes already on the
way. No chain if a parent is undeclared or has been seen. -/
def climb (P : Program) (seen : List String) (c : HostClass) : Option (List String) :=
  match c.parent with
  | none => some []
  | some parent =>
    if _hs : parent ∈ seen then none
    else
      match _hc : P.class? parent with
      | none => none
      | some next => (P.climb (parent :: seen) next).map (parent :: ·)
termination_by remaining P.classNames seen
decreasing_by
  exact remaining_lt_of_mem (List.subset_cons_self parent seen) (mem_map_of_valueOf? _hc) _hs
    (List.mem_cons_self ..)

/-- The ancestors of a declared class, direct parent first. -/
def ancestors (P : Program) (name : String) : Option (List String) :=
  (P.class? name).bind (P.climb [name])

/-- The program as a host. -/
def host (P : Program) : Host where
  contains := fun name => (P.class? name).isSome
  ancestors := P.ancestors
  declaredFields := fun name => (P.class? name).map (·.fields)

end Program

end DeviceLayout
