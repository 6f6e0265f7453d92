import DeviceLayout.HostType

/-!
# What is known about a host program

The layout is computed from two sources: the class hierarchy with its declared fields
(`Host`), and for each method what it calls and touches (`CallGraph`). Both are read-only.

A `Host` is a record of answers; nothing forces the answers to agree with one another. A
`CallGraph` lists the facts of finitely many methods, which is what makes every walk over it
end. `Program` (in `DeviceLayout.Program.Model`) builds both from declarations.
-/

namespace DeviceLayout

/-! ## Names of members -/

/-- A method, as the call graph names it: the fully-qualified class that declares it, and its
name with descriptor. -/
structure MethodRef where
  className : String
  signature : String
  deriving DecidableEq, Repr

/-- The text `class.signature`. -/
def MethodRef.text (m : MethodRef) : String :=
  m.className ++ "." ++ m.signature

/-- A field access: the class it goes through, which may be a subclass of the class that
declares the field, and the field's name. -/
structure FieldRef where
  className : String
  name : String
  deriving DecidableEq, Repr

/-- The text `class.name`. -/
def FieldRef.text (f : FieldRef) : String :=
  f.className ++ "." ++ f.name

/-! ## Declarations -/

/-- A field as the host program declares it. -/
structure HostField where
  name : String
  type : HostType
  isStatic : Bool := false
  deriving DecidableEq, Repr

/-- What one method does, as far as layout is concerned: the methods it may call, the fields
it reads or writes, the array types it allocates or indexes. -/
structure MethodFacts where
  calls : List MethodRef := []
  fields : List FieldRef := []
  arrays : List HostType := []
  deriving DecidableEq, Repr

/-! ## The host -/

/-- A view of the host's class hierarchy.

`ancestors` lists the direct parent first and is absent when the chain cannot be resolved;
`declaredFields` are the fields declared on the class itself, in declaration order. -/
structure Host where
  contains : String → Bool
  ancestors : String → Option (List String)
  declaredFields : String → Option (List HostField)
  declaredField : String → String → Option HostField := fun className name =>
    (declaredFields className).bind fun fields => fields.find? fun f => f.name = name

/-- What a fixed host answers about one class. -/
structure HostEntry where
  name : String
  known : Bool
  ancestors : Option (List String) := none
  fields : Option (List HostField) := none

/-- A host that answers from a list, the first entry of a name deciding. -/
def Host.ofEntries (entries : List HostEntry) : Host :=
  let entry := fun name => entries.find? fun e => e.name = name
  { contains := fun name => (entry name).any (·.known)
    ancestors := fun name => (entry name).bind (·.ancestors)
    declaredFields := fun name => (entry name).bind (·.fields) }

/-! ## The call graph -/

/-- The facts of finitely many methods; the first entry of a method counts. -/
structure CallGraph where
  entries : List (MethodRef × MethodFacts) := []

namespace CallGraph

/-- The facts of a method, if the graph has any. -/
def facts? (g : CallGraph) (m : MethodRef) : Option MethodFacts :=
  (g.entries.find? fun e => e.1 = m).map (·.2)

/-- The methods the graph has facts for. -/
def methods (g : CallGraph) : List MethodRef :=
  g.entries.map (·.1)

/-- Every array type that some method's facts mention, with the array types nested in it. -/
def arrayLevels (g : CallGraph) : List HostType :=
  g.entries.flatMap fun e => e.2.arrays.flatMap HostType.arrayLevels

theorem mem_entries_of_facts? {g : CallGraph} {m : MethodRef} {f : MethodFacts}
    (h : g.facts? m = some f) : (m, f) ∈ g.entries := by
  unfold facts? at h
  obtain ⟨e, he, rfl⟩ := Option.map_eq_some_iff.mp h
  have hm : e.1 = m := by simpa using List.find?_some he
  rw [← hm]
  exact List.mem_of_find?_eq_some he

theorem mem_methods_of_facts? {g : CallGraph} {m : MethodRef} {f : MethodFacts}
    (h : g.facts? m = some f) : m ∈ g.methods :=
  List.mem_map.mpr ⟨_, mem_entries_of_facts? h, rfl⟩

/-- What a walk over the graph can record lies in a pool that is known beforehand. -/
theorem mem_arrayLevels_of_facts? {g : CallGraph} {m : MethodRef} {f : MethodFacts}
    {t level : HostType} (h : g.facts? m = some f) (ht : t ∈ f.arrays)
    (hl : level ∈ t.arrayLevels) : level ∈ g.arrayLevels :=
  List.mem_flatMap.mpr ⟨_, mem_entries_of_facts? h, List.mem_flatMap.mpr ⟨t, ht, hl⟩⟩

end CallGraph

/-! ## Finite pools

A search that meets, step by step, a member of a finite pool that it had not met before comes to an
end: the climb along parents, the walk over methods and the walk over classes are such searches. -/

section

variable {α : Type} [DecidableEq α]

/-- How many entries of `pool` are not in `seen`. -/
def remaining (pool seen : List α) : Nat :=
  pool.countP fun a => a ∉ seen

/-- Seeing more leaves no more of the pool. -/
theorem remaining_le_of_subset {pool seen seen' : List α} (h : seen ⊆ seen') :
    remaining pool seen' ≤ remaining pool seen :=
  List.countP_mono_left fun a _ ha => by
    have ha' : a ∉ seen' := by simpa using ha
    simpa using fun hs => ha' (h hs)

/-- A member of the pool that is seen for the first time leaves less of the pool, which is what ends
a search. -/
theorem remaining_lt_of_mem {pool seen seen' : List α} {a : α} (h : seen ⊆ seen')
    (hp : a ∈ pool) (hs : a ∉ seen) (hs' : a ∈ seen') :
    remaining pool seen' < remaining pool seen := by
  obtain ⟨before, after, rfl⟩ := List.append_of_mem hp
  have hb : remaining before seen' ≤ remaining before seen := remaining_le_of_subset h
  have ha : remaining after seen' ≤ remaining after seen := remaining_le_of_subset h
  unfold remaining at hb ha ⊢
  simp only [List.countP_append, List.countP_cons, hs, hs', not_true_eq_false,
    not_false_eq_true, decide_true, decide_false, if_true] at hb ha ⊢
  simp only [Bool.false_eq_true, if_false]
  omega

end

end DeviceLayout
