import DeviceLayout.Catalog.Growth
import DeviceLayout.Registry

/-!
# Reachability

A walk starts from entry methods and follows the call graph breadth first. Each method it
meets for the first time is expanded: the method is registered on its class, and the fields
and array types it uses go into the catalog. A method that was expanded once is skipped from
then on, so cycles end and walking the same entries again finds nothing.

A walk ends because each step expands a method of the graph that was not expanded before, or
shortens the queue. The walk over all classes ends although it adds classes itself: it adds
one only where it expands a method or records an array type of the graph, and of both there
are finitely many (`Registry.unseen`, `Registry.walkWhole_nearer`).
-/

namespace DeviceLayout

/-- How much a walk found. -/
structure Report where
  /-- Methods expanded. -/
  methods : Nat := 0
  /-- Fields registered. -/
  fields : Nat := 0
  /-- Array types recorded. -/
  arrays : Nat := 0
  /-- Classes created. -/
  classes : Nat := 0
  deriving DecidableEq, Repr

namespace Report

/-- Whether the walk found nothing. -/
def isEmpty (r : Report) : Bool :=
  r = {}

/-- Two reports as one. -/
def merge (r s : Report) : Report :=
  ⟨r.methods + s.methods, r.fields + s.fields, r.arrays + s.arrays, r.classes + s.classes⟩

/-- What a finished walk logs. -/
def event (r : Report) : Event :=
  .reached r.methods r.fields r.arrays r.classes

end Report

namespace Registry

/-! ## Expanding one method -/

/-- Put the fields and array types of a method into the catalog; the answer is the number of
new fields. -/
def collect (S : Setting) (facts : MethodFacts) : Action Catalog Nat := do
  let fields ← Catalog.registerFields S facts.fields
  Catalog.recordArrays S facts.arrays
  return fields

/-- Expand a method: register it, mark it, and collect what it uses. The answer is the number
of new fields. -/
def expand (S : Setting) (m : MethodRef) (facts : MethodFacts) : Action Registry Nat := do
  let _ ← onCatalog (Catalog.registerMethod S m)
  Action.modify fun r => { r with walked := r.walked ++ [m] }
  Action.tell (.expanded m facts.calls.length facts.fields.length facts.arrays.length)
  onCatalog (collect S facts)

/-- An expansion that succeeds marks exactly its method. -/
theorem walked_expand {S : Setting} {m : MethodRef} {facts : MethodFacts} {r : Registry} {n : Nat}
    (h : ((expand S m facts).run r).result = .ok n) :
    ((expand S m facts).run r).state.walked = r.walked ++ [m] := by
  obtain ⟨_, h₁, -⟩ := Action.result_bind_eq_ok.mp h
  exact congrArg walked (Action.state_bind_of_ok h₁)

/-- The array types of the catalog are kept. -/
def KeepsArrays (r r' : Registry) : Prop :=
  r.catalog.KeepsArrays r'.catalog

instance : Std.Refl KeepsArrays := ⟨fun r => .refl r.catalog⟩

instance : Trans KeepsArrays KeepsArrays KeepsArrays := ⟨fun h h' => Catalog.KeepsArrays.trans h h'⟩

theorem onCatalog_keepsArrays {α : Type} {x : Action Catalog α} (h : x.Keeps Catalog.KeepsArrays) :
    (onCatalog x).Keeps KeepsArrays :=
  .onPart fun r => h r.catalog

/-- What an expansion has recorded stays recorded, also if it fails later on. -/
theorem expand_keepsArrays (S : Setting) (m : MethodRef) (facts : MethodFacts) :
    (expand S m facts).Keeps KeepsArrays := by
  refine .bind (onCatalog_keepsArrays (Catalog.registerMethod_keepsArrays S m)) fun _ => ?_
  refine .bind (.modify fun r => .refl r.catalog) fun _ => .bind (.tell _) fun _ => ?_
  refine onCatalog_keepsArrays (.bind (Catalog.registerFields_keepsArrays S _) fun _ => ?_)
  exact .bind (Catalog.recordArrays_keepsArrays S _) fun _ => .pure _

/-! ## Walking from entry methods -/

/-- Expand what is reachable from a queue of methods, first come first served. The answer is
the number of methods expanded and the number of new fields. -/
def expandAll (S : Setting) (g : CallGraph) (queue : List MethodRef) (r : Registry) :
    Outcome Registry (Nat × Nat) :=
  match queue with
  | [] => ⟨.ok (0, 0), r, []⟩
  | m :: rest =>
    if _hw : m ∈ r.walked then expandAll S g rest r
    else
      match _hf : g.facts? m with
      | none => ⟨.error (.unknownMethod m), r, []⟩
      | some facts =>
        match _he : ((expand S m facts).run r).result with
        | .error e => ⟨.error e, ((expand S m facts).run r).state, ((expand S m facts).run r).log⟩
        | .ok n =>
          let o := (expand S m facts).run r
          let more := facts.calls.filter fun callee => callee ∉ o.state.walked
          ((expandAll S g (rest ++ more) o.state).map fun found =>
            (found.1 + 1, found.2 + n)).after o.log
termination_by (remaining g.methods r.walked, queue.length)
decreasing_by
  · exact Prod.Lex.right _ (Nat.lt_succ_self _)
  · refine Prod.Lex.left _ _ (remaining_lt_of_mem ?_ (CallGraph.mem_methods_of_facts? _hf) _hw ?_)
    · exact walked_expand _he ▸ List.subset_append_left ..
    · exact walked_expand _he ▸ List.mem_append_right _ (List.mem_singleton_self m)

/-- Walk everything reachable from the entries. A method without facts, or a class or field
the host does not resolve, ends the walk. -/
def walk (S : Setting) (g : CallGraph) (entries : List MethodRef) : Action Registry Report := do
  let before ← Action.get
  let (methods, fields) ← Action.mk (expandAll S g entries)
  let after ← Action.get
  let report : Report :=
    { methods, fields
      arrays := after.catalog.arrays.length - before.catalog.arrays.length
      classes := after.catalog.classes.length - before.catalog.classes.length }
  Action.tell report.event
  return report

/-! ## Walking classes -/

/-- The descriptor of an id; it is an error if there is none. -/
def descriptor (id : ClassId) : Action Registry ClassDescriptor := do
  let r ← Action.get
  match r.catalog.class? id with
  | none => Action.fail (.unknownClassId id)
  | some c => return c

/-- Walk from every method registered on a class. Only the first call for a class does
anything. -/
def walkClass (S : Setting) (g : CallGraph) (id : ClassId) : Action Registry Report := do
  let c ← descriptor id
  if c.membersWalked then return {}
  onCatalog (Catalog.onClass id (.modify fun c => { c with membersWalked := true }))
  walk S g c.methods

/-- Record the array types that some methods use, without following calls. -/
def recordArraysOf (S : Setting) (g : CallGraph) : List MethodRef → Action Registry Unit
  | [] => return ()
  | m :: rest =>
    match g.facts? m with
    | none => Action.fail (.unknownMethod m)
    | some facts => do
      onCatalog (Catalog.recordArrays S facts.arrays)
      recordArraysOf S g rest

/-- Record the array types used by the methods registered on a class, without following
calls. Only the first call for a class does anything. -/
def walkClassArrays (S : Setting) (g : CallGraph) (id : ClassId) : Action Registry Report := do
  let c ← descriptor id
  if c.arraysWalked then return {}
  onCatalog (Catalog.onClass id (.modify fun c => { c with arraysWalked := true }))
  let before ← Action.get
  recordArraysOf S g c.methods
  let after ← Action.get
  return {
    arrays := after.catalog.arrays.length - before.catalog.arrays.length
    classes := after.catalog.classes.length - before.catalog.classes.length }

/-- Walk a class as a whole: its methods, then their array types. -/
def walkWhole (S : Setting) (g : CallGraph) (id : ClassId) : Action Registry Report := do
  let members ← walkClass S g id
  let arrays ← walkClassArrays S g id
  return members.merge arrays

/-! ## Why walking all classes ends -/

/-- How much of the graph is left: methods not expanded and array types not recorded. -/
def unseen (g : CallGraph) (r : Registry) : Nat :=
  remaining g.methods r.walked + remaining g.arrayLevels r.catalog.arrays

/-- Either less of the graph is left, or no more is left and the number of classes is as
before. -/
def Nearer (g : CallGraph) (r r' : Registry) : Prop :=
  unseen g r' < unseen g r ∨
    (unseen g r' ≤ unseen g r ∧ r'.catalog.classes.length = r.catalog.classes.length)

/-- What comes nearer leaves no more of the graph than there was. -/
theorem Nearer.unseen_le {g : CallGraph} {r r' : Registry} (h : Nearer g r r') :
    unseen g r' ≤ unseen g r := by
  rcases h with h | ⟨h, -⟩
  · exact Nat.le_of_lt h
  · exact h

instance {g : CallGraph} : Std.Refl (Nearer g) :=
  ⟨fun _ => Or.inr ⟨Nat.le_refl _, rfl⟩⟩

instance {g : CallGraph} : Trans (Nearer g) (Nearer g) (Nearer g) where
  trans {r r' r''} h h' := by
    rcases h with h | ⟨hu, hc⟩
    · exact Or.inl (Nat.lt_of_le_of_lt h'.unseen_le h)
    · rcases h' with h' | ⟨hu', hc'⟩
      · exact Or.inl (Nat.lt_of_lt_of_le h' hu)
      · exact Or.inr ⟨Nat.le_trans hu' hu, hc'.trans hc⟩

/-- Discovery expands no method, so the registry comes nearer to the graph as the catalog comes
nearer to its array types. -/
theorem onCatalog_nearer {g : CallGraph} {α : Type} {x : Action Catalog α}
    (h : x.Keeps (Catalog.Nearer g.arrayLevels)) : (onCatalog x).Keeps (Nearer g) := by
  refine .onPart fun r => ?_
  rcases h r.catalog with h | ⟨ha, hc⟩
  · exact Or.inl (Nat.add_lt_add_left h _)
  · refine Or.inr ⟨Nat.le_of_eq ?_, hc⟩
    simp only [unseen, ha]

/-- A queue worked off without an error leaves less of the graph, or nothing was expanded. -/
theorem expandAll_nearer (S : Setting) (g : CallGraph) (queue : List MethodRef) (r : Registry) :
    ∀ {found}, (expandAll S g queue r).result = .ok found →
      Nearer g r (expandAll S g queue r).state := by
  fun_induction expandAll S g queue r with
  | case1 r => exact fun _ => Std.Refl.refl r
  | case2 r m rest hw ih => exact ih
  | case3 r m rest hw hf => exact fun h => nomatch h
  | case4 r m rest hw facts hf e he => exact fun h => nomatch h
  | case5 r m rest hw facts hf n he o more =>
    rename_i ih
    intro found h
    have hk := expand_keepsArrays S m facts r
    refine Or.inl (Nat.lt_of_le_of_lt ?_ (?_ : unseen g o.state < unseen g r))
    · cases h' : (expandAll S g (rest ++ more) o.state).result with
      | error e => simp [Outcome.map, Outcome.after, h', Except.map] at h
      | ok found' => exact (ih h').unseen_le
    · refine Nat.add_lt_add_of_lt_of_le ?_ (remaining_le_of_subset hk.subset)
      refine remaining_lt_of_mem ?_ (CallGraph.mem_methods_of_facts? hf) hw ?_
      · exact walked_expand he ▸ List.subset_append_left ..
      · exact walked_expand he ▸ List.mem_append_right _ (List.mem_singleton_self m)

/-- A walk that succeeds leaves less of the graph, or as many classes as before. -/
theorem walk_nearer (S : Setting) (g : CallGraph) (entries : List MethodRef) :
    (walk S g entries).KeepsIfOk (Nearer g) := by
  refine .bind (.of_keeps .get) fun before => .bind (fun r _ h => expandAll_nearer S g _ r h) ?_
  exact fun _ => .bind (.of_keeps .get) fun _ => .bind (.of_keeps (.tell _)) fun _ =>
    .of_keeps (.pure _)

theorem descriptor_keeps (R : Registry → Registry → Prop) [Std.Refl R] (id : ClassId) :
    (descriptor id).Keeps R := by
  refine .get_bind fun r => ?_
  split
  · exact Action.Keeps.fail _ r
  · exact Action.Keeps.pure _ r

/-- The same for the methods of a class, whose mark is no part of what is measured. -/
theorem walkClass_nearer (S : Setting) (g : CallGraph) (id : ClassId) :
    (walkClass S g id).KeepsIfOk (Nearer g) := by
  refine .bind (.of_keeps (descriptor_keeps _ id)) fun c => ?_
  split
  · exact .of_keeps (.pure _)
  · refine .bind (.of_keeps (onCatalog_nearer (Catalog.onClass_nearer id _))) fun _ => ?_
    exact walk_nearer S g _

theorem recordArraysOf_nearer (S : Setting) (g : CallGraph) :
    ∀ ms : List MethodRef, (recordArraysOf S g ms).Keeps (Nearer g)
  | [] => .pure _
  | m :: rest => by
    unfold recordArraysOf
    split
    · exact .fail _
    · next facts hf =>
      refine .bind (onCatalog_nearer (Catalog.recordArrays_nearer fun t ht => ?_)) fun _ =>
        recordArraysOf_nearer S g rest
      exact fun level hl => CallGraph.mem_arrayLevels_of_facts? hf ht hl

/-- Recording the array types of the methods of a class comes nearer even if it fails. -/
theorem walkClassArrays_nearer (S : Setting) (g : CallGraph) (id : ClassId) :
    (walkClassArrays S g id).Keeps (Nearer g) := by
  refine .bind (descriptor_keeps _ id) fun c => ?_
  split
  · exact .pure _
  · refine .bind (onCatalog_nearer (Catalog.onClass_nearer id _)) fun _ => ?_
    refine .bind .get fun _ => .bind (recordArraysOf_nearer S g _) fun _ => ?_
    exact .bind .get fun _ => .pure _

/-- Walking a class as a whole leaves less of the graph, or as many classes as before. -/
theorem walkWhole_nearer (S : Setting) (g : CallGraph) (id : ClassId) :
    (walkWhole S g id).KeepsIfOk (Nearer g) :=
  .bind (walkClass_nearer S g id) fun _ =>
    .bind (.of_keeps (walkClassArrays_nearer S g id)) fun _ => .of_keeps (.pure _)

/-! ## Walking all classes -/

/-- Walk the classes from index `next` on, those that the walk adds included. -/
def walkFrom (S : Setting) (g : CallGraph) (next : Nat) (r : Registry) :
    Outcome Registry Report :=
  if _hn : next < r.catalog.classes.length then
    match _hw : ((walkWhole S g ⟨next⟩).run r).result with
    | .error e =>
      ⟨.error e, ((walkWhole S g ⟨next⟩).run r).state, ((walkWhole S g ⟨next⟩).run r).log⟩
    | .ok found =>
      let o := (walkWhole S g ⟨next⟩).run r
      ((walkFrom S g (next + 1) o.state).map found.merge).after o.log
  else ⟨.ok {}, r, []⟩
termination_by (unseen g r, r.catalog.classes.length - next)
decreasing_by
  rcases walkWhole_nearer S g ⟨next⟩ r _ _hw with h | ⟨h, hc⟩
  · exact Prod.Lex.left _ _ h
  · rcases Nat.lt_or_eq_of_le h with h | h
    · exact Prod.Lex.left _ _ h
    · rw [h, hc]
      exact Prod.Lex.right _ (by omega)

/-- Walk every class of the catalog as a whole, until no class is left that was not walked. -/
def walkAll (S : Setting) (g : CallGraph) : Action Registry Report :=
  ⟨walkFrom S g 0⟩

end Registry

end DeviceLayout
