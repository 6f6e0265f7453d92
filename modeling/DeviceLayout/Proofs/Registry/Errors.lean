import DeviceLayout.Proofs.Catalog.Endings
import DeviceLayout.Proofs.Layout.Memo
import DeviceLayout.Proofs.Table.Finalize

/-!
# How requests fail

Discovery fails because the host or the call graph does not know what is asked for, or because a
class is classified (`LayoutError.isDiscovery`). Nothing else goes wrong on the way : the ids that
discovery goes by are those of classes of the catalog, so it never asks for a class that is not
there. That is shown part by part with `Action.Confines`, from the invariant that the catalog is
well-formed and has at least some number of classes (`Catalog.Holds`).

A layout fails at a class that is not classified, or that does not fit into 32 bits
(`Placement.compute_eq_error`). `Request.FailsWith` collects the errors that a request may end with,
and `Request.serve_failsWith` shows that there are no others.
-/

open DeviceLayout.Action

namespace DeviceLayout

/-- Whether the error says that the host or the call graph does not know what is asked for, or that
a class is classified. -/
def LayoutError.isDiscovery : LayoutError → Bool
  | unknownClass _ | unknownField _ | unknownMethod _ => true
  | unresolvedAncestor _ | classFrozen .. => true
  | _ => false

/-! ## Descriptors -/

namespace ClassDescriptor

/-- An action that fails with errors of discovery only. -/
def Confined {α : Type} (x : Action ClassDescriptor α) : Prop :=
  x.Confines (fun _ => True) (·.isDiscovery = true)

/-- A field is refused only because its class is classified. -/
theorem addField_confined (f : HostField) : Confined (addField f) := by
  refine .get_bind fun d _ => ?_
  split
  · exact .ok trivial
  · split
    · exact .error trivial rfl
    · exact .modify_bind (.ok trivial)

theorem addMethod_confined (m : MethodRef) : Confined (addMethod m) := by
  refine .get_bind fun d _ => ?_
  split
  · exact .ok trivial
  · exact .modify_bind (.ok trivial)

/-- Classifying never fails. -/
theorem classify_confined : Confined classify :=
  .bind .get fun _ => .bind (.tellAll _) fun _ => .bind (.modify fun _ h => h) fun _ => .pure _

end ClassDescriptor

/-- Only the request to add a field can fail at a descriptor. -/
theorem ClassRequest.serve_confined (q : ClassRequest) : ClassDescriptor.Confined q.serve := by
  cases q with
  | addField f => exact (ClassDescriptor.addField_confined f).map _
  | addMethod m => exact (ClassDescriptor.addMethod_confined m).map _
  | hasMethod m => exact Confines.get.map _
  | isFrozen => exact Confines.get.map _
  | classify => exact ClassDescriptor.classify_confined.map _
  | buckets => exact ClassDescriptor.classify_confined.map _
  | referenceCount => exact ClassDescriptor.classify_confined.map _
  | staticSize => exact ClassDescriptor.classify_confined.map _
  | field name => exact ClassDescriptor.classify_confined.map _
  | fields => exact Confines.get.map _
  | describe => exact Confines.get.map _
  | copy => exact .pure _

/-! ## Discovery -/

namespace Catalog

variable {n : Nat} {c c' : Catalog} {id : ClassId} {d : ClassDescriptor}

/-- A well-formed catalog with at least `n` classes. -/
structure Holds (n : Nat) (c : Catalog) : Prop where
  wellFormed : c.WellFormed
  le : n ≤ c.classes.length

/-- Classes are never removed. -/
theorem Holds.reaches {S : Setting} (h : c.Holds n) (hr : c.Reaches S c') : c'.Holds n where
  wellFormed := h.wellFormed.reaches hr
  le := by
    cases n with
    | zero => exact Nat.zero_le _
    | succ i =>
      obtain ⟨d, hd⟩ : ∃ d, c.class? ⟨i⟩ = some d := class?_of_index_lt h.le
      obtain ⟨d', hd', -⟩ := hr.extends.class? hd
      exact index_lt_of_class? hd'

/-- An action that keeps the classes of the catalog and fails with errors of discovery only. -/
def Confined {α : Type} (n : Nat) (x : Action Catalog α) : Prop :=
  x.Confines (Holds n) (·.isDiscovery = true)

/-- A class is refused for the lack of itself or of a chain above it. -/
theorem classFor_confined (S : Setting) (name : String) : Confined n (classFor S name) := by
  intro c h
  have hd := (classFor_ensures h.wellFormed (Scope.all_admitsClass S name)).1
  refine ⟨h.reaches hd.reaches, fun e he => ?_⟩
  obtain ⟨-, ⟨-, rfl⟩ | ⟨-, -, rfl⟩⟩ := classFor_error_cases h.wellFormed he <;> rfl

/-- A mention of a class fails as the class does. -/
theorem bringIn_confined (S : Setting) (t : HostType) : Confined n (bringIn S t) := by
  unfold bringIn
  split
  · exact .pure ()
  · exact .bind (classFor_confined S _) fun _ => .pure ()

/-- An array type fails with the class it mentions. -/
theorem recordArray_confined (S : Setting) (t : HostType) : Confined n (recordArray S t) := by
  refine .get_bind fun c h => ?_
  dsimp only
  split
  · exact .ok h
  · refine .tellAll_bind (.modify_bind ?_)
    have h' : Holds n { c with arrays := c.arrays ++ c.missingArrays t } :=
      ⟨{ h.wellFormed with }, h.le⟩
    exact Confines.bind (bringIn_confined S t) (fun _ => .pure _) _ h'

theorem recordArrays_confined (S : Setting) :
    ∀ ts : List HostType, Confined n (recordArrays S ts)
  | [] => .pure ()
  | t :: rest => .bind (recordArray_confined S t) fun _ => recordArrays_confined S rest

/-- An action on a class of the catalog fails if the descriptor does. -/
theorem onClass_ends (S : Setting) {α : Type} {x : Action ClassDescriptor α} (h : c.Holds n)
    (hd : c.class? id = some d) (hkeeps : x.Keeps ClassDescriptor.Reaches)
    (hx : ClassDescriptor.Confined x) :
    (onClass id x).Ensures c (Ends (Holds n) (·.isDiscovery = true)) :=
  onClass_ensures hd
    ⟨h.reaches (S := S) (reaches_withDescriptor hd (hkeeps d)), (hx d trivial).2⟩

/-- The class of a method is there once it has been brought in, so only bringing it in can fail. -/
theorem registerMethod_confined (S : Setting) (m : MethodRef) :
    Confined n (registerMethod S m) := by
  intro c h
  refine Ends.bind (classFor_confined S _ c h)
    (classFor_ensures h.wellFormed (Scope.all_admitsClass S _)) ?_
  rintro id c₁ h₁ ⟨-, hl⟩
  obtain ⟨d, hd, -⟩ := h₁.wellFormed.lookup_eq_some_iff.mp hl
  exact onClass_ends S h₁ hd (ClassDescriptor.addMethod_keeps m)
    (ClassDescriptor.addMethod_confined m)

/-- A field access fails for its class, for a field that no class of the chain declares, because the
class is classified, or for the class that the field mentions. The class that declares the field is
there, since the field was found on it. -/
theorem registerField_confined (S : Setting) (access : FieldRef) :
    Confined n (registerField S access) := by
  intro c h
  refine Ends.bind (classFor_confined S _ c h)
    (classFor_ensures h.wellFormed (Scope.all_admitsClass S _)) ?_
  rintro through c₁ h₁ ⟨-, hl⟩
  obtain ⟨q, hq, -⟩ := h₁.wellFormed.lookup_eq_some_iff.mp hl
  refine .get_bind ?_
  split
  · exact .error h₁ rfl
  · next owner declaration hdecl =>
    obtain ⟨d, hd, -⟩ := h₁.wellFormed.class?_of_declaring? hq hdecl
    refine Ends.bind (Q := fun _ _ => True) (onClass_ends S h₁ hd
      (ClassDescriptor.addField_keeps declaration)
      (ClassDescriptor.addField_confined declaration)) trivial ?_
    intro added c₂ h₂ _
    split
    · exact .ok h₂
    · exact Confines.bind (bringIn_confined S _)
        (fun _ => .bind (recordArray_confined S _) fun _ => .pure true) c₂ h₂

/-- Field accesses fail with the first one that does. -/
theorem registerFields_confined (S : Setting) :
    ∀ accesses : List FieldRef, Confined n (registerFields S accesses)
  | [] => .pure 0
  | access :: rest => .bind (registerField_confined S access) fun _ =>
      .bind (registerFields_confined S rest) fun _ => .pure _

end Catalog

/-! ## Walks -/

namespace Registry

variable {n : Nat}

/-- A registry whose catalog is well-formed and has at least `n` classes. -/
def Holds (n : Nat) (r : Registry) : Prop :=
  r.catalog.Holds n

/-- An action that keeps the classes of the registry and fails with errors of discovery only. -/
def Confined {α : Type} (n : Nat) (x : Action Registry α) : Prop :=
  x.Confines (Holds n) (·.isDiscovery = true)

/-- An action on the catalog has no errors but its own. -/
theorem onCatalog_confined {α : Type} {x : Action Catalog α} (h : Catalog.Confined n x) :
    Confined n (onCatalog x) :=
  .onPart h (fun _ hr => hr) fun _ _ _ hc => hc

theorem collect_confined (S : Setting) (facts : MethodFacts) :
    Catalog.Confined n (collect S facts) :=
  .bind (Catalog.registerFields_confined S _) fun _ =>
    .bind (Catalog.recordArrays_confined S _) fun _ => .pure _

/-- A method is expanded by steps of discovery, and fails as they do. -/
theorem expand_confined (S : Setting) (m : MethodRef) (facts : MethodFacts) :
    Confined n (expand S m facts) :=
  .bind (onCatalog_confined (Catalog.registerMethod_confined S m)) fun _ =>
    .bind (.modify fun _ hr => hr) fun _ => .bind (.tell _) fun _ =>
      onCatalog_confined (collect_confined S facts)

/-- A queue fails for want of the facts of a method, or in an expansion. -/
theorem expandAll_confined (S : Setting) (g : CallGraph) (queue : List MethodRef) :
    Confined n (Action.mk (expandAll S g queue)) := by
  intro r hr
  show Ends (Holds n) _ (expandAll S g queue r).result (expandAll S g queue r).state
  fun_induction expandAll S g queue r with
  | case1 r => exact .ok hr
  | case2 r m rest hw ih => exact ih hr
  | case3 r m rest hw hf => exact .error hr rfl
  | case4 r m rest hw facts hf e he =>
    obtain ⟨hr', herr⟩ := expand_confined S m facts r hr
    exact .error hr' (herr e he)
  | case5 r m rest hw facts hf k he o more ih =>
    obtain ⟨hr', herr⟩ := ih (expand_confined S m facts r hr).1
    refine ⟨hr', fun e h => herr e ?_⟩
    exact Outcome.result_map_after_eq_error.mp h

theorem walk_confined (S : Setting) (g : CallGraph) (entries : List MethodRef) :
    Confined n (walk S g entries) :=
  .bind .get fun _ => .bind (expandAll_confined S g entries) fun _ =>
    .bind .get fun _ => .bind (.tell _) fun _ => .pure _

/-- A class of the registry has a descriptor. -/
theorem descriptor_confined {i : Nat} (hi : i < n) : Confined n (descriptor ⟨i⟩) := by
  refine .get_bind fun r hr => ?_
  obtain ⟨d, hd⟩ : ∃ d, r.catalog.class? ⟨i⟩ = some d :=
    Catalog.class?_of_index_lt (Nat.lt_of_lt_of_le hi hr.le)
  rw [hd]
  exact .ok hr

/-- An action on a class of the registry fails if the descriptor does. -/
theorem onClass_confined (S : Setting) {i : Nat} (hi : i < n) {α : Type}
    {x : Action ClassDescriptor α} (hkeeps : x.Keeps ClassDescriptor.Reaches)
    (hx : ClassDescriptor.Confined x) : Confined n (onCatalog (Catalog.onClass ⟨i⟩ x)) := by
  refine onCatalog_confined fun c h => ?_
  obtain ⟨d, hd⟩ : ∃ d, c.class? ⟨i⟩ = some d :=
    Catalog.class?_of_index_lt (Nat.lt_of_lt_of_le hi h.le)
  exact Catalog.onClass_ends S h hd hkeeps hx

/-- The walk over a class finds its descriptor, as its index is in range from the start. -/
theorem walkClass_confined (S : Setting) (g : CallGraph) {i : Nat} (hi : i < n) :
    Confined n (walkClass S g ⟨i⟩) := by
  refine .bind (descriptor_confined hi) fun d => ?_
  split
  · exact .pure _
  · refine .bind (onClass_confined S hi (.modify fun _ => .single .walkMembers)
      (.modify fun _ h => h)) fun _ => ?_
    exact walk_confined S g _

/-- The array types of methods fail for want of facts, or in discovery. -/
theorem recordArraysOf_confined (S : Setting) (g : CallGraph) :
    ∀ ms : List MethodRef, Confined n (recordArraysOf S g ms)
  | [] => .pure ()
  | m :: rest => by
    unfold recordArraysOf
    split
    · exact .fail rfl
    · exact .bind (onCatalog_confined (Catalog.recordArrays_confined S _)) fun _ =>
        recordArraysOf_confined S g rest

theorem walkClassArrays_confined (S : Setting) (g : CallGraph) {i : Nat} (hi : i < n) :
    Confined n (walkClassArrays S g ⟨i⟩) := by
  refine .bind (descriptor_confined hi) fun d => ?_
  split
  · exact .pure _
  · refine .bind (onClass_confined S hi (.modify fun _ => .single .walkArrays)
      (.modify fun _ h => h)) fun _ => ?_
    exact .bind .get fun _ => .bind (recordArraysOf_confined S g _) fun _ =>
      .bind .get fun _ => .pure _

theorem walkWhole_confined (S : Setting) (g : CallGraph) {i : Nat} (hi : i < n) :
    Confined n (walkWhole S g ⟨i⟩) :=
  .bind (walkClass_confined S g hi) fun _ =>
    .bind (walkClassArrays_confined S g hi) fun _ => .pure _

/-- A sweep asks for classes it has counted, so no id of its own is unknown. No step takes a class
away, so those behind it are still there. -/
theorem walkAll_confined (S : Setting) (g : CallGraph) : Confined n (walkAll S g) := by
  suffices h : ∀ next r, Holds n r →
      Ends (Holds n) (·.isDiscovery = true) (walkFrom S g next r).result
        (walkFrom S g next r).state from fun r hr => h 0 r hr
  have hwhole : ∀ {next r}, next < r.catalog.classes.length → Holds n r →
      (walkWhole S g ⟨next⟩).Ensures r (Ends (Holds n) (·.isDiscovery = true)) :=
    fun hn hr => (walkWhole_confined S g hn _ ⟨hr.wellFormed, Nat.le_refl _⟩).mono
      fun _ _ ⟨hr', he⟩ => ⟨⟨hr'.wellFormed, Nat.le_trans hr.le hr'.le⟩, he⟩
  intro next r hr
  fun_induction walkFrom S g next r with
  | case1 next r hn e he =>
    obtain ⟨hr', herr⟩ := hwhole hn hr
    exact .error hr' (herr e he)
  | case2 next r hn found hw o ih =>
    obtain ⟨hr', herr⟩ := ih (hwhole hn hr).1
    exact ⟨hr', fun e h => herr e (Outcome.result_map_after_eq_error.mp h)⟩
  | case3 next r hn => exact .ok hr

/-! ## Ids that are not known -/

section

variable {S : Setting} {g : CallGraph} {r : Registry} {id : ClassId}

/-- An unknown id is refused before anything is done. -/
theorem descriptor_of_unknown (h : r.catalog.class? id = none) :
    (descriptor id).run r = ⟨.error (.unknownClassId id), r, []⟩ := by
  rw [descriptor, run_get_bind, h]
  rfl

theorem walkClass_of_unknown (h : r.catalog.class? id = none) :
    (walkClass S g id).run r = ⟨.error (.unknownClassId id), r, []⟩ :=
  run_bind_of_error (descriptor_of_unknown h)

theorem walkClassArrays_of_unknown (h : r.catalog.class? id = none) :
    (walkClassArrays S g id).run r = ⟨.error (.unknownClassId id), r, []⟩ :=
  run_bind_of_error (descriptor_of_unknown h)

/-- The same for requests to the descriptor of an unknown id. -/
theorem onClass_of_unknown {α : Type} {x : Action ClassDescriptor α}
    (h : r.catalog.class? id = none) :
    (onCatalog (Catalog.onClass id x)).run r = ⟨.error (.unknownClassId id), r, []⟩ := by
  have hrun : (Catalog.onClass id x).run r.catalog =
      ⟨.error (.unknownClassId id), r.catalog, []⟩ := by
    rw [Catalog.onClass, run_get_bind, h]
    rfl
  rw [onCatalog, onPart]
  simp only [hrun]

end

end Registry

/-! ## Requests -/

/-- The id that a request asks for. -/
def Request.classId? : Request → Option ClassId
  | walkClass _ id | walkClassArrays _ id | layoutOf id | classSize id | onClass id _ => some id
  | _ => none

/-- Whether the request is for layouts. -/
def Request.laysOut : Request → Bool
  | layoutOf _ | classSize _ | classSizeOrZero _ | finalize => true
  | _ => false

/-- The errors that a request may end with. -/
inductive Request.FailsWith (r : Registry) (q : Request) : LayoutError → Prop
  | unknownId {id : ClassId} (hid : q.classId? = some id) (h : r.catalog.class? id = none) :
    FailsWith r q (.unknownClassId id)
  | discovery {e : LayoutError} (hq : q.laysOut = false) (he : e.isDiscovery = true) :
    FailsWith r q e
  | notClassified {id : ClassId} {d : ClassDescriptor} (hq : q.laysOut = true)
    (hid : q.classId? = some id) (h : r.catalog.class? id = some d) (hopen : d.frozen = false) :
    FailsWith r q (.notClassified d.hostName)
  | unclassifiedAncestor {id a : ClassId} {d above : ClassDescriptor} (hq : q.laysOut = true)
    (hid : q.classId? = some id) (h : r.catalog.class? id = some d)
    (ha : a ∈ r.catalog.ancestry id) (habove : r.catalog.class? a = some above)
    (hopen : above.frozen = false) :
    FailsWith r q (.layoutUnavailable d.hostName (.unclassifiedAncestor above.hostName))
  | overflow {d : ClassDescriptor} {block : Block} (hq : q.laysOut = true)
    (hd : d ∈ r.catalog.classes) :
    FailsWith r q (.layoutUnavailable d.hostName (.overflow block))

/-- A class has no layout if it is not classified, or if it does not fit into 32 bits. -/
theorem Placement.compute_eq_error {d : ClassDescriptor} {parentSize : Option UInt32}
    {config : LayoutConfig} {e : LayoutError} (h : compute d parentSize config = .error e) :
    d.frozen = false ∧ e = .notClassified d.hostName ∨
      ∃ block, e = .layoutUnavailable d.hostName (.overflow block) := by
  unfold compute at h
  dsimp only at h
  split at h
  · next hopen => exact Or.inl ⟨by simpa using hopen, (Except.error.inj h).symm⟩
  · split at h
    · exact Or.inr ⟨_, (Except.error.inj h).symm⟩
    · split at h
      · exact Or.inr ⟨_, (Except.error.inj h).symm⟩
      · split at h
        · exact Or.inr ⟨_, (Except.error.inj h).symm⟩
        · cases h

namespace Registry

variable {S : Setting} {r : Registry} {id : ClassId} {d : ClassDescriptor}

/-- The error of a request for the layout of a class. -/
theorem WellFormed.blame_failsWith (hr : r.WellFormed S) (h : r.catalog.class? id = some d)
    {a : ClassId} {e : LayoutError}
    (he : r.catalog.freshLayout S.config id = .error (a, e)) {q : Request}
    (hq : q.laysOut = true) (hid : q.classId? = some id) : q.FailsWith r (blame d a e) := by
  obtain ⟨above, below, hsplit, -, ⟨d', ps, hd', hcompute, -⟩, -⟩ :=
    hr.catalog.freshLayout_eq_error h he
  rcases Placement.compute_eq_error hcompute with ⟨hopen, rfl⟩ | ⟨block, rfl⟩
  · unfold blame
    dsimp only
    split
    · next hself =>
      rw [hr.catalog.id_eq h] at hself
      obtain rfl := Option.some.inj (h.symm.trans (hself ▸ hd'))
      exact .notClassified hq hid h hopen
    · exact .unclassifiedAncestor hq hid h (hsplit ▸ by simp) hd' hopen
  · exact .overflow hq (Catalog.mem_classes_of_class? hd')

/-- A layout is refused for the reason that a layout from scratch is refused for, and the class to
blame is the one asked for or above it. -/
theorem WellFormed.layoutOf_failsWith (hr : r.WellFormed S) {q : Request}
    (hq : q.laysOut = true) (hid : q.classId? = some id) :
    (layoutOf S id).Ensures r fun res _ => ∀ e, res = .error e → q.FailsWith r e := by
  intro e he
  cases h : r.catalog.class? id with
  | none =>
    rw [layoutOf_of_unknown h] at he
    exact Except.error.inj he ▸ .unknownId hid h
  | some d =>
    obtain ⟨f, hf, rfl⟩ := freshLayout_of_layoutOf_error hr h he
    exact hr.blame_failsWith h hf hq hid

/-- Finalizing fails only at a class that does not fit into 32 bits. -/
theorem WellFormed.finalize_error (hr : r.WellFormed S) {e : LayoutError}
    (he : ((finalize S).run r).result = .error e) :
    ∃ d ∈ r.catalog.classes, ∃ block, e = .layoutUnavailable d.hostName (.overflow block) := by
  obtain ⟨hr', -, hc', hres⟩ := finalize_cases hr
  rw [he] at hres
  obtain ⟨id, d, ⟨a, e'⟩, hd, hf, rfl⟩ := hres
  obtain ⟨-, -, -, -, ⟨d', ps, hd', hcompute, -⟩, -⟩ := hr'.catalog.freshLayout_eq_error hd hf
  rw [hc', Catalog.class?_classified] at hd'
  obtain ⟨above, habove, rfl⟩ := Option.map_eq_some_iff.mp hd'
  rcases Placement.compute_eq_error hcompute with ⟨hopen, -⟩ | ⟨block, rfl⟩
  · cases hopen
  · exact ⟨above, Catalog.mem_classes_of_class? habove, block, rfl⟩

end Registry

namespace Request

variable {S : Setting} {r : Registry} {q : Request} {α : Type} {x : Action Registry α}
  {e : LayoutError}

theorem failsWith_of_confined (hr : r.WellFormed S) (hq : q.laysOut = false)
    (hx : Registry.Confined 0 x) (he : (x.run r).result = .error e) : q.FailsWith r e :=
  .discovery hq ((hx r ⟨hr.catalog, Nat.zero_le _⟩).2 e he)

/-- A request for a class fails if there is no such class, or as it may fail for one that there
is. -/
theorem failsWith_of_classId {id : ClassId} (hr : r.WellFormed S) (hq : q.laysOut = false)
    (hid : q.classId? = some id) (hx : Registry.Confined (id.index + 1) x)
    (hunknown : r.catalog.class? id = none → x.run r = ⟨.error (.unknownClassId id), r, []⟩)
    (he : (x.run r).result = .error e) : q.FailsWith r e := by
  cases h : r.catalog.class? id with
  | none =>
    rw [hunknown h] at he
    exact Except.error.inj he ▸ .unknownId hid h
  | some d => exact .discovery hq ((hx r ⟨hr.catalog, Catalog.index_lt_of_class? h⟩).2 e he)

/-- Requests end with the errors they may end with, and no others. -/
theorem serve_failsWith (hr : r.WellFormed S) (q : Request)
    (he : ((q.serve S).run r).result = .error e) : q.FailsWith r e := by
  cases q with
  | classFor name =>
    exact failsWith_of_confined hr rfl
      (Registry.onCatalog_confined (Catalog.classFor_confined S name)) (result_map_eq_error.mp he)
  | registerMethod m =>
    exact failsWith_of_confined hr rfl
      (Registry.onCatalog_confined (Catalog.registerMethod_confined S m))
      (result_map_eq_error.mp he)
  | registerField access =>
    exact failsWith_of_confined hr rfl
      (Registry.onCatalog_confined (Catalog.registerField_confined S access))
      (result_map_eq_error.mp he)
  | recordArray t =>
    exact failsWith_of_confined hr rfl
      (Registry.onCatalog_confined (Catalog.recordArray_confined S t)) (result_map_eq_error.mp he)
  | walk g entries =>
    exact failsWith_of_confined hr rfl (Registry.walk_confined S g entries)
      (result_map_eq_error.mp he)
  | walkClass g id =>
    exact failsWith_of_classId hr rfl rfl (Registry.walkClass_confined S g (Nat.lt_succ_self _))
      Registry.walkClass_of_unknown (result_map_eq_error.mp he)
  | walkClassArrays g id =>
    exact failsWith_of_classId hr rfl rfl
      (Registry.walkClassArrays_confined S g (Nat.lt_succ_self _))
      Registry.walkClassArrays_of_unknown (result_map_eq_error.mp he)
  | walkAll g =>
    exact failsWith_of_confined hr rfl (Registry.walkAll_confined S g) (result_map_eq_error.mp he)
  | classifyAll => cases he
  | layoutOf id => exact hr.layoutOf_failsWith rfl rfl e (result_map_eq_error.mp he)
  | classSize id =>
    have hsize : ((Registry.classSize S id).run r).result = .error e :=
      result_map_eq_error.mp he
    exact hr.layoutOf_failsWith rfl rfl e (result_map_eq_error.mp hsize)
  | classSizeOrZero id =>
    have hresult := Registry.classSizeOrZero_result S id r
    rw [result_map_eq_error.mp he] at hresult
    split at hresult <;> cases hresult
  | finalize =>
    obtain ⟨d, hd, block, rfl⟩ := hr.finalize_error (result_map_eq_error.mp he)
    exact .overflow rfl hd
  | onClass id q =>
    exact failsWith_of_classId hr rfl rfl
      (Registry.onClass_confined S (Nat.lt_succ_self _) q.serve_keeps q.serve_confined)
      Registry.onClass_of_unknown (result_map_eq_error.mp he)

end Request

end DeviceLayout
