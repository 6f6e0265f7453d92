import DeviceLayout.Request
import DeviceLayout.Proofs.Layout.Fresh
import DeviceLayout.Proofs.Reachability.Walk

/-!
# Histories of a registry

A history is a list of requests, served one after another from the empty registry, whether the
ones before succeeded or failed (`Registry.after`). Every request takes steps
(`Request.serve_leads`), so every registry with a history is well-formed
(`Registry.wellFormed_after`), and what further requests lead to extends it
(`Registry.WellFormed.extends_afterFrom`).
-/

open Relation DeviceLayout.Action

namespace DeviceLayout

/-! ## Requests to a class -/

namespace ClassDescriptor

/-- Any number of changes. -/
def Reaches : ClassDescriptor → ClassDescriptor → Prop :=
  ReflTransGen Change

instance : Std.Refl Reaches := ⟨fun _ => .refl⟩

instance : Trans Reaches Reaches Reaches := ⟨ReflTransGen.trans⟩

/-- A field is added by a change of the descriptor, if at all. -/
theorem addField_keeps (f : HostField) : (addField f).Keeps Reaches := by
  refine .get_bind fun d => ?_
  split
  · exact .refl
  · next hnew =>
    split
    · exact .refl
    · next hopen => exact .single (.addField f (by simpa using hnew) (by simpa using hopen))

theorem addMethod_keeps (m : MethodRef) : (addMethod m).Keeps Reaches := by
  refine .get_bind fun d => ?_
  split
  · exact .refl
  · next hnew => exact .single (.addMethod m (by simpa using hnew))

/-- Classifying is a change of the descriptor. -/
theorem classify_keeps : classify.Keeps Reaches :=
  .get_bind fun _ => .single .freeze

end ClassDescriptor

/-- Every request to a descriptor leads to a later state of it. -/
theorem ClassRequest.serve_keeps (q : ClassRequest) : q.serve.Keeps ClassDescriptor.Reaches := by
  cases q with
  | addField f => exact (ClassDescriptor.addField_keeps f).map _
  | addMethod m => exact (ClassDescriptor.addMethod_keeps m).map _
  | hasMethod m => exact Keeps.get.map _
  | isFrozen => exact Keeps.get.map _
  | classify => exact ClassDescriptor.classify_keeps.map _
  | buckets => exact ClassDescriptor.classify_keeps.map _
  | referenceCount => exact ClassDescriptor.classify_keeps.map _
  | staticSize => exact ClassDescriptor.classify_keeps.map _
  | field name => exact ClassDescriptor.classify_keeps.map _
  | fields => exact Keeps.get.map _
  | describe => exact Keeps.get.map _
  | copy => exact .pure _

/-- Changes of one descriptor are steps of the catalog. -/
theorem Catalog.reaches_withDescriptor {S : Setting} {c : Catalog} {id : ClassId}
    {d d' : ClassDescriptor} (h : c.class? id = some d) (hd : d.Reaches d') :
    c.Reaches S (c.withDescriptor id d') := by
  induction hd with
  | refl =>
    rw [withDescriptor_self h]
    exact .refl
  | tail _ hstep ih =>
    have hset := ReflTransGen.tail ih (Change.onClass (class?_withDescriptor_self h) hstep)
    rwa [withDescriptor, withDescriptor, List.set_set] at hset

namespace Registry

/-- What changes a descriptor step by step changes the registry step by step. -/
theorem onClass_leads {S : Setting} {α : Type} (id : ClassId) {x : Action ClassDescriptor α}
    (hx : x.Keeps ClassDescriptor.Reaches) :
    (onCatalog (Catalog.onClass id x)).Keeps (Leads S) := by
  refine onCatalog_leads fun c _ => ?_
  cases h : c.class? id with
  | none =>
    refine .get_bind ?_
    rw [h]
    exact .refl
  | some d => exact Catalog.onClass_ensures h (Catalog.reaches_withDescriptor h (hx d))

/-! ## Requests to a registry -/

/-- What discovery does within the widest scope are steps of the registry. -/
theorem discovery_leads {S : Setting} {α : Type} {x : Action Catalog α}
    {Q : Catalog → Except LayoutError α → Catalog → Prop}
    (h : ∀ c : Catalog, c.WellFormed → x.Ensures c fun res c' =>
      c.Discovery S .all c' ∧ Q c res c') : (onCatalog x).Keeps (Leads S) :=
  onCatalog_leads fun c hc => (h c hc).mono fun _ _ hd => hd.1.reaches

/-- The mark of a class is a change, and the walk behind it leads on. -/
theorem walkClass_leads (S : Setting) (g : CallGraph) (id : ClassId) :
    (walkClass S g id).Keeps (Leads S) := by
  refine .bind (descriptor_keeps _ id) fun d => ?_
  split
  · exact .pure _
  · refine .bind (onClass_leads id (.modify fun _ => .single .walkMembers)) fun _ => ?_
    exact walk_leads S g _

theorem recordArrays_leads (S : Setting) (ts : List HostType) :
    (onCatalog (Catalog.recordArrays S ts)).Keeps (Leads S) :=
  discovery_leads fun _ hc =>
    Catalog.recordArrays_ensures hc fun t _ _ => Scope.all_admitsType S t

/-- Recording array types leads to a later registry, however far it gets. -/
theorem recordArraysOf_leads (S : Setting) (g : CallGraph) :
    ∀ ms : List MethodRef, (recordArraysOf S g ms).Keeps (Leads S)
  | [] => .pure _
  | m :: rest => by
    unfold recordArraysOf
    split
    · exact .fail _
    · exact .bind (recordArrays_leads S _) fun _ => recordArraysOf_leads S g rest

theorem walkClassArrays_leads (S : Setting) (g : CallGraph) (id : ClassId) :
    (walkClassArrays S g id).Keeps (Leads S) := by
  refine .bind (descriptor_keeps _ id) fun d => ?_
  split
  · exact .pure _
  · refine .bind (onClass_leads id (.modify fun _ => .single .walkArrays)) fun _ => ?_
    refine .bind .get fun _ => .bind (recordArraysOf_leads S g _) fun _ => ?_
    exact .bind .get fun _ => .pure _

theorem walkWhole_leads (S : Setting) (g : CallGraph) (id : ClassId) :
    (walkWhole S g id).Keeps (Leads S) :=
  .bind (walkClass_leads S g id) fun _ => .bind (walkClassArrays_leads S g id) fun _ => .pure _

/-- A sweep leads from class to class. -/
theorem walkFrom_leads (S : Setting) (g : CallGraph) (next : Nat) (r : Registry) :
    Leads S r (walkFrom S g next r).state := by
  fun_induction walkFrom S g next r with
  | case1 next r hn e he => exact walkWhole_leads S g ⟨next⟩ r
  | case2 next r hn found hw o ih => exact Trans.trans (walkWhole_leads S g ⟨next⟩ r) ih
  | case3 next r hn => exact Std.Refl.refl r

theorem classifyAll_leads (S : Setting) : (onCatalog Catalog.classifyAll).Keeps (Leads S) :=
  onCatalog_leads fun _ _ => .get_bind (.tellAll_bind (.single .classifyAll))

/-- Finalizing freezes and lays out; both lead to a later registry. -/
theorem finalize_leads (S : Setting) : (finalize S).Keeps (Leads S) := by
  refine .bind (classifyAll_leads S) fun _ => .bind .get fun r => ?_
  refine .bind (layOutAll_leads S _) fun _ => .bind .get fun r' => ?_
  cases LayoutTable.snapshot S.config r' with
  | ok t => exact .pure t
  | error e => exact .fail e

end Registry

/-- Every request takes steps. -/
theorem Request.serve_leads (S : Setting) (q : Request) : (q.serve S).Keeps (Registry.Leads S) := by
  cases q with
  | classFor name =>
    exact (Registry.discovery_leads fun _ hc =>
      Catalog.classFor_ensures hc (Scope.all_admitsClass S name)).map _
  | registerMethod m =>
    exact (Registry.discovery_leads fun _ hc =>
      Catalog.registerMethod_ensures hc (Scope.all_admitsClass S _) trivial).map _
  | registerField access =>
    exact (Registry.discovery_leads fun c hc =>
      Catalog.registerField_ensures hc (Scope.all_admitsAccess S c access)).map _
  | recordArray t =>
    exact (Registry.discovery_leads fun _ hc =>
      Catalog.recordArray_ensures hc fun _ => Scope.all_admitsType S t).map _
  | walk g entries => exact (Registry.walk_leads S g entries).map _
  | walkClass g id => exact (Registry.walkClass_leads S g id).map _
  | walkClassArrays g id => exact (Registry.walkClassArrays_leads S g id).map _
  | walkAll g => exact Keeps.map (x := Registry.walkAll S g) (Registry.walkFrom_leads S g 0) _
  | classifyAll => exact (Registry.classifyAll_leads S).map _
  | layoutOf id => exact (Registry.layoutOf_leads S id).map _
  | classSize id => exact (Registry.classSize_leads S id).map _
  | classSizeOrZero id => exact (Registry.classSizeOrZero_leads S id).map _
  | finalize => exact (Registry.finalize_leads S).map _
  | onClass id q => exact (Registry.onClass_leads id q.serve_keeps).map _

namespace Registry

/-- The state that requests lead to, one served after another. -/
def afterFrom (S : Setting) (r : Registry) (requests : List Request) : Registry :=
  requests.foldl (fun r q => ((q.serve S).run r).state) r

/-- The state that a history leads to. -/
def after (S : Setting) (history : List Request) : Registry :=
  afterFrom S {} history

/-- Requests lead from state to state, whether they succeed or fail. -/
theorem afterFrom_leads (S : Setting) :
    ∀ (requests : List Request) (r : Registry), Leads S r (afterFrom S r requests)
  | [], r => Std.Refl.refl r
  | q :: rest, r => Trans.trans (q.serve_leads S r) (afterFrom_leads S rest _)

/-- A registry with a history is well-formed. -/
theorem wellFormed_after (S : Setting) (history : List Request) :
    (after S history).WellFormed S :=
  ((WellFormed.empty S).reaches (afterFrom_leads S history {} (.empty S))).1

/-- Requests only add to a well-formed registry. -/
theorem WellFormed.extends_afterFrom {S : Setting} {r : Registry} (hr : r.WellFormed S)
    (requests : List Request) :
    (afterFrom S r requests).WellFormed S ∧ r.Extends (afterFrom S r requests) :=
  hr.reaches (afterFrom_leads S requests r hr)

end Registry

/-- A host with a class `B` below a class `A`, and a field on each. -/
def Setting.pair : Setting where
  host := .ofEntries
    [{ name := "A", known := true, ancestors := some []
       fields := some [⟨"x", .primitive .int, false⟩] },
     { name := "B", known := true, ancestors := some ["A"]
       fields := some [⟨"y", .primitive .long, false⟩] }]

end DeviceLayout
