import DeviceLayout.Program.Model
import DeviceLayout.Proofs.Catalog.Endings
import DeviceLayout.Proofs.Table.Finalize

/-!
# Self-contained registries

Discovery, failed or not, keeps to this invariant : for every field type and every array type of
the catalog, if the host resolves the class it mentions, then this class and all array types the
type is made of are in the catalog too (`Registry.selfContained_after`). So a table lists
everything its fields and array types mention, except for classes that the host does not
resolve.

The exception is real. A field, or an array type, stays in the catalog when the class it mentions
turns out to be missing, and the request that failed succeeds when it is repeated
(`Registry.selfContained_dangling`).
-/

open DeviceLayout.Action

namespace DeviceLayout

namespace Catalog

variable {S : Setting} {R : String → Prop} {c c' : Catalog} {t : HostType}

/-! ## Operations maintain the invariant -/

/-- A well-formed, self-contained catalog. -/
structure Whole (R : String → Prop) (c : Catalog) : Prop where
  wellFormed : c.WellFormed
  selfContained : c.SelfContained R

theorem Whole.empty (R : String → Prop) : Whole R {} :=
  ⟨.empty, .empty R⟩

/-- A step that adds no field and no array type mentions nothing new. -/
theorem Whole.discovery_noTypes (h : c.Whole R) (hd : c.Discovery S .noTypes c') : c'.Whole R :=
  ⟨h.wellFormed.reaches hd.reaches, h.selfContained.discovery_noTypes h.wellFormed hd⟩

/-- A step that may add one type leaves a whole catalog whole if it brings in what this type
mentions, as far as the host resolves it. -/
theorem Whole.discovery_ofType (h : c.Whole R) (hd : c.Discovery S (.ofType t) c')
    (ht : t.RefersTo R → c'.Contains t) : c'.Whole R :=
  ⟨h.wellFormed.reaches hd.reaches, h.selfContained.discovery_ofType h.wellFormed hd ht⟩

/-- A type is brought in by an operation that succeeds, and by one that may only be refused types
that the host does not resolve, if `R` holds of none of these. -/
theorem contains_of_result {α : Type} {res : Except LayoutError α}
    (hok : (∃ a, res = .ok a) → c.Contains t)
    (herr : (∃ e, res = .error e) → ¬ t.RefersTo S.host.Resolves)
    (hres : (∃ a, res = .ok a) ∨ S.host.ResolvesAll R) (hR : t.RefersTo R) : c.Contains t := by
  cases res with
  | ok a => exact hok ⟨a, rfl⟩
  | error e =>
    rcases hres with ⟨a, ha⟩ | hall
    · cases ha
    · exact absurd (fun name hn => hall name (hR name hn)) (herr ⟨e, rfl⟩)

/-- Classes on their own mention nothing. -/
theorem classFor_maintains (name : String) :
    (classFor S name).Maintains (S.host.ResolvesAll R) (Whole R) := by
  intro c h
  have hfor : (classFor S name).Ensures c _ :=
    classFor_ensures (A := .noTypes) h.wellFormed fun _ _ _ _ => trivial
  exact hfor.mono fun _ _ hd _ => h.discovery_noTypes hd.1

theorem registerMethod_maintains (m : MethodRef) :
    (registerMethod S m).Maintains (S.host.ResolvesAll R) (Whole R) := by
  intro c h
  have hreg := registerMethod_ensures (A := .noTypes) (m := m) (S := S) h.wellFormed
    (fun _ _ _ _ => trivial) trivial
  exact hreg.mono fun _ _ hd _ => h.discovery_noTypes hd.1

/-- An array type brings in all its levels and the class at its base. If the host refuses this
class, nothing is asked of the type. -/
theorem recordArray_maintains (t : HostType) :
    (recordArray S t).Maintains (S.host.ResolvesAll R) (Whole R) := by
  intro c h
  refine (recordArray_cases h.wellFormed).mono fun res c' hrec hres => ?_
  cases hrec with
  | known _ => exact h
  | added _ hd hlevels hok herr =>
    exact h.discovery_ofType hd (contains_of_result hok herr hres)

theorem recordArrays_maintains :
    ∀ ts : List HostType, (recordArrays S ts).Maintains (S.host.ResolvesAll R) (Whole R)
  | [] => .pure _
  | t :: ts => .bind (recordArray_maintains t) fun _ => recordArrays_maintains ts

/-- A field brings in what its type mentions, unless it was there before, and then it has done so
already. -/
theorem registerField_maintains (access : FieldRef) :
    (registerField S access).Maintains (S.host.ResolvesAll R) (Whole R) := by
  intro c h
  refine (registerField_cases h.wellFormed access).mono ?_
  rintro res c' ⟨c₁, hd₁, hreg⟩ hres
  have h₁ := h.discovery_noTypes hd₁
  cases hreg with
  | refused _ _ => exact h₁
  | known _ => exact h₁
  | added _ _ hd _ hok herr =>
    exact h₁.discovery_ofType hd (contains_of_result hok herr hres)

theorem registerFields_maintains :
    ∀ accesses : List FieldRef,
      (registerFields S accesses).Maintains (S.host.ResolvesAll R) (Whole R)
  | [] => .pure _
  | access :: rest => .bind (registerField_maintains access) fun _ =>
      .bind (registerFields_maintains rest) fun _ => .pure _

/-- A change of one descriptor that leaves its fields alone. -/
theorem onClass_modify_maintains {B : Prop} {f : ClassDescriptor → ClassDescriptor}
    (hf : ∀ d, d.Change (f d) ∧ (f d).fields = d.fields) (id : ClassId) :
    (onClass id (.modify f)).Maintains B (Whole R) := by
  intro c h
  cases hd : c.class? id with
  | none =>
    refine .get_bind ?_
    rw [hd]
    exact fun _ => h
  | some d =>
    obtain ⟨hchange, hfields⟩ := hf d
    have hc' := h.wellFormed.withDescriptor hd ((h.wellFormed.descriptor hd).change hchange)
      hchange.extends
    have hrun : (onClass id (.modify f)).run c = ⟨.ok (), c.withDescriptor id (f d), []⟩ :=
      onClass_run hd rfl
    unfold Ensures
    rw [hrun]
    exact fun _ => ⟨hc', h.selfContained.withDescriptor h.wellFormed hd hc' hchange.extends hfields⟩

end Catalog

/-! ## Walks maintain the invariant -/

namespace Registry

variable {S : Setting} {R : String → Prop} {B : Prop}

/-- The catalog of the registry is well-formed and self-contained. -/
def Whole (R : String → Prop) (r : Registry) : Prop :=
  r.catalog.Whole R

/-- Whether a registry is whole is a matter of its catalog. -/
theorem onCatalog_maintains {α : Type} {x : Action Catalog α}
    (h : x.Maintains B (Catalog.Whole R)) : (onCatalog x).Maintains B (Whole R) :=
  .onPart h (fun _ hr => hr) fun _ _ _ hc => hc

theorem collect_maintains (facts : MethodFacts) :
    (collect S facts).Maintains (S.host.ResolvesAll R) (Catalog.Whole R) :=
  .bind (Catalog.registerFields_maintains _) fun _ =>
    .bind (Catalog.recordArrays_maintains _) fun _ => .pure _

/-- A method is expanded by steps of discovery, one for each of its fields and array types. -/
theorem expand_maintains (m : MethodRef) (facts : MethodFacts) :
    (expand S m facts).Maintains (S.host.ResolvesAll R) (Whole R) :=
  .bind (onCatalog_maintains (Catalog.registerMethod_maintains m)) fun _ =>
    .bind (.modify fun _ hr => hr) fun _ => .bind (.tell _) fun _ =>
      onCatalog_maintains (collect_maintains facts)

/-- A queue leaves the catalog whole wherever it ends, by induction on the queue. -/
theorem expandAll_maintains (g : CallGraph) (queue : List MethodRef) :
    (Action.mk (expandAll S g queue)).Maintains (S.host.ResolvesAll R) (Whole R) := by
  intro r hr
  show (∃ found, (expandAll S g queue r).result = .ok found) ∨ _ →
    Whole R (expandAll S g queue r).state
  fun_induction expandAll S g queue r with
  | case1 r => exact fun _ => hr
  | case2 r m rest hw ih => exact ih hr
  | case3 r m rest hw hf => exact fun _ => hr
  | case4 r m rest hw facts hf e he =>
    rintro (⟨found, hfound⟩ | hall)
    · cases hfound
    · exact expand_maintains m facts r hr (Or.inr hall)
  | case5 r m rest hw facts hf n he o more ih =>
    intro h
    refine ih (expand_maintains m facts r hr (Or.inl ⟨n, he⟩)) (h.imp_left fun hok => ?_)
    exact Outcome.exists_ok_map_after.mp hok

theorem walk_maintains (g : CallGraph) (entries : List MethodRef) :
    (walk S g entries).Maintains (S.host.ResolvesAll R) (Whole R) :=
  .bind .get fun _ => .bind (expandAll_maintains g entries) fun _ =>
    .bind .get fun _ => .bind (.tell _) fun _ => .pure _

theorem descriptor_maintains (id : ClassId) : (descriptor id).Maintains B (Whole R) := by
  intro r hr
  refine .get_bind ?_
  split
  · exact .fail fun _ => hr
  · exact .pure fun _ => hr

/-- The mark of a class is no mention of anything. -/
theorem walkClass_maintains (g : CallGraph) (id : ClassId) :
    (walkClass S g id).Maintains (S.host.ResolvesAll R) (Whole R) := by
  refine .bind (descriptor_maintains id) fun d => ?_
  split
  · exact .pure _
  · refine .bind (onCatalog_maintains (Catalog.onClass_modify_maintains ?_ id)) fun _ => ?_
    · exact fun _ => ⟨.walkMembers, rfl⟩
    · exact walk_maintains g _

/-- The array types of several methods are recorded one after another. -/
theorem recordArraysOf_maintains (g : CallGraph) :
    ∀ ms : List MethodRef,
      (recordArraysOf S g ms).Maintains (S.host.ResolvesAll R) (Whole R)
  | [] => .pure _
  | m :: rest => by
    unfold recordArraysOf
    split
    · exact .fail _
    · exact .bind (onCatalog_maintains (Catalog.recordArrays_maintains _)) fun _ =>
        recordArraysOf_maintains g rest

theorem walkClassArrays_maintains (g : CallGraph) (id : ClassId) :
    (walkClassArrays S g id).Maintains (S.host.ResolvesAll R) (Whole R) := by
  refine .bind (descriptor_maintains id) fun d => ?_
  split
  · exact .pure _
  · refine .bind (onCatalog_maintains (Catalog.onClass_modify_maintains ?_ id)) fun _ => ?_
    · exact fun _ => ⟨.walkArrays, rfl⟩
    · exact .bind .get fun _ => .bind (recordArraysOf_maintains g _) fun _ =>
        .bind .get fun _ => .pure _

theorem walkWhole_maintains (g : CallGraph) (id : ClassId) :
    (walkWhole S g id).Maintains (S.host.ResolvesAll R) (Whole R) :=
  .bind (walkClass_maintains g id) fun _ =>
    .bind (walkClassArrays_maintains g id) fun _ => .pure _

/-- A sweep leaves the catalog whole, class by class. -/
theorem walkAll_maintains (g : CallGraph) :
    (walkAll S g).Maintains (S.host.ResolvesAll R) (Whole R) := by
  suffices h : ∀ next r, Whole R r →
      (∃ found, (walkFrom S g next r).result = .ok found) ∨ S.host.ResolvesAll R →
        Whole R (walkFrom S g next r).state from fun r hr => h 0 r hr
  intro next r hr
  fun_induction walkFrom S g next r with
  | case1 next r hn e he =>
    rintro (⟨found, hfound⟩ | hall)
    · cases hfound
    · exact walkWhole_maintains g ⟨next⟩ r hr (Or.inr hall)
  | case2 next r hn found hw o ih =>
    intro h
    refine ih (walkWhole_maintains g ⟨next⟩ r hr (Or.inl ⟨found, hw⟩)) (h.imp_left fun hok => ?_)
    exact Outcome.exists_ok_map_after.mp hok
  | case3 next r hn => exact fun _ => hr

end Registry

/-- The requests that discover classes, members and array types. -/
def Request.isDiscovery : Request → Bool
  | classFor _ | registerMethod _ | registerField _ | recordArray _ | walk .. | walkClass ..
  | walkClassArrays .. | walkAll _ => true
  | classifyAll | layoutOf _ | classSize _ | classSizeOrZero _ | finalize | onClass .. => false

/-- Every request for discovery leaves the catalog whole. -/
theorem Request.serve_maintains {S : Setting} {R : String → Prop} {q : Request}
    (h : q.isDiscovery = true) :
    (q.serve S).Maintains (S.host.ResolvesAll R) (Registry.Whole R) := by
  cases q with
  | classFor name => exact (Registry.onCatalog_maintains (Catalog.classFor_maintains name)).map _
  | registerMethod m =>
    exact (Registry.onCatalog_maintains (Catalog.registerMethod_maintains m)).map _
  | registerField access =>
    exact (Registry.onCatalog_maintains (Catalog.registerField_maintains access)).map _
  | recordArray t => exact (Registry.onCatalog_maintains (Catalog.recordArray_maintains t)).map _
  | walk g entries => exact (Registry.walk_maintains g entries).map _
  | walkClass g id => exact (Registry.walkClass_maintains g id).map _
  | walkClassArrays g id => exact (Registry.walkClassArrays_maintains g id).map _
  | walkAll g => exact (Registry.walkAll_maintains g).map _
  | classifyAll => cases h
  | layoutOf id => cases h
  | classSize id => cases h
  | classSizeOrZero id => cases h
  | finalize => cases h
  | onClass id q => cases h

namespace Registry

/-- Discovery leaves a self-contained catalog behind, whether it succeeds or fails. -/
theorem whole_after (S : Setting) {history : List Request}
    (hd : ∀ q ∈ history, q.isDiscovery = true) : Whole S.host.Resolves (after S history) := by
  suffices h : ∀ (requests : List Request) (r : Registry),
      (∀ q ∈ requests, q.isDiscovery = true) → Whole S.host.Resolves r →
        Whole S.host.Resolves (afterFrom S r requests) from
    h history {} hd (Catalog.Whole.empty _)
  intro requests
  induction requests with
  | nil => exact fun r _ hr => hr
  | cons q rest ih =>
    intro r hq hr
    refine ih _ (fun q' hq' => hq q' (List.mem_cons_of_mem q hq')) ?_
    exact Request.serve_maintains (hq q (List.mem_cons_self ..)) r hr (Or.inr fun _ h => h)

/-! ## What a table mentions -/

/-- Classifying changes nothing about what a catalog mentions. -/
theorem mentions_classified {c : Catalog} {t : HostType} :
    c.classified.Mentions t ↔ c.Mentions t := by
  simp [Catalog.Mentions, Catalog.classified, ClassDescriptor.freeze]

/-- What a table mentions, it mentions for the catalog, and lists what that contains. -/
structure ListsMentions (host : Host) (c : Catalog) (T : LayoutTable) : Prop where
  fields : ∀ e ∈ T.classes, ∀ f ∈ e.instanceFields ++ e.staticFields,
    ∃ t, c.Mentions t ∧ f.hostType = t.hostName
  arrays : ∀ e ∈ T.arrayTypes, ∃ t, c.Mentions t ∧ e.hostName = t.hostName
  listed : ∀ t, c.Mentions t → t.RefersTo host.Resolves →
    (t.RefersTo fun name => (T.class? name).isSome) ∧
      ∀ level ∈ t.arrayLevels, ∃ e ∈ T.arrayTypes, ArrayTypeLayout.ofType? level = some e

/-- The table of a self-contained catalog mentions what the catalog mentions, and lists what that
contains. -/
theorem listsMentions_of_hasTable {host : Host} {config : LayoutConfig} {c : Catalog}
    {T : LayoutTable} (h : c.classified.HasTable config T)
    (hc' : c.classified.WellFormed) (hself : c.SelfContained host.Resolves) :
    ListsMentions host c T where
  fields e he f hf := by
    obtain ⟨d, hd, hentry⟩ := h.mem_classes_iff.mp he
    obtain ⟨g, hg, -, htype⟩ := Catalog.exists_field_of_entry? hentry hf
    exact ⟨g.type, mentions_classified.mp (Or.inr ⟨d, hd, g, hg, rfl⟩), htype⟩
  arrays e he := by
    obtain ⟨t, ht, hof⟩ := h.mem_arrayTypes_iff.mp he
    obtain ⟨element, -, rfl⟩ := Option.map_eq_some_iff.mp hof
    exact ⟨t, Or.inl ht, rfl⟩
  listed t ht hres := by
    have hall := hself.contains t ht hres
    refine ⟨fun name hn => h.isSome_class? hc' ?_, fun level hlevel => ?_⟩
    · rw [Catalog.lookup_classified]
      exact hall.className name hn
    · obtain ⟨e, he⟩ : ∃ e, ArrayTypeLayout.ofType? level = some e := by
        cases level with
        | array element => exact ⟨_, rfl⟩
        | primitive p => cases HostType.isArray_of_mem_arrayLevels hlevel
        | named n => cases HostType.isArray_of_mem_arrayLevels hlevel
      exact ⟨e, h.mem_arrayTypes_iff.mpr ⟨level, hall.levels level hlevel, he⟩, he⟩

/-! ## Self-containment -/

/-- After any requests of discovery, failed ones included, the catalog is self-contained as far as
the host resolves the classes it mentions, and so is the table. A field access that fails leaves
its field registered, and then succeeds when it is repeated, or it fails again in the same way.
An array type that cannot be brought in is recorded, and succeeds when it is repeated. -/
theorem selfContained_after (S : Setting) (history : List Request)
    (hdiscovery : ∀ q ∈ history, q.isDiscovery = true) :
    let r := after S history
    r.catalog.SelfContained S.host.Resolves ∧
      (∀ access e, let o := (Catalog.registerField S access).run r.catalog
        o.result = .error e →
          (o.state.Resolves S.host access →
            (Catalog.registerField S access).run o.state = ⟨.ok false, o.state, []⟩) ∧
          (¬ o.state.Resolves S.host access →
            (Catalog.registerField S access).run o.state = ⟨.error e, o.state, []⟩)) ∧
      (∀ t e, let o := (Catalog.recordArray S t).run r.catalog
        o.result = .error e → ¬ t.RefersTo S.host.Resolves ∧
          (Catalog.recordArray S t).run o.state = ⟨.ok 0, o.state, []⟩) ∧
      ∀ T, ((finalize S).run r).result = .ok T → ListsMentions S.host r.catalog T := by
  intro r
  obtain ⟨hc, hself⟩ : r.catalog.Whole S.host.Resolves := whole_after S hdiscovery
  refine ⟨hself, ?_, ?_, ?_⟩
  · intro access e o he
    refine ⟨Catalog.registerField_of_resolves, fun hres => ?_⟩
    exact (Catalog.registerField_failed hc access e he).resolve_left hres
  · intro t e o he
    have hrec : Catalog.RecordsArray S t r.catalog o.result o.state :=
      Catalog.recordArray_cases hc
    rw [he] at hrec
    exact ⟨hrec.refused, Catalog.recordArray_of_recorded hrec.levels⟩
  · intro T hT
    have hr := wellFormed_after S history
    exact listsMentions_of_hasTable ((finalize_eq_ok_iff hr).mp hT) hr.classified hself

end Registry

/-- A class with a field of a class that is not declared. -/
def Program.dangling : Program where
  classes := [("A", ⟨none, [⟨"x", .named "B", false⟩, ⟨"y", .array (.named "A"), false⟩]⟩)]

namespace Registry

theorem selfContained_after_dangling :
    let S : Setting := ⟨Program.dangling.host, {}⟩
    let history := [Request.registerField ⟨"A", "y"⟩, .registerField ⟨"A", "x"⟩]
    (∀ q ∈ history, q.isDiscovery = true) ∧
      (after S history).catalog.Contains (.array (.named "A")) := by
  intro S history
  have hdiscovery : ∀ q ∈ history, q.isDiscovery = true := by decide
  refine ⟨hdiscovery, (selfContained_after S history hdiscovery).1.contains _ ?_ ?_⟩
  · exact Or.inl (by decide +kernel)
  · intro name hname
    obtain rfl := Option.some.inj hname
    exact ⟨by decide +kernel, [], by decide +kernel⟩

/-- The field, and the array type, whose class is missing stay in the catalog without it, and the
request that failed succeeds when it is repeated. The table mentions a class that it does not
list. -/
theorem selfContained_dangling :
    let S : Setting := ⟨Program.dangling.host, {}⟩
    let access : FieldRef := ⟨"A", "x"⟩
    let t : HostType := .array (.named "B")
    let field := (Catalog.registerField S access).run {}
    let array := (Catalog.recordArray S t).run {}
    (field.result = .error (.unknownClass "B") ∧ field.state.Mentions (.named "B") ∧
      field.state.lookup "B" = none ∧
      (Catalog.registerField S access).run field.state = ⟨.ok false, field.state, []⟩) ∧
    (array.result = .error (.unknownClass "B") ∧ array.state.Mentions t ∧
      array.state.lookup "B" = none ∧
      (Catalog.recordArray S t).run array.state = ⟨.ok 0, array.state, []⟩) ∧
    ∃ T, ((finalize S).run { catalog := field.state }).result = .ok T ∧
      (∃ e ∈ T.classes, ∃ f ∈ e.instanceFields, f.hostType = "B") ∧ T.class? "B" = none := by
  intro S access t field array
  have hmentions : field.state.Mentions (.named "B") := Or.inr (by decide +kernel)
  refine ⟨⟨by decide +kernel, hmentions, by decide +kernel, ?_⟩,
    ⟨by decide +kernel, Or.inl (by decide +kernel), by decide +kernel, ?_⟩, ?_⟩
  · refine Catalog.registerField_of_resolves ⟨⟨0⟩, ⟨0⟩, ⟨"x", .named "B", false⟩,
      { id := ⟨0⟩, hostName := "A", fields := [⟨⟨0⟩, "x", .named "B", false⟩] }, ?_⟩
    decide +kernel
  · exact Catalog.recordArray_of_recorded (by decide +kernel)
  · have htable : ((finalize S).run { catalog := field.state }).result.toOption.any (fun T =>
        (T.classes.any fun e => e.instanceFields.any fun f => f.hostType = "B") &&
          (T.class? "B").isNone) = true := by decide +kernel
    cases hT : ((finalize S).run { catalog := field.state }).result with
    | error e =>
      rw [hT] at htable
      cases htable
    | ok T =>
      rw [hT] at htable
      refine ⟨T, rfl, ?_⟩
      simpa [Except.toOption] using htable

end Registry

end DeviceLayout
