import DeviceLayout.Proofs.Catalog.Mirror
import DeviceLayout.Proofs.Reachability.Walk

/-!
# A walk finds exactly what is used

A walk over a program from the empty registry, if it succeeds, marks the methods that the
entries lead to, and registers these methods and the fields they access, each once and where
the program declares it, and nothing else (`Registry.walk_exact`).

That nothing is missing is what a queue worked off leaves behind (`Registry.Worked`). That
nothing else is there follows from the scope the walk keeps to (`Scope.used`), which admits a
field only if some reachable method accesses it.
-/

open DeviceLayout.Action

namespace DeviceLayout

/-! ## What reachable methods use -/

/-- The methods that `entries` lead to, and the fields they access, on the classes that declare
them. -/
def Scope.used (host : Host) (g : CallGraph) (entries : List MethodRef) : Scope where
  className _ := True
  method := g.Reachable entries
  field name declaration := ∃ m facts access, g.Reachable entries m ∧ g.facts? m = some facts ∧
    access ∈ facts.fields ∧ host.nearest? access = some name ∧
    host.declaredField name access.name = some declaration
  array _ := True

namespace Catalog

variable {S : Setting} {g : CallGraph} {entries : List MethodRef} {c : Catalog}

/-- What a reachable method uses is admitted. -/
theorem admitsMethod_used (hh : S.host.Coherent) (hc : c.WellFormed) (hm : c.Mirrors S.host)
    {m : MethodRef} {facts : MethodFacts} (hr : g.Reachable entries m)
    (hf : g.facts? m = some facts) :
    (Scope.used S.host g entries).AdmitsMethod S c m facts where
  className _ _ _ _ := trivial
  method := hr
  fields access ha := by
    refine ⟨fun _ _ _ _ => trivial, fun {c' through owner declaration d} hd hl hdecl h => ?_⟩
    have hc' := hc.reaches (Discovery.reaches hd)
    have hmeans := means_of_declaring? hh (hm.discovery hh hc hd) hc' hl hdecl h
    exact ⟨⟨m, facts, access, hr, hf, ha, hmeans⟩, fun _ _ _ _ _ _ => trivial,
      fun _ _ => trivial⟩
  arrays _ _ _ := ⟨fun _ _ _ _ _ _ => trivial, fun _ _ => trivial⟩

/-- A method stands on one class only, and there once. -/
theorem WellFormed.nodup_methods (hc : c.WellFormed) {A : Scope} (hw : c.Within A) :
    (c.classes.flatMap (·.methods)).Nodup := by
  rw [List.nodup_flatMap]
  constructor
  · intro d hd
    obtain ⟨id, h⟩ := mem_classes_iff.mp hd
    exact (hc.descriptor h).methods_nodup
  · refine (List.pairwise_map.mp hc.names_nodup).imp_of_mem fun {d d'} hd hd' hne m hm hm' => ?_
    obtain ⟨id, h⟩ := mem_classes_iff.mp hd
    obtain ⟨id', h'⟩ := mem_classes_iff.mp hd'
    exact hne (((hw _ _ h).1 m hm).2.symm.trans ((hw _ _ h').1 m hm').2)

/-- Methods that are all registered, and that hold all the scope admits, are the registered ones. -/
theorem WellFormed.methods_perm (hc : c.WellFormed) {A : Scope} (hw : c.Within A)
    {ms : List MethodRef} (hnodup : ms.Nodup) (hms : ∀ m ∈ ms, c.HasMethod m)
    (hA : ∀ m, A.method m → m ∈ ms) : (c.classes.flatMap (·.methods)).Perm ms := by
  refine (List.perm_ext_iff_of_nodup (hc.nodup_methods hw) hnodup).mpr fun m => ?_
  constructor
  · intro hm
    obtain ⟨d, hd, hmd⟩ := List.mem_flatMap.mp hm
    obtain ⟨id, h⟩ := mem_classes_iff.mp hd
    exact hA m ((hw _ _ h).1 m hmd).1
  · intro hm
    obtain ⟨d, hd, -, hmd⟩ := hms m hm
    exact List.mem_flatMap.mpr ⟨d, hd, hmd⟩

/-- A field of a class is one that a reachable method accesses, and is declared as the host has
it. -/
theorem Within.accessed {host : Host} (hh : host.Coherent) (hw : c.Within (.used host g entries))
    {d : ClassDescriptor} (hd : d ∈ c.classes) {f : Field} (hf : f ∈ d.fields) :
    host.declaredField d.hostName f.name = some f.declaration ∧
      ∃ m facts, g.Reachable entries m ∧ g.facts? m = some facts ∧
        ∃ D, ⟨D, f.name⟩ ∈ facts.fields ∧ host.nearest? ⟨D, f.name⟩ = some d.hostName := by
  obtain ⟨id, h⟩ := mem_classes_iff.mp hd
  obtain ⟨m, facts, access, hreach, hfacts, ha, hnear, hdecl⟩ := (hw _ _ h).2 f hf
  have hname : f.name = access.name := hh.name_eq hdecl
  rw [hname]
  exact ⟨hdecl, m, facts, hreach, hfacts, access.className, ha, hnear⟩

/-- The field that an access means stands on the class the host names. -/
theorem Resolves.exists_field {host : Host} (hh : host.Coherent) (hc : c.WellFormed)
    (hm : c.Mirrors host) {access : FieldRef} (h : c.Resolves host access) :
    ∃ d ∈ c.classes, host.nearest? access = some d.hostName ∧
      ∃ f ∈ d.fields, f.name = access.name := by
  obtain ⟨through, owner, declaration, d, hl, hdecl, hd, hf⟩ := h
  obtain ⟨hnear, hdeclared⟩ := means_of_declaring? hh hm hc hl hdecl hd
  obtain ⟨f, hmem, hname⟩ := ClassDescriptor.hasField_iff.mp hf
  exact ⟨d, mem_classes_of_class? hd, hnear, f, hmem, hname.trans (hh.name_eq hdeclared)⟩

end Catalog

/-! ## Exactness -/

namespace Registry

/-- The registry holds exactly what the methods that `entries` lead to use. -/
structure Exact (host : Host) (g : CallGraph) (entries : List MethodRef) (r : Registry) :
    Prop where
  walked_iff : ∀ m, m ∈ r.walked ↔ g.Reachable entries m
  walked_nodup : r.walked.Nodup
  /-- Every walked method is registered once, and no other method is. -/
  methods_perm : (r.catalog.classes.flatMap (·.methods)).Perm r.walked
  className_eq : ∀ d ∈ r.catalog.classes, ∀ m ∈ d.methods, m.className = d.hostName
  hostNames_nodup : (r.catalog.classes.map (·.hostName)).Nodup
  /-- A field is registered on a class if and only if a walked method accesses it and this is
  the nearest class that declares it. -/
  field_iff : ∀ C name, (∃ d ∈ r.catalog.classes, d.hostName = C ∧ ∃ f ∈ d.fields, f.name = name) ↔
    ∃ m ∈ r.walked, ∃ facts, g.facts? m = some facts ∧
      ∃ D, ⟨D, name⟩ ∈ facts.fields ∧ host.nearest? ⟨D, name⟩ = some C
  /-- Every field is registered once, as the class declares it. -/
  fields_nodup : ∀ d ∈ r.catalog.classes, (d.fields.map (·.name)).Nodup
  declaration_eq : ∀ d ∈ r.catalog.classes, ∀ f ∈ d.fields,
    host.declaredField d.hostName f.name = some f.declaration

/-- A queue worked off from the empty registry. -/
theorem Worked.exact {S : Setting} (hh : S.host.Coherent) {g : CallGraph}
    {entries done failed : List MethodRef} {o : Outcome Registry (Nat × Nat)}
    (h : Worked S (.used S.host g entries) g (g.Reachable entries) entries {} o done failed)
    {found : Nat × Nat} (hok : o.result = .ok found) : Exact S.host g entries o.state := by
  have hdisc := h.explores.catalog
  have hc : o.state.catalog.WellFormed := Catalog.WellFormed.empty.reaches hdisc.reaches
  have hm : o.state.catalog.Mirrors S.host :=
    (Catalog.Mirrors.empty S.host).discovery hh .empty hdisc
  have hw : o.state.catalog.Within (.used S.host g entries) :=
    (Catalog.Within.empty _).discovery hdisc
  have hnodup := h.nodup List.nodup_nil
  have hwalked : ∀ m, m ∈ o.state.walked ↔ g.Reachable entries m := by
    intro m
    constructor
    · intro hmem
      rw [h.explores.walked_eq] at hmem
      exact h.within m hmem
    · intro hreach
      exact h.mem_walked hok hreach.avoiding_nil
  have hsettled : ∀ m ∈ o.state.walked, ∃ facts, g.facts? m = some facts ∧
      o.state.catalog.Settled S.host m facts := by
    intro m hmem
    obtain ⟨facts, hf, hset, -⟩ := h.settled_of_ok hok hmem List.not_mem_nil
    exact ⟨facts, hf, hset⟩
  constructor
  case walked_iff => exact hwalked
  case walked_nodup => exact hnodup
  case methods_perm =>
    refine hc.methods_perm hw hnodup (fun m hmem => ?_) fun m hreach => (hwalked m).mpr hreach
    obtain ⟨facts, -, hset⟩ := hsettled m hmem
    exact hset.method
  case className_eq =>
    intro d hd m hmd
    obtain ⟨id, hid⟩ := Catalog.mem_classes_iff.mp hd
    exact ((hw _ _ hid).1 m hmd).2
  case hostNames_nodup => exact hc.names_nodup
  case field_iff =>
    intro C name
    constructor
    · rintro ⟨d, hd, rfl, f, hf, rfl⟩
      obtain ⟨-, m, facts, hreach, hfacts, haccess⟩ := hw.accessed hh hd hf
      exact ⟨m, (hwalked m).mpr hreach, facts, hfacts, haccess⟩
    · rintro ⟨m, hmem, facts, hfacts, D, ha, hnear⟩
      obtain ⟨facts', hfacts', hset⟩ := hsettled m hmem
      obtain rfl := Option.some.inj (hfacts.symm.trans hfacts')
      obtain ⟨d, hd, hnear', f, hf, hname⟩ := (hset.fields _ ha).exists_field hh hc hm
      exact ⟨d, hd, Option.some.inj (hnear'.symm.trans hnear), f, hf, hname⟩
  case fields_nodup =>
    intro d hd
    obtain ⟨id, hid⟩ := Catalog.mem_classes_iff.mp hd
    exact (hc.descriptor hid).names_nodup
  case declaration_eq => exact fun d hd f hf => (hw.accessed hh hd hf).1

/-- A walk over a program that succeeds from the empty registry finds exactly what is used. -/
theorem walk_exact (P : Program) (config : LayoutConfig) (entries : List MethodRef)
    {report : Report}
    (hok : ((walk ⟨P.host, config⟩ P.graph entries).run {}).result = .ok report) :
    Exact P.host P.graph entries ((walk ⟨P.host, config⟩ P.graph entries).run {}).state := by
  let S : Setting := ⟨P.host, config⟩
  have hh : S.host.Coherent := P.host_coherent
  obtain ⟨found, hfound⟩ := (walk_isOk_iff P.graph entries {}).mp ⟨report, hok⟩
  have hclosed :
      Closed S (.used S.host P.graph entries) P.graph {} (P.graph.Reachable entries) := by
    intro m facts hm hf
    refine ⟨fun n hn => hm.call ⟨facts, hf, hn⟩, ?_⟩
    exact Catalog.admitsMethod_used hh .empty (.empty S.host) hm hf
  obtain ⟨done, failed, h⟩ := expandAll_worked entries {} .empty hclosed fun m hm => .entry hm
  rw [walk_state]
  exact h.exact hh hfound

end Registry

/-- Two classes, `B` below `A`, and two methods that call each other; `A` declares the field that
`A.f` accesses through `B`. -/
def Program.cycle : Program where
  classes := [("A", ⟨none, [⟨"x", .primitive .int, false⟩]⟩),
    ("B", ⟨some "A", [⟨"y", .named "A", true⟩]⟩)]
  graph := ⟨[(⟨"A", "f()"⟩, ⟨[⟨"B", "g()"⟩], [⟨"B", "x"⟩], []⟩),
    (⟨"B", "g()"⟩, ⟨[⟨"A", "f()"⟩], [⟨"B", "y"⟩, ⟨"A", "x"⟩], []⟩)]⟩

theorem Registry.walk_exact_cycle :
    (∃ report, ((Registry.walk ⟨Program.cycle.host, {}⟩ Program.cycle.graph
      [⟨"A", "f()"⟩, ⟨"A", "f()"⟩]).run {}).result = .ok report) ∧
    Exact Program.cycle.host Program.cycle.graph [⟨"A", "f()"⟩, ⟨"A", "f()"⟩]
      ((walk ⟨Program.cycle.host, {}⟩ Program.cycle.graph
        [⟨"A", "f()"⟩, ⟨"A", "f()"⟩]).run {}).state := by
  have hrun : (expandAllWithin ⟨Program.cycle.host, {}⟩ Program.cycle.graph 4
      [⟨"A", "f()"⟩, ⟨"A", "f()"⟩] {}).map (·.result) = some (.ok (2, 2)) := by decide +kernel
  obtain ⟨o, ho, hresult⟩ := Option.map_eq_some_iff.mp hrun
  obtain ⟨report, hok⟩ := (walk_isOk_iff _ _ _).mpr ⟨(2, 2), expandAll_of_within ho ▸ hresult⟩
  exact ⟨⟨report, hok⟩, walk_exact Program.cycle {} _ hok⟩

end DeviceLayout
