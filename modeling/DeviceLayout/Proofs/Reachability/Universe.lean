import DeviceLayout.Proofs.Reachability.Explored

/-!
# The universe of a walk

Classes and array types enter a catalog in several ways, some of them only if something is new.
What the registry holds after a walk that succeeds does not depend on any of this : its classes are
the least set that has the classes the walked methods name, directly or through a type, and the
parents of its classes (`Program.ClassUniverse`, `Registry.walk_class_universe`). Its array types
are the least set that has the array types of the walked methods and of the registered fields, and
the elements of its array types that are array types themselves (`Registry.ArrayUniverse`,
`Registry.walk_array_universe`).
-/

open DeviceLayout.Action

namespace DeviceLayout

/-! ## Types -/

namespace HostType

variable {t level : HostType} {name : String}

/-- The class that a type mentions stands at its base. -/
theorem referencedClass?_eq_some_iff : t.referencedClass? = some name ↔ t.base = .named name := by
  induction t with
  | primitive p => simp [referencedClass?, base]
  | named n => simp [referencedClass?, base]
  | array e ih => exact ih

theorem isArray_iff_dimensions : t.isArray = true ↔ 0 < t.dimensions := by
  cases t with
  | primitive p => simp [isArray, dimensions]
  | named n => simp [isArray, dimensions]
  | array e => simp [isArray, dimensions]

end HostType

/-! ## A program -/

/-- Two methods of `M` that call each other. One accesses `x` through `B`, which inherits it from
`A` and whose type `X` stands below `Y`, and mentions an array of arrays of `Z`, which stands below
`W`. It mentions `U` too, but no array of it. -/
def Program.routes : Program where
  classes := [("M", {}), ("A", ⟨none, [⟨"x", .named "X", false⟩]⟩),
    ("B", ⟨some "A", [⟨"y", .array (.named "A"), false⟩]⟩), ("Y", {}), ("X", ⟨some "Y", []⟩),
    ("W", {}), ("Z", ⟨some "W", []⟩), ("U", ⟨some "M", []⟩)]
  graph := ⟨[(⟨"M", "f()"⟩, ⟨[⟨"M", "g()"⟩], [⟨"B", "x"⟩],
      [.array (.array (.named "Z")), .primitive .int, .named "U"]⟩),
    (⟨"M", "g()"⟩, ⟨[⟨"M", "f()"⟩], [⟨"A", "x"⟩, ⟨"B", "y"⟩], []⟩)]⟩

/-- What the walk from `M.f` finds. -/
theorem Registry.walk_routes :
    let o := (walk ⟨Program.routes.host, {}⟩ Program.routes.graph [⟨"M", "f()"⟩]).run {}
    (∃ report, o.result = .ok report) ∧
      o.state.catalog.classes.map (·.hostName) = ["M", "A", "B", "Y", "X", "W", "Z"] ∧
      o.state.catalog.arrays = [.array (.array (.named "Z")), .array (.named "Z"),
        .array (.named "A")] := by
  intro o
  have hrun : (expandAllWithin ⟨Program.routes.host, {}⟩ Program.routes.graph 4
      [⟨"M", "f()"⟩] {}).map (fun o => (o.result, o.state.catalog.classes.map (·.hostName),
        o.state.catalog.arrays)) = some (.ok (2, 2), ["M", "A", "B", "Y", "X", "W", "Z"],
          [.array (.array (.named "Z")), .array (.named "Z"), .array (.named "A")]) := by
    decide +kernel
  obtain ⟨o', ho', hfound⟩ := Option.map_eq_some_iff.mp hrun
  obtain ⟨hresult, hcatalog⟩ := Prod.mk.inj hfound
  obtain ⟨hclasses, harrays⟩ := Prod.mk.inj hcatalog
  have hall := expandAll_of_within ho'
  refine ⟨(walk_isOk_iff _ _ _).mpr ⟨(2, 2), hall ▸ hresult⟩, ?_⟩
  rw [show o.state = o'.state from (walk_state _ _ _).trans (congrArg Outcome.state hall)]
  exact ⟨hclasses, harrays⟩

/-! ## Classes -/

namespace Program

variable {P : Program} {methods : List MethodRef}

/-- The classes that methods of the program name, directly or through a type, and the parents of
those. -/
inductive ClassUniverse (P : Program) (methods : List MethodRef) : String → Prop
  /-- The class of a method. -/
  | method {m : MethodRef} (hm : m ∈ methods) : ClassUniverse P methods m.className
  /-- The class that a field is accessed through. -/
  | access {m : MethodRef} {facts : MethodFacts} {access : FieldRef} (hm : m ∈ methods)
    (hf : P.graph.facts? m = some facts) (ha : access ∈ facts.fields) :
    ClassUniverse P methods access.className
  /-- The class that the type of the accessed field mentions. -/
  | field {m : MethodRef} {facts : MethodFacts} {access : FieldRef} {C name : String}
    {declaration : HostField} (hm : m ∈ methods) (hf : P.graph.facts? m = some facts)
    (ha : access ∈ facts.fields) (hmeans : P.host.Means access C declaration)
    (hname : declaration.type.referencedClass? = some name) : ClassUniverse P methods name
  /-- The class at the base of an array type. -/
  | array {m : MethodRef} {facts : MethodFacts} {t : HostType} {name : String} (hm : m ∈ methods)
    (hf : P.graph.facts? m = some facts) (ht : t ∈ facts.arrays) (hdim : 0 < t.dimensions)
    (hbase : t.base = .named name) : ClassUniverse P methods name
  | parent {name above : String} {c : HostClass} (hbelow : ClassUniverse P methods name)
    (hc : P.class? name = some c) (hparent : c.parent = some above) :
    ClassUniverse P methods above

/-- What a walked method uses is in the universe. -/
theorem ClassUniverse.of_usesClass {m : MethodRef} {facts : MethodFacts} {name : String}
    (hm : m ∈ methods) (hf : P.graph.facts? m = some facts)
    (hu : P.host.UsesClass m facts name) : P.ClassUniverse methods name := by
  cases hu with
  | self => exact .method hm
  | access ha => exact .access hm hf ha
  | type ht hname =>
    cases ht with
    | array ht harray =>
      exact .array hm hf ht (HostType.isArray_iff_dimensions.mp harray)
        (HostType.referencedClass?_eq_some_iff.mp hname)
    | field ha hmeans => exact .field hm hf ha hmeans hname

/-- With a class, the whole chain above it is in the universe. -/
theorem ClassUniverse.chain {name : String} {above : List String}
    (h : P.ClassUniverse methods name) (habove : P.host.ancestors name = some above) :
    ∀ n ∈ above, P.ClassUniverse methods n := by
  induction above generalizing name with
  | nil => exact fun n hn => nomatch hn
  | cons parent rest ih =>
    obtain ⟨c, hc, hclimb⟩ := Option.bind_eq_some_iff.mp (habove : P.ancestors name = _)
    have hparent : P.ClassUniverse methods parent := h.parent hc (parent_eq_of_climb hclimb)
    intro n hn
    rcases List.mem_cons.mp hn with rfl | hn
    · exact hparent
    · exact ih hparent (P.host_coherent.ancestors_tail habove) n hn

end Program

namespace Registry

variable {P : Program} {config : LayoutConfig} {entries : List MethodRef} {r : Registry}

/-- A class of the universe is registered. -/
theorem Complete.isSome_lookup_of_universe (h : Complete ⟨P.host, config⟩ P.graph entries r)
    {name : String} (hname : P.ClassUniverse r.walked name) : (r.catalog.lookup name).isSome := by
  have hh : P.host.Coherent := P.host_coherent
  have hreach : ∀ {m}, m ∈ r.walked → P.graph.Reachable entries m := (h.walked_iff _).mp
  induction hname with
  | method hm =>
    obtain ⟨facts, hf, -⟩ := h.explored.settled _ hm
    exact h.isSome_lookup hh (hreach hm) hf .self
  | access hm hf ha => exact h.isSome_lookup hh (hreach hm) hf (.access ha)
  | field hm hf ha hmeans hname =>
    exact h.isSome_lookup hh (hreach hm) hf (.type (.field ha hmeans) hname)
  | array hm hf ht hdim hbase =>
    exact h.isSome_lookup hh (hreach hm) hf (.type
      (.array ht (HostType.isArray_iff_dimensions.mpr hdim))
      (HostType.referencedClass?_eq_some_iff.mpr hbase))
  | parent _ hc hparent ih =>
    have hdisc := h.explored.discovered
    obtain ⟨chain, hchain, hall⟩ := hdisc.mirrors.chain hdisc.wellFormed ih
    obtain ⟨c, hc', hclimb⟩ := Option.bind_eq_some_iff.mp (hchain : P.ancestors _ = _)
    obtain rfl := Option.some.inj (hc.symm.trans hc')
    exact hall _ (List.mem_of_head? ((Program.parent_eq_of_climb hclimb).symm.trans hparent))

/-- A registered class is in the universe. -/
theorem Complete.universe_of_isSome_lookup (h : Complete ⟨P.host, config⟩ P.graph entries r)
    {name : String} (hl : (r.catalog.lookup name).isSome) : P.ClassUniverse r.walked name := by
  obtain ⟨m, facts, below, above, hr, hf, hu, habove, hn⟩ :=
    (h.class_iff P.host_coherent name).mp hl
  have hbelow := Program.ClassUniverse.of_usesClass ((h.walked_iff m).mpr hr) hf hu
  rcases List.mem_cons.mp hn with rfl | hn
  · exact hbelow
  · exact hbelow.chain habove name hn

/-- A walk over a program that succeeds from the empty registry has registered the classes of the
universe, each once, and no others. -/
theorem walk_class_universe (P : Program) (config : LayoutConfig) (entries : List MethodRef)
    {report : Report}
    (hok : ((walk ⟨P.host, config⟩ P.graph entries).run {}).result = .ok report) :
    let r := ((walk ⟨P.host, config⟩ P.graph entries).run {}).state
    (r.catalog.classes.map (·.hostName)).Nodup ∧
      ∀ name, name ∈ r.catalog.classes.map (·.hostName) ↔ P.ClassUniverse r.walked name := by
  intro r
  have h : Complete ⟨P.host, config⟩ P.graph entries r := complete_of_walk P.host_coherent hok
  have hc := h.explored.discovered.wellFormed
  refine ⟨hc.names_nodup, fun name => ?_⟩
  rw [Catalog.mem_hostNames_iff]
  exact ⟨h.universe_of_isSome_lookup, h.isSome_lookup_of_universe⟩

theorem walk_class_universe_routes :
    let o := (walk ⟨Program.routes.host, {}⟩ Program.routes.graph [⟨"M", "f()"⟩]).run {}
    (∃ report, o.result = .ok report) ∧
      (∀ name ∈ ["M", "A", "B", "Y", "X", "W", "Z"],
        Program.routes.ClassUniverse o.state.walked name) ∧
      ¬ Program.routes.ClassUniverse o.state.walked "U" := by
  intro o
  obtain ⟨⟨report, hok⟩, hclasses, -⟩ := walk_routes
  obtain ⟨-, hiff⟩ := walk_class_universe .routes {} _ hok
  refine ⟨⟨report, hok⟩, fun name hname => (hiff name).mp (hclasses ▸ hname), fun h => ?_⟩
  have hmem := (hiff "U").mpr h
  rw [hclasses] at hmem
  revert hmem
  decide

/-! ## Array types -/

/-- The array types of walked methods and registered fields, and the array types nested in them. -/
inductive ArrayUniverse (g : CallGraph) (r : Registry) : HostType → Prop
  /-- An array type among the facts of a walked method. -/
  | fact {m : MethodRef} {facts : MethodFacts} {t : HostType} (hm : m ∈ r.walked)
    (hf : g.facts? m = some facts) (ht : t ∈ facts.arrays) (harray : t.isArray = true) :
    ArrayUniverse g r t
  /-- The type of a registered field, if it is an array type. -/
  | field {d : ClassDescriptor} {f : Field} (hd : d ∈ r.catalog.classes) (hf : f ∈ d.fields)
    (harray : f.type.isArray = true) : ArrayUniverse g r f.type
  /-- The element type of an array type, if it is an array type itself. -/
  | element {t : HostType} (h : ArrayUniverse g r (.array t)) (harray : t.isArray = true) :
    ArrayUniverse g r t

variable {S : Setting} {g : CallGraph}

/-- With an array type, all its levels are in the universe. -/
theorem ArrayUniverse.of_mem_arrayLevels {t level : HostType} (h : ArrayUniverse g r t)
    (hlevel : level ∈ t.arrayLevels) : ArrayUniverse g r level := by
  induction t with
  | primitive p => cases hlevel
  | named n => cases hlevel
  | array e ih =>
    rcases List.mem_cons.mp hlevel with rfl | hlevel
    · exact h
    · exact ih (h.element (HostType.isArray_of_arrayLevels hlevel)) hlevel

/-- An array type of the universe is recorded. -/
theorem Complete.mem_arrays_of_universe (hh : S.host.Coherent) (h : Complete S g entries r)
    {t : HostType} (ht : ArrayUniverse g r t) : t ∈ r.catalog.arrays := by
  have hself := h.explored.selfContained
  induction ht with
  | fact hm hf ht harray =>
    exact (h.contains hh ((h.walked_iff _).mp hm) hf (.array ht harray)).levels _
      (HostType.mem_arrayLevels_self harray)
  | field hd hf harray =>
    have hcontains := hself.contains _ (Or.inr ⟨_, hd, _, hf, rfl⟩) fun _ _ => trivial
    exact hcontains.levels _ (HostType.mem_arrayLevels_self harray)
  | element _ harray ih =>
    exact hself.levels _ ih _ (List.mem_cons_of_mem _ (HostType.mem_arrayLevels_self harray))

/-- A recorded array type is in the universe. -/
theorem Complete.universe_of_mem_arrays (hh : S.host.Coherent) (h : Complete S g entries r)
    {t : HostType} (ht : t ∈ r.catalog.arrays) : ArrayUniverse g r t := by
  obtain ⟨m, facts, outer, hr, hf, hu, hlevel⟩ := (h.array_iff hh t).mp ht
  have harray := HostType.isArray_of_arrayLevels hlevel
  refine ArrayUniverse.of_mem_arrayLevels ?_ hlevel
  cases hu with
  | array ht _ => exact .fact ((h.walked_iff m).mpr hr) hf ht harray
  | field ha hmeans =>
    obtain ⟨-, d, hd, f, hfield, hmeans'⟩ := h.exists_field hh hr hf ha
    obtain ⟨-, hsame⟩ := hmeans.unique hmeans'
    rw [hsame] at harray ⊢
    exact .field hd hfield harray

/-- A walk over a program that succeeds from the empty registry has recorded the array types of the
universe, each once, and no other types. -/
theorem walk_array_universe (P : Program) (config : LayoutConfig) (entries : List MethodRef)
    {report : Report}
    (hok : ((walk ⟨P.host, config⟩ P.graph entries).run {}).result = .ok report) :
    let r := ((walk ⟨P.host, config⟩ P.graph entries).run {}).state
    r.catalog.arrays.Nodup ∧ (∀ t ∈ r.catalog.arrays, t.isArray = true) ∧
      ∀ t, t ∈ r.catalog.arrays ↔ ArrayUniverse P.graph r t := by
  intro r
  have hh : P.host.Coherent := P.host_coherent
  have h : Complete ⟨P.host, config⟩ P.graph entries r := complete_of_walk hh hok
  refine ⟨h.explored.discovered.arrays.nodup, fun t ht => ?_, fun t =>
    ⟨h.universe_of_mem_arrays hh, h.mem_arrays_of_universe hh⟩⟩
  cases h.universe_of_mem_arrays hh ht with
  | fact _ _ _ harray => exact harray
  | field _ _ harray => exact harray
  | element _ harray => exact harray

theorem walk_array_universe_routes :
    let o := (walk ⟨Program.routes.host, {}⟩ Program.routes.graph [⟨"M", "f()"⟩]).run {}
    (∃ report, o.result = .ok report) ∧
      (∀ t ∈ [HostType.array (.array (.named "Z")), .array (.named "Z"), .array (.named "A")],
        ArrayUniverse Program.routes.graph o.state t) ∧
      ¬ ArrayUniverse Program.routes.graph o.state (.named "U") := by
  intro o
  obtain ⟨⟨report, hok⟩, -, harrays⟩ := walk_routes
  obtain ⟨-, hall, hiff⟩ := walk_array_universe .routes {} _ hok
  refine ⟨⟨report, hok⟩, fun t ht => (hiff t).mp (harrays ▸ ht), fun h => ?_⟩
  cases hall _ ((hiff _).mpr h)

end Registry

end DeviceLayout
