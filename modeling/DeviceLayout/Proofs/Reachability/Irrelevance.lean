import DeviceLayout.Compile
import DeviceLayout.Proofs.Reachability.Exact
import DeviceLayout.Proofs.Reachability.Explored

/-!
# What is not reachable has no influence

A run asks the host only about the classes and the fields that the reachable methods use. So two
programs that agree on these (`Program.AgreesOn`) have the same run : each operation of
discovery ends alike on both (`Catalog.registerField_congr`), so does each expansion
(`Registry.expand_congr`), and so does the walk (`Registry.expandAll_congr`). Laying out asks no
host at all. What else the other program declares makes no difference, as long as it does not
stand between an access and the field it means.
-/

open DeviceLayout.Action

namespace DeviceLayout

/-! ## Actions that end alike -/

/-- An action that starts alike, and goes on alike from where it is then, ends alike. -/
theorem Action.run_bind_congr {σ α β : Type} {x x' : Action σ α} {f f' : α → Action σ β} {s : σ}
    (hx : x'.run s = x.run s) (hf : ∀ a, (x.run s).result = .ok a →
      (f' a).run (x.run s).state = (f a).run (x.run s).state) :
    (x' >>= f').run s = (x >>= f).run s := by
  rw [run_bind, run_bind, hx, Outcome.andThen, Outcome.andThen]
  cases h : (x.run s).result with
  | ok a =>
    dsimp only
    rw [hf a h]
  | error e => rfl

/-! ## Agreement -/

namespace Host

/-- Two hosts say the same of a class. -/
structure AgreesAt (host host' : Host) (name : String) : Prop where
  contains_eq : host'.contains name = host.contains name
  ancestors_eq : host'.ancestors name = host.ancestors name

/-- Two hosts say the same of all that a method uses. -/
structure AgreesOn (host host' : Host) (m : MethodRef) (facts : MethodFacts) : Prop where
  classes : ∀ name, host.UsesClass m facts name → host.AgreesAt host' name
  fields : ∀ access ∈ facts.fields, host'.nearest? access = host.nearest? access ∧
    ∀ C, host.nearest? access = some C →
      host'.declaredField C access.name = host.declaredField C access.name

end Host

namespace Catalog

variable {S S' : Setting} {c : Catalog} {m : MethodRef} {facts : MethodFacts} {access : FieldRef}
  {t : HostType} {name : String}

/-! ## Discovery ends alike -/

/-- Asked for a class, a catalog asks the host about this class alone. -/
theorem classFor_congr (hconfig : S'.config = S.config) (h : S.host.AgreesAt S'.host name) :
    classFor S' name = classFor S name := by
  unfold classFor
  rw [h.contains_eq, h.ancestors_eq, hconfig]

/-- For a type, the host is asked about the class that it mentions. -/
theorem bringIn_congr (hconfig : S'.config = S.config)
    (h : t.RefersTo (S.host.AgreesAt S'.host)) : bringIn S' t = bringIn S t := by
  unfold bringIn
  split
  · rfl
  · next name hname => rw [classFor_congr hconfig (h name hname)]

/-- For an array type, the host is asked about the class at its base; for any other type it is not
asked. -/
theorem recordArray_congr (hconfig : S'.config = S.config)
    (h : t.isArray = true → t.RefersTo (S.host.AgreesAt S'.host)) :
    recordArray S' t = recordArray S t := by
  cases t with
  | primitive p => rfl
  | named n => rfl
  | array e =>
    unfold recordArray
    rw [bringIn_congr hconfig (h rfl)]

theorem recordArrays_congr (hconfig : S'.config = S.config) :
    ∀ {ts : List HostType},
      (∀ t ∈ ts, t.isArray = true → t.RefersTo (S.host.AgreesAt S'.host)) →
      recordArrays S' ts = recordArrays S ts
  | [], _ => rfl
  | t :: rest, h => by
    unfold recordArrays
    rw [recordArray_congr hconfig (h t (List.mem_cons_self ..)),
      recordArrays_congr hconfig fun t' ht' => h t' (List.mem_cons_of_mem t ht')]

/-- For a method, the host is asked about its class. -/
theorem registerMethod_congr (hconfig : S'.config = S.config)
    (h : S.host.AgreesAt S'.host m.className) : registerMethod S' m = registerMethod S m := by
  unfold registerMethod
  rw [classFor_congr hconfig h]

/-- A catalog that both hosts account for. -/
structure MirrorsBoth (S S' : Setting) (c : Catalog) : Prop where
  wellFormed : c.WellFormed
  mirrors : c.Mirrors S.host
  mirrors' : c.Mirrors S'.host

/-- An action that ends alike for both hosts leaves a catalog that both account for. -/
theorem MirrorsBoth.of_run_eq (hh : S.host.Coherent) (hh' : S'.host.Coherent)
    (h : c.MirrorsBoth S S') {α : Type} {x x' : Action Catalog α} (hrun : x'.run c = x.run c)
    (hx : c.Discovery S .all (x.run c).state) (hx' : c.Discovery S' .all (x'.run c).state) :
    (x.run c).state.MirrorsBoth S S' where
  wellFormed := h.wellFormed.reaches hx.reaches
  mirrors := h.mirrors.discovery hh h.wellFormed hx
  mirrors' := h.mirrors'.discovery hh' h.wellFormed (hrun ▸ hx')

/-- Both hosts find the same class that declares a field. -/
theorem declaring?_congr (hh : S.host.Coherent) (hh' : S'.host.Coherent)
    (h : c.MirrorsBoth S S') {id : ClassId} (hl : c.lookup access.className = some id)
    (hnear : S'.host.nearest? access = S.host.nearest? access)
    (hdecl : ∀ C, S.host.nearest? access = some C →
      S'.host.declaredField C access.name = S.host.declaredField C access.name) :
    c.declaring? S'.host id access.name = c.declaring? S.host id access.name := by
  refine Option.ext fun found => ?_
  obtain ⟨owner, declaration⟩ := found
  rw [h.mirrors'.declaring?_iff hh' h.wellFormed hl, h.mirrors.declaring?_iff hh h.wellFormed hl,
    hnear]
  refine exists_congr fun C => and_congr_right fun hC => ?_
  rw [hdecl C hC]

/-- A field access ends alike if both hosts say the same of what it uses. -/
theorem registerField_congr (hconfig : S'.config = S.config) (hh : S.host.Coherent)
    (hh' : S'.host.Coherent) (h : c.MirrorsBoth S S') (hagree : S.host.AgreesOn S'.host m facts)
    (ha : access ∈ facts.fields) :
    (registerField S' access).run c = (registerField S access).run c := by
  have hfor := classFor_congr hconfig (hagree.classes _ (.access ha))
  obtain ⟨hnear, hdecl⟩ := hagree.fields access ha
  have hd : (classFor S access.className).Ensures c _ :=
    classFor_ensures h.wellFormed (Scope.all_admitsClass S _)
  have hd' : (classFor S' access.className).Ensures c _ :=
    classFor_ensures h.wellFormed (Scope.all_admitsClass S' _)
  have h₁ := h.of_run_eq hh hh' (by rw [hfor]) hd.1 hd'.1
  rw [registerField, registerField, hfor]
  refine run_bind_congr rfl fun through hthrough => ?_
  unfold Ensures at hd
  rw [hthrough] at hd
  rw [run_get_bind, run_get_bind, declaring?_congr hh hh' h₁ hd.2 hnear hdecl]
  cases hfound : ((classFor S access.className).run c).state.declaring? S.host through
    access.name with
  | none => rfl
  | some found =>
    obtain ⟨owner, declaration⟩ := found
    obtain ⟨C, hC, -, hdeclared⟩ :=
      (h₁.mirrors.declaring?_iff hh h₁.wellFormed hd.2).mp hfound
    have htype : declaration.type.RefersTo (S.host.AgreesAt S'.host) := fun name hname =>
      hagree.classes name (.type (.field ha ⟨hC, hdeclared⟩) hname)
    dsimp only
    rw [bringIn_congr hconfig htype, recordArray_congr hconfig fun _ => htype]

theorem registerFields_congr (hconfig : S'.config = S.config) (hh : S.host.Coherent)
    (hh' : S'.host.Coherent) (hagree : S.host.AgreesOn S'.host m facts) :
    ∀ {accesses : List FieldRef} {c : Catalog}, c.MirrorsBoth S S' → accesses ⊆ facts.fields →
      (registerFields S' accesses).run c = (registerFields S accesses).run c
  | [], _, _, _ => rfl
  | access :: rest, c, h, hsub => by
    obtain ⟨ha, hrest⟩ := List.cons_subset.mp hsub
    have hrun := registerField_congr hconfig hh hh' h hagree ha
    have hd : (registerField S access).Ensures c _ :=
      registerField_ensures h.wellFormed (Scope.all_admitsAccess S c access)
    have hd' : (registerField S' access).Ensures c _ :=
      registerField_ensures h.wellFormed (Scope.all_admitsAccess S' c access)
    have h₁ := h.of_run_eq hh hh' hrun hd.1 hd'.1
    rw [registerFields, registerFields]
    refine run_bind_congr hrun fun added _ => ?_
    exact run_bind_congr (registerFields_congr hconfig hh hh' hagree h₁ hrest) fun _ _ => rfl

end Catalog

namespace Registry

variable {S S' : Setting} {g g' : CallGraph} {m : MethodRef} {facts : MethodFacts} {r : Registry}
  {entries : List MethodRef}

/-! ## Walks end alike -/

/-- Actions on the catalog that agree there agree in the registry. -/
theorem onCatalog_congr {α : Type} {x x' : Action Catalog α}
    (h : x'.run r.catalog = x.run r.catalog) : (onCatalog x').run r = (onCatalog x).run r := by
  simp only [onCatalog, onPart, h]

theorem collect_congr (hconfig : S'.config = S.config) (hh : S.host.Coherent)
    (hh' : S'.host.Coherent) (hagree : S.host.AgreesOn S'.host m facts) {c : Catalog}
    (h : c.MirrorsBoth S S') : (collect S' facts).run c = (collect S facts).run c := by
  have harrays : Catalog.recordArrays S' facts.arrays = Catalog.recordArrays S facts.arrays :=
    Catalog.recordArrays_congr hconfig fun t ht harray name hname =>
      hagree.classes name (.type (.array ht harray) hname)
  rw [collect, collect, harrays]
  exact run_bind_congr
    (Catalog.registerFields_congr hconfig hh hh' hagree h (List.Subset.refl _)) fun _ _ => rfl

/-- An expansion ends alike if both hosts say the same of what the method uses. -/
theorem expand_congr (hconfig : S'.config = S.config) (hh : S.host.Coherent)
    (hh' : S'.host.Coherent) (hagree : S.host.AgreesOn S'.host m facts)
    (h : r.catalog.MirrorsBoth S S') :
    (expand S' m facts).run r = (expand S m facts).run r ∧
      ((expand S m facts).run r).state.catalog.MirrorsBoth S S' := by
  have hmethod : Catalog.registerMethod S' m = Catalog.registerMethod S m :=
    Catalog.registerMethod_congr hconfig (hagree.classes _ .self)
  have hd : (Catalog.registerMethod S m).Ensures r.catalog _ :=
    Catalog.registerMethod_ensures h.wellFormed (Scope.all_admitsClass S _) trivial
  have hd' : (Catalog.registerMethod S' m).Ensures r.catalog _ :=
    Catalog.registerMethod_ensures h.wellFormed (Scope.all_admitsClass S' _) trivial
  have h₁ := h.of_run_eq hh hh' (by rw [hmethod]) hd.1 hd'.1
  have hrun : (expand S' m facts).run r = (expand S m facts).run r := by
    rw [expand, expand, hmethod]
    refine run_bind_congr rfl fun _ _ => run_bind_congr rfl fun _ _ => ?_
    exact run_bind_congr rfl fun _ _ => onCatalog_congr (collect_congr hconfig hh hh' hagree h₁)
  refine ⟨hrun, ?_⟩
  have hexp := expand_ensures h.wellFormed (Scope.all_admitsMethod S r.catalog m facts)
  have hexp' := expand_ensures h.wellFormed (Scope.all_admitsMethod S' r.catalog m facts)
  obtain ⟨⟨_, he, -⟩, -⟩ := hexp
  obtain ⟨⟨_, he', -⟩, -⟩ := hexp'
  exact
    { wellFormed := h.wellFormed.reaches he.catalog.reaches
      mirrors := h.mirrors.discovery hh h.wellFormed he.catalog
      mirrors' := h.mirrors'.discovery hh' h.wellFormed (hrun ▸ he'.catalog) }

/-- A queue is worked off alike if both graphs have the same facts of all that it leads to, and
both hosts say the same of what these methods use. -/
theorem expandAll_congr (hconfig : S'.config = S.config) (hh : S.host.Coherent)
    (hh' : S'.host.Coherent)
    (hfacts : ∀ m, g.Reachable entries m → g'.facts? m = g.facts? m)
    (hagree : ∀ m facts, g.Reachable entries m → g.facts? m = some facts →
      S.host.AgreesOn S'.host m facts)
    (queue : List MethodRef) (r : Registry) (h : r.catalog.MirrorsBoth S S')
    (hqueue : ∀ m ∈ queue, g.Reachable entries m) :
    expandAll S' g' queue r = expandAll S g queue r := by
  fun_induction expandAll S g queue r with
  | case1 r => rw [expandAll]
  | case2 r m rest hw ih =>
    rw [expandAll_of_walked hw, ih h fun n hn => hqueue n (List.mem_cons_of_mem m hn)]
  | case3 r m rest hw hf =>
    have hm := hqueue m (List.mem_cons_self ..)
    rw [expandAll_of_unknown hw ((hfacts m hm).trans hf)]
  | case4 r m rest hw facts hf e he =>
    have hm := hqueue m (List.mem_cons_self ..)
    obtain ⟨hrun, -⟩ := expand_congr hconfig hh hh' (hagree m facts hm hf) h
    rw [expandAll_of_error hw ((hfacts m hm).trans hf) (hrun ▸ he), hrun]
  | case5 r m rest hw facts hf n he o more ih =>
    have hm := hqueue m (List.mem_cons_self ..)
    obtain ⟨hrun, h₁⟩ := expand_congr hconfig hh hh' (hagree m facts hm hf) h
    rw [expandAll_of_ok hw ((hfacts m hm).trans hf) (hrun ▸ he), hrun]
    dsimp only
    rw [ih h₁ fun k hk => ?_]
    rcases List.mem_append.mp hk with hk | hk
    · exact hqueue k (List.mem_cons_of_mem m hk)
    · exact hm.call ⟨facts, hf, (List.mem_filter.mp hk).1⟩

/-! ## Finalizing asks no host -/

/-- Layouts read the settings and no host. -/
theorem layoutOf_congr (hconfig : S'.config = S.config) (id : ClassId) :
    layoutOf S' id = layoutOf S id := by
  unfold layoutOf
  rw [hconfig]

theorem layOutAll_congr (hconfig : S'.config = S.config) :
    ∀ ids : List ClassId, layOutAll S' ids = layOutAll S ids
  | [] => rfl
  | id :: rest => by
    unfold layOutAll
    rw [layoutOf_congr hconfig, layOutAll_congr hconfig rest]

/-- Finalizing reads no host. -/
theorem finalize_congr (hconfig : S'.config = S.config) : finalize S' = finalize S := by
  unfold finalize
  simp only [layOutAll_congr hconfig, hconfig]

end Registry

/-! ## Whole runs -/

/-- `P'` has the same facts as `P` of every method that the entries lead to in `P`, the same
parent for every class that the walk over `P` registers, and the same meaning for every field
access of these methods. -/
structure Program.AgreesOn (P P' : Program) (config : LayoutConfig) (entries : List MethodRef) :
    Prop where
  facts : ∀ m, P.graph.Reachable entries m → P'.graph.facts? m = P.graph.facts? m
  classes : ∀ d ∈ ((Registry.walk ⟨P.host, config⟩ P.graph entries).run {}).state.catalog.classes,
    (P'.class? d.hostName).map (·.parent) = (P.class? d.hostName).map (·.parent)
  fields : ∀ m facts access, P.graph.Reachable entries m → P.graph.facts? m = some facts →
    access ∈ facts.fields → P'.host.nearest? access = P.host.nearest? access ∧
      ∀ C, P.host.nearest? access = some C →
        P'.host.declaredField C access.name = P.host.declaredField C access.name

section

variable {P P' : Program} {config : LayoutConfig} {entries : List MethodRef} {r : Registry}

/-- The programs give a registered class the same chain. -/
theorem Program.agreesAt_of_registered (hc : r.catalog.WellFormed) (hm : r.catalog.Mirrors P.host)
    (hparents : ∀ d ∈ r.catalog.classes,
      (P'.class? d.hostName).map (·.parent) = (P.class? d.hostName).map (·.parent))
    {name : String} (hl : (r.catalog.lookup name).isSome) : P.host.AgreesAt P'.host name := by
  have hname : ∀ n, (r.catalog.lookup n).isSome →
      (P'.class? n).map (·.parent) = (P.class? n).map (·.parent) := by
    intro n hn
    obtain ⟨id, hid⟩ := Option.isSome_iff_exists.mp hn
    obtain ⟨d, hd, rfl⟩ := hc.lookup_eq_some_iff.mp hid
    exact hparents d (Catalog.mem_classes_of_class? hd)
  obtain ⟨above, habove, hall⟩ := hm.chain hc hl
  have hchain : P'.ancestors name = some above := by
    refine Program.ancestors_congr habove fun n hn => ?_
    rcases List.mem_cons.mp hn with rfl | hn
    · exact hname n hl
    · exact hname n (hall n hn)
  refine ⟨?_, hchain.trans habove.symm⟩
  show (P'.class? name).isSome = (P.class? name).isSome
  rw [← Option.isSome_map, hname name hl, Option.isSome_map]

/-- Programs that agree on what is reachable walk alike. -/
theorem Registry.walk_eq_of_agreesOn (hagree : P.AgreesOn P' config entries) {report : Report}
    (hok : ((walk ⟨P.host, config⟩ P.graph entries).run {}).result = .ok report) :
    (walk ⟨P'.host, config⟩ P'.graph entries).run {} =
      (walk ⟨P.host, config⟩ P.graph entries).run {} := by
  have hh := P.host_coherent
  have hcomplete : Complete ⟨P.host, config⟩ P.graph entries _ := complete_of_walk hh hok
  have hdisc := hcomplete.explored.discovered
  have hempty : Catalog.MirrorsBoth ⟨P.host, config⟩ ⟨P'.host, config⟩ {} :=
    ⟨.empty, .empty P.host, .empty P'.host⟩
  have hhost : ∀ m facts, P.graph.Reachable entries m → P.graph.facts? m = some facts →
      P.host.AgreesOn P'.host m facts := fun m facts hr hf =>
    { classes := fun name hu => Program.agreesAt_of_registered hdisc.wellFormed hdisc.mirrors
        hagree.classes (hcomplete.isSome_lookup hh hr hf hu)
      fields := fun access ha => hagree.fields m facts access hr hf ha }
  have hwalk : expandAll ⟨P'.host, config⟩ P'.graph entries {} =
      expandAll ⟨P.host, config⟩ P.graph entries {} := by
    refine expandAll_congr ?_ hh P'.host_coherent hagree.facts hhost entries {} hempty
      fun m hm => .entry hm
    rfl
  rw [walk, walk, run_get_bind, run_get_bind]
  exact run_bind_congr hwalk fun _ _ => rfl

/-- A program that agrees on what is reachable has the same run, whatever else it declares. -/
theorem Registry.compile_eq_of_agreesOn (P P' : Program) (config : LayoutConfig)
    (entries : List MethodRef) (hagree : P.AgreesOn P' config entries) {report : Report}
    {T : LayoutTable}
    (hok : ((compile ⟨P.host, config⟩ P.graph entries).run {}).result = .ok (report, T)) :
    ((compile ⟨P'.host, config⟩ P'.graph entries).run {}).result = .ok (report, T) := by
  obtain ⟨report', hwalk, -⟩ := result_bind_eq_ok.mp hok
  have hfinal : finalize ⟨P'.host, config⟩ = finalize ⟨P.host, config⟩ := finalize_congr rfl
  have hrun : (compile ⟨P'.host, config⟩ P'.graph entries).run {} =
      (compile ⟨P.host, config⟩ P.graph entries).run {} := by
    rw [compile, compile, hfinal]
    exact run_bind_congr (walk_eq_of_agreesOn hagree hwalk) fun _ _ => rfl
  rw [hrun, hok]

end

/-- `Program.cycle`, with a class, a field and a method more. The new method calls one that is
missing, and the new class hides a field of `A` behind one of a missing type. -/
def Program.cycleWithMore : Program where
  classes := [("C", ⟨some "B", [⟨"x", .named "D", false⟩]⟩),
    ("A", ⟨none, [⟨"z", .array (.named "C"), true⟩, ⟨"x", .primitive .int, false⟩]⟩),
    ("B", ⟨some "A", [⟨"y", .named "A", true⟩]⟩)]
  graph := ⟨(⟨"C", "h()"⟩, ⟨[⟨"D", "k()"⟩], [⟨"C", "x"⟩], []⟩) :: Program.cycle.graph.entries⟩

/-- What is added is used by no method that `A.f` leads to. -/
theorem Program.cycle_agreesOn_cycleWithMore :
    Program.cycle.AgreesOn Program.cycleWithMore {} [⟨"A", "f()"⟩] := by
  let reached : List MethodRef := [⟨"A", "f()"⟩, ⟨"B", "g()"⟩]
  have hreach : ∀ m, Program.cycle.graph.Reachable [⟨"A", "f()"⟩] m → m ∈ reached := by
    have hclosed : ∀ m ∈ reached, ∀ facts ∈ Program.cycle.graph.facts? m,
      ∀ n ∈ facts.calls, n ∈ reached := by decide
    intro m hm
    induction hm with
    | entry h => exact List.mem_cons.mpr (Or.inl (List.mem_singleton.mp h))
    | call _ h ih =>
      obtain ⟨facts, hf, hn⟩ := h
      exact hclosed _ ih facts hf _ hn
  have hnames : (Registry.expandAllWithin ⟨Program.cycle.host, {}⟩ Program.cycle.graph 4
      [⟨"A", "f()"⟩] {}).map (·.state.catalog.classes.map (·.hostName)) = some ["A", "B"] := by
    decide +kernel
  obtain ⟨o, ho, hclasses⟩ := Option.map_eq_some_iff.mp hnames
  have hfacts : ∀ m ∈ reached,
    Program.cycleWithMore.graph.facts? m = Program.cycle.graph.facts? m := by decide
  have hparents : ∀ name ∈ ["A", "B"], (Program.cycleWithMore.class? name).map (·.parent) =
    (Program.cycle.class? name).map (·.parent) := by decide
  have hfields : ∀ m ∈ reached, ∀ facts ∈ Program.cycle.graph.facts? m,
      ∀ access ∈ facts.fields,
        Program.cycleWithMore.host.nearest? access = Program.cycle.host.nearest? access ∧
        ∀ C ∈ Program.cycle.host.nearest? access,
          Program.cycleWithMore.host.declaredField C access.name =
            Program.cycle.host.declaredField C access.name := by decide +kernel
  refine ⟨fun m hm => hfacts m (hreach m hm), fun d hd => hparents _ ?_,
    fun m facts access hm hf ha => hfields m (hreach m hm) facts hf access ha⟩
  rw [Registry.walk_state, Registry.expandAll_of_within ho] at hd
  exact hclasses ▸ List.mem_map_of_mem hd

/-- The classes and methods that are added make no difference to what is compiled from `A.f`. -/
theorem Registry.compile_eq_of_agreesOn_cycle :
    ∃ report T,
      Program.cycle.AgreesOn Program.cycleWithMore {} [⟨"A", "f()"⟩] ∧
      ((compile ⟨Program.cycle.host, {}⟩ Program.cycle.graph [⟨"A", "f()"⟩]).run {}).result =
        .ok (report, T) ∧ T.classes.length = 2 ∧
      ((compile ⟨Program.cycleWithMore.host, {}⟩ Program.cycleWithMore.graph
        [⟨"A", "f()"⟩]).run {}).result = .ok (report, T) := by
  let S : Setting := ⟨Program.cycle.host, {}⟩
  have hrun : (expandAllWithin S Program.cycle.graph 4 [⟨"A", "f()"⟩] {}).map
      (fun o => (o.result, ((finalize S).run o.state).result.toOption.map (·.classes.length))) =
      some (.ok (2, 2), some 2) := by decide +kernel
  obtain ⟨o, ho, hboth⟩ := Option.map_eq_some_iff.mp hrun
  obtain ⟨hwalk, hfinal⟩ := Prod.mk.inj hboth
  have hall := expandAll_of_within ho
  obtain ⟨report, hreport⟩ := (walk_isOk_iff _ _ _).mpr ⟨(2, 2), hall ▸ hwalk⟩
  obtain ⟨T, hT, hlength⟩ := Option.map_eq_some_iff.mp hfinal
  have hok : ((compile S Program.cycle.graph [⟨"A", "f()"⟩]).run {}).result =
      .ok (report, T) := by
    refine result_bind_eq_ok.mpr ⟨report, hreport, result_bind_eq_ok.mpr ⟨T, ?_, rfl⟩⟩
    rw [walk_state, hall]
    exact toOption_eq_some_iff.mp hT
  exact ⟨report, T, Program.cycle_agreesOn_cycleWithMore, hok, hlength,
    compile_eq_of_agreesOn _ _ {} _ Program.cycle_agreesOn_cycleWithMore hok⟩

end DeviceLayout
