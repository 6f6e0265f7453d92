import DeviceLayout.Proofs.Reachability.Explored

/-!
# Why walks fail

A method is broken if its facts are missing, or if the host has no chain for a class it uses or no
declaration for a field it accesses (`CallGraph.Defect`). Each defect has an error that names what
is missing.

An expansion fails with an error that names a defect of its method (`Registry.expand_defect`), and
so a walk fails with an error that names a defect of a method that the entries lead to
(`Registry.expandAll_defect`). Conversely, no walk gets past a defect : where it succeeds, the host
serves every method that the entries lead to, and a method that is served has no defect
(`CallGraph.Sound.not_defect`). So a walk over a program fails exactly if there is a defect to be
met (`Registry.walk_error_iff`), whatever was found or skipped on the way to it.
-/

open DeviceLayout.Action

namespace DeviceLayout

/-! ## Defects -/

/-- Whether the error says that a class, its chain, a field or a method is missing. -/
def LayoutError.isMissing : LayoutError → Bool
  | unknownClass _ | unresolvedAncestor _ => true
  | unknownField _ | unknownMethod _ => true
  | _ => false

namespace Host

/-- The error with which a class without a chain is refused. -/
def refusal (host : Host) (name : String) : LayoutError :=
  if host.contains name then .unresolvedAncestor name else .unknownClass name

/-- An access means no field if no class of the chain declares one. -/
theorem nearest?_eq_none_iff {host : Host} {access : FieldRef} {above : List String}
    (habove : host.ancestors access.className = some above) :
    host.nearest? access = none ↔
      ∀ C ∈ access.className :: above, host.declaredField C access.name = none := by
  rw [nearest?, habove, Option.bind_some, List.find?_eq_none]
  simp

/-- An access means a declaration if some class of the chain declares the field. -/
theorem exists_means {host : Host} {access : FieldRef} {C : String}
    (hnear : host.nearest? access = some C) : ∃ declaration, host.Means access C declaration := by
  obtain ⟨above, -, hfind⟩ := Option.bind_eq_some_iff.mp hnear
  have hdeclares : (host.declaredField C access.name).isSome = true := by
    simpa using List.find?_some hfind
  obtain ⟨declaration, hdeclared⟩ := Option.isSome_iff_exists.mp hdeclares
  exact ⟨declaration, hnear, hdeclared⟩

/-- The class has no chain, and the error names it. -/
def Refuses (host : Host) (name : String) (e : LayoutError) : Prop :=
  host.ancestors name = none ∧ e = host.refusal name

/-- The type mentions a class without a chain, and the error names that class. -/
def RefusesType (host : Host) (t : HostType) (e : LayoutError) : Prop :=
  ∃ name, t.referencedClass? = some name ∧ host.Refuses name e

/-- What is broken about a field access, with the error that names it. -/
inductive RefusesAccess (host : Host) (access : FieldRef) : LayoutError → Prop
  /-- The class that the access goes through has no chain. -/
  | className {e : LayoutError} (h : host.Refuses access.className e) :
    RefusesAccess host access e
  /-- No class of the chain declares the field. -/
  | undeclared {above : List String} (habove : host.ancestors access.className = some above)
    (h : ∀ C ∈ access.className :: above, host.declaredField C access.name = none) :
    RefusesAccess host access (.unknownField access)
  /-- The type of the field mentions a class without a chain. -/
  | type {C : String} {declaration : HostField} {e : LayoutError}
    (hmeans : host.Means access C declaration) (h : host.RefusesType declaration.type e) :
    RefusesAccess host access e

end Host

/-- What is broken about a method, with the error that names it. -/
inductive CallGraph.Defect (g : CallGraph) (host : Host) (m : MethodRef) : LayoutError → Prop
  /-- There are no facts about the method. -/
  | facts (h : g.facts? m = none) : Defect g host m (.unknownMethod m)
  /-- The class of the method has no chain. -/
  | className {e : LayoutError} (h : host.Refuses m.className e) : Defect g host m e
  /-- A field access of the method is broken. -/
  | access {facts : MethodFacts} {access : FieldRef} {e : LayoutError}
    (hf : g.facts? m = some facts) (ha : access ∈ facts.fields)
    (h : host.RefusesAccess access e) : Defect g host m e
  /-- An array type that the method mentions has a class without a chain at its base. -/
  | array {facts : MethodFacts} {t : HostType} {e : LayoutError}
    (hf : g.facts? m = some facts) (ht : t ∈ facts.arrays) (harray : t.isArray = true)
    (h : host.RefusesType t e) : Defect g host m e

/-- A class is refused because it, or a chain above it, is missing. -/
theorem Host.Refuses.isMissing {host : Host} {name : String} {e : LayoutError}
    (h : host.Refuses name e) : e.isMissing = true := by
  obtain ⟨-, rfl⟩ := h
  unfold Host.refusal
  split <;> rfl

theorem CallGraph.Defect.isMissing {g : CallGraph} {host : Host} {m : MethodRef} {e : LayoutError}
    (h : g.Defect host m e) : e.isMissing = true := by
  have htype : ∀ {t : HostType}, host.RefusesType t e → e.isMissing = true :=
    fun ⟨_, _, h⟩ => h.isMissing
  cases h with
  | facts h => rfl
  | className h => exact h.isMissing
  | access hf ha h =>
    cases h with
    | className h => exact h.isMissing
    | undeclared habove h => rfl
    | type hmeans h => exact htype h
  | array hf ht harray h => exact htype h

/-! ## How discovery fails -/

namespace Catalog

variable {S : Setting} (hh : S.host.Coherent) (hk : S.host.KnowsChains)

include hh hk

/-- A class that is asked for is refused only if the host refuses it. -/
theorem classFor_refuses (name : String) :
    (classFor S name).Confines (Discovered S .all) (S.host.Refuses name) := by
  intro c h
  have hd := (classFor_ensures h.wellFormed (Scope.all_admitsClass S name)).1
  refine ⟨h.discovery hh hd, fun e he => ?_⟩
  obtain ⟨-, ⟨hunknown, rfl⟩ | ⟨hknown, hnone, rfl⟩⟩ := classFor_error_cases h.wellFormed he
  · refine ⟨?_, by rw [Host.refusal, if_neg (by simp [hunknown])]⟩
    cases hanc : S.host.ancestors name with
    | none => rfl
    | some above => cases hunknown.symm.trans (hk hanc)
  · exact ⟨hnone, (if_pos hknown).symm⟩

/-- A type fails with the class it mentions. -/
theorem bringIn_refuses (t : HostType) :
    (bringIn S t).Confines (Discovered S .all) (S.host.RefusesType t) := by
  unfold bringIn
  split
  · exact .pure ()
  · next name hname =>
    refine .bind ?_ fun _ => .pure ()
    exact (classFor_refuses hh hk name).mono fun e he => ⟨name, hname, he⟩

/-- An array type fails with the class at its base; other types never fail here. -/
theorem recordArray_refuses (t : HostType) :
    (recordArray S t).Confines (Discovered S .all)
      fun e => t.isArray = true ∧ S.host.RefusesType t e := by
  refine .get_bind fun c h => ?_
  dsimp only
  split
  · exact .ok h
  · next hsome =>
    obtain ⟨level, hlevel⟩ := List.exists_mem_of_ne_nil _ (mt List.isEmpty_iff.mpr hsome)
    have harray := HostType.isArray_of_arrayLevels (List.mem_filter.mp hlevel).1
    have h' : Discovered S .all { c with arrays := c.arrays ++ c.missingArrays t } :=
      h.discovery hh (.single (.addArrays fun _ _ => trivial))
    refine .tellAll_bind (.modify_bind ?_)
    refine Confines.bind ?_ (fun _ => .pure _) _ h'
    exact (bringIn_refuses hh hk t).mono fun e he => ⟨harray, he⟩

theorem recordArrays_refuses :
    ∀ ts : List HostType, (recordArrays S ts).Confines (Discovered S .all)
      fun e => ∃ t ∈ ts, t.isArray = true ∧ S.host.RefusesType t e
  | [] => .pure ()
  | t :: rest => by
    refine .bind ((recordArray_refuses hh hk t).mono fun e he => ?_) fun _ =>
      (recordArrays_refuses rest).mono fun e he => ?_
    · exact ⟨t, List.mem_cons_self .., he⟩
    · obtain ⟨t', ht', he⟩ := he
      exact ⟨t', List.mem_cons_of_mem t ht', he⟩

/-- A method is registered unless its class is refused. -/
theorem registerMethod_refuses (m : MethodRef) :
    (registerMethod S m).Confines (Discovered S .all) (S.host.Refuses m.className) := by
  intro c h
  refine Ends.bind (classFor_refuses hh hk _ c h)
    (classFor_ensures h.wellFormed (Scope.all_admitsClass S _)) ?_
  rintro id c₁ h₁ ⟨-, hl⟩
  obtain ⟨d, hd, hname⟩ := h₁.wellFormed.lookup_eq_some_iff.mp hl
  obtain ⟨b, hb⟩ := ClassDescriptor.addMethod_isOk m d
  have hadds : (onClass id (ClassDescriptor.addMethod m)).Ensures c₁ _ :=
    onClass_addMethod_ensures (S := S) (A := .all) hd hname trivial
  have hok : (onClass id (ClassDescriptor.addMethod m)).Ensures c₁ fun res _ => res = .ok b :=
    onClass_ensures hd hb
  refine (hadds.and hok).mono ?_
  rintro res c' ⟨⟨hdisc, -⟩, rfl⟩
  exact .ok (h₁.discovery hh hdisc)

omit hk in
/-- A field that is not found from a class of the catalog is declared nowhere on its chain. A class
that declares it would be in the catalog, since chains are added whole, and would be found. -/
theorem refusesAccess_of_declaring? {c : Catalog} (h : c.Discovered S .all) {access : FieldRef}
    {through : ClassId} (hl : c.lookup access.className = some through)
    (hdecl : c.declaring? S.host through access.name = none) :
    S.host.RefusesAccess access (.unknownField access) := by
  have hthrough : (c.lookup access.className).isSome := hl ▸ rfl
  obtain ⟨above, habove, -⟩ := h.mirrors.chain h.wellFormed hthrough
  cases hnear : S.host.nearest? access with
  | none => exact .undeclared habove ((Host.nearest?_eq_none_iff habove).mp hnear)
  | some C =>
    obtain ⟨declaration, -, hdeclared⟩ := Host.exists_means hnear
    obtain ⟨owner, howner⟩ := Option.isSome_iff_exists.mp
      (h.mirrors.isSome_lookup_of_nearest? h.wellFormed hthrough hnear)
    cases hdecl.symm.trans ((h.mirrors.declaring?_iff hh h.wellFormed hl).mpr
      ⟨C, hnear, howner, hdeclared⟩)

/-- A field access fails if its class is refused, if no class of the chain declares the field, or if
the class that the field mentions is refused. -/
theorem registerField_refuses (access : FieldRef) :
    (registerField S access).Confines (Discovered S .all) (S.host.RefusesAccess access) := by
  intro c h
  refine Ends.bind ((classFor_refuses hh hk access.className).mono
      (fun e he => Host.RefusesAccess.className he) c h)
    (classFor_ensures h.wellFormed (Scope.all_admitsClass S _)) ?_
  rintro through c₁ h₁ ⟨-, hl⟩
  have hc₁ := h₁.wellFormed
  refine .get_bind ?_
  split
  · next hdecl => exact .error h₁ (refusesAccess_of_declaring? hh h₁ hl hdecl)
  · next owner declaration hdecl =>
    obtain ⟨q, hq, -⟩ := hc₁.lookup_eq_some_iff.mp hl
    obtain ⟨d, hd, -⟩ := hc₁.class?_of_declaring? hq hdecl
    have hmeans := means_of_declaring? hh h₁.mirrors hc₁ hl hdecl hd
    cases hf : d.hasField declaration.name with
    | true => exact .bind_of_ok (onClass_addField_of_known hd hf) (.pure (.ok h₁))
    | false =>
      have hopen : d.frozen = false := (h₁.classes d (mem_classes_of_class? hd)).2.2
      have h₂ := h₁.discovery hh (.single (.addField trivial hd hf hopen))
      refine .bind_of_ok (onClass_addField_of_new hd hf hopen) ?_
      have htype : ∀ e, S.host.RefusesType declaration.type e → S.host.RefusesAccess access e :=
        fun e he => .type hmeans he
      refine Confines.bind ((bringIn_refuses hh hk _).mono htype) (fun _ => ?_) _ h₂
      exact .bind ((recordArray_refuses hh hk _).mono fun e he => htype e he.2) fun _ => .pure true

/-- Field accesses fail with the first one that is refused. -/
theorem registerFields_refuses :
    ∀ accesses : List FieldRef, (registerFields S accesses).Confines (Discovered S .all)
      fun e => ∃ access ∈ accesses, S.host.RefusesAccess access e
  | [] => .pure 0
  | access :: rest => by
    refine .bind ((registerField_refuses hh hk access).mono fun e he => ?_) fun _ =>
      .bind ((registerFields_refuses rest).mono fun e he => ?_) fun _ => .pure _
    · exact ⟨access, List.mem_cons_self .., he⟩
    · obtain ⟨a, ha, he⟩ := he
      exact ⟨a, List.mem_cons_of_mem access ha, he⟩

end Catalog

/-! ## How walks fail -/

namespace Registry

variable {S : Setting} {g : CallGraph} {entries : List MethodRef}

/-- An expansion fails with an error that names a defect of the method. -/
theorem expand_defect (hh : S.host.Coherent) (hk : S.host.KnowsChains) {m : MethodRef}
    {facts : MethodFacts} (hf : g.facts? m = some facts) :
    (expand S m facts).Confines (fun r => r.catalog.Discovered S .all) (g.Defect S.host m) := by
  have hpart : ∀ {α : Type} {x : Action Catalog α},
      x.Confines (Catalog.Discovered S .all) (g.Defect S.host m) →
      (onCatalog x).Confines (fun r => r.catalog.Discovered S .all) (g.Defect S.host m) :=
    fun hx => .onPart hx (fun _ hr => hr) fun _ _ _ hc => hc
  have hfields := (Catalog.registerFields_refuses hh hk facts.fields).mono
    fun e ⟨_, ha, he⟩ => CallGraph.Defect.access hf ha he
  have harrays := (Catalog.recordArrays_refuses hh hk facts.arrays).mono
    fun e ⟨_, ht, harray, he⟩ => CallGraph.Defect.array hf ht harray he
  have hcollect : (collect S facts).Confines (Catalog.Discovered S .all) (g.Defect S.host m) :=
    .bind hfields fun _ => .bind harrays fun _ => .pure _
  have hmethod := (Catalog.registerMethod_refuses hh hk m).mono
    fun e he => CallGraph.Defect.className (g := g) he
  exact .bind (hpart hmethod) fun _ => .bind (.modify fun _ hr => hr) fun _ =>
    .bind (.tell _) fun _ => hpart hcollect

/-- Working off a queue fails with an error that names a defect of a method it leads to. -/
theorem expandAll_defect (hh : S.host.Coherent) (hk : S.host.KnowsChains)
    (queue : List MethodRef) (r : Registry) (h : r.catalog.Discovered S .all)
    (hqueue : ∀ m ∈ queue, g.Reachable entries m) {e : LayoutError}
    (he : (expandAll S g queue r).result = .error e) :
    ∃ m, g.Reachable entries m ∧ g.Defect S.host m e := by
  fun_induction expandAll S g queue r with
  | case1 r => cases he
  | case2 r m rest hw ih => exact ih h (fun n hn => hqueue n (List.mem_cons_of_mem m hn)) he
  | case3 r m rest hw hf =>
    obtain rfl := Except.error.inj he
    exact ⟨m, hqueue m (List.mem_cons_self ..), .facts hf⟩
  | case4 r m rest hw facts hf e' he' =>
    obtain rfl := Except.error.inj he
    exact ⟨m, hqueue m (List.mem_cons_self ..), (expand_defect hh hk hf r h).2 _ he'⟩
  | case5 r m rest hw facts hf n hn o more ih =>
    have hm := hqueue m (List.mem_cons_self ..)
    refine ih (expand_defect hh hk hf r h).1 (fun k hk => ?_)
      (Outcome.result_map_after_eq_error.mp he)
    rcases List.mem_append.mp hk with hk | hk
    · exact hqueue k (List.mem_cons_of_mem m hk)
    · exact hm.call ⟨facts, hf, (List.mem_filter.mp hk).1⟩

end Registry

/-- What is served is not broken. -/
theorem CallGraph.Sound.not_defect {g : CallGraph} {host : Host} {entries : List MethodRef}
    (h : g.Sound host entries) {m : MethodRef} (hr : g.Reachable entries m) (e : LayoutError) :
    ¬ g.Defect host m e := by
  obtain ⟨facts, hf, hserves⟩ := h m hr
  have hclass : ∀ {name e}, host.UsesClass m facts name → ¬ host.Refuses name e := by
    rintro name e hu ⟨hnone, -⟩
    obtain ⟨above, habove⟩ := (hserves.classes name hu).2
    cases hnone.symm.trans habove
  intro hd
  cases hd with
  | facts hnone => cases hnone.symm.trans hf
  | className hrefused => exact hclass .self hrefused
  | access hf' ha hrefused =>
    obtain rfl := Option.some.inj (hf.symm.trans hf')
    cases hrefused with
    | className hrefused => exact hclass (.access ha) hrefused
    | undeclared habove hnone =>
      obtain ⟨C, declaration, hnear, -⟩ := hserves.fields _ ha
      cases ((Host.nearest?_eq_none_iff habove).mpr hnone).symm.trans hnear
    | type hmeans hrefused =>
      obtain ⟨name, hname, hrefused⟩ := hrefused
      exact hclass (.type (.field ha hmeans) hname) hrefused
  | array hf' ht harray hrefused =>
    obtain rfl := Option.some.inj (hf.symm.trans hf')
    obtain ⟨name, hname, hrefused⟩ := hrefused
    exact hclass (.type (.array ht harray) hname) hrefused

namespace Registry

/-- A walk over a program, from the empty registry, fails if and only if a method that the entries
lead to is broken. Its error says that something is missing, and names what is missing for such a
method; that a class is frozen is never the reason. -/
theorem walk_error_iff (P : Program) (config : LayoutConfig) (entries : List MethodRef) :
    let result := ((walk ⟨P.host, config⟩ P.graph entries).run {}).result
    ((∃ e, result = .error e) ↔
      ∃ m e, P.graph.Reachable entries m ∧ P.graph.Defect P.host m e) ∧
    (∀ e, result = .error e → e.isMissing = true ∧
      ∃ m, P.graph.Reachable entries m ∧ P.graph.Defect P.host m e) ∧
    ∀ name field, result ≠ .error (.classFrozen name field) := by
  intro result
  have hh : P.host.Coherent := P.host_coherent
  have hk : P.host.KnowsChains := P.host_knowsChains
  have hnamed : ∀ e, result = .error e →
      ∃ m, P.graph.Reachable entries m ∧ P.graph.Defect P.host m e := by
    intro e he
    cases hall : (expandAll ⟨P.host, config⟩ P.graph entries {}).result with
    | ok found =>
      obtain ⟨report, hok⟩ := (walk_isOk_iff P.graph entries {}).mpr ⟨found, hall⟩
      cases he.symm.trans hok
    | error e' =>
      obtain rfl := Except.error.inj (he.symm.trans (walk_result_of_error hall))
      exact expandAll_defect hh hk entries {} (.empty _ _) (fun m hm => .entry hm) hall
  refine ⟨⟨fun ⟨e, he⟩ => ?_, fun ⟨m, e, hr, hd⟩ => ?_⟩, fun e he => ?_, fun name field he => ?_⟩
  · obtain ⟨m, hr, hd⟩ := hnamed e he
    exact ⟨m, e, hr, hd⟩
  · cases hresult : result with
    | error e' => exact ⟨e', rfl⟩
    | ok report =>
      have hcomplete : Complete ⟨P.host, config⟩ P.graph entries _ := complete_of_walk hh hresult
      exact absurd hd ((hcomplete.sound hh hk).not_defect hr e)
  · obtain ⟨m, hr, hd⟩ := hnamed e he
    exact ⟨hd.isMissing, m, hr, hd⟩
  · obtain ⟨m, -, hd⟩ := hnamed _ he
    cases hd.isMissing

end Registry

end DeviceLayout
