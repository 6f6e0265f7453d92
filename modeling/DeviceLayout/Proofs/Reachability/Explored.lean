import DeviceLayout.Proofs.Reachability.Needed
import DeviceLayout.Proofs.Registry.SelfContained

/-!
# When walks succeed

A walk succeeds if the host serves every method that the entries lead to
(`Registry.expandAll_succeeds`). That it fails otherwise shows in what a walk that succeeds leaves
behind (`Registry.Explored`) : the facts of every walked method are known, all that it uses is in
the catalog, and its callees are walked too. What is in a catalog that mirrors the host, the host
resolves.

So what a registry holds after walks that all succeed is determined by the entries alone : the
methods they lead to, and what these methods use (`Registry.Complete.class_iff`,
`Registry.Complete.field_iff`, `Registry.Complete.array_iff`).
-/

open DeviceLayout.Action

namespace DeviceLayout

/-! ## Requests that succeed -/

namespace ClassDescriptor

theorem addMethod_isOk (m : MethodRef) (d : ClassDescriptor) :
    ∃ b, ((addMethod m).run d).result = .ok b := by
  rw [addMethod, run_get_bind]
  split
  · exact ⟨false, rfl⟩
  · exact ⟨true, rfl⟩

end ClassDescriptor

namespace Catalog

variable {S : Setting} {c : Catalog} {m : MethodRef} {access : FieldRef} {t : HostType}

theorem classFor_isOk (hc : c.WellFormed) {name : String} (hres : S.host.Resolves name) :
    ∃ id, ((classFor S name).run c).result = .ok id := by
  cases h : ((classFor S name).run c).result with
  | ok id => exact ⟨id, rfl⟩
  | error e => exact absurd hres (classFor_refused hc h).2

theorem registerMethod_succeeds (hh : S.host.Coherent) (h : c.Discovered S .all)
    (hres : S.host.Resolves m.className) :
    (registerMethod S m).Ensures c fun res c' => (∃ b, res = .ok b) ∧ c'.Discovered S .all := by
  have hfor : (classFor S m.className).Ensures c _ :=
    classFor_ensures h.wellFormed (Scope.all_admitsClass S m.className)
  have hreg : (registerMethod S m).Ensures c _ :=
    registerMethod_ensures h.wellFormed (Scope.all_admitsClass S m.className) trivial
  refine ⟨?_, h.discovery hh hreg.1⟩
  obtain ⟨id, hid⟩ := classFor_isOk h.wellFormed hres
  unfold Ensures at hfor
  rw [hid] at hfor
  obtain ⟨hd, hl⟩ := hfor
  obtain ⟨d, hclass, -⟩ := (h.wellFormed.reaches hd.reaches).lookup_eq_some_iff.mp hl
  obtain ⟨b, hb⟩ := ClassDescriptor.addMethod_isOk m d
  refine ⟨b, result_bind_eq_ok.mpr ⟨id, hid, ?_⟩⟩
  exact (onClass_ensures (Q := fun res _ => res = .ok b) hclass hb :)

/-- A field access of which the host resolves all is not refused. The ways to fail are excluded one
by one: the class of the access resolves, its chain declares the field, and the type mentions
nothing that does not resolve. -/
theorem registerField_succeeds (hh : S.host.Coherent) (h : c.Discovered S .all)
    (hres : S.host.Resolves access.className) {C : String} {declaration : HostField}
    (hmeans : S.host.Means access C declaration)
    (htype : declaration.type.RefersTo S.host.Resolves) :
    (registerField S access).Ensures c fun res c' =>
      (∃ b, res = .ok b) ∧ c'.Discovered S .all := by
  have hreg : (registerField S access).Ensures c _ :=
    registerField_ensures h.wellFormed (Scope.all_admitsAccess S c access)
  refine ⟨?_, h.discovery hh hreg.1⟩
  cases hrun : ((registerField S access).run c).result with
  | ok b => exact ⟨b, rfl⟩
  | error e =>
    obtain ⟨c₁, hd₁, hcase⟩ := registerField_cases (S := S) h.wellFormed access
    have h₁ := h.discovery hh hd₁.widen
    rw [hrun] at hcase
    cases hcase with
    | refused _ hcause =>
      cases hcause with
      | unresolved hnot => exact absurd hres hnot
      | undeclared hl hdecl =>
        have hC := h₁.mirrors.isSome_lookup_of_nearest? h₁.wellFormed (hl ▸ rfl) hmeans.1
        obtain ⟨owner, howner⟩ := Option.isSome_iff_exists.mp hC
        have hsome := (h₁.mirrors.declaring?_iff hh h₁.wellFormed hl).mpr
          ⟨C, hmeans.1, howner, hmeans.2⟩
        rw [hdecl] at hsome
        cases hsome
      | frozen hd hfrozen =>
        rw [(h₁.classes _ hd).2.2] at hfrozen
        cases hfrozen
    | added hl hdecl hd hr hok herr =>
      obtain ⟨q, hq, -⟩ := h₁.wellFormed.lookup_eq_some_iff.mp hl
      obtain ⟨d, hd, -⟩ := h₁.wellFormed.class?_of_declaring? hq hdecl
      have hmeans' := means_of_declaring? hh h₁.mirrors h₁.wellFormed hl hdecl hd
      obtain ⟨-, rfl⟩ := hmeans.unique hmeans'
      exact absurd htype (herr ⟨e, rfl⟩)

theorem recordArray_succeeds (hh : S.host.Coherent) (h : c.Discovered S .all)
    (hres : t.isArray = true → t.RefersTo S.host.Resolves) :
    (recordArray S t).Ensures c fun res c' => (∃ n, res = .ok n) ∧ c'.Discovered S .all := by
  have hrec : (recordArray S t).Ensures c _ :=
    recordArray_ensures h.wellFormed fun _ => Scope.all_admitsType S t
  refine ⟨?_, h.discovery hh hrec.1⟩
  cases hrun : ((recordArray S t).run c).result with
  | ok n => exact ⟨n, rfl⟩
  | error e =>
    have hcase : RecordsArray S t c _ _ := recordArray_cases h.wellFormed
    rw [hrun] at hcase
    cases hcase with
    | added harray hd hlevels hok herr => exact absurd (hres harray) (herr ⟨e, rfl⟩)

theorem registerFields_succeeds (hh : S.host.Coherent) :
    ∀ {accesses : List FieldRef} {c : Catalog}, c.Discovered S .all →
      (∀ access ∈ accesses, S.host.Resolves access.className ∧ ∃ C declaration,
        S.host.Means access C declaration ∧ declaration.type.RefersTo S.host.Resolves) →
      (registerFields S accesses).Ensures c fun res c' =>
        (∃ n, res = .ok n) ∧ c'.Discovered S .all
  | [], _, h, _ => .pure ⟨⟨0, rfl⟩, h⟩
  | access :: rest, c, h, hall => by
    obtain ⟨hres, C, declaration, hmeans, htype⟩ := hall access (List.mem_cons_self ..)
    refine (registerField_succeeds hh h hres hmeans htype).bind_isOk fun added c₁ h₁ => ?_
    have hrest := registerFields_succeeds hh h₁ fun a ha => hall a (List.mem_cons_of_mem access ha)
    exact hrest.bind_isOk fun more c₂ h₂ => .pure ⟨⟨_, rfl⟩, h₂⟩

theorem recordArrays_succeeds (hh : S.host.Coherent) :
    ∀ {ts : List HostType} {c : Catalog}, c.Discovered S .all →
      (∀ t ∈ ts, t.isArray = true → t.RefersTo S.host.Resolves) →
      (recordArrays S ts).Ensures c fun res c' => (∃ u, res = .ok u) ∧ c'.Discovered S .all
  | [], _, h, _ => .pure ⟨⟨(), rfl⟩, h⟩
  | t :: _, _, h, hall =>
    (recordArray_succeeds hh h (hall t (List.mem_cons_self ..))).bind_isOk fun _ _ h₁ =>
      recordArrays_succeeds hh h₁ fun t' ht' => hall t' (List.mem_cons_of_mem t ht')

end Catalog

namespace Registry

variable {S : Setting} {A : Scope} {g : CallGraph} {entries : List MethodRef} {r : Registry}
  {m : MethodRef} {facts : MethodFacts}

/-- A method that the host serves can be expanded. -/
theorem expand_succeeds (hh : S.host.Coherent) (h : r.catalog.Discovered S .all)
    (hserves : S.host.Serves m facts) :
    (expand S m facts).Ensures r fun res r' =>
      (∃ n, res = .ok n) ∧ r'.catalog.Discovered S .all := by
  have hfields : ∀ access ∈ facts.fields, S.host.Resolves access.className ∧ ∃ C declaration,
      S.host.Means access C declaration ∧ declaration.type.RefersTo S.host.Resolves := by
    intro access ha
    obtain ⟨C, declaration, hmeans⟩ := hserves.fields access ha
    exact ⟨hserves.classes _ (.access ha), C, declaration, hmeans,
      fun name hname => hserves.classes name (.type (.field ha hmeans) hname)⟩
  have harrays : ∀ t ∈ facts.arrays, t.isArray = true → t.RefersTo S.host.Resolves :=
    fun t ht harray name hname => hserves.classes name (.type (.array ht harray) hname)
  have hmethod := Catalog.registerMethod_succeeds hh h (hserves.classes _ .self)
  refine Ensures.bind_isOk (I := fun r' => r'.catalog.Discovered S .all) (.onPart hmethod) ?_
  intro b r₁ h₁
  refine .modify_bind (.tell_bind (.onPart ?_))
  refine (Catalog.registerFields_succeeds hh h₁ hfields).bind_isOk fun n c₂ h₂ => ?_
  exact (Catalog.recordArrays_succeeds hh h₂ harrays).bind_isOk fun _ c₃ h₃ =>
    .pure ⟨⟨n, rfl⟩, h₃⟩

/-- A queue of methods that lead to sound methods only is worked off. -/
theorem expandAll_succeeds (hh : S.host.Coherent) (hsound : g.Sound S.host entries)
    (queue : List MethodRef) (r : Registry) (h : r.catalog.Discovered S .all)
    (hqueue : ∀ m ∈ queue, g.Reachable entries m) :
    ∃ found, (expandAll S g queue r).result = .ok found := by
  fun_induction expandAll S g queue r with
  | case1 r => exact ⟨_, rfl⟩
  | case2 r m rest hw ih => exact ih h fun n hn => hqueue n (List.mem_cons_of_mem m hn)
  | case3 r m rest hw hf =>
    obtain ⟨facts, hfacts, -⟩ := hsound m (hqueue m (List.mem_cons_self ..))
    cases hf.symm.trans hfacts
  | case4 r m rest hw facts hf e he =>
    obtain ⟨facts', hfacts, hserves⟩ := hsound m (hqueue m (List.mem_cons_self ..))
    obtain rfl := Option.some.inj (hf.symm.trans hfacts)
    obtain ⟨n, hn⟩ := (expand_succeeds hh h hserves).1
    cases he.symm.trans hn
  | case5 r m rest hw facts hf n he o more ih =>
    have hm := hqueue m (List.mem_cons_self ..)
    obtain ⟨facts', hfacts, hserves⟩ := hsound m hm
    obtain rfl := Option.some.inj (hf.symm.trans hfacts)
    refine Outcome.exists_ok_map_after.mpr (ih (expand_succeeds hh h hserves).2 fun k hk => ?_)
    rcases List.mem_append.mp hk with hk | hk
    · exact hqueue k (List.mem_cons_of_mem m hk)
    · exact hm.call ⟨facts, hf, (List.mem_filter.mp hk).1⟩

/-! ## What walks that succeed leave behind -/

/-- A registry after walks that all succeeded : it was discovered within the scope, all that it
mentions is there, and each walked method has all it uses there and its callees walked. -/
structure Explored (S : Setting) (A : Scope) (g : CallGraph) (r : Registry) : Prop where
  discovered : r.catalog.Discovered S A
  selfContained : r.catalog.SelfContained fun _ => True
  settled : ∀ m ∈ r.walked, ∃ facts, g.facts? m = some facts ∧
    r.catalog.Settled S.host m facts ∧ ∀ n ∈ facts.calls, n ∈ r.walked

theorem Explored.empty (S : Setting) (A : Scope) (g : CallGraph) : Explored S A g {} where
  discovered := .empty S A
  selfContained := .empty _
  settled _ h := nomatch h

/-- A walk that succeeds leaves what was explored explored, and has walked its entries. -/
theorem Explored.expandAll {Q : MethodRef → Prop} (hh : S.host.Coherent) (h : Explored S A g r)
    (hclosed : Closed S A g r.catalog Q) {queue : List MethodRef} (hqueue : ∀ m ∈ queue, Q m)
    (hwalked : ∀ m ∈ r.walked, Q m)
    {found : Nat × Nat} (hok : (expandAll S g queue r).result = .ok found) :
    let r' := (Registry.expandAll S g queue r).state
    Explored S A g r' ∧ (∀ m ∈ queue, m ∈ r'.walked) ∧ (∀ m ∈ r.walked, m ∈ r'.walked) ∧
      ∀ m ∈ r'.walked, Q m := by
  intro r'
  have hc := h.discovered.wellFormed
  obtain ⟨done, failed, hwork⟩ := expandAll_worked queue r hc hclosed hqueue
  have hdisc := hwork.explores.catalog
  have hc' := hc.reaches hdisc.reaches
  have hwhole : Whole (fun _ => True) r' :=
    expandAll_maintains (S := S) g queue r ⟨hc, h.selfContained⟩ (Or.inl ⟨found, hok⟩)
  have hold : ∀ m ∈ r.walked, m ∈ r'.walked := by
    intro m hm
    rw [hwork.explores.walked_eq]
    exact List.mem_append_left _ hm
  refine ⟨⟨h.discovered.discovery hh hdisc, hwhole.selfContained, fun m hm => ?_⟩,
    (hwork.complete found hok).2, hold, fun m hm => ?_⟩
  · by_cases hr : m ∈ r.walked
    · obtain ⟨facts, hf, hset, hcalls⟩ := h.settled m hr
      exact ⟨facts, hf, hdisc.reaches.extends.settled hc hc' hset,
        fun n hn => hold n (hcalls n hn)⟩
    · exact hwork.settled_of_ok hok hm hr
  · rw [hwork.explores.walked_eq] at hm
    rcases List.mem_append.mp hm with hm | hm
    · exact hwalked m hm
    · exact hwork.within m hm

/-- All that the entries lead to is walked, and all that it uses is in the catalog. -/
structure Complete (S : Setting) (g : CallGraph) (entries : List MethodRef) (r : Registry) :
    Prop where
  explored : Explored S (.needed S.host g entries) g r
  walked_iff : ∀ m, m ∈ r.walked ↔ g.Reachable entries m

/-- Walked entries bring what they lead to with them. -/
theorem Explored.complete (h : Explored S (.needed S.host g entries) g r)
    (hentries : ∀ m ∈ entries, m ∈ r.walked) (hwalked : ∀ m ∈ r.walked, g.Reachable entries m) :
    Complete S g entries r := by
  refine ⟨h, fun m => ⟨hwalked m, fun hm => ?_⟩⟩
  induction hm with
  | entry hm => exact hentries _ hm
  | call _ hcall ih =>
    obtain ⟨facts, hf, hn⟩ := hcall
    obtain ⟨facts', hf', -, hcalls⟩ := h.settled _ ih
    obtain rfl := Option.some.inj (hf.symm.trans hf')
    exact hcalls _ hn

/-- A walk from nothing that succeeds. -/
theorem complete_of_ok (hh : S.host.Coherent) {found : Nat × Nat}
    (hok : (expandAll S g entries {}).result = .ok found) :
    Complete S g entries (expandAll S g entries {}).state := by
  have hclosed := CallGraph.closed_needed (g := g) hh .empty (.empty S.host) entries
  obtain ⟨h, hentries, -, hwalked⟩ := (Explored.empty S (.needed S.host g entries) g).expandAll hh
    hclosed (fun m hm => .entry hm) (fun _ hm => nomatch hm) hok
  exact h.complete hentries hwalked

theorem complete_of_walk (hh : S.host.Coherent) {report : Report}
    (hok : ((walk S g entries).run {}).result = .ok report) :
    Complete S g entries ((walk S g entries).run {}).state := by
  obtain ⟨found, hfound⟩ := (walk_isOk_iff g entries {}).mp ⟨report, hok⟩
  rw [walk_state]
  exact complete_of_ok hh hfound

namespace Complete

variable {C : String} {declaration : HostField} {access : FieldRef}

theorem settled (h : Complete S g entries r) (hr : g.Reachable entries m)
    (hf : g.facts? m = some facts) : r.catalog.Settled S.host m facts := by
  obtain ⟨facts', hf', hset, -⟩ := h.explored.settled m ((h.walked_iff m).mpr hr)
  obtain rfl := Option.some.inj (hf.symm.trans hf')
  exact hset

/-- A registered field is declared as it is registered. -/
theorem declared (hh : S.host.Coherent) (h : Complete S g entries r) {d : ClassDescriptor}
    (hd : d ∈ r.catalog.classes) {f : Field} (hf : f ∈ d.fields) :
    S.host.declaredField d.hostName f.name = some f.declaration := by
  obtain ⟨id, hid⟩ := Catalog.mem_classes_iff.mp hd
  obtain ⟨-, -, access, -, -, -, hmeans⟩ := (h.explored.discovered.members id d hid).2 f hf
  rw [show f.name = access.name from hh.name_eq hmeans.2, hmeans.2]

/-- The field that an access of a reachable method means is registered. -/
theorem exists_field (hh : S.host.Coherent) (h : Complete S g entries r)
    (hr : g.Reachable entries m) (hf : g.facts? m = some facts) (ha : access ∈ facts.fields) :
    (r.catalog.lookup access.className).isSome ∧ ∃ d ∈ r.catalog.classes,
      ∃ f ∈ d.fields, S.host.Means access d.hostName f.declaration := by
  have hdisc := h.explored.discovered
  obtain ⟨through, owner, declaration, d, hl, hdecl, hd, hfield⟩ :=
    (h.settled hr hf).fields access ha
  have hmeans := Catalog.means_of_declaring? hh hdisc.mirrors hdisc.wellFormed hl hdecl hd
  obtain ⟨f, hmem, hname⟩ := ClassDescriptor.hasField_iff.mp hfield
  have hclass := Catalog.mem_classes_of_class? hd
  have hsame : f.declaration = declaration := by
    have hdeclared := h.declared hh hclass hmem
    rw [hname, hh.name_eq hmeans.2, hmeans.2] at hdeclared
    exact (Option.some.inj hdeclared).symm
  exact ⟨hl ▸ rfl, d, hclass, f, hmem, hsame ▸ hmeans⟩

/-- A type that a reachable method uses is in the catalog with all it is made of. -/
theorem contains (hh : S.host.Coherent) (h : Complete S g entries r)
    (hr : g.Reachable entries m) (hf : g.facts? m = some facts) {t : HostType}
    (hu : S.host.UsesType facts t) : r.catalog.Contains t := by
  refine h.explored.selfContained.contains t ?_ fun _ _ => trivial
  cases hu with
  | array ht harray =>
    exact Or.inl ((h.settled hr hf).arrays t ht t (HostType.mem_arrayLevels_self harray))
  | field ha hmeans =>
    obtain ⟨-, d, hd, f, hfield, hmeans'⟩ := h.exists_field hh hr hf ha
    obtain ⟨-, rfl⟩ := hmeans.unique hmeans'
    exact Or.inr ⟨d, hd, f, hfield, rfl⟩

/-- A class that a reachable method uses is registered. -/
theorem isSome_lookup (hh : S.host.Coherent) (h : Complete S g entries r)
    (hr : g.Reachable entries m) (hf : g.facts? m = some facts) {name : String}
    (hu : S.host.UsesClass m facts name) : (r.catalog.lookup name).isSome := by
  cases hu with
  | self =>
    obtain ⟨d, hd, hname, -⟩ := (h.settled hr hf).method
    obtain ⟨id, hid⟩ := Catalog.mem_classes_iff.mp hd
    rw [← hname, h.explored.discovered.wellFormed.lookup_hostName hid, Option.isSome_some]
  | access ha => exact (h.exists_field hh hr hf ha).1
  | type ht hname => exact (h.contains hh hr hf ht).className name hname

/-- The host serves every method that the entries lead to. -/
theorem sound (hh : S.host.Coherent) (hk : S.host.KnowsChains) (h : Complete S g entries r) :
    g.Sound S.host entries := by
  intro m hr
  obtain ⟨facts, hf, -⟩ := h.explored.settled m ((h.walked_iff m).mpr hr)
  have hdisc := h.explored.discovered
  refine ⟨facts, hf, fun name hu => ?_, fun access ha => ?_⟩
  · obtain ⟨above, habove, -⟩ :=
      hdisc.mirrors.chain hdisc.wellFormed (h.isSome_lookup hh hr hf hu)
    exact ⟨hk habove, above, habove⟩
  · obtain ⟨-, d, -, f, -, hmeans⟩ := h.exists_field hh hr hf ha
    exact ⟨_, _, hmeans⟩

/-! ## What the entries alone determine -/

/-- The registered classes are those that are needed. -/
theorem class_iff (hh : S.host.Coherent) (h : Complete S g entries r) (n : String) :
    (r.catalog.lookup n).isSome ↔ (Scope.needed S.host g entries).className n := by
  have hdisc := h.explored.discovered
  constructor
  · intro hl
    obtain ⟨id, hid⟩ := Option.isSome_iff_exists.mp hl
    obtain ⟨d, hd, rfl⟩ := hdisc.wellFormed.lookup_eq_some_iff.mp hid
    exact (hdisc.classes d (Catalog.mem_classes_of_class? hd)).1
  · rintro ⟨m, facts, name, above, hr, hf, hu, habove, hn⟩
    have hname := h.isSome_lookup hh hr hf hu
    obtain ⟨above', habove', hall⟩ := hdisc.mirrors.chain hdisc.wellFormed hname
    obtain rfl := Option.some.inj (habove.symm.trans habove')
    rcases List.mem_cons.mp hn with rfl | hn
    · exact hname
    · exact hall n hn

/-- The fields registered on a class are those that are needed. -/
theorem field_iff (hh : S.host.Coherent) (h : Complete S g entries r) {d : ClassDescriptor}
    (hd : d ∈ r.catalog.classes) (declaration : HostField) :
    (∃ f ∈ d.fields, f.declaration = declaration) ↔
      (Scope.needed S.host g entries).field d.hostName declaration := by
  have hdisc := h.explored.discovered
  obtain ⟨id, hid⟩ := Catalog.mem_classes_iff.mp hd
  constructor
  · rintro ⟨f, hf, rfl⟩
    exact (hdisc.members id d hid).2 f hf
  · rintro ⟨m, facts, access, hr, hf, ha, hmeans⟩
    obtain ⟨-, d', hd', f, hfield, hmeans'⟩ := h.exists_field hh hr hf ha
    obtain ⟨hname, rfl⟩ := hmeans.unique hmeans'
    obtain rfl : d = d' :=
      List.inj_on_of_nodup_map hdisc.wellFormed.names_nodup hd hd' hname
    exact ⟨f, hfield, rfl⟩

/-- The recorded array types are those that are needed. -/
theorem array_iff (hh : S.host.Coherent) (h : Complete S g entries r) (t : HostType) :
    t ∈ r.catalog.arrays ↔ (Scope.needed S.host g entries).array t := by
  constructor
  · exact h.explored.discovered.arrays.inside t
  · rintro ⟨m, facts, t', hr, hf, hu, hlevel⟩
    exact (h.contains hh hr hf hu).levels t hlevel

end Complete

end Registry

end DeviceLayout
