import DeviceLayout.Proofs.Reachability.Sweep
import DeviceLayout.Proofs.Reachability.Universe

/-!
# Reports are exact

A walk counts methods and fields where it adds them, and takes array types and classes as the
difference between the end and the beginning. Both come to the same. Discovery takes nothing away,
so the differences are not cut off at 0. And without fields in its scope it leaves their number
as it is (`Catalog.Discovery.fieldCount_eq`), so a field access adds the field that it answers to
be new and no other, whatever else its type brings in (`Catalog.registerField_counts`).

An action reports if what it answers is by how much it lets the counts of a registry grow
(`Registry.Reports`). Reports that are put together add up, so a sweep counts nothing twice,
although each walk of a class starts a count of its own (`Registry.walkFrom_reports`).
-/

open DeviceLayout.Action

namespace DeviceLayout

/-! ## Reports add up -/

namespace Report

theorem merge_assoc (r s t : Report) : (r.merge s).merge t = r.merge (s.merge t) := by
  simp only [merge, Nat.add_assoc]

theorem merge_eq_self_iff {r s : Report} : r.merge s = r ↔ s = {} := by
  cases r
  cases s
  simp [merge]

theorem isEmpty_iff {r : Report} : r.isEmpty = true ↔ r = {} :=
  decide_eq_true_iff

end Report

/-! ## The fields of a catalog -/

/-- Everything but fields may be added. -/
def Scope.noFields : Scope :=
  { Scope.all with field := fun _ _ => False }

theorem Scope.noFields_admitsClass (S : Setting) (name : String) : noFields.AdmitsClass S name :=
  fun _ _ _ _ => trivial

theorem Scope.noFields_admitsType (S : Setting) (t : HostType) : noFields.AdmitsType S t :=
  ⟨fun name _ => noFields_admitsClass S name, fun _ _ => trivial⟩

/-- Another element in place of one brings its own entries in place of the old ones. -/
theorem length_flatMap_set {α β : Type} {f : α → List β} {a b : α} :
    ∀ {l : List α} {i : ℕ}, l[i]? = some a →
      ((l.set i b).flatMap f).length + (f a).length = (l.flatMap f).length + (f b).length
  | x :: rest, 0, h => by
    obtain rfl := Option.some.inj h
    simp only [List.set_cons_zero, List.flatMap_cons, List.length_append]
    omega
  | x :: rest, i + 1, h => by
    have hrest := length_flatMap_set (f := f) (b := b) (l := rest) h
    simp only [List.set_cons_succ, List.flatMap_cons, List.length_append]
    omega

namespace Catalog

variable {S : Setting} {c c' : Catalog} {id : ClassId} {d d' : ClassDescriptor}

theorem fieldCount_withDescriptor (h : c.class? id = some d) (d' : ClassDescriptor) :
    (c.withDescriptor id d').fieldCount + d.fields.length = c.fieldCount + d'.fields.length :=
  length_flatMap_set h

theorem fieldCount_withDescriptor_of_eq (h : c.class? id = some d)
    (hfields : d'.fields = d.fields) : (c.withDescriptor id d').fieldCount = c.fieldCount := by
  have hcount := fieldCount_withDescriptor h d'
  rw [hfields] at hcount
  exact Nat.add_right_cancel hcount

/-- Where no field may be added, none is. -/
theorem Discovery.fieldCount_eq (h : c.Discovery S .noFields c') :
    c'.fieldCount = c.fieldCount := by
  induction h with
  | refl => rfl
  | tail _ hstep ih =>
    rw [← ih]
    cases hstep with
    | newClass hA hnew hfits => simp [fieldCount, withClass]
    | addMethod hA h hname hnew => exact fieldCount_withDescriptor_of_eq h rfl
    | addField hA h hnew hopen => exact hA.elim
    | addArrays hA => rfl

/-- Registering a field on a class adds one if it is answered to be new, and else none. -/
theorem onClass_addField_counts (h : c.class? id = some d) (f : HostField) :
    (onClass id (ClassDescriptor.addField f)).Answers c fun b c' =>
      c'.fieldCount = c.fieldCount + b.toNat := by
  refine .get_bind ?_
  rw [h]
  refine .onPart (.get_bind ?_)
  split
  · exact .pure (congrArg fieldCount (withDescriptor_self h))
  · split
    · exact .fail _
    · refine .modify_bind (.pure ?_)
      have hcount := fieldCount_withDescriptor h { d with fields := d.fields ++ [⟨d.id, f⟩] }
      rw [List.length_append, List.length_singleton] at hcount
      show (c.withDescriptor id _).fieldCount = c.fieldCount + 1
      omega

/-- A field access adds one field if it is answered to be new, and else none. -/
theorem registerField_counts (hc : c.WellFormed) (access : FieldRef) :
    (registerField S access).Answers c fun b c' => c'.fieldCount = c.fieldCount + b.toNat := by
  refine (classFor_ensures hc (Scope.noFields_admitsClass S _)).answers.bind ?_
  rintro through c₁ ⟨hd₁, hl⟩
  have hc₁ := hc.reaches hd₁.reaches
  obtain ⟨q, hq, -⟩ := hc₁.lookup_eq_some_iff.mp hl
  refine .get_bind ?_
  split
  · exact .fail _
  · next owner declaration hdecl =>
    obtain ⟨d, h, -⟩ := hc₁.class?_of_declaring? hq hdecl
    refine ((onClass_addField_counts h declaration).and
      (onClass_addField_ensures (S := S) (A := .all) h trivial).answers).bind ?_
    rintro added c₂ ⟨hcount, hd₂, -⟩
    have hc₂ := hc₁.reaches hd₂.reaches
    rw [hd₁.fieldCount_eq] at hcount
    split
    · next hold =>
      refine .pure ?_
      rw [hcount, show added = false by simpa using hold]
    · next hnew =>
      have htype := Scope.noFields_admitsType S declaration.type
      refine (bringIn_ensures hc₂ htype.1).answers.bind ?_
      rintro - c₃ ⟨hd₃, -⟩
      refine (recordArray_ensures (hc₂.reaches hd₃.reaches) fun _ => htype).answers.bind ?_
      rintro n c₄ ⟨hd₄, -⟩
      refine .pure ?_
      rw [hd₄.fieldCount_eq, hd₃.fieldCount_eq, hcount, show added = true by simpa using hnew]

theorem registerFields_counts :
    ∀ (accesses : List FieldRef) {c : Catalog}, c.WellFormed →
      (registerFields S accesses).Answers c fun n c' => c'.fieldCount = c.fieldCount + n
  | [], _, _ => .pure rfl
  | access :: rest, c, hc => by
    refine ((registerField_counts hc access).and
      (registerField_ensures hc (Scope.all_admitsAccess S c access)).answers).bind ?_
    rintro added c₁ ⟨hcount, hd₁, -⟩
    refine (registerFields_counts rest (hc.reaches hd₁.reaches)).bind fun more c₂ hrest => .pure ?_
    rw [hrest, hcount, Nat.add_assoc]

end Catalog

namespace Registry

variable {S : Setting} {g : CallGraph} {r r' : Registry} {id : ClassId} {d d' : ClassDescriptor}
  {m : MethodRef} {facts : MethodFacts}

/-! ## The counts of a registry -/

/-- How much a registry holds of what reports count. -/
def counts (r : Registry) : Report where
  methods := r.walked.length
  fields := r.catalog.fieldCount
  arrays := r.catalog.arrays.length
  classes := r.catalog.classes.length

/-- Flags are not counted. -/
theorem counts_flags (h : r.catalog.class? id = some d) (hf : d.Flags d') :
    { r with catalog := r.catalog.withDescriptor id d' }.counts = r.counts := by
  have hfields : d'.fields = d.fields := by cases hf <;> rfl
  simp only [counts, Catalog.fieldCount_withDescriptor_of_eq h hfields]
  simp only [Catalog.withDescriptor, List.length_set]

/-- A later state holds as much more array types and classes as the differences say. -/
theorem counts_of_extends (h : r.catalog.Extends r'.catalog) {methods fields : ℕ}
    (hmethods : r'.walked.length = r.walked.length + methods)
    (hfields : r'.catalog.fieldCount = r.catalog.fieldCount + fields) :
    r'.counts = r.counts.merge
      { methods, fields
        arrays := r'.catalog.arrays.length - r.catalog.arrays.length
        classes := r'.catalog.classes.length - r.catalog.classes.length } := by
  have harrays := h.arrays_prefix.length_le
  have hclasses := h.length_classes_le
  simp only [counts, Report.merge, hmethods, hfields, Nat.add_sub_cancel' harrays,
    Nat.add_sub_cancel' hclasses]

/-- Of what a method uses, the fields are counted. -/
theorem collect_counts {c : Catalog} (hc : c.WellFormed) :
    (collect S facts).Answers c fun n c' => c'.fieldCount = c.fieldCount + n := by
  refine ((Catalog.registerFields_counts facts.fields hc).and (Catalog.registerFields_ensures hc
    fun access _ => Scope.all_admitsAccess S c access).answers).bind ?_
  rintro n c₁ ⟨hcount, hd₁, -⟩
  refine (Catalog.recordArrays_ensures (hc.reaches hd₁.reaches)
    fun t _ _ => Scope.noFields_admitsType S t).answers.bind ?_
  rintro - c₂ ⟨hd₂, -⟩
  refine .pure ?_
  rw [hd₂.fieldCount_eq, hcount]

/-- Expanding a method marks one method, and adds the fields that are answered. -/
theorem expand_counts (hc : r.catalog.WellFormed) :
    (expand S m facts).Answers r fun n r' =>
      r'.walked.length = r.walked.length + 1 ∧
        r'.catalog.fieldCount = r.catalog.fieldCount + n := by
  refine .bind (Q := fun _ r' => r'.walked = r.walked ∧
    r.catalog.Discovery S .noFields r'.catalog) ?_ ?_
  · refine .onPart ((Catalog.registerMethod_ensures hc (Scope.noFields_admitsClass S _)
      trivial).answers.mono ?_)
    exact fun b c' hd => ⟨rfl, hd.1⟩
  · rintro b r₁ ⟨hwalked, hd₁⟩
    refine .modify_bind (.tell_bind (.onPart ?_))
    refine (collect_counts (hc.reaches hd₁.reaches)).mono fun n c' hcount => ⟨?_, ?_⟩
    · show (r₁.walked ++ [m]).length = r.walked.length + 1
      rw [hwalked, List.length_append, List.length_singleton]
    · rw [← hd₁.fieldCount_eq]
      exact hcount

/-- Working off a queue counts the methods it marks and the fields it adds. -/
theorem expandAll_counts (queue : List MethodRef) (r : Registry) (hc : r.catalog.WellFormed) :
    ∀ found, (expandAll S g queue r).result = .ok found →
      let r' := (expandAll S g queue r).state
      r'.walked.length = r.walked.length + found.1 ∧
        r'.catalog.fieldCount = r.catalog.fieldCount + found.2 := by
  fun_induction expandAll S g queue r with
  | case1 r =>
    rintro found h
    obtain rfl := Except.ok.inj h
    exact ⟨rfl, rfl⟩
  | case2 r m rest hw ih => exact ih hc
  | case3 r m rest hw hf =>
    intro found h
    cases h
  | case4 r m rest hw facts hf e he =>
    intro found h
    cases h
  | case5 r m rest hw facts hf n he o more ih =>
    intro found h
    obtain ⟨hexp, -⟩ := (expand_ensures hc (Scope.all_admitsMethod S r.catalog m facts)).2 n he
    obtain ⟨hmethod, hfields⟩ := expand_counts hc n he
    obtain ⟨found', h', rfl⟩ := Outcome.result_map_after_eq_ok.mp h
    obtain ⟨hmethods, hmore⟩ := ih (hc.reaches hexp.catalog.reaches) found' h'
    constructor
    · show (expandAll S g (rest ++ more) o.state).state.walked.length = _
      rw [hmethods, hmethod, Nat.add_assoc, Nat.add_comm 1]
    · show (expandAll S g (rest ++ more) o.state).state.catalog.fieldCount = _
      rw [hmore, hfields, Nat.add_assoc, Nat.add_comm n]

/-! ## Walks -/

/-- What the action answers is by how much it lets the counts of a registry grow. -/
def Reports (S : Setting) (x : Action Registry Report) : Prop :=
  ∀ r, r.WellFormed S → x.Answers r fun report r' => r'.counts = r.counts.merge report

theorem walk_reports (S : Setting) (g : CallGraph) (entries : List MethodRef) :
    Reports S (walk S g entries) := by
  intro r hr report hok
  obtain ⟨found, hfound⟩ := (walk_isOk_iff g entries r).mp ⟨report, hok⟩
  obtain ⟨hmethods, hfields⟩ := expandAll_counts entries r hr.catalog found hfound
  have hext := (hr.reaches (walk_leads S g entries r hr)).2.catalog
  rw [walk_state] at hext ⊢
  obtain rfl := Except.ok.inj ((walk_result_of_ok hfound).symm.trans hok)
  exact counts_of_extends hext hmethods hfields

/-- What is done once for a class reports, as its flag is not counted. -/
theorem reports_once {flag : ClassDescriptor → Bool} {mark : ClassDescriptor → ClassDescriptor}
    (hmark : ∀ d : ClassDescriptor, d.Flags (mark d)) {x : ClassDescriptor → Action Registry Report}
    (hx : ∀ d, Reports S (x d)) (id : ClassId) :
    Reports S (do
      let d ← descriptor id
      if flag d then return {}
      onCatalog (Catalog.onClass id (.modify mark))
      x d) := by
  intro r hr
  refine (descriptor_ensures id r).answers.bind ?_
  rintro d r ⟨rfl, hd⟩
  have h := hd d rfl
  split
  · exact .pure rfl
  · refine .bind (Q := fun _ r' => r' = { r with catalog := r.catalog.withDescriptor id (mark d) })
      (fun _ _ => congrArg Outcome.state (onClass_modify_run h mark)) ?_
    rintro _ _ rfl
    rw [← counts_flags h (hmark d)]
    exact hx d _ (hr.change (.catalog (.onClass h (hmark d).change)))

theorem walkClass_reports (S : Setting) (g : CallGraph) (id : ClassId) :
    Reports S (walkClass S g id) :=
  reports_once (fun _ => .members) (fun d => walk_reports S g d.methods) id

/-- Recording array types marks nothing and adds no fields. -/
theorem recordArraysOf_explores (S : Setting) (g : CallGraph) :
    ∀ (ms : List MethodRef) {r : Registry}, r.catalog.WellFormed →
      (recordArraysOf S g ms).Answers r fun _ r' => Explores S .noFields r r' []
  | [], r, _ => .pure (.refl r)
  | m :: rest, r, hc => by
    unfold recordArraysOf
    split
    · exact .fail _
    · next facts hf =>
      have harrays := Catalog.recordArrays_ensures hc fun t (_ : t ∈ facts.arrays) _ =>
        Scope.noFields_admitsType S t
      refine .bind (Q := fun _ r' => Explores S .noFields r r' [])
        (.onPart (harrays.answers.mono fun _ c' hd => .of_catalog hd.1)) ?_
      intro _ r₁ h₁
      refine (recordArraysOf_explores S g rest (hc.reaches h₁.catalog.reaches)).mono ?_
      exact fun _ r₂ h₂ => h₁.trans h₂

theorem walkClassArrays_reports (S : Setting) (g : CallGraph) (id : ClassId) :
    Reports S (walkClassArrays S g id) := by
  refine reports_once (fun _ => .arrays) (fun d r hr => ?_) id
  refine .get_bind ((recordArraysOf_explores S g d.methods hr.catalog).bind fun _ r' hexp => ?_)
  refine .get_bind (.pure ?_)
  have hwalked : r'.walked.length = r.walked.length := by rw [hexp.walked_eq, List.append_nil]
  exact counts_of_extends hexp.catalog.reaches.extends hwalked hexp.catalog.fieldCount_eq

/-- Two reports are put together as one action is put behind the other. -/
theorem walkWhole_reports (S : Setting) (g : CallGraph) (id : ClassId) :
    Reports S (walkWhole S g id) := by
  intro r hr
  have hleads : (walkClass S g id).Answers r fun _ r' => Reaches S r r' :=
    fun _ _ => walkClass_leads S g id r hr
  refine ((walkClass_reports S g id r hr).and hleads).bind ?_
  rintro members r₁ ⟨hmembers, hreaches⟩
  refine (walkClassArrays_reports S g id r₁ (hr.reaches hreaches).1).bind ?_
  intro arrays r₂ harrays
  refine .pure ?_
  rw [harrays, hmembers, Report.merge_assoc]

/-- The reports on the classes of a sweep add up. -/
theorem walkFrom_reports (g : CallGraph) (next : Nat) (hr : r.WellFormed S) :
    ∀ report, (walkFrom S g next r).result = .ok report →
      (walkFrom S g next r).state.counts = r.counts.merge report := by
  fun_induction walkFrom S g next r with
  | case1 next r hn e he =>
    intro report h
    cases h
  | case2 next r hn found hw o ih =>
    intro report h
    obtain ⟨rest, hrest, rfl⟩ := Outcome.result_map_after_eq_ok.mp h
    have hfound : o.state.counts = r.counts.merge found :=
      walkWhole_reports S g ⟨next⟩ r hr found hw
    show (walkFrom S g (next + 1) o.state).state.counts = _
    rw [ih (hr.reaches (walkWhole_leads S g ⟨next⟩ r hr)).1 rest hrest, hfound, Report.merge_assoc]
  | case3 next r hn =>
    rintro report h
    obtain rfl := Except.ok.inj h
    rfl

/-! ## All walks -/

/-- The walks over a graph. -/
inductive IsWalk (S : Setting) (g : CallGraph) : Action Registry Report → Prop
  | walk (entries : List MethodRef) : IsWalk S g (walk S g entries)
  | walkClass (id : ClassId) : IsWalk S g (walkClass S g id)
  | walkClassArrays (id : ClassId) : IsWalk S g (walkClassArrays S g id)
  | walkAll : IsWalk S g (walkAll S g)

theorem IsWalk.reports {x : Action Registry Report} (h : IsWalk S g x) : Reports S x := by
  cases h with
  | walk entries => exact walk_reports S g entries
  | walkClass id => exact walkClass_reports S g id
  | walkClassArrays id => exact walkClassArrays_reports S g id
  | walkAll => exact fun r hr => walkFrom_reports g 0 hr

/-- A walk that succeeds reports by how much each count has grown, and reports nothing if and only
if none has. -/
theorem reports_exact (S : Setting) (history : List Request) (g : CallGraph)
    {x : Action Registry Report} (hx : IsWalk S g x) {report : Report}
    (hok : (x.run (after S history)).result = .ok report) :
    let r := after S history
    let r' := (x.run r).state
    r'.walked.length = r.walked.length + report.methods ∧
      r'.catalog.fieldCount = r.catalog.fieldCount + report.fields ∧
      r'.catalog.arrays.length = r.catalog.arrays.length + report.arrays ∧
      r'.catalog.classes.length = r.catalog.classes.length + report.classes ∧
      (report.isEmpty = true ↔ r'.counts = r.counts) := by
  intro r r'
  have hcounts : r'.counts = r.counts.merge report :=
    hx.reports r (wellFormed_after S history) report hok
  refine ⟨congrArg Report.methods hcounts, congrArg Report.fields hcounts,
    congrArg Report.arrays hcounts, congrArg Report.classes hcounts, ?_⟩
  rw [Report.isEmpty_iff, hcounts, Report.merge_eq_self_iff]

/-- The walk from `M.f`, where `A` is there already, comes to two fields, to two levels of one array
type and to the type of a field, and to six classes, half of them on account of these types. -/
theorem reports_exact_routes :
    let S : Setting := ⟨Program.routes.host, {}⟩
    let r := after S [.classFor "A"]
    let o := (walk S Program.routes.graph [⟨"M", "f()"⟩]).run r
    r.counts = ⟨0, 0, 0, 1⟩ ∧ o.state.counts = ⟨2, 2, 3, 7⟩ ∧
      ∃ report, o.result = .ok report ∧ report.methods = 2 ∧ report.fields = 2 ∧
        report.arrays = 3 ∧ report.classes = 6 := by
  intro S r o
  have hrun : (expandAllWithin S Program.routes.graph 4 [⟨"M", "f()"⟩] r).map (fun o =>
      (o.result, o.state.counts)) = some (.ok (2, 2), ⟨2, 2, 3, 7⟩) := by decide +kernel
  obtain ⟨o', ho', hend⟩ := Option.map_eq_some_iff.mp hrun
  obtain ⟨hresult, hcounts⟩ := Prod.mk.inj hend
  have hall := expandAll_of_within ho'
  have hstate : o.state = o'.state := (walk_state _ _ _).trans (congrArg Outcome.state hall)
  obtain ⟨report, hok⟩ : ∃ report, o.result = .ok report :=
    (walk_isOk_iff _ _ _).mpr ⟨(2, 2), hall ▸ hresult⟩
  have hbefore : r.counts = ⟨0, 0, 0, 1⟩ := by decide +kernel
  have hafter : o.state.counts = ⟨2, 2, 3, 7⟩ := hstate ▸ hcounts
  have hexact := reports_exact S [.classFor "A"] _ (.walk [⟨"M", "f()"⟩]) hok
  have hmethods : o.state.counts.methods = r.counts.methods + report.methods := hexact.1
  have hfields : o.state.counts.fields = r.counts.fields + report.fields := hexact.2.1
  have harrays : o.state.counts.arrays = r.counts.arrays + report.arrays := hexact.2.2.1
  have hclasses : o.state.counts.classes = r.counts.classes + report.classes := hexact.2.2.2.1
  rw [hbefore, hafter] at hmethods hfields harrays hclasses
  dsimp only at hmethods hfields harrays hclasses
  exact ⟨hbefore, hafter, report, hok, by omega, by omega, by omega, by omega⟩

end Registry

end DeviceLayout
