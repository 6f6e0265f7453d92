import DeviceLayout.Program.Model
import DeviceLayout.Proofs.History

/-!
# Walking again after a failure

A walk that failed leaves marks behind, and a walk that starts over passes marked methods over.
So a second walk that succeeds finds what its entries lead to on ways that do not go on from a
method marked before; of the methods the first walk marked, all but the last are settled
already (`Registry.walk_retry`). What the marked methods call may be missing from it, even if it
could not be walked the second time either (`Registry.walk_retry_gap`).

Walking the methods of a class, or their array types, happens once for a class, whether it
succeeds or not.
-/

open DeviceLayout.Action

namespace DeviceLayout

namespace Registry

variable {S : Setting} {g g' : CallGraph} {r r' : Registry} {id : ClassId} {d : ClassDescriptor}
  {entries : List MethodRef}

/-! ## Once for a class -/

theorem descriptor_run (h : r.catalog.class? id = some d) :
    (descriptor id).run r = ⟨.ok d, r, []⟩ := by
  rw [descriptor, run_get_bind, h]
  rfl

theorem descriptor_ensures (id : ClassId) (r : Registry) :
    (descriptor id).Ensures r fun res r' =>
      r' = r ∧ ∀ d, res = .ok d → r.catalog.class? id = some d := by
  refine .get_bind ?_
  split
  · refine .fail ⟨rfl, fun d hd => ?_⟩
    cases hd
  · next d h => exact .pure ⟨rfl, fun d' hd => Except.ok.inj hd ▸ h⟩

/-- A change of one descriptor. -/
theorem onClass_modify_run (h : r.catalog.class? id = some d)
    (f : ClassDescriptor → ClassDescriptor) :
    (onCatalog (Catalog.onClass id (.modify f))).run r =
      ⟨.ok (), { r with catalog := r.catalog.withDescriptor id (f d) }, []⟩ := by
  have hrun : (Catalog.onClass id (.modify f)).run r.catalog =
      ⟨.ok (), r.catalog.withDescriptor id (f d), []⟩ := by
    rw [Catalog.onClass, run_get_bind, h]
    rfl
  rw [onCatalog, onPart]
  simp only [hrun]

/-- What is done after a change of one descriptor leaves the class with a later state of the
changed descriptor. -/
theorem WellFormed.class?_after_change (hr : r.WellFormed S) (h : r.catalog.class? id = some d)
    {d' : ClassDescriptor} (hd : d.Change d') {α : Type} {x : Action Registry α}
    (hx : x.Keeps (Leads S)) :
    ∃ d'', (x.run { r with catalog := r.catalog.withDescriptor id d' }).state.catalog.class? id =
      some d'' ∧ d'.Extends d'' := by
  have hr' := hr.change (.catalog (.onClass h hd))
  exact (hr'.reaches (hx _ hr')).2.catalog.class? (Catalog.class?_withDescriptor_self h)

/-- The methods of a class are walked if they have not been, and the class is marked first. -/
theorem walkClass_run (h : r.catalog.class? id = some d) :
    (walkClass S g id).run r =
      if d.membersWalked then ⟨.ok {}, r, []⟩
      else (walk S g d.methods).run
        { r with catalog := r.catalog.withDescriptor id { d with membersWalked := true } } := by
  rw [walkClass, run_bind_of_ok (descriptor_run h)]
  split
  · rfl
  · rw [run_bind_of_ok (onClass_modify_run h _)]
    rfl

/-- The methods of a class count as walked from then on, whether walking them succeeded or not. -/
theorem exists_membersWalked (hr : r.WellFormed S) (h : r.catalog.class? id = some d) :
    ∃ d', ((walkClass S g id).run r).state.catalog.class? id = some d' ∧
      d'.membersWalked = true := by
  rw [walkClass_run h]
  split
  · next hw => exact ⟨d, h, hw⟩
  · obtain ⟨d', h', he⟩ := hr.class?_after_change h .walkMembers (walk_leads S g d.methods)
    exact ⟨d', h', he.membersWalked rfl⟩

/-- The methods of a class are walked once. -/
theorem walkClass_twice (hr : r.WellFormed S) (h : r.catalog.class? id = some d) :
    let r' := ((walkClass S g id).run r).state
    (walkClass S g' id).run r' = ⟨.ok {}, r', []⟩ := by
  intro r'
  obtain ⟨d', h', hw⟩ := exists_membersWalked (g := g) hr h
  rw [walkClass_run h', if_pos hw]

/-- The array types of the methods of a class are recorded if they have not been, and the class
is marked first. -/
theorem walkClassArrays_run (h : r.catalog.class? id = some d) :
    ∃ x : Action Registry Report, x.Keeps (Leads S) ∧ (walkClassArrays S g id).run r =
      if d.arraysWalked then ⟨.ok {}, r, []⟩
      else x.run
        { r with catalog := r.catalog.withDescriptor id { d with arraysWalked := true } } := by
  refine ⟨do
    let before ← Action.get
    recordArraysOf S g d.methods
    let after ← Action.get
    return {
      arrays := after.catalog.arrays.length - before.catalog.arrays.length
      classes := after.catalog.classes.length - before.catalog.classes.length }, ?_, ?_⟩
  · exact .bind .get fun _ => .bind (recordArraysOf_leads S g _) fun _ =>
      .bind .get fun _ => .pure _
  · rw [walkClassArrays, run_bind_of_ok (descriptor_run h)]
    split
    · rfl
    · rw [run_bind_of_ok (onClass_modify_run h _)]
      rfl

/-- Where the array types of the methods of a class were recorded, nothing is done. -/
theorem walkClassArrays_of_walked (h : r.catalog.class? id = some d) (hw : d.arraysWalked = true) :
    (walkClassArrays S g id).run r = ⟨.ok {}, r, []⟩ := by
  obtain ⟨x, -, hrun⟩ := walkClassArrays_run (S := S) (g := g) h
  rw [hrun, if_pos hw]

/-- The array types of the methods of a class count as recorded from then on, whether recording
them succeeded or not. -/
theorem exists_arraysWalked (hr : r.WellFormed S) (h : r.catalog.class? id = some d) :
    ∃ d', ((walkClassArrays S g id).run r).state.catalog.class? id = some d' ∧
      d'.arraysWalked = true := by
  obtain ⟨x, hx, hrun⟩ := walkClassArrays_run (S := S) (g := g) h
  rw [hrun]
  split
  · next hw => exact ⟨d, h, hw⟩
  · obtain ⟨d', h', he⟩ := hr.class?_after_change h .walkArrays hx
    exact ⟨d', h', he.arraysWalked rfl⟩

/-- The array types of the methods of a class are recorded once. -/
theorem walkClassArrays_twice (hr : r.WellFormed S) (h : r.catalog.class? id = some d) :
    let r' := ((walkClassArrays S g id).run r).state
    (walkClassArrays S g' id).run r' = ⟨.ok {}, r', []⟩ := by
  intro r'
  obtain ⟨d', h', hw⟩ := exists_arraysWalked (g := g) hr h
  exact walkClassArrays_of_walked h' hw

/-! ## Retries -/

/-- After a walk that failed, a walk from the same entries over a graph with at least the same
facts that succeeds has walked whatever the entries lead to on ways that do not go on from a
method marked before. What is new among the walked methods is settled, and its callees are walked.
Of the methods that the first walk marked, at most one is not settled. The methods of a class,
and their array types, are not walked again even if that failed. -/
theorem walk_retry (S : Setting) (history : List Request) {g g' : CallGraph}
    (hg : ∀ m facts, g.facts? m = some facts → g'.facts? m = some facts) :
    let r := after S history
    (∀ entries e report, ((walk S g entries).run r).result = .error e →
      let r₁ := ((walk S g entries).run r).state
      let r₂ := ((walk S g' entries).run r₁).state
      ((walk S g' entries).run r₁).result = .ok report →
      (∀ m, g'.ReachableAvoiding r₁.walked entries m → m ∈ r₂.walked) ∧
      (∀ m ∈ r₂.walked, m ∉ r₁.walked → ∃ facts, g'.facts? m = some facts ∧
        r₂.catalog.Settled S.host m facts ∧ ∀ n ∈ facts.calls, n ∈ r₂.walked) ∧
      ∃ done failed, r₁.walked = r.walked ++ done ++ failed ∧ failed.length ≤ 1 ∧
        (∀ m ∈ failed, r₂.catalog.HasMethod m) ∧
        ∀ m ∈ done, ∃ facts, g'.facts? m = some facts ∧ r₂.catalog.Settled S.host m facts) ∧
    (∀ id d, r.catalog.class? id = some d →
      let r₁ := ((walkClass S g id).run r).state
      (walkClass S g' id).run r₁ = ⟨.ok {}, r₁, []⟩) ∧
    ∀ id d, r.catalog.class? id = some d →
      let r₁ := ((walkClassArrays S g id).run r).state
      (walkClassArrays S g' id).run r₁ = ⟨.ok {}, r₁, []⟩ := by
  intro r
  have hr : r.WellFormed S := wellFormed_after S history
  refine ⟨?_, fun id d h => walkClass_twice hr h, fun id d h => walkClassArrays_twice hr h⟩
  intro entries e report _ r₁ r₂ hok
  obtain ⟨done, failed, h₁⟩ := expandAll_worked (Q := fun _ => True) entries r hr.catalog
    (closed_all S g r.catalog) fun _ _ => trivial
  have hr₁ : r₁.WellFormed S := (hr.reaches (walk_leads S g entries r hr)).1
  obtain ⟨done', failed', h₂⟩ := expandAll_worked (Q := fun _ => True) entries r₁ hr₁.catalog
    (closed_all S g' r₁.catalog) fun _ _ => trivial
  obtain ⟨found, hfound⟩ := (walk_isOk_iff g' entries r₁).mp ⟨report, hok⟩
  have hstate₁ : (expandAll S g entries r).state = r₁ := (walk_state g entries r).symm
  have hstate₂ : (expandAll S g' entries r₁).state = r₂ := (walk_state g' entries r₁).symm
  have hc₂ := hr₁.catalog.reaches h₂.explores.catalog.reaches
  have hext := h₂.explores.catalog.reaches.extends
  rw [hstate₂] at hc₂ hext
  have hexp := h₁.explores
  rw [hstate₁] at hexp
  refine ⟨fun m hm => hstate₂ ▸ h₂.mem_walked hfound hm, fun m hm hnew => ?_, ?_⟩
  · rw [← hstate₂] at hm ⊢
    exact h₂.settled_of_ok hfound hm hnew
  · refine ⟨done, failed, ?_, h₁.failed_le, fun m hm => ?_, fun m hm => ?_⟩
    · rw [hexp.walked_eq, List.append_assoc]
    · exact hext.hasMethod (hexp.registered m (List.mem_append_right _ hm))
    · obtain ⟨facts, hf, hset⟩ := h₁.settled m hm
      rw [hstate₁] at hset
      exact ⟨facts, hg m facts hf, hext.settled hr₁.catalog hc₂ hset⟩

end Registry

/-- A class with a field, and a method that calls a method without facts. -/
def Program.gap : Program where
  classes := [("A", ⟨none, [⟨"x", .primitive .int, false⟩]⟩)]
  graph := ⟨[(⟨"A", "f()"⟩, { calls := [⟨"A", "h()"⟩] })]⟩

/-- The same methods, and the facts that were missing. -/
def Program.filled : CallGraph :=
  ⟨Program.gap.graph.entries ++ [(⟨"A", "h()"⟩, { fields := [⟨"A", "x"⟩] })]⟩

theorem Program.facts?_filled {m : MethodRef} {facts : MethodFacts}
    (h : Program.gap.graph.facts? m = some facts) : Program.filled.facts? m = some facts := by
  obtain ⟨e, he, rfl⟩ := Option.map_eq_some_iff.mp h
  rw [CallGraph.facts?, Program.filled, List.find?_append, he]
  rfl

namespace Registry

/-- The walk from `A.h` fails for want of facts, and settles it when the facts are there. -/
theorem walk_retry_filled :
    let S : Setting := ⟨Program.gap.host, {}⟩
    let h : MethodRef := ⟨"A", "h()"⟩
    let r₁ := ((walk S Program.gap.graph [h]).run {}).state
    let r₂ := ((walk S Program.filled [h]).run r₁).state
    ((walk S Program.gap.graph [h]).run {}).result = .error (.unknownMethod h) ∧
      (∃ report, ((walk S Program.filled [h]).run r₁).result = .ok report) ∧
      h ∈ r₂.walked ∧ ∃ facts, Program.filled.facts? h = some facts ∧
        r₂.catalog.Settled S.host h facts ∧ ∀ n ∈ facts.calls, n ∈ r₂.walked := by
  intro S h r₁ r₂
  have hfirst : expandAll S Program.gap.graph [h] {} = ⟨.error (.unknownMethod h), {}, []⟩ :=
    expandAll_of_within (n := 1) rfl
  have hr₁ : r₁ = {} := by rw [show r₁ = _ from walk_state _ _ _, hfirst]
  have herr : ((walk S Program.gap.graph [h]).run {}).result = .error (.unknownMethod h) :=
    walk_result_of_error (by rw [hfirst])
  have hsecond :
      (expandAllWithin S Program.filled 2 [h] {}).map (·.result) = some (.ok (1, 1)) := by
    decide +kernel
  obtain ⟨o, ho, hresult⟩ := Option.map_eq_some_iff.mp hsecond
  obtain ⟨report, hok⟩ : ∃ report, ((walk S Program.filled [h]).run r₁).result = .ok report :=
    (walk_isOk_iff _ _ _).mpr ⟨(1, 1), hr₁ ▸ expandAll_of_within ho ▸ hresult⟩
  obtain ⟨hretry, -⟩ := walk_retry S [] (g := Program.gap.graph) (fun _ _ => Program.facts?_filled)
  obtain ⟨hwalked, hsettled, -⟩ := hretry [h] _ _ herr hok
  have hmem : h ∈ r₂.walked := hwalked h (.entry (List.mem_singleton_self h))
  refine ⟨herr, ⟨report, hok⟩, hmem, hsettled h hmem ?_⟩
  show h ∉ r₁.walked
  rw [hr₁]
  exact List.not_mem_nil

/-- A walk over the gap fails for want of the facts of a callee. The same walk over the same gap
then succeeds, though the facts are still missing and the callee is not walked : the caller was
marked before its callees were looked at, and is passed over. -/
theorem walk_retry_gap :
    let S : Setting := ⟨Program.gap.host, {}⟩
    let g := Program.gap.graph
    let f : MethodRef := ⟨"A", "f()"⟩
    let h : MethodRef := ⟨"A", "h()"⟩
    let r₁ := ((walk S g [f]).run {}).state
    ((walk S g [f]).run {}).result = .error (.unknownMethod h) ∧
      (∃ report, ((walk S g [f]).run r₁).result = .ok report) ∧ g.Reachable [f] h ∧
      h ∉ ((walk S g [f]).run r₁).state.walked := by
  intro S g f h r₁
  let marked : Registry :=
    { catalog := { classes := [{ id := ⟨0⟩, hostName := "A", methods := [f] }] }, walked := [f] }
  have hfirst : (expandAllWithin S g 2 [f] {}).map (fun o => (o.result, o.state)) =
      some (.error (.unknownMethod h), marked) := by decide +kernel
  obtain ⟨o, ho, hend⟩ := Option.map_eq_some_iff.mp hfirst
  obtain ⟨hresult, hstate⟩ := Prod.mk.inj hend
  have hr₁ : r₁ = marked := by
    rw [show r₁ = _ from walk_state g [f] {}, expandAll_of_within ho, hstate]
  have hsecond : expandAll S g [f] marked = ⟨.ok (0, 0), marked, []⟩ :=
    expandAll_of_within (n := 1) rfl
  refine ⟨walk_result_of_error (expandAll_of_within ho ▸ hresult), ?_, ?_, ?_⟩
  · rw [hr₁]
    exact (walk_isOk_iff g [f] marked).mpr ⟨(0, 0), by rw [hsecond]⟩
  · exact .call (.entry (List.mem_singleton_self f)) ⟨_, rfl, List.mem_singleton_self h⟩
  · rw [hr₁, walk_state, hsecond]
    decide

end Registry

end DeviceLayout
