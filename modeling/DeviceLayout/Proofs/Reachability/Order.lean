import DeviceLayout.Proofs.Reachability.Explored
import DeviceLayout.Proofs.Table.Alike

/-!
# The order of entries does not matter

Entries may be walked in groups, one walk after another (`Registry.walkEach`). All walks succeed
if and only if the host serves every method that any of the entries leads to
(`Registry.walkEach_isOk_iff`), so whether they do depends on the set of the entries alone. What
the walks leave behind is then what these entries need (`Registry.walkEach_complete`).

Two registries that hold what the same entries need have catalogs that are alike
(`Registry.Complete.alike`). So finalizing succeeds for both or for neither, and the tables list the
same entries (`Registry.finalize_of_alike`).
-/

open DeviceLayout.Action

namespace DeviceLayout

/-! ## The same entries in another order -/

section

variable {g : CallGraph} {host : Host} {entries entries' : List MethodRef}

theorem CallGraph.Reachable.of_subset (hsub : ∀ m ∈ entries, m ∈ entries') {m : MethodRef}
    (h : g.Reachable entries m) : g.Reachable entries' m := by
  induction h with
  | entry h => exact .entry (hsub _ h)
  | call _ h ih => exact ih.call h

theorem CallGraph.reachable_congr (hsame : ∀ m, m ∈ entries ↔ m ∈ entries') :
    g.Reachable entries = g.Reachable entries' :=
  funext fun _ => propext ⟨fun h => h.of_subset fun m => (hsame m).mp,
    fun h => h.of_subset fun m => (hsame m).mpr⟩

theorem CallGraph.sound_congr (hsame : ∀ m, m ∈ entries ↔ m ∈ entries') :
    g.Sound host entries ↔ g.Sound host entries' := by
  rw [Sound, Sound, reachable_congr hsame]

theorem Scope.needed_congr (hsame : ∀ m, m ∈ entries ↔ m ∈ entries') :
    needed host g entries = needed host g entries' := by
  rw [needed, needed, CallGraph.reachable_congr hsame]

end

/-! ## Catalogs with the same contents -/

namespace Catalog

variable {c : Catalog} {host : Host} {id : ClassId} {d : ClassDescriptor}

/-- The parent of a class is the first class of the host's chain. -/
theorem Mirrors.parentName?_eq (hm : c.Mirrors host) (hc : c.WellFormed)
    (hd : c.class? id = some d) :
    c.parentName? d = (host.ancestors d.hostName).bind List.head? := by
  obtain ⟨ancestors, hanc, hall, hparent⟩ := hm _ _ hd
  rw [hanc, Option.bind_some]
  cases ancestors with
  | nil => exact parentName?_of_root hparent
  | cons a rest =>
    obtain ⟨i, hi⟩ := Option.isSome_iff_exists.mp (hall a (List.mem_cons_self ..))
    obtain ⟨q, hq, rfl⟩ := hc.lookup_eq_some_iff.mp hi
    rw [List.head?_cons, Option.bind_some, hi] at hparent
    exact parentName?_of_parent hparent hq

theorem parentName?_classified (c : Catalog) (d : ClassDescriptor) :
    c.classified.parentName? d.freeze = c.parentName? d := by
  rw [parentName?, parentName?, show d.freeze.parent = d.parent from rfl]
  cases d.parent with
  | none => rfl
  | some parent =>
    rw [Option.bind_some, Option.bind_some, class?_classified, Option.map_map]
    rfl

/-- Catalogs that are alike are alike when their classes are classified. -/
theorem Alike.classified {c' : Catalog} (h : c.Alike c') : c.classified.Alike c'.classified where
  lookup_iff name := by
    rw [lookup_classified, lookup_classified]
    exact h.lookup_iff name
  classes d hd d' hd' hn := by
    obtain ⟨q, hq, rfl⟩ := List.mem_map.mp hd
    obtain ⟨q', hq', rfl⟩ := List.mem_map.mp hd'
    obtain ⟨hsame, hparent⟩ := h.classes q hq q' hq' hn
    rw [parentName?_classified, parentName?_classified]
    exact ⟨{ hsame with frozen_eq := rfl }, hparent⟩
  arrays := h.arrays

end Catalog

namespace Registry

variable {S : Setting} {g : CallGraph} {entries entries' group : List MethodRef}
  {groups : List (List MethodRef)} {r r' : Registry}

theorem Complete.congr (h : Complete S g entries r) (hsame : ∀ m, m ∈ entries ↔ m ∈ entries') :
    Complete S g entries' r where
  explored := Scope.needed_congr hsame ▸ h.explored
  walked_iff m := by rw [h.walked_iff, CallGraph.reachable_congr hsame]

/-- What the same entries need is the same classes, fields and array types. -/
theorem Complete.alike (hh : S.host.Coherent) (h : Complete S g entries r)
    (h' : Complete S g entries r') : r.catalog.Alike r'.catalog := by
  have hdisc := h.explored.discovered
  have hdisc' := h'.explored.discovered
  constructor
  case lookup_iff => exact fun name => (h.class_iff hh name).trans (h'.class_iff hh name).symm
  case arrays =>
    refine (List.perm_ext_iff_of_nodup hdisc.arrays.nodup hdisc'.arrays.nodup).mpr fun t => ?_
    exact (h.array_iff hh t).trans (h'.array_iff hh t).symm
  case classes =>
    intro d hd d' hd' hn
    obtain ⟨id, hid⟩ := Catalog.mem_classes_iff.mp hd
    obtain ⟨id', hid'⟩ := Catalog.mem_classes_iff.mp hd'
    obtain ⟨-, hpacking, hfrozen⟩ := hdisc.classes d hd
    obtain ⟨-, hpacking', hfrozen'⟩ := hdisc'.classes d' hd'
    have hnodup := (hdisc.wellFormed.descriptor hid).declarations_nodup
    have hnodup' := (hdisc'.wellFormed.descriptor hid').declarations_nodup
    refine ⟨⟨hn, hpacking'.trans hpacking.symm, hfrozen'.trans hfrozen.symm, ?_⟩, ?_⟩
    · refine (List.perm_ext_iff_of_nodup hnodup hnodup').mpr fun declaration => ?_
      rw [List.mem_map, List.mem_map, h.field_iff hh hd, h'.field_iff hh hd', hn]
    · rw [hdisc.mirrors.parentName?_eq hdisc.wellFormed hid,
        hdisc'.mirrors.parentName?_eq hdisc'.wellFormed hid', hn]

/-! ## Walks one after another -/

/-- Walk from each group of entries in turn. The first walk that fails ends it. -/
def walkEach (S : Setting) (g : CallGraph) : List (List MethodRef) → Action Registry (List Report)
  | [] => return []
  | group :: rest => do
    let report ← walk S g group
    let reports ← walkEach S g rest
    return report :: reports

theorem walkEach_leads (S : Setting) (g : CallGraph) :
    ∀ groups : List (List MethodRef), (walkEach S g groups).Keeps (Leads S)
  | [] => .pure _
  | group :: rest =>
    .bind (walk_leads S g group) fun _ => .bind (walkEach_leads S g rest) fun _ => .pure _

/-- All walks succeed if the first does, and the others from where it ends. -/
theorem walkEach_cons_isOk_iff :
    (∃ reports, ((walkEach S g (group :: groups)).run r).result = .ok reports) ↔
      (∃ found, (expandAll S g group r).result = .ok found) ∧
        ∃ reports, ((walkEach S g groups).run (expandAll S g group r).state).result =
          .ok reports := by
  rw [← walk_isOk_iff, ← walk_state]
  constructor
  · rintro ⟨reports, h⟩
    obtain ⟨report, hwalk, h⟩ := result_bind_eq_ok.mp h
    obtain ⟨reports', hrest, -⟩ := result_bind_eq_ok.mp h
    exact ⟨⟨report, hwalk⟩, reports', hrest⟩
  · rintro ⟨⟨report, hwalk⟩, reports, hrest⟩
    exact ⟨report :: reports, result_bind_eq_ok.mpr
      ⟨report, hwalk, result_bind_eq_ok.mpr ⟨reports, hrest, rfl⟩⟩⟩

theorem walkEach_cons_state {found : Nat × Nat}
    (hok : (expandAll S g group r).result = .ok found) :
    ((walkEach S g (group :: groups)).run r).state =
      ((walkEach S g groups).run (expandAll S g group r).state).state := by
  obtain ⟨report, hwalk⟩ := (walk_isOk_iff g group r).mpr ⟨found, hok⟩
  rw [walkEach, state_bind_of_ok hwalk, walk_state, run_bind, Outcome.andThen]
  cases ((walkEach S g groups).run (expandAll S g group r).state).result <;> rfl

/-- A walk takes steps of discovery, whether it succeeds or not. -/
theorem expandAll_discovered (hh : S.host.Coherent) (h : r.catalog.Discovered S .all) :
    (expandAll S g group r).state.catalog.Discovered S .all := by
  obtain ⟨done, failed, hwork⟩ := expandAll_worked (Q := fun _ => True) group r h.wellFormed
    (closed_all S g r.catalog) fun _ _ => trivial
  exact h.discovery hh hwork.explores.catalog

/-- Walks from methods that lead to sound methods only succeed. -/
theorem walkEach_succeeds (hh : S.host.Coherent) (hsound : g.Sound S.host entries) :
    ∀ {groups : List (List MethodRef)} {r : Registry}, r.catalog.Discovered S .all →
      (∀ m ∈ groups.flatten, m ∈ entries) →
      ∃ reports, ((walkEach S g groups).run r).result = .ok reports
  | [], _, _, _ => ⟨[], rfl⟩
  | group :: rest, r, h, hsub => by
    rw [List.flatten_cons] at hsub
    refine walkEach_cons_isOk_iff.mpr ⟨?_, ?_⟩
    · exact expandAll_succeeds hh hsound group r h
        fun m hm => .entry (hsub m (List.mem_append_left _ hm))
    · exact walkEach_succeeds hh hsound (expandAll_discovered hh h)
        fun m hm => hsub m (List.mem_append_right _ hm)

/-- Walks that succeed leave what was explored explored, and have walked all their entries. -/
theorem Explored.walkEach (hh : S.host.Coherent) :
    ∀ {groups : List (List MethodRef)} {r : Registry},
      Explored S (.needed S.host g entries) g r → (∀ m ∈ groups.flatten, m ∈ entries) →
      (∀ m ∈ r.walked, g.Reachable entries m) →
      (∃ reports, ((Registry.walkEach S g groups).run r).result = .ok reports) →
      let r' := ((Registry.walkEach S g groups).run r).state
      Explored S (.needed S.host g entries) g r' ∧ (∀ m ∈ groups.flatten, m ∈ r'.walked) ∧
        (∀ m ∈ r.walked, m ∈ r'.walked) ∧ ∀ m ∈ r'.walked, g.Reachable entries m
  | [], r, h, _, hwalked, _ => ⟨h, (fun _ hm => nomatch hm), fun _ hm => hm, hwalked⟩
  | group :: rest, r, h, hsub, hwalked, hok => by
    obtain ⟨⟨found, hfound⟩, hrest⟩ := walkEach_cons_isOk_iff.mp hok
    rw [List.flatten_cons] at hsub ⊢
    have hclosed := CallGraph.closed_needed (g := g) hh h.discovered.wellFormed
      h.discovered.mirrors entries
    obtain ⟨h₁, hgroup, hold, hwalked₁⟩ := h.expandAll hh hclosed
      (fun m hm => .entry (hsub m (List.mem_append_left _ hm))) hwalked hfound
    obtain ⟨h₂, hmore, hkept, hwalked₂⟩ := h₁.walkEach hh
      (fun m hm => hsub m (List.mem_append_right _ hm)) hwalked₁ hrest
    rw [walkEach_cons_state hfound]
    refine ⟨h₂, fun m hm => ?_, fun m hm => hkept m (hold m hm), hwalked₂⟩
    rcases List.mem_append.mp hm with hm | hm
    · exact hkept m (hgroup m hm)
    · exact hmore m hm

/-- Walks that succeed, starting from nothing, leave what their entries need. -/
theorem walkEach_complete (hh : S.host.Coherent)
    (hok : ∃ reports, ((walkEach S g groups).run {}).result = .ok reports) :
    Complete S g groups.flatten ((walkEach S g groups).run {}).state := by
  obtain ⟨h, hentries, -, hwalked⟩ := (Explored.empty S _ g).walkEach hh (fun _ hm => hm)
    (fun _ hm => nomatch hm) hok
  exact h.complete hentries hwalked

/-- All walks succeed if and only if the host serves every method the entries lead to. -/
theorem walkEach_isOk_iff (hh : S.host.Coherent) (hk : S.host.KnowsChains) :
    (∃ reports, ((walkEach S g groups).run {}).result = .ok reports) ↔
      g.Sound S.host groups.flatten :=
  ⟨fun hok => (walkEach_complete hh hok).sound hh hk,
    fun hsound => walkEach_succeeds hh hsound (.empty S _) fun _ hm => hm⟩

/-! ## Two runs -/

/-- Registries whose catalogs are alike are finalized both or neither. The tables list the same
entries, and a name finds the same class in both. -/
theorem finalize_of_alike (hr : r.WellFormed S) (hr' : r'.WellFormed S)
    (h : r.catalog.Alike r'.catalog) :
    ((∃ T, ((finalize S).run r).result = .ok T) ↔ ∃ T, ((finalize S).run r').result = .ok T) ∧
      ∀ T T', ((finalize S).run r).result = .ok T → ((finalize S).run r').result = .ok T' →
        T.classes.Perm T'.classes ∧ T.arrayTypes.Perm T'.arrayTypes ∧
          ∀ name, T'.class? name = T.class? name := by
  have hc := hr.classified
  have hc' := hr'.classified
  have hclassified := h.classified
  simp only [finalize_eq_ok_iff hr, finalize_eq_ok_iff hr']
  refine ⟨⟨hclassified.exists_hasTable hc hc', hclassified.symm.exists_hasTable hc' hc⟩,
    fun T T' htable htable' => ?_⟩
  obtain ⟨hclasses, harrays⟩ := hclassified.perm_of_hasTable hc hc' htable htable'
  exact ⟨hclasses, harrays, hclassified.class?_eq hc hc' htable htable'⟩

/-- Walks from the same entries, in whatever order and groups, all succeed or do not; if they do,
finalizing succeeds or does not, and the tables list the same entries. -/
theorem walkEach_order (P : Program) (config : LayoutConfig)
    (groups groups' : List (List MethodRef))
    (hsame : ∀ m, m ∈ groups.flatten ↔ m ∈ groups'.flatten) :
    let S : Setting := ⟨P.host, config⟩
    let o := (walkEach S P.graph groups).run {}
    let o' := (walkEach S P.graph groups').run {}
    ((∃ reports, o.result = .ok reports) ↔ ∃ reports, o'.result = .ok reports) ∧
      ((∃ reports, o.result = .ok reports) →
        ((∃ T, ((finalize S).run o.state).result = .ok T) ↔
          ∃ T, ((finalize S).run o'.state).result = .ok T) ∧
        ∀ T T', ((finalize S).run o.state).result = .ok T →
          ((finalize S).run o'.state).result = .ok T' →
          T.classes.Perm T'.classes ∧ T.arrayTypes.Perm T'.arrayTypes ∧
            ∀ name, T'.class? name = T.class? name) := by
  intro S o o'
  have hh : S.host.Coherent := P.host_coherent
  have hk : S.host.KnowsChains := P.host_knowsChains
  have hiff : (∃ reports, o.result = .ok reports) ↔ ∃ reports, o'.result = .ok reports :=
    (walkEach_isOk_iff hh hk).trans
      ((CallGraph.sound_congr hsame).trans (walkEach_isOk_iff hh hk).symm)
  refine ⟨hiff, fun hok => ?_⟩
  have halike := ((walkEach_complete hh hok).congr hsame).alike hh
    (walkEach_complete hh (hiff.mp hok))
  have hr : o.state.WellFormed S :=
    ((WellFormed.empty S).reaches (walkEach_leads S P.graph groups {} (.empty S))).1
  have hr' : o'.state.WellFormed S :=
    ((WellFormed.empty S).reaches (walkEach_leads S P.graph groups' {} (.empty S))).1
  exact finalize_of_alike hr hr' halike

end Registry

/-- Two methods that use two classes and two array types, each in an order of its own. -/
def Program.crossing : Program where
  classes := [("A", ⟨none, [⟨"x", .primitive .int, false⟩, ⟨"y", .array (.named "B"), false⟩]⟩),
    ("B", ⟨none, [⟨"z", .named "A", true⟩, ⟨"w", .primitive .long, false⟩]⟩)]
  graph := ⟨[(⟨"A", "f()"⟩, ⟨[], [⟨"A", "x"⟩, ⟨"B", "z"⟩], [.array (.primitive .int)]⟩),
    (⟨"B", "g()"⟩, ⟨[], [⟨"B", "w"⟩, ⟨"A", "y"⟩], []⟩)]⟩

/-- The classes come in the order they are met in. -/
theorem Registry.walkEach_order_crossing :
    let S : Setting := ⟨Program.crossing.host, {}⟩
    let groups : List (List MethodRef) := [[⟨"A", "f()"⟩], [⟨"B", "g()"⟩]]
    let groups' : List (List MethodRef) := [[⟨"B", "g()"⟩, ⟨"A", "f()"⟩]]
    let o := (walkEach S Program.crossing.graph groups).run {}
    let o' := (walkEach S Program.crossing.graph groups').run {}
    ∃ T T', ((finalize S).run o.state).result = .ok T ∧
      ((finalize S).run o'.state).result = .ok T' ∧
      T.classes.map (·.hostName) = ["A", "B"] ∧ T'.classes.map (·.hostName) = ["B", "A"] ∧
      T.classes.Perm T'.classes ∧ T.arrayTypes.Perm T'.arrayTypes := by
  intro S groups groups' o o'
  let names (r : Registry) : Option (List String) :=
    ((finalize S).run r).result.toOption.map (·.classes.map (·.hostName))
  have hrun : ((expandAllWithin S Program.crossing.graph 1 [⟨"A", "f()"⟩] {}).bind fun w =>
      (expandAllWithin S Program.crossing.graph 1 [⟨"B", "g()"⟩] w.state).map fun w' =>
        (w.result, w'.result, names w'.state)) =
      some (.ok (1, 2), .ok (1, 2), some ["A", "B"]) := by decide +kernel
  have hrun' : (expandAllWithin S Program.crossing.graph 2 [⟨"B", "g()"⟩, ⟨"A", "f()"⟩] {}).map
      (fun w => (w.result, names w.state)) = some (.ok (2, 4), some ["B", "A"]) := by
    decide +kernel
  obtain ⟨w₁, hw₁, hrun⟩ := Option.bind_eq_some_iff.mp hrun
  obtain ⟨w₂, hw₂, hrun⟩ := Option.map_eq_some_iff.mp hrun
  obtain ⟨w, hw, hrun'⟩ := Option.map_eq_some_iff.mp hrun'
  obtain ⟨hok₁, hrest⟩ := Prod.mk.inj hrun
  obtain ⟨hok₂, hnames⟩ := Prod.mk.inj hrest
  obtain ⟨hok, hnames'⟩ := Prod.mk.inj hrun'
  rw [← expandAll_of_within hw₁] at hok₁ hw₂
  rw [← expandAll_of_within hw₂] at hok₂ hnames
  rw [← expandAll_of_within hw] at hok hnames'
  have hall : ∃ reports, o.result = .ok reports :=
    walkEach_cons_isOk_iff.mpr ⟨⟨_, hok₁⟩, walkEach_cons_isOk_iff.mpr ⟨⟨_, hok₂⟩, [], rfl⟩⟩
  obtain ⟨T, hT, hclasses⟩ := Option.map_eq_some_iff.mp hnames
  obtain ⟨T', hT', hclasses'⟩ := Option.map_eq_some_iff.mp hnames'
  have hfin : ((finalize S).run o.state).result = .ok T := by
    rw [walkEach_cons_state hok₁, walkEach_cons_state hok₂]
    exact toOption_eq_some_iff.mp hT
  have hfin' : ((finalize S).run o'.state).result = .ok T' := by
    rw [walkEach_cons_state hok]
    exact toOption_eq_some_iff.mp hT'
  have hsame : ∀ m, m ∈ groups.flatten ↔ m ∈ groups'.flatten := fun m => by
    simp [groups, groups', or_comm]
  obtain ⟨hsameClasses, hsameArrays, -⟩ :=
    ((walkEach_order Program.crossing {} _ _ hsame).2 hall).2 T T' hfin hfin'
  exact ⟨T, T', hfin, hfin', hclasses, hclasses', hsameClasses, hsameArrays⟩

end DeviceLayout
