import DeviceLayout.Proofs.Reachability.Sweep

/-!
# Walking again after a success

A walk that succeeds has walked all its entries, and what is walked stays walked, whatever is asked
of the registry in between. So a walk from entries that are walked passes over all of its queue, and
finds nothing over any graph (`Registry.walk_of_walked`).

A sweep that succeeds has passed all classes, those it came to on the way included : each of them
has both its flags set (`Registry.flagged_walkFrom`). This needs nothing of the host, as a flag is
set before the methods of a class are looked at. A sweep of classes that have their flags finds
nothing (`Registry.walkFrom_of_flagged`).
-/

open DeviceLayout.Action

namespace DeviceLayout

namespace Registry

variable {S : Setting} {g : CallGraph} {r : Registry} {id : ClassId} {next : Nat}
  {entries : List MethodRef} {m : MethodRef}

/-! ## Entries that are walked -/

/-- A queue of walked methods is passed over. -/
theorem expandAll_of_all_walked :
    ∀ {queue : List MethodRef}, (∀ m ∈ queue, m ∈ r.walked) →
      expandAll S g queue r = ⟨.ok (0, 0), r, []⟩
  | [], _ => by rw [expandAll]
  | m :: rest, h => by
    rw [expandAll_of_walked (h m (List.mem_cons_self ..)),
      expandAll_of_all_walked fun n hn => h n (List.mem_cons_of_mem m hn)]

/-- A walk from walked methods finds nothing. -/
theorem walk_of_walked (h : ∀ m ∈ entries, m ∈ r.walked) :
    (walk S g entries).run r = ⟨.ok {}, r, [Report.event {}]⟩ := by
  have hqueue : (Action.mk (expandAll S g entries)).run r = ⟨.ok (0, 0), r, []⟩ :=
    expandAll_of_all_walked h
  have hnone : ∀ n : Nat, n - n = 0 := Nat.sub_self
  rw [walk, run_get_bind, run_bind_of_ok hqueue, run_get_bind]
  simp only [hnone]
  rfl

/-- A walk that succeeds has walked its entries. -/
theorem WellFormed.mem_walked_of_walk (hr : r.WellFormed S) {report : Report}
    (hok : ((walk S g entries).run r).result = .ok report) (hm : m ∈ entries) :
    m ∈ ((walk S g entries).run r).state.walked := by
  obtain ⟨found, hfound⟩ := (walk_isOk_iff g entries r).mp ⟨report, hok⟩
  obtain ⟨done, failed, hwork⟩ := expandAll_worked (Q := fun _ => True) entries r hr.catalog
    (closed_all S g r.catalog) fun _ _ => trivial
  rw [walk_state]
  exact (hwork.complete found hfound).2 m hm

/-! ## Classes that have their flags -/

/-- A class that is walked as a whole gets both its flags. -/
theorem WellFormed.flagged_walkWhole (hr : r.WellFormed S) (hn : next < r.catalog.classes.length)
    (hflagged : r.catalog.Flagged next) {report : Report}
    (hok : ((walkWhole S g ⟨next⟩).run r).result = .ok report) :
    ((walkWhole S g ⟨next⟩).run r).state.catalog.Flagged (next + 1) := by
  obtain ⟨members, hmembers, hok⟩ := result_bind_eq_ok.mp hok
  obtain ⟨arrays, harrays, -⟩ := result_bind_eq_ok.mp hok
  rw [walkWhole, state_bind_of_ok hmembers, state_bind_of_ok harrays, run_pure]
  obtain ⟨d, hd⟩ : ∃ d, r.catalog.class? ⟨next⟩ = some d := Catalog.class?_of_index_lt hn
  obtain ⟨hr₁, he₁⟩ := hr.reaches (walkClass_leads S g ⟨next⟩ r hr)
  obtain ⟨d₁, hd₁, hw₁⟩ := exists_membersWalked (g := g) hr hd
  obtain ⟨hr₂, he₂⟩ := hr₁.reaches (walkClassArrays_leads S g ⟨next⟩ _ hr₁)
  obtain ⟨d₂, hd₂, hw₂⟩ := exists_arraysWalked (g := g) hr₁ hd₁
  intro i hi
  rcases Nat.lt_succ_iff_lt_or_eq.mp hi with hi | rfl
  · exact hflagged.extends (he₁.catalog.trans he₂.catalog) i hi
  · obtain ⟨d₂', hd₂', hext⟩ := he₂.catalog.class? hd₁
    obtain rfl := Option.some.inj (hd₂.symm.trans hd₂')
    exact ⟨d₂, hd₂, hext.membersWalked hw₁, hw₂⟩

/-- A sweep that succeeds leaves both flags on all classes. -/
theorem WellFormed.flagged_walkFrom (hr : r.WellFormed S) (hflagged : r.catalog.Flagged next)
    (hok : ∃ report, (walkFrom S g next r).result = .ok report) :
    let r' := (walkFrom S g next r).state
    r'.catalog.Flagged r'.catalog.classes.length := by
  fun_induction walkFrom S g next r with
  | case1 next r hn e he =>
    obtain ⟨report, hok⟩ := hok
    cases hok
  | case2 next r hn found hw o ih =>
    exact ih (hr.reaches (walkWhole_leads S g ⟨next⟩ r hr)).1 (hr.flagged_walkWhole hn hflagged hw)
      (Outcome.exists_ok_map_after.mp hok)
  | case3 next r hn => exact fun i hi => hflagged i (Nat.lt_of_lt_of_le hi (Nat.le_of_not_lt hn))

/-- A class with its flags is passed over, by all walks of classes. -/
theorem walkClass_of_flagged (h : r.catalog.Flagged r.catalog.classes.length)
    {d : ClassDescriptor} (hd : r.catalog.class? id = some d) :
    (walkClass S g id).run r = ⟨.ok {}, r, []⟩ ∧
      (walkClassArrays S g id).run r = ⟨.ok {}, r, []⟩ := by
  obtain ⟨d', hd', hmembers, harrays⟩ := h id.index (Catalog.index_lt_of_class? hd)
  obtain rfl := Option.some.inj (hd.symm.trans hd')
  exact ⟨by rw [walkClass_run hd, if_pos hmembers], walkClassArrays_of_walked hd harrays⟩

/-- A sweep of classes that have their flags finds nothing. -/
theorem walkFrom_of_flagged (h : r.catalog.Flagged r.catalog.classes.length) :
    walkFrom S g next r = ⟨.ok {}, r, []⟩ := by
  have hwhole : ∀ next < r.catalog.classes.length,
      (walkWhole S g ⟨next⟩).run r = ⟨.ok {}, r, []⟩ := by
    intro next hn
    obtain ⟨d, hd⟩ : ∃ d, r.catalog.class? ⟨next⟩ = some d := Catalog.class?_of_index_lt hn
    obtain ⟨hmembers, harrays⟩ := walkClass_of_flagged (S := S) (g := g) h hd
    rw [walkWhole, run_bind_of_ok hmembers, run_bind_of_ok harrays]
    rfl
  fun_induction walkFrom S g next r with
  | case1 next r hn e he =>
    rw [hwhole next hn] at he
    cases he
  | case2 next r hn found hw o ih =>
    have ho : o = ⟨.ok {}, r, []⟩ := hwhole next hn
    have hfound : found = {} := by
      rw [hwhole next hn] at hw
      exact (Except.ok.inj hw).symm
    rw [ho] at ih
    rw [ho, ih h hwhole, hfound]
    rfl
  | case3 next r hn => rfl

/-! ## Again -/

/-- After a walk that succeeded, and whatever else was asked for then, a walk from some of its
entries and other methods that are walked finds nothing and changes nothing, over any graph. After a
sweep that succeeded, neither does another sweep, or a walk of any class that there is then. -/
theorem walk_again (S : Setting) (history : List Request) :
    let r := after S history
    (∀ g entries report, ((walk S g entries).run r).result = .ok report →
      ∀ later g' entries',
        let r' := afterFrom S ((walk S g entries).run r).state later
        (∀ m ∈ entries', m ∈ entries ∨ m ∈ r'.walked) →
          (walk S g' entries').run r' = ⟨.ok {}, r', [Report.event {}]⟩) ∧
    ∀ g report, ((walkAll S g).run r).result = .ok report →
      let r' := ((walkAll S g).run r).state
      ∀ g', (walkAll S g').run r' = ⟨.ok {}, r', []⟩ ∧
        ∀ id d, r'.catalog.class? id = some d →
          (walkClass S g' id).run r' = ⟨.ok {}, r', []⟩ ∧
          (walkClassArrays S g' id).run r' = ⟨.ok {}, r', []⟩ := by
  intro r
  have hr : r.WellFormed S := wellFormed_after S history
  constructor
  · intro g entries report hok later g' entries' r' hentries
    have hr₁ := (hr.reaches (walk_leads S g entries r hr)).1
    have hlater := (hr₁.extends_afterFrom later).2
    refine walk_of_walked fun m hm => ?_
    rcases hentries m hm with hm | hm
    · exact hlater.walked_prefix.subset (hr.mem_walked_of_walk hok hm)
    · exact hm
  · intro g report hok r' g'
    have hflagged : r'.catalog.Flagged r'.catalog.classes.length :=
      hr.flagged_walkFrom (fun i hi => absurd hi (Nat.not_lt_zero i)) ⟨report, hok⟩
    exact ⟨walkFrom_of_flagged hflagged, fun id d hd => walkClass_of_flagged hflagged hd⟩

/-- A walk from `A.f` comes to `B.g`. After the classes are laid out, a walk from both finds
nothing, even over a graph without facts. A sweep of `A`, where `A.f` is registered, comes to `B`,
and a second sweep finds nothing. -/
theorem walk_again_cycle :
    let S : Setting := ⟨Program.cycle.host, {}⟩
    let f : MethodRef := ⟨"A", "f()"⟩
    let r := afterFrom S ((walk S Program.cycle.graph [f]).run {}).state [.finalize]
    let swept := (walkAll S Program.cycle.graph).run (after S [.registerMethod f])
    (walk S ⟨[]⟩ [⟨"B", "g()"⟩, f]).run r = ⟨.ok {}, r, [Report.event {}]⟩ ∧
      (∃ report, swept.result = .ok report) ∧
      (walkAll S Program.cycle.graph).run swept.state = ⟨.ok {}, swept.state, []⟩ := by
  intro S f r swept
  have hrun : (expandAllWithin S Program.cycle.graph 4 [f] {}).map (fun o =>
      (o.result, o.state.walked)) = some (.ok (2, 2), [f, ⟨"B", "g()"⟩]) := by decide +kernel
  obtain ⟨o, ho, hend⟩ := Option.map_eq_some_iff.mp hrun
  obtain ⟨hresult, hwalked⟩ := Prod.mk.inj hend
  obtain ⟨report, hok⟩ : ∃ report, ((walk S Program.cycle.graph [f]).run {}).result = .ok report :=
    (walk_isOk_iff _ _ _).mpr ⟨(2, 2), expandAll_of_within ho ▸ hresult⟩
  have hlater := ((wellFormed_walk S Program.cycle.graph [f]).extends_afterFrom [.finalize]).2
  have hg : (⟨"B", "g()"⟩ : MethodRef) ∈ r.walked := hlater.walked_prefix.subset (by
    rw [walk_state, expandAll_of_within ho, hwalked]
    simp)
  have hreg : ((onCatalog (Catalog.registerMethods S [f])).run {}).result = .ok () := by
    decide +kernel
  have hregistered : after S [.registerMethod f] = registered S [f] := by decide +kernel
  obtain ⟨report', hswept⟩ : ∃ report, swept.result = .ok report := by
    rw [show swept = (walkAll S Program.cycle.graph).run (registered S [f]) by rw [← hregistered]]
    exact (walkAll_isOk_iff hreg Program.cycle.host_coherent Program.cycle.host_knowsChains).mpr
      ⟨report, hok⟩
  refine ⟨(walk_again S []).1 _ [f] report hok [.finalize] ⟨[]⟩ _ fun m hm => ?_, ⟨report', hswept⟩,
    ((walk_again S [.registerMethod f]).2 _ report' hswept _).1⟩
  rcases List.mem_cons.mp hm with rfl | hm
  · exact Or.inr hg
  · exact Or.inl hm

end Registry

end DeviceLayout
