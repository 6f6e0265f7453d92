import DeviceLayout.Proofs.Reachability.Exact
import DeviceLayout.Proofs.Reachability.Order
import DeviceLayout.Proofs.Reachability.Retry
import DeviceLayout.Proofs.Registry.Hierarchy

/-!
# Walking all classes is walking what is registered

A sweep walks the classes of a catalog one after another, each once, while the list of classes
grows and methods are still registered on classes it has passed. None of them is missed : a walk
registers a method only where it also walks it, so whatever comes to stand on a class after its
visit is walked already (`Registry.Swept`). The second pass over a class, for its array types,
finds nothing, since its methods are settled by then (`Registry.walkClassArrays_run_of_settled`).

So methods that are registered and then swept lead to what a walk from them leads to, and to
nothing else (`Registry.complete_walkAll`).
-/

open DeviceLayout.Action

namespace DeviceLayout

/-! ## Flags -/

/-- Setting one of the flags that say that a class was walked. -/
inductive ClassDescriptor.Flags (d : ClassDescriptor) : ClassDescriptor → Prop
  | members : Flags d { d with membersWalked := true }
  | arrays : Flags d { d with arraysWalked := true }

theorem ClassDescriptor.Flags.change {d d' : ClassDescriptor} (h : d.Flags d') : d.Change d' := by
  cases h with
  | members => exact .walkMembers
  | arrays => exact .walkArrays

/-! ## Scopes -/

/-- The methods may be added, with the classes they name. -/
def Scope.AdmitsEntries (A : Scope) (S : Setting) (entries : List MethodRef) : Prop :=
  ∀ m ∈ entries, A.AdmitsClass S m.className ∧ A.method m

theorem Scope.all_admitsEntries (S : Setting) (entries : List MethodRef) :
    Scope.all.AdmitsEntries S entries :=
  fun m _ => ⟨all_admitsClass S m.className, trivial⟩

/-- Entries need the classes they name if they have facts. -/
theorem Scope.needed_admitsEntries {S : Setting} {g : CallGraph} {entries : List MethodRef}
    (hfacts : ∀ m ∈ entries, ∃ facts, g.facts? m = some facts) :
    (needed S.host g entries).AdmitsEntries S entries := by
  intro m hm
  obtain ⟨facts, hf⟩ := hfacts m hm
  exact ⟨needed_admitsClass (.entry hm) hf .self, .entry hm⟩

/-- A scope whose methods call methods of the scope, and that admits what they use. -/
def Scope.Encloses (A : Scope) (S : Setting) (g : CallGraph) : Prop :=
  ∀ c : Catalog, c.WellFormed → c.Mirrors S.host → Registry.Closed S A g c A.method

theorem Scope.all_encloses (S : Setting) (g : CallGraph) : Scope.all.Encloses S g :=
  fun c _ _ => Registry.closed_all S g c

theorem Scope.needed_encloses {S : Setting} (hh : S.host.Coherent) (g : CallGraph)
    (entries : List MethodRef) : (needed S.host g entries).Encloses S g :=
  fun _ hc hm => CallGraph.closed_needed hh hc hm entries

namespace Catalog

variable {S : Setting} {A : Scope} {c c' : Catalog} {id : ClassId} {d d' : ClassDescriptor}
  {ms : List MethodRef} {next : Nat}

/-- Flags make no difference to what was discovered. -/
theorem Discovered.flags (hh : S.host.Coherent) (h : c.Discovered S A) (hd : c.class? id = some d)
    (hf : d.Flags d') : (c.withDescriptor id d').Discovered S A := by
  have hstep : c.Change S (c.withDescriptor id d') := .onClass hd hf.change
  refine ⟨h.wellFormed.change hstep, h.mirrors.change hh h.wellFormed hstep, ?_, ?_,
    ⟨h.arrays.inside, h.arrays.nodup⟩⟩
  · intro a q hq
    rcases class?_withDescriptor hd hq with ⟨-, rfl⟩ | ⟨-, hold⟩
    · have hold := h.members _ _ hd
      cases hf <;> exact hold
    · exact h.members _ _ hold
  · intro q hq
    obtain ⟨a, ha⟩ := mem_classes_iff.mp hq
    rcases class?_withDescriptor hd ha with ⟨-, rfl⟩ | ⟨-, hold⟩
    · have hold := h.classes _ (mem_classes_of_class? hd)
      cases hf <;> exact hold
    · exact h.classes _ (mem_classes_of_class? hold)

/-- What was discovered within a scope was discovered within the widest. -/
theorem Discovered.widen (h : c.Discovered S A) : c.Discovered S .all where
  wellFormed := h.wellFormed
  mirrors := h.mirrors
  members id d hd := ⟨fun m hm => ⟨trivial, ((h.members id d hd).1 m hm).2⟩, fun _ _ => trivial⟩
  classes d hd := ⟨trivial, (h.classes d hd).2⟩
  arrays := ⟨fun _ _ => trivial, h.arrays.nodup⟩

/-- Discovery sets no flags : a class whose methods count as walked was there with its flag, and
what it has been given since is in the scope. -/
theorem Discovery.of_membersWalked (h : c.Discovery S A c') (hd' : c'.class? id = some d')
    (hflag : d'.membersWalked = true) :
    ∃ d, c.class? id = some d ∧ d.membersWalked = true ∧
      ∀ m ∈ d'.methods, m ∈ d.methods ∨ A.method m := by
  induction h generalizing d' with
  | refl => exact ⟨d', hd', hflag, fun _ => Or.inl⟩
  | tail _ hstep ih =>
    cases hstep with
    | newClass hA hnew hfits =>
      rcases class?_withClass hd' with hold | ⟨-, rfl⟩
      · exact ih hold hflag
      · cases hflag
    | addMethod hA h hname hnew =>
      rcases class?_withDescriptor h hd' with ⟨rfl, rfl⟩ | ⟨-, hold⟩
      · obtain ⟨d, hd, hflag₀, hmethods⟩ := ih h hflag
        refine ⟨d, hd, hflag₀, fun m hm => ?_⟩
        rcases List.mem_append.mp hm with hm | hm
        · exact hmethods m hm
        · exact Or.inr (List.mem_singleton.mp hm ▸ hA)
      · exact ih hold hflag
    | addField hA h hnew hopen =>
      rcases class?_withDescriptor h hd' with ⟨rfl, rfl⟩ | ⟨-, hold⟩
      · obtain ⟨d, hd, hflag₀, hmethods⟩ := ih h hflag
        exact ⟨d, hd, hflag₀, hmethods⟩
      · exact ih hold hflag
    | addArrays hA => exact ih hd' hflag

/-- Both flags are set on the classes before index `next`. -/
def Flagged (next : Nat) (c : Catalog) : Prop :=
  ∀ i < next, ∃ d, c.class? ⟨i⟩ = some d ∧ d.membersWalked = true ∧ d.arraysWalked = true

/-- Flags that were set stay. -/
theorem Flagged.extends (h : c.Flagged next) (he : c.Extends c') : c'.Flagged next := by
  intro i hi
  obtain ⟨d, hd, hmembers, harrays⟩ := h i hi
  obtain ⟨d', hd', hext⟩ := he.class? hd
  exact ⟨d', hd', hext.membersWalked hmembers, hext.arraysWalked harrays⟩

/-! ## Registering methods -/

/-- Register methods one after another, without walking them. The first that fails ends it. -/
def registerMethods (S : Setting) : List MethodRef → Action Catalog Unit
  | [] => return ()
  | m :: rest => do
    let _ ← registerMethod S m
    registerMethods S rest

theorem registerMethods_ensures :
    ∀ {ms : List MethodRef} {c : Catalog}, c.WellFormed → A.AdmitsEntries S ms →
      (registerMethods S ms).Ensures c fun res c' =>
        c.Discovery S A c' ∧ (res = .ok () → ∀ m ∈ ms, c'.HasMethod m)
  | [], _, _, _ => .pure ⟨.refl, fun _ _ hm => nomatch hm⟩
  | m :: rest, c, hc, hA => by
    obtain ⟨hclass, hmethod⟩ := hA m (List.mem_cons_self ..)
    refine (registerMethod_ensures hc hclass hmethod).bind ?_
      fun e c' hd => ⟨hd.1, fun he => nomatch he⟩
    rintro b c₁ ⟨hd₁, hm⟩
    refine (registerMethods_ensures (hc.reaches hd₁.reaches)
      fun n hn => hA n (List.mem_cons_of_mem m hn)).mono ?_
    rintro res c₂ ⟨hd₂, hrest⟩
    refine ⟨hd₁.trans hd₂, fun hres n hn => ?_⟩
    rcases List.mem_cons.mp hn with rfl | hn
    · exact hd₂.reaches.extends.hasMethod (hm b rfl)
    · exact hrest hres n hn

theorem registerMethods_maintains {R : String → Prop} :
    ∀ ms : List MethodRef, (registerMethods S ms).Maintains (S.host.ResolvesAll R) (Whole R)
  | [] => .pure _
  | m :: rest => .bind (registerMethod_maintains m) fun _ => registerMethods_maintains rest

/-! ## Array types that are recorded already -/

theorem recordArrays_of_recorded :
    ∀ {ts : List HostType}, (∀ t ∈ ts, ∀ level ∈ t.arrayLevels, level ∈ c.arrays) →
      (recordArrays S ts).run c = ⟨.ok (), c, []⟩
  | [], _ => rfl
  | t :: rest, h => by
    rw [recordArrays, run_bind_of_ok (recordArray_of_recorded (h t (List.mem_cons_self ..))),
      recordArrays_of_recorded fun t' ht' => h t' (List.mem_cons_of_mem t ht')]
    rfl

end Catalog

namespace Registry

variable {S : Setting} {A : Scope} {g : CallGraph} {r r' : Registry} {id : ClassId}
  {d d' : ClassDescriptor} {ms entries queue : List MethodRef} {next : Nat}

theorem recordArraysOf_of_recorded :
    ∀ {ms : List MethodRef}, (∀ m ∈ ms, ∃ facts, g.facts? m = some facts ∧
      ∀ t ∈ facts.arrays, ∀ level ∈ t.arrayLevels, level ∈ r.catalog.arrays) →
      (recordArraysOf S g ms).run r = ⟨.ok (), r, []⟩
  | [], _ => rfl
  | m :: rest, h => by
    obtain ⟨facts, hf, hrecorded⟩ := h m (List.mem_cons_self ..)
    have hrun : (onCatalog (Catalog.recordArrays S facts.arrays)).run r = ⟨.ok (), r, []⟩ := by
      rw [onCatalog, onPart]
      simp only [Catalog.recordArrays_of_recorded hrecorded]
    rw [recordArraysOf, hf]
    dsimp only
    rw [run_bind_of_ok hrun,
      recordArraysOf_of_recorded fun n hn => h n (List.mem_cons_of_mem m hn)]
    rfl

/-- Where the methods of a class are settled, recording their array types sets a flag. -/
theorem walkClassArrays_run_of_settled (hd : r.catalog.class? id = some d)
    (hset : ∀ m ∈ d.methods, ∃ facts, g.facts? m = some facts ∧
      r.catalog.Settled S.host m facts) :
    ∃ report, (walkClassArrays S g id).run r = ⟨.ok report,
      { r with catalog := r.catalog.withDescriptor id { d with arraysWalked := true } }, []⟩ := by
  rw [walkClassArrays, run_bind_of_ok (descriptor_run hd)]
  split
  · next hw =>
    have hsame : { d with arraysWalked := true } = d := by rw [← hw]
    rw [hsame, Catalog.withDescriptor_self hd]
    exact ⟨{}, rfl⟩
  · rw [run_bind_of_ok (onClass_modify_run hd _), run_get_bind, run_bind_of_ok
      (recordArraysOf_of_recorded fun m hm => ?_)]
    · exact ⟨_, rfl⟩
    · obtain ⟨facts, hf, hsettled⟩ := hset m hm
      exact ⟨facts, hf, hsettled.arrays⟩

/-! ## Explored registries -/

theorem Explored.flags (hh : S.host.Coherent) (h : Explored S A g r)
    (hd : r.catalog.class? id = some d) (hf : d.Flags d') :
    Explored S A g { r with catalog := r.catalog.withDescriptor id d' } := by
  have hdisc := h.discovered.flags hh hd hf
  have he := hf.change.extends
  refine ⟨hdisc, ?_, fun m hm => ?_⟩
  · refine h.selfContained.withDescriptor h.discovered.wellFormed hd hdisc.wellFormed he ?_
    cases hf <;> rfl
  · obtain ⟨facts, hfacts, hset, hcalls⟩ := h.settled m hm
    exact ⟨facts, hfacts, (Catalog.extends_withDescriptor hd he).settled h.discovered.wellFormed
      hdisc.wellFormed hset, hcalls⟩

/-- A walked method is in the scope, as it stands on a class. -/
theorem Explored.method_of_walked (h : Explored S A g r) {m : MethodRef} (hm : m ∈ r.walked) :
    A.method m := by
  obtain ⟨facts, -, hset, -⟩ := h.settled m hm
  obtain ⟨d, hd, -, hmem⟩ := hset.method
  obtain ⟨id, hid⟩ := Catalog.mem_classes_iff.mp hd
  exact ((h.discovered.members id d hid).1 m hmem).1

/-- A walk that succeeds registers the methods that are walked in the end, and no others. -/
theorem discovery_walked (hc : r.catalog.WellFormed) (h' : Explored S A g r')
    (hr' : (expandAll S g queue r).state = r') (hqueue : ∀ m ∈ queue, m ∈ r'.walked) :
    r.catalog.Discovery S { Scope.all with method := (· ∈ r'.walked) } r'.catalog := by
  have hclosed : Closed S { Scope.all with method := (· ∈ r'.walked) } g r.catalog
      (· ∈ r'.walked) := by
    intro m facts hm hf
    obtain ⟨facts', hf', -, hcalls⟩ := h'.settled m hm
    obtain rfl := Option.some.inj (hf.symm.trans hf')
    refine ⟨hcalls, fun _ _ _ _ => trivial, hm, fun _ _ => ⟨fun _ _ _ _ => trivial, ?_⟩, ?_⟩
    · exact fun _ _ _ _ => ⟨trivial, fun _ _ _ _ _ _ => trivial, fun _ _ => trivial⟩
    · exact fun _ _ _ => ⟨fun _ _ _ _ _ _ => trivial, fun _ _ => trivial⟩
  obtain ⟨done, failed, hwork⟩ := expandAll_worked queue r hc hclosed hqueue
  exact hr' ▸ hwork.explores.catalog

/-! ## Sweeps -/

/-- A registry in a sweep that has passed the classes before index `next`. -/
structure Swept (S : Setting) (A : Scope) (g : CallGraph) (next : Nat) (r : Registry) : Prop where
  explored : Explored S A g r
  /-- All that stands on a class whose methods were walked is walked, also what was registered
  after that. -/
  members : ∀ id d, r.catalog.class? id = some d → d.membersWalked = true →
    ∀ m ∈ d.methods, m ∈ r.walked
  flagged : r.catalog.Flagged next

namespace Swept

/-- What stands on a class is in the scope. -/
theorem method_of_mem (h : Swept S A g next r) (hd : r.catalog.class? id = some d) :
    ∀ m ∈ d.methods, A.method m :=
  fun m hm => ((h.explored.discovered.members id d hd).1 m hm).1

/-- A class is marked, and what stands on it is walked, along with what that leads to. What stands
on a marked class then stood there before, on this class or on one that was walked earlier, or else
it was registered by the walk. -/
theorem members_of_discovery (h : Swept S A g next r) (hd : r.catalog.class? id = some d)
    (hdisc : (r.catalog.withDescriptor id { d with membersWalked := true }).Discovery S
      { Scope.all with method := (· ∈ r'.walked) } r'.catalog)
    (hqueue : ∀ m ∈ d.methods, m ∈ r'.walked) (hkept : ∀ m ∈ r.walked, m ∈ r'.walked) :
    ∀ a q, r'.catalog.class? a = some q → q.membersWalked = true →
      ∀ m ∈ q.methods, m ∈ r'.walked := by
  intro a q hq hflag m hm
  obtain ⟨q₀, hq₀, hflag₀, hmethods⟩ := hdisc.of_membersWalked hq hflag
  rcases hmethods m hm with hm | hm
  · rcases Catalog.class?_withDescriptor hd hq₀ with ⟨-, rfl⟩ | ⟨-, hold⟩
    · exact hqueue m hm
    · exact hkept m (h.members a q₀ hold hflag₀ m hm)
  · exact hm

/-- Walking the methods of a class, if it succeeds. -/
theorem walkClass (hh : S.host.Coherent) (hA : A.Encloses S g) (h : Swept S A g next r)
    (hd : r.catalog.class? id = some d) {report : Report}
    (hok : ((Registry.walkClass S g id).run r).result = .ok report) :
    let r' := ((Registry.walkClass S g id).run r).state
    Swept S A g next r' ∧ ∃ d', r'.catalog.class? id = some d' ∧ d'.membersWalked = true := by
  intro r'
  have hrun : (Registry.walkClass S g id).run r = _ := walkClass_run hd
  split at hrun
  · next hw =>
    have hr' : r' = r := congrArg Outcome.state hrun
    rw [hr']
    exact ⟨h, d, hd, hw⟩
  · let d₀ : ClassDescriptor := { d with membersWalked := true }
    let r₀ : Registry := { r with catalog := r.catalog.withDescriptor id d₀ }
    have h₀ : Explored S A g r₀ := h.explored.flags hh hd .members
    obtain ⟨found, hfound⟩ : ∃ found, (expandAll S g d.methods r₀).result = .ok found :=
      (walk_isOk_iff g d.methods r₀).mp ⟨report, hrun ▸ hok⟩
    have hr' : (expandAll S g d.methods r₀).state = r' := by
      rw [← walk_state, ← hrun]
    obtain ⟨h₁, hqueue, hkept, -⟩ := h₀.expandAll hh
      (hA _ h₀.discovered.wellFormed h₀.discovered.mirrors) (h.method_of_mem hd)
      (fun m hm => h₀.method_of_walked hm) hfound
    rw [hr'] at h₁ hqueue hkept
    have hdisc := discovery_walked h₀.discovered.wellFormed h₁ hr' hqueue
    have he₀ : r.catalog.Extends r₀.catalog :=
      Catalog.extends_withDescriptor hd ClassDescriptor.Change.walkMembers.extends
    have he : r.catalog.Extends r'.catalog := he₀.trans hdisc.reaches.extends
    have hself : r₀.catalog.class? id = some d₀ := Catalog.class?_withDescriptor_self hd
    obtain ⟨d', hd', hext⟩ := hdisc.reaches.extends.class? hself
    exact ⟨⟨h₁, h.members_of_discovery hd hdisc hqueue hkept, h.flagged.extends he⟩, d', hd',
      hext.membersWalked rfl⟩

/-- Recording the array types of a class whose methods were walked. It cannot fail. -/
theorem walkClassArrays (hh : S.host.Coherent) (h : Swept S A g next r)
    (hd : r.catalog.class? ⟨next⟩ = some d) (hw : d.membersWalked = true) :
    (∃ report, ((Registry.walkClassArrays S g ⟨next⟩).run r).result = .ok report) ∧
      Swept S A g (next + 1) ((Registry.walkClassArrays S g ⟨next⟩).run r).state := by
  obtain ⟨report, hrun⟩ : ∃ report, (Registry.walkClassArrays S g ⟨next⟩).run r = _ :=
    walkClassArrays_run_of_settled hd fun m hm => by
      obtain ⟨facts, hf, hset, -⟩ := h.explored.settled m (h.members _ d hd hw m hm)
      exact ⟨facts, hf, hset⟩
  rw [hrun]
  have he := ClassDescriptor.Change.walkArrays.extends (d := d)
  refine ⟨⟨report, rfl⟩, h.explored.flags hh hd .arrays, fun a q hq hflag m hm => ?_,
    fun i hi => ?_⟩
  · rcases Catalog.class?_withDescriptor hd hq with ⟨-, rfl⟩ | ⟨-, hold⟩
    · exact h.members _ d hd hflag m hm
    · exact h.members a q hold hflag m hm
  · rcases Nat.lt_succ_iff_lt_or_eq.mp hi with hi | rfl
    · exact h.flagged.extends (Catalog.extends_withDescriptor hd he) i hi
    · exact ⟨_, Catalog.class?_withDescriptor_self hd, hw, rfl⟩

/-- A class is swept if its methods can be walked. -/
theorem walkWhole (hh : S.host.Coherent) (hA : A.Encloses S g) (h : Swept S A g next r)
    (hn : next < r.catalog.classes.length)
    (hok : ∃ report, ((Registry.walkClass S g ⟨next⟩).run r).result = .ok report) :
    (∃ report, ((Registry.walkWhole S g ⟨next⟩).run r).result = .ok report) ∧
      Swept S A g (next + 1) ((Registry.walkWhole S g ⟨next⟩).run r).state := by
  obtain ⟨members, hmembers⟩ := hok
  obtain ⟨d, hd⟩ : ∃ d, r.catalog.class? ⟨next⟩ = some d := Catalog.class?_of_index_lt hn
  obtain ⟨h₁, d₁, hd₁, hw₁⟩ := h.walkClass hh hA hd hmembers
  obtain ⟨⟨arrays, harrays⟩, h₂⟩ := h₁.walkClassArrays hh hd₁ hw₁
  refine ⟨⟨members.merge arrays, ?_⟩, ?_⟩
  · exact result_bind_eq_ok.mpr ⟨members, hmembers, result_bind_eq_ok.mpr ⟨arrays, harrays, rfl⟩⟩
  · rwa [Registry.walkWhole, state_bind_of_ok hmembers, state_bind_of_ok harrays]

/-- A sweep that succeeds has passed all classes. -/
theorem walkFrom (hh : S.host.Coherent) (hA : A.Encloses S g) (h : Swept S A g next r)
    (hok : ∃ report, (Registry.walkFrom S g next r).result = .ok report) :
    Swept S A g (Registry.walkFrom S g next r).state.catalog.classes.length
      (Registry.walkFrom S g next r).state := by
  fun_induction Registry.walkFrom S g next r with
  | case1 next r hn e he =>
    obtain ⟨report, hok⟩ := hok
    cases hok
  | case2 next r hn found hw o ih =>
    obtain ⟨members, hmembers, -⟩ := result_bind_eq_ok.mp hw
    refine ih (h.walkWhole hh hA hn ⟨members, hmembers⟩).2 ?_
    exact Outcome.exists_ok_map_after.mp hok
  | case3 next r hn =>
    refine ⟨h.explored, h.members, fun i hi => h.flagged i ?_⟩
    exact Nat.lt_of_lt_of_le hi (Nat.le_of_not_lt hn)

/-! ### Sweeps that succeed -/

/-- Methods that stand on a class and lead to sound methods only can be walked. -/
theorem walkClass_succeeds (hh : S.host.Coherent) (hsound : g.Sound S.host entries)
    (h : Swept S (.needed S.host g entries) g next r) (hd : r.catalog.class? id = some d) :
    ∃ report, ((Registry.walkClass S g id).run r).result = .ok report := by
  rw [walkClass_run hd]
  split
  · exact ⟨_, rfl⟩
  · have h₀ := h.explored.discovered.flags hh hd .members
    exact (walk_isOk_iff _ _ _).mpr
      (expandAll_succeeds hh hsound _ _ h₀.widen (h.method_of_mem hd))

/-- A sweep of classes on which only methods stand that lead to sound methods succeeds. -/
theorem walkFrom_succeeds (hh : S.host.Coherent) (hsound : g.Sound S.host entries)
    (h : Swept S (.needed S.host g entries) g next r) :
    ∃ report, (Registry.walkFrom S g next r).result = .ok report := by
  have hstep : ∀ {next : Nat} {r : Registry}, next < r.catalog.classes.length →
      Swept S (.needed S.host g entries) g next r →
      (∃ report, ((Registry.walkWhole S g ⟨next⟩).run r).result = .ok report) ∧
        Swept S (.needed S.host g entries) g (next + 1)
          ((Registry.walkWhole S g ⟨next⟩).run r).state := by
    intro next r hn h
    obtain ⟨d, hd⟩ : ∃ d, r.catalog.class? ⟨next⟩ = some d := Catalog.class?_of_index_lt hn
    exact h.walkWhole hh (Scope.needed_encloses hh g entries) hn (h.walkClass_succeeds hh hsound hd)
  fun_induction Registry.walkFrom S g next r with
  | case1 next r hn e he =>
    obtain ⟨report, hok⟩ := (hstep hn h).1
    cases he.symm.trans hok
  | case2 next r hn found hw o ih =>
    exact Outcome.exists_ok_map_after.mpr (ih (hstep hn h).2)
  | case3 next r hn => exact ⟨_, rfl⟩

/-! ### Sweeps that are over -/

section

variable (h : Swept S A g r.catalog.classes.length r) (hd : d ∈ r.catalog.classes)

include h hd

theorem flags_of_mem : d.membersWalked = true ∧ d.arraysWalked = true := by
  obtain ⟨id, hid⟩ := Catalog.mem_classes_iff.mp hd
  obtain ⟨d', hd', hflags⟩ := h.flagged id.index (Catalog.index_lt_of_class? hid)
  obtain rfl := Option.some.inj (hid.symm.trans hd')
  exact hflags

theorem walked_of_mem {m : MethodRef} (hm : m ∈ d.methods) : m ∈ r.walked := by
  obtain ⟨id, hid⟩ := Catalog.mem_classes_iff.mp hd
  exact h.members id d hid (h.flags_of_mem hd).1 m hm

end

end Swept

/-! ## Registering methods, then sweeping -/

/-- The registry on which some methods are registered, and nothing else was done. -/
def registered (S : Setting) (ms : List MethodRef) : Registry :=
  ((onCatalog (Catalog.registerMethods S ms)).run {}).state

theorem wellFormed_registered (S : Setting) (ms : List MethodRef) :
    (registered S ms).WellFormed S := by
  have hleads : (onCatalog (Catalog.registerMethods S ms)).Keeps (Leads S) :=
    discovery_leads fun _ hc =>
      Catalog.registerMethods_ensures hc (Scope.all_admitsEntries S ms)
  exact ((WellFormed.empty S).reaches (hleads {} (.empty S))).1

theorem wellFormed_walkAll {S : Setting} {r : Registry} (hr : r.WellFormed S) (g : CallGraph) :
    ((walkAll S g).run r).state.WellFormed S :=
  (hr.reaches (walkFrom_leads S g 0 r hr)).1

section

variable (hreg : ((onCatalog (Catalog.registerMethods S ms)).run {}).result = .ok ())

include hreg

/-- Registered methods are where a sweep starts from. -/
theorem swept_registered (hh : S.host.Coherent) (hA : A.AdmitsEntries S ms) :
    Swept S A g 0 (registered S ms) ∧ ∀ m ∈ ms, (registered S ms).catalog.HasMethod m := by
  obtain ⟨hd, hmethods⟩ : (Catalog.registerMethods S ms).Ensures {} _ :=
    Catalog.registerMethods_ensures (A := A) .empty hA
  have hwhole : (registered S ms).Whole fun _ => True :=
    onCatalog_maintains (Catalog.registerMethods_maintains ms) {} (Catalog.Whole.empty _)
      (Or.inl ⟨(), hreg⟩)
  refine ⟨⟨⟨(Catalog.Discovered.empty S A).discovery hh hd, hwhole.selfContained, ?_⟩, ?_, ?_⟩,
    hmethods hreg⟩
  · exact fun m hm => nomatch hm
  · intro id d hid hflag
    obtain ⟨d₀, hnone, -⟩ := Catalog.Discovery.of_membersWalked hd hid hflag
    simp [Catalog.class?] at hnone
  · exact fun i hi => absurd hi (Nat.not_lt_zero i)

/-- A sweep that succeeds has walked all methods that stand anywhere, the registered ones among
them. -/
theorem swept_walkAll (hh : S.host.Coherent) (hE : A.Encloses S g) (hA : A.AdmitsEntries S ms)
    (hok : ∃ report, ((walkAll S g).run (registered S ms)).result = .ok report) :
    let r' := ((walkAll S g).run (registered S ms)).state
    Swept S A g r'.catalog.classes.length r' ∧ ∀ m ∈ ms, m ∈ r'.walked := by
  intro r'
  obtain ⟨h, hmethods⟩ := swept_registered (g := g) hreg hh hA
  have h' : Swept S A g r'.catalog.classes.length r' := h.walkFrom hh hE hok
  have hext : (registered S ms).Extends r' :=
    have hr := wellFormed_registered S ms
    (hr.reaches (walkFrom_leads S g 0 _ hr)).2
  refine ⟨h', fun m hm => ?_⟩
  obtain ⟨d, hd, -, hmem⟩ := hext.catalog.hasMethod (hmethods m hm)
  exact h'.walked_of_mem hd hmem

/-- A sweep that succeeds leaves what the registered methods need. The sweep is judged twice. In the
widest scope all entries turn out to have facts, and this is what the scope they need asks for. -/
theorem complete_walkAll (hh : S.host.Coherent)
    (hok : ∃ report, ((walkAll S g).run (registered S ms)).result = .ok report) :
    Complete S g ms ((walkAll S g).run (registered S ms)).state := by
  obtain ⟨hall, hwalked⟩ := swept_walkAll hreg hh (Scope.all_encloses S g)
    (Scope.all_admitsEntries S ms) hok
  have hfacts : ∀ m ∈ ms, ∃ facts, g.facts? m = some facts := by
    intro m hm
    obtain ⟨facts, hf, -⟩ := hall.explored.settled m (hwalked m hm)
    exact ⟨facts, hf⟩
  obtain ⟨h, -⟩ := swept_walkAll hreg hh (Scope.needed_encloses hh g ms)
    (Scope.needed_admitsEntries hfacts) hok
  exact h.explored.complete hwalked fun m hm => h.explored.method_of_walked hm

/-- A sweep from registered methods succeeds if and only if a walk from them does. -/
theorem walkAll_isOk_iff (hh : S.host.Coherent) (hk : S.host.KnowsChains) :
    (∃ report, ((walkAll S g).run (registered S ms)).result = .ok report) ↔
      ∃ report, ((walk S g ms).run {}).result = .ok report := by
  constructor
  · intro hok
    have hsound := (complete_walkAll hreg hh hok).sound hh hk
    exact (walk_isOk_iff g ms {}).mpr
      (expandAll_succeeds hh hsound ms {} (.empty S _) fun m hm => .entry hm)
  · rintro ⟨report, hok⟩
    have hsound := (complete_of_walk hh hok).sound hh hk
    have hfacts : ∀ m ∈ ms, ∃ facts, g.facts? m = some facts := by
      intro m hm
      obtain ⟨facts, hf, -⟩ := hsound m (.entry hm)
      exact ⟨facts, hf⟩
    have hneeded := Scope.needed_admitsEntries (S := S) hfacts
    exact (swept_registered hreg hh hneeded).1.walkFrom_succeeds hh hsound

end

/-! ## The same findings -/

/-- Two registries hold the same, each in an order of its own. -/
structure SameFindings (r r' : Registry) : Prop where
  walked : r.walked.Perm r'.walked
  hostNames : (r.catalog.classes.map (·.hostName)).Perm (r'.catalog.classes.map (·.hostName))
  /-- A class has the same methods in both. -/
  methods : ∀ d ∈ r.catalog.classes, ∀ d' ∈ r'.catalog.classes, d'.hostName = d.hostName →
    d.methods.Perm d'.methods
  /-- A class has the same fields in both. -/
  fields : ∀ d ∈ r.catalog.classes, ∀ d' ∈ r'.catalog.classes, d'.hostName = d.hostName →
    (d.fields.map (·.declaration)).Perm (d'.fields.map (·.declaration))
  arrays : r.catalog.arrays.Perm r'.catalog.arrays

/-- The methods on a class are those that the entries lead to and that name it. -/
theorem Complete.method_iff (h : Complete S g entries r) (hd : r.catalog.class? id = some d)
    (m : MethodRef) : m ∈ d.methods ↔ g.Reachable entries m ∧ m.className = d.hostName := by
  have hdisc := h.explored.discovered
  refine ⟨(hdisc.members id d hd).1 m, fun ⟨hm, hname⟩ => ?_⟩
  obtain ⟨facts, -, hset, -⟩ := h.explored.settled m ((h.walked_iff m).mpr hm)
  obtain ⟨d', hd', hname', hmem⟩ := hset.method
  obtain rfl : d = d' := List.inj_on_of_nodup_map hdisc.wellFormed.names_nodup
    (Catalog.mem_classes_of_class? hd) hd' (hname.symm.trans hname'.symm)
  exact hmem

theorem Complete.sameFindings (hh : S.host.Coherent) (hr : r.WellFormed S) (hr' : r'.WellFormed S)
    (h : Complete S g entries r) (h' : Complete S g entries r') : SameFindings r r' := by
  have halike := h.alike hh h'
  constructor
  case walked =>
    refine (List.perm_ext_iff_of_nodup hr.walked_nodup hr'.walked_nodup).mpr fun m => ?_
    rw [h.walked_iff, h'.walked_iff]
  case hostNames =>
    refine (List.perm_ext_iff_of_nodup hr.catalog.names_nodup hr'.catalog.names_nodup).mpr
      fun name => ?_
    rw [Catalog.mem_hostNames_iff, Catalog.mem_hostNames_iff, halike.lookup_iff]
  case methods =>
    intro d hd d' hd' hn
    obtain ⟨id, hid⟩ := Catalog.mem_classes_iff.mp hd
    obtain ⟨id', hid'⟩ := Catalog.mem_classes_iff.mp hd'
    refine (List.perm_ext_iff_of_nodup (hr.catalog.descriptor hid).methods_nodup
      (hr'.catalog.descriptor hid').methods_nodup).mpr fun m => ?_
    rw [h.method_iff hid, h'.method_iff hid', hn]
  case fields => exact fun d hd d' hd' hn => (halike.classes d hd d' hd' hn).1.declarations
  case arrays => exact halike.arrays

/-- Methods that are registered and swept give what a walk from them gives : both succeed or fail,
and if they succeed, they find the same and are finalized to the same entries. Then all methods
that stand on a class are walked, and all classes are marked as walked. -/
theorem walkAll_agrees (P : Program) (config : LayoutConfig) (ms : List MethodRef)
    (hreg : ((onCatalog (Catalog.registerMethods ⟨P.host, config⟩ ms)).run {}).result = .ok ()) :
    let S : Setting := ⟨P.host, config⟩
    let swept := (walkAll S P.graph).run (registered S ms)
    let walked := (walk S P.graph ms).run {}
    ((∃ report, swept.result = .ok report) ↔ ∃ report, walked.result = .ok report) ∧
      ((∃ report, swept.result = .ok report) →
        SameFindings swept.state walked.state ∧
        (((∃ T, ((finalize S).run swept.state).result = .ok T) ↔
            ∃ T, ((finalize S).run walked.state).result = .ok T) ∧
          ∀ T T', ((finalize S).run swept.state).result = .ok T →
            ((finalize S).run walked.state).result = .ok T' →
            T.classes.Perm T'.classes ∧ T.arrayTypes.Perm T'.arrayTypes) ∧
        ∀ d ∈ swept.state.catalog.classes, (∀ m ∈ d.methods, m ∈ swept.state.walked) ∧
          d.membersWalked = true ∧ d.arraysWalked = true) := by
  intro S swept walked
  have hh : S.host.Coherent := P.host_coherent
  have hiff := walkAll_isOk_iff (g := P.graph) hreg hh P.host_knowsChains
  refine ⟨hiff, fun hok => ?_⟩
  obtain ⟨report, hok'⟩ := hiff.mp hok
  have h : Complete S P.graph ms swept.state := complete_walkAll hreg hh hok
  have h' : Complete S P.graph ms walked.state := complete_of_walk hh hok'
  have hr : swept.state.WellFormed S := wellFormed_walkAll (wellFormed_registered S ms) P.graph
  have hr' : walked.state.WellFormed S := wellFormed_walk S P.graph ms
  obtain ⟨hfinal, htables⟩ := finalize_of_alike hr hr' (h.alike hh h')
  refine ⟨h.sameFindings hh hr hr' h', ⟨hfinal, fun T T' hT hT' => ?_⟩, fun d hd => ?_⟩
  · obtain ⟨hclasses, harrays, -⟩ := htables T T' hT hT'
    exact ⟨hclasses, harrays⟩
  obtain ⟨hswept, -⟩ := swept_walkAll hreg hh (Scope.all_encloses S P.graph)
    (Scope.all_admitsEntries S ms) hok
  exact ⟨fun m hm => hswept.walked_of_mem hd hm, hswept.flags_of_mem hd⟩

/-- `A.f` is registered alone. The sweep comes to `B` because the walk from `A.f` does, and then
visits `B` as well. -/
theorem walkAll_agrees_cycle :
    let S : Setting := ⟨Program.cycle.host, {}⟩
    let ms : List MethodRef := [⟨"A", "f()"⟩]
    let swept := (walkAll S Program.cycle.graph).run (registered S ms)
    ((onCatalog (Catalog.registerMethods S ms)).run {}).result = .ok () ∧
      (registered S ms).catalog.classes.map (·.hostName) = ["A"] ∧
      (∃ report, swept.result = .ok report) ∧
      SameFindings swept.state ((walk S Program.cycle.graph ms).run {}).state ∧
      ∃ d ∈ swept.state.catalog.classes, d.hostName = "B" ∧ d.methods = [⟨"B", "g()"⟩] ∧
        d.membersWalked = true ∧ d.arraysWalked = true := by
  intro S ms swept
  have hreg : ((onCatalog (Catalog.registerMethods S ms)).run {}).result = .ok () := by
    decide +kernel
  obtain ⟨hiff, hsame⟩ := walkAll_agrees Program.cycle {} ms hreg
  have hrun : (expandAllWithin S Program.cycle.graph 4 ms {}).map (fun o =>
      (o.result, o.state.catalog.classes.map fun d => (d.hostName, d.methods))) =
      some (.ok (2, 2), [("A", [⟨"A", "f()"⟩]), ("B", [⟨"B", "g()"⟩])]) := by decide +kernel
  obtain ⟨o, ho, hend⟩ := Option.map_eq_some_iff.mp hrun
  obtain ⟨hresult, hclasses⟩ := Prod.mk.inj hend
  have hok : ∃ report, swept.result = .ok report :=
    hiff.mpr ((walk_isOk_iff _ _ _).mpr ⟨(2, 2), expandAll_of_within ho ▸ hresult⟩)
  obtain ⟨hfound, -, hclass⟩ := hsame hok
  refine ⟨hreg, by decide +kernel, hok, hfound, ?_⟩
  have hB : ("B", [(⟨"B", "g()"⟩ : MethodRef)]) ∈
      ((walk S Program.cycle.graph ms).run {}).state.catalog.classes.map
        fun d => (d.hostName, d.methods) := by
    rw [walk_state, expandAll_of_within ho, hclasses]
    simp
  obtain ⟨d', hd', hB⟩ := List.mem_map.mp hB
  obtain ⟨hname', hmethods'⟩ := Prod.mk.inj hB
  obtain ⟨d, hd, hname⟩ := List.mem_map.mp
    (hfound.hostNames.mem_iff.mpr (List.mem_map.mpr ⟨d', hd', hname'⟩))
  have hmethods := hfound.methods d hd d' hd' (hname'.trans hname.symm)
  rw [hmethods'] at hmethods
  exact ⟨d, hd, hname, List.perm_singleton.mp hmethods, (hclass d hd).2⟩

end Registry

end DeviceLayout
