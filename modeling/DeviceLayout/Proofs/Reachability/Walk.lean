import DeviceLayout.Reachability
import DeviceLayout.Proofs.Catalog.Discovery
import DeviceLayout.Proofs.Registry.Change

/-!
# What a walk leaves behind

Expanding a method takes steps of discovery and marks at most that method. If it succeeds, all
the method uses is in the catalog (`Catalog.Settled`, `Registry.expand_ensures`).

Working off a queue marks methods one after another. All of them but the one the walk may have
failed at are settled. If the walk did not fail, every queued method is marked, and so is every
callee of a method it marked (`Registry.expandAll_worked`). This holds from any state to start
from, whatever was marked before.
-/

open Relation DeviceLayout.Action

namespace DeviceLayout

/-! ## Reachable methods -/

namespace CallGraph

/-- The facts of `m` name `n` as a callee. -/
def Calls (g : CallGraph) (m n : MethodRef) : Prop :=
  ∃ facts, g.facts? m = some facts ∧ n ∈ facts.calls

/-- The methods that `entries` lead to : the least set that holds the entries and, with a
method, its callees. -/
inductive Reachable (g : CallGraph) (entries : List MethodRef) : MethodRef → Prop
  | entry {m : MethodRef} (h : m ∈ entries) : Reachable g entries m
  | call {m n : MethodRef} (hm : Reachable g entries m) (h : g.Calls m n) :
    Reachable g entries n

/-- The methods that `entries` lead to on ways that do not go on from a method of `seen`. -/
inductive ReachableAvoiding (g : CallGraph) (seen entries : List MethodRef) : MethodRef → Prop
  | entry {m : MethodRef} (h : m ∈ entries) : ReachableAvoiding g seen entries m
  | call {m n : MethodRef} (hm : ReachableAvoiding g seen entries m) (hseen : m ∉ seen)
    (h : g.Calls m n) : ReachableAvoiding g seen entries n

theorem Reachable.avoiding_nil {g : CallGraph} {entries : List MethodRef} {m : MethodRef}
    (h : g.Reachable entries m) : g.ReachableAvoiding [] entries m := by
  induction h with
  | entry h => exact .entry h
  | call _ h ih => exact .call ih List.not_mem_nil h

end CallGraph

/-! ## Settled methods -/

/-- What a method uses may be added : the method on its class, the fields it accesses, the
array types it mentions. -/
structure Scope.AdmitsMethod (A : Scope) (S : Setting) (c : Catalog) (m : MethodRef)
    (facts : MethodFacts) : Prop where
  className : A.AdmitsClass S m.className
  method : A.method m
  fields : ∀ access ∈ facts.fields, A.AdmitsAccess S c access
  arrays : ∀ t ∈ facts.arrays, t.isArray = true → A.AdmitsType S t

theorem Scope.all_admitsMethod (S : Setting) (c : Catalog) (m : MethodRef) (facts : MethodFacts) :
    Scope.all.AdmitsMethod S c m facts where
  className := all_admitsClass S _
  method := trivial
  fields access _ := all_admitsAccess S c access
  arrays t _ _ := all_admitsType S t

theorem Scope.AdmitsMethod.of_discovery {A : Scope} {S : Setting} {c c' : Catalog} {m : MethodRef}
    {facts : MethodFacts} (h : A.AdmitsMethod S c m facts) (hd : c.Discovery S A c') :
    A.AdmitsMethod S c' m facts :=
  { h with fields := fun access ha => (h.fields access ha).of_discovery hd }

namespace Catalog

variable {c c' : Catalog}

/-- All that a method uses is registered. -/
structure Settled (c : Catalog) (host : Host) (m : MethodRef) (facts : MethodFacts) : Prop where
  method : c.HasMethod m
  fields : ∀ access ∈ facts.fields, c.Resolves host access
  arrays : ∀ t ∈ facts.arrays, ∀ level ∈ t.arrayLevels, level ∈ c.arrays

theorem Extends.settled (h : c.Extends c') (hc : c.WellFormed) (hc' : c'.WellFormed) {host : Host}
    {m : MethodRef} {facts : MethodFacts} (hm : c.Settled host m facts) :
    c'.Settled host m facts where
  method := h.hasMethod hm.method
  fields access ha := h.resolves hc hc' (hm.fields access ha)
  arrays t ht level hlevel := h.arrays_prefix.subset (hm.arrays t ht level hlevel)

end Catalog

namespace Registry

variable {S : Setting} {A : Scope} {r r' r'' : Registry} {m : MethodRef} {facts : MethodFacts}
  {marked marked' : List MethodRef}

/-- From `r` to `r'` in steps of discovery within a scope, marking methods on the way. -/
structure Explores (S : Setting) (A : Scope) (r r' : Registry) (marked : List MethodRef) :
    Prop where
  catalog : r.catalog.Discovery S A r'.catalog
  layouts_eq : r'.layouts = r.layouts
  walked_eq : r'.walked = r.walked ++ marked
  registered : ∀ m ∈ marked, r'.catalog.HasMethod m

theorem Explores.refl (r : Registry) : Explores S A r r [] where
  catalog := .refl
  layouts_eq := rfl
  walked_eq := (List.append_nil _).symm
  registered _ h := nomatch h

theorem Explores.trans (h : Explores S A r r' marked) (h' : Explores S A r' r'' marked') :
    Explores S A r r'' (marked ++ marked') where
  catalog := h.catalog.trans h'.catalog
  layouts_eq := h'.layouts_eq.trans h.layouts_eq
  walked_eq := by rw [h'.walked_eq, h.walked_eq, List.append_assoc]
  registered m hm := by
    rcases List.mem_append.mp hm with hm | hm
    · exact h'.catalog.reaches.extends.hasMethod (h.registered m hm)
    · exact h'.registered m hm

/-- Nothing is marked by steps of the catalog. -/
theorem Explores.of_catalog {c' : Catalog} (h : r.catalog.Discovery S A c') :
    Explores S A r { r with catalog := c' } [] where
  catalog := h
  layouts_eq := rfl
  walked_eq := (List.append_nil _).symm
  registered _ h := nomatch h

theorem reaches_of_walked : ∀ {marked : List MethodRef} {r : Registry},
    (r.walked ++ marked).Nodup → Reaches S r { r with walked := r.walked ++ marked }
  | [], r, _ => by
    rw [List.append_nil]
    exact .refl
  | m :: marked, r, h => by
    have hm : m ∉ r.walked := fun hm => (List.nodup_append.mp h).2.2 m hm m (by simp) rfl
    have hrest : ((r.walked ++ [m]) ++ marked).Nodup := by simpa using h
    have htail : Reaches S { r with walked := r.walked ++ [m] }
        { r with walked := (r.walked ++ [m]) ++ marked } := reaches_of_walked hrest
    rw [show r.walked ++ m :: marked = (r.walked ++ [m]) ++ marked by simp]
    exact ReflTransGen.head (.walk hm) htail

/-- An exploration that marks nothing twice takes steps. -/
theorem Explores.reaches (h : Explores S A r r' marked) (hnodup : r'.walked.Nodup) :
    Reaches S r r' := by
  have hwalked := reaches_of_walked (S := S) (r := { r with catalog := r'.catalog })
    (h.walked_eq ▸ hnodup)
  have hr' : r' = { r with catalog := r'.catalog, walked := r.walked ++ marked } := by
    rw [← h.walked_eq, ← h.layouts_eq]
  rw [hr']
  exact (reaches_of_catalog h.catalog.reaches).trans hwalked

/-! ## Expanding one method -/

/-- Collecting what a method uses takes steps of discovery, and finds all of it if it succeeds. -/
theorem collect_ensures {c : Catalog} (hc : c.WellFormed)
    (hfields : ∀ access ∈ facts.fields, A.AdmitsAccess S c access)
    (harrays : ∀ t ∈ facts.arrays, t.isArray = true → A.AdmitsType S t) :
    (collect S facts).Ensures c fun res c' =>
      c.Discovery S A c' ∧ ∀ n, res = .ok n →
        (∀ access ∈ facts.fields, c'.Resolves S.host access) ∧
          ∀ t ∈ facts.arrays, ∀ level ∈ t.arrayLevels, level ∈ c'.arrays := by
  refine (Catalog.registerFields_ensures hc hfields).bind ?_
    fun e c' hd => ⟨hd.1, fun _ hn => nomatch hn⟩
  rintro found c₁ ⟨hd₁, hresolved⟩
  have hc₁ := hc.reaches hd₁.reaches
  refine (Catalog.recordArrays_ensures hc₁ harrays).bind ?_
    fun e c' hd => ⟨hd₁.trans hd.1, fun _ hn => nomatch hn⟩
  rintro ⟨⟩ c₂ ⟨hd₂, hlevels⟩
  refine .pure ⟨hd₁.trans hd₂, fun _ _ => ⟨fun access ha => ?_, hlevels rfl⟩⟩
  exact hd₂.reaches.extends.resolves hc₁ (hc₁.reaches hd₂.reaches)
    (hresolved found rfl access ha)

/-- Expanding a method marks at most this method, and settles it if it succeeds. -/
theorem expand_ensures (hc : r.catalog.WellFormed) (hA : A.AdmitsMethod S r.catalog m facts) :
    (expand S m facts).Ensures r fun res r' =>
      (∃ marked, Explores S A r r' marked ∧ (marked = [] ∨ marked = [m])) ∧
        ∀ n, res = .ok n → Explores S A r r' [m] ∧ r'.catalog.Settled S.host m facts := by
  refine Ensures.bind (Q := fun res r' => Explores S A r r' [] ∧
    ∀ b, res = .ok b → r'.catalog.HasMethod m) ?_ ?_ ?_
  · refine .onPart ((Catalog.registerMethod_ensures hc hA.className hA.method).mono ?_)
    exact fun res c' ⟨hd, hm⟩ => ⟨.of_catalog hd, hm⟩
  · rintro b r₁ ⟨he₁, hm⟩
    have hc₁ := hc.reaches he₁.catalog.reaches
    let r₂ : Registry := { r₁ with walked := r₁.walked ++ [m] }
    have he₂ : Explores S A r r₂ [m] :=
      { catalog := he₁.catalog
        layouts_eq := he₁.layouts_eq
        walked_eq := by rw [show r₂.walked = r₁.walked ++ [m] from rfl, he₁.walked_eq]; simp
        registered := by simpa [r₂] using hm b rfl }
    refine .modify_bind (.tell_bind (.onPart ?_))
    refine (collect_ensures hc₁
      (fun access ha => (hA.fields access ha).of_discovery he₁.catalog) hA.arrays).mono ?_
    rintro res c' ⟨hd, hfound⟩
    have he₃ : Explores S A r { r₂ with catalog := c' } [m] := he₂.trans (.of_catalog hd)
    refine ⟨⟨[m], he₃, Or.inr rfl⟩, fun n hn => ⟨he₃, ?_⟩⟩
    obtain ⟨hfields, harrays⟩ := hfound n hn
    exact ⟨he₃.registered m (by simp), hfields, harrays⟩
  · rintro e r₁ ⟨he₁, -⟩
    exact ⟨⟨[], he₁, Or.inl rfl⟩, fun _ hn => nomatch hn⟩

/-! ## Working off a queue -/

/-- What working off `queue` from `r` leaves behind, when all methods it meets satisfy `Q` :
the methods `done` were expanded, and those of `failed`, at most one, marked only. -/
structure Worked (S : Setting) (A : Scope) (g : CallGraph) (Q : MethodRef → Prop)
    (queue : List MethodRef) (r : Registry) (o : Outcome Registry (Nat × Nat))
    (done failed : List MethodRef) : Prop where
  explores : Explores S A r o.state (done ++ failed)
  nodup : r.walked.Nodup → o.state.walked.Nodup
  within : ∀ m ∈ done ++ failed, Q m
  settled : ∀ m ∈ done, ∃ facts, g.facts? m = some facts ∧
    o.state.catalog.Settled S.host m facts
  failed_le : failed.length ≤ 1
  complete : ∀ found, o.result = .ok found → failed = [] ∧ ∀ m ∈ queue, m ∈ o.state.walked
  closed : ∀ found, o.result = .ok found → ∀ m ∈ done, ∀ n, g.Calls m n → n ∈ o.state.walked

/-- `Q` holds of the callees of a method it holds of, and the scope admits the method. -/
def Closed (S : Setting) (A : Scope) (g : CallGraph) (c : Catalog) (Q : MethodRef → Prop) :
    Prop :=
  ∀ m facts, Q m → g.facts? m = some facts →
    (∀ n ∈ facts.calls, Q n) ∧ A.AdmitsMethod S c m facts

theorem Closed.of_discovery {g : CallGraph} {c c' : Catalog} {Q : MethodRef → Prop}
    (h : Closed S A g c Q) (hd : c.Discovery S A c') : Closed S A g c' Q :=
  fun m facts hm hf => ⟨(h m facts hm hf).1, (h m facts hm hf).2.of_discovery hd⟩

theorem closed_all (S : Setting) (g : CallGraph) (c : Catalog) :
    Closed S .all g c fun _ => True :=
  fun m facts _ _ => ⟨fun _ _ => trivial, Scope.all_admitsMethod S c m facts⟩

theorem nodup_walked_append (h : Explores S A r r' marked)
    (hmarked : marked = [] ∨ marked = [m]) (hm : m ∉ r.walked) (hr : r.walked.Nodup) :
    r'.walked.Nodup := by
  rw [h.walked_eq]
  rcases hmarked with rfl | rfl
  · rwa [List.append_nil]
  · exact hr.append (List.nodup_singleton m) (by simpa using hm)

section

variable {g : CallGraph} {Q : MethodRef → Prop} {rest done failed : List MethodRef}
  {o : Outcome Registry (Nat × Nat)}

/-- Nothing is queued. -/
theorem Worked.nil (r : Registry) : Worked S A g Q [] r ⟨.ok (0, 0), r, []⟩ [] [] where
  explores := .refl r
  nodup := id
  within _ hm := nomatch hm
  settled _ hm := nomatch hm
  failed_le := Nat.zero_le 1
  complete _ _ := ⟨rfl, fun _ hm => nomatch hm⟩
  closed _ _ _ hm := nomatch hm

/-- A method that is marked already is passed over. -/
theorem Worked.skip (h : Worked S A g Q rest r o done failed) (hm : m ∈ r.walked) :
    Worked S A g Q (m :: rest) r o done failed :=
  { h with
    complete := by
      intro found hok
      obtain ⟨hnone, hqueue⟩ := h.complete found hok
      refine ⟨hnone, fun n hn => ?_⟩
      rcases List.mem_cons.mp hn with rfl | hn
      · rw [h.explores.walked_eq]
        exact List.mem_append_left _ hm
      · exact hqueue n hn }

/-- A method that cannot be expanded ends the walk. -/
theorem Worked.stop {e : LayoutError} {log : List Event} (h : Explores S A r r' marked)
    (hmarked : marked = [] ∨ marked = [m]) (hm : m ∉ r.walked) (hQ : Q m) :
    Worked S A g Q (m :: rest) r ⟨.error e, r', log⟩ [] marked where
  explores := h
  nodup := nodup_walked_append h hmarked hm
  within n hn := by
    rcases hmarked with rfl | rfl
    · cases hn
    · rwa [List.mem_singleton.mp hn]
  settled _ hn := nomatch hn
  failed_le := by rcases hmarked with rfl | rfl <;> simp
  complete _ hok := nomatch hok
  closed _ hok := nomatch hok

/-- A method is expanded, its callees are queued, and the walk goes on. A callee that is not marked
at this point is among those that are queued. -/
theorem Worked.step {facts : MethodFacts} {n : Nat} {log : List Event} (hm : m ∉ r.walked)
    (hf : g.facts? m = some facts) (hQ : Q m) (hc : r.catalog.WellFormed)
    (h : Explores S A r r' [m]) (hsettled : r'.catalog.Settled S.host m facts)
    (hrest : Worked S A g Q (rest ++ facts.calls.filter fun callee => callee ∉ r'.walked) r' o
      done failed) :
    Worked S A g Q (m :: rest) r
      ((o.map fun found => (found.1 + 1, found.2 + n)).after log) (m :: done) failed := by
  let o' := (o.map fun found => (found.1 + 1, found.2 + n)).after log
  have hc' := hc.reaches h.catalog.reaches
  have hlater := hrest.explores.catalog.reaches
  have hmarked : m ∈ o.state.walked := by
    rw [hrest.explores.walked_eq, h.walked_eq]
    simp
  have hok : ∀ found, o'.result = .ok found → ∃ found', o.result = .ok found' :=
    fun found hfound => Outcome.exists_ok_map_after.mp ⟨found, hfound⟩
  refine
    { explores := h.trans hrest.explores
      nodup := fun hr => hrest.nodup (nodup_walked_append h (Or.inr rfl) hm hr)
      within := ?_
      settled := ?_
      failed_le := hrest.failed_le
      complete := ?_
      closed := ?_ }
  · intro k hk
    rcases List.mem_cons.mp hk with rfl | hk
    · exact hQ
    · exact hrest.within k hk
  · intro k hk
    rcases List.mem_cons.mp hk with rfl | hk
    · exact ⟨facts, hf, hlater.extends.settled hc' (hc'.reaches hlater) hsettled⟩
    · exact hrest.settled k hk
  · intro found hfound
    obtain ⟨found', hfound'⟩ := hok found hfound
    obtain ⟨hnone, hqueue⟩ := hrest.complete found' hfound'
    refine ⟨hnone, fun k hk => ?_⟩
    rcases List.mem_cons.mp hk with rfl | hk
    · exact hmarked
    · exact hqueue k (List.mem_append_left _ hk)
  · intro found hfound k hk callee hcall
    obtain ⟨found', hfound'⟩ := hok found hfound
    rcases List.mem_cons.mp hk with rfl | hk
    · obtain ⟨facts', hf', hcallee⟩ := hcall
      obtain rfl := Option.some.inj (hf.symm.trans hf')
      by_cases hw : callee ∈ r'.walked
      · show callee ∈ o.state.walked
        rw [hrest.explores.walked_eq]
        exact List.mem_append_left _ hw
      · refine (hrest.complete found' hfound').2 callee (List.mem_append_right _ ?_)
        exact List.mem_filter.mpr ⟨hcallee, by simpa using hw⟩
    · exact hrest.closed found' hfound' k hk callee hcall

/-- A queue worked off to the end has come to whatever its methods lead to on ways that do not go
on from a method marked before. -/
theorem Worked.mem_walked (h : Worked S A g Q rest r o done failed)
    {found : Nat × Nat} (hok : o.result = .ok found)
    (hm : g.ReachableAvoiding r.walked rest m) : m ∈ o.state.walked := by
  obtain ⟨rfl, hentries⟩ := h.complete found hok
  induction hm with
  | entry hmem => exact hentries _ hmem
  | call _ hseen hcall ih =>
    rw [h.explores.walked_eq, List.append_nil] at ih
    rcases List.mem_append.mp ih with hm | hm
    · exact absurd hm hseen
    · exact h.closed found hok _ hm _ hcall

/-- What is marked by a walk that succeeds is settled, and its callees are marked. -/
theorem Worked.settled_of_ok (h : Worked S A g Q rest r o done failed)
    {found : Nat × Nat} (hok : o.result = .ok found) (hm : m ∈ o.state.walked)
    (hnew : m ∉ r.walked) :
    ∃ facts, g.facts? m = some facts ∧ o.state.catalog.Settled S.host m facts ∧
      ∀ n ∈ facts.calls, n ∈ o.state.walked := by
  obtain ⟨rfl, -⟩ := h.complete found hok
  rw [h.explores.walked_eq, List.append_nil] at hm
  rcases List.mem_append.mp hm with hm | hm
  · exact absurd hm hnew
  · obtain ⟨facts, hf, hset⟩ := h.settled m hm
    exact ⟨facts, hf, hset, fun n hn => h.closed found hok m hm n ⟨facts, hf, hn⟩⟩

end

/-- Working off a queue, from any state. -/
theorem expandAll_worked {g : CallGraph} {Q : MethodRef → Prop} (queue : List MethodRef)
    (r : Registry) (hc : r.catalog.WellFormed) (hclosed : Closed S A g r.catalog Q)
    (hqueue : ∀ m ∈ queue, Q m) :
    ∃ done failed, Worked S A g Q queue r (expandAll S g queue r) done failed := by
  fun_induction expandAll S g queue r with
  | case1 r =>
    exact ⟨[], [], .nil r⟩
  | case2 r m rest hw ih =>
    obtain ⟨done, failed, h⟩ := ih hc hclosed fun n hn => hqueue n (List.mem_cons_of_mem m hn)
    exact ⟨done, failed, h.skip hw⟩
  | case3 r m rest hw hf =>
    exact ⟨[], [], .stop (.refl r) (Or.inl rfl) hw (hqueue m (List.mem_cons_self ..))⟩
  | case4 r m rest hw facts hf e he =>
    have hQ := hqueue m (List.mem_cons_self ..)
    obtain ⟨⟨marked, hexp, hmarked⟩, -⟩ := expand_ensures hc (hclosed m facts hQ hf).2
    exact ⟨[], marked, .stop hexp hmarked hw hQ⟩
  | case5 r m rest hw facts hf n he o more ih =>
    have hQ := hqueue m (List.mem_cons_self ..)
    obtain ⟨hcalls, hA⟩ := hclosed m facts hQ hf
    obtain ⟨hexp, hsettled⟩ := (expand_ensures hc hA).2 n he
    have hc' := hc.reaches hexp.catalog.reaches
    obtain ⟨done, failed, h⟩ := ih hc' (hclosed.of_discovery hexp.catalog) (by
      intro k hk
      rcases List.mem_append.mp hk with hk | hk
      · exact hqueue k (List.mem_cons_of_mem m hk)
      · exact hcalls k (List.mem_filter.mp hk).1)
    exact ⟨m :: done, failed, .step hw hf hQ hc hexp hsettled h⟩

/-! ## Step by step -/

section

variable {g : CallGraph} {rest : List MethodRef}

theorem expandAll_of_walked (hm : m ∈ r.walked) :
    expandAll S g (m :: rest) r = expandAll S g rest r := by
  rw [expandAll, dif_pos hm]

theorem expandAll_of_unknown (hm : m ∉ r.walked) (hf : g.facts? m = none) :
    expandAll S g (m :: rest) r = ⟨.error (.unknownMethod m), r, []⟩ := by
  rw [expandAll, dif_neg hm]
  split
  · rfl
  · next hf' => cases hf.symm.trans hf'

theorem expandAll_of_error (hm : m ∉ r.walked) (hf : g.facts? m = some facts) {e : LayoutError}
    (he : ((expand S m facts).run r).result = .error e) :
    expandAll S g (m :: rest) r = ⟨.error e, ((expand S m facts).run r).state,
      ((expand S m facts).run r).log⟩ := by
  rw [expandAll, dif_neg hm]
  split
  · next hf' => cases hf.symm.trans hf'
  · next facts' hf' =>
    obtain rfl := Option.some.inj (hf.symm.trans hf')
    split
    · next e' he' => rw [Except.error.inj (he'.symm.trans he)]
    · next n he' => cases he.symm.trans he'

theorem expandAll_of_ok (hm : m ∉ r.walked) (hf : g.facts? m = some facts) {n : Nat}
    (he : ((expand S m facts).run r).result = .ok n) :
    expandAll S g (m :: rest) r =
      let o := (expand S m facts).run r
      let more := facts.calls.filter fun callee => callee ∉ o.state.walked
      ((expandAll S g (rest ++ more) o.state).map fun found =>
        (found.1 + 1, found.2 + n)).after o.log := by
  rw [expandAll, dif_neg hm]
  split
  · next hf' => cases hf.symm.trans hf'
  · next facts' hf' =>
    obtain rfl := Option.some.inj (hf.symm.trans hf')
    split
    · next e he' => cases he.symm.trans he'
    · next n' he' => rw [Except.ok.inj (he'.symm.trans he)]

end

/-- What `expandAll` makes of a queue, if that takes at most `n` steps. `expandAll` recurses on
how much of the graph is left, which no evaluation sees through; this evaluates. -/
def expandAllWithin (S : Setting) (g : CallGraph) :
    Nat → List MethodRef → Registry → Option (Outcome Registry (Nat × Nat))
  | _, [], r => some ⟨.ok (0, 0), r, []⟩
  | 0, _ :: _, _ => none
  | n + 1, m :: rest, r =>
    if m ∈ r.walked then expandAllWithin S g n rest r
    else
      match g.facts? m with
      | none => some ⟨.error (.unknownMethod m), r, []⟩
      | some facts =>
        let o := (expand S m facts).run r
        match o.result with
        | .error e => some ⟨.error e, o.state, o.log⟩
        | .ok k =>
          let more := facts.calls.filter fun callee => callee ∉ o.state.walked
          (expandAllWithin S g n (rest ++ more) o.state).map fun rest =>
            (rest.map fun found => (found.1 + 1, found.2 + k)).after o.log

theorem expandAll_of_within {g : CallGraph} :
    ∀ {n : Nat} {queue : List MethodRef} {r : Registry} {o : Outcome Registry (Nat × Nat)},
      expandAllWithin S g n queue r = some o → expandAll S g queue r = o
  | _, [], r, o, h => by
    rw [expandAllWithin] at h
    rw [expandAll, Option.some.inj h]
  | 0, _ :: _, _, _, h => nomatch h
  | n + 1, m :: rest, r, o, h => by
    rw [expandAllWithin] at h
    split at h
    · next hm => rw [expandAll_of_walked hm, expandAll_of_within h]
    · next hm =>
      split at h
      · next hf => rw [expandAll_of_unknown hm hf, Option.some.inj h]
      · next facts hf =>
        dsimp only at h
        split at h
        · next e he => rw [expandAll_of_error hm hf he, Option.some.inj h]
        · next k he =>
          obtain ⟨o', ho', rfl⟩ := Option.map_eq_some_iff.mp h
          rw [expandAll_of_ok hm hf he, ← expandAll_of_within ho']

/-! ## Walking -/

/-- A walk ends in the state in which the queue is worked off. -/
theorem walk_state (g : CallGraph) (entries : List MethodRef) (r : Registry) :
    ((walk S g entries).run r).state = (expandAll S g entries r).state := by
  rw [walk, run_get_bind, run_bind, Outcome.andThen]
  dsimp only
  cases (expandAll S g entries r).result with
  | ok found => rfl
  | error e => rfl

/-- A walk succeeds if and only if the queue can be worked off. -/
theorem walk_isOk_iff (g : CallGraph) (entries : List MethodRef) (r : Registry) :
    (∃ report, ((walk S g entries).run r).result = .ok report) ↔
      ∃ found, (expandAll S g entries r).result = .ok found := by
  rw [walk, run_get_bind, run_bind, Outcome.andThen]
  dsimp only
  cases (expandAll S g entries r).result with
  | ok found => exact ⟨fun _ => ⟨found, rfl⟩, fun _ => ⟨_, rfl⟩⟩
  | error e =>
    constructor
    · rintro ⟨report, h⟩
      cases h
    · rintro ⟨found, h⟩
      cases h

/-- A walk that succeeds answers what was counted on the way, and the differences. -/
theorem walk_result_of_ok {g : CallGraph} {entries : List MethodRef} {found : ℕ × ℕ}
    (h : (expandAll S g entries r).result = .ok found) :
    let r' := (expandAll S g entries r).state
    ((walk S g entries).run r).result = .ok
      { methods := found.1, fields := found.2
        arrays := r'.catalog.arrays.length - r.catalog.arrays.length
        classes := r'.catalog.classes.length - r.catalog.classes.length } := by
  rw [walk, run_get_bind, run_bind, Outcome.andThen]
  dsimp only
  rw [h]
  rfl

/-- A walk fails with the error that ends the queue. -/
theorem walk_result_of_error {g : CallGraph} {entries : List MethodRef} {e : LayoutError}
    (h : (expandAll S g entries r).result = .error e) :
    ((walk S g entries).run r).result = .error e := by
  rw [walk, run_get_bind, run_bind, Outcome.andThen]
  dsimp only
  rw [h]

theorem walk_leads (S : Setting) (g : CallGraph) (entries : List MethodRef) :
    (walk S g entries).Keeps (Leads S) := by
  intro r hr
  obtain ⟨done, failed, h⟩ := expandAll_worked (Q := fun _ => True) entries r hr.catalog
    (closed_all S g r.catalog) fun _ _ => trivial
  rw [walk_state]
  exact h.explores.reaches (h.nodup hr.walked_nodup)

/-- A walk from nothing leaves a well-formed registry, whether it succeeds or not. -/
theorem wellFormed_walk (S : Setting) (g : CallGraph) (entries : List MethodRef) :
    ((walk S g entries).run {}).state.WellFormed S :=
  ((WellFormed.empty S).reaches (walk_leads S g entries {} (.empty S))).1

end Registry

end DeviceLayout
