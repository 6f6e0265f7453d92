import DeviceLayout.Proofs.Reachability.Log
import DeviceLayout.Proofs.Registry.Hierarchy
import Mathlib.Algebra.GroupWithZero.Nat
import Mathlib.Algebra.Order.BigOperators.Group.List
import Mathlib.Algebra.Order.Group.Nat
import Mathlib.Data.List.Dedup

/-!
# How long walks take

A walk takes one step for each method it queues, and it queues the callees of a method only when it
expands the method. So it takes at most as many steps as there are entries and calls in the facts of
the methods that are not expanded yet (`CallGraph.callsLeft`, `Registry.expandAllWithin_of_le`),
however often a method is queued and whatever cycles there are.

The walk over all classes takes a step for each class. It may create classes on the way, but each of
them is a class that the program declares, and no name is registered twice, so it comes to an end
after as many steps as there are declared classes (`Registry.walkFromWithin_of_le`). Both bounds are
for the recursions as they run : the versions with a number of steps to spend give the same outcome.
-/

open DeviceLayout.Action

namespace DeviceLayout

/-! ## Calls that are left -/

namespace CallGraph

/-- The number of calls in the facts of a method. -/
def callCount (g : CallGraph) (m : MethodRef) : Nat :=
  ((g.facts? m).map (·.calls.length)).getD 0

/-- The number of calls in the facts of all methods that are not in `seen`. -/
def callsLeft (g : CallGraph) (seen : List MethodRef) : Nat :=
  ((g.methods.dedup.filter (· ∉ seen)).map g.callCount).sum

/-- The more is seen, the fewer calls are left. -/
theorem sum_callCount_le (g : CallGraph) {seen seen' : List MethodRef} (hsub : seen ⊆ seen')
    (l : List MethodRef) : ((l.filter (· ∉ seen')).map g.callCount).sum ≤
      ((l.filter (· ∉ seen)).map g.callCount).sum := by
  have hfewer : (l.filter (· ∉ seen')).Sublist (l.filter (· ∉ seen)) :=
    List.monotone_filter_right l fun m hm => by
      have hm' : m ∉ seen' := by simpa using hm
      simpa using fun h => hm' (hsub h)
  exact List.Sublist.sum_le_sum (hfewer.map _) fun _ _ => Nat.zero_le _

/-- Seeing a method for the first time uses up its calls. -/
theorem callsLeft_add_le {g : CallGraph} {m : MethodRef} {facts : MethodFacts}
    {seen seen' : List MethodRef} (hf : g.facts? m = some facts) (hm : m ∉ seen)
    (hsub : seen ⊆ seen') (hm' : m ∈ seen') :
    facts.calls.length + g.callsLeft seen' ≤ g.callsLeft seen := by
  have hcount : g.callCount m = facts.calls.length := by
    rw [callCount, hf]
    rfl
  obtain ⟨before, after, hsplit⟩ := List.append_of_mem
    (List.mem_dedup.mpr (mem_methods_of_facts? hf))
  have hbefore := g.sum_callCount_le hsub before
  have hafter := g.sum_callCount_le hsub after
  rw [callsLeft, callsLeft, hsplit]
  simp only [List.filter_append, List.filter_cons, hm, hm', not_true_eq_false, not_false_eq_true,
    decide_true, decide_false, if_true, Bool.false_eq_true, if_false, List.map_append,
    List.map_cons, List.sum_append, List.sum_cons, hcount] at hbefore hafter ⊢
  omega

end CallGraph

/-- A catalog that follows a program has at most as many classes as the program declares. -/
theorem Catalog.Follows.length_le {P : Program} {c : Catalog}
    (h : c.Follows P) (hc : c.WellFormed) : c.classes.length ≤ P.classNames.dedup.length := by
  rw [← List.length_map (·.hostName)]
  refine (List.subperm_of_subset hc.names_nodup fun name hname => List.mem_dedup.mpr ?_).length_le
  obtain ⟨declared, hdecl, -⟩ := h.closed name (mem_hostNames_iff.mp hname)
  exact mem_map_of_valueOf? hdecl

namespace Registry

variable {S : Setting} {g : CallGraph}

/-! ## Walks from entries -/

/-- A queue with a method in it takes one step more than the rest. -/
theorem exists_succ_of_cons_le {m : MethodRef} {rest : List MethodRef} {left n : Nat}
    (hn : (m :: rest).length + left ≤ n) : ∃ k, n = k + 1 ∧ rest.length + left ≤ k := by
  rw [List.length_cons] at hn
  exact ⟨n - 1, by omega, by omega⟩

/-- Working off a queue takes a step for each method in it and for each call that is left. An
expanded method is not left any more, which pays for the callees it queues. -/
theorem expandAllWithin_of_le {queue : List MethodRef} {r : Registry} {n : Nat}
    (hn : queue.length + g.callsLeft r.walked ≤ n) :
    expandAllWithin S g n queue r = some (expandAll S g queue r) := by
  fun_induction expandAll S g queue r generalizing n with
  | case1 r => cases n <;> rfl
  | case2 r m rest hw ih =>
    obtain ⟨k, rfl, hk⟩ := exists_succ_of_cons_le hn
    rw [expandAllWithin, if_pos hw, ih hk]
  | case3 r m rest hw hf =>
    obtain ⟨k, rfl, -⟩ := exists_succ_of_cons_le hn
    rw [expandAllWithin, if_neg hw, hf]
  | case4 r m rest hw facts hf e he =>
    obtain ⟨k, rfl, -⟩ := exists_succ_of_cons_le hn
    rw [expandAllWithin, if_neg hw, hf]
    simp only [he]
  | case5 r m rest hw facts hf found he o more =>
    rename_i ih
    obtain ⟨k, rfl, hk⟩ := exists_succ_of_cons_le hn
    have hwalked : o.state.walked = r.walked ++ [m] := walked_expand he
    have hleft : facts.calls.length + g.callsLeft o.state.walked ≤ g.callsLeft r.walked :=
      CallGraph.callsLeft_add_le hf hw (hwalked ▸ List.subset_append_left ..) (by simp [hwalked])
    have hmore : more.length ≤ facts.calls.length := List.length_filter_le ..
    have hrest := ih (n := k) (by rw [List.length_append]; omega)
    rw [expandAllWithin, if_neg hw, hf]
    simp only [he]
    rw [hrest]
    rfl

/-- An expansion of a method of the graph writes of expansions of methods of the graph only. -/
theorem expand_writes {m : MethodRef} {facts : MethodFacts} (hf : g.facts? m = some facts) :
    (expand S m facts).Writes fun e => ∀ n, e.expands? = some n → n ∈ g.methods := by
  have hsilent : ∀ {α : Type} {x : Action Catalog α}, Silent x →
      (onCatalog x).Writes fun e => ∀ n, e.expands? = some n → n ∈ g.methods := fun hx =>
    .onPart (hx.mono fun e he n hn => nomatch he.symm.trans hn)
  refine .bind (hsilent (Catalog.registerMethod_silent S m)) fun _ => .bind (.modify _) fun _ => ?_
  refine .bind (.tell fun n hn => ?_) fun _ => hsilent (collect_silent S facts)
  exact Option.some.inj hn ▸ CallGraph.mem_methods_of_facts? hf

theorem expandAll_writes (queue : List MethodRef) :
    (⟨expandAll S g queue⟩ : Action Registry (Nat × Nat)).Writes
      fun e => ∀ n, e.expands? = some n → n ∈ g.methods := by
  intro r e he
  replace he : e ∈ (expandAll S g queue r).log := he
  fun_induction expandAll S g queue r with
  | case1 r => cases he
  | case2 r m rest hw ih => exact ih he
  | case3 r m rest hw hf => cases he
  | case4 r m rest hw facts hf e' he' => exact expand_writes hf r e he
  | case5 r m rest hw facts hf n hn o more ih =>
    rcases List.mem_append.mp he with he | he
    · exact expand_writes hf r e he
    · exact ih he

theorem walk_writes (entries : List MethodRef) :
    (walk S g entries).Writes fun e => ∀ n, e.expands? = some n → n ∈ g.methods :=
  .bind .get fun _ => .bind (expandAll_writes entries) fun _ => .bind .get fun _ =>
    .bind (.tell fun _ hn => nomatch hn) fun _ => .pure _

/-- A walk expands at most as many methods as the graph has facts for. -/
theorem length_expansions_walk_le {r : Registry} (hr : r.WellFormed S) (entries : List MethodRef) :
    (expansions ((walk S g entries).run r).log).length ≤ g.methods.dedup.length := by
  have hwalked := walk_records S g entries r
  have hnodup : (expansions ((walk S g entries).run r).log).Nodup := by
    have h := (hr.reaches (walk_leads S g entries r hr)).1.walked_nodup
    rw [hwalked] at h
    exact h.of_append_right
  refine (List.subperm_of_subset hnodup fun m hm => List.mem_dedup.mpr ?_).length_le
  obtain ⟨e, he, hexp⟩ := List.mem_filterMap.mp hm
  exact walk_writes entries r e he m hexp

/-! ## Walks over all classes -/

/-- What `walkFrom` makes of a registry, if it visits at most `n` classes. -/
def walkFromWithin (S : Setting) (g : CallGraph) :
    Nat → Nat → Registry → Option (Outcome Registry Report)
  | 0, next, r => if next < r.catalog.classes.length then none else some ⟨.ok {}, r, []⟩
  | n + 1, next, r =>
    if next < r.catalog.classes.length then
      let o := (walkWhole S g ⟨next⟩).run r
      match o.result with
      | .error e => some ⟨.error e, o.state, o.log⟩
      | .ok found =>
        (walkFromWithin S g n (next + 1) o.state).map fun rest => (rest.map found.merge).after o.log
    else some ⟨.ok {}, r, []⟩

/-- While there is a class to visit, not all classes that the program declares were visited. -/
theorem exists_succ_of_lt_length {P : Program} {config : LayoutConfig} {n next : Nat}
    {r : Registry} (hr : r.WellFormed ⟨P.host, config⟩) (hm : r.catalog.Mirrors P.host)
    (hnext : next < r.catalog.classes.length) (hn : P.classNames.dedup.length ≤ next + n) :
    ∃ k, n = k + 1 := by
  have hle := (hm.follows hr.catalog).length_le hr.catalog
  exact Nat.exists_eq_add_one.mpr (by omega)

/-- Walking the classes from `next` on visits those that the program declares, and each once. -/
theorem walkFromWithin_of_le {P : Program} {config : LayoutConfig} {n next : Nat} {r : Registry}
    (hr : r.WellFormed ⟨P.host, config⟩) (hm : r.catalog.Mirrors P.host)
    (hn : P.classNames.dedup.length ≤ next + n) :
    walkFromWithin ⟨P.host, config⟩ g n next r = some (walkFrom ⟨P.host, config⟩ g next r) := by
  fun_induction walkFrom ⟨P.host, config⟩ g next r generalizing n with
  | case1 next r hnext e he =>
    obtain ⟨k, rfl⟩ := exists_succ_of_lt_length hr hm hnext hn
    rw [walkFromWithin, if_pos hnext]
    simp only [he]
  | case2 next r hnext found hw o =>
    rename_i ih
    obtain ⟨k, rfl⟩ := exists_succ_of_lt_length hr hm hnext hn
    have hreaches := walkWhole_leads ⟨P.host, config⟩ g ⟨next⟩ r hr
    have hrest := ih (hr.reaches hreaches).1
      (hm.reaches P.host_coherent hr.catalog hreaches.catalog) (n := k) (by omega)
    rw [walkFromWithin, if_pos hnext]
    simp only [hw]
    rw [hrest]
    rfl
  | case3 next r hnext => cases n <;> rw [walkFromWithin, if_neg hnext]

/-! ## Registries with a history -/

/-- Walks end, from the registry that a history leads to, and no method is expanded twice. -/
structure WalksEnd (P : Program) (config : LayoutConfig) (g : CallGraph) (history : List Request) :
    Prop where
  /-- A walk takes at most a step for each entry and for each call that is left. -/
  walk_steps : ∀ entries,
    let r := after ⟨P.host, config⟩ history
    expandAllWithin ⟨P.host, config⟩ g (entries.length + g.callsLeft r.walked) entries r =
      some (expandAll ⟨P.host, config⟩ g entries r)
  /-- It expands at most as many methods as the graph has facts for. -/
  walk_expands : ∀ entries,
    (expansions ((walk ⟨P.host, config⟩ g entries).run (after ⟨P.host, config⟩ history)).log).length
      ≤ g.methods.dedup.length
  /-- A walk over all classes visits at most as many classes as the program declares. -/
  walkAll_visits :
    walkFromWithin ⟨P.host, config⟩ g P.classNames.dedup.length 0 (after ⟨P.host, config⟩ history) =
      some ((walkAll ⟨P.host, config⟩ g).run (after ⟨P.host, config⟩ history))
  /-- In the whole life of the registry, under whatever graphs, no method is expanded twice. -/
  expanded_once : (expansions (logAfter ⟨P.host, config⟩ history)).Nodup

/-- Walks from a registry with a history end within the bounds, under any call graph. -/
theorem walksEnd_after (P : Program) (config : LayoutConfig) (g : CallGraph)
    (history : List Request) : WalksEnd P config g history := by
  have hr := wellFormed_after ⟨P.host, config⟩ history
  have hm := mirrors_after (S := ⟨P.host, config⟩) P.host_coherent history
  exact
    { walk_steps := fun _ => expandAllWithin_of_le (Nat.le_refl _)
      walk_expands := length_expansions_walk_le hr
      walkAll_visits := walkFromWithin_of_le hr hm (Nat.le_add_left ..)
      expanded_once := by
        rw [expansions_logAfter]
        exact hr.walked_nodup }

end Registry

end DeviceLayout
