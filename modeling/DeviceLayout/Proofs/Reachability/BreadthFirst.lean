import DeviceLayout.Proofs.Reachability.Explored
import DeviceLayout.Proofs.Reachability.Log
import Mathlib.Data.Nat.Find
import Mathlib.Order.Bounds.Basic

/-!
# Walks go breadth first

The queue of a walk may hold a method many times : a method is queued whenever it is called, until
it is expanded for the first time. What was expanded is passed over later. So methods are expanded
in the order of their first mention, where the entries are mentioned first, and then the callees of
the methods in the order in which these are expanded (`Registry.expandAll_order`). This equation
does not tell an order from one in which a method is mentioned by itself alone; but each method is
mentioned before it is expanded.

An order of first mentions visits methods by their distance (`CallGraph.FirstMentions.reachableIn`)
: if a method is called by one that is reached in `k` calls, whatever is mentioned before is called
by a method that comes no later, and that by induction is reached in no more than `k` calls.

Methods are registered as they are expanded, so the methods of a class stand in the same order
(`Catalog.Lists`).
-/

open DeviceLayout.Action
open scoped List

namespace DeviceLayout

/-! ## Orders of first mentions -/

namespace CallGraph

variable {g : CallGraph} {entries order before after : List MethodRef} {m n : MethodRef} {k : ℕ}

/-- The methods that the facts of a method name as callees, in their order. -/
def callees (g : CallGraph) (m : MethodRef) : List MethodRef :=
  ((g.facts? m).map (·.calls)).getD []

/-- The callees of a method stand in the order of its facts. -/
theorem callees_of_facts? {facts : MethodFacts} (h : g.facts? m = some facts) :
    g.callees m = facts.calls := by
  rw [callees, h, Option.map_some, Option.getD_some]

theorem mem_callees_iff : n ∈ g.callees m ↔ g.Calls m n := by
  rw [callees, Calls]
  cases g.facts? m <;> simp

/-- The methods that are mentioned while those of `order` are expanded : the entries, then the
callees of one method after another. -/
def mentions (g : CallGraph) (entries order : List MethodRef) : List MethodRef :=
  entries ++ order.flatMap g.callees

/-- Methods that are expanded later mention nothing earlier. -/
theorem mentions_prefix (g : CallGraph) (entries before after : List MethodRef) :
    g.mentions entries before <+: g.mentions entries (before ++ after) := by
  rw [mentions, mentions, List.flatMap_append, ← List.append_assoc]
  exact List.prefix_append _ _

/-- Mentioned are the entries and the callees of what is expanded. -/
theorem mem_mentions_iff :
    m ∈ g.mentions entries order ↔ m ∈ entries ∨ ∃ n ∈ order, g.Calls n m := by
  simp only [mentions, List.mem_append, List.mem_flatMap, mem_callees_iff]

/-- The methods stand in the order of their first mentions, and each is mentioned by an entry or
by a method before it. -/
structure FirstMentions (g : CallGraph) (entries order : List MethodRef) : Prop where
  eq_eraseDups : order = (g.mentions entries order).eraseDups
  mem_mentions : ∀ {before m after}, order = before ++ m :: after → m ∈ g.mentions entries before

namespace FirstMentions

/-- Everything that is mentioned is expanded, and nothing else. -/
theorem mem_order_iff (h : g.FirstMentions entries order) :
    m ∈ order ↔ m ∈ g.mentions entries order := by
  conv_lhs => rw [h.eq_eraseDups]
  exact List.mem_eraseDups

/-- What is expanded earlier was mentioned earlier. -/
theorem idxOf_lt (h : g.FirstMentions entries order) (hmn : [m, n] <+ order) :
    (g.mentions entries order).idxOf m < (g.mentions entries order).idxOf n := by
  have hfirst := pairwise_idxOf_eraseDups (g.mentions entries order)
  rw [← h.eq_eraseDups] at hfirst
  exact List.pairwise_iff_forall_sublist.mp hfirst hmn

/-- No method is expanded twice. -/
theorem nodup (h : g.FirstMentions entries order) : order.Nodup :=
  h.eq_eraseDups ▸ nodup_eraseDups _

/-- When a method is expanded, it was mentioned before all those that come after it. -/
theorem idxOf_lt_of_split (h : g.FirstMentions entries order)
    (hsplit : order = before ++ m :: after) (hn : n ∈ after) :
    (g.mentions entries before).idxOf m < (g.mentions entries before).idxOf n := by
  have hfront : g.mentions entries before <+: g.mentions entries order :=
    hsplit ▸ mentions_prefix g entries before _
  have hm := h.mem_mentions hsplit
  have hmn : [m, n] <+ order := by
    rw [hsplit]
    exact ((List.singleton_sublist.mpr hn).cons_cons m).trans (List.sublist_append_right _ _)
  have hlt := h.idxOf_lt hmn
  rw [← hfront.idxOf_eq_of_mem hm] at hlt
  by_cases hmem : n ∈ g.mentions entries before
  · rwa [hfront.idxOf_eq_of_mem hmem]
  · rw [List.idxOf_of_notMem hmem]
    exact List.idxOf_lt_length_of_mem hm

end FirstMentions

/-! ## Call distance -/

/-- `entries` lead to the method by `k` calls. -/
inductive ReachableIn (g : CallGraph) (entries : List MethodRef) : ℕ → MethodRef → Prop
  | entry {m : MethodRef} (h : m ∈ entries) : ReachableIn g entries 0 m
  | call {k : ℕ} {m n : MethodRef} (hm : ReachableIn g entries k m) (h : g.Calls m n) :
    ReachableIn g entries (k + 1) n

/-- The least number of calls by which `entries` lead to the method. -/
def Distance (g : CallGraph) (entries : List MethodRef) (m : MethodRef) (k : ℕ) : Prop :=
  IsLeast {k | g.ReachableIn entries k m} k

/-- Every way has a number of calls. -/
theorem Reachable.exists_reachableIn (h : g.Reachable entries m) :
    ∃ k, g.ReachableIn entries k m := by
  induction h with
  | entry h => exact ⟨0, .entry h⟩
  | call _ h ih =>
    obtain ⟨k, hk⟩ := ih
    exact ⟨k + 1, .call hk h⟩

theorem ReachableIn.reachable (h : g.ReachableIn entries k m) : g.Reachable entries m := by
  induction h with
  | entry h => exact .entry h
  | call _ h ih => exact .call ih h

/-- A method that can be reached has a distance : the least number of calls that lead to it. -/
theorem Reachable.exists_distance (h : g.Reachable entries m) : ∃ k, g.Distance entries m k := by
  classical
  obtain ⟨k, hk⟩ := h.exists_reachableIn
  exact ⟨Nat.find ⟨k, hk⟩, Nat.find_spec ⟨k, hk⟩, fun _ hj => Nat.find_le hj⟩

namespace FirstMentions

/-- By induction along the order, everything that is expanded can be reached. -/
theorem reachable_of_prefix (h : g.FirstMentions entries order) {front : List MethodRef}
    (hfront : front <+: order) : ∀ m ∈ front, g.Reachable entries m := by
  induction front using List.reverseRecOn with
  | nil => exact fun _ hm => nomatch hm
  | append_singleton front m ih =>
    have hreach := ih ((List.prefix_append front [m]).trans hfront)
    obtain ⟨after, hsplit⟩ := hfront
    intro n hn
    rcases List.mem_append.mp hn with hn | hn
    · exact hreach n hn
    · obtain rfl := List.mem_singleton.mp hn
      rw [List.append_assoc, List.singleton_append] at hsplit
      rcases mem_mentions_iff.mp (h.mem_mentions hsplit.symm) with hentry | ⟨p, hp, hcall⟩
      · exact .entry hentry
      · exact .call (hreach p hp) hcall

/-- Expanded is exactly what can be reached. A way that can be reached is followed call by call, and
never leaves the order. -/
theorem mem_iff_reachable (h : g.FirstMentions entries order) :
    m ∈ order ↔ g.Reachable entries m := by
  refine ⟨h.reachable_of_prefix (List.prefix_refl order) m, fun hm => ?_⟩
  induction hm with
  | entry hentry => exact h.mem_order_iff.mpr (mem_mentions_iff.mpr (Or.inl hentry))
  | call _ hcall ih => exact h.mem_order_iff.mpr (mem_mentions_iff.mpr (Or.inr ⟨_, ih, hcall⟩))

/-- A method that comes before another one is reached in no more calls. The mentions up to the
callees of the caller of the later one hold it, and so the earlier one as well. -/
theorem reachableIn (h : g.FirstMentions entries order) (hk : g.ReachableIn entries k n) :
    ∀ {m}, [m, n] <+ order → ∃ j ≤ k, g.ReachableIn entries j m := by
  induction hk with
  | entry hentry =>
    intro m hmn
    have hfront : entries <+: g.mentions entries order := List.prefix_append _ _
    exact ⟨0, Nat.le_refl 0, .entry (mem_of_idxOf_lt hfront hentry (h.idxOf_lt hmn))⟩
  | @call k p n hp hcall ih =>
    intro m hmn
    obtain ⟨front, back, hsplit⟩ := List.append_of_mem (h.mem_iff_reachable.mpr hp.reachable)
    have hfront : g.mentions entries (front ++ [p]) <+: g.mentions entries order := by
      rw [hsplit.trans (List.append_cons front p back)]
      exact mentions_prefix g entries _ back
    have hn : n ∈ g.mentions entries (front ++ [p]) :=
      mem_mentions_iff.mpr (Or.inr ⟨p, List.mem_append_right _ (List.mem_singleton_self p), hcall⟩)
    rcases mem_mentions_iff.mp (mem_of_idxOf_lt hfront hn (h.idxOf_lt hmn)) with
      hentry | ⟨q, hq, hqm⟩
    · exact ⟨0, Nat.zero_le _, .entry hentry⟩
    · rcases List.mem_append.mp hq with hq | hq
      · have hqp : [q, p] <+ order := by
          rw [hsplit]
          exact (List.singleton_sublist.mpr hq).append
            (List.singleton_sublist.mpr (List.mem_cons_self ..))
        obtain ⟨j, hj, hqj⟩ := ih hqp
        exact ⟨j + 1, Nat.succ_le_succ hj, .call hqj hqm⟩
      · obtain rfl := List.mem_singleton.mp hq
        exact ⟨k + 1, Nat.le_refl _, .call hp hqm⟩

end FirstMentions

/-- All that the entries lead to, once each, nearer methods first, and otherwise in the order of
the first mentions. -/
structure BreadthFirst (g : CallGraph) (entries order : List MethodRef) : Prop where
  nodup : order.Nodup
  mem_iff : ∀ m, m ∈ order ↔ g.Reachable entries m
  /-- The call distance does not decrease. -/
  distance_le : order.Pairwise fun m n =>
    ∃ j k, g.Distance entries m j ∧ g.Distance entries n k ∧ j ≤ k
  /-- When a method is expanded, it has been mentioned by an entry or by a method expanded before
  it, and this was before any mention of the methods that come after it. -/
  mentioned : ∀ before m after, order = before ++ m :: after →
    m ∈ g.mentions entries before ∧ ∀ n ∈ after,
      (g.mentions entries before).idxOf m < (g.mentions entries before).idxOf n

/-- An order by first mentions has all that breadth first means. -/
theorem FirstMentions.breadthFirst (h : g.FirstMentions entries order) :
    g.BreadthFirst entries order where
  nodup := h.nodup
  mem_iff _ := h.mem_iff_reachable
  distance_le := List.pairwise_iff_forall_sublist.mpr fun {m n} hmn => by
    obtain ⟨j, hj⟩ := (h.mem_iff_reachable (m := m).mp (hmn.subset (by simp))).exists_distance
    obtain ⟨k, hk⟩ := (h.mem_iff_reachable (m := n).mp (hmn.subset (by simp))).exists_distance
    obtain ⟨i, hik, hi⟩ := h.reachableIn hk.1 hmn
    exact ⟨j, k, hj, hk, (hj.2 hi).trans hik⟩
  mentioned _ _ _ hsplit :=
    ⟨h.mem_mentions hsplit, fun _ hn => h.idxOf_lt_of_split hsplit hn⟩

end CallGraph

namespace Registry

variable {S : Setting} {g : CallGraph}

/-- Working off a queue expands what was not marked, in the order of the first mentions. Callees
that an expanded method does not queue are the method itself or marked before. -/
theorem expandAll_order (queue : List MethodRef) (r : Registry) :
    ∀ {found}, (expandAll S g queue r).result = .ok found →
      ∃ order, (expandAll S g queue r).state.walked = r.walked ++ order ∧
        order = ((g.mentions queue order).filter (· ∉ r.walked)).eraseDups ∧
        ∀ {before m after}, order = before ++ m :: after → m ∈ g.mentions queue before := by
  fun_induction expandAll S g queue r with
  | case1 r => exact fun _ => ⟨[], (List.append_nil _).symm, rfl, by simp⟩
  | case2 r m rest hw ih =>
    intro found hok
    obtain ⟨order, hwalked, heq, hmention⟩ := ih hok
    refine ⟨order, hwalked, ?_, fun hsplit => List.mem_cons_of_mem m (hmention hsplit)⟩
    rwa [CallGraph.mentions, List.cons_append, List.filter_cons_of_neg (by simpa using hw)]
  | case3 r m rest hw hf =>
    intro found hok
    cases hok
  | case4 r m rest hw facts hf e he =>
    intro found hok
    cases hok
  | case5 r m rest hw facts hf n he o more =>
    rename_i ih
    intro found hok
    obtain ⟨found', hok'⟩ := Outcome.exists_ok_map_after.mp ⟨found, hok⟩
    obtain ⟨order, hwalked, heq, hmention⟩ := ih hok'
    have hmarked : o.state.walked = r.walked ++ [m] := walked_expand he
    have hcallees : g.callees m = facts.calls := CallGraph.callees_of_facts? hf
    refine ⟨m :: order, ?_, ?_, ?_⟩
    · show (expandAll S g (rest ++ more) o.state).state.walked = _
      rw [hwalked, hmarked, List.append_assoc, List.singleton_append]
    · have hrest : (g.mentions (rest ++ more) order).filter (· ∉ o.state.walked) =
          ((rest ++ (g.callees m ++ order.flatMap g.callees)).filter (· ∉ r.walked)).filter
            fun callee => !callee == m := by
        simp [CallGraph.mentions, more, hmarked, hcallees, List.filter_filter, beq_eq_decide,
          Bool.and_comm]
      rw [CallGraph.mentions, List.flatMap_cons, List.cons_append,
        List.filter_cons_of_pos (by simpa using hw), List.eraseDups_cons, ← hrest, ← heq]
    · intro before k after hsplit
      rcases List.cons_eq_append_iff.mp hsplit with ⟨rfl, hcons⟩ | ⟨before', rfl, hrest⟩
      · obtain ⟨rfl, -⟩ := List.cons.inj hcons
        exact List.mem_append_left _ (List.mem_cons_self ..)
      · have hk := hmention hrest
        simp only [CallGraph.mentions, more, List.mem_append, List.mem_filter, List.mem_cons,
          List.flatMap_cons, hcallees] at hk ⊢
        tauto

/-- From nothing, a queue worked off leaves the methods in the order of their first mentions. -/
theorem firstMentions_of_ok {queue : List MethodRef} {found : ℕ × ℕ}
    (hok : (expandAll S g queue {}).result = .ok found) :
    g.FirstMentions queue (expandAll S g queue {}).state.walked := by
  obtain ⟨order, hwalked, heq, hmention⟩ := expandAll_order queue {} hok
  rw [List.nil_append] at hwalked
  rw [hwalked]
  exact ⟨by simpa using heq, hmention⟩

end Registry

/-! ## The methods of a class -/

/-- Everything may be added, but only one method. -/
def Scope.onlyMethod (m : MethodRef) : Scope :=
  { Scope.all with method := fun n => n = m }

/-- An expansion registers its own method and no other. -/
theorem Scope.onlyMethod_admitsMethod (S : Setting) (c : Catalog) (m : MethodRef)
    (facts : MethodFacts) : (onlyMethod m).AdmitsMethod S c m facts where
  className _ _ _ _ := trivial
  method := rfl
  fields _ _ := ⟨fun _ _ _ _ => trivial, fun _ _ _ _ =>
    ⟨trivial, fun _ _ _ _ _ _ => trivial, fun _ _ => trivial⟩⟩
  arrays _ _ _ := ⟨fun _ _ _ _ _ _ => trivial, fun _ _ => trivial⟩

namespace Catalog

variable {S : Setting} {c c' : Catalog} {id : ClassId} {d d' : ClassDescriptor} {m : MethodRef}
  {ms : List MethodRef}

/-- The methods of a class, none if it is not registered. -/
def methodsAt (c : Catalog) (id : ClassId) : List MethodRef :=
  ((c.class? id).map (·.methods)).getD []

/-- The methods at an id are those of its class. -/
theorem methodsAt_eq (h : c.class? id = some d) : c.methodsAt id = d.methods := by
  rw [methodsAt, h, Option.map_some, Option.getD_some]

/-- Where one method may be added, a class has the methods it had, or this one behind them. A class
that is added on the way has an id of which there was no class before, so it begins empty. -/
theorem Discovery.methods_cases (h : c.Discovery S (.onlyMethod m) c')
    (hd' : c'.class? id = some d') : d'.methods = c.methodsAt id ∨
      m.className = d'.hostName ∧ d'.methods = c.methodsAt id ++ [m] := by
  induction h generalizing d' with
  | refl => exact Or.inl (methodsAt_eq hd').symm
  | tail hpre hstep ih =>
    cases hstep with
    | newClass hA hnew hfits =>
      rcases class?_withClass hd' with hold | ⟨rfl, rfl⟩
      · exact ih hold
      · have hle := (Discovery.reaches hpre).extends.length_classes_le
        have hnone : c.class? ⟨_⟩ = none := List.getElem?_eq_none_iff.mpr hle
        rw [methodsAt, hnone]
        exact Or.inl rfl
    | @addMethod _ d₀ _ hA h hname hnew =>
      rcases class?_withDescriptor h hd' with ⟨rfl, rfl⟩ | ⟨-, hold⟩
      · obtain rfl := hA.symm
        rcases ih h with hsame | ⟨-, hadded⟩
        · exact Or.inr ⟨hname.symm, by rw [hsame]⟩
        · have hmem : m ∈ d₀.methods := hadded ▸ List.mem_append_right _ (List.mem_singleton_self m)
          simp [ClassDescriptor.hasMethod, hmem] at hnew
      · exact ih hold
    | addField hA h hnew hopen =>
      rcases class?_withDescriptor h hd' with ⟨rfl, rfl⟩ | ⟨-, hold⟩
      · have hd := ih h
        exact hd
      · exact ih hold
    | addArrays hA => exact ih hd'

/-- The registered methods are those of `ms`, and those of a class stand in the same order. -/
structure Lists (c : Catalog) (ms : List MethodRef) : Prop where
  methods_eq : ∀ d ∈ c.classes, d.methods = ms.filter fun m => m.className = d.hostName
  registered : ∀ m ∈ ms, c.HasMethod m

theorem Lists.empty : Lists {} [] :=
  ⟨(fun _ h => nomatch h), (fun _ h => nomatch h)⟩

/-- The methods of a class, later registered, are those of the list that name it. A class that was
not there has none: one of its name would have been kept, under the same id. -/
theorem Lists.methodsAt_eq (h : c.Lists ms) (hc' : c'.WellFormed) (he : c.Extends c')
    (hd' : c'.class? id = some d') :
    c.methodsAt id = ms.filter fun m => m.className = d'.hostName := by
  cases hid : c.class? id with
  | some d =>
    obtain ⟨d'', hd'', hext⟩ := he.class? hid
    obtain rfl := Option.some.inj (hd'.symm.trans hd'')
    rw [Catalog.methodsAt_eq hid, h.methods_eq d (mem_classes_of_class? hid), hext.hostName_eq]
  | none =>
    rw [methodsAt, hid]
    refine (List.filter_eq_nil_iff.mpr fun m hm hname => ?_).symm
    obtain ⟨d, hd, hclass, -⟩ := h.registered m hm
    obtain ⟨i, hi⟩ := mem_classes_iff.mp hd
    obtain ⟨d'', hd'', hext⟩ := he.class? hi
    have hsame : d''.hostName = d'.hostName :=
      hext.hostName_eq.trans (hclass.trans (of_decide_eq_true hname))
    have hlookup := (hsame ▸ hc'.lookup_hostName hd'').symm.trans (hc'.lookup_hostName hd')
    rw [← Option.some.inj hlookup, hi] at hid
    cases hid

/-- A method that is registered takes its place behind those that were. -/
theorem Lists.append (h : c.Lists ms) (hc' : c'.WellFormed)
    (hd : c.Discovery S (.onlyMethod m) c') (hm : c'.HasMethod m) (hfresh : m ∉ ms) :
    c'.Lists (ms ++ [m]) := by
  have he := (Discovery.reaches hd).extends
  refine ⟨fun d' hd' => ?_, fun n hn => ?_⟩
  · obtain ⟨id, hid⟩ := mem_classes_iff.mp hd'
    have hold := h.methodsAt_eq hc' he hid
    rcases hd.methods_cases hid with hsame | ⟨hname, hadded⟩
    · have hne : m.className ≠ d'.hostName := by
        intro hname
        obtain ⟨d'', hd'', hclass, hmem⟩ := hm
        obtain rfl : d'' = d' :=
          List.inj_on_of_nodup_map hc'.names_nodup hd'' hd' (hclass.trans hname)
        rw [hsame, hold] at hmem
        exact hfresh (List.mem_filter.mp hmem).1
      simp [hsame, hold, hne]
    · simp [hadded, hold, hname]
  · rcases List.mem_append.mp hn with hn | hn
    · exact he.hasMethod (h.registered n hn)
    · exact List.mem_singleton.mp hn ▸ hm

end Catalog

namespace Registry

variable {S : Setting} {g : CallGraph}

/-- A queue worked off leaves the methods of each class in the order in which they were marked. -/
theorem expandAll_lists (queue : List MethodRef) (r : Registry) (hc : r.catalog.WellFormed)
    (hl : r.catalog.Lists r.walked) :
    ∀ {found}, (expandAll S g queue r).result = .ok found →
      (expandAll S g queue r).state.catalog.Lists (expandAll S g queue r).state.walked := by
  fun_induction expandAll S g queue r with
  | case1 r => exact fun _ => hl
  | case2 r m rest hw ih => exact ih hc hl
  | case3 r m rest hw hf =>
    intro found hok
    cases hok
  | case4 r m rest hw facts hf e he =>
    intro found hok
    cases hok
  | case5 r m rest hw facts hf n he o more =>
    rename_i ih
    intro found hok
    obtain ⟨found', hok'⟩ := Outcome.exists_ok_map_after.mp ⟨found, hok⟩
    obtain ⟨hexp, hsettled⟩ :=
      (expand_ensures hc (Scope.onlyMethod_admitsMethod S r.catalog m facts)).2 n he
    have hc' := hc.reaches hexp.catalog.reaches
    have hlists := hl.append hc' hexp.catalog hsettled.method hw
    exact ih hc' (hexp.walked_eq ▸ hlists) hok'

/-- A walk from nothing that succeeds expands breadth first, as its log says, and leaves the methods
of each class in the order in which they were expanded. -/
theorem walk_breadthFirst (P : Program) (config : LayoutConfig) (entries : List MethodRef)
    {report : Report}
    (hok : ((walk ⟨P.host, config⟩ P.graph entries).run {}).result = .ok report) :
    let o := (walk ⟨P.host, config⟩ P.graph entries).run {}
    P.graph.BreadthFirst entries (expansions o.log) ∧
      ∀ d ∈ o.state.catalog.classes,
        d.methods = (expansions o.log).filter fun m => m.className = d.hostName := by
  let S : Setting := ⟨P.host, config⟩
  obtain ⟨found, hfound⟩ := (walk_isOk_iff P.graph entries {}).mp ⟨report, hok⟩
  have hlog : expansions ((walk S P.graph entries).run {}).log =
      (expandAll S P.graph entries {}).state.walked := by
    rw [← walk_state, walk_records S P.graph entries {}, List.nil_append]
  have hlists : Catalog.Lists _ _ := expandAll_lists entries {} .empty .empty hfound
  intro o
  rw [hlog, show o.state = _ from walk_state P.graph entries {}]
  exact ⟨(firstMentions_of_ok hfound).breadthFirst, hlists.methods_eq⟩

end Registry

/-- Methods that can be called on several ways, which differ in their lengths. -/
def Program.detours : Program where
  classes := [("A", {}), ("B", {})]
  graph := ⟨[(⟨"A", "f()"⟩, ⟨[⟨"B", "g()"⟩, ⟨"A", "h()"⟩, ⟨"B", "g()"⟩], [], []⟩),
    (⟨"B", "g()"⟩, ⟨[⟨"A", "k()"⟩, ⟨"A", "h()"⟩, ⟨"A", "f()"⟩], [], []⟩),
    (⟨"A", "h()"⟩, ⟨[⟨"B", "l()"⟩, ⟨"A", "k()"⟩], [], []⟩),
    (⟨"A", "k()"⟩, ⟨[], [], []⟩), (⟨"B", "l()"⟩, ⟨[⟨"A", "h()"⟩], [], []⟩)]⟩

/-- Methods that are called on several ways are expanded once, in the order of their first mentions.
-/
theorem Registry.walk_breadthFirst_detours :
    let o := (walk ⟨Program.detours.host, {}⟩ Program.detours.graph
      [⟨"A", "f()"⟩, ⟨"A", "f()"⟩]).run {}
    (∃ report, o.result = .ok report) ∧
      expansions o.log = [⟨"A", "f()"⟩, ⟨"B", "g()"⟩, ⟨"A", "h()"⟩, ⟨"A", "k()"⟩, ⟨"B", "l()"⟩] ∧
      Program.detours.graph.BreadthFirst [⟨"A", "f()"⟩, ⟨"A", "f()"⟩] (expansions o.log) ∧
      ∀ d ∈ o.state.catalog.classes,
        d.methods = (expansions o.log).filter fun m => m.className = d.hostName := by
  intro o
  have hrun : (expandAllWithin ⟨Program.detours.host, {}⟩ Program.detours.graph 12
      [⟨"A", "f()"⟩, ⟨"A", "f()"⟩] {}).map (fun o => (o.result, o.state.walked)) =
      some (.ok (5, 0),
        [⟨"A", "f()"⟩, ⟨"B", "g()"⟩, ⟨"A", "h()"⟩, ⟨"A", "k()"⟩, ⟨"B", "l()"⟩]) := by
    decide +kernel
  obtain ⟨w, hw, heq⟩ := Option.map_eq_some_iff.mp hrun
  obtain ⟨hresult, hwalked⟩ := Prod.mk.inj heq
  have hall := expandAll_of_within hw
  obtain ⟨report, hok⟩ := (walk_isOk_iff _ _ _).mpr ⟨(5, 0), hall ▸ hresult⟩
  refine ⟨⟨report, hok⟩, ?_, walk_breadthFirst Program.detours {} _ hok⟩
  have hrecords := walk_records ⟨Program.detours.host, {}⟩ Program.detours.graph
    [⟨"A", "f()"⟩, ⟨"A", "f()"⟩] {}
  rw [walk_state, hall, hwalked] at hrecords
  exact hrecords.symm

end DeviceLayout
