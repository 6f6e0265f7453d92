import DeviceLayout.Program.Model

/-!
# Hosts whose answers agree

In a coherent host (`Host.Coherent`) the chain above a class continues the chain above its
parent, and a declaration carries the name it was asked for by. A program is such a host
(`Program.host_coherent`) : whether a climb finds a cycle depends on the classes seen before,
but a climb that succeeds would succeed with fewer of them seen (`Program.climb_of_subset`). What is
known of climbs that succeed goes by their chains, one parent after another
(`Program.climb_eq_cons_iff`).
-/

namespace DeviceLayout

/-- Chains continue the chains of parents, and declarations carry their names. -/
structure Host.Coherent (host : Host) : Prop where
  ancestors_tail : ∀ {name parent rest}, host.ancestors name = some (parent :: rest) →
    host.ancestors parent = some rest
  name_eq : ∀ {className name field}, host.declaredField className name = some field →
    field.name = name

/-- The chain above any class of a chain is the rest of it. -/
theorem Host.Coherent.ancestors_of_append {host : Host} (hh : host.Coherent) {a : String} :
    ∀ {below above : List String} {name : String},
      host.ancestors name = some (below ++ a :: above) → host.ancestors a = some above
  | [], _, _, h => hh.ancestors_tail h
  | _ :: _, _, _, h => hh.ancestors_of_append (hh.ancestors_tail h)

namespace Program

variable {P : Program}

/-! ## One step of a climb -/

theorem climb_of_root {seen : List String} {c : HostClass} (hroot : c.parent = none) :
    P.climb seen c = some [] := by
  rw [climb, hroot]

theorem climb_of_parent {seen : List String} {c : HostClass} {parent : String}
    (hp : c.parent = some parent) : P.climb seen c =
      if parent ∈ seen then none
      else (P.class? parent).bind fun next =>
        (P.climb (parent :: seen) next).map (parent :: ·) := by
  rw [climb, hp]
  dsimp only
  by_cases hmem : parent ∈ seen
  · rw [dif_pos hmem, if_pos hmem]
  · rw [dif_neg hmem, if_neg hmem]
    split
    · next hnone => rw [hnone, Option.bind_none]
    · next next hnext => rw [hnext, Option.bind_some]

/-- A climb stops at once only at a root. -/
theorem climb_eq_nil_iff {seen : List String} {c : HostClass} :
    P.climb seen c = some [] ↔ c.parent = none := by
  cases hp : c.parent with
  | none => simp [climb_of_root hp]
  | some parent => simp [climb_of_parent hp, Option.bind_eq_some_iff]

/-- A climb that goes on goes to the declared parent, which it has not seen, and on from there. -/
theorem climb_eq_cons_iff {seen : List String} {c : HostClass} {parent : String}
    {rest : List String} : P.climb seen c = some (parent :: rest) ↔
      c.parent = some parent ∧ parent ∉ seen ∧
        ∃ next, P.class? parent = some next ∧ P.climb (parent :: seen) next = some rest := by
  cases hp : c.parent with
  | none => simp [climb_of_root hp]
  | some declared =>
    rw [climb_of_parent hp, Option.some.injEq]
    constructor
    · intro h
      split at h
      · cases h
      · next hmem =>
        obtain ⟨next, hnext, hclimb⟩ := Option.bind_eq_some_iff.mp h
        obtain ⟨above, habove, he⟩ := Option.map_eq_some_iff.mp hclimb
        obtain ⟨rfl, rfl⟩ := List.cons.inj he
        exact ⟨rfl, hmem, next, hnext, habove⟩
    · rintro ⟨rfl, hmem, next, hnext, hclimb⟩
      rw [if_neg hmem, hnext, Option.bind_some, hclimb, Option.map_some]

/-! ## Climbs that succeed -/

/-- A climb that succeeds starts with the parent. -/
theorem parent_eq_of_climb {seen : List String} {c : HostClass} {above : List String}
    (h : P.climb seen c = some above) : c.parent = above.head? := by
  cases above with
  | nil => exact climb_eq_nil_iff.mp h
  | cons parent rest => exact (climb_eq_cons_iff.mp h).1

/-- A class with a chain is declared, with the first class of the chain as its parent. -/
theorem class?_of_ancestors {name : String} {above : List String}
    (h : P.ancestors name = some above) :
    ∃ declared, P.class? name = some declared ∧ declared.parent = above.head? := by
  obtain ⟨declared, hdecl, hclimb⟩ := Option.bind_eq_some_iff.mp h
  exact ⟨declared, hdecl, parent_eq_of_climb hclimb⟩

/-- A climb that succeeds succeeds with fewer classes seen. -/
theorem climb_of_subset : ∀ {above seen seen' : List String} {c : HostClass}, seen' ⊆ seen →
    P.climb seen c = some above → P.climb seen' c = some above
  | [], _, _, _, _, h => climb_eq_nil_iff.mpr (climb_eq_nil_iff.mp h)
  | parent :: _, _, _, _, hs, h => by
    obtain ⟨hp, hmem, next, hnext, hrest⟩ := climb_eq_cons_iff.mp h
    have hrest' := climb_of_subset (List.cons_subset_cons parent hs) hrest
    exact climb_eq_cons_iff.mpr ⟨hp, fun hm => hmem (hs hm), next, hnext, hrest'⟩

/-- A climb reads the parents of the classes it meets, and nothing else. -/
theorem climb_congr {P' : Program} : ∀ {above seen : List String} {c c' : HostClass},
    c'.parent = c.parent → P.climb seen c = some above →
      (∀ n ∈ above, (P'.class? n).map (·.parent) = (P.class? n).map (·.parent)) →
        P'.climb seen c' = some above
  | [], _, _, _, hparent, h, _ => climb_eq_nil_iff.mpr (hparent.trans (climb_eq_nil_iff.mp h))
  | parent :: _, _, _, _, hparent, h, hagree => by
    obtain ⟨hp, hmem, next, hnext, hrest⟩ := climb_eq_cons_iff.mp h
    have hparents := hagree parent (List.mem_cons_self ..)
    rw [hnext, Option.map_some] at hparents
    obtain ⟨next', hnext', hsame⟩ := Option.map_eq_some_iff.mp hparents
    have hrest' := climb_congr hsame hrest fun n hn => hagree n (List.mem_cons_of_mem parent hn)
    exact climb_eq_cons_iff.mpr ⟨hparent.trans hp, hmem, next', hnext', hrest'⟩

/-- The chain above a class depends on the parents of the classes on it. -/
theorem ancestors_congr {P' : Program} {name : String} {above : List String}
    (h : P.ancestors name = some above)
    (hagree : ∀ n ∈ name :: above,
      (P'.class? n).map (·.parent) = (P.class? n).map (·.parent)) :
    P'.ancestors name = some above := by
  obtain ⟨c, hc, hclimb⟩ := Option.bind_eq_some_iff.mp h
  have hself := hagree name (List.mem_cons_self ..)
  rw [hc, Option.map_some] at hself
  obtain ⟨c', hc', hparent⟩ := Option.map_eq_some_iff.mp hself
  rw [ancestors, hc', Option.bind_some]
  exact climb_congr hparent hclimb fun n hn => hagree n (List.mem_cons_of_mem name hn)

/-- The answers of a program agree with one another. -/
theorem host_coherent (P : Program) : P.host.Coherent where
  ancestors_tail {name parent rest} h := by
    obtain ⟨c, hc, hclimb⟩ := Option.bind_eq_some_iff.mp (h : P.ancestors name = _)
    obtain ⟨-, -, next, hnext, hrest⟩ := climb_eq_cons_iff.mp hclimb
    have hsub : [parent] ⊆ [parent, name] := List.cons_subset_cons parent (List.nil_subset _)
    show (P.class? parent).bind (P.climb [parent]) = some rest
    rw [hnext, Option.bind_some, climb_of_subset hsub hrest]
  name_eq {className name field} h := by
    obtain ⟨fields, -, hf⟩ := Option.bind_eq_some_iff.mp h
    simpa using List.find?_some hf

end Program

end DeviceLayout
