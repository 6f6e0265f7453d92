import DeviceLayout.Proofs.Program.Chains
import Mathlib.Data.List.Perm.Subperm

/-!
# Chains by recursion

A climb keeps the classes it has come through, and a climb from the parent starts with another
list of them. The result does not show this : a class whose parents come back to it leads to a
cycle, and so does its parent. So the chain of a class is its parent in front of the parent's chain
(`Program.ancestors_eq_map`), and there is one exactly if the parents end in a declared root
(`Program.exists_ancestors_iff`). `Program.exactChain` collects this.
-/

open Relation

namespace DeviceLayout

namespace Program

variable {P : Program} {name parent : String} {above : List String} {declared : HostClass}

/-- Following parents ends in a declared class that has no parent. -/
def EndsInRoot (P : Program) (name : String) : Prop :=
  ∃ root declared, ReflTransGen P.Parent name root ∧ P.class? root = some declared ∧
    declared.parent = none

/-! ## One class and its parent -/

theorem Parent.unique {parent' : String} (h : P.Parent name parent) (h' : P.Parent name parent') :
    parent = parent' := by
  obtain ⟨declared, hdecl, hparent⟩ := h
  obtain ⟨declared', hdecl', hparent'⟩ := h'
  obtain rfl := Option.some.inj (hdecl.symm.trans hdecl')
  exact Option.some.inj (hparent.symm.trans hparent')

theorem Dangles.to_parent (hp : P.Parent name parent) (h : P.Dangles name) : P.Dangles parent := by
  obtain ⟨a, ha, hnone⟩ := h
  rcases ha.cases_head with rfl | ⟨next, hnext, ha⟩
  · obtain ⟨declared, hdecl, -⟩ := hp
    cases hnone.symm.trans hdecl
  · exact ⟨a, hp.unique hnext ▸ ha, hnone⟩

/-- If parents lead from a class back to it, they lead from its parent into the same cycle. -/
theorem Cycles.to_parent (hp : P.Parent name parent) (h : P.Cycles name) : P.Cycles parent := by
  obtain ⟨a, ha, hcycle⟩ := h
  rcases ha.cases_head with rfl | ⟨next, hnext, ha⟩
  · obtain ⟨next, hnext, hback⟩ := TransGen.head'_iff.mp hcycle
    exact ⟨name, hp.unique hnext ▸ hback, hcycle⟩
  · exact ⟨a, hp.unique hnext ▸ ha, hcycle⟩

/-- A class has no chain exactly if its parent has none. -/
theorem ancestors_eq_none_iff_parent (hp : P.Parent name parent) :
    P.ancestors name = none ↔ P.ancestors parent = none := by
  rw [ancestors_eq_none_iff, ancestors_eq_none_iff]
  exact or_congr ⟨.to_parent hp, .of_parent hp⟩ ⟨.to_parent hp, .of_parent hp⟩

/-! ## The recursion -/

theorem ancestors_of_undeclared (h : P.class? name = none) : P.ancestors name = none := by
  rw [ancestors, h, Option.bind_none]

theorem ancestors_of_root (h : P.class? name = some declared) (hroot : declared.parent = none) :
    P.ancestors name = some [] := by
  rw [ancestors, h, Option.bind_some, climb_of_root hroot]

/-- The chain of a class is its parent in front of the parent's chain. -/
theorem ancestors_eq_map (hp : P.Parent name parent) :
    P.ancestors name = (P.ancestors parent).map (parent :: ·) := by
  cases h : P.ancestors name with
  | none => rw [(ancestors_eq_none_iff_parent hp).mp h, Option.map_none]
  | some above =>
    obtain ⟨rest, rfl, hrest⟩ := ancestors_of_parent h hp
    rw [hrest, Option.map_some]

/-! ## Which classes have chains -/

/-- A chain leads to a root : its last class, or the class itself. -/
theorem endsInRoot_of_ancestors :
    ∀ {above : List String} {name : String}, P.ancestors name = some above → P.EndsInRoot name
  | [], name, h => by
    obtain ⟨declared, hdecl, hroot⟩ := class?_of_ancestors h
    exact ⟨name, declared, .refl, hdecl, hroot⟩
  | parent :: rest, name, h => by
    obtain ⟨declared, hdecl, hparent⟩ := class?_of_ancestors h
    obtain ⟨root, declared', hpath, hroot⟩ :=
      endsInRoot_of_ancestors (P.host_coherent.ancestors_tail h)
    exact ⟨root, declared', .head ⟨declared, hdecl, hparent⟩ hpath, hroot⟩

/-- A class has a chain exactly if following parents ends in a declared root. -/
theorem exists_ancestors_iff : (∃ above, P.ancestors name = some above) ↔ P.EndsInRoot name := by
  refine ⟨fun ⟨_, h⟩ => endsInRoot_of_ancestors h, ?_⟩
  rintro ⟨root, declared, hpath, hdecl, hroot⟩
  induction hpath using ReflTransGen.head_induction_on with
  | refl => exact ⟨[], ancestors_of_root hdecl hroot⟩
  | head hp _ ih =>
    obtain ⟨above, habove⟩ := ih
    exact ⟨_, by rw [ancestors_eq_map hp, habove, Option.map_some]⟩

/-- The classes of a chain are declared. -/
theorem isSome_class?_of_mem_ancestors (h : P.ancestors name = some above) :
    ∀ a ∈ above, (P.class? a).isSome := by
  intro a ha
  obtain ⟨below, rest, rfl⟩ := List.append_of_mem ha
  obtain ⟨declared, hdecl, -⟩ := class?_of_ancestors (P.host_coherent.ancestors_of_append h)
  rw [hdecl, Option.isSome_some]

/-- A chain is shorter than the list of the declared classes. -/
theorem length_lt_of_ancestors (h : P.ancestors name = some above) :
    above.length < P.classCount := by
  have hdeclared : name :: above ⊆ P.classNames := by
    intro a ha
    have hsome : (P.class? a).isSome := by
      rcases List.mem_cons.mp ha with rfl | ha
      · obtain ⟨declared, hdecl, -⟩ := class?_of_ancestors h
        rw [hdecl, Option.isSome_some]
      · exact isSome_class?_of_mem_ancestors h a ha
    obtain ⟨declared, hdecl⟩ := Option.isSome_iff_exists.mp hsome
    exact mem_map_of_valueOf? hdecl
  have hle := (List.subperm_of_subset (P.host_coherent.nodup_chain h) hdeclared).length_le
  rw [List.length_cons, classNames, List.length_map] at hle
  exact hle

/-! ## Chains are exact -/

/-- What the chain of a class is, and whether there is one. -/
structure ExactChain (P : Program) (name : String) : Prop where
  undeclared : P.class? name = none → P.ancestors name = none
  root : ∀ declared, P.class? name = some declared → declared.parent = none →
    P.ancestors name = some []
  /-- Below a parent, the chain is the parent in front of the parent's chain, if this has one. -/
  child : ∀ declared parent, P.class? name = some declared → declared.parent = some parent →
    P.ancestors name = (P.ancestors parent).map (parent :: ·)
  exists_iff : (∃ above, P.ancestors name = some above) ↔ P.EndsInRoot name
  declared : ∀ above, P.ancestors name = some above → ∀ a ∈ above, (P.class? a).isSome
  nodup : ∀ above, P.ancestors name = some above → above.Nodup
  irrefl : ∀ above, P.ancestors name = some above → name ∉ above
  length_lt : ∀ above, P.ancestors name = some above → above.length < P.classCount

/-- The chain of every class of every program is the one that the recursion along parents gives. -/
theorem exactChain (P : Program) (name : String) : P.ExactChain name where
  undeclared := ancestors_of_undeclared
  root _ := ancestors_of_root
  child declared _ hdecl hparent := ancestors_eq_map ⟨declared, hdecl, hparent⟩
  exists_iff := exists_ancestors_iff
  declared _ := isSome_class?_of_mem_ancestors
  nodup _ h := (List.nodup_cons.mp (P.host_coherent.nodup_chain h)).2
  irrefl _ h := (List.nodup_cons.mp (P.host_coherent.nodup_chain h)).1
  length_lt _ := length_lt_of_ancestors

end Program

end DeviceLayout
