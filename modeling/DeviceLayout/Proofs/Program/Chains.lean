import DeviceLayout.Proofs.Program.Ancestors
import Mathlib.Data.List.Nodup
import Mathlib.Logic.Relation

/-!
# Where chains end

Following declared parents from a class ends at a root, or leads to a class that nobody declared
(`Program.Dangles`), or goes round for ever (`Program.Cycles`). A program gives a chain in the
first case and in no other (`Program.ancestors_eq_none_iff`).

The climb keeps a list of the classes it has come through. All of them lead to the class it stands
on, so a parent from that list closes a cycle. Conversely each parent takes one class off a chain,
so nothing that follows from a class with a chain is undeclared or comes back to itself.
-/

open Relation

namespace DeviceLayout

/-- No class stands twice on a chain. A second occurrence would have the same chain above it as the
first, and that is longer. -/
theorem Host.Coherent.nodup_chain {host : Host} (hh : host.Coherent) :
    ∀ {above : List String} {name : String},
      host.ancestors name = some above → (name :: above).Nodup
  | [], _, _ => List.nodup_singleton _
  | parent :: rest, name, h => by
    refine List.nodup_cons.mpr ⟨fun hmem => ?_, hh.nodup_chain (hh.ancestors_tail h)⟩
    obtain ⟨below, again, hsplit⟩ := List.append_of_mem hmem
    have hagain := hh.ancestors_of_append (hsplit ▸ h)
    have hlen := congrArg List.length hsplit
    rw [Option.some.inj (h.symm.trans hagain), List.length_append, List.length_cons] at hlen
    omega

namespace Program

variable {P : Program} {name parent a : String} {above : List String}

/-- `parent` is the declared parent of `name`. -/
def Parent (P : Program) (name parent : String) : Prop :=
  ∃ declared, P.class? name = some declared ∧ declared.parent = some parent

/-- Following parents leads to a class that nobody declared. -/
def Dangles (P : Program) (name : String) : Prop :=
  ∃ a, ReflTransGen P.Parent name a ∧ P.class? a = none

/-- Following parents leads to a class from which they lead back to it. -/
def Cycles (P : Program) (name : String) : Prop :=
  ∃ a, ReflTransGen P.Parent name a ∧ TransGen P.Parent a a

theorem Dangles.of_parent (hp : P.Parent name parent) (h : P.Dangles parent) : P.Dangles name := by
  obtain ⟨a, ha, hnone⟩ := h
  exact ⟨a, .head hp ha, hnone⟩

theorem Cycles.of_parent (hp : P.Parent name parent) (h : P.Cycles parent) : P.Cycles name := by
  obtain ⟨a, ha, hcycle⟩ := h
  exact ⟨a, .head hp ha, hcycle⟩

/-! ## A chain rules both out -/

/-- The chain above a parent is the chain above the class without its first member. -/
theorem ancestors_of_parent (h : P.ancestors name = some above) (hp : P.Parent name parent) :
    ∃ rest, above = parent :: rest ∧ P.ancestors parent = some rest := by
  obtain ⟨declared, hdecl, hhead⟩ := class?_of_ancestors h
  obtain ⟨declared', hdecl', hparent⟩ := hp
  obtain rfl := Option.some.inj (hdecl.symm.trans hdecl')
  obtain ⟨rest, rfl⟩ := List.head?_eq_some_iff.mp (hhead.symm.trans hparent)
  exact ⟨rest, rfl, P.host_coherent.ancestors_tail h⟩

/-- What a class leads to has a shorter chain. -/
theorem ancestors_of_transGen (h : P.ancestors name = some above)
    (ha : TransGen P.Parent name a) :
    ∃ rest, P.ancestors a = some rest ∧ rest.length < above.length := by
  induction ha with
  | single hp =>
    obtain ⟨rest, rfl, hrest⟩ := ancestors_of_parent h hp
    exact ⟨rest, hrest, Nat.lt_succ_self _⟩
  | tail _ hp ih =>
    obtain ⟨_, hmid, hlt⟩ := ih
    obtain ⟨rest, rfl, hrest⟩ := ancestors_of_parent hmid hp
    exact ⟨rest, hrest, Nat.lt_of_succ_lt hlt⟩

theorem ancestors_of_reflTransGen (h : P.ancestors name = some above)
    (ha : ReflTransGen P.Parent name a) : ∃ rest, P.ancestors a = some rest := by
  rcases reflTransGen_iff_eq_or_transGen.mp ha with rfl | ha
  · exact ⟨above, h⟩
  · obtain ⟨rest, hrest, -⟩ := ancestors_of_transGen h ha
    exact ⟨rest, hrest⟩

theorem not_dangles_of_ancestors (h : P.ancestors name = some above) : ¬ P.Dangles name := by
  rintro ⟨a, ha, hnone⟩
  obtain ⟨rest, hrest⟩ := ancestors_of_reflTransGen h ha
  obtain ⟨declared, hdecl, -⟩ := class?_of_ancestors hrest
  cases hnone.symm.trans hdecl

theorem not_cycles_of_ancestors (h : P.ancestors name = some above) : ¬ P.Cycles name := by
  rintro ⟨a, ha, hcycle⟩
  obtain ⟨rest, hrest⟩ := ancestors_of_reflTransGen h ha
  obtain ⟨rest', hrest', hlt⟩ := ancestors_of_transGen hrest hcycle
  obtain rfl := Option.some.inj (hrest.symm.trans hrest')
  exact Nat.lt_irrefl _ hlt

/-! ## No chain without one of them -/

/-- A climb that fails has met an undeclared class or a cycle : the classes it has seen all lead to
the class that it stands on. -/
theorem dangles_or_cycles_of_climb {seen : List String} {c : HostClass}
    (hc : P.class? name = some c) (hseen : ∀ s ∈ seen, ReflTransGen P.Parent s name)
    (h : P.climb seen c = none) : P.Dangles name ∨ P.Cycles name := by
  fun_induction climb P seen c generalizing name with
  | case1 seen c hroot => cases h
  | case2 seen c parent hp hmem =>
    exact Or.inr ⟨name, .refl, .head' ⟨c, hc, hp⟩ (hseen parent hmem)⟩
  | case3 seen c parent hp hmem hnone =>
    exact Or.inl ⟨parent, .single ⟨c, hc, hp⟩, hnone⟩
  | case4 seen c parent hp hmem next hnext ih =>
    have hparent : P.Parent name parent := ⟨c, hc, hp⟩
    refine (ih hnext (fun s hs => ?_) (Option.map_eq_none_iff.mp h)).imp
      (.of_parent hparent) (.of_parent hparent)
    rcases List.mem_cons.mp hs with rfl | hs
    · exact .refl
    · exact (hseen s hs).tail hparent

/-- A class has no chain exactly if its parents lead to an undeclared class or into a cycle. -/
theorem ancestors_eq_none_iff : P.ancestors name = none ↔ P.Dangles name ∨ P.Cycles name := by
  constructor
  · intro h
    cases hc : P.class? name with
    | none => exact Or.inl ⟨name, .refl, hc⟩
    | some c =>
      rw [ancestors, hc, Option.bind_some] at h
      refine dangles_or_cycles_of_climb hc (fun s hs => ?_) h
      rw [List.mem_singleton.mp hs]
  · intro h
    cases habove : P.ancestors name with
    | none => rfl
    | some above =>
      rcases h with h | h
      · exact absurd h (not_dangles_of_ancestors habove)
      · exact absurd h (not_cycles_of_ancestors habove)

end Program

end DeviceLayout
