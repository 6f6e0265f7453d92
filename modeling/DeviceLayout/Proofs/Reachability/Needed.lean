import DeviceLayout.Program.Model
import DeviceLayout.Proofs.Catalog.Discovered
import DeviceLayout.Proofs.Reachability.Walk

/-!
# What a device program needs

A method uses a class if it stands on it, accesses a field through it, or if a type that it uses
mentions it (`Host.UsesClass`, `Host.UsesType`). What the methods reachable from some entries use,
with all classes above, is what a walk may add to a catalog (`Scope.needed`,
`CallGraph.closed_needed`).

The host serves a method if it resolves every class and every field that the method uses
(`Host.Serves`).
-/

open DeviceLayout.Action

namespace DeviceLayout

/-! ## What one method uses -/

namespace Host

/-- The types a method uses : the array types it mentions, and the types of the fields it
accesses. -/
inductive UsesType (host : Host) (facts : MethodFacts) : HostType → Prop
  | array {t : HostType} (ht : t ∈ facts.arrays) (harray : t.isArray = true) :
    UsesType host facts t
  | field {access : FieldRef} {C : String} {declaration : HostField}
    (ha : access ∈ facts.fields) (hmeans : host.Means access C declaration) :
    UsesType host facts declaration.type

/-- The classes a method uses : the one it stands on, those it accesses fields through, and those
that the types it uses mention. -/
inductive UsesClass (host : Host) (m : MethodRef) (facts : MethodFacts) : String → Prop
  | self : UsesClass host m facts m.className
  | access {access : FieldRef} (ha : access ∈ facts.fields) :
    UsesClass host m facts access.className
  | type {t : HostType} {name : String} (ht : host.UsesType facts t)
    (hname : t.referencedClass? = some name) : UsesClass host m facts name

/-- All that a method uses can be found. -/
structure Serves (host : Host) (m : MethodRef) (facts : MethodFacts) : Prop where
  classes : ∀ name, host.UsesClass m facts name → host.Resolves name
  fields : ∀ access ∈ facts.fields, ∃ C declaration, host.Means access C declaration

/-- A class with a chain above it is a class of the host. -/
def KnowsChains (host : Host) : Prop :=
  ∀ {name above}, host.ancestors name = some above → host.contains name = true

end Host

/-- A program contains every class whose chain it resolves. -/
theorem Program.host_knowsChains (P : Program) : P.host.KnowsChains := by
  intro name above h
  obtain ⟨c, hc, -⟩ := Option.bind_eq_some_iff.mp (h : P.ancestors name = _)
  exact Option.isSome_iff_exists.mpr ⟨c, hc⟩

/-- The facts of every method that the entries lead to are known, and all it uses can be found. -/
def CallGraph.Sound (g : CallGraph) (host : Host) (entries : List MethodRef) : Prop :=
  ∀ m, g.Reachable entries m → ∃ facts, g.facts? m = some facts ∧ host.Serves m facts

/-! ## What all reachable methods use -/

/-- What the methods that `entries` lead to use, with the classes above. -/
def Scope.needed (host : Host) (g : CallGraph) (entries : List MethodRef) : Scope where
  className n := ∃ m facts name above, g.Reachable entries m ∧ g.facts? m = some facts ∧
    host.UsesClass m facts name ∧ host.ancestors name = some above ∧ n ∈ name :: above
  method := g.Reachable entries
  field C declaration := ∃ m facts access, g.Reachable entries m ∧ g.facts? m = some facts ∧
    access ∈ facts.fields ∧ host.Means access C declaration
  array t := ∃ m facts t', g.Reachable entries m ∧ g.facts? m = some facts ∧
    host.UsesType facts t' ∧ t ∈ t'.arrayLevels

section

variable {S : Setting} {g : CallGraph} {entries : List MethodRef} {m : MethodRef}
  {facts : MethodFacts} {c : Catalog}

/-- A class that a reachable method uses is needed. -/
theorem Scope.needed_admitsClass (hr : g.Reachable entries m) (hf : g.facts? m = some facts)
    {name : String} (hu : S.host.UsesClass m facts name) :
    (Scope.needed S.host g entries).AdmitsClass S name :=
  fun above habove _ hn => ⟨m, facts, name, above, hr, hf, hu, habove, hn⟩

theorem Scope.needed_admitsType (hr : g.Reachable entries m) (hf : g.facts? m = some facts)
    {t : HostType} (hu : S.host.UsesType facts t) :
    (Scope.needed S.host g entries).AdmitsType S t :=
  ⟨fun _ hname => needed_admitsClass hr hf (.type hu hname),
    fun _ hlevel => ⟨m, facts, t, hr, hf, hu, hlevel⟩⟩

/-- What a reachable method uses may be added. -/
theorem Scope.needed_admitsMethod (hh : S.host.Coherent) (hc : c.WellFormed)
    (hm : c.Mirrors S.host) (hr : g.Reachable entries m) (hf : g.facts? m = some facts) :
    (Scope.needed S.host g entries).AdmitsMethod S c m facts where
  className := needed_admitsClass hr hf .self
  method := hr
  fields access ha := by
    refine ⟨needed_admitsClass hr hf (.access ha), fun hd hl hdecl h => ?_⟩
    have hc' := hc.reaches (Catalog.Discovery.reaches hd)
    have hmeans := Catalog.means_of_declaring? hh (hm.discovery hh hc hd) hc' hl hdecl h
    exact ⟨⟨m, facts, access, hr, hf, ha, hmeans⟩, needed_admitsType hr hf (.field ha hmeans)⟩
  arrays t ht harray := needed_admitsType hr hf (.array ht harray)

/-- Reachable methods call reachable methods, and what they use may be added. -/
theorem CallGraph.closed_needed (hh : S.host.Coherent) (hc : c.WellFormed)
    (hm : c.Mirrors S.host) (entries : List MethodRef) :
    Registry.Closed S (.needed S.host g entries) g c (g.Reachable entries) :=
  fun _ facts hr hf => ⟨fun _ hn => hr.call ⟨facts, hf, hn⟩,
    Scope.needed_admitsMethod hh hc hm hr hf⟩

end

end DeviceLayout
