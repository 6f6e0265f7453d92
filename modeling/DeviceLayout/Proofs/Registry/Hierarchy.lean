import DeviceLayout.Proofs.Catalog.Mirror
import DeviceLayout.Proofs.History

/-!
# The hierarchy of a registry is the program's

Classes come into a registry in pieces : of a chain that a request asks for, any lower part may be
new while the rest is there from a request for another class. The catalog still mirrors its host
after every step, as only discovery creates classes and nothing else touches a name or a parent
(`Catalog.Mirrors.change`). So it does after any history (`Registry.mirrors_after`).

When the host is a program, the catalog then follows the declarations (`Catalog.Follows`) : the
declared parent of a registered class is registered, the class stands below exactly that one, and
the ancestry of its id spells the chain that the program gives for its name.
-/

namespace DeviceLayout

namespace Catalog

variable {S : Setting} {host : Host} {c c' : Catalog} {id : ClassId} {d : ClassDescriptor}

/-! ## Catalogs mirror their host for good -/

/-- What creates no class keeps the classes where they stand. -/
theorem Mirrors.extends (hm : c.Mirrors host) (hc : c.WellFormed) (hc' : c'.WellFormed)
    (he : c.Extends c') (hlen : c'.classes.length = c.classes.length) : c'.Mirrors host := by
  intro id d' hd'
  obtain ⟨d, hd⟩ := class?_of_index_lt (hlen ▸ index_lt_of_class? hd')
  obtain ⟨d'', hd'', hext⟩ := he.class? hd
  obtain rfl := Option.some.inj (hd'.symm.trans hd'')
  exact (hm _ _ hd).extends hc hc' he hext

/-- New classes fit above by the host, and the others keep their names and parents. -/
theorem Mirrors.change (hh : S.host.Coherent) (hm : c.Mirrors S.host) (hc : c.WellFormed)
    (h : c.Change S c') : c'.Mirrors S.host := by
  have hc' := hc.change h
  have he := h.extends
  cases h with
  | discovery h => exact hm.discovers hh hc h
  | onClass h hd => exact hm.extends hc hc' he (List.length_set ..)
  | classifyAll => exact hm.extends hc hc' he (List.length_map ..)

theorem Mirrors.reaches (hh : S.host.Coherent) (hm : c.Mirrors S.host) (hc : c.WellFormed)
    (h : c.Reaches S c') : c'.Mirrors S.host := by
  induction h with
  | refl => exact hm
  | tail hpre hstep ih => exact ih.change hh (hc.reaches hpre) hstep

/-! ## Names along an ancestry -/

/-- The host name of an id. -/
def hostName? (c : Catalog) (id : ClassId) : Option String :=
  (c.class? id).map (·.hostName)

/-- An ancestry spells the host's chain, root first, and ends with the class itself. -/
theorem Mirrors.hostNames_ancestry (hh : host.Coherent) (hm : c.Mirrors host) (hc : c.WellFormed)
    (h : c.class? id = some d) {above : List String}
    (habove : host.ancestors d.hostName = some above) :
    (c.ancestry id).map c.hostName? = (above.reverse ++ [d.hostName]).map some := by
  induction id, d, h using hc.parent_induction generalizing above with
  | root id d h hp =>
    obtain rfl := Option.some.inj ((hm.ancestors_of_root h hp).symm.trans habove)
    simp [WellFormed.ancestry_of_root h hp, hostName?, h]
  | child id d h parent q hq hp ih =>
    obtain ⟨rest, habove', hrest⟩ := hm.ancestors_of_parent hh hc h hp hq
    obtain rfl := Option.some.inj (habove'.symm.trans habove)
    rw [hc.ancestry_of_parent h hp, List.map_append, ih hrest]
    simp [hostName?, h]

/-! ## Following a program -/

/-- The classes of the catalog stand in the hierarchy that the program declares. -/
structure Follows (c : Catalog) (P : Program) : Prop where
  /-- Registered classes are declared, and so are their parents registered. -/
  closed : ∀ name, (c.lookup name).isSome → ∃ declared, P.class? name = some declared ∧
    ∀ parent, declared.parent = some parent → (c.lookup parent).isSome
  /-- A class stands below the class of its declared parent, and a declared root below none. -/
  parent_eq : ∀ id d declared, c.class? id = some d → P.class? d.hostName = some declared →
    d.parent = declared.parent.bind c.lookup
  /-- The ancestry of an id is the program's chain for the class. -/
  ancestry_eq : ∀ id d, c.class? id = some d → ∃ above, P.ancestors d.hostName = some above ∧
    (c.ancestry id).map c.hostName? = (above.reverse ++ [d.hostName]).map some

theorem Mirrors.follows {P : Program} (hm : c.Mirrors P.host) (hc : c.WellFormed) :
    c.Follows P where
  closed name hl := by
    obtain ⟨above, habove, hall⟩ := hm.chain hc hl
    obtain ⟨declared, hdecl, hparent⟩ := Program.class?_of_ancestors habove
    refine ⟨declared, hdecl, fun parent hp => hall parent ?_⟩
    exact List.mem_of_mem_head? (hparent.symm.trans hp)
  parent_eq id d declared h hdecl := by
    obtain ⟨above, habove, -, hparent⟩ := hm _ _ h
    obtain ⟨declared', hdecl', hhead⟩ := Program.class?_of_ancestors habove
    obtain rfl := Option.some.inj (hdecl.symm.trans hdecl')
    rw [hparent, hhead]
  ancestry_eq id d h := by
    obtain ⟨above, habove, -⟩ := hm _ _ h
    exact ⟨above, habove, hm.hostNames_ancestry P.host_coherent hc h habove⟩

end Catalog

namespace Registry

/-- After any history, the chains of the catalog are those of the host. -/
theorem mirrors_after {S : Setting} (hh : S.host.Coherent) (history : List Request) :
    (after S history).catalog.Mirrors S.host :=
  have h := afterFrom_leads S history {} (.empty S)
  (Catalog.Mirrors.empty S.host).reaches hh .empty h.catalog

/-- After any history, the catalog has the hierarchy of the program : registered classes are
closed under parents, every class stands below its declared parent, and ancestries are the
program's chains. -/
theorem follows_after (P : Program) (config : LayoutConfig) (history : List Request) :
    (after ⟨P.host, config⟩ history).catalog.Follows P :=
  (mirrors_after P.host_coherent history).follows
    (wellFormed_after ⟨P.host, config⟩ history).catalog

end Registry

end DeviceLayout
