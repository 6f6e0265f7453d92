import DeviceLayout.Proofs.Catalog.Endings
import DeviceLayout.Proofs.Table.Finalize

/-!
# Tables only grow

Once a class has a layout, it and everything above it are classified, so a later catalog gives
it the same layout (`Catalog.Extends.freshLayout`) and the same entry in the table
(`Catalog.Extends.entry?`). New classes and array types come behind the old ones. So of two
tables of one registry, the earlier is the beginning of the later, whatever was requested in
between (`Registry.finalize_grows`), and a class that is in a table takes no new field.
-/

open DeviceLayout.Action

namespace DeviceLayout

namespace Catalog

variable {c c' : Catalog} {config : LayoutConfig} {id : ClassId} {d d' : ClassDescriptor}
  {p : Placement} {T T' : LayoutTable}

/-- A layout stays what it is. -/
theorem Extends.freshLayout (h : c.Extends c') (hc : c.WellFormed) (hc' : c'.WellFormed)
    (hd : c.class? id = some d) (hp : c.freshLayout config id = .ok p) :
    d.frozen = true ∧ c'.freshLayout config id = .ok p := by
  induction id, d, hd using hc.parent_induction generalizing p with
  | root id d hd hroot =>
    obtain ⟨d', hd', he⟩ := h.class? hd
    rw [freshLayout_of_root hd hroot] at hp
    have hcompute := layoutBehind_eq_ok.mp hp
    have hfrozen := (Placement.suits_of_compute hcompute).frozen
    rw [freshLayout_of_root hd' (he.parent_eq.trans hroot)]
    refine ⟨hfrozen, layoutBehind_eq_ok.mpr ?_⟩
    rw [Placement.compute_extends hfrozen he, hcompute]
  | child id d hd parent q hq hparent ih =>
    obtain ⟨d', hd', he⟩ := h.class? hd
    rw [hc.freshLayout_of_parent hd hparent] at hp
    cases habove : c.freshLayout config parent with
    | error e => simp [habove] at hp
    | ok p' =>
      rw [habove] at hp
      have hcompute := layoutBehind_eq_ok.mp hp
      have hfrozen := (Placement.suits_of_compute hcompute).frozen
      rw [hc'.freshLayout_of_parent hd' (he.parent_eq.trans hparent), (ih habove).2]
      refine ⟨hfrozen, layoutBehind_eq_ok.mpr ?_⟩
      rw [Placement.compute_extends hfrozen he, hcompute]

theorem Extends.parentName?_eq (h : c.Extends c') (hc : c.WellFormed) (hd : c.class? id = some d)
    (he : d.Extends d') : c'.parentName? d' = c.parentName? d := by
  rw [parentName?, parentName?, he.parent_eq]
  cases hparent : d.parent with
  | none => rfl
  | some parent =>
    obtain ⟨q, hq⟩ := hc.class?_parent hd hparent
    obtain ⟨q', hq', hq'e⟩ := h.class? hq
    rw [Option.bind_some, Option.bind_some, hq, hq', Option.map_some, Option.map_some,
      hq'e.hostName_eq]

/-- An entry stays what it is. -/
theorem Extends.entry? (h : c.Extends c') (hc : c.WellFormed) (hc' : c'.WellFormed)
    (hd : c.class? id = some d) (he : d.Extends d') {e : ClassLayout}
    (hentry : c.entry? config d = some e) : c'.entry? config d' = some e := by
  obtain ⟨p, hp, rfl⟩ := entry?_eq_some.mp hentry
  rw [hc.id_eq hd] at hp
  obtain ⟨hfrozen, hp'⟩ := h.freshLayout hc hc' hd hp
  refine entry?_eq_some.mpr ⟨p, ?_, ?_⟩
  · rw [he.id_eq, hc.id_eq hd, hp']
  · rw [ClassLayout.ofPlacement, ClassLayout.ofPlacement, h.parentName?_eq hc hd he,
      he.buckets_eq hfrozen, ClassDescriptor.deviceName, ClassDescriptor.deviceName,
      he.hostName_eq]

/-- The table of a catalog is the beginning of the table of a later one. -/
theorem HasTable.prefix_of_extends (h : c.HasTable config T) (h' : c'.HasTable config T')
    (he : c.Extends c') (hc : c.WellFormed) (hc' : c'.WellFormed) :
    T.classes <+: T'.classes ∧ T.arrayTypes <+: T'.arrayTypes := by
  constructor
  · refine List.prefix_iff_getElem?.mpr fun i hi => ?_
    have hlength : T.classes.length = c.classes.length := by
      simpa using congrArg List.length h.classes_eq
    obtain ⟨d, hd⟩ : ∃ d, c.class? ⟨i⟩ = some d := class?_of_index_lt (hlength ▸ hi)
    obtain ⟨d', hd', hdd'⟩ := he.class? hd
    obtain ⟨e, hget, hentry⟩ := h.getElem?_classes hd
    obtain ⟨e', hget', hentry'⟩ := h'.getElem?_classes hd'
    rw [he.entry? hc hc' hd hdd' hentry] at hentry'
    rw [hget', ← hentry', ← hget, List.getElem?_eq_getElem hi]
  · rw [h.arrayTypes_eq, h'.arrayTypes_eq]
    exact he.arrays_prefix.filterMap _

end Catalog

namespace Registry

variable {S : Setting} {r : Registry} {id : ClassId} {d : ClassDescriptor}

/-- An action on the catalog, where the catalog says how it ends. -/
theorem onCatalog_run {α : Type} {x : Action Catalog α} {res : Except LayoutError α}
    {c' : Catalog} {log : List Event} (h : x.run r.catalog = ⟨res, c', log⟩) :
    (onCatalog x).run r = ⟨res, { r with catalog := c' }, log⟩ := by
  simp only [onCatalog, onPart, h]

/-- A frozen class refuses a field of a new name, and nothing changes. -/
theorem addField_request_of_frozen (h : r.catalog.class? id = some d) {f : HostField}
    (hf : d.hasField f.name = false) (hfrozen : d.frozen = true) :
    ((Request.onClass id (.addField f)).serve S).run r =
      ⟨.error (.classFrozen d.hostName f.name), r, []⟩ := by
  have hserve : (ClassRequest.addField f).serve.run d =
      ⟨.error (.classFrozen d.hostName f.name), d, []⟩ :=
    run_bind_of_error (ClassDescriptor.addField_of_frozen hf hfrozen)
  have hclass := Catalog.onClass_run h hserve
  rw [Catalog.withDescriptor_self h] at hclass
  exact run_bind_of_error (onCatalog_run hclass)

/-- After a finalization that answers `T`, whatever is requested, a finalization that succeeds
answers a table that begins with `T`, and no class of `T` takes a field of a new name. -/
theorem finalize_grows (S : Setting) (history further : List Request) {T : LayoutTable}
    (hT : ((finalize S).run (after S history)).result = .ok T) :
    let r := after S history
    let later := afterFrom S ((finalize S).run r).state further
    (∀ T', ((finalize S).run later).result = .ok T' →
      T.classes <+: T'.classes ∧ T.arrayTypes <+: T'.arrayTypes ∧ T'.config = T.config) ∧
    ∀ id d, r.catalog.class? id = some d → ∀ f, d.hasField f.name = false →
      ((Request.onClass id (.addField f)).serve S).run later =
        ⟨.error (.classFrozen d.hostName f.name), later, []⟩ := by
  intro r later
  have hr : r.WellFormed S := wellFormed_after S history
  obtain ⟨hr₁, -, hc₁, htable₁⟩ := finalize_ensures hr
  obtain ⟨hr₂, he₂⟩ := hr₁.extends_afterFrom further
  have htable := (htable₁ T).mp hT
  refine ⟨fun T' hT' => ?_, fun id d hd f hf => ?_⟩
  · obtain ⟨hr₃, he₃, hc₃, htable₃⟩ := finalize_ensures hr₂
    have htable' := (htable₃ T').mp hT'
    rw [← hc₁] at htable
    rw [← hc₃] at htable'
    obtain ⟨hclasses, harrays⟩ :=
      htable.prefix_of_extends htable' (he₂.trans he₃).catalog hr₁.catalog hr₃.catalog
    exact ⟨hclasses, harrays, htable'.config_eq.trans htable.config_eq.symm⟩
  · have hd₁ : ((finalize S).run r).state.catalog.class? id = some d.freeze := by
      rw [hc₁, Catalog.class?_classified, hd, Option.map_some]
    obtain ⟨d', hd', he'⟩ := he₂.catalog.class? hd₁
    obtain ⟨hfrozen, hfields⟩ := he'.frozen rfl
    have hf' : d'.hasField f.name = false := by
      rw [ClassDescriptor.hasField, hfields]
      exact hf
    have hname : d'.hostName = d.hostName := he'.hostName_eq
    rw [addField_request_of_frozen hd' hf' hfrozen, hname]

/-- `B` comes behind `A`, which is in the first table already and takes no more fields. -/
theorem finalize_grows_pair :
    let S := Setting.pair
    let r := after S [.registerField ⟨"A", "x"⟩]
    let later := afterFrom S ((finalize S).run r).state
      [.registerField ⟨"A", "z"⟩, .registerField ⟨"B", "y"⟩]
    ∃ T T', ((finalize S).run r).result = .ok T ∧ ((finalize S).run later).result = .ok T' ∧
      T.classes.length = 1 ∧ T'.classes.length = 2 ∧ T.classes <+: T'.classes ∧
      ((Request.onClass ⟨0⟩ (.addField ⟨"z", .primitive .int, false⟩)).serve S).run later =
        ⟨.error (.classFrozen "A" "z"), later, []⟩ := by
  intro S r later
  have hfirst : ((finalize S).run r).result.toOption.map (·.classes.length) = some 1 := by
    decide +kernel
  have hsecond : ((finalize S).run later).result.toOption.map (·.classes.length) = some 2 := by
    decide +kernel
  have hclass : r.catalog.class? ⟨0⟩ = some
      { id := ⟨0⟩, hostName := "A", fields := [⟨⟨0⟩, "x", .primitive .int, false⟩] } := by
    decide +kernel
  obtain ⟨T, hT, hlength⟩ := Option.map_eq_some_iff.mp hfirst
  obtain ⟨T', hT', hlength'⟩ := Option.map_eq_some_iff.mp hsecond
  have hok := toOption_eq_some_iff.mp hT
  have hok' := toOption_eq_some_iff.mp hT'
  obtain ⟨hgrows, hrefuses⟩ := finalize_grows S [.registerField ⟨"A", "x"⟩]
    [.registerField ⟨"A", "z"⟩, .registerField ⟨"B", "y"⟩] hok
  exact ⟨T, T', hok, hok', hlength, hlength', (hgrows T' hok').1,
    hrefuses ⟨0⟩ _ hclass ⟨"z", .primitive .int, false⟩ rfl⟩

end Registry

end DeviceLayout
