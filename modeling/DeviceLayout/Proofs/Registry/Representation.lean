import DeviceLayout.Proofs.Layout.Object
import DeviceLayout.Proofs.Registry.Errors

/-!
# What a registry looks like

Ids are positions, names lead to ids, parents stand before their children, and a layout stands on
the layout of the parent (`Registry.Represented`). None of this depends on what the host says : its
ancestor lists may repeat names, name the class itself, and contradict one another. Every history
keeps it (`Registry.represented_after`), so following parents ends whatever id it starts from
(`Catalog.WellFormed.climbs_iff`), and no request stumbles over an id that it was not given.
-/

open DeviceLayout.Action

namespace DeviceLayout

/-! ## Following parents -/

namespace Catalog

variable {c : Catalog} {id : ClassId} {d : ClassDescriptor} {chain chain' : List ClassId}

/-- Following parents from a class until there is none goes through `chain`. Unlike `lineage`, it
goes wherever a parent leads. -/
inductive Climbs (c : Catalog) : ClassId → List ClassId → Prop
  | stop {id : ClassId} (h : (c.class? id).bind (·.parent) = none) : Climbs c id [id]
  | step {id parent : ClassId} {chain : List ClassId}
    (h : (c.class? id).bind (·.parent) = some parent) (hrest : Climbs c parent chain) :
    Climbs c id (id :: chain)

theorem Climbs.unique (h : c.Climbs id chain) (h' : c.Climbs id chain') : chain = chain' := by
  induction h generalizing chain' with
  | stop hnone =>
    cases h' with
    | stop _ => rfl
    | step hsome _ => cases hnone.symm.trans hsome
  | step hsome _ ih =>
    cases h' with
    | stop hnone => cases hnone.symm.trans hsome
    | step hsome' hrest =>
      obtain rfl := Option.some.inj (hsome.symm.trans hsome')
      rw [ih hrest]

namespace WellFormed

theorem climbs_lineage (hc : c.WellFormed) (id : ClassId) : c.Climbs id (c.lineage id) := by
  cases h : c.class? id with
  | none =>
    have hnone : (c.class? id).bind (·.parent) = none := by rw [h, Option.bind_none]
    rw [lineage, hnone]
    exact .stop hnone
  | some d =>
    induction id, d, h using hc.parent_induction with
    | root id d h hroot =>
      rw [lineage_of_root h hroot]
      exact .stop (by rw [h, Option.bind_some, hroot])
    | child id d h parent q hq hparent ih =>
      rw [hc.lineage_of_parent h hparent]
      exact .step (by rw [h, Option.bind_some, hparent]) ih

/-- Following parents ends, whatever id it starts from, and goes through the lineage. -/
theorem climbs_iff (hc : c.WellFormed) : c.Climbs id chain ↔ chain = c.lineage id :=
  ⟨fun h => h.unique (hc.climbs_lineage id), fun h => h ▸ hc.climbs_lineage id⟩

/-- The ancestry of a class ends in the class. -/
theorem getLast?_ancestry (hc : c.WellFormed) (h : c.class? id = some d) :
    (c.ancestry id).getLast? = some id := by
  cases hp : d.parent with
  | none => rw [ancestry_of_root h hp, List.getLast?_singleton]
  | some parent => rw [hc.ancestry_of_parent h hp, List.getLast?_concat]

/-- Ids increase along an ancestry. -/
theorem ancestry_increasing (hc : c.WellFormed) (h : c.class? id = some d) :
    (c.ancestry id).Pairwise fun a b => a.index < b.index := by
  induction id, d, h using hc.parent_induction with
  | root id d h hroot =>
    rw [ancestry_of_root h hroot]
    exact List.pairwise_singleton _ _
  | child id d h parent q hq hparent ih =>
    rw [hc.ancestry_of_parent h hparent]
    refine List.pairwise_append.mpr ⟨ih, List.pairwise_singleton _ _, fun a ha b hb => ?_⟩
    obtain ⟨hle, -⟩ := hc.class?_of_mem_lineage hq a (mem_ancestry.mp ha)
    rw [List.mem_singleton.mp hb]
    exact Nat.lt_of_le_of_lt hle (hc.parent_lt h hparent)

end WellFormed

end Catalog

/-! ## Representation -/

namespace Registry

variable {S : Setting} {r : Registry} {id : ClassId} {d : ClassDescriptor} {p : Placement}

/-- Descriptors, names, parents and layouts fit together. -/
structure Represented (S : Setting) (r : Registry) : Prop where
  /-- The `i`-th descriptor has id `i`. -/
  ids_eq : r.catalog.classes.map (·.id) =
    (List.range r.catalog.classes.length).map ClassId.mk
  /-- No more than `2 ^ 32` classes have ids of 32 bits. -/
  ids_fit : r.catalog.classes.length ≤ UInt32.size → ∀ d ∈ r.catalog.classes,
    (UInt32.ofNat d.id.index).toNat = d.id.index
  names_nodup : (r.catalog.classes.map (·.hostName)).Nodup
  /-- A name leads to an id if it is the name of the class of this id. -/
  lookup_iff : ∀ {name id}, r.catalog.lookup name = some id ↔
    ∃ d, r.catalog.class? id = some d ∧ d.hostName = name
  parent_lt : ∀ d ∈ r.catalog.classes, ∀ parent, d.parent = some parent →
    parent.index < d.id.index
  /-- Following parents ends, from whatever id. -/
  climbs_iff : ∀ {id chain}, r.catalog.Climbs id chain ↔ chain = (r.catalog.ancestry id).reverse
  /-- The ancestry of a class ends in the class, ids increase along it, and all of them are in
  use. -/
  ancestry : ∀ {id d}, r.catalog.class? id = some d →
    (r.catalog.ancestry id).getLast? = some id ∧
      (r.catalog.ancestry id).Pairwise (fun a b => a.index < b.index) ∧
      ∀ a ∈ r.catalog.ancestry id, ∃ q, r.catalog.class? a = some q
  /-- A class is laid out once. -/
  layouts_nodup : (r.layouts.map (·.classId)).Nodup
  /-- A class with a layout is frozen, and the layout starts where that of the parent ends, or
  behind the header. -/
  layouts : ∀ p ∈ r.layouts, ∃ d, r.catalog.class? p.classId = some d ∧ d.id = p.classId ∧
    d.frozen = true ∧ match d.parent with
      | none => p.base = S.config.headerSize
      | some parent => ∃ q ∈ r.layouts, q.classId = parent ∧ q.size = p.base

theorem WellFormed.layout?_eq_some_iff (hr : r.WellFormed S) :
    r.layout? id = some p ↔ p ∈ r.layouts ∧ p.classId = id :=
  find?_eq_some_iff_of_nodup hr.layouts_nodup

theorem WellFormed.represented (hr : r.WellFormed S) : r.Represented S where
  ids_eq := hr.catalog.ids_eq
  ids_fit hfew d hd := by
    obtain ⟨id, hid⟩ := Catalog.mem_classes_iff.mp hd
    have hlt := Catalog.index_lt_of_class? hid
    rw [hr.catalog.id_eq hid]
    exact UInt32.toNat_ofNat_of_lt' (Nat.lt_of_lt_of_le hlt hfew)
  names_nodup := hr.catalog.names_nodup
  lookup_iff := hr.catalog.lookup_eq_some_iff
  parent_lt d hd parent hparent := by
    obtain ⟨id, hid⟩ := Catalog.mem_classes_iff.mp hd
    rw [hr.catalog.id_eq hid]
    exact hr.catalog.parent_lt hid hparent
  climbs_iff := by
    intro id chain
    rw [hr.catalog.climbs_iff, Catalog.ancestry, List.reverse_reverse]
  ancestry h := ⟨hr.catalog.getLast?_ancestry h, hr.catalog.ancestry_increasing h, fun a ha =>
    (hr.catalog.class?_of_mem_lineage h a (Catalog.mem_ancestry.mp ha)).2⟩
  layouts_nodup := hr.layouts_nodup
  layouts p hp := by
    have hkept := hr.layout?_eq_some_iff.mpr ⟨hp, rfl⟩
    obtain ⟨d, h⟩ := hr.class?_of_layout? hkept
    obtain ⟨base, hs⟩ := hr.suits h hkept
    refine ⟨d, h, hr.catalog.id_eq h, hs.frozen, ?_⟩
    have hbase := hr.base_eq h hkept
    cases hparent : d.parent with
    | none => rwa [hparent] at hbase
    | some parent =>
      rw [hparent] at hbase
      obtain ⟨q, hq, hsize⟩ := hbase
      obtain ⟨hmem, hid⟩ := hr.layout?_eq_some_iff.mp hq
      exact ⟨q, hmem, hid, hsize.symm⟩

/-- A layout that is answered is kept under the id it was asked for. -/
theorem WellFormed.layoutOf_kept (hr : r.WellFormed S)
    (hp : ((layoutOf S id).run r).result = .ok p) :
    p.classId = id ∧ p ∈ ((layoutOf S id).run r).state.layouts := by
  cases h : r.catalog.class? id with
  | none =>
    rw [layoutOf_of_unknown h] at hp
    cases hp
  | some d =>
    have hr' := (hr.reaches (layoutOf_run hr h).1.reaches).1
    have hkept := layout?_of_freshLayout hr h ((layoutOf_eq_ok_iff hr h).mp hp)
    exact (hr'.layout?_eq_some_iff.mp hkept).symm

/-- After any history, whatever the host and the settings, the parts of the registry fit together.
A request fails with one of the errors it may fail with; in particular it names an id that is not
in use only if the request did. Finalizing fails only at a class that does not fit into 32 bits. -/
theorem represented_after (S : Setting) (history : List Request) :
    let r := after S history
    r.Represented S ∧
      (∀ (q : Request) e, ((q.serve S).run r).result = .error e → q.FailsWith r e) ∧
      (∀ id p, ((layoutOf S id).run r).result = .ok p →
        p.classId = id ∧ p ∈ ((layoutOf S id).run r).state.layouts) ∧
      ∀ e, ((finalize S).run r).result = .error e →
        ∃ d ∈ r.catalog.classes, ∃ block, e = .layoutUnavailable d.hostName (.overflow block) := by
  intro r
  have hr : r.WellFormed S := wellFormed_after S history
  exact ⟨hr.represented, fun q _ => q.serve_failsWith hr, fun _ _ => hr.layoutOf_kept,
    fun _ => hr.finalize_error⟩

end Registry

/-- A host whose ancestor lists repeat names, name the class itself and a class that is not known,
and contradict each other. -/
def Setting.tangled : Setting where
  host := .ofEntries
    [{ name := "A", known := true, ancestors := some ["B", "A", "Ghost"] },
     { name := "B", known := true, ancestors := some ["A", "B", "A"] }]

example : (Registry.after .tangled [.classFor "B", .classFor "A", .classFor "Ghost",
    .finalize]).catalog.classes.map (fun d => (d.hostName, d.parent)) =
      [("A", none), ("B", some ⟨0⟩)] := by decide +kernel

end DeviceLayout
