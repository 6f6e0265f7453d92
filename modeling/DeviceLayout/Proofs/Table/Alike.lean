import DeviceLayout.Proofs.Layout.PackingOrder
import DeviceLayout.Proofs.Table.Finalize

/-!
# Tables of catalogs that are alike

Catalogs are alike (`Catalog.Alike`) if they hold the same classes below the same parents, with
the same fields, and the same array types. The ids of the classes may differ, and so may the
order in which anything was registered.

Placing fields reads their names and sizes only, so classes that are alike have the same layout
behind a parent of the same size (`ClassDescriptor.Alike.compute_eq`). By induction on the parents,
they have the same layout at all (`Catalog.Alike.freshLayout_eq`), and the same entry in the
table (`Catalog.Alike.entry?_eq`). So both catalogs have a table or neither has, and the tables
list the same entries (`Catalog.Alike.perm_of_hasTable`).
-/

namespace DeviceLayout

/-! ## Other ids -/

/-- The same fields on another class. -/
def Buckets.withOwner (owner : ClassId) (b : Buckets) : Buckets where
  instanceRefs := b.instanceRefs.map (.withOwner owner)
  instanceValues := b.instanceValues.map (.withOwner owner)
  staticRefs := b.staticRefs.map (.withOwner owner)
  staticValues := b.staticValues.map (.withOwner owner)

/-- The same layout for another class. -/
def Placement.withId (id : ClassId) (p : Placement) : Placement :=
  { p with classId := id }

section

variable {owner : ClassId}

theorem Buckets.instanceFields_withOwner (b : Buckets) :
    (b.withOwner owner).instanceFields = b.instanceFields.map (.withOwner owner) :=
  (List.map_append ..).symm

theorem Buckets.staticFields_withOwner (b : Buckets) :
    (b.withOwner owner).staticFields = b.staticFields.map (.withOwner owner) :=
  (List.map_append ..).symm

theorem Buckets.staticSize_withOwner (b : Buckets) :
    (b.withOwner owner).staticSize = b.staticSize := by
  rw [staticSize, staticFields_withOwner, List.foldr_map]
  rfl

/-- Where a field is placed does not depend on the class it is on. -/
theorem place_withOwner (align : Bool) :
    ∀ (fields : List Field) (start : UInt32),
      place align (fields.map (.withOwner owner)) start = place align fields start
  | [], _ => rfl
  | f :: rest, start => by
    rw [List.map_cons, place, place]
    simp only [place_withOwner align rest]
    rfl

theorem FieldLayout.ofFields_withOwner (placed : List PlacedField) (fields : List Field) :
    ofFields placed (fields.map (.withOwner owner)) = ofFields placed fields := by
  rw [ofFields, List.filterMap_map]
  rfl

end

/-! ## Classes that are alike -/

namespace ClassDescriptor

/-- The same class with the same fields, in the same state, whatever its id is and whatever the
order its fields were registered in. -/
structure Alike (d d' : ClassDescriptor) : Prop where
  hostName_eq : d'.hostName = d.hostName
  packing_eq : d'.packing = d.packing
  frozen_eq : d'.frozen = d.frozen
  declarations : (d.fields.map (·.declaration)).Perm (d'.fields.map (·.declaration))

namespace Alike

variable {d d' : ClassDescriptor} {parentSize : Option UInt32} {config : LayoutConfig}

protected theorem symm (h : d.Alike d') : d'.Alike d where
  hostName_eq := h.hostName_eq.symm
  packing_eq := h.packing_eq.symm
  frozen_eq := h.frozen_eq.symm
  declarations := h.declarations.symm

/-- The fields of the one are those of the other, up to the id of the class. -/
theorem fields_perm (h : d.Alike d') (hd' : d'.WellFormed) :
    d'.fields.Perm (d.fields.map (.withOwner d'.id)) := by
  have hown : (d'.fields.map (·.declaration)).map (Field.mk d'.id) = d'.fields := by
    rw [List.map_map]
    refine (List.map_congr_left fun f hf => ?_).trans d'.fields.map_id
    rw [Function.comp_apply, ← hd'.owner_eq f hf]
    rfl
  have hperm := h.declarations.symm.map (Field.mk d'.id)
  rwa [hown, List.map_map] at hperm

/-- A choice of fields that does not look at the id is packed alike. -/
theorem sort_filter (h : d.Alike d') (hd : d.WellFormed) (hd' : d'.WellFormed)
    {q : Field → Bool} (hq : ∀ f : Field, q (f.withOwner d'.id) = q f) :
    d'.packing.sort (d'.fields.filter q) =
      (d.packing.sort (d.fields.filter q)).map (.withOwner d'.id) := by
  have hperm : (d'.fields.filter q).Perm ((d.fields.filter q).map (.withOwner d'.id)) := by
    have hcomp : q ∘ Field.withOwner d'.id = q := funext hq
    have hfilter := (h.fields_perm hd').filter q
    rwa [List.filter_map, hcomp] at hfilter
  have hkeys : ((d'.fields.filter q).map Field.key).Nodup :=
    hd'.keys_nodup.sublist (List.filter_sublist.map _)
  have hown : ∀ f ∈ d.fields.filter q, f.owner = d.id :=
    fun f hf => hd.owner_eq f (List.mem_filter.mp hf).1
  rw [h.packing_eq, Packing.sort_eq_of_perm hperm hkeys, Packing.sort_withOwner hown]

theorem buckets_eq (h : d.Alike d') (hd : d.WellFormed) (hd' : d'.WellFormed) :
    d'.buckets = d.buckets.withOwner d'.id := by
  simp only [buckets, Buckets.ofFields, Buckets.withOwner, Buckets.mk.injEq]
  exact ⟨h.sort_filter hd hd' fun _ => rfl, h.sort_filter hd hd' fun _ => rfl,
    h.sort_filter hd hd' fun _ => rfl, h.sort_filter hd hd' fun _ => rfl⟩

/-- Classes that are alike have the same layout behind a parent of the same size. -/
theorem compute_eq (h : d.Alike d') (hd : d.WellFormed) (hd' : d'.WellFormed) :
    Placement.compute d' parentSize config =
      (Placement.compute d parentSize config).map (.withId d'.id) := by
  rw [Placement.compute, Placement.compute, h.buckets_eq hd hd', h.frozen_eq, h.hostName_eq,
    Buckets.instanceFields_withOwner, Buckets.staticFields_withOwner, place_withOwner,
    place_withOwner]
  dsimp only
  split
  · rfl
  · split
    · rfl
    · split
      · rfl
      · split <;> rfl

/-- Classes that are alike have the same entry for the same layout. -/
theorem ofPlacement_eq (h : d.Alike d') (hd : d.WellFormed) (hd' : d'.WellFormed)
    (p : Placement) (parent : Option String) :
    ClassLayout.ofPlacement d' (p.withId d'.id) parent = .ofPlacement d p parent := by
  have hname : d'.deviceName = d.deviceName := congrArg mangle h.hostName_eq
  rw [ClassLayout.ofPlacement, ClassLayout.ofPlacement, h.buckets_eq hd hd', h.hostName_eq, hname]
  simp only [Buckets.staticSize_withOwner]
  simp only [Buckets.withOwner, List.length_map, FieldLayout.ofFields_withOwner, Placement.withId]

end Alike

end ClassDescriptor

/-! ## Catalogs that are alike -/

namespace Catalog

variable {c c' : Catalog} {config : LayoutConfig} {id id' : ClassId} {d d' : ClassDescriptor}
  {T T' : LayoutTable}

/-- The same classes below the same parents, and the same array types. -/
structure Alike (c c' : Catalog) : Prop where
  lookup_iff : ∀ name, (c.lookup name).isSome ↔ (c'.lookup name).isSome
  classes : ∀ d ∈ c.classes, ∀ d' ∈ c'.classes, d'.hostName = d.hostName →
    d.Alike d' ∧ c'.parentName? d' = c.parentName? d
  arrays : c.arrays.Perm c'.arrays

protected theorem Alike.symm (h : c.Alike c') : c'.Alike c where
  lookup_iff name := (h.lookup_iff name).symm
  classes d' hd' d hd hn :=
    ⟨(h.classes d hd d' hd' hn.symm).1.symm, (h.classes d hd d' hd' hn.symm).2.symm⟩
  arrays := h.arrays.symm

/-- Each class has its counterpart. -/
theorem Alike.exists_class? (h : c.Alike c') (hc : c.WellFormed) (hc' : c'.WellFormed)
    (hd : c.class? id = some d) : ∃ id' d', c'.class? id' = some d' ∧ d'.hostName = d.hostName := by
  have hl : (c.lookup d.hostName).isSome := by
    rw [hc.lookup_hostName hd, Option.isSome_some]
  obtain ⟨id', hid'⟩ := Option.isSome_iff_exists.mp ((h.lookup_iff _).mp hl)
  obtain ⟨d', hd', hn⟩ := hc'.lookup_eq_some_iff.mp hid'
  exact ⟨id', d', hd', hn⟩

theorem toOption_layoutBehind (parentSize : Option UInt32) :
    (layoutBehind config id d parentSize).toOption =
      (Placement.compute d parentSize config).toOption := by
  unfold layoutBehind
  cases Placement.compute d parentSize config <;> rfl

theorem toOption_freshLayout_of_root (h : c.class? id = some d) (hp : d.parent = none) :
    (c.freshLayout config id).toOption = (Placement.compute d none config).toOption := by
  rw [freshLayout_of_root h hp, toOption_layoutBehind]

theorem WellFormed.toOption_freshLayout_of_parent (hc : c.WellFormed) {parent : ClassId}
    (h : c.class? id = some d) (hp : d.parent = some parent) :
    (c.freshLayout config id).toOption = (c.freshLayout config parent).toOption.bind fun q =>
      (Placement.compute d (some q.size) config).toOption := by
  rw [hc.freshLayout_of_parent h hp]
  cases c.freshLayout config parent with
  | error e => rfl
  | ok q => exact toOption_layoutBehind (some q.size)

/-- Classes that are alike have the same layout behind a parent of the same size, or none. -/
theorem toOption_compute (h : d.Alike d') (hc : c.WellFormed) (hc' : c'.WellFormed)
    (hd : c.class? id = some d) (hd' : c'.class? id' = some d') (parentSize : Option UInt32) :
    (Placement.compute d' parentSize config).toOption =
      (Placement.compute d parentSize config).toOption.map (Placement.withId id') := by
  rw [h.compute_eq (hc.descriptor hd) (hc'.descriptor hd'), hc'.id_eq hd']
  cases Placement.compute d parentSize config <;> rfl

/-- A class has the same layout in both catalogs, or in neither. Parents have one name in both,
hence one layout but for the id, and a class takes nothing but the size from it. -/
theorem Alike.freshLayout_eq (h : c.Alike c') (hc : c.WellFormed) (hc' : c'.WellFormed)
    (hd : c.class? id = some d) (hd' : c'.class? id' = some d') (hn : d'.hostName = d.hostName) :
    (c'.freshLayout config id').toOption =
      (c.freshLayout config id).toOption.map (Placement.withId id') := by
  induction id, d, hd using hc.parent_induction generalizing id' d' with
  | root id d hd hroot =>
    obtain ⟨hsame, hparent⟩ := h.classes d (mem_classes_of_class? hd) d'
      (mem_classes_of_class? hd') hn
    rw [parentName?_of_root hroot] at hparent
    cases hp' : d'.parent with
    | some parent' =>
      obtain ⟨q', hq'⟩ := hc'.class?_parent hd' hp'
      rw [parentName?_of_parent hp' hq'] at hparent
      cases hparent
    | none =>
      rw [toOption_freshLayout_of_root hd hroot, toOption_freshLayout_of_root hd' hp',
        toOption_compute hsame hc hc' hd hd']
  | child id d hd parent q hq hp ih =>
    obtain ⟨hsame, hparent⟩ := h.classes d (mem_classes_of_class? hd) d'
      (mem_classes_of_class? hd') hn
    rw [parentName?_of_parent hp hq] at hparent
    cases hp' : d'.parent with
    | none =>
      rw [parentName?_of_root hp'] at hparent
      cases hparent
    | some parent' =>
      obtain ⟨q', hq'⟩ := hc'.class?_parent hd' hp'
      rw [parentName?_of_parent hp' hq'] at hparent
      rw [hc.toOption_freshLayout_of_parent hd hp, hc'.toOption_freshLayout_of_parent hd' hp',
        ih hq' (Option.some.inj hparent), Option.bind_map, Option.map_bind]
      exact congrArg _ (funext fun p => toOption_compute hsame hc hc' hd hd' (some p.size))

/-- A class has the same entry in both tables. -/
theorem Alike.entry?_eq (h : c.Alike c') (hc : c.WellFormed) (hc' : c'.WellFormed)
    (hd : c.class? id = some d) (hd' : c'.class? id' = some d') (hn : d'.hostName = d.hostName) :
    c'.entry? config d' = c.entry? config d := by
  obtain ⟨hsame, hparent⟩ := h.classes d (mem_classes_of_class? hd) d'
    (mem_classes_of_class? hd') hn
  have hid' := hc'.id_eq hd'
  unfold entry?
  rw [hc.id_eq hd, hid', h.freshLayout_eq hc hc' hd hd' hn, hparent,
    Option.map_map, ← hid']
  refine congrArg (fun f => Option.map f _) (funext fun p => ?_)
  exact hsame.ofPlacement_eq (hc.descriptor hd) (hc'.descriptor hd') p _

/-- If the one has a table, then so has the other. -/
theorem Alike.exists_hasTable (h : c.Alike c') (hc : c.WellFormed) (hc' : c'.WellFormed)
    (hT : ∃ T, c.HasTable config T) : ∃ T', c'.HasTable config T' := by
  refine exists_hasTable_iff.mpr fun d' hd' => ?_
  obtain ⟨id', hid'⟩ := mem_classes_iff.mp hd'
  obtain ⟨id, d, hd, hn⟩ := h.symm.exists_class? hc' hc hid'
  obtain ⟨p, hp⟩ := exists_hasTable_iff.mp hT d (mem_classes_of_class? hd)
  have hentry : c'.entry? config d' = c.entry? config d := h.entry?_eq hc hc' hd hid' hn.symm
  rw [entry?_eq_some.mpr ⟨p, hp, rfl⟩] at hentry
  obtain ⟨p', hp', -⟩ := entry?_eq_some.mp hentry
  exact ⟨p', hp'⟩

/-! ## The same entries -/

/-- The entry of a name is the only one of that name. -/
theorem HasTable.class?_eq_some_iff (h : c.HasTable config T) (hc : c.WellFormed) {name : String}
    {e : ClassLayout} : T.class? name = some e ↔ e ∈ T.classes ∧ e.hostName = name :=
  find?_eq_some_iff_of_nodup (h.hostNames_eq ▸ hc.names_nodup)

/-- An entry of the one table is an entry of the other. -/
theorem Alike.mem_of_hasTable (h : c.Alike c') (hc : c.WellFormed) (hc' : c'.WellFormed)
    (hT : c.HasTable config T) (hT' : c'.HasTable config T') {e : ClassLayout}
    (he : e ∈ T.classes) : e ∈ T'.classes := by
  obtain ⟨d, hd, hentry⟩ := hT.mem_classes_iff.mp he
  obtain ⟨id, hid⟩ := mem_classes_iff.mp hd
  obtain ⟨id', d', hd', hn⟩ := h.exists_class? hc hc' hid
  refine hT'.mem_classes_iff.mpr ⟨d', mem_classes_of_class? hd', ?_⟩
  rw [h.entry?_eq hc hc' hid hd' hn, hentry]

/-- A name has the same entry in both tables. -/
theorem Alike.class?_eq (h : c.Alike c') (hc : c.WellFormed) (hc' : c'.WellFormed)
    (hT : c.HasTable config T) (hT' : c'.HasTable config T') (name : String) :
    T'.class? name = T.class? name := by
  refine Option.ext fun e => ?_
  rw [hT'.class?_eq_some_iff hc', hT.class?_eq_some_iff hc]
  exact and_congr_left fun _ =>
    ⟨h.symm.mem_of_hasTable hc' hc hT' hT, h.mem_of_hasTable hc hc' hT hT'⟩

/-- The tables list the same entries. -/
theorem Alike.perm_of_hasTable (h : c.Alike c') (hc : c.WellFormed) (hc' : c'.WellFormed)
    (hT : c.HasTable config T) (hT' : c'.HasTable config T') :
    T.classes.Perm T'.classes ∧ T.arrayTypes.Perm T'.arrayTypes := by
  constructor
  · refine (List.perm_ext_iff_of_nodup (hT.classes_nodup hc) (hT'.classes_nodup hc')).mpr ?_
    exact fun e => ⟨h.mem_of_hasTable hc hc' hT hT', h.symm.mem_of_hasTable hc' hc hT' hT⟩
  · rw [hT.arrayTypes_eq, hT'.arrayTypes_eq]
    exact h.arrays.filterMap _

end Catalog

end DeviceLayout
