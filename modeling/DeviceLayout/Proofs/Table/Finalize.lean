import DeviceLayout.Proofs.History
import Mathlib.Data.List.Forall2

/-!
# What finalizing answers

The table of a registry depends on its catalog alone. `Catalog.HasTable` says which table that
is : one entry for each class, with the layout of the class computed afresh, and one for each
array type. Finalizing answers this table of the classified catalog if there is one, and fails
otherwise (`Registry.finalize_ensures`), whatever layouts were computed before.

A catalog has a table if and only if every class has a layout (`Catalog.exists_hasTable_iff`).
-/

open DeviceLayout.Action

namespace DeviceLayout

theorem toOption_eq_some_iff {α ε : Type} {x : Except ε α} {a : α} :
    x.toOption = some a ↔ x = .ok a := by
  cases x <;> simp [Except.toOption]

/-- Applying a function that may fail to each entry of a list. -/
theorem mapM_eq_ok_iff {α β ε : Type} {f : α → Except ε β} {xs : List α} :
    ∀ {ys : List β}, xs.mapM f = .ok ys ↔ ys.map some = xs.map fun x => (f x).toOption := by
  induction xs with
  | nil =>
    intro ys
    rw [List.mapM_nil, List.map_nil, List.map_eq_nil_iff]
    exact ⟨fun h => (Except.ok.inj h).symm, fun h => h ▸ rfl⟩
  | cons x xs ih =>
    intro ys
    rw [List.mapM_cons, List.map_cons]
    cases hx : f x with
    | error e =>
      have hnone : (Except.error e : Except ε β).toOption = none := rfl
      cases ys <;> simp [bind, Except.bind, hnone]
    | ok y =>
      have hsome : (Except.ok y : Except ε β).toOption = some y := rfl
      cases hxs : xs.mapM f with
      | error e => cases ys <;> simp [bind, Except.bind, hsome, ← ih, hxs]
      | ok rest =>
        cases ys with
        | nil => simp [bind, Except.bind, pure, Except.pure]
        | cons z zs =>
          have hzs : xs.mapM f = .ok zs ↔ _ := ih
          rw [hxs, Except.ok.injEq] at hzs
          simp [bind, Except.bind, pure, Except.pure, hsome, ← hzs, eq_comm]

namespace Catalog

variable {c : Catalog} {config : LayoutConfig} {id : ClassId} {d : ClassDescriptor}
  {T : LayoutTable}

/-! ## Classified catalogs -/

/-- The catalog with every class classified. -/
def classified (c : Catalog) : Catalog :=
  { c with classes := c.classes.map (·.freeze) }

theorem class?_classified (c : Catalog) (id : ClassId) :
    c.classified.class? id = (c.class? id).map (·.freeze) :=
  List.getElem?_map

theorem lookup_classified (c : Catalog) (name : String) :
    c.classified.lookup name = c.lookup name := by
  rw [lookup, lookup, classified, List.find?_map, Option.map_map]
  rfl

/-! ## The table of a catalog -/

/-- The host name of the parent of a class. -/
def parentName? (c : Catalog) (d : ClassDescriptor) : Option String :=
  (d.parent.bind c.class?).map (·.hostName)

theorem parentName?_of_root (hp : d.parent = none) : c.parentName? d = none := by
  rw [parentName?, hp]
  rfl

theorem parentName?_of_parent {parent : ClassId} {q : ClassDescriptor}
    (hp : d.parent = some parent) (hq : c.class? parent = some q) :
    c.parentName? d = some q.hostName := by
  rw [parentName?, hp, Option.bind_some, hq, Option.map_some]

/-- The entry of a class, if it has a layout. -/
def entry? (config : LayoutConfig) (c : Catalog) (d : ClassDescriptor) : Option ClassLayout :=
  (c.freshLayout config d.id).toOption.map fun p => .ofPlacement d p (c.parentName? d)

/-- `T` lists the entries of all classes and array types, in the order of the catalog. -/
structure HasTable (config : LayoutConfig) (c : Catalog) (T : LayoutTable) : Prop where
  config_eq : T.config = config
  classes_eq : T.classes.map some = c.classes.map (c.entry? config)
  arrayTypes_eq : T.arrayTypes = c.arrays.filterMap ArrayTypeLayout.ofType?

theorem entry?_eq_some {e : ClassLayout} :
    c.entry? config d = some e ↔ ∃ p, c.freshLayout config d.id = .ok p ∧
      .ofPlacement d p (c.parentName? d) = e := by
  unfold entry?
  simp only [Option.map_eq_some_iff, toOption_eq_some_iff]

/-- A catalog has a table if and only if every class has a layout. -/
theorem exists_hasTable_iff :
    (∃ T, c.HasTable config T) ↔ ∀ d ∈ c.classes, ∃ p, c.freshLayout config d.id = .ok p := by
  constructor
  · rintro ⟨T, h⟩ d hd
    have hmem : c.entry? config d ∈ T.classes.map some :=
      h.classes_eq ▸ List.mem_map_of_mem hd
    obtain ⟨e, -, he⟩ := List.mem_map.mp hmem
    obtain ⟨p, hp, -⟩ := entry?_eq_some.mp he.symm
    exact ⟨p, hp⟩
  · intro h
    have hsome : ∀ o ∈ c.classes.map (c.entry? config), o.isSome := by
      intro o ho
      obtain ⟨d, hd, rfl⟩ := List.mem_map.mp ho
      obtain ⟨p, hp⟩ := h d hd
      rw [entry?_eq_some.mpr ⟨p, hp, rfl⟩, Option.isSome_some]
    refine ⟨⟨config, c.classes.filterMap (c.entry? config), _⟩, rfl, ?_, rfl⟩
    rw [List.map_filterMap_some_eq_filter_map_isSome, List.filter_eq_self.mpr hsome]

/-- The entry of a class of a catalog that has a table. -/
theorem HasTable.getElem?_classes (h : c.HasTable config T) (hd : c.class? id = some d) :
    ∃ e, T.classes[id.index]? = some e ∧ c.entry? config d = some e := by
  have hget : (T.classes.map some)[id.index]? = some (c.entry? config d) := by
    rw [h.classes_eq, List.getElem?_map, show c.classes[id.index]? = some d from hd,
      Option.map_some]
  rw [List.getElem?_map] at hget
  obtain ⟨e, he, hentry⟩ := Option.map_eq_some_iff.mp hget
  exact ⟨e, he, hentry.symm⟩

/-- Entries are those of the classes, one by one. -/
theorem HasTable.forall₂_classes (h : c.HasTable config T) :
    List.Forall₂ (fun d e => c.entry? config d = some e) c.classes T.classes := by
  have hmap : List.Forall₂ Eq (c.classes.map (c.entry? config)) (T.classes.map some) :=
    List.forall₂_eq_eq_eq ▸ h.classes_eq.symm
  rwa [List.forall₂_map_left_iff, List.forall₂_map_right_iff] at hmap

/-- The entries have the names of the classes. -/
theorem HasTable.hostNames_eq (h : c.HasTable config T) :
    T.classes.map (·.hostName) = c.classes.map (·.hostName) := by
  have hnames : List.Forall₂ (fun d e => d.hostName = e.hostName) c.classes T.classes := by
    refine h.forall₂_classes.imp fun d e he => ?_
    obtain ⟨p, -, rfl⟩ := entry?_eq_some.mp he
    rfl
  rw [← List.forall₂_map_right_iff, ← List.forall₂_map_left_iff, List.forall₂_eq_eq_eq] at hnames
  exact hnames.symm

theorem HasTable.classes_nodup (h : c.HasTable config T) (hc : c.WellFormed) : T.classes.Nodup :=
  List.Nodup.of_map (·.hostName) (h.hostNames_eq ▸ hc.names_nodup)

/-- Every entry is that of a class. -/
theorem HasTable.mem_classes_iff (h : c.HasTable config T) {e : ClassLayout} :
    e ∈ T.classes ↔ ∃ d ∈ c.classes, c.entry? config d = some e := by
  have hmem : e ∈ T.classes ↔ some e ∈ T.classes.map some := by simp
  rw [hmem, h.classes_eq, List.mem_map]

/-- The class of a name has an entry of that name. -/
theorem HasTable.isSome_class? (h : c.HasTable config T) (hc : c.WellFormed) {name : String}
    (hl : (c.lookup name).isSome) : (T.class? name).isSome := by
  obtain ⟨id, hid⟩ := Option.isSome_iff_exists.mp hl
  obtain ⟨d, hd, rfl⟩ := hc.lookup_eq_some_iff.mp hid
  obtain ⟨e, he, hentry⟩ := h.getElem?_classes hd
  obtain ⟨p, -, rfl⟩ := entry?_eq_some.mp hentry
  exact List.find?_isSome.mpr ⟨_, List.mem_of_getElem? he, by simp [ClassLayout.ofPlacement]⟩

/-- A field of an entry is a field of the class. -/
theorem exists_field_of_entry? {e : ClassLayout} (he : c.entry? config d = some e)
    {fl : FieldLayout} (hfl : fl ∈ e.instanceFields ++ e.staticFields) :
    ∃ f ∈ d.fields, fl.name = f.name ∧ fl.hostType = f.type.hostName := by
  obtain ⟨p, -, rfl⟩ := entry?_eq_some.mp he
  have hof : ∀ {placed : List PlacedField} {fields : List Field}, (∀ f ∈ fields, f ∈ d.fields) →
      fl ∈ FieldLayout.ofFields placed fields →
        ∃ f ∈ d.fields, fl.name = f.name ∧ fl.hostType = f.type.hostName := by
    intro placed fields hfields hmem
    obtain ⟨f, hf, hmap⟩ := List.mem_filterMap.mp hmem
    obtain ⟨q, -, rfl⟩ := Option.map_eq_some_iff.mp hmap
    exact ⟨f, hfields f hf, rfl, rfl⟩
  have hinst : ∀ f ∈ d.buckets.instanceFields, f ∈ d.fields := fun _ hf =>
    (ClassDescriptor.mem_instanceFields.mp hf).1
  have hstat : ∀ f ∈ d.buckets.staticFields, f ∈ d.fields := fun _ hf =>
    (ClassDescriptor.mem_staticFields.mp hf).1
  simp only [ClassLayout.instanceFields, ClassLayout.staticFields, ClassLayout.ofPlacement,
    List.mem_append] at hfl
  rcases hfl with (hmem | hmem) | (hmem | hmem)
  · exact hof (fun f hf => hinst f (List.mem_append_left _ hf)) hmem
  · exact hof (fun f hf => hinst f (List.mem_append_right _ hf)) hmem
  · exact hof (fun f hf => hstat f (List.mem_append_left _ hf)) hmem
  · exact hof (fun f hf => hstat f (List.mem_append_right _ hf)) hmem

/-- An entry of an array type is that of a recorded one. -/
theorem HasTable.mem_arrayTypes_iff (h : c.HasTable config T) {e : ArrayTypeLayout} :
    e ∈ T.arrayTypes ↔ ∃ t ∈ c.arrays, ArrayTypeLayout.ofType? t = some e := by
  rw [h.arrayTypes_eq, List.mem_filterMap]

end Catalog

namespace Registry

variable {S : Setting} {r : Registry} {id : ClassId} {d : ClassDescriptor}

/-! ## Finalizing -/

/-- Laying out classes one after another ends at the first that has no layout. -/
theorem layOutAll_ensures :
    ∀ {ids : List ClassId} {r : Registry}, r.WellFormed S →
      (∀ id ∈ ids, ∃ d, r.catalog.class? id = some d) →
      (layOutAll S ids).Ensures r fun res r' =>
        r'.WellFormed S ∧ r.Extends r' ∧ r'.catalog = r.catalog ∧ match res with
          | .ok _ => ∀ id ∈ ids, (r'.layout? id).isSome
          | .error e => ∃ id d f, r.catalog.class? id = some d ∧
              r.catalog.freshLayout S.config id = .error f ∧ e = blame d f.1 f.2
  | [], r, hr, _ => .pure ⟨hr, .refl r, rfl, fun _ h => nomatch h⟩
  | id :: rest, r, hr, hids => by
    obtain ⟨d, hd⟩ := hids id (List.mem_cons_self ..)
    have hadds := (layoutOf_run hr hd).1
    obtain ⟨hr₁, he₁⟩ := hr.reaches hadds.reaches
    have hc := hadds.catalog_eq
    refine Ensures.bind (Q := fun res r₁ => r₁ = ((layoutOf S id).run r).state ∧
      res = ((layoutOf S id).run r).result) ⟨rfl, rfl⟩ ?_ ?_
    · rintro p r₁ ⟨rfl, hok⟩
      have hkept := layout?_of_freshLayout hr hd ((layoutOf_eq_ok_iff hr hd).mp hok.symm)
      refine (layOutAll_ensures hr₁ fun a ha => ?_).mono ?_
      · rw [hc]
        exact hids a (List.mem_cons_of_mem id ha)
      · rintro res r₂ ⟨hr₂, he₂, hc₂, hres⟩
        refine ⟨hr₂, he₁.trans he₂, hc₂.trans hc, ?_⟩
        cases res with
        | ok u =>
          intro a ha
          rcases List.mem_cons.mp ha with rfl | ha
          · rw [he₂.layout? hkept, Option.isSome_some]
          · exact hres a ha
        | error e => exact hc ▸ hres
    · rintro e r₁ ⟨rfl, herr⟩
      obtain ⟨f, hf, he⟩ := freshLayout_of_layoutOf_error hr hd herr.symm
      exact ⟨hr₁, he₁, hc, id, d, f, hd, hf, he⟩

/-- The entry of a class that is laid out. -/
theorem WellFormed.classLayout_eq (hr : r.WellFormed S) (hd : r.catalog.class? id = some d)
    (hp : (r.layout? id).isSome) :
    (r.classLayout d).toOption = r.catalog.entry? S.config d := by
  obtain ⟨p, hp⟩ := Option.isSome_iff_exists.mp hp
  have hid : d.id = id := hr.catalog.id_eq hd
  rw [classLayout, Catalog.entry?, hid, hr.freshLayout_of_layout? hp, hp]
  rfl

/-- A registry with all classes laid out has a table. -/
theorem WellFormed.exists_hasTable (hr : r.WellFormed S)
    (hall : ∀ id d, r.catalog.class? id = some d → (r.layout? id).isSome) :
    ∃ T, r.catalog.HasTable S.config T := by
  refine Catalog.exists_hasTable_iff.mpr fun d hd => ?_
  obtain ⟨id, hid⟩ := Catalog.mem_classes_iff.mp hd
  obtain ⟨p, hp⟩ := Option.isSome_iff_exists.mp (hall id d hid)
  exact ⟨p, hr.catalog.id_eq hid ▸ hr.freshLayout_of_layout? hp⟩

/-- The snapshot of a registry with all classes laid out is the table of its catalog. -/
theorem WellFormed.snapshot_eq_ok (hr : r.WellFormed S)
    (hall : ∀ id d, r.catalog.class? id = some d → (r.layout? id).isSome) {T : LayoutTable} :
    LayoutTable.snapshot S.config r = .ok T ↔ r.catalog.HasTable S.config T := by
  have hentries : (r.catalog.classes.map fun d => (r.classLayout d).toOption) =
      r.catalog.classes.map (r.catalog.entry? S.config) := by
    refine List.map_congr_left fun d hd => ?_
    obtain ⟨id, hid⟩ := Catalog.mem_classes_iff.mp hd
    exact hr.classLayout_eq hid (hall id d hid)
  unfold LayoutTable.snapshot
  constructor
  · intro h
    cases hm : r.catalog.classes.mapM r.classLayout with
    | error e =>
      rw [hm] at h
      cases h
    | ok classes =>
      rw [hm] at h
      obtain rfl := Except.ok.inj h
      exact ⟨rfl, hentries ▸ mapM_eq_ok_iff.mp hm, rfl⟩
  · intro h
    rw [mapM_eq_ok_iff.mpr (hentries ▸ h.classes_eq : T.classes.map some = _)]
    obtain ⟨hconfig, -, harrays⟩ := h
    rw [Except.map, ← hconfig, ← harrays]

/-- Finalizing classifies every class. Either it lays out every class and answers the snapshot,
or some class has no layout, and the answer is the error for that class. -/
theorem finalize_cases (hr : r.WellFormed S) :
    (finalize S).Ensures r fun res r' =>
      r'.WellFormed S ∧ r.Extends r' ∧ r'.catalog = r.catalog.classified ∧ match res with
        | .ok T => (∀ id d, r'.catalog.class? id = some d → (r'.layout? id).isSome) ∧
            LayoutTable.snapshot S.config r' = .ok T
        | .error e => ∃ id d f, r'.catalog.class? id = some d ∧
            r'.catalog.freshLayout S.config id = .error f ∧ e = blame d f.1 f.2 := by
  let r₁ : Registry := { r with catalog := r.catalog.classified }
  have hstep : Reaches S r r₁ := .single (.catalog .classifyAll)
  obtain ⟨hr₁, he₁⟩ := hr.reaches hstep
  have hids : ∀ id ∈ (List.range r₁.catalog.classes.length).map ClassId.mk,
      ∃ d, r₁.catalog.class? id = some d := by
    intro id hid
    obtain ⟨i, hi, rfl⟩ := List.mem_map.mp hid
    exact Catalog.class?_of_index_lt (List.mem_range.mp hi)
  refine Ensures.bind (Q := fun res r' => res = .ok () ∧ r' = r₁)
    (.onPart (.get_bind (.tellAll_bind ⟨rfl, rfl⟩))) ?_ fun e r' h => nomatch h.1
  rintro - r' ⟨-, rfl⟩
  refine .get_bind ((layOutAll_ensures hr₁ hids).bind ?_ ?_)
  · rintro ⟨⟩ r₂ ⟨hr₂, he₂, hc₂, hall⟩
    have hlaid : ∀ id d, r₂.catalog.class? id = some d → (r₂.layout? id).isSome := by
      intro id d hd
      refine hall id (List.mem_map.mpr ⟨id.index, List.mem_range.mpr ?_, rfl⟩)
      exact hc₂ ▸ Catalog.index_lt_of_class? hd
    obtain ⟨T, hT⟩ := hr₂.exists_hasTable hlaid
    have hsnap := (hr₂.snapshot_eq_ok hlaid).mpr hT
    refine .get_bind ?_
    rw [hsnap]
    exact .pure ⟨hr₂, he₁.trans he₂, hc₂, hlaid, hsnap⟩
  · rintro e r₂ ⟨hr₂, he₂, hc₂, herr⟩
    exact ⟨hr₂, he₁.trans he₂, hc₂, hc₂.symm ▸ herr⟩

/-- Finalizing classifies every class, and answers the table of the catalog if it has one. -/
theorem finalize_ensures (hr : r.WellFormed S) :
    (finalize S).Ensures r fun res r' =>
      r'.WellFormed S ∧ r.Extends r' ∧ r'.catalog = r.catalog.classified ∧
        ∀ T, res = .ok T ↔ r.catalog.classified.HasTable S.config T := by
  refine (finalize_cases hr).mono fun res r' ⟨hr', he, hc, hres⟩ => ⟨hr', he, hc, fun T => ?_⟩
  rw [← hc]
  cases res with
  | ok T' => rw [← hr'.snapshot_eq_ok hres.1, hres.2]
  | error e =>
    obtain ⟨id, d, f, hd, hf, -⟩ := hres
    refine ⟨(fun h => nomatch h), fun hT => ?_⟩
    obtain ⟨p, hp⟩ := Catalog.exists_hasTable_iff.mp ⟨T, hT⟩ d (Catalog.mem_classes_of_class? hd)
    rw [hr'.catalog.id_eq hd, hf] at hp
    cases hp

/-- What finalizing answers, apart from the state it leaves behind. -/
theorem finalize_eq_ok_iff (hr : r.WellFormed S) {T : LayoutTable} :
    ((finalize S).run r).result = .ok T ↔ r.catalog.classified.HasTable S.config T := by
  obtain ⟨-, -, -, hres⟩ := finalize_ensures hr
  exact hres T

/-- The catalog a table is read off is well-formed. -/
theorem WellFormed.classified (hr : r.WellFormed S) : r.catalog.classified.WellFormed :=
  hr.catalog.change (S := S) .classifyAll

end Registry

end DeviceLayout
