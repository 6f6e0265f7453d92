import DeviceLayout.Proofs.Layout.Object
import DeviceLayout.Proofs.Registry.ArrayTypes
import DeviceLayout.Proofs.Table.Finalize
import Mathlib.Data.List.Forall2

/-!
# What a table shows

An entry takes the place of a field out of the layout of the class, by name, and leaves the field
out if the layout has no such name. Nothing is left out and nothing is mixed up : the names of one
class differ across its four buckets (`ClassDescriptor.WellFormed.bucketNames_nodup`), and the
layout places the same fields in the same order. So the entries of the instance fields, one bucket
after the other, are the placed instance fields one by one (`FieldLayout.map_placed_ofFields`), and
the same goes for the static fields.

`ClassLayout.Shows` says what the entry of a class shows of it, and `Registry.Lists` what a table
lists of a registry. Whatever the host, the settings and the history, what finalizing answers lists
the registry it leaves behind (`Registry.finalize_lists`).
-/

namespace DeviceLayout

/-! ## Entries of fields -/

namespace FieldLayout

/-- The place of the field. -/
def placed (e : FieldLayout) : PlacedField :=
  ⟨e.name, e.offset, e.size⟩

/-- `e` shows the field `f` at the given offset, if there is one. -/
structure Shows (e : FieldLayout) (f : Field) (offset : Option UInt32) : Prop where
  name_eq : e.name = f.name
  hostType_eq : e.hostType = f.type.hostName
  deviceType_eq : e.deviceType = f.storage.deviceName
  kind_eq : e.kind = f.storage.kind
  size_eq : e.size = f.size
  offset_eq : offset = some e.offset

/-- Fields that are placed are all shown, in their order. -/
theorem forall₂_ofFields {places : List PlacedField} :
    ∀ {fields : List Field},
      (∀ f ∈ fields, ∃ offset,
        (places.find? fun p => p.name = f.name) = some ⟨f.name, offset, f.size⟩) →
      List.Forall₂ (fun e f => Shows e f ((places.find? fun p => p.name = f.name).map (·.offset)))
        (ofFields places fields) fields
  | [], _ => .nil
  | f :: rest, h => by
    obtain ⟨offset, hfind⟩ := h f (List.mem_cons_self ..)
    have hrest := forall₂_ofFields fun g hg => h g (List.mem_cons_of_mem f hg)
    unfold ofFields at hrest ⊢
    rw [List.filterMap_cons, hfind, Option.map_some]
    exact .cons ⟨rfl, rfl, rfl, rfl, rfl, by rw [hfind]; rfl⟩ hrest

/-- The entries of all fields that are placed are the placed fields. Apart from the types, an entry
depends on the name of its field alone. -/
theorem map_placed_ofFields {places : List PlacedField} {fields : List Field}
    (hn : (fields.map (·.name)).Nodup)
    (hsame : places.map (fun p => (p.name, p.size)) = fields.map fun f => (f.name, f.size)) :
    (ofFields places fields).map placed = places := by
  have hnames := PlacedField.names_eq_of_same hsame
  rw [← hnames] at hn
  let place := fun name => (places.find? fun p => p.name = name).map fun p =>
    (⟨name, p.offset, p.size⟩ : PlacedField)
  calc (ofFields places fields).map placed
      = fields.filterMap fun f => place f.name := by
        rw [ofFields, List.map_filterMap]
        refine List.filterMap_congr fun f _ => ?_
        rw [Option.map_map]
        rfl
    _ = places.filterMap fun q => place q.name := by
        have hplace := congrArg (List.filterMap place) hnames.symm
        rwa [List.filterMap_map, List.filterMap_map] at hplace
    _ = places.filterMap some :=
        List.filterMap_congr fun q hq => by
          simp only [place, (find?_eq_some_iff_of_nodup hn).mpr ⟨hq, rfl⟩, Option.map_some]
    _ = places := List.filterMap_some

/-- The entries of references and values that are placed together, one bucket after the other. -/
theorem shows_of_block {places : List PlacedField} {refs values : List Field}
    (hn : ((refs ++ values).map (·.name)).Nodup)
    (hsame : places.map (fun p => (p.name, p.size)) =
      (refs ++ values).map fun f => (f.name, f.size)) :
    let shows := fun (e : FieldLayout) (f : Field) =>
      e.Shows f ((places.find? fun p => p.name = f.name).map (·.offset))
    List.Forall₂ shows (ofFields places refs) refs ∧
      List.Forall₂ shows (ofFields places values) values ∧
      (ofFields places refs ++ ofFields places values).map placed = places := by
  refine ⟨forall₂_ofFields fun f hf => PlacedField.find?_of_same hn hsame
      (List.mem_append_left _ hf),
    forall₂_ofFields fun f hf => PlacedField.find?_of_same hn hsame
      (List.mem_append_right _ hf), ?_⟩
  rw [ofFields, ofFields, ← List.filterMap_append]
  exact map_placed_ofFields hn hsame

end FieldLayout

/-! ## Entries of classes -/

/-- The placed fields of a class take up bytes. -/
theorem PlacedField.size_pos_of_same {places : List PlacedField} {fields : List Field}
    (hsame : places.map (fun p => (p.name, p.size)) = fields.map fun f => (f.name, f.size)) :
    ∀ p ∈ places, 0 < p.size.toNat := by
  intro p hp
  have hmem : (p.name, p.size) ∈ fields.map fun f => (f.name, f.size) :=
    hsame ▸ List.mem_map_of_mem (f := fun p : PlacedField => (p.name, p.size)) hp
  obtain ⟨f, -, hf⟩ := List.mem_map.mp hmem
  obtain ⟨k, hk⟩ := f.size_eq_two_pow
  rw [← (Prod.mk.inj hf).2, hk]
  exact Nat.two_pow_pos k

/-- Fields that take up bytes stand at increasing offsets. -/
theorem Run.increasing {align : Bool} {start stop : UInt32} {places : List PlacedField}
    (h : Run align start stop places) (hpos : ∀ p ∈ places, 0 < p.size.toNat) :
    places.Pairwise fun p q => p.offset < q.offset := by
  refine h.ordered.imp_of_mem fun {p q} hp _ hpq => UInt32.lt_iff_toNat_lt.mpr ?_
  have hsize := hpos p hp
  have hstop : p.stop = p.offset.toNat + p.size.toNat := rfl
  omega

namespace ClassLayout

/-- `e` shows the class `d` with the layout `p`. -/
structure Shows (e : ClassLayout) (d : ClassDescriptor) (p : Placement) : Prop where
  hostName_eq : e.hostName = d.hostName
  deviceName_eq : e.deviceName = mangle d.hostName
  instanceSize_eq : e.instanceSize = p.size
  /-- A bucket shows its fields in packing order, each at the offset of its name. -/
  instanceRefs : List.Forall₂ (fun f g => f.Shows g (p.offsetOf? g.name))
    e.instanceRefs d.buckets.instanceRefs
  instanceValues : List.Forall₂ (fun f g => f.Shows g (p.offsetOf? g.name))
    e.instanceValues d.buckets.instanceValues
  staticRefs : List.Forall₂ (fun f g => f.Shows g (p.staticOffsetOf? g.name))
    e.staticRefs d.buckets.staticRefs
  staticValues : List.Forall₂ (fun f g => f.Shows g (p.staticOffsetOf? g.name))
    e.staticValues d.buckets.staticValues
  /-- One bucket after the other, they are the placed fields of the layout, one by one. -/
  instances_placed : e.instanceFields.map FieldLayout.placed = p.instanceFields
  statics_placed : e.staticFields.map FieldLayout.placed = p.staticFields
  instances_increasing : e.instanceFields.Pairwise fun f g => f.offset < g.offset
  statics_increasing : e.staticFields.Pairwise fun f g => f.offset < g.offset
  /-- Every registered field is in the buckets, and in one of them only. -/
  buckets_perm : d.buckets.all.Perm d.fields
  buckets_nodup : (d.buckets.all.map (·.name)).Nodup
  refFieldCount_eq : e.refFieldCount.toNat = e.instanceRefs.length
  staticSize_eq : e.staticSize.toNat = e.staticFields.foldr (fun f sum => f.size.toNat + sum) 0

variable {d : ClassDescriptor} {p : Placement} {base : UInt32} {align : Bool}

/-- The references among the instance fields are few enough to be counted. -/
theorem toNat_refFieldCount (hs : p.Suits d base align) (parent : Option String) :
    (ofPlacement d p parent).refFieldCount.toNat = d.buckets.instanceRefs.length := by
  have hlength : p.instanceFields.length = d.buckets.instanceFields.length := by
    simpa only [List.length_map] using congrArg List.length hs.instances_same
  have hrefs : d.buckets.instanceFields.length =
      d.buckets.instanceRefs.length + d.buckets.instanceValues.length := List.length_append
  have hle := PlacedField.length_le_total (PlacedField.size_pos_of_same hs.instances_same)
  have htotal := hs.instances.total_le
  have hsize := p.size.toNat_lt
  have hfew : d.buckets.instanceRefs.length < 2 ^ 32 := by omega
  exact UInt64.toNat_ofNat_of_lt' (Nat.lt_trans hfew (by decide))

/-- The entry of a class shows the class, if the layout is one of the class. -/
theorem shows_ofPlacement (hd : d.WellFormed) (hs : p.Suits d base align)
    (parent : Option String) : (ofPlacement d p parent).Shows d p := by
  obtain ⟨hrefs, hvalues, hplaced⟩ :=
    FieldLayout.shows_of_block hd.instanceNames_nodup hs.instances_same
  obtain ⟨hrefs', hvalues', hplaced'⟩ :=
    FieldLayout.shows_of_block hd.staticNames_nodup hs.statics_same
  have hinc := hs.instances.increasing (PlacedField.size_pos_of_same hs.instances_same)
  have hinc' := hs.statics.increasing (PlacedField.size_pos_of_same hs.statics_same)
  rw [← hplaced, List.pairwise_map] at hinc
  rw [← hplaced', List.pairwise_map] at hinc'
  exact
    { hostName_eq := rfl
      deviceName_eq := rfl
      instanceSize_eq := rfl
      instanceRefs := hrefs
      instanceValues := hvalues
      staticRefs := hrefs'
      staticValues := hvalues'
      instances_placed := hplaced
      statics_placed := hplaced'
      instances_increasing := hinc
      statics_increasing := hinc'
      buckets_perm := Buckets.all_perm d.packing d.fields
      buckets_nodup := hd.bucketNames_nodup
      refFieldCount_eq := (toNat_refFieldCount hs parent).trans hrefs.length_eq.symm
      staticSize_eq := by
        have hsize : (ofPlacement d p parent).staticSize.toNat = _ := hs.toNat_staticSize
        rw [hsize, ← hplaced', PlacedField.total, List.foldr_map]
        rfl }

end ClassLayout

/-! ## Entries of array types -/

namespace ArrayTypeLayout

/-- `e` shows the array type `t`, and what is stored for one element of it. -/
structure Shows (e : ArrayTypeLayout) (t : HostType) : Prop where
  hostName_eq : e.hostName = t.hostName
  deviceName_eq : e.deviceName = t.deviceName
  element : ∃ element, t = .array element ∧ e.elementDeviceType = element.storage.deviceName ∧
    e.elementKind = element.storage.kind ∧ e.elementSize = element.storage.size

theorem forall₂_ofType? :
    ∀ {ts : List HostType}, (∀ t ∈ ts, t.isArray = true) →
      List.Forall₂ (fun t e => Shows e t) ts (ts.filterMap ofType?)
  | [], _ => .nil
  | .array element :: _, h =>
    .cons ⟨rfl, rfl, element, rfl, rfl, rfl, rfl⟩
      (forall₂_ofType? fun t ht => h t (List.mem_cons_of_mem _ ht))
  | .primitive p :: _, h => nomatch h (.primitive p) (List.mem_cons_self ..)
  | .named n :: _, h => nomatch h (.named n) (List.mem_cons_self ..)

end ArrayTypeLayout

/-! ## Tables -/

namespace Registry

variable {S : Setting} {r : Registry} {T : LayoutTable}

/-- `T` lists the registry. -/
structure Lists (S : Setting) (r : Registry) (T : LayoutTable) : Prop where
  config_eq : T.config = S.config
  /-- Classes are in the order of their ids. -/
  ids_eq : r.catalog.classes.map (·.id) =
    (List.range r.catalog.classes.length).map ClassId.mk
  classes : List.Forall₂ (fun d e => ∃ p, r.layout? d.id = some p ∧ e.Shows d p)
    r.catalog.classes T.classes
  names_nodup : (T.classes.map (·.hostName)).Nodup
  /-- A class that has a parent names the host name of an entry before its own. -/
  parent : ∀ {id d e}, r.catalog.class? id = some d → T.classes[id.index]? = some e →
    match d.parent with
    | none => e.parent = none
    | some parent => parent.index < id.index ∧
        ∃ above, T.classes[parent.index]? = some above ∧ e.parent = some above.hostName
  /-- Each used array type is listed once. -/
  arrays : List.Forall₂ (fun t e => e.Shows t) r.catalog.arrays T.arrayTypes
  arrays_nodup : r.catalog.arrays.Nodup

/-- A registry with all classes laid out is listed by its table. -/
theorem WellFormed.lists (hr : r.WellFormed S)
    (hall : ∀ id d, r.catalog.class? id = some d → (r.layout? id).isSome)
    (harrays : r.catalog.PlainArrays .arrayTypes) (hT : r.catalog.HasTable S.config T) :
    r.Lists S T where
  config_eq := hT.config_eq
  ids_eq := hr.catalog.ids_eq
  classes := by
    have hkept : ∀ d ∈ r.catalog.classes, ∃ p base, r.layout? d.id = some p ∧ d.WellFormed ∧
        p.Suits d base S.config.alignFields := by
      intro d hd
      obtain ⟨id, hid⟩ := Catalog.mem_classes_iff.mp hd
      obtain ⟨p, hp⟩ := Option.isSome_iff_exists.mp (hall id d hid)
      obtain ⟨base, hs⟩ := hr.suits hid hp
      exact ⟨p, base, hr.catalog.id_eq hid ▸ hp, hr.catalog.descriptor hid, hs⟩
    refine ((List.forall₂_and_left _ _).mpr ⟨hkept, hT.forall₂_classes⟩).imp ?_
    rintro d e ⟨⟨p, base, hp, hd, hs⟩, he⟩
    obtain ⟨q, hq, rfl⟩ := Catalog.entry?_eq_some.mp he
    obtain rfl := Except.ok.inj ((hr.freshLayout_of_layout? hp).symm.trans hq)
    exact ⟨p, hp, ClassLayout.shows_ofPlacement hd hs _⟩
  names_nodup := hT.hostNames_eq ▸ hr.catalog.names_nodup
  parent {id d e} hd he := by
    obtain ⟨e', he', hentry⟩ := hT.getElem?_classes hd
    obtain rfl := Option.some.inj (he'.symm.trans he)
    obtain ⟨p, -, rfl⟩ := Catalog.entry?_eq_some.mp hentry
    cases hparent : d.parent with
    | none => exact Catalog.parentName?_of_root hparent
    | some parent =>
      obtain ⟨q, hq⟩ := hr.catalog.class?_parent hd hparent
      obtain ⟨above, habove, hentry'⟩ := hT.getElem?_classes hq
      obtain ⟨p', -, rfl⟩ := Catalog.entry?_eq_some.mp hentry'
      exact ⟨hr.catalog.parent_lt hd hparent, _, habove,
        Catalog.parentName?_of_parent hparent hq⟩
  arrays := hT.arrayTypes_eq ▸ ArrayTypeLayout.forall₂_ofType? harrays.inside
  arrays_nodup := harrays.nodup

/-- After any history, whatever the host and the settings, the answer to finalizing lists all that
was registered. -/
theorem finalize_lists (S : Setting) (history : List Request) {T : LayoutTable}
    (hT : ((finalize S).run (after S history)).result = .ok T) :
    let r' := ((finalize S).run (after S history)).state
    r'.catalog = (after S history).catalog.classified ∧ r'.Lists S T := by
  intro r'
  obtain ⟨hr', -, hc', hres⟩ := finalize_cases (wellFormed_after S history)
  rw [hT] at hres
  obtain ⟨hall, hsnap⟩ := hres
  have harrays : r'.catalog.PlainArrays .arrayTypes := by
    obtain ⟨hinside, hnodup⟩ := plainArrays_after S history
    rw [show r'.catalog = (after S history).catalog.classified from hc']
    exact ⟨hinside, hnodup⟩
  exact ⟨hc', hr'.lists hall harrays ((hr'.snapshot_eq_ok hall).mp hsnap)⟩

end Registry

/-- A host whose class `A` has a field for each bucket, and a class `B` below it. -/
def Setting.mixed : Setting where
  host := .ofEntries
    [{ name := "A", known := true, ancestors := some []
       fields := some [⟨"n", .primitive .int, false⟩, ⟨"next", .named "B", false⟩,
         ⟨"all", .array (.named "B"), true⟩, ⟨"count", .primitive .long, true⟩] },
     { name := "B", known := true, ancestors := some ["A"]
       fields := some [⟨"y", .primitive .double, false⟩] }]

namespace Registry

theorem finalize_lists_mixed :
    let S := Setting.mixed
    let r := after S (["n", "next", "all", "count", "y"].map fun field =>
      .registerField ⟨"B", field⟩)
    ∃ T, ((finalize S).run r).result = .ok T ∧ T.classes.map (·.parent) = [none, some "A"] ∧
      T.classes.map (·.staticSize) = [12, 0] ∧ ((finalize S).run r).state.Lists S T := by
  intro S r
  have hshown : ((finalize S).run r).result.toOption.map (fun T =>
      (T.classes.map (·.parent), T.classes.map (·.staticSize))) =
        some ([none, some "A"], [12, 0]) := by decide +kernel
  obtain ⟨T, hT, hshown⟩ := Option.map_eq_some_iff.mp hshown
  obtain ⟨hparents, hsizes⟩ := Prod.mk.inj hshown
  have hok := toOption_eq_some_iff.mp hT
  exact ⟨T, hok, hparents, hsizes, (finalize_lists S _ hok).2⟩

end Registry

end DeviceLayout
