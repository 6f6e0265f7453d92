import DeviceLayout.Proofs.Reachability.Exact
import DeviceLayout.Proofs.Reachability.Settings
import DeviceLayout.Proofs.Table.Contents

/-!
# Settings decide where fields stand

A walk under other settings leaves the same catalog behind, but for the packing order of its classes
(`Registry.walk_carries`). The order decides how a bucket is sorted, not what is in it, and sizes
are summed up over whole buckets. So the entry of a class has the same contents under all settings
(`ClassLayout.SameContents`), and under one packing order it has them in the same places of its
buckets (`ClassLayout.unplaced`). What is left to the settings is the offsets and the instance
sizes (`Registry.walk_settings`).
-/

namespace DeviceLayout

/-! ## Entries without places -/

namespace FieldLayout

/-- The entry, wherever the field stands. -/
def unplaced (e : FieldLayout) : FieldLayout :=
  { e with offset := 0 }

/-- What every entry of a field shows of it. -/
def ofField (f : Field) : FieldLayout where
  name := f.name
  hostType := f.type.hostName
  deviceType := f.storage.deviceName
  kind := f.storage.kind
  size := f.size
  offset := 0

theorem Shows.unplaced_eq {e : FieldLayout} {f : Field} {offset : Option UInt32}
    (h : e.Shows f offset) : e.unplaced = ofField f := by
  simp [unplaced, ofField, h.name_eq, h.hostType_eq, h.deviceType_eq, h.kind_eq, h.size_eq]

theorem map_unplaced_eq {offsetOf : Field → Option UInt32} {es : List FieldLayout}
    {fs : List Field} (h : List.Forall₂ (fun e f => e.Shows f (offsetOf f)) es fs) :
    es.map unplaced = fs.map ofField := by
  rw [← List.forall₂_eq_eq_eq, List.forall₂_map_left_iff, List.forall₂_map_right_iff]
  exact h.imp fun _ _ => Shows.unplaced_eq

/-- The same fields, wherever they stand and in whatever order. -/
def SameFields (es es' : List FieldLayout) : Prop :=
  (es'.map unplaced).Perm (es.map unplaced)

theorem SameFields.of_shows {offsetOf offsetOf' : Field → Option UInt32}
    {es es' : List FieldLayout} {fs fs' : List Field} (hperm : fs'.Perm fs)
    (h : List.Forall₂ (fun e f => e.Shows f (offsetOf f)) es fs)
    (h' : List.Forall₂ (fun e f => e.Shows f (offsetOf' f)) es' fs') : SameFields es es' := by
  rw [SameFields, map_unplaced_eq h, map_unplaced_eq h']
  exact hperm.map _

theorem SameFields.append {es es' fs fs' : List FieldLayout} (h : SameFields es es')
    (h' : SameFields fs fs') : SameFields (es ++ fs) (es' ++ fs') := by
  rw [SameFields, List.map_append, List.map_append]
  exact List.Perm.append h h'

theorem sum_size_unplaced (es : List FieldLayout) :
    (es.map unplaced).foldr (fun f sum => f.size.toNat + sum) 0 =
      es.foldr (fun f sum => f.size.toNat + sum) 0 := by
  rw [List.foldr_map]
  rfl

/-- The sizes of the same fields sum up to the same. -/
theorem SameFields.sum_size_eq {es es' : List FieldLayout} (h : SameFields es es') :
    es'.foldr (fun f sum => f.size.toNat + sum) 0 =
      es.foldr (fun f sum => f.size.toNat + sum) 0 := by
  rw [← sum_size_unplaced es, ← sum_size_unplaced es']
  refine h.foldr_eq' (fun f _ g _ sum => ?_) 0
  exact Nat.add_left_comm ..

end FieldLayout

namespace ClassLayout

/-- The entry, wherever the fields stand. -/
def unplaced (e : ClassLayout) : ClassLayout :=
  { e with
    instanceSize := 0
    instanceRefs := e.instanceRefs.map .unplaced
    instanceValues := e.instanceValues.map .unplaced
    staticRefs := e.staticRefs.map .unplaced
    staticValues := e.staticValues.map .unplaced }

/-- Entries of one class with the same fields in each bucket, wherever these stand and in whatever
order. -/
structure SameContents (e e' : ClassLayout) : Prop where
  hostName_eq : e'.hostName = e.hostName
  deviceName_eq : e'.deviceName = e.deviceName
  parent_eq : e'.parent = e.parent
  staticSize_eq : e'.staticSize = e.staticSize
  refFieldCount_eq : e'.refFieldCount = e.refFieldCount
  instanceRefs : FieldLayout.SameFields e.instanceRefs e'.instanceRefs
  instanceValues : FieldLayout.SameFields e.instanceValues e'.instanceValues
  staticRefs : FieldLayout.SameFields e.staticRefs e'.staticRefs
  staticValues : FieldLayout.SameFields e.staticValues e'.staticValues

variable {e e' : ClassLayout} {d : ClassDescriptor} {p p' : Placement}

/-- Entries of a class have the same contents whatever packing order the class has. -/
theorem Shows.sameContents {q : Packing} (h : e.Shows d p) (h' : e'.Shows (d.withPacking q) p')
    (hparent : e'.parent = e.parent) : e.SameContents e' := by
  have hbucket (keep : Field → Bool) :
      (q.sort (d.fields.filter keep)).Perm (d.packing.sort (d.fields.filter keep)) :=
    (q.perm_sort _).trans (d.packing.perm_sort _).symm
  have hrefs : FieldLayout.SameFields e.instanceRefs e'.instanceRefs :=
    .of_shows (hbucket _) h.instanceRefs h'.instanceRefs
  have hrefs' : FieldLayout.SameFields e.staticRefs e'.staticRefs :=
    .of_shows (hbucket _) h.staticRefs h'.staticRefs
  have hvalues' : FieldLayout.SameFields e.staticValues e'.staticValues :=
    .of_shows (hbucket _) h.staticValues h'.staticValues
  have hstatic : FieldLayout.SameFields e.staticFields e'.staticFields := hrefs'.append hvalues'
  exact
    { hostName_eq := h'.hostName_eq.trans h.hostName_eq.symm
      deviceName_eq := h'.deviceName_eq.trans h.deviceName_eq.symm
      parent_eq := hparent
      staticSize_eq := UInt32.toNat_inj.mp <| by
        rw [h'.staticSize_eq, h.staticSize_eq, hstatic.sum_size_eq]
      refFieldCount_eq := UInt64.toNat_inj.mp <| by
        rw [h'.refFieldCount_eq, h.refFieldCount_eq]
        simpa using hrefs.length_eq
      instanceRefs := hrefs
      instanceValues := .of_shows (hbucket _) h.instanceValues h'.instanceValues
      staticRefs := hrefs'
      staticValues := hvalues' }

/-- Entries of a class differ in places only. -/
theorem Shows.unplaced_eq (h : e.Shows d p) (h' : e'.Shows d p') (hparent : e'.parent = e.parent) :
    e'.unplaced = e.unplaced := by
  have hsame : e.SameContents e' := h.sameContents (q := d.packing) h' hparent
  simp only [unplaced, hsame.hostName_eq, hsame.deviceName_eq, hparent, hsame.staticSize_eq,
    hsame.refFieldCount_eq, FieldLayout.map_unplaced_eq h.instanceRefs,
    FieldLayout.map_unplaced_eq h.instanceValues, FieldLayout.map_unplaced_eq h.staticRefs,
    FieldLayout.map_unplaced_eq h.staticValues, FieldLayout.map_unplaced_eq h'.instanceRefs,
    FieldLayout.map_unplaced_eq h'.instanceValues, FieldLayout.map_unplaced_eq h'.staticRefs,
    FieldLayout.map_unplaced_eq h'.staticValues]

end ClassLayout

/-! ## Tables of one catalog -/

/-- What two lists of partners of one list have in common. -/
theorem forall₂_of_common {α β γ : Type} {R : α → β → Prop} {R' : α → γ → Prop} {Q : β → γ → Prop}
    (h : ∀ a b c, R a b → R' a c → Q b c) :
    ∀ {as : List α} {bs : List β} {cs : List γ},
      List.Forall₂ R as bs → List.Forall₂ R' as cs → List.Forall₂ Q bs cs
  | _, _, _, .nil, .nil => .nil
  | _, _, _, .cons hb hbs, .cons hc hcs => .cons (h _ _ _ hb hc) (forall₂_of_common h hbs hcs)

namespace Catalog

variable {c : Catalog} {id : ClassId} {d : ClassDescriptor} {config config' : LayoutConfig}
  {p : Placement} {q : Packing} {T T' : LayoutTable}

theorem withPacking_classified : (c.withPacking q).classified = c.classified.withPacking q := by
  simp [withPacking, classified, ClassDescriptor.withPacking, ClassDescriptor.freeze]

theorem parentName?_withPacking :
    (c.withPacking q).parentName? (d.withPacking q) = c.parentName? d := by
  simp only [parentName?, ClassDescriptor.withPacking]
  cases d.parent with
  | none => rfl
  | some parent => simp [Function.comp_def, ClassDescriptor.withPacking]

/-- A class with a layout is laid out behind something. -/
theorem WellFormed.exists_compute_of_freshLayout (hc : c.WellFormed) (h : c.class? id = some d)
    (hp : c.freshLayout config id = .ok p) :
    ∃ parentSize, Placement.compute d parentSize config = .ok p := by
  cases hparent : d.parent with
  | none =>
    rw [freshLayout_of_root h hparent] at hp
    exact ⟨none, layoutBehind_eq_ok.mp hp⟩
  | some parent =>
    rw [hc.freshLayout_of_parent h hparent] at hp
    cases habove : c.freshLayout config parent with
    | error e => simp [habove] at hp
    | ok above =>
      rw [habove] at hp
      exact ⟨some above.size, layoutBehind_eq_ok.mp hp⟩

/-- The entries of a table show the classes, and name their parents. -/
theorem HasTable.shows (h : c.HasTable config T) (hc : c.WellFormed) :
    List.Forall₂ (fun d e => (∃ p, e.Shows d p) ∧ e.parent = c.parentName? d)
      c.classes T.classes := by
  have hmem : ∀ d ∈ c.classes, ∃ id, c.class? id = some d :=
    fun _ hd => Catalog.mem_classes_iff.mp hd
  refine ((List.forall₂_and_left _ _).mpr ⟨hmem, h.forall₂_classes⟩).imp ?_
  rintro d e ⟨⟨id, hid⟩, he⟩
  obtain ⟨p, hp, rfl⟩ := entry?_eq_some.mp he
  rw [hc.id_eq hid] at hp
  obtain ⟨parentSize, hcompute⟩ := hc.exists_compute_of_freshLayout hid hp
  have hsuits := Placement.suits_of_compute hcompute
  exact ⟨⟨p, ClassLayout.shows_ofPlacement (hc.descriptor hid) hsuits _⟩, rfl⟩

/-- Tables of a catalog under two settings list classes with the same contents. -/
theorem HasTable.sameContents (h : c.HasTable config T)
    (h' : (c.withPacking q).HasTable config' T') (hc : c.WellFormed)
    (hc' : (c.withPacking q).WellFormed) :
    List.Forall₂ ClassLayout.SameContents T.classes T'.classes := by
  have hshows' := h'.shows hc'
  rw [withPacking, List.forall₂_map_left_iff] at hshows'
  refine forall₂_of_common ?_ (h.shows hc) hshows'
  rintro d e e' ⟨⟨p, hp⟩, hparent⟩ ⟨⟨p', hp'⟩, hparent'⟩
  refine hp.sameContents hp' (hparent'.trans (Eq.trans ?_ hparent.symm))
  exact parentName?_withPacking

/-- Under two settings with one packing order, entries differ in places only. -/
theorem HasTable.map_unplaced_eq (h : c.HasTable config T) (h' : c.HasTable config' T')
    (hc : c.WellFormed) :
    T'.classes.map ClassLayout.unplaced = T.classes.map ClassLayout.unplaced := by
  rw [eq_comm, ← List.forall₂_eq_eq_eq, List.forall₂_map_left_iff, List.forall₂_map_right_iff]
  refine forall₂_of_common ?_ (h.shows hc) (h'.shows hc)
  rintro d e e' ⟨⟨p, hp⟩, hparent⟩ ⟨⟨p', hp'⟩, hparent'⟩
  exact (hp.unplaced_eq hp' (hparent'.trans hparent.symm)).symm

end Catalog

/-! ## Runs under two settings -/

namespace Registry

/-- A walk on an empty registry leaves the same behind under other settings, but for the packing
order of the classes. -/
theorem walk_run_settings (host : Host) (g : CallGraph) (entries : List MethodRef)
    (config config' : LayoutConfig) :
    (walk ⟨host, config'⟩ g entries).run {} =
      ((walk ⟨host, config⟩ g entries).run {}).mapState (withPacking config'.packing) := by
  have hhost : Setting.host ⟨host, config'⟩ = Setting.host ⟨host, config⟩ := rfl
  exact walk_carries hhost entries {}

/-- The settings have no influence on what a walk answers. In the tables they decide the offsets,
the instance sizes and, by the packing order, the order within a bucket, and nothing else. For the
latter, the classes carry the packing order of the settings they were found under. -/
theorem walk_settings (host : Host) (g : CallGraph) (entries : List MethodRef)
    (config config' : LayoutConfig) :
    let o := (walk ⟨host, config⟩ g entries).run {}
    let o' := (walk ⟨host, config'⟩ g entries).run {}
    o'.result = o.result ∧
      ∀ T T', ((finalize ⟨host, config⟩).run o.state).result = .ok T →
        ((finalize ⟨host, config'⟩).run o'.state).result = .ok T' →
        List.Forall₂ ClassLayout.SameContents T.classes T'.classes ∧
          T'.arrayTypes = T.arrayTypes ∧ (config'.packing = config.packing →
            T'.classes.map ClassLayout.unplaced = T.classes.map ClassLayout.unplaced) := by
  intro o o'
  have hrun : o' = o.mapState (withPacking config'.packing) :=
    walk_run_settings host g entries config config'
  have hresult : o'.result = o.result := by rw [hrun, Outcome.mapState]
  refine ⟨hresult, fun T T' hT hT' => ?_⟩
  have hr := wellFormed_walk ⟨host, config⟩ g entries
  have hr' := wellFormed_walk ⟨host, config'⟩ g entries
  have hc : o.state.catalog.classified.WellFormed := hr.classified
  have hc' : o'.state.catalog.classified.WellFormed := hr'.classified
  have h : o.state.catalog.classified.HasTable config T := (finalize_eq_ok_iff hr).mp hT
  have h' : o'.state.catalog.classified.HasTable config' T' := (finalize_eq_ok_iff hr').mp hT'
  have hcatalog : o'.state.catalog.classified =
      o.state.catalog.classified.withPacking config'.packing := by
    rw [hrun, ← Catalog.withPacking_classified]
    rfl
  refine ⟨?_, ?_, fun hpacking => ?_⟩
  · rw [hcatalog] at h' hc'
    exact h.sameContents h' hc hc'
  · rw [h'.arrayTypes_eq, h.arrayTypes_eq, hcatalog]
    rfl
  · have hself : o.mapState (withPacking config.packing) = o :=
      (walk_run_settings host g entries config config).symm
    rw [hrun, hpacking, hself] at h'
    exact h.map_unplaced_eq h' hc

end Registry

/-- A class with a reference and a value, and a class below it with a static field. -/
def Program.branch : Program where
  classes := [("A", ⟨none, [⟨"next", .named "B", false⟩, ⟨"flag", .primitive .byte, false⟩]⟩),
    ("B", ⟨some "A", [⟨"count", .primitive .long, true⟩]⟩)]
  graph := ⟨[(⟨"A", "f()"⟩, { fields := [⟨"B", "count"⟩, ⟨"B", "flag"⟩, ⟨"A", "next"⟩] })]⟩

theorem Registry.walk_settings_branch :
    let entries : List MethodRef := [⟨"A", "f()"⟩]
    let S : Setting := ⟨Program.branch.host, {}⟩
    let S' : Setting := ⟨Program.branch.host, { headerSize := 12, alignFields := false }⟩
    let o := (walk S Program.branch.graph entries).run {}
    let o' := (walk S' Program.branch.graph entries).run {}
    ∃ T T', ((finalize S).run o.state).result = .ok T ∧
      ((finalize S').run o'.state).result = .ok T' ∧
      T.classes.map (·.instanceSize) = [8, 8] ∧ T'.classes.map (·.instanceSize) = [24, 24] ∧
      List.Forall₂ ClassLayout.SameContents T.classes T'.classes ∧
      T'.classes.map ClassLayout.unplaced = T.classes.map ClassLayout.unplaced := by
  intro entries S S' o o'
  let sizes (S : Setting) : Option (Option (List UInt32)) :=
    (expandAllWithin S Program.branch.graph 1 entries {}).map fun w =>
      ((finalize S).run w.state).result.toOption.map (·.classes.map (·.instanceSize))
  have hsizes : sizes S = some (some [8, 8]) := by decide +kernel
  have hsizes' : sizes S' = some (some [24, 24]) := by decide +kernel
  obtain ⟨w, hw, hT⟩ := Option.map_eq_some_iff.mp hsizes
  obtain ⟨w', hw', hT'⟩ := Option.map_eq_some_iff.mp hsizes'
  obtain ⟨T, hT, hsize⟩ := Option.map_eq_some_iff.mp hT
  obtain ⟨T', hT', hsize'⟩ := Option.map_eq_some_iff.mp hT'
  rw [← expandAll_of_within hw, ← walk_state] at hT
  rw [← expandAll_of_within hw', ← walk_state] at hT'
  have hok := toOption_eq_some_iff.mp hT
  have hok' := toOption_eq_some_iff.mp hT'
  obtain ⟨-, htables⟩ := walk_settings Program.branch.host Program.branch.graph entries
    S.config S'.config
  obtain ⟨hsame, -, hunplaced⟩ := htables T T' hok hok'
  exact ⟨T, T', hok, hok', hsize, hsize', hsame, hunplaced rfl⟩

end DeviceLayout
