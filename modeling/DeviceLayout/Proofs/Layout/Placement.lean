import DeviceLayout.Placement
import DeviceLayout.Proofs.Catalog.Change
import DeviceLayout.Proofs.Layout.Rounding
import Mathlib.Algebra.Group.Nat.Hom
import Mathlib.Data.List.Pairwise

/-!
# What placing promises

Rounding up never goes down, whatever the alignment (`le_of_alignUp`), and reaches a multiple
of an alignment that is a power of two (`dvd_of_alignUp`), as the size of every field is. So
the fields that `place` puts between `start` and `stop` stand one behind the other, within
`start` and `stop`, each at a multiple of its size if that was asked for (`place_run`).

The names of a class's fields differ across its four buckets
(`ClassDescriptor.WellFormed.bucketNames_nodup`), so a layout that is computed for a class
(`Placement.suits_of_compute`) gives each of its fields an offset by name, and it is the offset of
this field (`PlacedField.find?_of_same`). The layout depends on what cannot change once the class
is frozen (`Placement.compute_extends`).
-/

namespace DeviceLayout

/-! ## Placing one after another -/

/-- Every field is as wide as a power of two. -/
theorem Field.size_eq_two_pow (f : Field) : ∃ k, f.size.toNat = 2 ^ k := by
  unfold size storage
  cases f.type with
  | primitive p =>
    cases p with
    | boolean | byte => exact ⟨0, rfl⟩
    | char | short => exact ⟨1, rfl⟩
    | int | float => exact ⟨2, rfl⟩
    | long | double => exact ⟨3, rfl⟩
  | named name => exact ⟨2, rfl⟩
  | array e => exact ⟨2, rfl⟩

/-- The first byte behind a placed field. -/
def PlacedField.stop (p : PlacedField) : Nat :=
  p.offset.toNat + p.size.toNat

/-- One of the fields ends before the other begins. -/
def PlacedField.Apart (p q : PlacedField) : Prop :=
  p.stop ≤ q.offset.toNat ∨ q.stop ≤ p.offset.toNat

instance : Std.Symm PlacedField.Apart := ⟨fun _ _ h => h.symm⟩

/-- Placed fields one behind the other between `start` and `stop`. -/
structure Run (align : Bool) (start stop : UInt32) (placed : List PlacedField) : Prop where
  le : start.toNat ≤ stop.toNat
  within : ∀ p ∈ placed, start.toNat ≤ p.offset.toNat ∧ p.stop ≤ stop.toNat
  ordered : placed.Pairwise fun p q => p.stop ≤ q.offset.toNat
  aligned : align = true → ∀ p ∈ placed, p.size.toNat ∣ p.offset.toNat

theorem Run.nil (align : Bool) (start : UInt32) : Run align start start [] where
  le := Nat.le_refl _
  within _ h := nomatch h
  ordered := .nil
  aligned _ _ h := nomatch h

/-- A run with one field more in front. -/
theorem Run.cons {align : Bool} {start stop next : UInt32} {p : PlacedField}
    {placed : List PlacedField} (h : Run align next stop placed)
    (hstart : start.toNat ≤ p.offset.toNat) (hnext : next.toNat = p.stop)
    (haligned : align = true → p.size.toNat ∣ p.offset.toNat) :
    Run align start stop (p :: placed) where
  le := by
    have hle := h.le
    have hstop : p.stop = p.offset.toNat + p.size.toNat := rfl
    omega
  within q hq := by
    have hle := h.le
    have hstop : p.stop = p.offset.toNat + p.size.toNat := rfl
    rcases List.mem_cons.mp hq with rfl | hq
    · exact ⟨hstart, by omega⟩
    · obtain ⟨hlow, hhigh⟩ := h.within q hq
      exact ⟨by omega, hhigh⟩
  ordered := List.pairwise_cons.mpr ⟨fun q hq => hnext ▸ (h.within q hq).1, h.ordered⟩
  aligned ha q hq := by
    rcases List.mem_cons.mp hq with rfl | hq
    · exact haligned ha
    · exact h.aligned ha q hq

/-- Rounding up the end leaves the fields where they are. -/
theorem Run.of_alignUp {align : Bool} {start stop size a : UInt32} {placed : List PlacedField}
    (h : Run align start stop placed) (hsize : alignUp stop a = some size) :
    Run align start size placed := by
  have hle := le_of_alignUp hsize
  exact { h with
    le := Nat.le_trans h.le hle
    within := fun p hp => ⟨(h.within p hp).1, Nat.le_trans (h.within p hp).2 hle⟩ }

/-- Two fields of one run do not overlap. -/
theorem Run.apart {align : Bool} {start stop : UInt32} {placed : List PlacedField}
    (h : Run align start stop placed) {p q : PlacedField} (hp : p ∈ placed) (hq : q ∈ placed)
    (hne : p ≠ q) : p.Apart q := by
  have hall : placed.Pairwise PlacedField.Apart := h.ordered.imp fun hpq => Or.inl hpq
  exact hall.forall hp hq hne

/-- The first field is placed at `start`, rounded up if asked for, and the others behind it. -/
theorem place_cons {align : Bool} {f : Field} {rest : List Field} {start stop : UInt32}
    {placed : List PlacedField} (h : place align (f :: rest) start = some (placed, stop)) :
    ∃ offset next placed', (if align then alignUp start f.size else some start) = some offset ∧
      addChecked offset f.size = some next ∧ place align rest next = some (placed', stop) ∧
      placed = ⟨f.name, offset, f.size⟩ :: placed' := by
  cases align with
  | true =>
    simp only [place, if_true, Option.bind_eq_bind, Option.bind_eq_some_iff] at h
    obtain ⟨offset, hoffset, next, hnext, ⟨placed', last⟩, hrest, h⟩ := h
    obtain ⟨rfl, rfl⟩ := Prod.mk.inj (Option.some.inj h)
    exact ⟨offset, next, placed', hoffset, hnext, hrest, rfl⟩
  | false =>
    simp only [place, Bool.false_eq_true, if_false, Option.bind_eq_bind,
      Option.bind_eq_some_iff] at h
    obtain ⟨offset, hoffset, next, hnext, ⟨placed', last⟩, hrest, h⟩ := h
    obtain ⟨rfl, rfl⟩ := Prod.mk.inj (Option.some.inj h)
    exact ⟨offset, next, placed', hoffset, hnext, hrest, rfl⟩

/-- What is placed is what was asked for, one behind the other. -/
theorem place_run {align : Bool} :
    ∀ {fields : List Field} {start stop : UInt32} {placed : List PlacedField},
      place align fields start = some (placed, stop) →
        Run align start stop placed ∧
          placed.map (fun p => (p.name, p.size)) = fields.map fun f => (f.name, f.size)
  | [], start, stop, placed, h => by
    obtain ⟨rfl, rfl⟩ := Prod.mk.inj (Option.some.inj h)
    exact ⟨.nil align start, rfl⟩
  | f :: rest, start, stop, placed, h => by
    obtain ⟨offset, next, placed', hoffset, hnext, hrest, rfl⟩ := place_cons h
    obtain ⟨hrun, hsame⟩ := place_run hrest
    refine ⟨hrun.cons ?_ (addChecked_eq_some.mp hnext) ?_, ?_⟩
    · split at hoffset
      · exact le_of_alignUp hoffset
      · exact Nat.le_of_eq (congrArg UInt32.toNat (Option.some.inj hoffset))
    · intro ha
      rw [if_pos ha] at hoffset
      obtain ⟨k, hk⟩ := f.size_eq_two_pow
      exact dvd_of_alignUp hk hoffset
    · rw [List.map_cons, List.map_cons, hsame]

/-! ## Sums of sizes -/

/-- The sum of the sizes of placed fields. -/
def PlacedField.total (placed : List PlacedField) : Nat :=
  placed.foldr (fun p sum => p.size.toNat + sum) 0

@[simp] theorem PlacedField.total_append (placed placed' : List PlacedField) :
    total (placed ++ placed') = total placed + total placed' := by
  induction placed with
  | nil => exact (Nat.zero_add _).symm
  | cons p rest ih =>
    have htotal : ∀ l, total (p :: l) = p.size.toNat + total l := fun _ => rfl
    rw [List.cons_append, htotal, htotal, ih, Nat.add_assoc]

/-- Fields one behind the other between `low` and `high` have room there for all their bytes. -/
theorem PlacedField.total_le {high : Nat} :
    ∀ {placed : List PlacedField} {low : Nat}, low ≤ high →
      (∀ p ∈ placed, low ≤ p.offset.toNat ∧ p.stop ≤ high) →
      placed.Pairwise (fun p q => p.stop ≤ q.offset.toNat) → low + total placed ≤ high
  | [], _, hle, _, _ => hle
  | p :: rest, low, _, hwithin, hordered => by
    obtain ⟨hbehind, hrest⟩ := List.pairwise_cons.mp hordered
    obtain ⟨hlow, hhigh⟩ := hwithin p (List.mem_cons_self ..)
    have hnext : p.stop + total rest ≤ high :=
      total_le hhigh (fun q hq => ⟨hbehind q hq, (hwithin q (List.mem_cons_of_mem p hq)).2⟩) hrest
    have hstop : p.stop = p.offset.toNat + p.size.toNat := rfl
    have htotal : total (p :: rest) = p.size.toNat + total rest := rfl
    omega

theorem Run.total_le {align : Bool} {start stop : UInt32} {placed : List PlacedField}
    (h : Run align start stop placed) :
    start.toNat + PlacedField.total placed ≤ stop.toNat :=
  PlacedField.total_le h.le h.within h.ordered

/-- A sum of sizes in 32 bits is the sum of the sizes, as far as it fits. -/
theorem Field.toNat_sum_size (fields : List Field) :
    (fields.foldr (fun f sum => f.size + sum) (0 : UInt32)).toNat =
      fields.foldr (fun f sum => f.size.toNat + sum) 0 % UInt32.size := by
  induction fields with
  | nil => rfl
  | cons f rest ih =>
    rw [List.foldr_cons, List.foldr_cons, UInt32.toNat_add, ih]
    exact Nat.add_mod_mod ..

/-- Placed fields take the sizes of the fields. -/
theorem PlacedField.total_of_same {placed : List PlacedField} {fields : List Field}
    (hsame : placed.map (fun p => (p.name, p.size)) = fields.map fun f => (f.name, f.size)) :
    total placed = fields.foldr (fun f sum => f.size.toNat + sum) 0 := by
  have h := congrArg (List.foldr (fun e sum => e.2.toNat + sum) 0) hsame
  rwa [List.foldr_map, List.foldr_map] at h

/-- Fields that take up bytes are no more than these. -/
theorem PlacedField.length_le_total :
    ∀ {placed : List PlacedField}, (∀ p ∈ placed, 0 < p.size.toNat) →
      placed.length ≤ total placed
  | [], _ => Nat.le_refl _
  | p :: rest, h => by
    have hp := h p (List.mem_cons_self ..)
    have hrest : rest.length ≤ total rest :=
      length_le_total fun q hq => h q (List.mem_cons_of_mem p hq)
    have htotal : total (p :: rest) = p.size.toNat + total rest := rfl
    rw [List.length_cons, htotal]
    omega

/-! ## Buckets -/

namespace Packing

variable {packing : Packing} {fields : List Field}

theorem perm_sort (packing : Packing) (fields : List Field) :
    (packing.sort fields).Perm fields :=
  List.mergeSort_perm fields _

theorem mem_sort {f : Field} : f ∈ packing.sort fields ↔ f ∈ fields :=
  (packing.perm_sort fields).mem_iff

end Packing

namespace Buckets

/-- References and values of one kind make up the fields of that kind. -/
theorem refs_append_values_perm (packing : Packing) (fields : List Field) (kind : Field → Bool) :
    (packing.sort (fields.filter fun f => f.isReference && kind f) ++
      packing.sort (fields.filter fun f => !f.isReference && kind f)).Perm
        (fields.filter kind) := by
  refine ((packing.perm_sort _).append (packing.perm_sort _)).trans ?_
  rw [← List.filter_filter, ← List.filter_filter]
  exact List.filter_append_perm _ _

/-- Every field is in one bucket, as often as it was there before. -/
theorem all_perm (packing : Packing) (fields : List Field) :
    (ofFields packing fields).all.Perm fields := by
  have hinst := refs_append_values_perm packing fields Field.isInstance
  have hstat := refs_append_values_perm packing fields Field.isStatic
  exact ((hinst.append hstat).trans List.perm_append_comm).trans
    (List.filter_append_perm Field.isStatic fields)

end Buckets

namespace ClassDescriptor

variable {d d' : ClassDescriptor} {f : Field}

theorem mem_instanceFields : f ∈ d.buckets.instanceFields ↔ f ∈ d.fields ∧ f.isInstance = true :=
  (Buckets.refs_append_values_perm d.packing d.fields Field.isInstance).mem_iff.trans
    List.mem_filter

theorem mem_staticFields : f ∈ d.buckets.staticFields ↔ f ∈ d.fields ∧ f.isStatic = true :=
  (Buckets.refs_append_values_perm d.packing d.fields Field.isStatic).mem_iff.trans
    List.mem_filter

/-- The names of a class's fields differ, across all buckets. -/
theorem WellFormed.bucketNames_nodup (hd : d.WellFormed) :
    (d.buckets.all.map (·.name)).Nodup :=
  ((Buckets.all_perm d.packing d.fields).map _).nodup_iff.mpr hd.names_nodup

theorem WellFormed.instanceNames_nodup (hd : d.WellFormed) :
    (d.buckets.instanceFields.map (·.name)).Nodup := by
  have h := hd.bucketNames_nodup
  rw [Buckets.all, List.map_append] at h
  exact h.of_append_left

theorem WellFormed.staticNames_nodup (hd : d.WellFormed) :
    (d.buckets.staticFields.map (·.name)).Nodup := by
  have h := hd.bucketNames_nodup
  rw [Buckets.all, List.map_append] at h
  exact h.of_append_right

/-- A class that is classified has the same buckets from then on. -/
theorem Extends.buckets_eq (he : d.Extends d') (h : d.frozen = true) : d'.buckets = d.buckets := by
  rw [buckets, buckets, he.packing_eq, (he.frozen h).2]

end ClassDescriptor

/-! ## Laying out a class -/

/-- The places of fields have the names of the fields. -/
theorem PlacedField.names_eq_of_same {placed : List PlacedField} {fields : List Field}
    (hsame : placed.map (fun p => (p.name, p.size)) = fields.map fun f => (f.name, f.size)) :
    placed.map (·.name) = fields.map (·.name) := by
  have h := congrArg (List.map Prod.fst) hsame
  rwa [List.map_map, List.map_map] at h

/-- Among places of fields whose names differ, the first of a field's name is the field's own. -/
theorem PlacedField.find?_of_same {placed : List PlacedField} {fields : List Field}
    (hn : (fields.map (·.name)).Nodup)
    (hsame : placed.map (fun p => (p.name, p.size)) = fields.map fun f => (f.name, f.size))
    {f : Field} (hf : f ∈ fields) :
    ∃ offset, (placed.find? fun p => p.name = f.name) = some ⟨f.name, offset, f.size⟩ := by
  have hentry : (f.name, f.size) ∈ placed.map fun p => (p.name, p.size) :=
    hsame ▸ List.mem_map_of_mem hf
  obtain ⟨⟨name, offset, size⟩, hp, hpf⟩ := List.mem_map.mp hentry
  obtain ⟨rfl, rfl⟩ := Prod.mk.inj hpf
  rw [← names_eq_of_same hsame] at hn
  exact ⟨offset, (find?_eq_some_iff_of_nodup hn).mpr ⟨hp, rfl⟩⟩

namespace Placement

variable {d d' : ClassDescriptor} {parentSize : Option UInt32} {config : LayoutConfig}
  {p : Placement} {f g : Field} {offset offset' : UInt32}

/-- `p` is a layout of the classified class `d` from `base` on. -/
structure Suits (p : Placement) (d : ClassDescriptor) (base : UInt32) (align : Bool) : Prop where
  frozen : d.frozen = true
  classId_eq : p.classId = d.id
  base_eq : p.base = base
  instances : Run align p.base p.size p.instanceFields
  instances_same : p.instanceFields.map (fun q => (q.name, q.size)) =
    d.buckets.instanceFields.map fun f => (f.name, f.size)
  statics : Run align 0 p.staticExtent p.staticFields
  statics_same : p.staticFields.map (fun q => (q.name, q.size)) =
    d.buckets.staticFields.map fun f => (f.name, f.size)

/-- How a layout is put together, block by block. -/
structure Assembles (p : Placement) (d : ClassDescriptor) (base : UInt32)
    (config : LayoutConfig) : Prop where
  frozen : d.frozen = true
  classId_eq : p.classId = d.id
  base_eq : p.base = base
  instances : ∃ stop, place config.alignFields d.buckets.instanceFields p.base =
    some (p.instanceFields, stop) ∧ alignUp stop config.objectAlignment = some p.size
  statics : place config.alignFields d.buckets.staticFields 0 =
    some (p.staticFields, p.staticExtent)

theorem assembles_of_compute (h : compute d parentSize config = .ok p) :
    p.Assembles d (parentSize.getD config.headerSize) config := by
  unfold compute at h
  dsimp only at h
  split at h
  · cases h
  · next hfrozen =>
    split at h
    · cases h
    · next instanceFields stop hinst =>
      split at h
      · cases h
      · next size hsize =>
        split at h
        · cases h
        · next staticFields extent hstat =>
          cases h
          exact ⟨by simpa using hfrozen, rfl, rfl, ⟨stop, hinst, hsize⟩, hstat⟩

/-- A layout that is computed suits its class. -/
theorem suits_of_compute (h : compute d parentSize config = .ok p) :
    p.Suits d (parentSize.getD config.headerSize) config.alignFields := by
  have ha := assembles_of_compute h
  obtain ⟨stop, hinst, hsize⟩ := ha.instances
  obtain ⟨hrun, hsame⟩ := place_run hinst
  obtain ⟨hrun', hsame'⟩ := place_run ha.statics
  exact ⟨ha.frozen, ha.classId_eq, ha.base_eq, hrun.of_alignUp hsize, hsame, hrun', hsame'⟩

/-- A class that is classified has the same layout from then on. -/
theorem compute_extends (h : d.frozen = true) (he : d.Extends d') :
    compute d' parentSize config = compute d parentSize config := by
  rw [compute, compute, he.buckets_eq h, he.hostName_eq, he.id_eq, (he.frozen h).1, h]

namespace Suits

variable {base : UInt32} {align : Bool}

/-- The sum of the static fields' sizes fits into 32 bits. -/
theorem toNat_staticSize (h : p.Suits d base align) :
    d.buckets.staticSize.toNat = PlacedField.total p.staticFields := by
  have htotal := h.statics.total_le
  have hextent := p.staticExtent.toNat_lt
  have hfits : PlacedField.total p.staticFields < 2 ^ 32 := by omega
  have hmod : d.buckets.staticSize.toNat = _ := Field.toNat_sum_size d.buckets.staticFields
  rw [hmod, ← PlacedField.total_of_same h.statics_same]
  exact Nat.mod_eq_of_lt hfits

/-- Every instance field has an offset, and stands there. -/
theorem offsetOf?_instance (h : p.Suits d base align) (hd : d.WellFormed) (hf : f ∈ d.fields)
    (hi : f.isInstance = true) :
    ∃ offset, p.offsetOf? f.name = some offset ∧
      ⟨f.name, offset, f.size⟩ ∈ p.instanceFields := by
  obtain ⟨offset, hfind⟩ := PlacedField.find?_of_same hd.instanceNames_nodup h.instances_same
    (ClassDescriptor.mem_instanceFields.mpr ⟨hf, hi⟩)
  exact ⟨offset, congrArg (Option.map PlacedField.offset) hfind, List.mem_of_find?_eq_some hfind⟩

theorem staticOffsetOf?_static (h : p.Suits d base align) (hd : d.WellFormed) (hf : f ∈ d.fields)
    (hs : f.isStatic = true) :
    ∃ offset, p.staticOffsetOf? f.name = some offset ∧
      ⟨f.name, offset, f.size⟩ ∈ p.staticFields := by
  obtain ⟨offset, hfind⟩ := PlacedField.find?_of_same hd.staticNames_nodup h.statics_same
    (ClassDescriptor.mem_staticFields.mpr ⟨hf, hs⟩)
  exact ⟨offset, congrArg (Option.map PlacedField.offset) hfind, List.mem_of_find?_eq_some hfind⟩

end Suits

end Placement

end DeviceLayout
