import DeviceLayout.Proofs.Layout.Placement

/-!
# The packing order is canonical

Fields are compared by size if the policy says so, then by name, then by owner. All three are
transitive, so packing is (`Packing.compare`), and fields that compare equal agree in whatever the
policy looks at (`Packing.compare_eq_iff`). As name and owner are always looked at, they are the
same field (`Packing.same_of_compare_eq`). So different fields are packed one strictly before the
next (`Packing.pairwise_sort_lt`), and the order in which they were registered makes no difference
(`Packing.sort_eq_of_perm`). `Packing.canonical` collects this.

Ids only tell fields of different classes apart : fields of one class are packed in the same order
whatever the id of the class is (`Packing.sort_withOwner`).
-/

namespace DeviceLayout

/-- The same declaration on another class. -/
def Field.withOwner (owner : ClassId) (f : Field) : Field :=
  { f with owner }

instance : Std.TransCmp ClassId.compare :=
  inferInstanceAs (Std.TransCmp (compareOn ClassId.index))

theorem ClassId.eq_of_compare_eq {a b : ClassId} (h : a.compare b = .eq) : a = b := by
  obtain ⟨i⟩ := a
  obtain ⟨j⟩ := b
  have hij : i = j := Std.LawfulEqOrd.eq_of_compare h
  rw [hij]

namespace Packing

variable {p : Packing} {fields fields' : List Field} {owner owner' : ClassId} {a b : Field}

instance (p : Packing) : Std.TransCmp p.compareSize :=
  match p with
  | sizeDescending => @Std.TransCmp.opposite _ (compareOn Field.size) _
  | byName => { eq_swap := rfl, isLE_trans := fun _ _ => rfl }

instance (p : Packing) : Std.TransCmp p.compare :=
  inferInstanceAs (Std.TransCmp (compareLex p.compareSize
    (compareLex (compareOn Field.name) (compareOn fun f => f.owner.index))))

/-- One of two fields is packed no later than the other. -/
theorem isLE_total (p : Packing) (a b : Field) :
    (p.compare a b).isLE = true ∨ (p.compare b a).isLE = true := by
  have hswap : p.compare b a = (p.compare a b).swap := Std.OrientedCmp.eq_swap
  rw [hswap]
  cases p.compare a b with
  | lt => exact Or.inl rfl
  | eq => exact Or.inl rfl
  | gt => exact Or.inr rfl

theorem compareSize_eq_iff :
    p.compareSize a b = .eq ↔ (p = sizeDescending → a.size = b.size) := by
  cases p with
  | sizeDescending =>
    rw [compareSize, Std.LawfulEqOrd.compare_eq_iff_eq, eq_comm]
    exact (imp_iff_right rfl).symm
  | byName => exact iff_of_true rfl fun h => nomatch h

/-- Fields compare equal if and only if nothing that the policy looks at tells them apart. -/
theorem compare_eq_iff : p.compare a b = .eq ↔
    a.name = b.name ∧ a.owner = b.owner ∧ (p = sizeDescending → a.size = b.size) := by
  have howner : a.owner.compare b.owner = .eq ↔ a.owner = b.owner :=
    ⟨ClassId.eq_of_compare_eq, fun h => h ▸ Std.ReflCmp.compare_self⟩
  rw [compare, Ordering.then_eq_eq, Ordering.then_eq_eq, compareSize_eq_iff, howner,
    Std.LawfulEqOrd.compare_eq_iff_eq, and_comm, and_assoc]

/-- Two different fields never compare equal. -/
theorem same_of_compare_eq (h : p.compare a b = .eq) : a.Same b := by
  obtain ⟨hname, howner, -⟩ := compare_eq_iff.mp h
  exact Prod.ext howner hname

/-- Fields are packed one not after the next. -/
theorem pairwise_sort (p : Packing) (fields : List Field) :
    (p.sort fields).Pairwise fun a b => (p.compare a b).isLE = true :=
  List.pairwise_mergeSort (fun _ _ _ => Std.TransCmp.isLE_trans)
    (fun a b => (Bool.or_eq_true ..).mpr (p.isLE_total a b)) fields

/-- Fields that differ in owner or name are packed one strictly before the next. -/
theorem pairwise_sort_lt (packing : Packing) {fields : List Field}
    (hkeys : (fields.map Field.key).Nodup) :
    (packing.sort fields).Pairwise fun f g => packing.compare f g = .lt := by
  have hdistinct : ((packing.sort fields).map Field.key).Nodup :=
    ((packing.perm_sort fields).map _).nodup_iff.mpr hkeys
  refine (packing.pairwise_sort fields).imp₂ (fun f g hle hne => ?_)
    (List.pairwise_map.mp hdistinct)
  cases h : packing.compare f g with
  | lt => rfl
  | eq => exact absurd (same_of_compare_eq h) hne
  | gt => simp [h] at hle

/-- The order of registration makes no difference to the order of packing. -/
theorem sort_eq_of_perm (hperm : fields.Perm fields')
    (hkeys : (fields.map Field.key).Nodup) : p.sort fields = p.sort fields' := by
  refine List.Perm.eq_of_pairwise (fun a b ha hb hab hba => ?_) (p.pairwise_sort fields)
    (p.pairwise_sort fields') (((p.perm_sort fields).trans hperm).trans (p.perm_sort fields').symm)
  have hsame : a.Same b := same_of_compare_eq (Std.OrientedCmp.isLE_antisymm hab hba)
  have hb' : b ∈ fields := hperm.mem_iff.mpr (mem_sort.mp hb)
  exact List.inj_on_of_nodup_map hkeys (mem_sort.mp ha) hb' hsame

theorem compare_withOwner (h : a.owner = owner) (h' : b.owner = owner) :
    p.compare (a.withOwner owner') (b.withOwner owner') = p.compare a b := by
  have hself : ∀ id : ClassId, id.compare id = .eq := fun _ => Std.ReflCmp.compare_self
  have hsize : p.compareSize (a.withOwner owner') (b.withOwner owner') = p.compareSize a b := by
    cases p <;> rfl
  have howner : (a.withOwner owner').owner.compare (b.withOwner owner').owner =
      a.owner.compare b.owner := by rw [h, h', hself]; exact hself owner'
  rw [compare, compare, hsize, howner]
  rfl

/-- The id of a class makes no difference to the order its fields are packed in. -/
theorem sort_withOwner (h : ∀ f ∈ fields, f.owner = owner) :
    p.sort (fields.map (Field.withOwner owner')) = (p.sort fields).map (Field.withOwner owner') :=
  (List.map_mergeSort fun a ha b hb => by
    rw [compare_withOwner (h a ha) (h b hb)]).symm

/-! ## The canonical order -/

/-- The order is a total preorder in which only fields of one name and owner are equal, and lists
of different fields have one way to be sorted. -/
structure Canonical (p : Packing) : Prop where
  swap : ∀ a b, p.compare b a = (p.compare a b).swap
  total : ∀ a b, (p.compare a b).isLE = true ∨ (p.compare b a).isLE = true
  antisymm : ∀ a b, (p.compare a b).isLE = true → (p.compare b a).isLE = true →
    p.compare a b = .eq
  trans : ∀ a b c, (p.compare a b).isLE = true → (p.compare b c).isLE = true →
    (p.compare a c).isLE = true
  eq_iff : ∀ a b, p.compare a b = .eq ↔
    a.name = b.name ∧ a.owner = b.owner ∧ (p = sizeDescending → a.size = b.size)
  distinct : ∀ a b : Field, ¬ a.Same b → p.compare a b ≠ .eq
  sort_perm : ∀ fields, (p.sort fields).Perm fields
  /-- Different fields, whoever owns them, are sorted one strictly before the next. -/
  sort_increasing : ∀ fields : List Field, fields.Pairwise (fun a b => ¬ a.Same b) →
    (p.sort fields).Pairwise fun a b => p.compare a b = .lt
  /-- Whatever order they come in, they are sorted into the same list. -/
  sort_eq : ∀ fields fields' : List Field, fields.Pairwise (fun a b => ¬ a.Same b) →
    fields'.Perm fields → p.sort fields' = p.sort fields

/-- Both policies give a canonical order. -/
theorem canonical (p : Packing) : p.Canonical where
  swap _ _ := Std.OrientedCmp.eq_swap
  total := p.isLE_total
  antisymm _ _ := Std.OrientedCmp.isLE_antisymm
  trans _ _ _ := Std.TransCmp.isLE_trans
  eq_iff _ _ := compare_eq_iff
  distinct _ _ hne heq := hne (same_of_compare_eq heq)
  sort_perm := p.perm_sort
  sort_increasing _ hne := p.pairwise_sort_lt (List.pairwise_map.mpr hne)
  sort_eq _ _ hne hperm := (sort_eq_of_perm hperm.symm (List.pairwise_map.mpr hne)).symm

end Packing

end DeviceLayout
