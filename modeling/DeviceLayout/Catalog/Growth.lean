import DeviceLayout.Catalog

/-!
# How discovery grows a catalog

Discovery appends array types and never removes one (`Catalog.KeepsArrays`). Recording an
array type whose levels all lie in a finite pool either brings the recorded array types closer
to that pool or changes neither the array types nor the number of classes
(`Catalog.recordArray_nearer`), which is what bounds the walk over all classes.
-/

namespace DeviceLayout

namespace Catalog

/-! ## Array types are kept -/

/-- The array types of the first catalog stand at the front of those of the second. -/
def KeepsArrays (c c' : Catalog) : Prop :=
  c.arrays <+: c'.arrays

theorem KeepsArrays.refl (c : Catalog) : c.KeepsArrays c :=
  List.prefix_refl _

theorem KeepsArrays.trans {c c' c'' : Catalog} (h : c.KeepsArrays c')
    (h' : c'.KeepsArrays c'') : c.KeepsArrays c'' :=
  List.IsPrefix.trans h h'

instance : Std.Refl KeepsArrays := ⟨.refl⟩

instance : Trans KeepsArrays KeepsArrays KeepsArrays := ⟨.trans⟩

/-- A step that leaves the array types alone keeps them. -/
theorem KeepsArrays.of_eq {c c' : Catalog} (h : c'.arrays = c.arrays) : c.KeepsArrays c' :=
  show c.arrays <+: c'.arrays from h ▸ List.prefix_refl _

/-- Classes are added without a look at the array types. -/
theorem ensureClass_keepsArrays (packing : Packing) (parent : Option ClassId) (name : String) :
    (ensureClass packing parent name).Keeps KeepsArrays := by
  refine .get_bind fun c => ?_
  split
  · exact .refl c
  · exact .of_eq rfl

theorem ensureChain_keepsArrays (packing : Packing) (name : String) :
    ∀ (chain : List String) (parent : Option ClassId),
      (ensureChain packing name parent chain).Keeps KeepsArrays
  | [], parent => ensureClass_keepsArrays packing parent name
  | a :: rest, parent =>
    .bind (ensureClass_keepsArrays packing parent a) fun id =>
      ensureChain_keepsArrays packing name rest (some id)

/-- Bringing in a class brings in no array type. -/
theorem classFor_keepsArrays (S : Setting) (name : String) :
    (classFor S name).Keeps KeepsArrays := by
  refine .get_bind fun c => ?_
  split
  · exact .refl c
  · split
    · exact .refl c
    · split
      · exact .refl c
      · exact ensureChain_keepsArrays _ _ _ _ c

/-- A mention of a class brings in classes only. -/
theorem bringIn_keepsArrays (S : Setting) (t : HostType) : (bringIn S t).Keeps KeepsArrays := by
  rw [bringIn]
  cases t.referencedClass? with
  | none => exact .pure _
  | some name => exact .bind (classFor_keepsArrays S name) fun _ => .pure _

/-- A descriptor knows nothing of the array types of its catalog. -/
theorem onClass_keepsArrays {α : Type} (id : ClassId) (x : Action ClassDescriptor α) :
    (onClass id x).Keeps KeepsArrays := by
  refine .get_bind fun c => ?_
  split
  · exact .refl c
  · exact .of_eq rfl

/-- Recording an array type appends its missing levels. If the class it mentions is refused, the
levels stay. -/
theorem recordArray_keepsArrays (S : Setting) (t : HostType) :
    (recordArray S t).Keeps KeepsArrays := by
  refine .get_bind fun c => ?_
  dsimp only
  split
  · exact .refl c
  · refine Action.Keeps.bind (.tellAll _) (fun _ => ?_) c
    refine Action.Keeps.bind (.modify fun c' => List.prefix_append _ _) fun _ => ?_
    exact .bind (bringIn_keepsArrays S t) fun _ => .pure _

theorem recordArrays_keepsArrays (S : Setting) :
    ∀ ts : List HostType, (recordArrays S ts).Keeps KeepsArrays
  | [] => .pure _
  | t :: rest =>
    .bind (recordArray_keepsArrays S t) fun _ =>
      recordArrays_keepsArrays S rest

theorem registerMethod_keepsArrays (S : Setting) (m : MethodRef) :
    (registerMethod S m).Keeps KeepsArrays :=
  .bind (classFor_keepsArrays S _) fun id => onClass_keepsArrays id _

/-- A field that is registered may bring in an array type behind those that are there; it removes
none. -/
theorem registerField_keepsArrays (S : Setting) (access : FieldRef) :
    (registerField S access).Keeps KeepsArrays := by
  refine .bind (classFor_keepsArrays S _) fun through => ?_
  refine .get_bind fun c => ?_
  split
  · exact .refl c
  · refine Action.Keeps.bind (onClass_keepsArrays _ _) (fun added => ?_) c
    split
    · exact .pure _
    · refine Action.Keeps.bind (bringIn_keepsArrays S _) fun _ => ?_
      exact .bind (recordArray_keepsArrays S _) fun _ => .pure _

theorem registerFields_keepsArrays (S : Setting) :
    ∀ accesses : List FieldRef, (registerFields S accesses).Keeps KeepsArrays
  | [] => .pure _
  | access :: rest =>
    .bind (registerField_keepsArrays S access) fun _ =>
      .bind (registerFields_keepsArrays S rest) fun _ => .pure _

/-! ## Coming closer to a pool of array types -/

/-- Either more array types of the pool are recorded, or the array types and the number of
classes are as before. -/
def Nearer (pool : List HostType) (c c' : Catalog) : Prop :=
  remaining pool c'.arrays < remaining pool c.arrays ∨
    (c'.arrays = c.arrays ∧ c'.classes.length = c.classes.length)

theorem Nearer.refl {pool : List HostType} (c : Catalog) : Nearer pool c c :=
  Or.inr ⟨rfl, rfl⟩

/-- What comes nearer to the pool leaves no more of it to be recorded. -/
theorem Nearer.remaining_le {pool : List HostType} {c c' : Catalog} (h : Nearer pool c c') :
    remaining pool c'.arrays ≤ remaining pool c.arrays := by
  rcases h with h | ⟨h, -⟩
  · exact Nat.le_of_lt h
  · exact h ▸ Nat.le_refl _

/-- What has come nearer stays so : recorded array types are not taken back. -/
theorem Nearer.trans {pool : List HostType} {c c' c'' : Catalog} (h : Nearer pool c c')
    (h' : Nearer pool c' c'') : Nearer pool c c'' := by
  rcases h with h | ⟨ha, hc⟩
  · exact Or.inl (Nat.lt_of_le_of_lt h'.remaining_le h)
  · rcases h' with h' | ⟨ha', hc'⟩
    · exact Or.inl (ha ▸ h')
    · exact Or.inr ⟨ha'.trans ha, hc'.trans hc⟩

instance {pool : List HostType} : Std.Refl (Nearer pool) := ⟨.refl⟩

instance {pool : List HostType} : Trans (Nearer pool) (Nearer pool) (Nearer pool) := ⟨.trans⟩

/-- An array type whose levels lie in the pool comes nearer to it if one of its levels is missing,
and is passed over otherwise. This holds for a failure as well, since the levels are recorded before
their class is brought in. -/
theorem recordArray_nearer {S : Setting} {pool : List HostType} {t : HostType}
    (ht : t.arrayLevels ⊆ pool) : (recordArray S t).Keeps (Nearer pool) := by
  refine .get_bind fun c => ?_
  dsimp only
  split
  · exact .refl c
  · next h =>
    obtain ⟨level, rest, hm⟩ := List.exists_cons_of_ne_nil (mt List.isEmpty_iff.mpr h)
    have hl : level ∈ c.missingArrays t := hm ▸ List.mem_cons_self ..
    obtain ⟨hlevel, hnew⟩ := List.mem_filter.mp hl
    let added := c.missingArrays t
    let finish := fun (_ : Unit) => (Pure.pure added.length : Action Catalog Nat)
    have hk := Action.Keeps.bind (f := finish) (bringIn_keepsArrays S t) (fun _ => .pure _)
      { c with arrays := c.arrays ++ added }
    refine Or.inl (remaining_lt_of_mem ?_ (ht hlevel) (by simpa using hnew) ?_)
    · exact fun a ha => hk.subset (List.mem_append_left _ ha)
    · exact hk.subset (List.mem_append_right _ hl)

/-- The same for array types one after another, up to the first failure. -/
theorem recordArrays_nearer {S : Setting} {pool : List HostType} :
    ∀ {ts : List HostType}, (∀ t ∈ ts, t.arrayLevels ⊆ pool) →
      (recordArrays S ts).Keeps (Nearer pool)
  | [], _ => .pure _
  | t :: _, h =>
    .bind (recordArray_nearer (h t (List.mem_cons_self ..))) fun _ =>
      recordArrays_nearer fun t' ht' => h t' (List.mem_cons_of_mem t ht')

/-- Requests to a descriptor change neither array types nor the number of classes. -/
theorem onClass_nearer {pool : List HostType} {α : Type} (id : ClassId)
    (x : Action ClassDescriptor α) : (onClass id x).Keeps (Nearer pool) := by
  refine .get_bind fun c => ?_
  split
  · exact .refl c
  · exact Or.inr ⟨rfl, List.length_set⟩

end Catalog

end DeviceLayout
