import DeviceLayout.Proofs.Catalog.Discovery

/-!
# Self-contained catalogs

A field type or array type of the catalog mentions a class and is made of array types
(`Catalog.Contains`). In a self-contained catalog all of that is in the catalog too
(`Catalog.SelfContained`), at least for the types that mention a class of which some `R` holds.

Discovery that brings in one type keeps a catalog self-contained if in the end all of that type
is there (`SelfContained.discovery_ofType`); other discovery keeps it so in any case
(`SelfContained.discovery_noTypes`).
-/

open Relation DeviceLayout.Action

namespace DeviceLayout

/-! ## Types -/

/-- The host knows the class and the chain above it. -/
def Host.Resolves (host : Host) (name : String) : Prop :=
  host.contains name = true ∧ ∃ above, host.ancestors name = some above

/-- The host resolves every class of which `R` holds. -/
def Host.ResolvesAll (host : Host) (R : String → Prop) : Prop :=
  ∀ name, R name → host.Resolves name

namespace HostType

variable {t level : HostType}

/-- `R` holds of the class the type mentions, if it mentions one. -/
def RefersTo (R : String → Prop) (t : HostType) : Prop :=
  ∀ name, t.referencedClass? = some name → R name

/-- An array type is its own outermost level. -/
theorem mem_arrayLevels_self (h : t.isArray = true) : t ∈ t.arrayLevels := by
  cases t with
  | array e => exact List.mem_cons_self ..
  | primitive p => cases h
  | named n => cases h

/-- A type with levels is an array type. -/
theorem isArray_of_arrayLevels (h : level ∈ t.arrayLevels) : t.isArray = true := by
  cases t with
  | array e => rfl
  | primitive p => cases h
  | named n => cases h

/-- Every level of an array type mentions the same class. -/
theorem referencedClass?_of_mem_arrayLevels (h : level ∈ t.arrayLevels) :
    level.referencedClass? = t.referencedClass? := by
  induction t with
  | primitive p => cases h
  | named n => cases h
  | array e ih =>
    rcases List.mem_cons.mp h with rfl | h
    · rfl
    · exact ih h

/-- The levels of a level are levels. -/
theorem arrayLevels_subset (h : level ∈ t.arrayLevels) : level.arrayLevels ⊆ t.arrayLevels := by
  induction t with
  | primitive p => cases h
  | named n => cases h
  | array e ih =>
    rcases List.mem_cons.mp h with rfl | h
    · exact List.Subset.refl _
    · exact fun l hl => List.mem_cons_of_mem _ (ih h hl)

end HostType

/-- Anything but fields and array types. -/
def Scope.noTypes : Scope :=
  ⟨fun _ => True, fun _ => True, fun _ _ => False, fun _ => False⟩

/-- Anything but fields and array types, and of these what belongs to one type. -/
def Scope.ofType (t : HostType) : Scope :=
  ⟨fun _ => True, fun _ => True, fun _ f => f.type = t, (· ∈ t.arrayLevels)⟩

theorem Scope.ofType_admitsType (S : Setting) (t : HostType) : (Scope.ofType t).AdmitsType S t :=
  ⟨fun _ _ _ _ _ _ => trivial, fun _ h => h⟩

namespace Catalog

variable {S : Setting} {A : Scope} {R : String → Prop} {c c' : Catalog} {id : ClassId}
  {d d' : ClassDescriptor} {t level : HostType}

/-! ## What a catalog mentions and contains -/

/-- The type is a recorded array type, or the type of a registered field. -/
def Mentions (c : Catalog) (t : HostType) : Prop :=
  t ∈ c.arrays ∨ ∃ d ∈ c.classes, ∃ f ∈ d.fields, f.type = t

/-- The class the type mentions and the array types it is made of are in the catalog. -/
structure Contains (c : Catalog) (t : HostType) : Prop where
  className : t.RefersTo fun name => (c.lookup name).isSome
  levels : ∀ level ∈ t.arrayLevels, level ∈ c.arrays

theorem Contains.of_mem_arrayLevels (h : c.Contains t) (hl : level ∈ t.arrayLevels) :
    c.Contains level where
  className name hn := h.className name (HostType.referencedClass?_of_mem_arrayLevels hl ▸ hn)
  levels _ hlevel := h.levels _ (HostType.arrayLevels_subset hl hlevel)

theorem Extends.isSome_lookup (h : c.Extends c') (hc : c.WellFormed) (hc' : c'.WellFormed)
    {name : String} (hl : (c.lookup name).isSome) : (c'.lookup name).isSome := by
  obtain ⟨id, hid⟩ := Option.isSome_iff_exists.mp hl
  rw [h.lookup hc hc' hid, Option.isSome_some]

theorem Extends.contains (h : c.Extends c') (hc : c.WellFormed) (hc' : c'.WellFormed)
    (ht : c.Contains t) : c'.Contains t where
  className name hn := h.isSome_lookup hc hc' (ht.className name hn)
  levels level hl := h.arrays_prefix.subset (ht.levels level hl)

/-- What a catalog mentions after discovery, it mentioned before, or the scope admits it. A field of
the later catalog stands on a class that was there, or it is new, and then admitted. -/
theorem Discovery.mentions (h : c.Discovery S A c') (ht : c'.Mentions t) :
    c.Mentions t ∨ A.array t ∨ ∃ name f, A.field name f ∧ f.type = t := by
  induction h with
  | refl => exact Or.inl ht
  | tail _ hstep ih =>
    rename_i c₁ c₂ hpre
    have hfield : ∀ {id : ClassId} {d d' : ClassDescriptor}, c₁.class? id = some d →
        (∀ f ∈ d'.fields, f ∈ d.fields ∨ A.field d.hostName f.declaration) →
        (c₁.withDescriptor id d').Mentions t →
          c₁.Mentions t ∨ ∃ name f, A.field name f ∧ f.type = t := by
      rintro id d d' h hnew (harr | ⟨q, hq, f, hf, rfl⟩)
      · exact Or.inl (Or.inl harr)
      · obtain ⟨a, ha⟩ := mem_classes_iff.mp hq
        rcases class?_withDescriptor h ha with ⟨-, rfl⟩ | ⟨-, hold⟩
        · rcases hnew f hf with hf | hA
          · exact Or.inl (Or.inr ⟨d, mem_classes_of_class? h, f, hf, rfl⟩)
          · exact Or.inr ⟨_, _, hA, rfl⟩
        · exact Or.inl (Or.inr ⟨q, mem_classes_of_class? hold, f, hf, rfl⟩)
    cases hstep with
    | newClass hA hnew hfits =>
      rcases ht with harr | ⟨d, hd, f, hf, rfl⟩
      · exact ih (Or.inl harr)
      · rcases List.mem_append.mp hd with hd | hd
        · exact ih (Or.inr ⟨d, hd, f, hf, rfl⟩)
        · rw [List.mem_singleton.mp hd] at hf
          cases hf
    | addMethod hA h hname hnew =>
      refine (hfield h ?_ ht).elim ih fun ht => Or.inr (Or.inr ht)
      exact fun f hf => Or.inl hf
    | addField hA h hnew hopen =>
      refine (hfield h ?_ ht).elim ih fun ht => Or.inr (Or.inr ht)
      intro f hf
      rcases List.mem_append.mp hf with hf | hf
      · exact Or.inl hf
      · rw [List.mem_singleton.mp hf]
        exact Or.inr hA
    | addArrays hA =>
      rcases ht with harr | hf
      · rcases List.mem_append.mp harr with harr | harr
        · exact ih (Or.inl harr)
        · exact Or.inr (Or.inl (hA t (List.mem_filter.mp harr).1))
      · exact ih (Or.inr hf)

/-! ## Array types and their levels -/

/-- A step of discovery leaves the array types as they are, or appends those of one type that are
missing. -/
theorem Discovers.arrays_cases (h : c.Discovers S A c') :
    c'.arrays = c.arrays ∨ ∃ t, (∀ level ∈ t.arrayLevels, A.array level) ∧
      c'.arrays = c.arrays ++ c.missingArrays t := by
  cases h with
  | newClass hA hnew hfits => exact Or.inl rfl
  | addMethod hA h hname hnew => exact Or.inl rfl
  | addField hA h hnew hopen => exact Or.inl rfl
  | addArrays hA => exact Or.inr ⟨_, hA, rfl⟩

/-- What is done to a catalog leaves the array types as they are, or appends those of one type that
are missing. -/
theorem Change.arrays_cases (h : c.Change S c') :
    c'.arrays = c.arrays ∨ ∃ t, c'.arrays = c.arrays ++ c.missingArrays t := by
  cases h with
  | discovery h => exact h.arrays_cases.imp_right fun ⟨t, _, ht⟩ => ⟨t, ht⟩
  | onClass => exact Or.inl rfl
  | classifyAll => exact Or.inl rfl

/-- The levels of each recorded array type are recorded. -/
def ClosedArrays (c : Catalog) : Prop :=
  ∀ t ∈ c.arrays, ∀ level ∈ t.arrayLevels, level ∈ c.arrays

theorem ClosedArrays.change (h : c.ClosedArrays) (hstep : c.Change S c') : c'.ClosedArrays := by
  unfold ClosedArrays
  obtain hsame | ⟨t, hadded⟩ := hstep.arrays_cases
  · rw [hsame]
    exact h
  · rw [hadded]
    intro t' ht' level hlevel
    rcases List.mem_append.mp ht' with ht' | ht'
    · exact List.mem_append_left _ (h t' ht' level hlevel)
    · have hsub := HostType.arrayLevels_subset (List.mem_filter.mp ht').1
      exact mem_arrays_append_missingArrays (hsub hlevel)

theorem ClosedArrays.reaches (h : c.ClosedArrays) (hd : c.Reaches S c') : c'.ClosedArrays := by
  induction hd with
  | refl => exact h
  | tail _ hstep ih => exact ih.change hstep

/-! ## The invariant -/

/-- Array types are recorded with all their levels, and all is there for each type that
mentions a class of which `R` holds, or no class. -/
structure SelfContained (R : String → Prop) (c : Catalog) : Prop where
  levels : ∀ t ∈ c.arrays, ∀ level ∈ t.arrayLevels, level ∈ c.arrays
  contains : ∀ t, c.Mentions t → t.RefersTo R → c.Contains t

theorem SelfContained.empty (R : String → Prop) : SelfContained R {} where
  levels _ h := nomatch h
  contains _ h := h.elim (fun h => nomatch h) fun ⟨_, h, _⟩ => nomatch h

/-- Discovery that brings in one type keeps a catalog self-contained if all of that type is there
in the end. -/
theorem SelfContained.discovery_ofType (h : c.SelfContained R) (hc : c.WellFormed)
    (hd : c.Discovery S (.ofType t) c') (ht : t.RefersTo R → c'.Contains t) :
    c'.SelfContained R where
  levels := ClosedArrays.reaches h.levels hd.reaches
  contains t' ht' hR := by
    rcases hd.mentions ht' with hm | hlevel | ⟨_, f, hf, rfl⟩
    · exact hd.reaches.extends.contains hc (hc.reaches hd.reaches) (h.contains t' hm hR)
    · have hclass := HostType.referencedClass?_of_mem_arrayLevels hlevel
      exact (ht fun name hn => hR name (hclass ▸ hn)).of_mem_arrayLevels hlevel
    · obtain rfl : f.type = t := hf
      exact ht hR

/-- Discovery that adds neither fields nor array types keeps a catalog self-contained. -/
theorem SelfContained.discovery_noTypes (h : c.SelfContained R) (hc : c.WellFormed)
    (hd : c.Discovery S .noTypes c') : c'.SelfContained R where
  levels := ClosedArrays.reaches h.levels hd.reaches
  contains t ht hR := by
    rcases hd.mentions ht with hm | hfalse | ⟨_, _, hfalse, -⟩
    · exact hd.reaches.extends.contains hc (hc.reaches hd.reaches) (h.contains t hm hR)
    · exact hfalse.elim
    · exact hfalse.elim

/-- A change of a descriptor that leaves its fields alone keeps a catalog self-contained. -/
theorem SelfContained.withDescriptor (h : c.SelfContained R) (hc : c.WellFormed)
    (hd : c.class? id = some d) (hc' : (c.withDescriptor id d').WellFormed)
    (he : d.Extends d') (hfields : d'.fields = d.fields) :
    (c.withDescriptor id d').SelfContained R where
  levels := h.levels
  contains t ht hR := by
    refine (extends_withDescriptor hd he).contains hc hc' (h.contains t ?_ hR)
    rcases ht with harr | ⟨q, hq, f, hf, rfl⟩
    · exact Or.inl harr
    · obtain ⟨a, ha⟩ := mem_classes_iff.mp hq
      rcases class?_withDescriptor hd ha with ⟨-, rfl⟩ | ⟨-, hold⟩
      · exact Or.inr ⟨d, mem_classes_of_class? hd, f, hfields ▸ hf, rfl⟩
      · exact Or.inr ⟨q, mem_classes_of_class? hold, f, hf, rfl⟩

end Catalog

end DeviceLayout
