import DeviceLayout.Proofs.Catalog.Change

/-!
# What a catalog has more, and what it leaves alone

A catalog with nothing but new classes is told by their names (`Catalog.Appends`) : they stand at
the end, in order, and nothing has been registered on them. A class of such a catalog is one that
was there before, or blank (`Appends.classNamed?_cases`).

A frame says what is left alone while more is added (`Catalog.Frame`) : there may be new classes and
array types, and the fields of one class may be others, but nothing else of any class is different.
Frames of the same class compose (`Frame.trans`).
-/

namespace DeviceLayout

namespace ClassDescriptor

variable {packing : Packing} {d d' : ClassDescriptor}

/-- Nothing has been registered on the class, or done to it. -/
def Blank (packing : Packing) (d : ClassDescriptor) : Prop :=
  d = { id := d.id, hostName := d.hostName, parent := d.parent, packing }

/-- The descriptor without its fields. -/
def bare (d : ClassDescriptor) : ClassDescriptor :=
  { d with fields := [] }

/-- A descriptor is determined by its fields and what it is without them. -/
theorem eq_of_bare (h : d'.bare = d.bare) (hf : d'.fields = d.fields) : d' = d := by
  cases d
  cases d'
  simp_all [bare]

theorem Blank.fields_eq (h : d.Blank packing) : d.fields = [] := by
  rw [h]

theorem Blank.frozen_eq (h : d.Blank packing) : d.frozen = false := by
  rw [h]

theorem Blank.bare (h : d.Blank packing) : d.bare.Blank packing := by
  rw [Blank, ClassDescriptor.bare, h]

theorem Blank.hasField_eq (h : d.Blank packing) (name : String) : d.hasField name = false := by
  rw [hasField, h.fields_eq, List.any_nil]

end ClassDescriptor

namespace Catalog

variable {packing : Packing} {C : Option String} {c c' c'' : Catalog}
  {names names' : List String} {name : String} {id : ClassId} {d d' : ClassDescriptor}

/-! ## Classes by name -/

/-- A name finds the class of this name, wherever it stands. -/
theorem WellFormed.classNamed?_eq_some_iff (hc : c.WellFormed) :
    c.classNamed? name = some d ↔ ∃ id, c.class? id = some d ∧ d.hostName = name := by
  rw [classNamed?, Option.bind_eq_some_iff]
  constructor
  · rintro ⟨id, hid, hd⟩
    obtain ⟨d', hd', hname⟩ := hc.lookup_eq_some_iff.mp hid
    obtain rfl := Option.some.inj (hd.symm.trans hd')
    exact ⟨id, hd, hname⟩
  · rintro ⟨id, hd, hname⟩
    exact ⟨id, hc.lookup_eq_some_iff.mpr ⟨d, hd, hname⟩, hd⟩

theorem WellFormed.hostName_of_classNamed? (hc : c.WellFormed)
    (hd : c.classNamed? name = some d) : d.hostName = name := by
  obtain ⟨id, -, hname⟩ := hc.classNamed?_eq_some_iff.mp hd
  exact hname

/-- The fields of a class, none if it is not registered. -/
def fieldsOf (c : Catalog) (name : String) : List Field :=
  ((c.classNamed? name).map (·.fields)).getD []

/-! ## Catalogs with blank classes at the end -/

/-- The names that are not registered, in their order. -/
def missing (c : Catalog) (names : List String) : List String :=
  names.filter fun name => (c.lookup name).isNone

/-- `c'` is `c` with blank classes of these names at the end, in this order. -/
structure Appends (packing : Packing) (c : Catalog) (names : List String) (c' : Catalog) :
    Prop where
  classes_eq : ∃ new, c'.classes = c.classes ++ new ∧ new.map (·.hostName) = names ∧
    ∀ d ∈ new, d.Blank packing
  arrays_eq : c'.arrays = c.arrays

theorem Appends.refl (packing : Packing) (c : Catalog) : c.Appends packing [] c where
  classes_eq := ⟨[], (List.append_nil _).symm, rfl, fun _ h => nomatch h⟩
  arrays_eq := rfl

/-- What is appended in two steps is appended, one list of names behind the other. -/
theorem Appends.trans (h : c.Appends packing names c') (h' : c'.Appends packing names' c'') :
    c.Appends packing (names ++ names') c'' := by
  obtain ⟨new, hclasses, hnames, hblank⟩ := h.classes_eq
  obtain ⟨new', hclasses', hnames', hblank'⟩ := h'.classes_eq
  refine ⟨⟨new ++ new', ?_, ?_, fun d hd => ?_⟩, h'.arrays_eq.trans h.arrays_eq⟩
  · rw [hclasses', hclasses, List.append_assoc]
  · rw [List.map_append, hnames, hnames']
  · exact (List.mem_append.mp hd).elim (hblank d) (hblank' d)

/-- A new class is appended. -/
theorem appends_withClass (packing : Packing) (parent : Option ClassId) (name : String) :
    c.Appends packing [name] (c.withClass packing parent name) where
  classes_eq := ⟨_, rfl, rfl, fun d hd => by rw [List.mem_singleton.mp hd]; rfl⟩
  arrays_eq := rfl

/-- Whether a name is missing is asked for each name on its own. -/
theorem missing_cons : c.missing (name :: names) = c.missing [name] ++ c.missing names :=
  List.filter_append [name] names

theorem missing_of_known (h : ∀ n ∈ names, (c.lookup n).isSome) : c.missing names = [] :=
  List.filter_eq_nil_iff.mpr fun n hn => by simp [Option.isSome_iff_ne_none.mp (h n hn)]

/-- A new class is found by no other name. -/
theorem lookup_withClass_of_ne {parent : Option ClassId} {other : String} (h : other ≠ name) :
    (c.withClass packing parent name).lookup other = c.lookup other := by
  rw [lookup, withClass, List.find?_append, List.find?_singleton,
    if_neg (by simpa using Ne.symm h), Option.or_none, lookup]

/-- A new class leaves missing what was missing under other names. -/
theorem missing_withClass {parent : Option ClassId} (h : name ∉ names) :
    (c.withClass packing parent name).missing names = c.missing names :=
  List.filter_congr fun n hn => by
    rw [lookup_withClass_of_ne (ne_of_mem_of_not_mem hn h)]

/-! ## Frames -/

/-- `c'` is `c` with more array types, with new classes, and with other fields on the class `C`;
nothing else is different, and the new classes are blank but for the fields of `C`. -/
structure Frame (packing : Packing) (C : Option String) (c c' : Catalog) : Prop where
  old : ∀ {id d}, c.class? id = some d → ∃ d', c'.class? id = some d' ∧ d'.bare = d.bare ∧
    (some d.hostName ≠ C → d'.fields = d.fields)
  new : ∀ {id d'}, c.class? id = none → c'.class? id = some d' → d'.bare.Blank packing ∧
    (some d'.hostName ≠ C → d'.fields = [])
  arrays_prefix : c.arrays <+: c'.arrays

theorem Frame.refl (packing : Packing) (C : Option String) (c : Catalog) : c.Frame packing C c where
  old h := ⟨_, h, rfl, fun _ => rfl⟩
  new hnone h := nomatch hnone.symm.trans h
  arrays_prefix := List.prefix_refl _

/-- What is left alone by two steps is left alone by both together. -/
theorem Frame.trans (h : c.Frame packing C c') (h' : c'.Frame packing C c'') :
    c.Frame packing C c'' where
  old hd := by
    obtain ⟨d', hd', hbare, hfields⟩ := h.old hd
    obtain ⟨d'', hd'', hbare', hfields'⟩ := h'.old hd'
    have hname := congrArg ClassDescriptor.hostName hbare
    refine ⟨d'', hd'', hbare'.trans hbare, fun hC => ?_⟩
    exact (hfields' (hname ▸ hC)).trans (hfields hC)
  new {id d''} hnone hd'' := by
    cases hmid : c'.class? id with
    | none => exact h'.new hmid hd''
    | some d' =>
      obtain ⟨hblank, hfields⟩ := h.new hnone hmid
      obtain ⟨d₂, hd₂, hbare', hfields'⟩ := h'.old hmid
      obtain rfl := Option.some.inj (hd''.symm.trans hd₂)
      have hname := congrArg ClassDescriptor.hostName hbare'
      refine ⟨hbare' ▸ hblank, fun hC => ?_⟩
      have hC' : some d'.hostName ≠ C := fun he => hC ((congrArg some hname).trans he)
      exact (hfields' hC').trans (hfields hC')
  arrays_prefix := h.arrays_prefix.trans h'.arrays_prefix

/-- What no class may gain, one class may. -/
theorem Frame.weaken (h : c.Frame packing none c') (C : Option String) : c.Frame packing C c' where
  old hd := by
    obtain ⟨d', hd', hbare, hfields⟩ := h.old hd
    exact ⟨d', hd', hbare, fun _ => hfields (Option.some_ne_none _)⟩
  new hnone hd' := ⟨(h.new hnone hd').1, fun _ => (h.new hnone hd').2 (Option.some_ne_none _)⟩
  arrays_prefix := h.arrays_prefix

/-- Where no class may gain fields, the descriptors stay as they are. -/
theorem Frame.class?_eq (h : c.Frame packing none c') (hd : c.class? id = some d) :
    c'.class? id = some d := by
  obtain ⟨d', hd', hbare, hfields⟩ := h.old hd
  rw [hd', ClassDescriptor.eq_of_bare hbare (hfields (Option.some_ne_none _))]

/-- New array types leave the classes alone. -/
theorem frame_arrays (packing : Packing) (C : Option String) (types : List HostType) :
    c.Frame packing C { c with arrays := c.arrays ++ types } where
  old h := ⟨_, h, rfl, fun _ => rfl⟩
  new hnone h := nomatch hnone.symm.trans h
  arrays_prefix := List.prefix_append _ _

/-- New fields of the one class that may change leave everything else alone. -/
theorem frame_withFields (packing : Packing) (h : c.class? id = some d) {name : String}
    (hname : d.hostName = name) (fields : List Field) :
    c.Frame packing (some name) (c.withDescriptor id { d with fields }) where
  old {a q} hq := by
    by_cases ha : a = id
    · subst ha
      obtain rfl := Option.some.inj (h.symm.trans hq)
      exact ⟨_, class?_withDescriptor_self h, rfl, fun hne => absurd (congrArg some hname) hne⟩
    · exact ⟨q, (class?_withDescriptor_of_ne ha).trans hq, rfl, fun _ => rfl⟩
  new hnone hd' := by
    rcases class?_withDescriptor h hd' with ⟨rfl, -⟩ | ⟨-, hd⟩
    · cases h.symm.trans hnone
    · cases hd.symm.trans hnone
  arrays_prefix := List.prefix_refl _

namespace Appends

variable (h : c.Appends packing names c')

include h

/-- A class that is there is not touched by those that are appended. -/
theorem class?_eq (hd : c.class? id = some d) : c'.class? id = some d := by
  obtain ⟨new, hclasses, -, -⟩ := h.classes_eq
  rw [class?, hclasses, List.getElem?_append_left (index_lt_of_class? hd)]
  exact hd

/-- What is new is a class without members. -/
theorem blank (hnone : c.class? id = none) (hd : c'.class? id = some d) : d.Blank packing := by
  obtain ⟨new, hclasses, -, hblank⟩ := h.classes_eq
  rw [class?, hclasses, List.getElem?_append_right (List.getElem?_eq_none_iff.mp hnone)] at hd
  exact hblank d (List.mem_of_getElem? hd)

/-- Classes that are appended leave all others alone, so no class has to be excepted. -/
theorem frame (C : Option String) : c.Frame packing C c' where
  old hd := ⟨_, h.class?_eq hd, rfl, fun _ => rfl⟩
  new hnone hd := ⟨(h.blank hnone hd).bare, fun _ => (h.blank hnone hd).fields_eq⟩
  arrays_prefix := h.arrays_eq ▸ List.prefix_refl _

end Appends

/-- A class of a name is the one that was there before, or new and blank. A class of the name under
another id would still have it, and names are unique. -/
theorem Appends.classNamed?_cases (h : c.Appends packing names c') (hc : c.WellFormed)
    (hc' : c'.WellFormed) {name : String} (hd : c'.classNamed? name = some d) :
    c.classNamed? name = some d ∨ c.classNamed? name = none ∧ d.Blank packing := by
  obtain ⟨id, hid, hname⟩ := hc'.classNamed?_eq_some_iff.mp hd
  cases hold : c.class? id with
  | some q =>
    obtain rfl := Option.some.inj (hid.symm.trans (h.class?_eq hold))
    exact Or.inl (hc.classNamed?_eq_some_iff.mpr ⟨id, hold, hname⟩)
  | none =>
    refine Or.inr ⟨?_, h.blank hold hid⟩
    cases hbefore : c.classNamed? name with
    | none => rfl
    | some q =>
      obtain ⟨i, hi, hq⟩ := hc.classNamed?_eq_some_iff.mp hbefore
      have hsame := (hc'.lookup_eq_some_iff.mpr ⟨q, h.class?_eq hi, hq⟩).symm.trans
        (hc'.lookup_eq_some_iff.mpr ⟨d, hid, hname⟩)
      rw [Option.some.inj hsame, hold] at hi
      cases hi

end Catalog

end DeviceLayout
