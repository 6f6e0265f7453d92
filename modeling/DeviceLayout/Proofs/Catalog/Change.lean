import DeviceLayout.Proofs.Catalog.WellFormed
import Mathlib.Logic.Relation

/-!
# How catalogs change

Whatever is done to a catalog is done in steps of few kinds. Discovery creates a class below
classes that are there, registers a method or a field, or records array types
(`Catalog.Discovers`); a request to a descriptor changes that descriptor alone
(`ClassDescriptor.Change`); classification freezes every class. `Catalog.Change` collects them.

A step of discovery is taken within a `Scope`, which says what may be added. The scope is what
makes a statement of the form "nothing else was added" out of one about steps.

Each step keeps a catalog well-formed (`WellFormed.change`) and only ever adds to it
(`Change.extends`) : ids, host names and parents stay, members and array types are appended,
and a frozen class keeps its fields.
-/

open Relation

namespace DeviceLayout

/-! ## Descriptors -/

namespace ClassDescriptor

variable {d d' d'' : ClassDescriptor}

/-- The ways in which a descriptor changes. -/
inductive Change (d : ClassDescriptor) : ClassDescriptor → Prop
  /-- A field of a new name, while the class is not frozen. -/
  | addField (f : HostField) (hnew : d.hasField f.name = false) (hopen : d.frozen = false) :
    Change d { d with fields := d.fields ++ [⟨d.id, f⟩] }
  | addMethod (m : MethodRef) (hnew : d.hasMethod m = false) :
    Change d { d with methods := d.methods ++ [m] }
  | freeze : Change d d.freeze
  | walkMembers : Change d { d with membersWalked := true }
  | walkArrays : Change d { d with arraysWalked := true }

/-- A later state of the same descriptor. -/
structure Extends (d d' : ClassDescriptor) : Prop where
  id_eq : d'.id = d.id
  hostName_eq : d'.hostName = d.hostName
  parent_eq : d'.parent = d.parent
  packing_eq : d'.packing = d.packing
  methods_prefix : d.methods <+: d'.methods
  fields_prefix : d.fields <+: d'.fields
  frozen : d.frozen = true → d'.frozen = true ∧ d'.fields = d.fields
  membersWalked : d.membersWalked = true → d'.membersWalked = true
  arraysWalked : d.arraysWalked = true → d'.arraysWalked = true

theorem Extends.refl (d : ClassDescriptor) : d.Extends d where
  id_eq := rfl
  hostName_eq := rfl
  parent_eq := rfl
  packing_eq := rfl
  methods_prefix := List.prefix_refl _
  fields_prefix := List.prefix_refl _
  frozen h := ⟨h, rfl⟩
  membersWalked h := h
  arraysWalked h := h

/-- A later state of a later state is a later state. -/
theorem Extends.trans (h : d.Extends d') (h' : d'.Extends d'') : d.Extends d'' where
  id_eq := h'.id_eq.trans h.id_eq
  hostName_eq := h'.hostName_eq.trans h.hostName_eq
  parent_eq := h'.parent_eq.trans h.parent_eq
  packing_eq := h'.packing_eq.trans h.packing_eq
  methods_prefix := h.methods_prefix.trans h'.methods_prefix
  fields_prefix := h.fields_prefix.trans h'.fields_prefix
  frozen hf := by
    obtain ⟨hf', he⟩ := h.frozen hf
    obtain ⟨hf'', he'⟩ := h'.frozen hf'
    exact ⟨hf'', he'.trans he⟩
  membersWalked hw := h'.membersWalked (h.membersWalked hw)
  arraysWalked hw := h'.arraysWalked (h.arraysWalked hw)

/-- Every change of a descriptor leads to a later state of it. -/
theorem Change.extends (h : d.Change d') : d.Extends d' := by
  cases h with
  | addField f hnew hopen =>
    refine { Extends.refl d with fields_prefix := List.prefix_append _ _, frozen := ?_ }
    intro hf
    rw [hopen] at hf
    cases hf
  | addMethod m hnew => exact { Extends.refl d with methods_prefix := List.prefix_append _ _ }
  | freeze => exact { Extends.refl d with frozen := fun _ => ⟨rfl, rfl⟩ }
  | walkMembers => exact { Extends.refl d with membersWalked := fun _ => rfl }
  | walkArrays => exact { Extends.refl d with arraysWalked := fun _ => rfl }

/-- A change leaves a descriptor well-formed : members are added only if they are new, and fields
under the id of the class. -/
theorem WellFormed.change (hd : d.WellFormed) (h : d.Change d') : d'.WellFormed := by
  cases h with
  | addField f hnew hopen =>
    refine { hd with names_nodup := ?_, owner_eq := ?_ }
    · have hfresh : f.name ∉ d.fields.map (·.name) := by
        intro hf
        obtain ⟨g, hg, hn⟩ := List.mem_map.mp hf
        rw [hasField_iff.mpr ⟨g, hg, hn⟩] at hnew
        cases hnew
      rw [List.map_append]
      exact hd.names_nodup.append (List.nodup_singleton _) (by simpa [Field.name] using hfresh)
    · intro g hg
      rcases List.mem_append.mp hg with hg | hg
      · exact hd.owner_eq g hg
      · rw [List.mem_singleton.mp hg]
  | addMethod m hnew =>
    refine { hd with methods_nodup := ?_ }
    have hfresh : m ∉ d.methods := by
      intro hm
      rw [hasMethod_iff.mpr hm] at hnew
      cases hnew
    exact hd.methods_nodup.append (List.nodup_singleton _) (by simpa using hfresh)
  | freeze => exact { hd with }
  | walkMembers => exact { hd with }
  | walkArrays => exact { hd with }

end ClassDescriptor

/-! ## Steps of a catalog -/

/-- What may be added to a catalog. -/
structure Scope where
  /-- Classes, by host name. -/
  className : String → Prop
  /-- Methods, each on the class it names. -/
  method : MethodRef → Prop
  /-- Fields, by the host name of the class and the declaration. -/
  field : String → HostField → Prop
  array : HostType → Prop

/-- Everything may be added. -/
def Scope.all : Scope :=
  ⟨fun _ => True, fun _ => True, fun _ _ => True, fun _ => True⟩

namespace Catalog

variable {c c' c'' : Catalog} {id : ClassId} {d d' : ClassDescriptor}

/-- The catalog with an empty class at the end. -/
def withClass (c : Catalog) (packing : Packing) (parent : Option ClassId) (name : String) :
    Catalog :=
  { c with
    classes := c.classes ++ [{ id := ⟨c.classes.length⟩, hostName := name, parent, packing }] }

/-- The catalog with another descriptor for a class. -/
def withDescriptor (c : Catalog) (id : ClassId) (d : ClassDescriptor) : Catalog :=
  { c with classes := c.classes.set id.index d }

/-- `name` stands below `parent` on the chain of some class of the host, and all of the chain
above `name` is in the catalog. -/
def Fits (c : Catalog) (host : Host) (name : String) (parent : Option ClassId) : Prop :=
  ∃ target ancestors below above, host.ancestors target = some ancestors ∧
    target :: ancestors = below ++ name :: above ∧ (∀ a ∈ above, (c.lookup a).isSome) ∧
    parent = above.head?.bind c.lookup

/-- One step of discovery, within a scope. -/
inductive Discovers (S : Setting) (A : Scope) (c : Catalog) : Catalog → Prop
  | newClass {name : String} {parent : Option ClassId} (hA : A.className name)
    (hnew : c.lookup name = none) (hfits : c.Fits S.host name parent) :
    Discovers S A c (c.withClass S.config.packing parent name)
  | addMethod {id : ClassId} {d : ClassDescriptor} {m : MethodRef} (hA : A.method m)
    (h : c.class? id = some d) (hname : d.hostName = m.className)
    (hnew : d.hasMethod m = false) :
    Discovers S A c (c.withDescriptor id { d with methods := d.methods ++ [m] })
  | addField {id : ClassId} {d : ClassDescriptor} {f : HostField} (hA : A.field d.hostName f)
    (h : c.class? id = some d) (hnew : d.hasField f.name = false) (hopen : d.frozen = false) :
    Discovers S A c (c.withDescriptor id { d with fields := d.fields ++ [⟨d.id, f⟩] })
  | addArrays {t : HostType} (hA : ∀ level ∈ t.arrayLevels, A.array level) :
    Discovers S A c { c with arrays := c.arrays ++ c.missingArrays t }

/-- One step of any kind. -/
inductive Change (S : Setting) (c : Catalog) : Catalog → Prop
  | discovery {c' : Catalog} (h : c.Discovers S .all c') : Change S c c'
  | onClass {id : ClassId} {d d' : ClassDescriptor} (h : c.class? id = some d)
    (hd : d.Change d') : Change S c (c.withDescriptor id d')
  | classifyAll : Change S c { c with classes := c.classes.map (·.freeze) }

/-- Any number of steps of discovery. -/
def Discovery (S : Setting) (A : Scope) : Catalog → Catalog → Prop :=
  ReflTransGen (Discovers S A)

/-- Any number of steps. -/
def Reaches (S : Setting) : Catalog → Catalog → Prop :=
  ReflTransGen (Change S)

/-- A later state of a catalog. -/
structure Extends (c c' : Catalog) : Prop where
  class? : ∀ {id d}, c.class? id = some d → ∃ d', c'.class? id = some d' ∧ d.Extends d'
  arrays_prefix : c.arrays <+: c'.arrays

/-! ## Catalogs with one thing more -/

/-- A new class leaves those that are there where they are. -/
theorem class?_withClass_of_lt {packing : Packing} {parent : Option ClassId} {name : String}
    (h : id.index < c.classes.length) :
    (c.withClass packing parent name).class? id = c.class? id :=
  List.getElem?_append_left h

/-- A new class has the next id and no members. -/
theorem class?_withClass_new (packing : Packing) (parent : Option ClassId) (name : String) :
    (c.withClass packing parent name).class? ⟨c.classes.length⟩ =
      some { id := ⟨c.classes.length⟩, hostName := name, parent, packing } :=
  List.getElem?_concat_length

/-- The classes of the larger catalog are the old ones and the new one. -/
theorem class?_withClass {packing : Packing} {parent : Option ClassId} {name : String}
    (h : (c.withClass packing parent name).class? id = some d) :
    c.class? id = some d ∨ id = ⟨c.classes.length⟩ ∧
      d = { id := ⟨c.classes.length⟩, hostName := name, parent, packing } := by
  rcases Nat.lt_or_ge id.index c.classes.length with hlt | hge
  · exact Or.inl (class?_withClass_of_lt hlt ▸ h)
  · have hlt := index_lt_of_class? h
    simp only [withClass, List.length_append, List.length_singleton] at hlt
    obtain rfl : id = ⟨c.classes.length⟩ := by cases id; simp at hge hlt ⊢; omega
    rw [class?_withClass_new] at h
    exact Or.inr ⟨rfl, (Option.some.inj h).symm⟩

/-- A changed class is found under its id. -/
theorem class?_withDescriptor_self (h : c.class? id = some d) :
    (c.withDescriptor id d').class? id = some d' :=
  List.getElem?_set_self (index_lt_of_class? h)

/-- A change of one class leaves the others alone. -/
theorem class?_withDescriptor_of_ne {a : ClassId} (h : a ≠ id) :
    (c.withDescriptor id d').class? a = c.class? a :=
  List.getElem?_set_ne fun hi => h (by cases a; cases id; simp_all)

/-- The classes of the changed catalog are the changed one and the others. -/
theorem class?_withDescriptor {a : ClassId} {q : ClassDescriptor} (h : c.class? id = some d)
    (hq : (c.withDescriptor id d').class? a = some q) :
    a = id ∧ q = d' ∨ a ≠ id ∧ c.class? a = some q := by
  by_cases ha : a = id
  · subst ha
    rw [class?_withDescriptor_self h] at hq
    exact Or.inl ⟨rfl, (Option.some.inj hq).symm⟩
  · exact Or.inr ⟨ha, class?_withDescriptor_of_ne ha ▸ hq⟩

/-- A class may be added if its name is new and its parent is there. -/
theorem WellFormed.withClass (hc : c.WellFormed) {packing : Packing} {parent : Option ClassId}
    {name : String} (hnew : c.lookup name = none)
    (hparent : ∀ a, parent = some a → ∃ q, c.class? a = some q) :
    (c.withClass packing parent name).WellFormed where
  id_eq h := by
    rcases class?_withClass h with h | ⟨rfl, rfl⟩
    · exact hc.id_eq h
    · rfl
  names_nodup := by
    have hfresh : name ∉ c.classes.map (·.hostName) := by
      intro h
      obtain ⟨d, hd, hn⟩ := List.mem_map.mp h
      exact lookup_eq_none_iff.mp hnew d hd hn
    rw [Catalog.withClass, List.map_append]
    exact hc.names_nodup.append (List.nodup_singleton _) (by simpa using hfresh)
  parent_lt h hp := by
    rcases class?_withClass h with h | ⟨rfl, rfl⟩
    · exact hc.parent_lt h hp
    · obtain ⟨q, hq⟩ := hparent _ hp
      exact index_lt_of_class? hq
  descriptor h := by
    rcases class?_withClass h with h | ⟨rfl, rfl⟩
    · exact hc.descriptor h
    · exact ⟨List.nodup_nil, List.nodup_nil, fun _ hf => nomatch hf⟩

/-- A class may be replaced by a later state of itself. -/
theorem WellFormed.withDescriptor (hc : c.WellFormed) (h : c.class? id = some d)
    (hd : d'.WellFormed) (he : d.Extends d') : (c.withDescriptor id d').WellFormed where
  id_eq hq := by
    rcases class?_withDescriptor h hq with ⟨rfl, rfl⟩ | ⟨-, hq⟩
    · rw [he.id_eq, hc.id_eq h]
    · exact hc.id_eq hq
  names_nodup := by
    have hi : id.index < (c.classes.map (·.hostName)).length := by
      rw [List.length_map]
      exact index_lt_of_class? h
    have hname : (c.classes.map (·.hostName))[id.index] = d'.hostName := by
      rw [List.getElem_map, he.hostName_eq, (List.getElem?_eq_some_iff.mp h).2]
    rw [Catalog.withDescriptor, List.map_set, ← hname, List.set_getElem_self]
    exact hc.names_nodup
  parent_lt hq hp := by
    rcases class?_withDescriptor h hq with ⟨rfl, rfl⟩ | ⟨-, hq⟩
    · exact hc.parent_lt h (he.parent_eq ▸ hp)
    · exact hc.parent_lt hq hp
  descriptor hq := by
    rcases class?_withDescriptor h hq with ⟨rfl, rfl⟩ | ⟨-, hq⟩
    · exact hd
    · exact hc.descriptor hq

/-- What fits above a class by the host is in the catalog. -/
theorem WellFormed.parent_of_fits (hc : c.WellFormed) {host : Host} {parent : Option ClassId}
    {name : String} (h : c.Fits host name parent) :
    ∀ a, parent = some a → ∃ q, c.class? a = some q := by
  obtain ⟨target, ancestors, below, above, -, -, -, rfl⟩ := h
  intro a ha
  obtain ⟨n, -, hn⟩ := Option.bind_eq_some_iff.mp ha
  obtain ⟨q, hq, -⟩ := hc.lookup_eq_some_iff.mp hn
  exact ⟨q, hq⟩

/-! ## Steps only add -/

theorem Extends.refl (c : Catalog) : c.Extends c where
  class? {_ d} h := ⟨d, h, .refl d⟩
  arrays_prefix := List.prefix_refl _

theorem Extends.trans (h : c.Extends c') (h' : c'.Extends c'') : c.Extends c'' where
  class? hd := by
    obtain ⟨d', hd', he⟩ := h.class? hd
    obtain ⟨d'', hd'', he'⟩ := h'.class? hd'
    exact ⟨d'', hd'', he.trans he'⟩
  arrays_prefix := h.arrays_prefix.trans h'.arrays_prefix

/-- A later catalog has no fewer classes. -/
theorem Extends.length_classes_le (h : c.Extends c') : c.classes.length ≤ c'.classes.length := by
  by_contra hlt
  obtain ⟨d, hd⟩ : ∃ d, c.class? ⟨c'.classes.length⟩ = some d :=
    class?_of_index_lt (Nat.lt_of_not_le hlt)
  obtain ⟨d', hd', -⟩ := h.class? hd
  exact absurd (index_lt_of_class? hd') (Nat.lt_irrefl _)

/-- A catalog is extended by a change of one of its classes. -/
theorem extends_withDescriptor (h : c.class? id = some d) (he : d.Extends d') :
    c.Extends (c.withDescriptor id d') where
  class? {a q} hq := by
    by_cases ha : a = id
    · subst ha
      obtain rfl := Option.some.inj (h.symm.trans hq)
      exact ⟨d', class?_withDescriptor_self h, he⟩
    · exact ⟨q, (class?_withDescriptor_of_ne ha).trans hq, .refl q⟩
  arrays_prefix := List.prefix_refl _

variable {S : Setting} {A : Scope}

/-- A step of discovery takes nothing back. -/
theorem Discovers.extends (h : c.Discovers S A c') : c.Extends c' := by
  cases h with
  | newClass hA hnew hfits =>
    refine ⟨fun {a q} hq => ⟨q, ?_, .refl q⟩, List.prefix_refl _⟩
    rw [class?_withClass_of_lt (index_lt_of_class? hq), hq]
  | addMethod hA h hname hnew =>
    exact extends_withDescriptor h (ClassDescriptor.Change.addMethod _ hnew).extends
  | addField hA h hnew hopen =>
    exact extends_withDescriptor h (ClassDescriptor.Change.addField _ hnew hopen).extends
  | addArrays hA => exact ⟨fun {a q} hq => ⟨q, hq, .refl q⟩, List.prefix_append _ _⟩

/-- No change of a catalog takes anything back. -/
theorem Change.extends (h : c.Change S c') : c.Extends c' := by
  cases h with
  | discovery h => exact h.extends
  | onClass h hd => exact extends_withDescriptor h hd.extends
  | classifyAll =>
    refine ⟨fun {a q} hq => ⟨q.freeze, ?_, ClassDescriptor.Change.freeze.extends⟩,
      List.prefix_refl _⟩
    show (c.classes.map (·.freeze))[a.index]? = some q.freeze
    rw [List.getElem?_map, show c.classes[a.index]? = some q from hq, Option.map_some]

/-- Whatever happens to a catalog, it is extended. -/
theorem Reaches.extends (h : Reaches S c c') : c.Extends c' := by
  induction h with
  | refl => exact .refl c
  | tail _ hstep ih => exact ih.trans hstep.extends

/-- What a scope admits, the widest scope admits. -/
theorem Discovers.widen (h : c.Discovers S A c') : c.Discovers S .all c' := by
  cases h with
  | newClass hA hnew hfits => exact .newClass trivial hnew hfits
  | addMethod hA h hname hnew => exact .addMethod trivial h hname hnew
  | addField hA h hnew hopen => exact .addField trivial h hnew hopen
  | addArrays hA => exact .addArrays fun _ _ => trivial

theorem Discovers.change (h : c.Discovers S A c') : c.Change S c' :=
  .discovery h.widen

/-- Discovery within a scope is discovery. -/
theorem Discovery.widen (h : c.Discovery S A c') : c.Discovery S .all c' :=
  ReflTransGen.mono (fun _ _ => Discovers.widen) _ _ h

theorem Discovery.reaches (h : Discovery S A c c') : Reaches S c c' :=
  ReflTransGen.mono (fun _ _ => Discovers.change) _ _ h

/-! ## Steps keep catalogs well-formed -/

/-- Every change keeps a catalog well-formed. -/
theorem WellFormed.change (hc : c.WellFormed) (h : c.Change S c') : c'.WellFormed := by
  cases h with
  | discovery h =>
    cases h with
    | newClass hA hnew hfits => exact hc.withClass hnew (hc.parent_of_fits hfits)
    | addMethod hA h hname hnew =>
      have hm := ClassDescriptor.Change.addMethod _ hnew
      exact hc.withDescriptor h ((hc.descriptor h).change hm) hm.extends
    | addField hA h hnew hopen =>
      have hf := ClassDescriptor.Change.addField _ hnew hopen
      exact hc.withDescriptor h ((hc.descriptor h).change hf) hf.extends
    | addArrays hA => exact { hc with }
  | onClass h hd => exact hc.withDescriptor h ((hc.descriptor h).change hd) hd.extends
  | classifyAll =>
    have hclass : ∀ {id : ClassId} {d' : ClassDescriptor},
        (c.classes.map (·.freeze))[id.index]? = some d' →
          ∃ d, c.class? id = some d ∧ d' = d.freeze := by
      intro id d' h
      rw [List.getElem?_map] at h
      obtain ⟨d, hd, rfl⟩ := Option.map_eq_some_iff.mp h
      exact ⟨d, hd, rfl⟩
    constructor
    · intro id d' h
      obtain ⟨d, hd, rfl⟩ := hclass h
      exact (hc.id_eq hd : d.id = id)
    · rw [List.map_map]
      exact hc.names_nodup
    · intro id d' parent h hp
      obtain ⟨d, hd, rfl⟩ := hclass h
      exact hc.parent_lt hd hp
    · intro id d' h
      obtain ⟨d, hd, rfl⟩ := hclass h
      exact (hc.descriptor hd).change .freeze

theorem WellFormed.reaches (hc : c.WellFormed) (h : Reaches S c c') : c'.WellFormed := by
  induction h with
  | refl => exact hc
  | tail _ hstep ih => exact ih.change hstep

/-! ## What a later catalog still says -/

namespace Extends

variable (h : c.Extends c') (hc : c.WellFormed) (hc' : c'.WellFormed)

include h hc hc'

/-- A name that is known stays known under its id. -/
theorem lookup {name : String} (hl : c.lookup name = some id) : c'.lookup name = some id := by
  obtain ⟨d, hd, rfl⟩ := hc.lookup_eq_some_iff.mp hl
  obtain ⟨d', hd', he⟩ := h.class? hd
  exact hc'.lookup_eq_some_iff.mpr ⟨d', hd', he.hostName_eq⟩

/-- The class that declares a field, seen from a class, stays the same. -/
theorem declaring?_eq {host : Host} {field : String} (hd : c.class? id = some d) :
    c'.declaring? host id field = c.declaring? host id field := by
  induction id, d, hd using hc.parent_induction with
  | root id d hd hp =>
    obtain ⟨d', hd', he⟩ := h.class? hd
    rw [WellFormed.declaring?_of_root hd hp,
      WellFormed.declaring?_of_root hd' (he.parent_eq.trans hp), he.hostName_eq]
  | child id d hd parent q hq hp ih =>
    obtain ⟨d', hd', he⟩ := h.class? hd
    rw [hc.declaring?_of_parent hd hp,
      hc'.declaring?_of_parent hd' (he.parent_eq.trans hp), he.hostName_eq, ih]

end Extends

end Catalog

end DeviceLayout
