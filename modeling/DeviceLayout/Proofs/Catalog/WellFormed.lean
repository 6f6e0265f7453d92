import DeviceLayout.Catalog
import Mathlib.Data.List.Basic
import Mathlib.Data.List.Induction
import Mathlib.Data.List.Nodup

/-!
# Well-formed catalogs

In a well-formed catalog the `i`-th descriptor has id `i`, no two descriptors share a host
name, a parent has a smaller id than its child, and each descriptor holds every member once
(`Catalog.WellFormed`). So looking up a name finds exactly the class of that name
(`WellFormed.lookup_eq_some_iff`), and a class's lineage is the class followed by the lineage
of its parent (`WellFormed.lineage_of_parent`) : the chain never stops short of a root.

What holds of every root, and of a class whenever it holds of its parent, holds of every class
(`WellFormed.parent_induction`).

Lists without repeats come first. Where keys differ, a key finds its only element
(`find?_eq_some_iff_of_nodup`). `List.eraseDups` keeps the first occurrence of every element : read
from the left, one more element changes nothing if it occurred before, and goes to the end otherwise
(`eraseDups_concat`).
-/

namespace DeviceLayout

/-! ## Lists without repeats -/

/-- Where keys differ, the first element of a key is the only one. -/
theorem find?_eq_some_iff_of_nodup {α κ : Type} [DecidableEq κ] {key : α → κ} {l : List α}
    (hn : (l.map key).Nodup) {k : κ} {a : α} :
    (l.find? fun b => key b = k) = some a ↔ a ∈ l ∧ key a = k := by
  refine ⟨fun h => ⟨List.mem_of_find?_eq_some h, by simpa using List.find?_some h⟩, ?_⟩
  rintro ⟨ha, rfl⟩
  cases h : l.find? fun b => key b = key a with
  | none => exact absurd (decide_eq_true rfl) (List.find?_eq_none.mp h a ha)
  | some b =>
    have hb : key b = key a := by simpa using List.find?_some h
    rw [List.inj_on_of_nodup_map hn (List.mem_of_find?_eq_some h) ha hb]

section

variable {α : Type} [DecidableEq α]

/-- Read from the left, an element counts if it did not occur before. -/
theorem eraseDups_concat (l : List α) (a : α) :
    (l ++ [a]).eraseDups = if a ∈ l then l.eraseDups else l.eraseDups ++ [a] := by
  rw [List.eraseDups_append]
  by_cases ha : a ∈ l <;> simp [List.removeAll, ha, List.eraseDups_cons]

/-- Without repeats, elements stand in the order of their first occurrences. -/
theorem pairwise_idxOf_eraseDups (l : List α) :
    l.eraseDups.Pairwise fun a b => l.idxOf a < l.idxOf b := by
  induction l using List.reverseRecOn with
  | nil => exact List.Pairwise.nil
  | append_singleton l a ih =>
    have hold : ∀ x ∈ l, (l ++ [a]).idxOf x = l.idxOf x := fun _ => List.idxOf_append_of_mem
    have hkeep : l.eraseDups.Pairwise fun x y => (l ++ [a]).idxOf x < (l ++ [a]).idxOf y := by
      refine ih.imp_of_mem fun {x y} hx hy hlt => ?_
      rwa [hold x (List.mem_eraseDups.mp hx), hold y (List.mem_eraseDups.mp hy)]
    rw [eraseDups_concat]
    split
    case isTrue => exact hkeep
    case isFalse ha =>
      refine List.pairwise_append.mpr ⟨hkeep, List.pairwise_singleton _ _, fun x hx y hy => ?_⟩
      obtain rfl := List.mem_singleton.mp hy
      have hx := List.mem_eraseDups.mp hx
      rw [hold x hx, List.idxOf_append_of_notMem ha]
      exact Nat.lt_add_right _ (List.idxOf_lt_length_of_mem hx)

theorem nodup_eraseDups (l : List α) : l.eraseDups.Nodup :=
  (pairwise_idxOf_eraseDups l).imp fun h heq => by simp [heq] at h

/-- What occurs before an element of a prefix occurs in the prefix. -/
theorem mem_of_idxOf_lt {front l : List α} {a b : α} (h : front <+: l) (hb : b ∈ front)
    (hlt : l.idxOf a < l.idxOf b) : a ∈ front :=
  (h.mem_iff_idxOf_lt_length a).mpr (Nat.lt_trans hlt ((h.mem_iff_idxOf_lt_length b).mp hb))

end

/-! ## Descriptors -/

namespace ClassDescriptor

/-- Members are registered once, and fields belong to the class. -/
structure WellFormed (d : ClassDescriptor) : Prop where
  methods_nodup : d.methods.Nodup
  names_nodup : (d.fields.map (·.name)).Nodup
  owner_eq : ∀ f ∈ d.fields, f.owner = d.id

theorem hasField_iff {d : ClassDescriptor} {name : String} :
    d.hasField name = true ↔ ∃ f ∈ d.fields, f.name = name := by
  simp [hasField]

theorem hasMethod_iff {d : ClassDescriptor} {m : MethodRef} :
    d.hasMethod m = true ↔ m ∈ d.methods := by
  simp [hasMethod]

/-- A class has one field of a name. -/
theorem WellFormed.eq_of_name {d : ClassDescriptor} (hd : d.WellFormed) {f g : Field}
    (hf : f ∈ d.fields) (hg : g ∈ d.fields) (h : f.name = g.name) : f = g :=
  List.inj_on_of_nodup_map hd.names_nodup hf hg h

/-- Fields of a class differ in their keys, as they differ in their names. -/
theorem WellFormed.keys_nodup {d : ClassDescriptor} (hd : d.WellFormed) :
    (d.fields.map Field.key).Nodup := by
  refine List.Nodup.of_map Prod.snd ?_
  rw [List.map_map]
  exact hd.names_nodup

theorem WellFormed.declarations_nodup {d : ClassDescriptor} (hd : d.WellFormed) :
    (d.fields.map (·.declaration)).Nodup := by
  refine List.Nodup.of_map (·.name) ?_
  rw [List.map_map]
  exact hd.names_nodup

end ClassDescriptor

/-! ## Catalogs -/

namespace Catalog

variable {c : Catalog} {id : ClassId} {d : ClassDescriptor}

/-- The `i`-th descriptor has id `i`, host names differ, parents come before their children,
and every descriptor is well-formed. -/
structure WellFormed (c : Catalog) : Prop where
  id_eq : ∀ {id d}, c.class? id = some d → d.id = id
  names_nodup : (c.classes.map (·.hostName)).Nodup
  parent_lt : ∀ {id d parent}, c.class? id = some d → d.parent = some parent →
    parent.index < id.index
  descriptor : ∀ {id d}, c.class? id = some d → d.WellFormed

theorem WellFormed.empty : WellFormed {} where
  id_eq h := by simp [class?] at h
  names_nodup := List.nodup_nil
  parent_lt h := by simp [class?] at h
  descriptor h := by simp [class?] at h

theorem mem_ancestry {a b : ClassId} : b ∈ c.ancestry a ↔ b ∈ c.lineage a :=
  List.mem_reverse

/-- The classes of a catalog are what its ids lead to. -/
theorem mem_classes_iff : d ∈ c.classes ↔ ∃ id, c.class? id = some d := by
  rw [List.mem_iff_getElem?]
  exact ⟨fun ⟨i, h⟩ => ⟨⟨i⟩, h⟩, fun ⟨id, h⟩ => ⟨id.index, h⟩⟩

theorem mem_classes_of_class? (h : c.class? id = some d) : d ∈ c.classes :=
  mem_classes_iff.mpr ⟨id, h⟩

theorem index_lt_of_class? (h : c.class? id = some d) : id.index < c.classes.length :=
  (List.getElem?_eq_some_iff.mp h).1

/-- Ids below the number of classes lead to a class. -/
theorem class?_of_index_lt (h : id.index < c.classes.length) : ∃ d, c.class? id = some d :=
  ⟨_, List.getElem?_eq_getElem h⟩

/-- A name is unknown if no class has it. -/
theorem lookup_eq_none_iff {name : String} :
    c.lookup name = none ↔ ∀ d ∈ c.classes, d.hostName ≠ name := by
  simp [lookup]

theorem mem_hostNames_iff {name : String} :
    name ∈ c.classes.map (·.hostName) ↔ (c.lookup name).isSome := by
  simp [lookup]

namespace WellFormed

/-- Looking up a name finds the class of that name. -/
theorem lookup_eq_some_iff (hc : c.WellFormed) {name : String} :
    c.lookup name = some id ↔ ∃ d, c.class? id = some d ∧ d.hostName = name := by
  rw [lookup, Option.map_eq_some_iff]
  constructor
  · rintro ⟨d, hd, rfl⟩
    obtain ⟨hmem, hn⟩ := (find?_eq_some_iff_of_nodup hc.names_nodup).mp hd
    obtain ⟨id, hid⟩ := mem_classes_iff.mp hmem
    exact ⟨d, (hc.id_eq hid).symm ▸ hid, hn⟩
  · rintro ⟨d, hd, hn⟩
    exact ⟨d, (find?_eq_some_iff_of_nodup hc.names_nodup).mpr ⟨mem_classes_of_class? hd, hn⟩,
      hc.id_eq hd⟩

/-- The name of a class leads to its id. -/
theorem lookup_hostName (hc : c.WellFormed) (h : c.class? id = some d) :
    c.lookup d.hostName = some id :=
  hc.lookup_eq_some_iff.mpr ⟨d, h, rfl⟩

/-- Ids count the classes. -/
theorem ids_eq (hc : c.WellFormed) :
    c.classes.map (·.id) = (List.range c.classes.length).map ClassId.mk := by
  refine List.ext_getElem (by simp) fun i hi _ => ?_
  rw [List.length_map] at hi
  have hget : c.class? ⟨i⟩ = some c.classes[i] := List.getElem?_eq_getElem hi
  rw [List.getElem_map, List.getElem_map, List.getElem_range, hc.id_eq hget]

/-- A parent is in the catalog. -/
theorem class?_parent (hc : c.WellFormed) {parent : ClassId} (h : c.class? id = some d)
    (hp : d.parent = some parent) : ∃ q, c.class? parent = some q :=
  class?_of_index_lt (Nat.lt_trans (hc.parent_lt h hp) (index_lt_of_class? h))

/-- What holds of every root, and of a class whenever it holds of its parent, holds of every
class. -/
theorem parent_induction (hc : c.WellFormed)
    {motive : ∀ id d, c.class? id = some d → Prop}
    (root : ∀ id d h, d.parent = none → motive id d h)
    (child : ∀ id d h parent q hq, d.parent = some parent → motive parent q hq → motive id d h)
    (id : ClassId) (d : ClassDescriptor) (h : c.class? id = some d) : motive id d h := by
  cases hp : d.parent with
  | none => exact root id d h hp
  | some parent =>
    have hlt := hc.parent_lt h hp
    obtain ⟨q, hq⟩ := hc.class?_parent h hp
    exact child id d h parent q hq hp (parent_induction hc root child parent q hq)
termination_by id.index

/-! ### Lineages -/

/-- A root descends from nothing but itself. -/
theorem lineage_of_root (h : c.class? id = some d) (hp : d.parent = none) :
    c.lineage id = [id] := by
  rw [lineage, h, Option.bind_some, hp]

/-- A class descends from itself and from what its parent descends from. -/
theorem lineage_of_parent (hc : c.WellFormed) {parent : ClassId} (h : c.class? id = some d)
    (hp : d.parent = some parent) : c.lineage id = id :: c.lineage parent := by
  rw [lineage, h, Option.bind_some, hp]
  exact dif_pos (hc.parent_lt h hp)

theorem ancestry_of_root (h : c.class? id = some d) (hp : d.parent = none) :
    c.ancestry id = [id] := by
  rw [ancestry, lineage_of_root h hp, List.reverse_singleton]

/-- Root first, a class comes behind the ancestry of its parent. -/
theorem ancestry_of_parent (hc : c.WellFormed) {parent : ClassId} (h : c.class? id = some d)
    (hp : d.parent = some parent) : c.ancestry id = c.ancestry parent ++ [id] := by
  rw [ancestry, hc.lineage_of_parent h hp, List.reverse_cons, ancestry]

/-- A class counts among those it descends from. -/
theorem mem_lineage_self (hc : c.WellFormed) (h : c.class? id = some d) : id ∈ c.lineage id := by
  cases hp : d.parent with
  | none => simp [lineage_of_root h hp]
  | some parent => simp [hc.lineage_of_parent h hp]

/-- The classes of a lineage are in the catalog, and come no later than the class itself. -/
theorem class?_of_mem_lineage (hc : c.WellFormed) (h : c.class? id = some d) :
    ∀ a ∈ c.lineage id, a.index ≤ id.index ∧ ∃ q, c.class? a = some q := by
  induction id, d, h using hc.parent_induction with
  | root id d h hp =>
    rw [lineage_of_root h hp]
    intro a ha
    rw [List.mem_singleton.mp ha]
    exact ⟨Nat.le_refl _, d, h⟩
  | child id d h parent q hq hp ih =>
    rw [hc.lineage_of_parent h hp]
    intro a ha
    rcases List.mem_cons.mp ha with rfl | ha
    · exact ⟨Nat.le_refl _, d, h⟩
    · obtain ⟨hle, ha'⟩ := ih a ha
      exact ⟨Nat.le_trans hle (Nat.le_of_lt (hc.parent_lt h hp)), ha'⟩

/-! ### Declaring classes -/

/-- A root declares a field itself or not at all. -/
theorem declaring?_of_root {host : Host} {field : String} (h : c.class? id = some d)
    (hp : d.parent = none) :
    c.declaring? host id field = (host.declaredField d.hostName field).map (Prod.mk id) := by
  rw [declaring?, lineage_of_root h hp, List.findSome?_singleton, h,
    Option.bind_eq_bind, Option.bind_some]
  cases host.declaredField d.hostName field <;> rfl

/-- A class that does not declare a field leaves it to its parent. -/
theorem declaring?_of_parent (hc : c.WellFormed) {host : Host} {field : String}
    {parent : ClassId} (h : c.class? id = some d) (hp : d.parent = some parent) :
    c.declaring? host id field =
      ((host.declaredField d.hostName field).map (Prod.mk id)).or
        (c.declaring? host parent field) := by
  rw [declaring?, hc.lineage_of_parent h hp, List.findSome?_cons, h,
    Option.bind_eq_bind, Option.bind_some]
  cases host.declaredField d.hostName field <;> rfl

end WellFormed

end Catalog

end DeviceLayout
