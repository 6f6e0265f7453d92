import DeviceLayout.Proofs.Table.Contents
import DeviceLayout.Program.Model

/-!
# Which types share a device name

A device name forgets some of what the host tells apart. Mangling shows one underscore for every
character that is no ASCII letter or digit, so it keeps two class names apart only if they differ
where one of them has a letter or a digit (`mangle_eq_iff`). The bytes and the booleans of the host
are one type on the device. And a class may be named like the device name of another type.

`HostType.Clash` collects these cases, by recursion on the array levels, and there are no others :
two types share their device name if and only if they are the same or clash
(`HostType.clash_iff`). So the device names of a table are as distinct as its types allow
(`Registry.finalize_names`).
-/

namespace DeviceLayout

/-! ## Names that look alike -/

/-- Names of one length that differ only where neither has an ASCII letter or digit. -/
def LooksLike (a b : String) : Prop :=
  List.Forall₂ (fun c c' => c = c' ∨ ¬ c.isAlphanum ∧ ¬ c'.isAlphanum) a.toList b.toList

instance (a b : String) : Decidable (LooksLike a b) :=
  inferInstanceAs (Decidable (List.Forall₂ ..))

theorem ne_underscore_of_isAlphanum {c : Char} (h : c.isAlphanum = true) : c ≠ '_' := by
  rintro rfl
  revert h
  decide

/-- Mangling keeps names apart unless they look alike. -/
theorem mangle_eq_iff {a b : String} : mangle a = mangle b ↔ LooksLike a b := by
  have hchar (c c' : Char) : ((if isIdentifierChar c then c else '_') =
      if isIdentifierChar c' then c' else '_') ↔ c = c' ∨ ¬ c.isAlphanum ∧ ¬ c'.isAlphanum := by
    grind [isIdentifierChar, ne_underscore_of_isAlphanum]
  rw [← String.toList_inj, mangle, mangle, String.toList_map, String.toList_map,
    ← List.forall₂_eq_eq_eq, List.forall₂_map_left_iff, List.forall₂_map_right_iff, LooksLike]
  simp only [hchar]

/-- An identifier is its own mangled name. -/
theorem mangle_eq_self {a : String} (h : ∀ c ∈ a.toList, isIdentifierChar c = true) :
    mangle a = a := by
  rw [← String.toList_inj, mangle, String.toList_map]
  exact (List.map_congr_left fun c hc => if_pos (h c hc)).trans (List.map_id _)

@[simp] theorem mangle_append (a b : String) : mangle (a ++ b) = mangle a ++ mangle b := by
  simp [mangle, ← String.toList_inj]

@[simp] theorem Primitive.mangle_deviceName (p : Primitive) : mangle p.deviceName = p.deviceName :=
  mangle_eq_self (by cases p <;> simp [Primitive.deviceName, isIdentifierChar])

@[simp] theorem mangle_arraySuffix : mangle "__array" = "__array" :=
  mangle_eq_self (by simp [isIdentifierChar])

/-- A name whose mangled form comes in two parts does so itself. -/
theorem exists_of_mangle_eq_append {a b c : String} (h : mangle a = b ++ c) :
    ∃ b' c', a = b' ++ c' ∧ mangle b' = b ∧ mangle c' = c := by
  rw [← String.toList_inj, mangle, String.toList_map, String.toList_append] at h
  obtain ⟨l, l', ha, hl, hl'⟩ := List.map_eq_append_iff.mp h
  refine ⟨.ofList l, .ofList l', ?_, ?_, ?_⟩ <;>
    simp [← String.toList_inj, mangle, ha, hl, hl']

/-! ## Types that share a name -/

namespace HostType

/-- Two different types that their device names do not tell apart. -/
inductive Clash : HostType → HostType → Prop
  | byteOfBoolean : Clash (primitive .boolean) (primitive .byte)
  | classes {a b : String} (hne : a ≠ b) (h : LooksLike a b) : Clash (named a) (named b)
  /-- A class with the name of a primitive type. -/
  | keyword {a : String} {p : Primitive} (h : LooksLike a p.deviceName) :
    Clash (named a) (primitive p)
  /-- A class with the name of an array of a class. -/
  | suffix {stem suffix : String} (h : LooksLike suffix "__array") :
    Clash (named (stem ++ suffix)) (array (named stem))
  /-- A class with the name of an array of another type that a class clashes with. -/
  | suffixOf {stem suffix : String} {e : HostType} (h : LooksLike suffix "__array")
    (he : Clash (named stem) e) : Clash (named (stem ++ suffix)) (array e)
  | elements {e e' : HostType} (h : Clash e e') : Clash (array e) (array e')
  | symm {t t' : HostType} (h : Clash t t') : Clash t' t

theorem Clash.ne {t t' : HostType} (h : Clash t t') : t ≠ t' := by
  induction h with
  | byteOfBoolean => decide
  | classes hne => simpa using hne
  | keyword => simp
  | suffix => simp
  | suffixOf => simp
  | elements _ ih => simpa using ih
  | symm _ ih => exact ih.symm

theorem Clash.deviceName_eq {t t' : HostType} (h : Clash t t') : t.deviceName = t'.deviceName := by
  induction h with
  | byteOfBoolean => rfl
  | classes _ h => exact mangle_eq_iff.mpr h
  | keyword h => simpa [deviceName] using mangle_eq_iff.mpr h
  | suffix h => simpa [deviceName] using mangle_eq_iff.mpr h
  | suffixOf h _ ih => simpa [deviceName, ← ih] using mangle_eq_iff.mpr h
  | elements _ ih => rw [deviceName, deviceName, ih]
  | symm _ ih => exact ih.symm

/-- The device name of a primitive type is too short for an array. -/
theorem deviceName_array_ne (e : HostType) (p : Primitive) :
    (array e).deviceName ≠ p.deviceName := by
  intro h
  have hlong : "__array".length ≤ p.deviceName.length := by
    rw [← h, deviceName, String.length_append]
    exact Nat.le_add_left ..
  revert hlong
  cases p <;> decide

theorem Clash.of_primitives {p q : Primitive} (hne : p ≠ q) (h : p.deviceName = q.deviceName) :
    Clash (primitive p) (primitive q) := by
  have hpair : p = .boolean ∧ q = .byte ∨ q = .boolean ∧ p = .byte := by
    revert hne h
    cases p <;> cases q <;> decide
  obtain ⟨rfl, rfl⟩ | ⟨rfl, rfl⟩ := hpair
  · exact .byteOfBoolean
  · exact .symm .byteOfBoolean

/-- A class clashes with every other type that has its mangled name. -/
theorem Clash.of_class {a : String} {t : HostType} (hne : named a ≠ t)
    (h : mangle a = t.deviceName) : Clash (named a) t := by
  induction t generalizing a with
  | primitive p => exact .keyword (mangle_eq_iff.mp (by simpa [deviceName] using h))
  | named b => exact .classes (by simpa using hne) (mangle_eq_iff.mp h)
  | array e ih =>
    obtain ⟨stem, suffix, rfl, hstem, hsuffix⟩ := exists_of_mangle_eq_append h
    have hlike : LooksLike suffix "__array" := mangle_eq_iff.mp (by simpa using hsuffix)
    by_cases he : named stem = e
    · exact he ▸ .suffix hlike
    · exact .suffixOf hlike (ih he hstem)

/-- Different types share their device name if and only if they clash. -/
theorem clash_iff {t t' : HostType} : Clash t t' ↔ t ≠ t' ∧ t.deviceName = t'.deviceName := by
  refine ⟨fun h => ⟨h.ne, h.deviceName_eq⟩, fun h => ?_⟩
  obtain ⟨hne, h⟩ := h
  induction t generalizing t' with
  | named a => exact .of_class hne h
  | primitive p =>
    cases t' with
    | primitive q => exact .of_primitives (by simpa using hne) h
    | named b => exact .symm (.of_class hne.symm h.symm)
    | array e => exact absurd h.symm (deviceName_array_ne e p)
  | array e ih =>
    cases t' with
    | primitive p => exact absurd h (deviceName_array_ne e p)
    | named b => exact .symm (.of_class hne.symm h.symm)
    | array e' => exact .elements (ih (by simpa using hne) ((String.append_left_inj _).mp h))

instance (t t' : HostType) : Decidable (Clash t t') :=
  decidable_of_iff (t ≠ t' ∧ t.deviceName = t'.deviceName) clash_iff.symm

end HostType

/-! ## The names of a table -/

/-- The types that a table has entries for, classes first. -/
def Catalog.types (c : Catalog) : List HostType :=
  c.classes.map (fun d => .named d.hostName) ++ c.arrays

/-- The host names of all entries, each with the device name, classes first. -/
def LayoutTable.names (T : LayoutTable) : List (String × String) :=
  T.classes.map (fun e => (e.hostName, e.deviceName)) ++
    T.arrayTypes.map fun e => (e.hostName, e.deviceName)

namespace Catalog

variable {c : Catalog} {config : LayoutConfig} {T : LayoutTable}

theorem types_classified (c : Catalog) : c.classified.types = c.types := by
  simp [types, classified, ClassDescriptor.freeze]

/-- A type has one entry. -/
theorem WellFormed.types_nodup (hc : c.WellFormed) (harrays : c.PlainArrays .arrayTypes) :
    c.types.Nodup := by
  have hclasses : (c.classes.map fun d => HostType.named d.hostName).Nodup := by
    have hnames := hc.names_nodup.map (f := HostType.named) fun a b h => by simpa using h
    rwa [List.map_map] at hnames
  refine hclasses.append harrays.nodup ?_
  intro t ht ht'
  obtain ⟨d, -, rfl⟩ := List.mem_map.mp ht
  exact nomatch harrays.inside _ ht'

/-- The entries of a table name their types. -/
theorem HasTable.names_eq (h : c.HasTable config T) (harrays : c.PlainArrays .arrayTypes) :
    T.names = c.types.map fun t => (t.hostName, t.deviceName) := by
  have hclasses : T.classes.map (fun e => (e.hostName, e.deviceName)) =
      c.classes.map fun d => (d.hostName, mangle d.hostName) := by
    rw [eq_comm, ← List.forall₂_eq_eq_eq, List.forall₂_map_left_iff, List.forall₂_map_right_iff]
    refine h.forall₂_classes.imp fun d e he => ?_
    obtain ⟨p, -, rfl⟩ := entry?_eq_some.mp he
    rfl
  have harrayTypes : T.arrayTypes.map (fun e => (e.hostName, e.deviceName)) =
      c.arrays.map fun t => (t.hostName, t.deviceName) := by
    rw [h.arrayTypes_eq, eq_comm, ← List.forall₂_eq_eq_eq, List.forall₂_map_left_iff,
      List.forall₂_map_right_iff]
    refine (ArrayTypeLayout.forall₂_ofType? harrays.inside).imp fun t e he => ?_
    rw [he.hostName_eq, he.deviceName_eq]
  rw [LayoutTable.names, hclasses, harrayTypes, types, List.map_append, List.map_map]
  rfl

end Catalog

namespace Registry

/-- Whatever the host, the settings and the history, a table has one entry for each registered
class and each recorded array type, under its names, and two entries share a device name if and
only if their types clash. -/
theorem finalize_names (S : Setting) (history : List Request) {T : LayoutTable}
    (hT : ((finalize S).run (after S history)).result = .ok T) :
    let types := (after S history).catalog.types
    types.Nodup ∧ T.names = types.map (fun t => (t.hostName, t.deviceName)) ∧
      ∀ (i j : Nat) (t t' : HostType), i ≠ j → types[i]? = some t → types[j]? = some t' →
        (T.names[i]?.map Prod.snd = T.names[j]?.map Prod.snd ↔ t.Clash t') := by
  intro types
  have hr := wellFormed_after S history
  have harrays := plainArrays_after S history
  have hnodup : types.Nodup := hr.catalog.types_nodup harrays
  have hnames : T.names = types.map fun t => (t.hostName, t.deviceName) := by
    have htable := ((finalize_eq_ok_iff hr).mp hT).names_eq ⟨harrays.inside, harrays.nodup⟩
    rwa [Catalog.types_classified] at htable
  refine ⟨hnodup, hnames, fun i j t t' hij hi hj => ?_⟩
  have hne : t ≠ t' := by
    rintro rfl
    obtain ⟨hlt, -⟩ := List.getElem?_eq_some_iff.mp hi
    exact hij ((List.getElem?_inj hlt hnodup).mp (hi.trans hj.symm))
  rw [HostType.clash_iff, hnames, List.getElem?_map, List.getElem?_map, hi, hj]
  simp [hne]

end Registry

/-- Classes whose names look like one another, or like an array type. -/
def Program.lookalikes : Program where
  classes := [("a.b", {}), ("a_b", {}), ("int__array", {})]

namespace Registry

theorem finalize_names_lookalikes :
    let S : Setting := ⟨Program.lookalikes.host, {}⟩
    let r := after S [.classFor "a.b", .classFor "a_b"]
    ∃ T, ((finalize S).run r).result = .ok T ∧
      T.names = [("a.b", "a_b"), ("a_b", "a_b")] ∧
      (HostType.named "a.b").Clash (.named "a_b") := by
  intro S r
  have hshown : ((finalize S).run r).result.toOption.map (·.names) =
      some [("a.b", "a_b"), ("a_b", "a_b")] := by decide +kernel
  obtain ⟨T, hT, hnames⟩ := Option.map_eq_some_iff.mp hshown
  have hok := toOption_eq_some_iff.mp hT
  refine ⟨T, hok, hnames, ((finalize_names S _ hok).2.2 0 1 _ _ (by decide) ?_ ?_).mp ?_⟩
  · decide +kernel
  · decide +kernel
  · rw [hnames]
    rfl

/-- Two classes, two array types, and a class and an array type may share a device name. -/
theorem deviceNames_not_distinct :
    let S : Setting := ⟨Program.lookalikes.host, {}⟩
    let r := after S [.classFor "a.b", .classFor "a_b", .classFor "int__array",
      .recordArray (.array (.primitive .boolean)), .recordArray (.array (.primitive .byte)),
      .recordArray (.array (.primitive .int))]
    ∃ T, ((finalize S).run r).result = .ok T ∧ ¬ (T.classes.map (·.deviceName)).Nodup ∧
      ¬ (T.arrayTypes.map (·.deviceName)).Nodup ∧
      ∃ e ∈ T.classes, ∃ e' ∈ T.arrayTypes, e.deviceName = e'.deviceName := by
  intro S r
  have hshown : ((finalize S).run r).result.toOption.map (fun T =>
      (T.classes.map (·.deviceName), T.arrayTypes.map (·.deviceName))) =
        some (["a_b", "a_b", "int__array"], ["char__array", "char__array", "int__array"]) := by
    decide +kernel
  obtain ⟨T, hT, hnames⟩ := Option.map_eq_some_iff.mp hshown
  obtain ⟨hclasses, harrays⟩ := Prod.mk.inj hnames
  refine ⟨T, toOption_eq_some_iff.mp hT, ?_, ?_, ?_⟩
  · rw [hclasses]
    decide
  · rw [harrays]
    decide
  · have hclass : "int__array" ∈ T.classes.map (·.deviceName) := by simp [hclasses]
    have harray : "int__array" ∈ T.arrayTypes.map (·.deviceName) := by simp [harrays]
    obtain ⟨e, he, hname⟩ := List.mem_map.mp hclass
    obtain ⟨e', he', hname'⟩ := List.mem_map.mp harray
    exact ⟨e, he, e', he', hname.trans hname'.symm⟩

end Registry

end DeviceLayout
