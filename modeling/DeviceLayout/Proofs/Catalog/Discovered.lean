import DeviceLayout.Proofs.Catalog.Mirror
import DeviceLayout.Proofs.Catalog.SelfContained

/-!
# Discovered catalogs

What discovery makes of the empty catalog (`Catalog.Discovered`) is well-formed and mirrors the
host; its classes are packed as the settings say and not classified; each array type is recorded
once; and everything in it is in the scope. Each of these is kept by every step of discovery. Of
array types as such, it is kept by steps of any kind (`Catalog.PlainArrays.reaches`).
-/

open Relation

namespace DeviceLayout

namespace HostType

/-- The levels of a type have no more dimensions than the type. -/
theorem dimensions_le_of_mem_arrayLevels {t level : HostType} (h : level ∈ t.arrayLevels) :
    level.dimensions ≤ t.dimensions := by
  induction t with
  | primitive p => cases h
  | named n => cases h
  | array e ih =>
    rcases List.mem_cons.mp h with rfl | h
    · exact Nat.le_refl _
    · exact Nat.le_succ_of_le (ih h)

/-- The levels of an array type differ in their dimensions. -/
theorem arrayLevels_nodup (t : HostType) : t.arrayLevels.Nodup := by
  induction t with
  | primitive p => exact List.nodup_nil
  | named n => exact List.nodup_nil
  | array e ih =>
    refine List.nodup_cons.mpr ⟨fun h => ?_, ih⟩
    exact Nat.not_succ_le_self _ (dimensions_le_of_mem_arrayLevels h)

end HostType

/-- Everything may be added, as long as array types are array types. -/
def Scope.arrayTypes : Scope :=
  { Scope.all with array := fun t => t.isArray = true }

namespace Catalog

variable {S : Setting} {A : Scope} {host : Host} {c c' : Catalog} {id : ClassId}
  {d d' : ClassDescriptor}

/-- A step of discovery leaves the name, the packing and the state of a class as they are, or
creates the class. -/
theorem Discovers.class?_cases (h : c.Discovers S A c') (hd' : c'.class? id = some d') :
    (∃ d, c.class? id = some d ∧ d'.hostName = d.hostName ∧ d'.packing = d.packing ∧
      d'.frozen = d.frozen) ∨
    A.className d'.hostName ∧ d'.packing = S.config.packing ∧ d'.frozen = false := by
  cases h with
  | newClass hA hnew hfits =>
    rcases class?_withClass hd' with hd | ⟨-, rfl⟩
    · exact Or.inl ⟨d', hd, rfl, rfl, rfl⟩
    · exact Or.inr ⟨hA, rfl, rfl⟩
  | addMethod hA h hname hnew =>
    rcases class?_withDescriptor h hd' with ⟨rfl, rfl⟩ | ⟨-, hd⟩
    · exact Or.inl ⟨_, h, rfl, rfl, rfl⟩
    · exact Or.inl ⟨d', hd, rfl, rfl, rfl⟩
  | addField hA h hnew hopen =>
    rcases class?_withDescriptor h hd' with ⟨rfl, rfl⟩ | ⟨-, hd⟩
    · exact Or.inl ⟨_, h, rfl, rfl, rfl⟩
    · exact Or.inl ⟨d', hd, rfl, rfl, rfl⟩
  | addArrays hA => exact Or.inl ⟨d', hd', rfl, rfl, rfl⟩

/-- Every class is in the scope, packed as the settings say, and not classified. -/
def Plain (S : Setting) (A : Scope) (c : Catalog) : Prop :=
  ∀ d ∈ c.classes, A.className d.hostName ∧ d.packing = S.config.packing ∧ d.frozen = false

/-- A step of discovery adds members that lie in the scope, and classes with no members. -/
theorem Plain.discovers (hp : c.Plain S A) (h : c.Discovers S A c') : c'.Plain S A := by
  intro d' hd'
  obtain ⟨id, hid⟩ := mem_classes_iff.mp hd'
  rcases h.class?_cases hid with ⟨d, hd, hname, hpacking, hfrozen⟩ | hnew
  · rw [hname, hpacking, hfrozen]
    exact hp d (mem_classes_of_class? hd)
  · exact hnew

/-- Every array type is in the scope, and recorded once. -/
structure PlainArrays (A : Scope) (c : Catalog) : Prop where
  inside : ∀ t ∈ c.arrays, A.array t
  nodup : c.arrays.Nodup

theorem PlainArrays.empty (A : Scope) : PlainArrays A {} :=
  ⟨(fun _ h => nomatch h), List.nodup_nil⟩

/-- The missing levels of a type are new, differ from one another, and are array types of the scope.
-/
theorem PlainArrays.append (hp : c.PlainArrays A) {t : HostType}
    (hA : ∀ level ∈ t.arrayLevels, A.array level)
    (h : c'.arrays = c.arrays ++ c.missingArrays t) : c'.PlainArrays A where
  inside := by
    rw [h]
    intro level hlevel
    rcases List.mem_append.mp hlevel with hold | hnew
    · exact hp.inside level hold
    · exact hA level (List.mem_filter.mp hnew).1
  nodup := by
    rw [h]
    refine hp.nodup.append ((HostType.arrayLevels_nodup t).filter _) ?_
    intro level hold hnew
    have hmissing := (List.mem_filter.mp hnew).2
    simp [hold] at hmissing

theorem PlainArrays.of_eq (hp : c.PlainArrays A) (h : c'.arrays = c.arrays) :
    c'.PlainArrays A where
  inside := h ▸ hp.inside
  nodup := h ▸ hp.nodup

/-- A step of discovery records levels of one type, or nothing. -/
theorem PlainArrays.discovers (hp : c.PlainArrays A) (h : c.Discovers S A c') :
    c'.PlainArrays A := by
  obtain hsame | ⟨t, hA, hadded⟩ := h.arrays_cases
  · exact hp.of_eq hsame
  · exact hp.append hA hadded

/-- What discovery finds within a scope, starting from nothing. -/
structure Discovered (S : Setting) (A : Scope) (c : Catalog) : Prop where
  wellFormed : c.WellFormed
  mirrors : c.Mirrors S.host
  members : c.Within A
  classes : c.Plain S A
  arrays : c.PlainArrays A

/-- Nothing has been discovered yet. -/
theorem Discovered.empty (S : Setting) (A : Scope) : Discovered S A {} where
  wellFormed := .empty
  mirrors := .empty S.host
  members := .empty A
  classes _ h := nomatch h
  arrays := .empty A

/-- What is discovered within the scope stays so over further steps within the scope. -/
theorem Discovered.discovery (hh : S.host.Coherent) (h : c.Discovered S A)
    (hd : c.Discovery S A c') : c'.Discovered S A := by
  induction hd with
  | refl => exact h
  | tail _ hstep ih =>
    exact
      { wellFormed := ih.wellFormed.change hstep.change
        mirrors := ih.mirrors.discovers hh ih.wellFormed hstep
        members := ih.members.discovers hstep
        classes := ih.classes.discovers hstep
        arrays := ih.arrays.discovers hstep }

/-! ## Array types of any catalog -/

/-- Whatever is done to a catalog, only array types are recorded as such, each once. -/
theorem PlainArrays.change (hp : c.PlainArrays .arrayTypes) (h : c.Change S c') :
    c'.PlainArrays .arrayTypes := by
  obtain hsame | ⟨t, hadded⟩ := h.arrays_cases
  · exact hp.of_eq hsame
  · exact hp.append (fun _ => HostType.isArray_of_mem_arrayLevels) hadded

theorem PlainArrays.reaches (hp : c.PlainArrays .arrayTypes) (h : c.Reaches S c') :
    c'.PlainArrays .arrayTypes := by
  induction h with
  | refl => exact hp
  | tail _ hstep ih => exact ih.change hstep

end Catalog

end DeviceLayout
