import DeviceLayout.Proofs.Layout.Object

/-!
# Sizes along an ancestry

A class is laid out behind its parent, and its size is where its last field ends, rounded up to
the object alignment. A field takes up bytes, so a class with an instance field of its own is larger
than its parent (`Placement.base_lt_size`). A class without one ends where it begins, at the size of
its parent. This has been rounded up before, and rounding moves nothing twice (`alignUp_again`),
whatever the alignment is, so the class is exactly as large.

Hence a class is as large as the nearest class at or above it that has instance fields of its own,
and where there is none, as the header rounded up (`Registry.inheritsSize_after`).
-/

namespace DeviceLayout

/-- Whether the class has an instance field of its own. -/
def ClassDescriptor.addsFields (d : ClassDescriptor) : Bool :=
  d.fields.any fun f => f.isInstance

/-- The nearest class at or above `id` that has an instance field of its own. -/
def Catalog.nearestWithFields? (c : Catalog) (id : ClassId) : Option ClassId :=
  (c.lineage id).find? fun a => (c.class? a).any (·.addsFields)

theorem ClassDescriptor.instanceFields_eq_nil_iff {d : ClassDescriptor} :
    d.buckets.instanceFields = [] ↔ d.addsFields = false := by
  rw [List.eq_nil_iff_forall_not_mem, addsFields, List.any_eq_false]
  exact forall_congr' fun f => by rw [mem_instanceFields, not_and]

namespace Catalog

variable {c : Catalog} {id parent : ClassId} {d : ClassDescriptor}

theorem WellFormed.nearestWithFields?_self (hc : c.WellFormed) (h : c.class? id = some d)
    (hadds : d.addsFields = true) : c.nearestWithFields? id = some id := by
  cases hp : d.parent with
  | none =>
    rw [nearestWithFields?, lineage_of_root h hp, List.find?_cons_of_pos (by simp [h, hadds])]
  | some parent =>
    rw [nearestWithFields?, hc.lineage_of_parent h hp,
      List.find?_cons_of_pos (by simp [h, hadds])]

theorem WellFormed.nearestWithFields?_of_root (h : c.class? id = some d) (hp : d.parent = none)
    (hadds : d.addsFields = false) : c.nearestWithFields? id = none := by
  rw [nearestWithFields?, lineage_of_root h hp, List.find?_cons_of_neg (by simp [h, hadds]),
    List.find?_nil]

theorem WellFormed.nearestWithFields?_of_parent (hc : c.WellFormed) (h : c.class? id = some d)
    (hp : d.parent = some parent) (hadds : d.addsFields = false) :
    c.nearestWithFields? id = c.nearestWithFields? parent := by
  rw [nearestWithFields?, hc.lineage_of_parent h hp,
    List.find?_cons_of_neg (by simp [h, hadds]), nearestWithFields?]

end Catalog

/-! ## One class -/

/-- Fields that are placed take up bytes. -/
theorem lt_stop_of_place {align : Bool} {f : Field} {rest : List Field} {start stop : UInt32}
    {placed : List PlacedField} (h : place align (f :: rest) start = some (placed, stop)) :
    start.toNat < stop.toNat := by
  obtain ⟨hrun, hsame⟩ := place_run h
  have htotal := hrun.total_le
  rw [PlacedField.total_of_same hsame, List.foldr_cons] at htotal
  obtain ⟨k, hk⟩ := f.size_eq_two_pow
  have hpos := Nat.two_pow_pos k
  omega

namespace Placement

variable {d : ClassDescriptor} {parentSize : Option UInt32} {config : LayoutConfig} {p : Placement}

theorem base_lt_size (h : compute d parentSize config = .ok p) (hadds : d.addsFields = true) :
    p.base.toNat < p.size.toNat := by
  obtain ⟨stop, hplaced, hsize⟩ := (assembles_of_compute h).instances
  cases hfields : d.buckets.instanceFields with
  | nil =>
    rw [ClassDescriptor.instanceFields_eq_nil_iff.mp hfields] at hadds
    cases hadds
  | cons f rest =>
    rw [hfields] at hplaced
    exact Nat.lt_of_lt_of_le (lt_stop_of_place hplaced) (le_of_alignUp hsize)

/-- A class without instance fields of its own ends where it begins, up to rounding. -/
theorem alignUp_base (h : compute d parentSize config = .ok p) (hadds : d.addsFields = false) :
    alignUp p.base config.objectAlignment = some p.size := by
  obtain ⟨stop, hplaced, hsize⟩ := (assembles_of_compute h).instances
  rw [ClassDescriptor.instanceFields_eq_nil_iff.mpr hadds] at hplaced
  obtain ⟨-, rfl⟩ := Prod.mk.inj (Option.some.inj hplaced)
  exact hsize

/-- The size of a class is rounded up. -/
theorem alignUp_size (h : compute d parentSize config = .ok p) :
    alignUp p.size config.objectAlignment = some p.size := by
  obtain ⟨stop, -, hsize⟩ := (assembles_of_compute h).instances
  exact alignUp_again hsize

end Placement

/-! ## A class and its parent -/

namespace Registry

variable {S : Setting} {r : Registry} {id parent : ClassId} {d : ClassDescriptor} {p q : Placement}

/-- A class is laid out behind its parent. -/
theorem WellFormed.exists_parent_layout (hr : r.WellFormed S) (h : r.catalog.class? id = some d)
    (hp : r.layout? id = some p) (hparent : d.parent = some parent) :
    ∃ q, r.layout? parent = some q ∧ p.base = q.size := by
  have hbase := hr.base_eq h hp
  rwa [hparent] at hbase

/-- A class without instance fields of its own is exactly as large as its parent. -/
theorem WellFormed.size_eq_of_parent (hr : r.WellFormed S) (h : r.catalog.class? id = some d)
    (hp : r.layout? id = some p) (hq : r.layout? parent = some q) (hbase : p.base = q.size)
    (hadds : d.addsFields = false) : p.size = q.size := by
  obtain ⟨_, -, hcompute⟩ := hr.compute_of_layout? h hp
  obtain ⟨_, _, -, -, hcompute'⟩ := hr.laysOut hq
  have hsize := Placement.alignUp_base hcompute hadds
  rw [hbase, Placement.alignUp_size hcompute'] at hsize
  exact (Option.some.inj hsize).symm

/-- How large a class is, compared with the classes above it. -/
structure InheritsSize (S : Setting) (r : Registry) (id : ClassId) (p : Placement) : Prop where
  /-- A class is no smaller than its parent, and as large only if it has no instance field of its
  own. -/
  parent : ∀ {d parent}, r.catalog.class? id = some d → d.parent = some parent →
    ∃ q, r.layout? parent = some q ∧ q.size ≤ p.size ∧
      (p.size = q.size ↔ ∀ f ∈ d.fields, f.isInstance = false)
  /-- It is as large as the nearest class with such a field, or as the header rounded up. -/
  nearest : match r.catalog.nearestWithFields? id with
    | some a => ∃ q, r.layout? a = some q ∧ p.size = q.size
    | none => alignUp S.config.headerSize S.config.objectAlignment = some p.size

theorem WellFormed.size_of_nearest (hr : r.WellFormed S) (h : r.catalog.class? id = some d)
    (hp : r.layout? id = some p) :
    match r.catalog.nearestWithFields? id with
    | some a => ∃ q, r.layout? a = some q ∧ p.size = q.size
    | none => alignUp S.config.headerSize S.config.objectAlignment = some p.size := by
  induction id, d, h using hr.catalog.parent_induction generalizing p with
  | root id d h hroot =>
    cases hadds : d.addsFields with
    | true =>
      rw [hr.catalog.nearestWithFields?_self h hadds]
      exact ⟨p, hp, rfl⟩
    | false =>
      have hbase := hr.base_eq h hp
      rw [hroot] at hbase
      obtain ⟨_, -, hcompute⟩ := hr.compute_of_layout? h hp
      rw [Catalog.WellFormed.nearestWithFields?_of_root h hroot hadds]
      exact hbase ▸ Placement.alignUp_base hcompute hadds
  | child id d h parent d' h' hparent ih =>
    cases hadds : d.addsFields with
    | true =>
      rw [hr.catalog.nearestWithFields?_self h hadds]
      exact ⟨p, hp, rfl⟩
    | false =>
      obtain ⟨q, hq, hbase⟩ := hr.exists_parent_layout h hp hparent
      rw [hr.catalog.nearestWithFields?_of_parent h hparent hadds,
        hr.size_eq_of_parent h hp hq hbase hadds]
      exact ih hq

theorem WellFormed.inheritsSize (hr : r.WellFormed S) (hp : r.layout? id = some p) :
    InheritsSize S r id p where
  parent {d parent} h hparent := by
    obtain ⟨q, hq, hbase⟩ := hr.exists_parent_layout h hp hparent
    refine ⟨q, hq, UInt32.le_iff_toNat_le.mpr (hbase ▸ (hr.run hp).le), ?_⟩
    have hnone : d.addsFields = false ↔ ∀ f ∈ d.fields, f.isInstance = false := by
      simp [ClassDescriptor.addsFields]
    rw [← hnone]
    refine ⟨fun heq => ?_, hr.size_eq_of_parent h hp hq hbase⟩
    obtain ⟨_, -, hcompute⟩ := hr.compute_of_layout? h hp
    rw [← Bool.not_eq_true]
    intro hadds
    have hlt := Placement.base_lt_size hcompute hadds
    rw [hbase, heq] at hlt
    exact Nat.lt_irrefl _ hlt
  nearest := by
    obtain ⟨d, h⟩ := hr.class?_of_layout? hp
    exact hr.size_of_nearest h hp

/-- After any history, whatever the host and the settings, a class that is laid out is no smaller
than its parent, and larger by its own instance fields only : it is as large as the nearest class
at or above it that has any, or as the header rounded up. -/
theorem inheritsSize_after (S : Setting) (history : List Request) {id : ClassId} {p : Placement}
    (hp : (after S history).layout? id = some p) : InheritsSize S (after S history) id p :=
  (wellFormed_after S history).inheritsSize hp

/-- `B` adds nothing to `A` and is as large. The alignment 12 is no power of two : clearing the bits
of 11 takes the end of `A` from 12 to 20, and leaves 20 as it is. -/
theorem inheritsSize_after_twelve :
    let S : Setting := { Setting.pair with config := { headerSize := 8, objectAlignment := 12 } }
    let r := after S [.registerField ⟨"B", "x"⟩, .finalize]
    ∃ p, r.layout? ⟨1⟩ = some p ∧ InheritsSize S r ⟨1⟩ p ∧ p.size = 20 ∧
      r.catalog.nearestWithFields? ⟨1⟩ = some ⟨0⟩ := by
  intro S r
  have h : r.layout? ⟨1⟩ = some ⟨⟨1⟩, 20, 20, [], [], 0⟩ := by decide +kernel
  exact ⟨_, h, inheritsSize_after S _ h, rfl, by decide +kernel⟩

end Registry

end DeviceLayout
