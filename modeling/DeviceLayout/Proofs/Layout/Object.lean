import DeviceLayout.Proofs.History

/-!
# Objects without overlaps

An instance holds the instance fields of its class and of all classes above it, each at the
offset that the layout of its own class gives it (`Registry.Lies`). Layouts are computed at
different times, but each one starts where the kept layout of the parent ends. So whatever lies
above a class ends before its base (`Registry.WellFormed.stop_le_base`), and no two fields of
an object share a byte (`Registry.soundLayout_after`).
-/

namespace DeviceLayout

/-- The first byte behind a field at `offset`. -/
def Field.stopAt (f : Field) (offset : UInt32) : Nat :=
  offset.toNat + f.size.toNat

/-! ## Lineages are chains -/

namespace Catalog

/-- Of two classes in one lineage, one is above the other. -/
theorem WellFormed.lineage_total {c : Catalog} (hc : c.WellFormed) {id : ClassId}
    {d : ClassDescriptor} (h : c.class? id = some d) :
    ∀ a ∈ c.lineage id, ∀ b ∈ c.lineage id, a ∈ c.lineage b ∨ b ∈ c.lineage a := by
  induction id, d, h using hc.parent_induction with
  | root id d h hroot =>
    intro a ha b hb
    have hself := hc.mem_lineage_self h
    rw [lineage_of_root h hroot, List.mem_singleton] at ha hb
    rw [ha, hb]
    exact Or.inl hself
  | child id d h parent q hq hparent ih =>
    intro a ha b hb
    have ha' := ha
    have hb' := hb
    rw [hc.lineage_of_parent h hparent] at ha' hb'
    rcases List.mem_cons.mp ha' with rfl | ha'
    · exact Or.inr hb
    · rcases List.mem_cons.mp hb' with rfl | hb'
      · exact Or.inl ha
      · exact ih a ha' b hb'

end Catalog

/-! ## Where fields lie -/

namespace Registry

variable {S : Setting} {r : Registry} {id a b : ClassId} {d : ClassDescriptor} {p q : Placement}
  {f g : Field} {offset offset' : UInt32}

/-- The layout of the class `a` puts its instance field `f` at `offset`. -/
def Lies (r : Registry) (a : ClassId) (f : Field) (offset : UInt32) : Prop :=
  ∃ d p, r.catalog.class? a = some d ∧ r.layout? a = some p ∧ f ∈ d.fields ∧
    f.isInstance = true ∧ p.offsetOf? f.name = some offset

/-- A kept layout suits its class as it stands. -/
theorem WellFormed.suits (hr : r.WellFormed S) (h : r.catalog.class? id = some d)
    (hp : r.layout? id = some p) :
    ∃ base, p.Suits d base S.config.alignFields := by
  obtain ⟨ps, -, hcompute⟩ := hr.compute_of_layout? h hp
  exact ⟨_, Placement.suits_of_compute hcompute⟩

/-- A field lies where it was placed. -/
theorem WellFormed.mem_of_lies (hr : r.WellFormed S) (hp : r.layout? a = some p)
    (hf : r.Lies a f offset) : ⟨f.name, offset, f.size⟩ ∈ p.instanceFields := by
  obtain ⟨d, p', h, hp', hmem, hi, hoff⟩ := hf
  obtain rfl := Option.some.inj (hp.symm.trans hp')
  obtain ⟨base, hs⟩ := hr.suits h hp
  obtain ⟨o, ho, hplaced⟩ := hs.offsetOf?_instance (hr.catalog.descriptor h) hmem hi
  obtain rfl := Option.some.inj (hoff.symm.trans ho)
  exact hplaced

/-- The instance fields of a kept layout stand one behind the other. -/
theorem WellFormed.run (hr : r.WellFormed S) (hp : r.layout? a = some p) :
    Run S.config.alignFields p.base p.size p.instanceFields := by
  obtain ⟨d, h⟩ := hr.class?_of_layout? hp
  obtain ⟨base, hs⟩ := hr.suits h hp
  exact hs.instances

/-- A field lies between the base and the end of its class's layout. -/
theorem WellFormed.lies_within (hr : r.WellFormed S) (hp : r.layout? a = some p)
    (hf : r.Lies a f offset) : p.base.toNat ≤ offset.toNat ∧ f.stopAt offset ≤ p.size.toNat :=
  (hr.run hp).within _ (hr.mem_of_lies hp hf)

/-- The base of a layout is the header size, or the size of the parent. -/
theorem WellFormed.base_eq (hr : r.WellFormed S) (h : r.catalog.class? id = some d)
    (hp : r.layout? id = some p) :
    match d.parent with
    | none => p.base = S.config.headerSize
    | some parent => ∃ q, r.layout? parent = some q ∧ p.base = q.size := by
  obtain ⟨ps, hps, hcompute⟩ := hr.compute_of_layout? h hp
  have hbase := (Placement.suits_of_compute hcompute).base_eq
  cases hparent : d.parent with
  | none =>
    rw [parentSize?_of_root hparent] at hps
    rw [hbase, ← Option.some.inj hps, Option.getD_none]
  | some parent =>
    obtain ⟨q, hq, rfl⟩ := (parentSize?_of_parent hparent).mp hps
    exact ⟨q, hq, hbase⟩

/-- The header, and whatever lies in a class above, ends before the base of a class. -/
theorem WellFormed.stop_le_base (hr : r.WellFormed S) (h : r.catalog.class? id = some d)
    (hp : r.layout? id = some p) :
    S.config.headerSize.toNat ≤ p.base.toNat ∧
      ∀ a ∈ r.catalog.lineage id, a ≠ id → ∀ {f offset}, r.Lies a f offset →
        f.stopAt offset ≤ p.base.toNat := by
  induction id, d, h using hr.catalog.parent_induction generalizing p with
  | root id d h hroot =>
    have hbase := hr.base_eq h hp
    rw [hroot] at hbase
    refine ⟨Nat.le_of_eq (congrArg UInt32.toNat hbase.symm), fun a ha hne => ?_⟩
    rw [Catalog.WellFormed.lineage_of_root h hroot, List.mem_singleton] at ha
    exact absurd ha hne
  | child id d h parent q hq hparent ih =>
    have hbase := hr.base_eq h hp
    rw [hparent] at hbase
    obtain ⟨p', hp', hbase⟩ := hbase
    obtain ⟨hheader, habove⟩ := ih hp'
    have hle := (hr.run hp').le
    rw [hbase]
    refine ⟨Nat.le_trans hheader hle, fun a ha hne f offset hf => ?_⟩
    rw [hr.catalog.lineage_of_parent h hparent] at ha
    rcases List.mem_cons.mp ha with rfl | ha
    · exact absurd rfl hne
    · by_cases heq : a = parent
      · subst heq
        exact (hr.lies_within hp' hf).2
      · exact Nat.le_trans (habove a ha heq hf) hle

/-! ## Whole objects -/

/-- The fields `f` at `offset` and `g` at `offset'` share no byte. -/
def Apart (f : Field) (offset : UInt32) (g : Field) (offset' : UInt32) : Prop :=
  f.stopAt offset ≤ offset'.toNat ∨ g.stopAt offset' ≤ offset.toNat

/-- The class `id` with the layout `p` has sound objects, and a sound static block. -/
structure SoundLayout (S : Setting) (r : Registry) (id : ClassId) (p : Placement) : Prop where
  /-- Every instance field of the class and of what is above it has a place. -/
  lies : ∀ a ∈ r.catalog.ancestry id, ∃ d q, r.catalog.class? a = some d ∧
    r.layout? a = some q ∧ ∀ f ∈ d.fields, f.isInstance = true → ∃ offset, r.Lies a f offset
  /-- No two of these fields share a byte. -/
  apart : ∀ a ∈ r.catalog.ancestry id, ∀ b ∈ r.catalog.ancestry id, ∀ {f g offset offset'},
    r.Lies a f offset → r.Lies b g offset' → f ≠ g → Apart f offset g offset'
  /-- They lie behind the header, within the size of the class. -/
  within : ∀ a ∈ r.catalog.ancestry id, ∀ {f offset}, r.Lies a f offset →
    S.config.headerSize.toNat ≤ offset.toNat ∧ f.stopAt offset ≤ p.size.toNat
  /-- The fields of a class end before the base of every class below it. -/
  below : ∀ b ∈ r.catalog.ancestry id, ∀ a ∈ r.catalog.ancestry b, a ≠ b →
    ∀ {f offset q}, r.Lies a f offset → r.layout? b = some q → f.stopAt offset ≤ q.base.toNat
  aligned : S.config.alignFields = true → ∀ a ∈ r.catalog.ancestry id, ∀ {f offset},
    r.Lies a f offset → f.size.toNat ∣ offset.toNat
  /-- The static fields of the class have places in its static block, and no two of them share a
  byte. -/
  statics : ∀ {d}, r.catalog.class? id = some d → ∀ f ∈ d.fields, f.isStatic = true →
    ∃ offset, p.staticOffsetOf? f.name = some offset ∧
      f.stopAt offset ≤ p.staticExtent.toNat ∧
      ∀ g ∈ d.fields, g.isStatic = true → f ≠ g → ∀ {offset'},
        p.staticOffsetOf? g.name = some offset' → Apart f offset g offset'

/-- Two instance fields of one class share no byte. -/
theorem WellFormed.apart_of_same (hr : r.WellFormed S) (hf : r.Lies a f offset)
    (hg : r.Lies a g offset') (hne : f ≠ g) : Apart f offset g offset' := by
  obtain ⟨d, p, h, hp, hmem, -⟩ := id hf
  obtain ⟨d', -, h', -, hmem', -⟩ := id hg
  obtain rfl := Option.some.inj (h.symm.trans h')
  refine (hr.run hp).apart (hr.mem_of_lies hp hf) (hr.mem_of_lies hp hg) fun heq => hne ?_
  exact (hr.catalog.descriptor h).eq_of_name hmem hmem' (congrArg PlacedField.name heq)

/-- Every class of the ancestry of a class with a layout has a layout. -/
theorem WellFormed.kept_of_mem_ancestry (hr : r.WellFormed S) (hp : r.layout? id = some p) :
    ∀ a ∈ r.catalog.ancestry id, ∃ q p', r.catalog.class? a = some q ∧ r.layout? a = some p' := by
  intro a ha
  obtain ⟨d, h⟩ := hr.class?_of_layout? hp
  have ha' := Catalog.mem_ancestry.mp ha
  obtain ⟨-, q, hq⟩ := hr.catalog.class?_of_mem_lineage h a ha'
  obtain ⟨p', hp'⟩ := Option.isSome_iff_exists.mp
    (hr.layout?_of_mem_lineage h (hp ▸ rfl) a ha')
  exact ⟨q, p', hq, hp'⟩

/-- A field ends before any field of a class below its own. -/
theorem WellFormed.apart_of_above (hr : r.WellFormed S) (ha : a ∈ r.catalog.lineage b)
    (hne : a ≠ b) (hf : r.Lies a f offset) (hg : r.Lies b g offset') :
    f.stopAt offset ≤ offset'.toNat := by
  obtain ⟨d, q, hd, hq, -⟩ := id hg
  exact Nat.le_trans ((hr.stop_le_base hd hq).2 a ha hne hf) (hr.lies_within hq hg).1

/-- Two static fields of a class have places in its static block that share no byte. -/
theorem WellFormed.statics_apart (hr : r.WellFormed S) (h : r.catalog.class? id = some d)
    (hp : r.layout? id = some p) (hf : f ∈ d.fields) (hs : f.isStatic = true) :
    ∃ offset, p.staticOffsetOf? f.name = some offset ∧
      f.stopAt offset ≤ p.staticExtent.toNat ∧
      ∀ g ∈ d.fields, g.isStatic = true → f ≠ g → ∀ {offset'},
        p.staticOffsetOf? g.name = some offset' → Apart f offset g offset' := by
  obtain ⟨base, hsuits⟩ := hr.suits h hp
  have hd := hr.catalog.descriptor h
  obtain ⟨offset, hoff, hplaced⟩ := hsuits.staticOffsetOf?_static hd hf hs
  refine ⟨offset, hoff, (hsuits.statics.within _ hplaced).2, ?_⟩
  intro g hg hs' hne offset' hoff'
  obtain ⟨o, ho, hplaced'⟩ := hsuits.staticOffsetOf?_static hd hg hs'
  obtain rfl := Option.some.inj (hoff'.symm.trans ho)
  refine hsuits.statics.apart hplaced hplaced' fun heq => hne ?_
  exact hd.eq_of_name hf hg (congrArg PlacedField.name heq)

/-- Every kept layout is sound. -/
theorem WellFormed.soundLayout (hr : r.WellFormed S) (hp : r.layout? id = some p) :
    SoundLayout S r id p := by
  have hc := hr.catalog
  have hkept := hr.kept_of_mem_ancestry hp
  obtain ⟨d, h⟩ := hr.class?_of_layout? hp
  constructor
  case lies =>
    intro a ha
    obtain ⟨q, p', hq, hp'⟩ := hkept a ha
    obtain ⟨base, hs⟩ := hr.suits hq hp'
    refine ⟨q, p', hq, hp', fun f hf hi => ?_⟩
    obtain ⟨offset, hoff, -⟩ := hs.offsetOf?_instance (hc.descriptor hq) hf hi
    exact ⟨offset, q, p', hq, hp', hf, hi, hoff⟩
  case apart =>
    intro a ha b hb f g offset offset' hf hg hne
    by_cases hab : a = b
    · subst hab
      exact hr.apart_of_same hf hg hne
    · rcases hc.lineage_total h a (Catalog.mem_ancestry.mp ha) b (Catalog.mem_ancestry.mp hb) with
        habove | habove
      · exact Or.inl (hr.apart_of_above habove hab hf hg)
      · exact Or.inr (hr.apart_of_above habove (Ne.symm hab) hg hf)
  case within =>
    intro a ha f offset hf
    obtain ⟨da, pa, hda, hpa⟩ := hkept a ha
    obtain ⟨hlow, hhigh⟩ := hr.lies_within hpa hf
    refine ⟨Nat.le_trans (hr.stop_le_base hda hpa).1 hlow, ?_⟩
    by_cases hself : a = id
    · subst hself
      obtain rfl := Option.some.inj (hp.symm.trans hpa)
      exact hhigh
    · have hstop := (hr.stop_le_base h hp).2 a (Catalog.mem_ancestry.mp ha) hself hf
      exact Nat.le_trans hstop (hr.run hp).le
  case below =>
    intro b hb a ha hne f offset q hf hq
    obtain ⟨db, -, hdb, -⟩ := hkept b hb
    exact (hr.stop_le_base hdb hq).2 a (Catalog.mem_ancestry.mp ha) hne hf
  case aligned =>
    intro halign a ha f offset hf
    obtain ⟨-, pa, -, hpa⟩ := hkept a ha
    exact (hr.run hpa).aligned halign _ (hr.mem_of_lies hpa hf)
  case statics => exact fun h' f hf hs => hr.statics_apart h' hp hf hs

/-- After any history, whatever the host and the settings, every layout is sound. -/
theorem soundLayout_after (S : Setting) (history : List Request) {id : ClassId} {p : Placement}
    (hp : (after S history).layout? id = some p) : SoundLayout S (after S history) id p :=
  (wellFormed_after S history).soundLayout hp

theorem soundLayout_after_finalize :
    ∃ p, (after .pair [.registerField ⟨"B", "x"⟩, .registerField ⟨"B", "y"⟩, .finalize]).layout? ⟨1⟩
      = some p ∧ SoundLayout .pair (after .pair
        [.registerField ⟨"B", "x"⟩, .registerField ⟨"B", "y"⟩, .finalize]) ⟨1⟩ p := by
  have h : (after .pair [.registerField ⟨"B", "x"⟩, .registerField ⟨"B", "y"⟩,
      .finalize]).layout? ⟨1⟩ = some ⟨⟨1⟩, 8, 16, [⟨"y", 8, 8⟩], [], 0⟩ := by decide +kernel
  exact ⟨_, h, soundLayout_after .pair _ h⟩

end Registry

end DeviceLayout
