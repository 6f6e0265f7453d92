import DeviceLayout.Proofs.Layout.Placement

/-!
# Layouts in unbounded arithmetic

An `Ideal` layout is made of natural numbers: each field stands at the least offset behind the
one before it that is allowed there, and the size of an object is the least multiple of the
alignment behind the last field (`Ideal.Describes`). There is always exactly one
(`Ideal.existsUnique_describes`).

Words have 32 bits, and every sum on the way to a layout is checked. A sum that overflows on the
way to an offset does not reject what fits: an alignment that is a power of two divides `2 ^ 32`,
so where the sum does not fit, no multiple behind it does (`alignUp_isSome`). Hence `place` finds
the least offsets whenever the last field ends below `2 ^ 32`, and fails otherwise
(`Settles.of_place`, `Settles.place_isSome`), and `Placement.compute` answers the ideal layout
exactly where it fits into words (`Placement.compute_exact`).
-/

namespace DeviceLayout

/-! ## Rounding in natural numbers -/

/-- `size` is the least multiple of the alignment that is not below `stop`, or `stop` itself if
there is no alignment. -/
def RoundsUp (alignment stop size : ℕ) : Prop :=
  if alignment = 0 then size = stop else IsLeast {m | stop ≤ m ∧ alignment ∣ m} size

namespace RoundsUp

variable {a stop size size' : ℕ}

theorem le (h : RoundsUp a stop size) : stop ≤ size := by
  unfold RoundsUp at h
  split_ifs at h
  · exact h.ge
  · exact h.1.1

theorem unique (h : RoundsUp a stop size) (h' : RoundsUp a stop size') : size = size' := by
  unfold RoundsUp at h h'
  split_ifs at h h'
  · exact h.trans h'.symm
  · exact h.unique h'

end RoundsUp

theorem exists_roundsUp (a stop : ℕ) : ∃ size, RoundsUp a stop size := by
  by_cases ha : a = 0
  · exact ⟨stop, by rw [RoundsUp, if_pos ha]⟩
  · obtain ⟨size, h⟩ := exists_isLeast_multiple stop (Nat.pos_of_ne_zero ha)
    exact ⟨size, by rwa [RoundsUp, if_neg ha]⟩

/-- What asks for no rounding or is a power of two. -/
def IsAlignment (a : UInt32) : Prop :=
  a = 0 ∨ ∃ k, a.toNat = 2 ^ k

theorem roundsUp_of_alignUp {v a r : UInt32} (ha : IsAlignment a) (h : alignUp v a = some r) :
    RoundsUp a.toNat v.toNat r.toNat := by
  rcases ha with rfl | ⟨k, hk⟩
  · rw [RoundsUp, if_pos (show UInt32.toNat 0 = 0 from rfl), Option.some.inj h]
  · rw [RoundsUp, if_neg (hk ▸ (Nat.two_pow_pos k).ne')]
    exact isLeast_of_alignUp hk h

theorem RoundsUp.alignUp_isSome {v a : UInt32} {size : ℕ} (ha : IsAlignment a)
    (h : RoundsUp a.toNat v.toNat size) (hsize : size < 2 ^ 32) : (alignUp v a).isSome := by
  rcases ha with rfl | ⟨k, hk⟩
  · rfl
  · rw [RoundsUp, if_neg (hk ▸ (Nat.two_pow_pos k).ne')] at h
    exact DeviceLayout.alignUp_isSome hk h.1.1 h.1.2 hsize

/-! ## Least offsets -/

/-- The fields stand at `offsets` from `start` on, each at the least offset that is not below the
end of the one before it and, if asked for, a multiple of its size. The last one ends at `stop`. -/
inductive Settles (align : Bool) : List Field → ℕ → List ℕ → ℕ → Prop
  | nil (start : ℕ) : Settles align [] start [] start
  | cons {f : Field} {rest : List Field} {start offset stop : ℕ} {offsets : List ℕ}
    (hleast : IsLeast {m | start ≤ m ∧ (align = true → f.size.toNat ∣ m)} offset)
    (hrest : Settles align rest (offset + f.size.toNat) offsets stop) :
    Settles align (f :: rest) start (offset :: offsets) stop

namespace Settles

variable {align : Bool} {fields : List Field} {start stop stop' : ℕ} {offsets offsets' : List ℕ}

theorem le (h : Settles align fields start offsets stop) : start ≤ stop := by
  induction h with
  | nil start => exact Nat.le_refl start
  | cons hleast _ ih =>
    have hle := hleast.1.1
    omega

theorem unique (h : Settles align fields start offsets stop)
    (h' : Settles align fields start offsets' stop') : offsets = offsets' ∧ stop = stop' := by
  induction h generalizing offsets' with
  | nil start =>
    cases h'
    exact ⟨rfl, rfl⟩
  | cons hleast _ ih =>
    cases h' with
    | cons hleast' hrest' =>
      obtain rfl := hleast.unique hleast'
      obtain ⟨rfl, rfl⟩ := ih hrest'
      exact ⟨rfl, rfl⟩

end Settles

/-- The offset of a field from `start` on, as `place` computes it, is the least one. -/
theorem isLeast_offset {align : Bool} {f : Field} {start offset : UInt32}
    (h : (if align then alignUp start f.size else some start) = some offset) :
    IsLeast {m | start.toNat ≤ m ∧ (align = true → f.size.toNat ∣ m)} offset.toNat := by
  cases align with
  | true =>
    obtain ⟨k, hk⟩ := f.size_eq_two_pow
    simpa using isLeast_of_alignUp hk h
  | false =>
    obtain rfl := Option.some.inj h
    simp [IsLeast, lowerBounds]

theorem offset_isSome {align : Bool} {f : Field} {start : UInt32} {offset : ℕ}
    (hleast : IsLeast {m | start.toNat ≤ m ∧ (align = true → f.size.toNat ∣ m)} offset)
    (hoffset : offset < 2 ^ 32) : (if align then alignUp start f.size else some start).isSome := by
  cases align with
  | true =>
    obtain ⟨k, hk⟩ := f.size_eq_two_pow
    exact alignUp_isSome hk hleast.1.1 (hleast.1.2 rfl) hoffset
  | false => rfl

theorem exists_settles (align : Bool) : ∀ (fields : List Field) (start : ℕ),
    ∃ offsets stop, Settles align fields start offsets stop
  | [], start => ⟨[], start, .nil start⟩
  | f :: rest, start => by
    have hoffset :
        ∃ offset, IsLeast {m | start ≤ m ∧ (align = true → f.size.toNat ∣ m)} offset := by
      cases align with
      | true =>
        obtain ⟨k, hk⟩ := f.size_eq_two_pow
        simpa using exists_isLeast_multiple start (hk ▸ Nat.two_pow_pos k)
      | false => exact ⟨start, by simp [IsLeast, lowerBounds]⟩
    obtain ⟨offset, hleast⟩ := hoffset
    obtain ⟨offsets, stop, hrest⟩ := exists_settles align rest (offset + f.size.toNat)
    exact ⟨offset :: offsets, stop, .cons hleast hrest⟩

/-! ## Placing -/

section

variable {align : Bool} {fields : List Field} {start stop : UInt32} {placed : List PlacedField}

/-- A field in front of fields that are placed is placed. -/
theorem place_cons_of {f : Field} {rest : List Field} {offset next : UInt32}
    (hoffset : (if align then alignUp start f.size else some start) = some offset)
    (hnext : addChecked offset f.size = some next)
    (hrest : place align rest next = some (placed, stop)) :
    place align (f :: rest) start = some (⟨f.name, offset, f.size⟩ :: placed, stop) := by
  cases align with
  | true =>
    rw [if_pos rfl] at hoffset
    simp [place, hoffset, hnext, hrest]
  | false =>
    obtain rfl := Option.some.inj hoffset
    simp [place, hnext, hrest]

/-- What is placed stands at the least offsets. -/
theorem Settles.of_place : ∀ {fields : List Field} {start stop : UInt32}
    {placed : List PlacedField}, place align fields start = some (placed, stop) →
      Settles align fields start.toNat (placed.map (·.offset.toNat)) stop.toNat
  | [], start, stop, placed, h => by
    obtain ⟨rfl, rfl⟩ := Prod.mk.inj (Option.some.inj h)
    exact .nil start.toNat
  | f :: rest, start, stop, placed, h => by
    obtain ⟨offset, next, placed', hoffset, hnext, hrest, rfl⟩ := place_cons h
    refine .cons (isLeast_offset hoffset) ?_
    rw [← addChecked_eq_some.mp hnext]
    exact Settles.of_place hrest

/-- What ends below `2 ^ 32` is placed. -/
theorem Settles.place_isSome {offsets : List ℕ} {last : ℕ}
    (h : Settles align fields start.toNat offsets last) (hlast : last < 2 ^ 32) :
    (place align fields start).isSome := by
  generalize hs : start.toNat = s at h
  induction h generalizing start with
  | nil s => rfl
  | @cons f rest s offset last offsets hleast hrest ih =>
    subst hs
    have hle := hrest.le
    obtain ⟨o, ho⟩ := Option.isSome_iff_exists.mp (offset_isSome hleast (by omega))
    obtain rfl := (isLeast_offset ho).unique hleast
    obtain ⟨next, hnext⟩ := exists_addChecked (a := o) (b := f.size) (by omega)
    have hrest' := ih hlast (addChecked_eq_some.mp hnext)
    obtain ⟨⟨placed, stop⟩, hplaced⟩ := Option.isSome_iff_exists.mp hrest'
    rw [place_cons_of ho hnext hplaced]
    rfl

end

/-! ## Laying out a class -/

/-- A layout of natural numbers: where the instance fields begin, where each of them stands and
how large an object is, then where each static field stands and where the last one ends. -/
structure Ideal where
  base : ℕ
  offsets : List ℕ
  size : ℕ
  staticOffsets : List ℕ
  staticExtent : ℕ

/-- The layout that a class has behind its parent, or as a root. -/
structure Ideal.Describes (l : Ideal) (d : ClassDescriptor) (parentSize : Option UInt32)
    (config : LayoutConfig) : Prop where
  base_eq : l.base = (parentSize.getD config.headerSize).toNat
  instances : ∃ stop, Settles config.alignFields d.buckets.instanceFields l.base l.offsets stop ∧
    RoundsUp config.objectAlignment.toNat stop l.size
  statics : Settles config.alignFields d.buckets.staticFields 0 l.staticOffsets l.staticExtent

/-- A placement in words shows the numbers of a layout of the class. -/
structure Placement.Shows (p : Placement) (l : Ideal) (d : ClassDescriptor) : Prop where
  classId_eq : p.classId = d.id
  base_eq : p.base.toNat = l.base
  size_eq : p.size.toNat = l.size
  instances_same : p.instanceFields.map (fun q => (q.name, q.size)) =
    d.buckets.instanceFields.map fun f => (f.name, f.size)
  offsets_eq : p.instanceFields.map (·.offset.toNat) = l.offsets
  statics_same : p.staticFields.map (fun q => (q.name, q.size)) =
    d.buckets.staticFields.map fun f => (f.name, f.size)
  staticOffsets_eq : p.staticFields.map (·.offset.toNat) = l.staticOffsets
  staticExtent_eq : p.staticExtent.toNat = l.staticExtent

/-- What laying out the class in words comes to, where its layout in natural numbers is `l`. -/
structure Ideal.Decides (l : Ideal) (d : ClassDescriptor) (parentSize : Option UInt32)
    (config : LayoutConfig) : Prop where
  notClassified : d.frozen = false →
    Placement.compute d parentSize config = .error (.notClassified d.hostName)
  isOk_iff : d.frozen = true → ((∃ p, Placement.compute d parentSize config = .ok p) ↔
    l.size ≤ 2 ^ 32 - 1 ∧ l.staticExtent ≤ 2 ^ 32 - 1)
  shows : ∀ p, Placement.compute d parentSize config = .ok p → p.Shows l d
  instanceBlock : d.frozen = true → 2 ^ 32 - 1 < l.size →
    Placement.compute d parentSize config =
      .error (.layoutUnavailable d.hostName (.overflow .instanceBlock))
  staticBlock : d.frozen = true → l.size ≤ 2 ^ 32 - 1 → 2 ^ 32 - 1 < l.staticExtent →
    Placement.compute d parentSize config =
      .error (.layoutUnavailable d.hostName (.overflow .staticBlock))


/-! ### Existence and uniqueness -/

theorem Ideal.existsUnique_describes (d : ClassDescriptor) (parentSize : Option UInt32)
    (config : LayoutConfig) : ∃! l : Ideal, l.Describes d parentSize config := by
  obtain ⟨offsets, stop, hinst⟩ := exists_settles config.alignFields d.buckets.instanceFields
    (parentSize.getD config.headerSize).toNat
  obtain ⟨size, hsize⟩ := exists_roundsUp config.objectAlignment.toNat stop
  obtain ⟨staticOffsets, extent, hstat⟩ :=
    exists_settles config.alignFields d.buckets.staticFields 0
  refine ⟨⟨_, offsets, size, staticOffsets, extent⟩, ⟨rfl, ⟨stop, hinst, hsize⟩, hstat⟩, ?_⟩
  rintro ⟨base', offsets', size', staticOffsets', extent'⟩ ⟨rfl, ⟨stop', hinst', hsize'⟩, hstat'⟩
  obtain ⟨rfl, rfl⟩ := hinst'.unique hinst
  obtain rfl := hsize'.unique hsize
  obtain ⟨rfl, rfl⟩ := hstat'.unique hstat
  rfl

/-! ### In words -/

namespace Placement

variable {d : ClassDescriptor} {parentSize : Option UInt32} {config : LayoutConfig}

/-- The instance fields of a class in their places, and the size of an instance. -/
def instanceBlock? (d : ClassDescriptor) (base : UInt32) (config : LayoutConfig) :
    Option (List PlacedField × UInt32) :=
  (place config.alignFields d.buckets.instanceFields base).bind fun block =>
    (alignUp block.2 config.objectAlignment).map fun size => (block.1, size)

theorem compute_of_open (h : d.frozen = false) :
    compute d parentSize config = .error (.notClassified d.hostName) := by
  simp [compute, h]

/-- A class that is classified is laid out block by block. -/
theorem compute_of_frozen (h : d.frozen = true) : compute d parentSize config =
    match instanceBlock? d (parentSize.getD config.headerSize) config with
    | none => .error (.layoutUnavailable d.hostName (.overflow .instanceBlock))
    | some (instanceFields, size) =>
      match place config.alignFields d.buckets.staticFields 0 with
      | none => .error (.layoutUnavailable d.hostName (.overflow .staticBlock))
      | some (staticFields, extent) =>
        .ok ⟨d.id, parentSize.getD config.headerSize, size, instanceFields, staticFields,
          extent⟩ := by
  simp only [compute, instanceBlock?, h, Bool.not_true, Bool.false_eq_true, if_false]
  cases place config.alignFields d.buckets.instanceFields (parentSize.getD config.headerSize) with
  | none => rfl
  | some block =>
    simp only [Option.bind_some]
    cases alignUp block.2 config.objectAlignment <;> rfl

variable {l : Ideal}

/-- The instance block is computed where the ideal one fits into words. -/
theorem instanceBlock?_isSome (ha : IsAlignment config.objectAlignment)
    (hl : l.Describes d parentSize config) (hsize : l.size < 2 ^ 32) :
    (instanceBlock? d (parentSize.getD config.headerSize) config).isSome := by
  obtain ⟨stop, hinst, hround⟩ := hl.instances
  rw [hl.base_eq] at hinst
  have hle := hround.le
  obtain ⟨⟨placed, last⟩, hplaced⟩ :=
    Option.isSome_iff_exists.mp (hinst.place_isSome (by omega))
  obtain ⟨-, rfl⟩ := hinst.unique (.of_place hplaced)
  obtain ⟨size, hsize⟩ := Option.isSome_iff_exists.mp (hround.alignUp_isSome ha hsize)
  rw [instanceBlock?, hplaced, Option.bind_some, hsize]
  rfl

/-- An instance block that is computed is the ideal one. -/
theorem of_instanceBlock? (ha : IsAlignment config.objectAlignment)
    (hl : l.Describes d parentSize config) {placed : List PlacedField} {size : UInt32}
    (h : instanceBlock? d (parentSize.getD config.headerSize) config = some (placed, size)) :
    size.toNat = l.size ∧ placed.map (·.offset.toNat) = l.offsets ∧
      placed.map (fun q => (q.name, q.size)) =
        d.buckets.instanceFields.map fun f => (f.name, f.size) := by
  obtain ⟨⟨placed', last⟩, hplaced, h⟩ := Option.bind_eq_some_iff.mp h
  obtain ⟨size', hsize, h⟩ := Option.map_eq_some_iff.mp h
  obtain ⟨rfl, rfl⟩ := Prod.mk.inj h
  obtain ⟨stop, hinst, hround⟩ := hl.instances
  rw [hl.base_eq] at hinst
  obtain ⟨hoffsets, rfl⟩ := hinst.unique (.of_place hplaced)
  exact ⟨(roundsUp_of_alignUp ha hsize).unique hround, hoffsets.symm, (place_run hplaced).2⟩

/-- An instance block that does not fit is reported first. -/
theorem compute_of_size_lt (ha : IsAlignment config.objectAlignment)
    (hl : l.Describes d parentSize config) (hf : d.frozen = true) (hsize : 2 ^ 32 - 1 < l.size) :
    compute d parentSize config =
      .error (.layoutUnavailable d.hostName (.overflow .instanceBlock)) := by
  rw [compute_of_frozen hf]
  cases hblock : instanceBlock? d (parentSize.getD config.headerSize) config with
  | none => rfl
  | some block =>
    have heq := (of_instanceBlock? ha hl hblock).1
    have hlt := block.2.toNat_lt
    omega

theorem compute_of_staticExtent_lt (ha : IsAlignment config.objectAlignment)
    (hl : l.Describes d parentSize config) (hf : d.frozen = true) (hsize : l.size ≤ 2 ^ 32 - 1)
    (hextent : 2 ^ 32 - 1 < l.staticExtent) :
    compute d parentSize config =
      .error (.layoutUnavailable d.hostName (.overflow .staticBlock)) := by
  obtain ⟨block, hblock⟩ := Option.isSome_iff_exists.mp (instanceBlock?_isSome ha hl (by omega))
  rw [compute_of_frozen hf, hblock]
  cases hplaced : place config.alignFields d.buckets.staticFields 0 with
  | none => rfl
  | some statics =>
    have heq := (hl.statics.unique (.of_place hplaced)).2
    have hlt := statics.2.toNat_lt
    omega

/-- Where both blocks fit, the class is laid out. -/
theorem exists_compute_ok (ha : IsAlignment config.objectAlignment)
    (hl : l.Describes d parentSize config) (hf : d.frozen = true) (hsize : l.size ≤ 2 ^ 32 - 1)
    (hextent : l.staticExtent ≤ 2 ^ 32 - 1) : ∃ p, compute d parentSize config = .ok p := by
  obtain ⟨block, hblock⟩ := Option.isSome_iff_exists.mp (instanceBlock?_isSome ha hl (by omega))
  have hsettles : Settles config.alignFields d.buckets.staticFields (0 : UInt32).toNat
    l.staticOffsets l.staticExtent := hl.statics
  obtain ⟨statics, hstatics⟩ := Option.isSome_iff_exists.mp (hsettles.place_isSome (by omega))
  rw [compute_of_frozen hf, hblock, hstatics]
  exact ⟨_, rfl⟩

/-- A layout that is computed is the ideal one. -/
theorem shows_of_compute (ha : IsAlignment config.objectAlignment)
    (hl : l.Describes d parentSize config) {p : Placement}
    (h : compute d parentSize config = .ok p) : p.Shows l d := by
  have hf := (suits_of_compute h).frozen
  rw [compute_of_frozen hf] at h
  split at h
  · cases h
  · next instanceFields size hblock =>
    split at h
    · cases h
    · next staticFields extent hplaced =>
      cases h
      obtain ⟨hsize, hoffsets, hsame⟩ := of_instanceBlock? ha hl hblock
      obtain ⟨hstatics, hextent⟩ := hl.statics.unique (.of_place hplaced)
      exact {
        classId_eq := rfl
        base_eq := hl.base_eq.symm
        size_eq := hsize
        instances_same := hsame
        offsets_eq := hoffsets
        statics_same := (place_run hplaced).2
        staticOffsets_eq := hstatics.symm
        staticExtent_eq := hextent.symm }

/-- Laying out a class in 32 bits is exact: it finds the layout of natural numbers wherever this
fits into words, and says which block does not fit otherwise. -/
theorem compute_exact (d : ClassDescriptor) (parentSize : Option UInt32) (config : LayoutConfig)
    (ha : IsAlignment config.objectAlignment) :
    (∃! l : Ideal, l.Describes d parentSize config) ∧
      ∀ l : Ideal, l.Describes d parentSize config → l.Decides d parentSize config := by
  refine ⟨Ideal.existsUnique_describes d parentSize config, fun l hl => ?_⟩
  refine
    { notClassified := compute_of_open
      isOk_iff := fun hf => ⟨fun ⟨p, hp⟩ => ?_, fun h => exists_compute_ok ha hl hf h.1 h.2⟩
      shows := fun p hp => shows_of_compute ha hl hp
      instanceBlock := compute_of_size_lt ha hl
      staticBlock := compute_of_staticExtent_lt ha hl }
  have hshows := shows_of_compute ha hl hp
  rw [← hshows.size_eq, ← hshows.staticExtent_eq]
  exact ⟨Nat.le_pred_of_lt p.size.toNat_lt, Nat.le_pred_of_lt p.staticExtent.toNat_lt⟩

/-- A field whose end is the last multiple of 8 that is a word: the layout fits, although the sum
on the way to the size is the last word there is. -/
theorem compute_exact_last_word :
    let d : ClassDescriptor :=
      { id := ⟨0⟩, hostName := "A", fields := [⟨⟨0⟩, ⟨"x", .primitive .long, false⟩⟩]
        frozen := true }
    ∃ l : Ideal, l.Describes d (some 4294967279) {} ∧ l.Decides d (some 4294967279) {} ∧
      l.offsets = [4294967280] ∧ l.size = 4294967288 := by
  intro d
  obtain ⟨⟨l, hl, -⟩, hdecides⟩ := compute_exact d (some 4294967279) {} (Or.inr ⟨3, rfl⟩)
  have hcompute : compute d (some 4294967279) {} =
      .ok ⟨⟨0⟩, 4294967279, 4294967288, [⟨"x", 4294967280, 8⟩], [], 0⟩ := by decide +kernel
  have hshows := (hdecides l hl).shows _ hcompute
  exact ⟨l, hl, hdecides l hl, hshows.offsets_eq.symm, hshows.size_eq.symm⟩

end Placement

end DeviceLayout
