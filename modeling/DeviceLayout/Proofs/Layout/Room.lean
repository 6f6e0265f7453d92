import DeviceLayout.Proofs.Layout.Ideal

/-!
# Room for one field

A configuration is accepted when 8 bytes fit behind the header, up to a multiple of the object
alignment that is a word (`LayoutConfig.validate_eq_ok_iff`). This is meant to leave room for one
field of any type in a root class. But the check counts from the header on, and a field that is
aligned begins at a multiple of its size. The room this takes is there if the object alignment is
at least 8, and a field of at most 4 bytes finds it in the 8 bytes that were checked. What is
overlooked is a field of 8 bytes behind a header that ends in the last 16 bytes there are
(`LayoutConfig.Overlooks`).

With this exception an accepted configuration lays out every root class that has at most one
instance field, as long as its static fields fit into a block of their own. A rejected one lays out
no root class that has a field of 8 bytes (`LayoutConfig.judgesRoom`). Both are proved of layouts in
natural numbers : the size of an object is below `2 ^ 32` if some multiple of the alignment behind
the last field is.
-/

namespace DeviceLayout

/-! ## Accepted configurations -/

/-- A power of two is a multiple of 8 or divides 4. -/
theorem eight_dvd_or_dvd_four {a k : ℕ} (ha : a = 2 ^ k) : 8 ∣ a ∨ a ∣ 4 := by
  subst ha
  rcases Nat.lt_or_ge k 3 with hk | hk
  · exact Or.inr (Nat.pow_dvd_pow 2 (Nat.le_of_lt_succ hk))
  · exact Or.inl (Nat.pow_dvd_pow 2 hk)

namespace LayoutConfig

variable {c : LayoutConfig}

/-- There is room if a multiple of the alignment that is a word is 8 bytes behind the header. -/
theorem leavesRoom_iff {k : ℕ} (hk : c.objectAlignment.toNat = 2 ^ k) : c.leavesRoom = true ↔
    ∃ m, c.headerSize.toNat + 8 ≤ m ∧ c.objectAlignment.toNat ∣ m ∧ m < 2 ^ 32 := by
  rw [leavesRoom, Option.isSome_iff_exists]
  constructor
  · rintro ⟨r, h⟩
    obtain ⟨stop, hstop, hr⟩ := Option.bind_eq_some_iff.mp h
    have hsum : stop.toNat = c.headerSize.toNat + 8 := addChecked_eq_some.mp hstop
    exact ⟨r.toNat, hsum ▸ le_of_alignUp hr, dvd_of_alignUp hk hr, r.toNat_lt⟩
  · rintro ⟨m, hle, hdvd, hm⟩
    obtain ⟨stop, hstop⟩ := exists_addChecked (a := c.headerSize) (b := widestField)
      (Nat.lt_of_le_of_lt hle hm)
    have hsum : stop.toNat = c.headerSize.toNat + 8 := addChecked_eq_some.mp hstop
    rw [hstop]
    exact Option.isSome_iff_exists.mp (alignUp_isSome hk (hsum ▸ hle) hdvd hm)

/-- What accepting a configuration comes to. -/
theorem validate_eq_ok_iff : c.validate = .ok c ↔ (∃ k, c.objectAlignment.toNat = 2 ^ k) ∧
    ∃ m, c.headerSize.toNat + 8 ≤ m ∧ c.objectAlignment.toNat ∣ m ∧ m < 2 ^ 32 := by
  rw [← isPowerOfTwo_iff]
  by_cases ha : isPowerOfTwo c.objectAlignment = true
  · obtain ⟨k, hk⟩ := isPowerOfTwo_iff.mp ha
    rw [← leavesRoom_iff hk]
    cases hroom : c.leavesRoom <;> simp [validate, ha, hroom]
  · simp [validate, ha]

/-- The field has no room behind the header, although the configuration may have been accepted :
aligned to its 8 bytes, it ends behind the last word. -/
structure Overlooks (c : LayoutConfig) (f : Field) : Prop where
  alignFields : c.alignFields = true
  alignment_lt : c.objectAlignment < widestField
  lt_header : 2 ^ 32 - 16 < c.headerSize.toNat
  size_eq : f.size = widestField

end LayoutConfig

/-! ## A field behind the header -/

theorem Field.size_dvd_eight (f : Field) : f.size.toNat ∣ 8 := by
  unfold size storage
  cases f.type with
  | primitive p => cases p <;> decide
  | named name => exact Nat.dvd_mul_left 4 2
  | array e => exact Nat.dvd_mul_left 4 2

/-- A field that does not have 8 bytes has a number of bytes that divides 4. -/
theorem Field.size_eq_or_dvd_four (f : Field) : f.size = widestField ∨ f.size.toNat ∣ 4 := by
  obtain ⟨k, hk⟩ := f.size_eq_two_pow
  rcases eight_dvd_or_dvd_four hk with h | h
  · exact Or.inl (UInt32.toNat.inj (Nat.dvd_antisymm f.size_dvd_eight h))
  · exact Or.inr h

theorem RoundsUp.le_of_dvd {a stop size m : ℕ} (h : RoundsUp a stop size) (ha : a ≠ 0)
    (hle : stop ≤ m) (hdvd : a ∣ m) : size ≤ m := by
  rw [RoundsUp, if_neg ha] at h
  exact h.2 ⟨hle, hdvd⟩

theorem RoundsUp.dvd {a stop size : ℕ} (h : RoundsUp a stop size) (ha : a ≠ 0) : a ∣ size := by
  rw [RoundsUp, if_neg ha] at h
  exact h.1.2

/-- A field begins less than its size behind the end of the one before it. -/
theorem lt_of_isLeast_offset {align : Bool} {f : Field} {start offset : ℕ}
    (h : IsLeast {m | start ≤ m ∧ (align = true → f.size.toNat ∣ m)} offset) :
    offset < start + f.size.toNat := by
  have hpos : 0 < f.size.toNat := Nat.pos_of_dvd_of_pos f.size_dvd_eight (by decide)
  by_contra hge
  have hle : offset ≤ offset - f.size.toNat :=
    h.2 ⟨by omega, fun ha => Nat.dvd_sub (h.1.2 ha) (Nat.dvd_refl _)⟩
  omega

namespace Settles

variable {align : Bool} {fields : List Field} {start stop : ℕ} {offsets : List ℕ} {f : Field}

/-- Every field has an offset of its own, and ends before the last one does. -/
theorem exists_offset (h : Settles align fields start offsets stop) (hf : f ∈ fields) :
    ∃ o, start ≤ o ∧ (align = true → f.size.toNat ∣ o) ∧ o + f.size.toNat ≤ stop := by
  induction h with
  | nil start => cases hf
  | @cons g rest start offset stop offsets hleast hrest ih =>
    rcases List.mem_cons.mp hf with rfl | hf
    · exact ⟨offset, hleast.1.1, hleast.1.2, hrest.le⟩
    · obtain ⟨o, hle, hdvd, hstop⟩ := ih hf
      have hstart := hleast.1.1
      exact ⟨o, by omega, hdvd, hstop⟩

/-- A field takes less than twice its size. -/
theorem stop_le (h : Settles align fields start offsets stop) :
    stop ≤ start + 16 * fields.length := by
  induction h with
  | nil start => exact Nat.le_refl start
  | @cons f rest start offset stop offsets hleast hrest ih =>
    have hsize := Nat.le_of_dvd (by decide) f.size_dvd_eight
    have hoffset := lt_of_isLeast_offset hleast
    rw [List.length_cons]
    omega

end Settles

/-! ## One field -/

/-- Behind the header of an accepted configuration, a field that is not overlooked ends before some
multiple of the alignment that is a word. Where the alignment is a multiple of 8, the last bytes in
front of the multiple are a place for the field. -/
theorem LayoutConfig.exists_multiple_of_not_overlooks {c : LayoutConfig} {f : Field} {o : ℕ}
    (hc : c.validate = .ok c) (hf : ¬ c.Overlooks f)
    (hleast : IsLeast {m | c.headerSize.toNat ≤ m ∧ (c.alignFields = true → f.size.toNat ∣ m)} o) :
    ∃ m, o + f.size.toNat ≤ m ∧ c.objectAlignment.toNat ∣ m ∧ m < 2 ^ 32 := by
  obtain ⟨⟨k, hk⟩, m, hle, hdvd, hm⟩ := validate_eq_ok_iff.mp hc
  have hsize := Nat.le_of_dvd (by decide) f.size_dvd_eight
  have hoffset := lt_of_isLeast_offset hleast
  cases halign : c.alignFields with
  | false =>
    have ho : o ≤ c.headerSize.toNat := hleast.2 ⟨Nat.le_refl _, by simp [halign]⟩
    exact ⟨m, by omega, hdvd, hm⟩
  | true =>
    rcases eight_dvd_or_dvd_four hk with ha | ha
    · have hfield : f.size.toNat ∣ m := f.size_dvd_eight.trans (ha.trans hdvd)
      have ho : o ≤ m - f.size.toNat :=
        hleast.2 ⟨by omega, fun _ => Nat.dvd_sub hfield (Nat.dvd_refl _)⟩
      exact ⟨m, by omega, hdvd, hm⟩
    · rcases f.size_eq_or_dvd_four with h8 | h4
      · have ha8 : c.objectAlignment < widestField :=
          Nat.lt_of_le_of_lt (Nat.le_of_dvd (by decide) ha) (by decide)
        have hheader : c.headerSize.toNat ≤ 2 ^ 32 - 16 :=
          Nat.le_of_not_lt fun h => hf ⟨halign, ha8, h, h8⟩
        have hlast : f.size.toNat ∣ 2 ^ 32 - 16 := f.size_dvd_eight.trans (by decide)
        have ho : o ≤ 2 ^ 32 - 16 := hleast.2 ⟨hheader, fun _ => hlast⟩
        exact ⟨2 ^ 32 - 8, by omega, ha.trans (by decide), by decide⟩
      · have hsize4 := Nat.le_of_dvd (by decide) h4
        exact ⟨m, by omega, hdvd, hm⟩

namespace Ideal.Describes

variable {l : Ideal} {d : ClassDescriptor} {c : LayoutConfig} {f : Field}

/-- A root class's field has an offset behind the header and ends before the object does. -/
theorem exists_offset (hl : l.Describes d none c) (hf : f ∈ d.buckets.instanceFields) :
    ∃ o, c.headerSize.toNat ≤ o ∧ (c.alignFields = true → f.size.toNat ∣ o) ∧
      o + f.size.toNat ≤ l.size := by
  obtain ⟨stop, hinst, hround⟩ := hl.instances
  obtain ⟨o, hle, hdvd, hstop⟩ := hinst.exists_offset hf
  exact ⟨o, hl.base_eq ▸ hle, hdvd, hstop.trans hround.le⟩

/-- With a field that is overlooked, an object is too large. -/
theorem lt_size_of_overlooks (hl : l.Describes d none c) (hf : f ∈ d.buckets.instanceFields)
    (ho : c.Overlooks f) : 2 ^ 32 - 1 < l.size := by
  obtain ⟨o, hle, hdvd, hsize⟩ := hl.exists_offset hf
  have hlt := ho.lt_header
  have h8 : f.size.toNat = 8 := congrArg UInt32.toNat ho.size_eq
  have hmul : 8 ∣ o := h8 ▸ hdvd ho.alignFields
  omega

/-- An accepted configuration leaves room for one field that is not overlooked. -/
theorem size_le_of_not_overlooks (hl : l.Describes d none c) (hc : c.validate = .ok c)
    (hone : d.buckets.instanceFields.length ≤ 1)
    (hfields : ∀ f ∈ d.buckets.instanceFields, ¬ c.Overlooks f) : l.size ≤ 2 ^ 32 - 1 := by
  obtain ⟨⟨k, hk⟩, m, hle, hdvd, hm⟩ := LayoutConfig.validate_eq_ok_iff.mp hc
  have ha : c.objectAlignment.toNat ≠ 0 := hk ▸ (Nat.two_pow_pos k).ne'
  obtain ⟨stop, hinst, hround⟩ := hl.instances
  have hroom : ∃ m, stop ≤ m ∧ c.objectAlignment.toNat ∣ m ∧ m < 2 ^ 32 := by
    rw [hl.base_eq, Option.getD_none] at hinst
    generalize d.buckets.instanceFields = fields at hinst hone hfields
    generalize l.offsets = offsets at hinst
    cases hinst with
    | nil => exact ⟨m, by omega, hdvd, hm⟩
    | @cons f rest _ o _ _ hleast hrest =>
      obtain rfl : rest = [] := List.length_eq_zero_iff.mp (by simpa using hone)
      cases hrest
      exact LayoutConfig.exists_multiple_of_not_overlooks hc
        (hfields f (List.mem_singleton_self f)) hleast
  obtain ⟨last, hstop, hlast, hlt⟩ := hroom
  exact (hround.le_of_dvd ha hstop hlast).trans (Nat.le_pred_of_lt hlt)

/-- A rejected configuration leaves no room for a field of 8 bytes. -/
theorem lt_size_of_validate_ne (hl : l.Describes d none c)
    (ha : isPowerOfTwo c.objectAlignment = true) (hc : c.validate ≠ .ok c)
    (hf : f ∈ d.buckets.instanceFields) (h8 : f.size = widestField) : 2 ^ 32 - 1 < l.size := by
  obtain ⟨k, hk⟩ := isPowerOfTwo_iff.mp ha
  obtain ⟨stop, -, hround⟩ := hl.instances
  obtain ⟨o, hle, -, hsize⟩ := hl.exists_offset hf
  have hwide : f.size.toNat = 8 := congrArg UInt32.toNat h8
  by_contra hfits
  refine hc (LayoutConfig.validate_eq_ok_iff.mpr ⟨⟨k, hk⟩, l.size, by omega, ?_, by omega⟩)
  exact hround.dvd (hk ▸ (Nat.two_pow_pos k).ne')

end Ideal.Describes

/-! ## Judging the room -/

/-- The static fields of the class end in a word. -/
def ClassDescriptor.StaticsFit (d : ClassDescriptor) (align : Bool) : Prop :=
  ∃ offsets stop, Settles align d.buckets.staticFields 0 offsets stop ∧ stop < 2 ^ 32

/-- A class whose static fields do not fit has very many of them, since each of them takes less
than 16 bytes. -/
theorem ClassDescriptor.staticsFit_of_length {d : ClassDescriptor} {align : Bool}
    (h : d.buckets.staticFields.length < 2 ^ 28) : d.StaticsFit align := by
  obtain ⟨offsets, stop, hstat⟩ := exists_settles align d.buckets.staticFields 0
  have hstop := hstat.stop_le
  exact ⟨offsets, stop, hstat, by omega⟩

/-- A classified root class with a single field, which is not static. -/
def ClassDescriptor.single (type : HostType) (packing : Packing) : ClassDescriptor where
  id := ⟨0⟩
  hostName := "A"
  packing := packing
  fields := [⟨⟨0⟩, ⟨"x", type, false⟩⟩]
  frozen := true

theorem ClassDescriptor.instanceFields_single (type : HostType) (packing : Packing) :
    (single type packing).buckets.instanceFields = [⟨⟨0⟩, ⟨"x", type, false⟩⟩] :=
  List.perm_singleton.mp (Buckets.refs_append_values_perm packing _ Field.isInstance)

theorem ClassDescriptor.staticFields_single (type : HostType) (packing : Packing) :
    (single type packing).buckets.staticFields = [] :=
  List.perm_nil.mp (Buckets.refs_append_values_perm packing _ Field.isStatic)

namespace LayoutConfig

/-- The instance fields of the root class do not fit. -/
def Refuses (c : LayoutConfig) (d : ClassDescriptor) : Prop :=
  Placement.compute d none c = .error (.layoutUnavailable d.hostName (.overflow .instanceBlock))

/-- What accepting or rejecting a configuration says about root classes. -/
structure JudgesRoom (c : LayoutConfig) : Prop where
  /-- Accepted, it lays out what has at most one instance field, unless this is overlooked. -/
  accepted : c.validate = .ok c → ∀ d : ClassDescriptor, d.frozen = true →
    d.buckets.instanceFields.length ≤ 1 →
      ((∃ p, Placement.compute d none c = .ok p) ↔
        (∀ f ∈ d.buckets.instanceFields, ¬ c.Overlooks f) ∧ d.StaticsFit c.alignFields)
  staticsFit : ∀ d : ClassDescriptor, d.buckets.staticFields.length < 2 ^ 28 →
    d.StaticsFit c.alignFields
  overlooked : c.validate = .ok c → ∀ d : ClassDescriptor, d.frozen = true →
    (∃ f ∈ d.buckets.instanceFields, c.Overlooks f) → c.Refuses d
  /-- Rejected for its header, it does not lay out what has a field of 8 bytes. -/
  rejected : isPowerOfTwo c.objectAlignment = true → ∀ e, c.validate = .error e →
    ∀ d : ClassDescriptor, d.frozen = true →
      (∃ f ∈ d.buckets.instanceFields, f.size = widestField) → c.Refuses d
  /-- One such field is enough. -/
  rejected_single : isPowerOfTwo c.objectAlignment = true → ∀ e, c.validate = .error e →
    ∃ d : ClassDescriptor, d.parent = none ∧ d.frozen = true ∧
      d.buckets.instanceFields.length = 1 ∧ d.buckets.staticFields = [] ∧ c.Refuses d

variable {c : LayoutConfig} {d : ClassDescriptor}

theorem isAlignment_of_isPowerOfTwo (h : isPowerOfTwo c.objectAlignment = true) :
    IsAlignment c.objectAlignment :=
  Or.inr (isPowerOfTwo_iff.mp h)

theorem isPowerOfTwo_of_validate (h : c.validate = .ok c) :
    isPowerOfTwo c.objectAlignment = true :=
  isPowerOfTwo_iff.mpr (validate_eq_ok_iff.mp h).1

theorem exists_compute_iff (hc : c.validate = .ok c) (hd : d.frozen = true)
    (hone : d.buckets.instanceFields.length ≤ 1) :
    (∃ p, Placement.compute d none c = .ok p) ↔
      (∀ f ∈ d.buckets.instanceFields, ¬ c.Overlooks f) ∧ d.StaticsFit c.alignFields := by
  have ha := isAlignment_of_isPowerOfTwo (isPowerOfTwo_of_validate hc)
  obtain ⟨l, hl, -⟩ := Ideal.existsUnique_describes d none c
  constructor
  · rintro ⟨p, hp⟩
    have hshows := Placement.shows_of_compute ha hl hp
    have hextent := p.staticExtent.toNat_lt
    have hsize := p.size.toNat_lt
    rw [hshows.staticExtent_eq] at hextent
    rw [hshows.size_eq] at hsize
    refine ⟨fun f hf ho => ?_, l.staticOffsets, l.staticExtent, hl.statics, hextent⟩
    have hlarge := hl.lt_size_of_overlooks hf ho
    omega
  · rintro ⟨hfields, offsets, stop, hstat, hstop⟩
    obtain ⟨-, rfl⟩ := hl.statics.unique hstat
    exact Placement.exists_compute_ok ha hl hd (hl.size_le_of_not_overlooks hc hone hfields)
      (Nat.le_pred_of_lt hstop)

theorem refuses_of_overlooks (hc : c.validate = .ok c) (hd : d.frozen = true) {f : Field}
    (hf : f ∈ d.buckets.instanceFields) (ho : c.Overlooks f) : c.Refuses d := by
  obtain ⟨l, hl, -⟩ := Ideal.existsUnique_describes d none c
  exact Placement.compute_of_size_lt (isAlignment_of_isPowerOfTwo (isPowerOfTwo_of_validate hc)) hl
    hd (hl.lt_size_of_overlooks hf ho)

theorem refuses_of_validate_eq_error (ha : isPowerOfTwo c.objectAlignment = true)
    {e : LayoutError} (hc : c.validate = .error e) (hd : d.frozen = true) {f : Field}
    (hf : f ∈ d.buckets.instanceFields) (h8 : f.size = widestField) : c.Refuses d := by
  obtain ⟨l, hl, -⟩ := Ideal.existsUnique_describes d none c
  have hne : c.validate ≠ .ok c := by simp [hc]
  exact Placement.compute_of_size_lt (isAlignment_of_isPowerOfTwo ha) hl hd
    (hl.lt_size_of_validate_ne ha hne hf h8)

/-- Accepting a configuration leaves room for one field of any type, up to what is overlooked, and
rejecting it for its header means that there is no room for the widest one. -/
theorem judgesRoom (c : LayoutConfig) : c.JudgesRoom where
  accepted hc d hd hone := exists_compute_iff hc hd hone
  staticsFit d hd := d.staticsFit_of_length hd
  overlooked hc d hd := fun ⟨f, hf, ho⟩ => refuses_of_overlooks hc hd hf ho
  rejected ha e hc d hd := fun ⟨f, hf, h8⟩ => refuses_of_validate_eq_error ha hc hd hf h8
  rejected_single ha e hc := by
    have hfields := ClassDescriptor.instanceFields_single (.primitive .long) c.packing
    refine ⟨.single (.primitive .long) c.packing, rfl, rfl, congrArg List.length hfields,
      ClassDescriptor.staticFields_single _ _, ?_⟩
    exact refuses_of_validate_eq_error ha hc rfl (hfields ▸ List.mem_singleton_self _) rfl

/-- Behind a header that leaves 9 bytes, a field of 4 bytes is laid out. A field of 8 bytes would
have to begin at the last multiple of 8, and is overlooked. One byte less is rejected. -/
theorem judgesRoom_last_bytes :
    let c : LayoutConfig := { headerSize := 4294967287, objectAlignment := 1 }
    let c' : LayoutConfig := { headerSize := 4294967288, objectAlignment := 1 }
    let narrow := ClassDescriptor.single (.primitive .int) .sizeDescending
    let wide := ClassDescriptor.single (.primitive .long) .sizeDescending
    c.validate = .ok c ∧ (∃ p, Placement.compute narrow none c = .ok p) ∧ c.Refuses wide ∧
      c'.validate = .error (.noRoom 4294967288) ∧ c'.Refuses wide := by
  intro c c' narrow wide
  have hc : c.validate = .ok c := by decide +kernel
  have hc' : c'.validate = .error (.noRoom 4294967288) := by decide +kernel
  have hnarrow : narrow.buckets.instanceFields = [⟨⟨0⟩, ⟨"x", .primitive .int, false⟩⟩] :=
    ClassDescriptor.instanceFields_single _ _
  have hwide : wide.buckets.instanceFields = [⟨⟨0⟩, ⟨"x", .primitive .long, false⟩⟩] :=
    ClassDescriptor.instanceFields_single _ _
  refine ⟨hc, ?_, ?_, hc', ?_⟩
  · refine ((judgesRoom c).accepted hc narrow rfl (congrArg List.length hnarrow).le).mpr ⟨?_, ?_⟩
    · rw [hnarrow]
      intro f hf ho
      obtain rfl := List.mem_singleton.mp hf
      exact absurd ho.size_eq (by decide)
    · exact (judgesRoom c).staticsFit narrow (by decide +kernel)
  · refine (judgesRoom c).overlooked hc wide rfl ⟨_, hwide ▸ List.mem_singleton_self _, ?_⟩
    exact ⟨rfl, by decide, by decide, rfl⟩
  · exact (judgesRoom c').rejected (by decide) _ hc' wide rfl
      ⟨_, hwide ▸ List.mem_singleton_self _, rfl⟩

/-- An accepted configuration under which a root class with one field is not laid out. -/
theorem accepted_without_room :
    let c : LayoutConfig := { headerSize := 4294967287, objectAlignment := 1 }
    let d := ClassDescriptor.single (.primitive .long) .sizeDescending
    c.validate = .ok c ∧ d.parent = none ∧ d.frozen = true ∧
      d.buckets.instanceFields.length = 1 ∧ d.buckets.staticFields = [] ∧
      Placement.compute d none c = .error (.layoutUnavailable "A" (.overflow .instanceBlock)) := by
  decide +kernel

end LayoutConfig

end DeviceLayout
