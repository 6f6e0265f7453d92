import DeviceLayout.Proofs.Layout.PackingOrder
import DeviceLayout.Proofs.Layout.Room
import Mathlib.Data.List.Chain

/-!
# Where padding goes

Every field is as wide as a power of two. With the largest fields first, each width divides the
widths before it, so once the first field of a bucket is aligned, each of the others is aligned
where the one before it ends : a bucket tiles the bytes from its first field on (`tiles_of_place`).
Padding is left only in front of a bucket (`place_bucket`).

A bucket whose first field is `w` bytes wide begins less than `w` bytes late, and if it starts at
a multiple of some `t` that divides `w`, then at most `w - t` bytes late (`padding_le`). In front
of the references this is at most 3, as handles are 4 bytes wide. They end at a multiple of 4, so
in front of the values behind them it is at most 4 more. Without references, the values begin at
most 7 bytes late (`Placement.dense_of_compute`).
-/

namespace DeviceLayout

/-! ## Widths -/

/-- Of two fields, the narrower one's width divides the other's. -/
theorem Field.size_dvd_of_le {f g : Field} (h : g.size ≤ f.size) : g.size.toNat ∣ f.size.toNat := by
  obtain ⟨k, hk⟩ := f.size_eq_two_pow
  obtain ⟨l, hl⟩ := g.size_eq_two_pow
  have hle : g.size.toNat ≤ f.size.toNat := h
  rw [hk, hl] at hle ⊢
  exact Nat.pow_dvd_pow 2 ((Nat.pow_le_pow_iff_right Nat.one_lt_two).mp hle)

/-- A reference is stored as a handle. -/
theorem Field.size_of_isReference {f : Field} (h : f.isReference = true) : f.size.toNat = 4 := by
  unfold isReference size storage at *
  cases hf : f.type with
  | primitive p => simp [hf, HostType.storage, Storage.isReference] at h
  | named name => rfl
  | array e => rfl

/-- Largest first, each width divides the widths before it. -/
theorem Packing.pairwise_dvd_sort (fields : List Field) :
    (sizeDescending.sort fields).Pairwise fun f g => g.size.toNat ∣ f.size.toNat := by
  refine (sizeDescending.pairwise_sort fields).imp fun {f g} hle => Field.size_dvd_of_le ?_
  have hsize : (Ord.compare g.size f.size).isLE = true := (Ordering.isLE_then_iff_and.mp hle).1
  exact Std.isLE_compare.mp hsize

/-! ## One behind the other -/

/-- Each place begins where the one before it ends. -/
def PlacedField.Contiguous (placed : List PlacedField) : Prop :=
  placed.IsChain fun p q => q.offset.toNat = p.stop

/-- Places without a hole between them, from `start` to `stop`. -/
inductive Tiles : ℕ → ℕ → List PlacedField → Prop
  | nil (start : ℕ) : Tiles start start []
  | cons {p : PlacedField} {placed : List PlacedField} {start stop : ℕ}
    (hstart : p.offset.toNat = start) (h : Tiles p.stop stop placed) :
    Tiles start stop (p :: placed)

namespace Tiles

variable {start stop : ℕ} {placed : List PlacedField}

theorem contiguous (h : Tiles start stop placed) : PlacedField.Contiguous placed := by
  induction h with
  | nil start => exact .nil
  | cons hstart h ih =>
    cases h with
    | nil => exact .singleton _
    | cons hnext h => exact .cons_cons hnext ih

theorem stop_eq (h : Tiles start stop placed) : stop = start + PlacedField.total placed := by
  induction h with
  | nil start => rfl
  | @cons p placed start stop hstart h ih =>
    have hstop : p.stop = p.offset.toNat + p.size.toNat := rfl
    have htotal : PlacedField.total (p :: placed) = p.size.toNat + PlacedField.total placed := rfl
    omega

end Tiles

section

variable {align : Bool} {fields fields' : List Field} {start stop : UInt32}
  {placed : List PlacedField}

/-- Fields that are placed behind others start where these end. -/
theorem place_append : ∀ {fields : List Field} {start : UInt32} {placed : List PlacedField},
    place align (fields ++ fields') start = some (placed, stop) →
      ∃ placed₁ mid placed₂, place align fields start = some (placed₁, mid) ∧
        place align fields' mid = some (placed₂, stop) ∧ placed = placed₁ ++ placed₂
  | [], start, placed, h => ⟨[], start, placed, rfl, h, rfl⟩
  | f :: rest, start, placed, h => by
    obtain ⟨offset, next, placed', hoffset, hnext, hrest, rfl⟩ := place_cons h
    obtain ⟨placed₁, mid, placed₂, h₁, h₂, rfl⟩ := place_append hrest
    exact ⟨_, mid, placed₂, place_cons_of hoffset hnext h₁, h₂, rfl⟩

/-- Placing ends where the last field does. -/
theorem stop_of_place : ∀ {fields : List Field} {start : UInt32} {placed : List PlacedField},
    place align fields start = some (placed, stop) →
      ∀ last ∈ placed.getLast?, last.stop = stop.toNat
  | [], start, placed, h, last, hlast => by
    obtain ⟨rfl, -⟩ := Prod.mk.inj (Option.some.inj h)
    cases hlast
  | f :: rest, start, placed, h, last, hlast => by
    obtain ⟨offset, next, placed', -, hnext, hrest, rfl⟩ := place_cons h
    cases hplaced : placed' with
    | nil =>
      subst hplaced
      obtain rfl := Option.some.inj hlast
      cases rest with
      | nil =>
        obtain ⟨-, rfl⟩ := Prod.mk.inj (Option.some.inj hrest)
        exact (addChecked_eq_some.mp hnext).symm
      | cons g rest =>
        obtain ⟨_, _, _, -, -, -, hplaced⟩ := place_cons hrest
        cases hplaced
    | cons q placed'' =>
      rw [hplaced, List.getLast?_cons_cons, ← hplaced] at hlast
      exact stop_of_place hrest last hlast

/-- Behind an aligned field, narrower fields are not moved by aligning them. -/
theorem tiles_of_place : ∀ {f : Field} {rest : List Field} {offset next : UInt32}
    {placed : List PlacedField}, f.size.toNat ∣ offset.toNat →
      addChecked offset f.size = some next → place true rest next = some (placed, stop) →
      (f :: rest).Pairwise (fun f g => g.size.toNat ∣ f.size.toNat) →
      Tiles next.toNat stop.toNat placed
  | f, [], offset, next, placed, _, _, h, _ => by
    obtain ⟨rfl, rfl⟩ := Prod.mk.inj (Option.some.inj h)
    exact .nil _
  | f, g :: rest, offset, next, placed, hf, hnext, h, hdvd => by
    obtain ⟨offset', next', placed', hoffset', hnext', hrest, rfl⟩ := place_cons h
    obtain ⟨hwidths, hdvd'⟩ := List.pairwise_cons.mp hdvd
    have hwidth : g.size.toNat ∣ f.size.toNat := hwidths g (List.mem_cons_self ..)
    have hself : g.size.toNat ∣ next.toNat := by
      rw [addChecked_eq_some.mp hnext]
      exact Nat.dvd_add (hwidth.trans hf) hwidth
    have hleast := isLeast_offset hoffset'
    have hsame : offset'.toNat = next.toNat :=
      Nat.le_antisymm (hleast.2 ⟨Nat.le_refl _, fun _ => hself⟩) hleast.1.1
    have hbehind := tiles_of_place (hsame ▸ hself) hnext' hrest hdvd'
    rw [addChecked_eq_some.mp hnext'] at hbehind
    exact .cons hsame hbehind

/-! ## In front of a bucket -/

/-- A field is moved by less than its width, and from a multiple of a power of two, by at least as
much less as this power, or not at all. A field no wider than this power is not moved at all. -/
theorem padding_le {f : Field} {start offset j w : ℕ}
    (h : IsLeast {m | start ≤ m ∧ (align = true → f.size.toNat ∣ m)} offset) (halign : align = true)
    (hstart : 2 ^ j ∣ start) (hj : 2 ^ j ≤ w) (hw : f.size.toNat ≤ w) :
    offset + 2 ^ j ≤ start + w := by
  obtain ⟨k, hk⟩ := f.size_eq_two_pow
  rcases Nat.le_total k j with hkj | hjk
  · have hself : f.size.toNat ∣ start := hk ▸ (Nat.pow_dvd_pow 2 hkj).trans hstart
    have hle : offset ≤ start := h.2 ⟨Nat.le_refl _, fun _ => hself⟩
    omega
  · have hdvd : 2 ^ j ∣ f.size.toNat := hk ▸ Nat.pow_dvd_pow 2 hjk
    have hlt := lt_of_isLeast_offset h
    have hle : offset + 2 ^ j ≤ start + f.size.toNat :=
      Nat.le_of_lt_add_of_dvd (Nat.add_lt_add_right hlt _)
        (Nat.dvd_add (hdvd.trans (h.1.2 halign)) (Nat.dvd_refl _)) (Nat.dvd_add hstart hdvd)
    omega

/-- A bucket is placed without holes, from the first multiple of the first field's width on. -/
theorem exists_tiles_of_place {f : Field} {rest : List Field}
    (h : place true (f :: rest) start = some (placed, stop))
    (hdvd : (f :: rest).Pairwise fun f g => g.size.toNat ∣ f.size.toNat) :
    ∃ offset, IsLeast {m | start.toNat ≤ m ∧ (true = true → f.size.toNat ∣ m)} offset ∧
      Tiles offset stop.toNat placed := by
  obtain ⟨offset, next, placed', hoffset, hnext, hrest, rfl⟩ := place_cons h
  have hleast := isLeast_offset hoffset
  have hbehind := tiles_of_place (hleast.1.2 rfl) hnext hrest hdvd
  rw [addChecked_eq_some.mp hnext] at hbehind
  exact ⟨offset.toNat, hleast, .cons rfl hbehind⟩

/-- A bucket is placed without holes, and padding is left in front of it only. -/
theorem place_bucket {j w : ℕ} (h : place true fields start = some (placed, stop))
    (hdvd : fields.Pairwise fun f g => g.size.toNat ∣ f.size.toNat)
    (hstart : 2 ^ j ∣ start.toNat) (hj : 2 ^ j ≤ w) (hw : ∀ f ∈ fields, f.size.toNat ≤ w) :
    PlacedField.Contiguous placed ∧ ∃ padding, padding + 2 ^ j ≤ w ∧
      stop.toNat = start.toNat + padding + PlacedField.total placed := by
  cases fields with
  | nil =>
    obtain ⟨rfl, rfl⟩ := Prod.mk.inj (Option.some.inj h)
    exact ⟨.nil, 0, by omega, rfl⟩
  | cons f rest =>
    obtain ⟨offset, hleast, htiles⟩ := exists_tiles_of_place h hdvd
    have hpadding := padding_le hleast rfl hstart hj (hw f (List.mem_cons_self ..))
    have hstart' := hleast.1.1
    have hstop := htiles.stop_eq
    exact ⟨htiles.contiguous, offset - start.toNat, by omega, by omega⟩

/-- References end at a multiple of 4, if there are any. -/
theorem eq_or_four_dvd_of_place (h : place true fields start = some (placed, stop))
    (hrefs : ∀ f ∈ fields, f.size.toNat = 4) : stop = start ∨ 4 ∣ stop.toNat := by
  obtain ⟨hrun, hsame⟩ := place_run h
  cases hlast : placed.getLast? with
  | none =>
    rw [List.getLast?_eq_none_iff.mp hlast, List.map_nil] at hsame
    rw [List.map_eq_nil_iff.mp hsame.symm] at h
    exact Or.inl (Prod.mk.inj (Option.some.inj h)).2.symm
  | some last =>
    have hmem := List.mem_of_getLast? hlast
    have hentry : (last.name, last.size) ∈ fields.map fun f => (f.name, f.size) :=
      hsame ▸ List.mem_map_of_mem hmem
    obtain ⟨f, hf, hfq⟩ := List.mem_map.mp hentry
    have hsize : last.size.toNat = 4 := (Prod.mk.inj hfq).2 ▸ hrefs f hf
    have haligned := hrun.aligned rfl last hmem
    rw [hsize] at haligned
    rw [← stop_of_place h last hlast, PlacedField.stop, hsize]
    exact Or.inr (Nat.dvd_add haligned (Nat.dvd_refl 4))

end

/-! ## Laying out a class -/

/-- A layout in which each bucket of instance fields is without holes, and the fields take little
more than their widths. -/
structure Placement.Dense (p : Placement) (d : ClassDescriptor) : Prop where
  /-- The instance fields are the references, then the values. -/
  buckets : ∃ refs values, p.instanceFields = refs ++ values ∧
    refs.map (fun q => (q.name, q.size)) = d.buckets.instanceRefs.map (fun f => (f.name, f.size)) ∧
    values.map (fun q => (q.name, q.size)) =
      d.buckets.instanceValues.map (fun f => (f.name, f.size)) ∧
    PlacedField.Contiguous refs ∧ PlacedField.Contiguous values
  /-- Up to the end of the last field, at most 7 bytes are padding. -/
  padding : ∀ last ∈ p.instanceFields.getLast?, ∃ padding ≤ 7,
    last.stop = p.base.toNat + PlacedField.total p.instanceFields + padding

namespace Buckets

variable {packing : Packing} {fields : List Field} {f : Field}

theorem isReference_of_mem_refs {kind : Field → Bool}
    (h : f ∈ packing.sort (fields.filter fun f => f.isReference && kind f)) :
    f.isReference = true := by
  have hkind := (List.mem_filter.mp (Packing.mem_sort.mp h)).2
  exact (Bool.and_eq_true_iff.mp hkind).1

end Buckets

namespace Placement

variable {d : ClassDescriptor} {parentSize : Option UInt32} {config : LayoutConfig} {p : Placement}

/-- With the largest fields first and every field aligned, padding is left in front of the
references and in front of the values only, and it is at most 7 bytes in all. References end at a
multiple of 4, or there are none, so what they leave of the 7 bytes is enough for the values. -/
theorem dense_of_compute (hpacking : d.packing = .sizeDescending)
    (halign : config.alignFields = true) (h : compute d parentSize config = .ok p) :
    p.Dense d := by
  obtain ⟨stop, hplaced, -⟩ := (assembles_of_compute h).instances
  rw [halign, Buckets.instanceFields] at hplaced
  obtain ⟨refs, mid, values, hrefs, hvalues, hfields⟩ := place_append hplaced
  have hsorted : ∀ fields, (d.packing.sort fields).Pairwise fun f g =>
      g.size.toNat ∣ f.size.toNat := hpacking ▸ Packing.pairwise_dvd_sort
  have hwidth : ∀ f ∈ d.buckets.instanceRefs, f.size.toNat = 4 := fun f hf =>
    Field.size_of_isReference (Buckets.isReference_of_mem_refs hf)
  obtain ⟨hcontiguous, front, hfront, hmid⟩ := place_bucket (j := 0) (w := 4) hrefs (hsorted _)
    (Nat.one_dvd _) (by decide) fun f hf => (hwidth f hf).le
  obtain ⟨j, hj, hdvd, hleft⟩ : ∃ j, 2 ^ j ≤ 8 ∧ 2 ^ j ∣ mid.toNat ∧ front + 8 ≤ 7 + 2 ^ j := by
    rcases eq_or_four_dvd_of_place hrefs hwidth with rfl | hfour
    · exact ⟨0, by decide, Nat.one_dvd _, by omega⟩
    · exact ⟨2, by decide, hfour, by omega⟩
  obtain ⟨hcontiguous', back, hback, hstop⟩ := place_bucket hvalues (hsorted _) hdvd hj
    fun f _ => Nat.le_of_dvd (by decide) f.size_dvd_eight
  refine ⟨⟨refs, values, hfields, (place_run hrefs).2, (place_run hvalues).2, hcontiguous,
    hcontiguous'⟩, fun last hlast => ⟨front + back, by omega, ?_⟩⟩
  rw [stop_of_place hplaced last hlast, hfields, PlacedField.total_append]
  omega

/-- All 7 bytes, behind a header of 5 : the reference begins 3 bytes late, the value behind it 4. -/
theorem dense_of_compute_seven_bytes :
    let d : ClassDescriptor :=
      { id := ⟨0⟩, hostName := "A", frozen := true
        fields := [⟨⟨0⟩, ⟨"mass", .primitive .long, false⟩⟩, ⟨⟨0⟩, ⟨"next", .named "A", false⟩⟩] }
    ∃ p, compute d none { headerSize := 5 } = .ok p ∧ p.Dense d ∧
      p.instanceFields.map (·.offset) = [8, 16] ∧ p.instanceFields.map (·.stop) =
        [12, p.base.toNat + PlacedField.total p.instanceFields + 7] := by
  intro d
  have hcompute : compute d none { headerSize := 5 } =
      .ok ⟨⟨0⟩, 5, 24, [⟨"next", 8, 4⟩, ⟨"mass", 16, 8⟩], [], 0⟩ := by decide +kernel
  exact ⟨_, hcompute, dense_of_compute rfl rfl hcompute, rfl, rfl⟩

end Placement

end DeviceLayout
