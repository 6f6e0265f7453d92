import DeviceLayout.Proofs.Layout.Padding

/-!
# The static block

What a static block takes is computed twice : as the sum of its fields' sizes, and as the end of its
last field when they are placed from 0 on. The two differ by the padding. Without alignment there is
none (`stop_of_place_unaligned`). With the largest fields first, a bucket has padding in front of it
only. The references begin at 0 and end at a multiple of 4 (`stop_of_place_refs`). Of the values
behind them, only one of 8 bytes is moved by this, and only by 4 bytes, if the number of references
is odd (`stop_of_place_values`).

Instance fields are in other buckets (`Buckets.staticFields_filter`), so neither number depends on
them. `Placement.staticBlock_of_compute` collects this.
-/

namespace DeviceLayout

/-! ## Where a block ends -/

section

variable {refs values : List Field} {mid stop : UInt32} {placed : List PlacedField}

/-- Without alignment, a block takes what its fields take. -/
theorem stop_of_place_unaligned :
    ∀ {fields : List Field} {start : UInt32} {placed : List PlacedField},
      place false fields start = some (placed, stop) →
        stop.toNat = start.toNat + PlacedField.total placed
  | [], start, placed, h => by
    obtain ⟨rfl, rfl⟩ := Prod.mk.inj (Option.some.inj h)
    rfl
  | f :: rest, start, placed, h => by
    obtain ⟨offset, next, placed', hoffset, hnext, hrest, rfl⟩ := place_cons h
    obtain rfl := Option.some.inj hoffset
    have hstop := stop_of_place_unaligned hrest
    have hsum := addChecked_eq_some.mp hnext
    have htotal : PlacedField.total (⟨f.name, start, f.size⟩ :: placed') =
      f.size.toNat + PlacedField.total placed' := rfl
    omega

theorem Field.sum_size_of_four (hrefs : ∀ f ∈ refs, f.size.toNat = 4) :
    refs.foldr (fun f sum => f.size.toNat + sum) 0 = 4 * refs.length := by
  induction refs with
  | nil => rfl
  | cons f rest ih =>
    rw [List.foldr_cons, List.length_cons, hrefs f (List.mem_cons_self ..),
      ih fun g hg => hrefs g (List.mem_cons_of_mem f hg)]
    omega

/-- References that are placed from 0 on have no padding. -/
theorem stop_of_place_refs (h : place true refs 0 = some (placed, stop))
    (hdvd : refs.Pairwise fun f g => g.size.toNat ∣ f.size.toNat)
    (hrefs : ∀ f ∈ refs, f.size.toNat = 4) :
    PlacedField.total placed = 4 * refs.length ∧ stop.toNat = 4 * refs.length := by
  obtain ⟨-, padding, hpadding, hstop⟩ := place_bucket (j := 2) (w := 4) h hdvd
    (Nat.dvd_zero _) (Nat.le_refl _) fun f hf => (hrefs f hf).le
  have htotal := PlacedField.total_of_same (place_run h).2
  rw [Field.sum_size_of_four hrefs] at htotal
  have hzero : (0 : UInt32).toNat = 0 := rfl
  omega

/-- Behind a multiple of 4, the largest field has padding in front of it if it has 8 bytes and does
not begin at a multiple of 8. If the size of the first field divides 4, so do those of all behind
it. -/
theorem stop_of_place_values (h : place true values mid = some (placed, stop))
    (hdvd : values.Pairwise fun f g => g.size.toNat ∣ f.size.toNat) (hmid : 4 ∣ mid.toNat) :
    stop.toNat = mid.toNat + PlacedField.total placed +
      if mid.toNat % 8 ≠ 0 ∧ ∃ f ∈ values, f.size = widestField then 4 else 0 := by
  cases values with
  | nil =>
    obtain ⟨rfl, rfl⟩ := Prod.mk.inj (Option.some.inj h)
    simp [PlacedField.total]
  | cons f rest =>
    obtain ⟨offset, hleast, htiles⟩ := exists_tiles_of_place h hdvd
    have hstart := hleast.1.1
    have haligned := hleast.1.2 rfl
    rw [htiles.stop_eq]
    rcases f.size_eq_or_dvd_four with hwide | hfour
    · have height : f.size.toNat = 8 := congrArg UInt32.toNat hwide
      have hle : ∀ m, mid.toNat ≤ m → 8 ∣ m → offset ≤ m := fun m hm hdvd =>
        hleast.2 ⟨hm, fun _ => height ▸ hdvd⟩
      rw [height] at haligned
      have hexists : ∃ g ∈ f :: rest, g.size = widestField := ⟨f, List.mem_cons_self .., hwide⟩
      by_cases heven : mid.toNat % 8 = 0
      · rw [if_neg fun hodd => hodd.1 heven]
        have hoffset := hle mid.toNat (Nat.le_refl _) (Nat.dvd_of_mod_eq_zero heven)
        omega
      · rw [if_pos ⟨heven, hexists⟩]
        have hoffset := hle (mid.toNat + 4) (Nat.le_add_right ..) (by omega)
        omega
    · have hnarrow : ¬ ∃ g ∈ f :: rest, g.size = widestField := by
        rintro ⟨g, hg, hwide⟩
        have hg' : g.size.toNat ∣ 4 := by
          rcases List.mem_cons.mp hg with rfl | hg
          · exact hfour
          · exact ((List.pairwise_cons.mp hdvd).1 g hg).trans hfour
        rw [hwide] at hg'
        exact absurd hg' (by decide)
      have hoffset : offset ≤ mid.toNat :=
        hleast.2 ⟨Nat.le_refl _, fun _ => hfour.trans hmid⟩
      rw [if_neg fun hodd => hnarrow hodd.2]
      omega

end

/-! ## Static fields among others -/

/-- The static fields do not depend on instance fields. -/
theorem Buckets.staticFields_filter (packing : Packing) (fields : List Field) :
    (ofFields packing (fields.filter Field.isStatic)).staticFields =
      (ofFields packing fields).staticFields := by
  simp [ofFields, staticFields, List.filter_filter, Bool.and_assoc]

/-- Descriptors that are packed alike and have the same static fields have the same static
block. -/
theorem ClassDescriptor.staticFields_congr {d d' : ClassDescriptor}
    (hpacking : d'.packing = d.packing)
    (hstatic : d'.fields.filter Field.isStatic = d.fields.filter Field.isStatic) :
    d'.buckets.staticFields = d.buckets.staticFields := by
  rw [buckets, buckets, ← Buckets.staticFields_filter, hstatic, hpacking,
    Buckets.staticFields_filter]

/-! ## Laying out a class -/

namespace Placement

variable {d : ClassDescriptor} {parentSize : Option UInt32} {config : LayoutConfig} {p : Placement}

theorem staticExtent_of_unaligned (h : compute d parentSize config = .ok p)
    (halign : config.alignFields = false) :
    p.staticExtent.toNat = PlacedField.total p.staticFields := by
  have hplaced := (assembles_of_compute h).statics
  rw [halign] at hplaced
  exact (stop_of_place_unaligned hplaced).trans (Nat.zero_add _)

theorem staticExtent_of_aligned (h : compute d parentSize config = .ok p)
    (hpacking : d.packing = .sizeDescending) (halign : config.alignFields = true) :
    p.staticExtent.toNat = PlacedField.total p.staticFields +
      if d.buckets.staticRefs.length % 2 = 1 ∧ ∃ f ∈ d.buckets.staticValues, f.size = widestField
      then 4 else 0 := by
  have hplaced := (assembles_of_compute h).statics
  rw [halign, Buckets.staticFields] at hplaced
  obtain ⟨refs, mid, values, hrefs, hvalues, hfields⟩ := place_append hplaced
  have hsorted : ∀ fields, (d.packing.sort fields).Pairwise fun f g =>
      g.size.toNat ∣ f.size.toNat := hpacking ▸ Packing.pairwise_dvd_sort
  obtain ⟨htotal, hmid⟩ := stop_of_place_refs hrefs (hsorted _) fun f hf =>
    Field.size_of_isReference (Buckets.isReference_of_mem_refs hf)
  have hodd : mid.toNat % 8 ≠ 0 ↔ d.buckets.staticRefs.length % 2 = 1 := by omega
  have hstop := stop_of_place_values hvalues (hsorted _) (hmid ▸ Nat.dvd_mul_right 4 _)
  rw [hfields, PlacedField.total_append, hstop, hmid, htotal]
  simp only [← hmid, hodd]

/-- How the bytes that the static block of a class spans compare with the sum of its fields'
sizes. -/
structure StaticBlock (p : Placement) (d : ClassDescriptor) (config : LayoutConfig) : Prop where
  /-- The size that the class answers is the exact sum. -/
  answer : (ClassRequest.staticSize.serve.run d).result = .ok (.size d.buckets.staticSize)
  sum : d.buckets.staticSize.toNat =
    d.buckets.staticFields.foldr (fun f sum => f.size.toNat + sum) 0
  unaligned : config.alignFields = false → p.staticExtent = d.buckets.staticSize
  size_le : d.buckets.staticSize ≤ p.staticExtent
  /-- With the largest fields first, a value of 8 bytes behind an odd number of references is the
  only one that is moved, by 4 bytes. -/
  aligned : config.alignFields = true → d.packing = .sizeDescending →
    p.staticExtent.toNat = d.buckets.staticSize.toNat +
      if d.buckets.staticRefs.length % 2 = 1 ∧ ∃ f ∈ d.buckets.staticValues, f.size = 8
      then 4 else 0
  /-- Other instance fields, and whatever else a class has, make no difference. -/
  independent : ∀ d' : ClassDescriptor, d'.packing = d.packing →
    d'.fields.filter Field.isStatic = d.fields.filter Field.isStatic →
      d'.buckets.staticSize = d.buckets.staticSize ∧
      ∀ parentSize config' p', config'.alignFields = config.alignFields →
        compute d' parentSize config' = .ok p' → p'.staticExtent = p.staticExtent

/-- Without alignment the static block spans the sum of its fields' sizes, with it at least this
sum; and with the largest fields first, the sum and at most 4 bytes of padding. -/
theorem staticBlock_of_compute (h : compute d parentSize config = .ok p) :
    p.StaticBlock d config where
  answer := rfl
  sum := by
    have hsuits := suits_of_compute h
    rw [hsuits.toNat_staticSize, PlacedField.total_of_same hsuits.statics_same]
  unaligned halign := by
    have hsize := (suits_of_compute h).toNat_staticSize
    exact UInt32.toNat_inj.mp ((staticExtent_of_unaligned h halign).trans hsize.symm)
  size_le := by
    have hsuits := suits_of_compute h
    have htotal := hsuits.statics.total_le
    rw [← hsuits.toNat_staticSize] at htotal
    exact UInt32.le_iff_toNat_le.mpr (Nat.le_of_add_left_le htotal)
  aligned halign hpacking := by
    rw [(suits_of_compute h).toNat_staticSize]
    exact staticExtent_of_aligned h hpacking halign
  independent d' hpacking hstatic := by
    have hfields := ClassDescriptor.staticFields_congr hpacking hstatic
    refine ⟨by rw [Buckets.staticSize, Buckets.staticSize, hfields], ?_⟩
    intro parentSize' config' p' halign h'
    have hplaced := (assembles_of_compute h).statics
    have hplaced' := (assembles_of_compute h').statics
    rw [hfields, halign, hplaced] at hplaced'
    exact (Prod.mk.inj (Option.some.inj hplaced')).2.symm

/-- One reference and a value of 8 bytes : 12 bytes, of which the value begins 4 bytes late. -/
theorem staticBlock_of_compute_odd :
    let d : ClassDescriptor :=
      { id := ⟨0⟩, hostName := "A", frozen := true
        fields := [⟨⟨0⟩, ⟨"x", .primitive .int, false⟩⟩,
          ⟨⟨0⟩, ⟨"count", .primitive .long, true⟩⟩, ⟨⟨0⟩, ⟨"first", .named "A", true⟩⟩] }
    ∃ p, compute d none {} = .ok p ∧ p.StaticBlock d {} ∧ d.buckets.staticSize = 12 ∧
      p.staticExtent = 16 := by
  intro d
  have hcompute : compute d none {} =
      .ok ⟨⟨0⟩, 0, 8, [⟨"x", 0, 4⟩], [⟨"first", 0, 4⟩, ⟨"count", 8, 8⟩], 16⟩ := by
    decide +kernel
  exact ⟨_, hcompute, staticBlock_of_compute hcompute, by decide +kernel, rfl⟩

end Placement

end DeviceLayout
