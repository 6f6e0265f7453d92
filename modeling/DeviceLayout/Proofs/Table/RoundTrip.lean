import DeviceLayout.Proofs.Json.Form
import DeviceLayout.Table.Json

/-!
# Tables survive their text

Every part of a table round-trips through JSON: names and sizes, field entries, the lists of a
class entry, and the settings, validated or not, since every field of a configuration is written
and none is left to its default. A table is five containers deep, well within what is read
(`LayoutTable.roundTrips`), so its text in either style describes the table
(`LayoutTable.ofText_toText`).
-/

namespace DeviceLayout

open JsonForm

theorem StorageKind.roundTrips (kind : StorageKind) : StorageKind.form.RoundTrips 0 kind :=
  .choice (by cases kind <;> rfl)

theorem Packing.roundTrips (packing : Packing) : Packing.form.RoundTrips 0 packing :=
  .choice (by cases packing <;> rfl)

/-- All settings are written, so no default is taken when they are read. -/
theorem LayoutConfig.roundTrips (config : LayoutConfig) :
    LayoutConfig.form.RoundTrips 1 config := by
  have hheader := RoundTrips.word32 config.headerSize
  have halignment := RoundTrips.word32 config.objectAlignment
  have halign := RoundTrips.bool config.alignFields
  have hpacking := config.packing.roundTrips
  refine .record (by decide) rfl ?_ fun room hroom => ?_
  · simp [hheader.spelled, halignment.spelled, halign.spelled, hpacking.spelled]
  · simp [hheader.orDefault hroom, halignment.orDefault hroom, halign.orDefault hroom,
      hpacking.orDefault hroom]

theorem FieldLayout.roundTrips (f : FieldLayout) : FieldLayout.form.RoundTrips 1 f := by
  have htext := RoundTrips.text
  have hword := RoundTrips.word32
  have hkind := f.kind.roundTrips
  refine .record (by decide) rfl ?_ fun room hroom => ?_
  · simp [(htext _).spelled, (hword _).spelled, hkind.spelled]
  · simp [(htext _).require hroom, (hword _).require hroom, hkind.require hroom]

/-- Field entries are records of scalars, so a list of them takes two levels. -/
theorem FieldLayout.list_roundTrips (fields : List FieldLayout) :
    FieldLayout.listForm.RoundTrips 2 fields :=
  .list fun f _ => f.roundTrips

theorem ArrayTypeLayout.roundTrips (a : ArrayTypeLayout) : ArrayTypeLayout.form.RoundTrips 1 a := by
  have htext := RoundTrips.text
  have hword := RoundTrips.word32
  have hkind := a.elementKind.roundTrips
  refine .record (by decide) rfl ?_ fun room hroom => ?_
  · simp [(htext _).spelled, (hword _).spelled, hkind.spelled]
  · simp [(htext _).require hroom, (hword _).require hroom, hkind.require hroom]

/-- A class entry takes one level more than the lists of fields in it. A missing parent is written
as such. -/
theorem ClassLayout.roundTrips (c : ClassLayout) : ClassLayout.form.RoundTrips 3 c := by
  have htext (s : String) := (RoundTrips.text s).mono (Nat.zero_le 2)
  have hparent : (JsonForm.optional .text).RoundTrips 2 c.parent := by
    cases c.parent with
    | none => exact .none
    | some name => exact (htext name).some nofun
  have hword (n : UInt32) := (RoundTrips.word32 n).mono (Nat.zero_le 2)
  have hcount := (RoundTrips.word64 c.refFieldCount).mono (Nat.zero_le 2)
  have hfields := FieldLayout.list_roundTrips
  refine .record (by decide) rfl ?_ fun room hroom => ?_
  · simp [(htext _).spelled, hparent.spelled, (hword _).spelled, hcount.spelled,
      (hfields _).spelled]
  · simp [(htext _).require hroom, hparent.orDefault hroom, (hword _).require hroom,
      hcount.require hroom, (hfields _).require hroom]

/-- A table is read back from what it is written as. -/
theorem LayoutTable.roundTrips (t : LayoutTable) : LayoutTable.form.RoundTrips 5 t := by
  have hconfig : LayoutConfig.form.RoundTrips 4 t.config := t.config.roundTrips.mono (by decide)
  have hclasses : (JsonForm.list ClassLayout.form).RoundTrips 4 t.classes :=
    .list fun c _ => c.roundTrips
  have harrays : (JsonForm.list ArrayTypeLayout.form).RoundTrips 4 t.arrayTypes :=
    (RoundTrips.list fun a _ => a.roundTrips).mono (by decide)
  refine .record (by decide) rfl ?_ fun room hroom => ?_
  · simp [hconfig.spelled, hclasses.spelled, harrays.spelled]
  · simp [hconfig.require hroom, hclasses.require hroom, harrays.require hroom]

/-- The text of a table, without white space or with one item to a line, describes the table. -/
theorem LayoutTable.ofText_toText (t : LayoutTable) :
    ofText (t.toText .compact) = .ok t ∧ ofText (t.toText .pretty) = .ok t := by
  have hread : ∀ style : Json.Style, style.Blank → ofText (t.toText style) = .ok t := by
    intro style hstyle
    have htrip : LayoutTable.form.RoundTrips room t := t.roundTrips.mono (by decide)
    rw [ofText, toText, ofText?_toText htrip hstyle]
  exact ⟨hread _ Json.Style.compact_blank, hread _ Json.Style.pretty_blank⟩

end DeviceLayout
