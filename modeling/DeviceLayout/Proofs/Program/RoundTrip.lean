import DeviceLayout.Program.Json
import DeviceLayout.Proofs.Json.Nesting

/-!
# Facts about the host program survive their text

A declared type is written as nested objects, one for each array dimension and one for what the
dimensions end in (`HostType.nesting_write`). The key says the shape, so the induction over the type
needs one equation of the reader for each shape (`HostType.read_record`). The other facts are
records and lists of texts, truth values and types. So all of them are faithful, with no bound on
strings or on the depth of types, and what is not too deep to be read is read back from its text
(`hostFacts_survive`).
-/

namespace DeviceLayout

open JsonForm

theorem Primitive.faithful : Primitive.form.Faithful := fun p =>
  (RoundTrips.choice (by cases p <;> rfl)).mono (Nat.zero_le _)

/-! ## Declared types -/

namespace HostType

/-- An object with one key is read by its key. -/
theorem read_record (room : Nat) (key : String) (j : Json) :
    HostType.read (room + 1) (.record [(key, j)]) =
      match key with
      | "Primitive" => (Primitive.form.read room j).map primitive
      | "Class" => (JsonForm.text.read room j).map named
      | "Array" => (HostType.read room j).map array
      | _ => none := by
  have hkey : Json.text? (.string (Json.escape key.toList)) = some key := Json.text?_ofString key
  show HostType.read (room + 1) (.object [(Json.escape key.toList, j)]) = _
  rw [HostType.read, hkey]
  split <;> simp_all

/-- A type takes one container for each array dimension and one for what they end in. -/
theorem nesting_write (t : HostType) : (form.write t).nesting = t.dimensions + 1 := by
  induction t with
  | primitive p => rfl
  | named name => rfl
  | array e ih => exact (Json.nesting_record_one "Array" _).trans (congrArg (· + 1) ih)

/-- A shape that reads back its one entry is read back with the key that says which shape it is. -/
theorem roundTrips_record {α : Type} {F : JsonForm α} {shape : α → HostType} {key : String} {a : α}
    (ha : F.RoundTrips (F.write a).nesting a)
    (hwrite : form.write (shape a) = .record [(key, F.write a)])
    (hread : ∀ room j, form.read (room + 1) (.record [(key, j)]) = (F.read room j).map shape) :
    form.RoundTrips (form.write (shape a)).nesting (shape a) := by
  refine ⟨?_, fun room hroom => ?_⟩
  · rw [hwrite]
    exact Json.spelled_record (by simpa using ha.spelled)
  · rw [hwrite, Json.nesting_record_one] at hroom
    obtain ⟨room, rfl⟩ : ∃ r, room = r + 1 := Nat.exists_eq_add_one_of_ne_zero (by omega)
    rw [hwrite, hread, ha.read_write room (by omega), Option.map_some]

theorem faithful : form.Faithful := fun t => by
  induction t with
  | primitive p =>
    exact roundTrips_record (Primitive.faithful p) rfl fun room j => read_record room "Primitive" j
  | named name =>
    exact roundTrips_record (Faithful.text name) rfl fun room j => read_record room "Class" j
  | array e ih =>
    exact roundTrips_record ih rfl fun room j => read_record room "Array" j

end HostType

/-! ## Records -/

theorem FieldRef.faithful : FieldRef.form.Faithful := by
  have htext := Faithful.text
  refine .record (by decide) (fun _ => rfl) (fun f => ?_) fun f room hroom => ?_
  · simp [(htext _).spelled]
  · simp only [List.forall_mem_cons] at hroom
    simp [(htext _).require hroom.1, (htext _).require hroom.2.1]

theorem MethodRef.faithful : MethodRef.form.Faithful := by
  have htext := Faithful.text
  refine .record (by decide) (fun _ => rfl) (fun f => ?_) fun f room hroom => ?_
  · simp [(htext _).spelled]
  · simp only [List.forall_mem_cons] at hroom
    simp [(htext _).require hroom.1, (htext _).require hroom.2.1]

theorem HostField.faithful : HostField.form.Faithful := by
  have htext := Faithful.text
  have hbool := Faithful.bool
  have htype := HostType.faithful
  refine .record (by decide) (fun _ => rfl) (fun f => ?_) fun f room hroom => ?_
  · simp [(htext _).spelled, (htype _).spelled, (hbool _).spelled]
  · simp only [List.forall_mem_cons] at hroom
    obtain ⟨hname, htyped, hstatic, -⟩ := hroom
    simp [(htext _).require hname, (htype _).require htyped, (hbool _).require hstatic]

theorem MethodFacts.faithful : MethodFacts.form.Faithful := by
  have hmethods := Faithful.list MethodRef.faithful
  have haccesses := Faithful.list FieldRef.faithful
  have htypes := Faithful.list HostType.faithful
  refine .record (by decide) (fun _ => rfl) (fun f => ?_) fun f room hroom => ?_
  · simp [(hmethods _).spelled, (haccesses _).spelled, (htypes _).spelled]
  · simp only [List.forall_mem_cons] at hroom
    obtain ⟨hcalls, hfields, harrays, -⟩ := hroom
    simp [(hmethods _).require hcalls, (haccesses _).require hfields, (htypes _).require harrays]

/-! ## Through text -/

/-- Facts about the host program are read back from their text, and declared types of any depth have
texts of their own. -/
theorem hostFacts_survive {style : Json.Style} (hs : style.Blank) :
    HostField.form.Survives style ∧ FieldRef.form.Survives style ∧
      MethodRef.form.Survives style ∧ HostType.form.Survives style ∧
      MethodFacts.form.Survives style ∧ HostType.form.Distinguishes style :=
  ⟨HostField.faithful.survives hs, FieldRef.faithful.survives hs, MethodRef.faithful.survives hs,
    HostType.faithful.survives hs, MethodFacts.faithful.survives hs,
    HostType.faithful.distinguishes hs⟩

/-- A method that allocates arrays of arrays and accesses a field of a class whose name has to be
escaped. -/
def MethodFacts.escaping : MethodFacts where
  fields := [⟨"a \"b\" \\ \n\t\x00 é 𝄞", ""⟩]
  arrays := [(HostType.primitive .int).arrayOf 3]

/-- As many array dimensions as there is room for, over a class that is named like a primitive. -/
theorem hostFacts_survive_deep :
    Json.Style.pretty.Blank ∧
      HostType.form.ofText? (HostType.form.toText .pretty ((HostType.named "int").arrayOf 126)) =
        some ((HostType.named "int").arrayOf 126) ∧
      MethodFacts.form.ofText? (MethodFacts.form.toText .pretty .escaping) = some .escaping ∧
      HostType.form.toText .pretty (.named "int") ≠
        HostType.form.toText .compact (.primitive .int) := by
  obtain ⟨-, -, -, htype, hfacts, hdistinct⟩ := hostFacts_survive Json.Style.pretty_blank
  refine ⟨Json.Style.pretty_blank, htype _ ?_, hfacts _ (by decide), fun h => ?_⟩
  · rw [HostType.nesting_write]
    decide +kernel
  · cases hdistinct Json.Style.compact_blank h

end DeviceLayout
