import DeviceLayout.Proofs.Json.Form

/-!
# How deep values nest

Reading enters at most as many containers inside one another as it has room for. A form is faithful
(`JsonForm.Faithful`) if it reads back whatever it writes with no more room than the written value
takes (`Json.nesting`) : lists of faithful entries are faithful (`Faithful.list`), and so are
records (`Faithful.record`), since the entries nest less deep than the whole.

Text has no such limit. What a faithful form writes for two values can be told apart in the text,
however deep they are (`Faithful.distinguishes`), and each is read back if it is not too deep for
the reader (`Faithful.survives`).
-/

namespace DeviceLayout

namespace Json

mutual

/-- How many containers a value holds inside one another. -/
def nesting : Json → Nat
  | array items => nestingItems items + 1
  | object members => nestingMembers members + 1
  | _ => 0

/-- The deepest of the items. -/
def nestingItems : List Json → Nat
  | [] => 0
  | j :: rest => max (nesting j) (nestingItems rest)

/-- The deepest of the values of members. -/
def nestingMembers : List (List Char × Json) → Nat
  | [] => 0
  | (_, j) :: rest => max (nesting j) (nestingMembers rest)

end

/-- No item is nested deeper than the deepest one. -/
theorem nesting_le_nestingItems {items : List Json} {j : Json} (hj : j ∈ items) :
    j.nesting ≤ nestingItems items := by
  induction items with
  | nil => cases hj
  | cons i rest ih =>
    rw [nestingItems]
    rcases List.mem_cons.mp hj with rfl | hj
    · exact Nat.le_max_left ..
    · exact Nat.le_trans (ih hj) (Nat.le_max_right ..)

/-- No value of a member is nested deeper than the deepest one. -/
theorem nesting_le_nestingMembers {members : List (List Char × Json)} {m : List Char × Json}
    (hm : m ∈ members) : m.2.nesting ≤ nestingMembers members := by
  induction members with
  | nil => cases hm
  | cons n rest ih =>
    rw [nestingMembers]
    rcases List.mem_cons.mp hm with rfl | hm
    · exact Nat.le_max_left ..
    · exact Nat.le_trans (ih hm) (Nat.le_max_right ..)

/-- An object with one key is one container around its value. -/
theorem nesting_record_one (key : String) (j : Json) :
    (record [(key, j)]).nesting = j.nesting + 1 := by
  show max j.nesting 0 + 1 = j.nesting + 1
  rw [Nat.max_eq_left (Nat.zero_le _)]

end Json

namespace JsonForm

variable {α : Type} {F : JsonForm α}

/-- Whatever is written is read back with the room it takes. -/
def Faithful (F : JsonForm α) : Prop :=
  ∀ a, F.RoundTrips (F.write a).nesting a

/-- What is not too deep to be read is read back from its text. -/
def Survives (F : JsonForm α) (style : Json.Style) : Prop :=
  ∀ a, (F.write a).nesting ≤ room → F.ofText? (F.toText style a) = some a

/-- Different values have different texts, also where one of them is written in another style. -/
def Distinguishes (F : JsonForm α) (style : Json.Style) : Prop :=
  ∀ {style' : Json.Style}, style'.Blank → ∀ {a b : α},
    F.toText style a = F.toText style' b → a = b

namespace Faithful

protected theorem text : JsonForm.text.Faithful :=
  fun s => (RoundTrips.text s).mono (Nat.zero_le _)

protected theorem bool : JsonForm.bool.Faithful :=
  fun b => (RoundTrips.bool b).mono (Nat.zero_le _)

/-- A list is one container around its items, and each item has the room that the deepest one takes.
-/
protected theorem list (hF : F.Faithful) : (JsonForm.list F).Faithful := fun as => by
  have hitems : ∀ a ∈ as, F.RoundTrips (Json.nestingItems (as.map F.write)) a := fun a ha =>
    (hF a).mono (Json.nesting_le_nestingItems (List.mem_map_of_mem ha))
  exact .list hitems

/-- A record whose keys differ, and whose value is read from its entries with the room they take. -/
protected theorem record {keys : List String} {write : α → List Json}
    {read : Nat → List (Option Json) → Option α} (hn : keys.Nodup)
    (hlength : ∀ a, (write a).length = keys.length) (hspelled : ∀ a, ∀ j ∈ write a, j.Spelled)
    (hread : ∀ a room, (∀ j ∈ write a, j.nesting ≤ room) →
      read room ((write a).map some) = some a) :
    (JsonForm.record keys write read).Faithful := fun a => by
  refine .record hn (hlength a) (hspelled a) fun room hroom => hread a room fun j hj => ?_
  obtain ⟨key, hkey⟩ : ∃ key, (key, j) ∈ keys.zip (write a) := by
    rw [← List.map_snd_zip (Nat.le_of_eq (hlength a))] at hj
    obtain ⟨m, hm, rfl⟩ := List.mem_map.mp hj
    exact ⟨m.1, hm⟩
  let escaped := fun m : String × Json => (Json.escape m.1.toList, m.2)
  have hle := Json.nesting_le_nestingMembers (List.mem_map_of_mem (f := escaped) hkey)
  exact Nat.le_trans hle hroom

/-- Room that is not used does no harm. -/
protected theorem survives (hF : F.Faithful) {style : Json.Style} (hs : style.Blank) :
    F.Survives style :=
  fun a ha => ofText?_toText ((hF a).mono ha) hs

/-- A text determines the value that is read from it, and so the value that was written. -/
protected theorem distinguishes (hF : F.Faithful) {style : Json.Style} (hs : style.Blank) :
    F.Distinguishes style := fun {style'} hs' {a b} h => by
  have hparse : Json.parse? (F.toText style a) = some (F.write a) :=
    Json.parse?_toText hs (hF a).spelled
  have hparse' : Json.parse? (F.toText style' b) = some (F.write b) :=
    Json.parse?_toText hs' (hF b).spelled
  have hwrite : F.write b = F.write a :=
    Option.some.inj (hparse'.symm.trans ((congrArg Json.parse? h).symm.trans hparse))
  have ha := (hF a).read_write _ (Nat.le_refl _)
  have hb := (hF b).read_write _ (Nat.le_refl _)
  rw [hwrite] at hb
  exact Option.some.inj (ha.symm.trans hb)

end Faithful

end JsonForm

end DeviceLayout
