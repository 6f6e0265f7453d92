import DeviceLayout.Json.Form
import DeviceLayout.Proofs.Json.Text
import Mathlib.Data.List.Nodup
import Mathlib.Data.List.Zip

/-!
# Forms that read back what they write

A form round-trips at a value if it writes the value with numerals and escaped texts and reads
what it wrote as the value again (`JsonForm.RoundTrips`). How deep reading has to go is part of the
statement: a list or a record takes one level more than its entries.

One lemma for each way forms are put together carries round trips from the parts to the whole.
In a record whose keys differ every key finds the entry that was written for it
(`Json.entries?_record`). A form that round-trips does so through text (`JsonForm.ofText?_toText`).
-/

namespace DeviceLayout

/-- A traversal that succeeds at what was written from each entry. -/
theorem mapM_map_eq_some {α β γ : Type} {l : List α} {write : α → β} {read : β → Option γ}
    {g : α → γ} (h : ∀ a ∈ l, read (write a) = some (g a)) :
    (l.map write).mapM read = some (l.map g) := by
  induction l with
  | nil => rfl
  | cons a rest ih =>
    have hrest := ih fun b hb => h b (List.mem_cons_of_mem a hb)
    rw [List.map_cons, List.mapM_cons, h a List.mem_cons_self, hrest]
    rfl

/-! ## Records -/

namespace Json

theorem text?_ofString (s : String) : (ofString s).text? = some s := by
  rw [ofString, text?, unescape_escape, Option.map_some, String.ofList_toList]

theorem spelled_ofString (s : String) : (ofString s).Spelled :=
  .string s.toList

/-- A record of spelled values is spelled, since its keys are escaped. -/
theorem spelled_record {members : List (String × Json)} (h : ∀ m ∈ members, m.2.Spelled) :
    (record members).Spelled := by
  refine .object (fun m hm => ?_) fun m hm => ?_
  · obtain ⟨m', -, rfl⟩ := List.mem_map.mp hm
    exact ⟨m'.1.toList, rfl⟩
  · obtain ⟨m', hm', rfl⟩ := List.mem_map.mp hm
    exact h m' hm'

/-- The entries of a list by their keys, each key at most once. -/
def pick? (named : List (String × Json)) (key : String) : Option (Option Json) :=
  match named.filter fun m => m.1 = key with
  | [] => some none
  | [m] => some (some m.2)
  | _ => none

/-- The members of a record are named by the texts of their keys. -/
theorem entries?_ofRecord (keys : List String) (members : List (String × Json)) :
    entries? keys (record members) = keys.mapM (pick? members) := by
  have hnamed : (members.map fun m => (escape m.1.toList, m.2)).mapM (fun m =>
      (unescape m.1).map fun k => (String.ofList k, m.2)) = some (members.map id) := by
    refine mapM_map_eq_some fun m _ => ?_
    rw [unescape_escape, Option.map_some, String.ofList_toList, id]
  rw [List.map_id] at hnamed
  exact congrArg (fun named => named.bind fun named => keys.mapM (pick? named)) hnamed

/-- Where keys differ, each finds its own entry. -/
theorem pick?_of_mem {members : List (String × Json)} (hn : (members.map Prod.fst).Nodup)
    {m : String × Json} (hm : m ∈ members) : pick? members m.1 = some (some m.2) := by
  have hfilter : (members.filter fun m' => m'.1 = m.1) = [m] := by
    induction members with
    | nil => cases hm
    | cons head rest ih =>
      obtain ⟨hfresh, hrest⟩ := List.nodup_cons.mp hn
      rcases List.mem_cons.mp hm with rfl | hm
      · have hnone : (rest.filter fun m' => m'.1 = m.1) = [] :=
          List.filter_eq_nil_iff.mpr fun m' hm' heq =>
            hfresh (List.mem_map.mpr ⟨m', hm', of_decide_eq_true heq⟩)
        rw [List.filter_cons_of_pos (by simp), hnone]
      · have hne : head.1 ≠ m.1 := fun heq => hfresh (List.mem_map.mpr ⟨m, hm, heq.symm⟩)
        rw [List.filter_cons_of_neg (by simpa using hne), ih hrest hm]
  rw [pick?, hfilter]

/-- In a record whose keys differ every key finds the entry that was written for it. -/
theorem entries?_record {keys : List String} {values : List Json} (hn : keys.Nodup)
    (hlength : values.length = keys.length) :
    entries? keys (record (keys.zip values)) = some (values.map some) := by
  have hkeys : (keys.zip values).map Prod.fst = keys := List.map_fst_zip (by omega)
  have hvalues : (keys.zip values).map Prod.snd = values := List.map_snd_zip (by omega)
  have hall : ((keys.zip values).map Prod.fst).mapM (pick? (keys.zip values)) =
      some ((keys.zip values).map fun m => some m.2) :=
    mapM_map_eq_some fun m hm => pick?_of_mem (by rwa [hkeys]) hm
  rw [hkeys] at hall
  have hentries : ((keys.zip values).map fun m => some m.2) = values.map some := by
    have hcomp : (fun m : String × Json => some m.2) = some ∘ Prod.snd := rfl
    rw [hcomp, ← List.map_map, hvalues]
  rw [entries?_ofRecord, hall, hentries]

end Json

namespace JsonForm

variable {α : Type}

/-- The value is written as numerals and escaped texts, and read back as itself wherever reading
may go `depth` containers deep. -/
structure RoundTrips (F : JsonForm α) (depth : Nat) (a : α) : Prop where
  spelled : (F.write a).Spelled
  read_write : ∀ room, depth ≤ room → F.read room (F.write a) = some a

/-- A value that round-trips does so through text. -/
theorem ofText?_toText {F : JsonForm α} {a : α} (h : F.RoundTrips room a) {style : Json.Style}
    (hs : style.Blank) : F.ofText? (F.toText style a) = some a := by
  rw [ofText?, toText, Json.parse?_toText hs h.spelled, Option.bind_some]
  exact h.read_write room (Nat.le_refl room)

namespace RoundTrips

variable {F : JsonForm α} {depth depth' : Nat} {a : α}

protected theorem mono (h : F.RoundTrips depth a) (hle : depth ≤ depth') :
    F.RoundTrips depth' a :=
  ⟨h.spelled, fun room hroom => h.read_write room (Nat.le_trans hle hroom)⟩

/-! ## Basic forms -/

protected theorem text (s : String) : JsonForm.text.RoundTrips 0 s :=
  ⟨Json.spelled_ofString s, fun _ _ => Json.text?_ofString s⟩

protected theorem bool (b : Bool) : JsonForm.bool.RoundTrips 0 b :=
  ⟨.bool b, fun _ _ => rfl⟩

/-- A number below the bound is read back from its numeral. -/
protected theorem natBelow {bound n : Nat} (hn : n < bound) :
    (JsonForm.natBelow bound).RoundTrips 0 n := by
  refine ⟨.number n, fun room _ => ?_⟩
  show (ofDigits? 10 (numeral n)).filter (fun n => n < bound) = some n
  rw [ofDigits?_numeral]
  simp [Option.filter, hn]

/-- Values that are written as numbers below a bound, and found again from them. -/
protected theorem ofNat {bound : Nat} {toNat : α → Nat} {ofNat : Nat → α} (hlt : toNat a < bound)
    (hback : ofNat (toNat a) = a) :
    RoundTrips ⟨fun a => Json.ofNat (toNat a), fun room j =>
      ((JsonForm.natBelow bound).read room j).map ofNat⟩ 0 a := by
  have hnat := RoundTrips.natBelow hlt
  refine ⟨hnat.spelled, fun room hroom => ?_⟩
  exact (congrArg (Option.map ofNat) (hnat.read_write room hroom)).trans (congrArg some hback)

protected theorem word32 (n : UInt32) : JsonForm.word32.RoundTrips 0 n :=
  .ofNat n.toNat_lt_size UInt32.ofNat_toNat

protected theorem word64 (n : UInt64) : JsonForm.word64.RoundTrips 0 n :=
  .ofNat n.toNat_lt_size UInt64.ofNat_toNat

/-- A choice whose values have different names. -/
protected theorem choice {values : List α} {name : α → String}
    (hfind : (values.find? fun b => name b = name a) = some a) :
    (JsonForm.choice values name).RoundTrips 0 a := by
  refine ⟨Json.spelled_ofString _, fun room _ => ?_⟩
  have hname : (Json.ofString (name a)).name? room = some (name a) := by
    rw [Json.ofString, Json.name?]
    exact Json.text?_ofString (name a)
  exact (congrArg (fun s => s.bind fun s => values.find? fun b => name b = s) hname).trans hfind

/-! ## Containers -/

protected theorem none : (JsonForm.optional F).RoundTrips depth none :=
  ⟨.null, fun _ _ => rfl⟩

/-- A value that is not written as `null` may be optional. -/
protected theorem some (h : F.RoundTrips depth a) (hnull : F.write a ≠ .null) :
    (JsonForm.optional F).RoundTrips depth (some a) := by
  refine ⟨h.spelled, fun room hroom => ?_⟩
  have hread : (JsonForm.optional F).read room (F.write a) =
      (F.read room (F.write a)).map Option.some := by
    unfold JsonForm.optional
    cases hj : F.write a <;> first | rfl | exact absurd hj hnull
  exact hread.trans (congrArg _ (h.read_write room hroom))

/-- A list takes one level around its items. -/
protected theorem list {as : List α} (h : ∀ a ∈ as, F.RoundTrips depth a) :
    (JsonForm.list F).RoundTrips (depth + 1) as := by
  refine ⟨.array fun j hj => ?_, fun room hroom => ?_⟩
  · obtain ⟨a, ha, rfl⟩ := List.mem_map.mp hj
    exact (h a ha).spelled
  · obtain ⟨room, rfl⟩ : ∃ r, room = r + 1 := Nat.exists_eq_add_one_of_ne_zero (by omega)
    have hall : (as.map F.write).mapM (F.read room) = some (as.map id) :=
      mapM_map_eq_some fun a ha => (h a ha).read_write room (by omega)
    rwa [List.map_id] at hall

/-- A record whose keys differ, whose entries are well spelled and from whose entries the value is
read. -/
protected theorem record {keys : List String} {write : α → List Json}
    {read : Nat → List (Option Json) → Option α} (hn : keys.Nodup)
    (hlength : (write a).length = keys.length) (hspelled : ∀ j ∈ write a, j.Spelled)
    (hread : ∀ room, depth ≤ room → read room ((write a).map Option.some) = some a) :
    (JsonForm.record keys write read).RoundTrips (depth + 1) a := by
  refine ⟨Json.spelled_record fun m hm => hspelled _ (List.of_mem_zip hm).2, fun room hroom => ?_⟩
  obtain ⟨room, rfl⟩ : ∃ r, room = r + 1 := Nat.exists_eq_add_one_of_ne_zero (by omega)
  have hentries := Json.entries?_record hn hlength
  exact (congrArg (fun e => e.bind (read room)) hentries).trans (hread room (by omega))

/-! ## Entries of records -/

/-- A value that is there is read where it is required. -/
theorem require (h : F.RoundTrips depth a) {room : Nat} (hroom : depth ≤ room) :
    F.require room (some (F.write a)) = some a :=
  h.read_write room hroom

/-- A value that is there is read, and the default is not taken. -/
theorem orDefault (h : F.RoundTrips depth a) {room : Nat} (hroom : depth ≤ room) (default : α) :
    F.orDefault room default (some (F.write a)) = some a :=
  h.read_write room hroom

end RoundTrips

end JsonForm

end DeviceLayout
