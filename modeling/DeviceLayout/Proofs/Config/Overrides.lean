import DeviceLayout.Compile
import DeviceLayout.Proofs.Catalog.WellFormed
import DeviceLayout.Proofs.Layout.Room
import DeviceLayout.Proofs.Toml.Text
import DeviceLayout.Table.Json
import Mathlib.Data.List.Perm.Basic

/-!
# Settings that are only given in part

A configuration file gives some of the settings (`Overrides`); the others keep their defaults. The
file is read key by key (`Overrides.GivenBy`), so it says nothing about the order of the keys or
about keys that are none of the settings. Whatever gives the settings under `layout` is read as the
defaults with exactly these settings changed (`Overrides.SetBy.ofText_eq`), and then validated :
the alignment first, and the header only behind a good alignment (`LayoutConfig.judged_validate`).

Such files exist for all settings, in every order and with any other keys among them : the lines
make a table (`Toml.parse?_tableText`) in which a key finds its value wherever it stands.
-/

namespace DeviceLayout

/-! ## What validation decides -/

/-- The alignment of objects is a power of two, and so not 0. -/
def LayoutConfig.AlignsWell (c : LayoutConfig) : Prop :=
  ∃ k, c.objectAlignment.toNat = 2 ^ k

/-- The header and 8 bytes, rounded up to the alignment, are a word. -/
def LayoutConfig.HasRoom (c : LayoutConfig) : Prop :=
  ∃ size, RoundsUp c.objectAlignment.toNat (c.headerSize.toNat + 8) size ∧ size ≤ 2 ^ 32 - 1

/-- The result is the configuration if it aligns well and has room. Otherwise it is an error, which
is about the header only if the alignment is good. -/
structure LayoutConfig.Judged (c : LayoutConfig) (res : Except LayoutError LayoutConfig) :
    Prop where
  ok_iff (c' : LayoutConfig) : res = .ok c' ↔ c' = c ∧ c.AlignsWell ∧ c.HasRoom
  badAlignment (h : ¬c.AlignsWell) : res = .error (.badAlignment c.objectAlignment)
  noRoom (h : c.AlignsWell) (hroom : ¬c.HasRoom) : res = .error (.noRoom c.headerSize)

namespace LayoutConfig

variable {c : LayoutConfig}

/-- Under a good alignment the check for room is exact. -/
theorem AlignsWell.leavesRoom_iff (h : c.AlignsWell) : c.leavesRoom = true ↔ c.HasRoom := by
  obtain ⟨k, hk⟩ := h
  have hne : c.objectAlignment.toNat ≠ 0 := by rw [hk]; exact (Nat.two_pow_pos k).ne'
  rw [LayoutConfig.leavesRoom_iff hk]
  constructor
  · rintro ⟨m, hle, hdvd, hm⟩
    obtain ⟨size, hsize⟩ := exists_roundsUp c.objectAlignment.toNat (c.headerSize.toNat + 8)
    have hlem : size ≤ m := hsize.le_of_dvd hne hle hdvd
    exact ⟨size, hsize, by omega⟩
  · rintro ⟨size, hsize, hle⟩
    exact ⟨size, hsize.le, hsize.dvd hne, by omega⟩

/-- Validation reports the alignment first, and looks at the header only under a good one. -/
theorem judged_validate (c : LayoutConfig) : c.Judged c.validate := by
  have halign : isPowerOfTwo c.objectAlignment = true ↔ c.AlignsWell := isPowerOfTwo_iff
  by_cases ha : c.AlignsWell
  · have hpow := halign.mpr ha
    by_cases hroom : c.HasRoom
    · have hvalid : c.validate = .ok c := by
        simp [validate, hpow, ha.leavesRoom_iff.mpr hroom]
      refine ⟨fun c' => ?_, fun h => absurd ha h, fun _ h => absurd hroom h⟩
      simp [hvalid, ha, hroom, eq_comm]
    · have hvalid : c.validate = .error (.noRoom c.headerSize) := by
        simp [validate, hpow, mt ha.leavesRoom_iff.mp hroom]
      refine ⟨fun c' => ?_, fun h => absurd ha h, fun _ _ => hvalid⟩
      simp [hvalid, hroom]
  · have hvalid : c.validate = .error (.badAlignment c.objectAlignment) := by
      simp [validate, mt halign.mp ha]
    refine ⟨fun c' => ?_, fun _ => hvalid, fun h => absurd h ha⟩
    simp [hvalid, ha]

end LayoutConfig

/-! ## Settings that are given -/

/-- Where keys differ, a key finds its entry wherever it stands. -/
theorem Toml.Entries.get?_eq_some_iff {entries : Toml.Entries} (hn : (entries.map (·.1)).Nodup)
    {key : String} {v : Toml} : entries.get? key = some v ↔ (key, v) ∈ entries := by
  rw [Toml.Entries.get?, Option.map_eq_some_iff]
  constructor
  · rintro ⟨e, he, rfl⟩
    obtain ⟨hmem, rfl⟩ := (find?_eq_some_iff_of_nodup hn).mp he
    exact hmem
  · exact fun hmem => ⟨(key, v), (find?_eq_some_iff_of_nodup hn).mpr ⟨hmem, rfl⟩, rfl⟩

/-- The settings that a file gives. -/
structure Overrides where
  headerSize : Option UInt32 := none
  objectAlignment : Option UInt32 := none
  alignFields : Option Bool := none
  packing : Option Packing := none
  deriving DecidableEq, Repr

namespace Overrides

/-- The defaults, changed where a setting is given. -/
def config (o : Overrides) : LayoutConfig :=
  let c : LayoutConfig := {}
  { headerSize := o.headerSize.getD c.headerSize
    objectAlignment := o.objectAlignment.getD c.objectAlignment
    alignFields := o.alignFields.getD c.alignFields
    packing := o.packing.getD c.packing }

/-- The keys of the settings have the given values, and a setting that is not given has no key. -/
structure GivenBy (o : Overrides) (entries : Toml.Entries) : Prop where
  headerSize : entries.get? "object-header-size" = o.headerSize.map fun n => .integer n.toNat
  objectAlignment :
    entries.get? "object-alignment" = o.objectAlignment.map fun n => .integer n.toNat
  alignFields : entries.get? "align-fields" = o.alignFields.map .boolean
  packing : entries.get? "packing" = o.packing.map fun p => .string p.name

/-- The text is a document with a table `layout` that gives the settings. -/
def SetBy (o : Overrides) (text : String) : Prop :=
  ∃ document kind entries, Toml.parse? text = some document ∧
    document.get? "layout" = some (.table kind entries) ∧ o.GivenBy entries

/-- A setting is read as it was given, and has its default if it was not. -/
theorem orDefault_map {α : Type} {read : Toml → Option α} {write : α → Toml}
    (h : ∀ a, read (write a) = some a) (default : α) (given : Option α) :
    Toml.orDefault read default (given.map write) = some (given.getD default) := by
  cases given with
  | none => rfl
  | some a => exact h a

/-- A word is read back from its integer. -/
theorem word32?_integer (n : UInt32) : Toml.word32? (.integer n.toNat) = some n := by
  have hn := n.toNat_lt
  simp [Toml.word32?]
  omega

theorem boolean?_boolean (b : Bool) : Toml.boolean? (.boolean b) = some b :=
  rfl

/-- A packing policy is read back from its name. -/
theorem packing?_string (p : Packing) : Toml.packing? (.string p.name) = some p :=
  Packing.ofName?_name p

variable {o : Overrides} {text : String}

/-- A table that gives the settings is read as the defaults with these settings changed. -/
theorem GivenBy.ofToml?_eq {entries : Toml.Entries} (h : o.GivenBy entries)
    (kind : Toml.TableKind) : LayoutConfig.ofToml? (.table kind entries) = some o.config := by
  simp only [LayoutConfig.ofToml?, LayoutConfig.ofSettings?, h.headerSize, h.objectAlignment,
    h.alignFields, h.packing, orDefault_map word32?_integer, orDefault_map boolean?_boolean,
    orDefault_map packing?_string]
  rfl

/-- Text that gives the settings is read as the defaults with these settings changed. -/
theorem SetBy.ofText_eq (h : o.SetBy text) : LayoutConfig.ofText text = o.config.validate := by
  obtain ⟨document, kind, entries, hparse, hlayout, hgiven⟩ := h
  have hread : LayoutConfig.ofEntries? document = some o.config := by
    rw [LayoutConfig.ofEntries?, hlayout]
    exact hgiven.ofToml?_eq kind
  rw [LayoutConfig.ofText, hparse, Option.bind_some, hread]

/-! ## Files that give settings -/

/-- The pair of a setting, if it is given. -/
def pair {α β : Type} (key : String) (write : α → β) (given : Option α) : List (String × β) :=
  (given.map fun a => (key, write a)).toList

/-- A setting that is given makes one line, and one that is not given makes none. -/
theorem mem_pair_iff {α β : Type} {key k : String} {write : α → β} {given : Option α} {b : β} :
    (k, b) ∈ pair key write given ↔ k = key ∧ given.map write = some b := by
  cases given <;> simp [pair, eq_comm]

theorem spellPairs_pair {α : Type} {text : α → String} {value : α → Toml}
    (h : ∀ a, Toml.Spells (text a) (value a)) (key : String) (given : Option α) :
    Toml.SpellPairs (pair key text given) (pair key value given) := by
  cases given with
  | none => exact .nil
  | some a => exact .cons ⟨rfl, h a⟩ .nil

/-- The pairs of the settings that are given, in the order of the keys. -/
def settings {β : Type} (o : Overrides) (word : UInt32 → β) (flag : Bool → β)
    (policy : Packing → β) : List (String × β) :=
  pair "object-header-size" word o.headerSize ++
    (pair "object-alignment" word o.objectAlignment ++
      (pair "align-fields" flag o.alignFields ++ pair "packing" policy o.packing))

/-- The settings with the texts of their values. -/
def pairs (o : Overrides) : List (String × String) :=
  o.settings (fun n => String.ofList (numeral n.toNat)) Toml.boolName
    fun p => String.ofList (Toml.quote p.name)

/-- The entries that the settings are read as. -/
def entries (o : Overrides) : Toml.Entries :=
  o.settings (fun n => .integer n.toNat) .boolean fun p => .string p.name

/-- The numeral of a word is a TOML integer, since 32 bits are fewer than 63. -/
theorem spells_word32 (n : UInt32) :
    Toml.Spells (String.ofList (numeral n.toNat)) (.integer n.toNat) := by
  have hn : n.toNat < Toml.integerBound := Nat.lt_trans n.toNat_lt (by decide)
  exact Toml.spells_numeral hn

/-- The lines of the settings are read as their entries. -/
theorem spellPairs_pairs (o : Overrides) : Toml.SpellPairs o.pairs o.entries := by
  have hheader := spellPairs_pair spells_word32 "object-header-size" o.headerSize
  have halignment := spellPairs_pair spells_word32 "object-alignment" o.objectAlignment
  have halign := spellPairs_pair Toml.spells_bool "align-fields" o.alignFields
  have hpacking := spellPairs_pair (fun p : Packing => Toml.spells_quote p.name) "packing" o.packing
  exact List.rel_append hheader (List.rel_append halignment (List.rel_append halign hpacking))

/-- The settings are given wherever their entries stand, among entries of other keys. -/
theorem givenBy_of_perm {es others : Toml.Entries} (hn : (es.map (·.1)).Nodup)
    (hperm : es.Perm (o.entries ++ others)) (hothers : ∀ e ∈ others, e.1 ∉ LayoutConfig.keys) :
    o.GivenBy es := by
  have hget {key : String} (hkey : key ∈ LayoutConfig.keys) (v : Toml) :
      es.get? key = some v ↔ (key, v) ∈ o.entries := by
    rw [Toml.Entries.get?_eq_some_iff hn, hperm.mem_iff, List.mem_append, or_iff_left]
    exact fun hmem => hothers _ hmem hkey
  refine ⟨?_, ?_, ?_, ?_⟩ <;>
  · refine Option.ext fun v => ?_
    rw [hget (by decide)]
    simp [entries, settings, mem_pair_iff]

/-- A file gives the settings if it has their pairs in any order, and among them any other pairs of
different keys. -/
theorem setBy_tableText {lines others : List (String × String)}
    (hlines : lines.Perm (o.pairs ++ others)) (hkeys : (lines.map (·.1)).Nodup)
    (hothers : ∀ l ∈ others, l.1 ∉ LayoutConfig.keys ∧ ∃ v, Toml.Spells l.2 v) :
    o.SetBy (Toml.tableText "layout" lines) := by
  obtain ⟨others', hspell⟩ := Toml.exists_spellPairs fun l hl => (hothers l hl).2
  have hunknown : ∀ e ∈ others', e.1 ∉ LayoutConfig.keys := by
    intro e he
    obtain ⟨l, hl, hle⟩ : ∃ l ∈ others, l.1 = e.1 := by
      simpa [Toml.SpellPairs.map_key hspell] using List.mem_map_of_mem (f := Prod.fst) he
    exact hle ▸ (hothers l hl).1
  obtain ⟨es, hes, hperm⟩ := List.perm_comp_forall₂ hlines
    (List.rel_append o.spellPairs_pairs hspell)
  have hn : (es.map (·.1)).Nodup := Toml.SpellPairs.map_key hes ▸ hkeys
  exact ⟨_, .header, es, Toml.parse?_tableText hes hn, by simp [Toml.Entries.get?],
    givenBy_of_perm hn hperm hunknown⟩

/-- For every choice of settings and values, in every order and with any other keys among them, the
lines make a file that gives the settings; and however a file gives them, they replace exactly their
defaults, and the file is accepted or refused by what comes of it. -/
theorem judged_ofText {lines others : List (String × String)}
    (hlines : lines.Perm (o.pairs ++ others)) (hkeys : (lines.map (·.1)).Nodup)
    (hothers : ∀ l ∈ others, l.1 ∉ LayoutConfig.keys ∧ ∃ v, Toml.Spells l.2 v) :
    o.SetBy (Toml.tableText "layout" lines) ∧
      ∀ text, o.SetBy text → o.config.Judged (LayoutConfig.ofText text) :=
  ⟨setBy_tableText hlines hkeys hothers, fun _ h => h.ofText_eq ▸ o.config.judged_validate⟩

/-- Two settings in turned order, with an array and a number under keys of their own, and a header
that ends 8 bytes before the last multiple of 8. -/
theorem judged_ofText_mixed :
    let o : Overrides := { headerSize := some 4294967280, packing := some .byName }
    let others := [("two words", "[1, true]"), ("count", "7")]
    let lines := [("packing", "\"by-name\""), ("two words", "[1, true]"),
      ("object-header-size", "4294967280"), ("count", "7")]
    (lines.Perm (o.pairs ++ others) ∧ (lines.map (·.1)).Nodup ∧
      ∀ l ∈ others, l.1 ∉ LayoutConfig.keys ∧ ∃ v, Toml.Spells l.2 v) ∧
      LayoutConfig.ofText (Toml.tableText "layout" lines) =
        .ok { headerSize := 4294967280, packing := .byName } := by
  intro o others lines
  have harray : Toml.Spells "[1, true]" (.array [.integer 1, .boolean true]) := by
    intro key statements rest
    have htext : "[1, true]".toList = ['[', '1', ',', ' ', 't', 'r', 'u', 'e', ']'] := by decide
    have hone (more : List Char) : Toml.scanToken ('1' :: ',' :: more) =
        some (.word ['1'], ',' :: more) := rfl
    have htrue (more : List Char) : Toml.scanToken ('t' :: 'r' :: 'u' :: 'e' :: ']' :: more) =
        some (.word ['t', 'r', 'u', 'e'], ']' :: more) := rfl
    simp only [htext, List.cons_append, List.nil_append]
    rw [Toml.readFrom_token (t := .openBracket) (by simp) rfl rfl,
      Toml.readFrom_token (by simp) (hone _) rfl,
      Toml.readFrom_token (t := .comma) (by simp) rfl rfl, Toml.readFrom_blank rfl,
      Toml.readFrom_token (by simp) (htrue _) rfl]
    exact Toml.readFrom_token (t := .closeBracket) (by simp) rfl rfl
  have hlines : lines.Perm (o.pairs ++ others) := by decide +kernel
  have hkeys : (lines.map (·.1)).Nodup := by decide
  have hothers : ∀ l ∈ others, l.1 ∉ LayoutConfig.keys ∧ ∃ v, Toml.Spells l.2 v := by
    simp only [others, List.forall_mem_cons]
    exact ⟨⟨by decide, _, harray⟩, ⟨by decide, _, Toml.spells_numeral (n := 7) (by decide)⟩, nofun⟩
  obtain ⟨hset, hjudged⟩ := judged_ofText hlines hkeys hothers
  have hsize : RoundsUp 8 4294967288 4294967288 := by
    rw [RoundsUp, if_neg (by decide)]
    exact ⟨⟨le_rfl, by decide⟩, fun m hm => hm.1⟩
  refine ⟨⟨hlines, hkeys, hothers⟩, ?_⟩
  exact ((hjudged _ hset).ok_iff _).mpr ⟨rfl, ⟨3, rfl⟩, 4294967288, hsize, by decide⟩

end Overrides

end DeviceLayout
