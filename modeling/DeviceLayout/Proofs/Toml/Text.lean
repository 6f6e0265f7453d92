import DeviceLayout.Proofs.Toml.Spelling
import DeviceLayout.Toml.Parser
import Mathlib.Data.List.Basic

/-!
# The text of a table describes the table

A table is written as its header and one line for each of its pairs (`Toml.tableText`). What a line
has behind its equals sign may be anything that is read as a value up to the end of the line
(`Toml.Spells`) : numerals, truth values and quoted texts are. Keys are written bare where they can
be and quoted otherwise.

Reading goes from token to token, and from line to line : a pair leads from the start of a line to
the start of the next one, with one more statement behind it (`Toml.readFrom_pair`). If no key comes
twice, the statements make one table whose entries are the pairs in their order
(`Toml.ofStatements?_pairs`), and so does the text (`Toml.parse?_tableText`).
-/

namespace DeviceLayout.Toml

variable {r r' : Reading} {text rest : List Char}

/-! ## Reading token by token -/

/-- Where reading stands behind a text, if it gets there. -/
def readFrom (r : Reading) (text : List Char) : Option Reading :=
  (scan text).bind fun tokens => tokens.foldlM Reading.step r

/-- Reading takes the token at the front. -/
theorem readFrom_token {t : Token} (hcomment : text.head? ≠ some '#')
    (hscan : scanToken text = some (t, rest)) (hstep : r.step t = some r') :
    readFrom r text = readFrom r' rest :=
  foldlM_scan_cons (scan_of_scanToken hcomment hscan) hstep

/-- Blanks next to each other are one token. -/
theorem scanToken_blank {c : Char} (hc : isBlank c = true) :
    scanToken (c :: text) = some (.blank, text.dropWhile isBlank) := by
  simp only [isBlank, Bool.or_eq_true, decide_eq_true_eq] at hc
  rcases hc with rfl | rfl <;> rfl

/-- Where blanks change nothing, one is as good as none. -/
theorem readFrom_blank (hr : r.step .blank = some r) :
    readFrom r (' ' :: text) = readFrom r text := by
  rw [readFrom_token (by simp) (scanToken_blank rfl) hr]
  cases text with
  | nil => rfl
  | cons c more =>
    by_cases hc : isBlank c = true
    · have hcomment : (c :: more).head? ≠ some '#' := by
        rintro heq
        cases heq
        cases hc
      rw [List.dropWhile_cons, if_pos hc, readFrom_token hcomment (scanToken_blank hc) hr]
    · rw [List.dropWhile_cons, if_neg hc]

theorem readFrom_newline (hr : r.step .newline = some r') :
    readFrom r ('\n' :: rest) = readFrom r' rest :=
  readFrom_token (by simp) rfl hr

/-! ## Values -/

/-- A text that is read as a value where a pair waits for one, up to the end of the line. -/
def Spells (text : String) (v : Toml) : Prop :=
  ∀ (key : List String) (statements : List Statement) (rest : List Char),
    readFrom ⟨.value, [.pair key], statements⟩ (text.toList ++ '\n' :: rest) =
      readFrom ⟨.after v, [.pair key], statements⟩ ('\n' :: rest)

theorem endsWord_newline (rest : List Char) : EndsWord ('\n' :: rest) :=
  .cons (by decide) (by decide) rest

theorem head?_ne_of_word {word rest : List Char} (hne : word ≠ [])
    (hword : ∀ c ∈ word, isWordChar c = true) : (word ++ rest).head? ≠ some '#' := by
  obtain ⟨c, more, rfl⟩ := List.exists_cons_of_ne_nil hne
  intro heq
  cases heq
  exact absurd (hword '#' List.mem_cons_self) (by decide)

/-- A word that is a value spells it, wherever a pair waits for a value. -/
theorem spells_word {word : List Char} {v : Toml} (hword : ∀ c ∈ word, isWordChar c = true)
    (hv : ofWord? word = some v) : Spells (String.ofList word) v := by
  intro key statements rest
  have hne : word ≠ [] := by
    rintro rfl
    cases hv
  rw [String.toList_ofList]
  refine readFrom_token (head?_ne_of_word hne hword)
    (scanToken_word hne hword (endsWord_newline rest)) ?_
  simp [Reading.step, Reading.stepValue, hv, Reading.expect]

/-- A numeral is read as its integer, if this is none too large for 64 bits with a sign. -/
theorem spells_numeral {n : Nat} (hn : n < integerBound) :
    Spells (String.ofList (numeral n)) (.integer n) :=
  spells_word (fun _ hc => isWordChar_of_isDigitOf (isDigitOf_of_mem_numeral hc))
    (ofWord?_numeral hn)

/-- The spelling of a truth value. -/
def boolName : Bool → String
  | true => "true"
  | false => "false"

theorem spells_bool (b : Bool) : Spells (boolName b) (.boolean b) := by
  cases b with
  | true =>
    have hv : ofWord? ['t', 'r', 'u', 'e'] = some (.boolean true) := rfl
    exact spells_word (List.all_eq_true.mp rfl) hv
  | false =>
    have hv : ofWord? ['f', 'a', 'l', 's', 'e'] = some (.boolean false) := rfl
    exact spells_word (List.all_eq_true.mp rfl) hv

/-- A quoted text is read as the text. -/
theorem spells_quote (s : String) : Spells (String.ofList (quote s)) (.string s) := by
  intro key statements rest
  rw [String.toList_ofList]
  refine readFrom_token (by simp [quote]) (scanToken_quote s (by simp)) ?_
  simp [Reading.step, Reading.stepValue, Reading.expect]

/-! ## Keys -/

/-- A key, bare if it can be. -/
def writeKey (key : String) : List Char :=
  if !key.toList.isEmpty && key.toList.all isKeyChar then key.toList else quote key

/-- A word without dots is one part of a key. -/
theorem KeyPath.addWord_of_isKeyChar (p : KeyPath) {word part : List Char}
    (hword : ∀ c ∈ word, isKeyChar c = true) :
    p.addWord part word = p.addBare (part.reverse ++ word) := by
  induction word generalizing part with
  | nil => rw [addWord, List.append_nil]
  | cons c rest ih =>
    have hdot : c ≠ '.' := by
      rintro rfl
      exact absurd (hword '.' List.mem_cons_self) (by decide)
    rw [addWord, ih fun d hd => hword d (List.mem_cons_of_mem c hd)]
    · simp
    · exact hdot

/-- The tokens that keys are made of are taken for the first of a key. -/
structure AwaitsKey (r : Reading) (place : KeyPlace) : Prop where
  word (w : List Char) : r.step (.word w) = r.stepKey place {} (.word w)
  line (s : List Char) : r.step (.line s) = r.stepKey place {} (.line s)

/-- A key is read back, whether it is written bare or quoted. -/
theorem readFrom_writeKey {place : KeyPlace} {key : String} (hr : AwaitsKey r place)
    (hrest : EndsWord rest) (hquote : rest.head? ≠ some '"') :
    readFrom r (writeKey key ++ rest) =
      readFrom (r.expect (.key place ⟨[key], false⟩)) rest := by
  rw [writeKey]
  split
  · next hbare =>
    obtain ⟨hne, hchars⟩ : key.toList ≠ [] ∧ ∀ c ∈ key.toList, isKeyChar c = true := by
      simpa using hbare
    have hword : ∀ c ∈ key.toList, isWordChar c = true := fun c hc => by
      simp [isWordChar, hchars c hc]
    refine readFrom_token (head?_ne_of_word hne hword) (scanToken_word hne hword hrest) ?_
    have hpart : KeyPath.addBare {} key.toList = some ⟨[key], false⟩ := by
      rw [KeyPath.addBare, if_neg (by simpa using hne), if_pos (List.all_eq_true.mpr hchars),
        String.ofList_toList]
      rfl
    rw [hr.word, Reading.stepKey, KeyPath.addWord_of_isKeyChar _ hchars, List.reverse_nil,
      List.nil_append, hpart, Option.map_some]
  · refine readFrom_token (by simp [quote]) (scanToken_quote key hquote) ?_
    rw [hr.line, Reading.stepKey]
    simp [KeyPath.addPart]

/-! ## Lines -/

/-- The line of a pair, given by its key and the text of its value. -/
def writePair (pair : String × String) : List Char :=
  writeKey pair.1 ++ ' ' :: '=' :: ' ' :: (pair.2.toList ++ ['\n'])

/-- A table : its header and one line for each pair. -/
def tableText (name : String) (pairs : List (String × String)) : String :=
  String.ofList ('[' :: (writeKey name ++ ']' :: '\n' :: pairs.flatMap writePair))

/-- A pair leads from the start of a line to the start of the next one. -/
theorem readFrom_pair {pair : String × String} {v : Toml} (hv : Spells pair.2 v)
    (statements : List Statement) :
    readFrom { statements } (writePair pair ++ rest) =
      readFrom { statements := .pair [pair.1] v :: statements } rest := by
  have hkey : AwaitsKey { statements } .pair := ⟨fun _ => rfl, fun _ => rfl⟩
  have hends (rest : List Char) : EndsWord (' ' :: '=' :: rest) :=
    ⟨fun _ hc => Option.mem_some.mp hc ▸ by decide, fun h => by cases h; decide⟩
  simp only [writePair, List.append_assoc, List.cons_append, List.nil_append]
  rw [readFrom_writeKey hkey (hends _) (by simp), readFrom_blank rfl,
    readFrom_token (t := .equals) (by simp) rfl rfl, readFrom_blank rfl]
  rw [hv]
  exact readFrom_newline rfl

/-- A header is read as a statement of its own. -/
theorem readFrom_header (name : String) :
    readFrom {} ('[' :: (writeKey name ++ ']' :: '\n' :: rest)) =
      readFrom { statements := [.header [name]] } rest := by
  have hkey : AwaitsKey { expected := .headerStart } .header := ⟨fun _ => rfl, fun _ => rfl⟩
  have hends : EndsWord (']' :: '\n' :: rest) := .cons (by decide) (by decide) _
  rw [readFrom_token (t := .openBracket) (by simp) rfl rfl]
  refine (readFrom_writeKey hkey hends (by simp)).trans ?_
  rw [readFrom_token (t := .closeBracket) (by simp) rfl rfl]
  exact readFrom_newline rfl

/-- Lines and the pairs that they are read as. -/
abbrev SpellPairs : List (String × String) → Entries → Prop :=
  List.Forall₂ fun pair entry => pair.1 = entry.1 ∧ Spells pair.2 entry.2

/-- Lines whose values are spelled make entries. -/
theorem exists_spellPairs {pairs : List (String × String)}
    (h : ∀ pair ∈ pairs, ∃ v, Spells pair.2 v) : ∃ entries, SpellPairs pairs entries := by
  induction pairs with
  | nil => exact ⟨[], .nil⟩
  | cons pair rest ih =>
    obtain ⟨v, hv⟩ := h pair List.mem_cons_self
    obtain ⟨entries, hrest⟩ := ih fun p hp => h p (List.mem_cons_of_mem _ hp)
    exact ⟨(pair.1, v) :: entries, .cons ⟨rfl, hv⟩ hrest⟩

theorem SpellPairs.map_key {pairs : List (String × String)} {entries : Entries}
    (h : SpellPairs pairs entries) : entries.map (·.1) = pairs.map (·.1) := by
  induction h with
  | nil => rfl
  | cons hpair _ ih => rw [List.map_cons, List.map_cons, ih, hpair.1]

/-- The statement of a pair. -/
def Statement.ofEntry (entry : String × Toml) : Statement :=
  .pair [entry.1] entry.2

/-- Lines are read one after another. Each puts its pair on top of the statements before it. -/
theorem readFrom_pairs {pairs : List (String × String)} {entries : Entries}
    (h : SpellPairs pairs entries) (statements : List Statement) :
    readFrom { statements } (pairs.flatMap writePair) =
      some { statements := (entries.map .ofEntry).reverse ++ statements } := by
  induction h generalizing statements with
  | nil =>
    rw [List.flatMap_nil, readFrom, scan_nil]
    rfl
  | cons hpair _ ih =>
    obtain ⟨hkey, hv⟩ := hpair
    rw [List.flatMap_cons, readFrom_pair hv, ih, hkey]
    simp [Statement.ofEntry]

/-! ## Documents -/

/-- A new key goes to the end. -/
theorem put_of_fresh {entries : Entries} {key : String} (v : Toml)
    (hkey : key ∉ entries.map (·.1)) : entries.put key v = entries ++ [(key, v)] := by
  induction entries with
  | nil => rfl
  | cons e rest ih =>
    obtain ⟨hne, hrest⟩ := not_or.mp (mt List.mem_cons.mpr hkey)
    rw [Entries.put, if_neg (Ne.symm hne), ih hrest, List.cons_append]

theorem get?_eq_none_of_fresh {entries : Entries} {key : String}
    (hkey : key ∉ entries.map (·.1)) : entries.get? key = none := by
  rw [Entries.get?, Option.map_eq_none_iff, List.find?_eq_none]
  exact fun e he heq => hkey (List.mem_map.mpr ⟨e, he, of_decide_eq_true heq⟩)

/-- A pair under the header of a table goes to the end of the table if its key is new. -/
theorem add_ofEntry {name : String} {done : Entries} {e : String × Toml}
    (hkey : e.1 ∉ done.map (·.1)) :
    Document.add ⟨[name], [(name, .table .header done)]⟩ (.ofEntry e) =
      some ⟨[name], [(name, .table .header (done ++ [e]))]⟩ := by
  have hfresh : (done.get? e.1).isSome = false := by rw [get?_eq_none_of_fresh hkey]; rfl
  have hdefine : defineIn [e.1] e.2 (some (.table .header done)) =
      some (.table .header (done ++ [e])) := by
    rw [defineIn, define, if_neg (by simp [hfresh]), put_of_fresh _ hkey]
    rfl
  have hget : Entries.get? [(name, .table .header done)] name = some (.table .header done) := by
    simp [Entries.get?]
  simp [Document.add, Statement.ofEntry, atHeader, hget, hdefine, Entries.put]

/-- Pairs whose keys are new go to the end of the table one after another. -/
theorem foldlM_pairs {name : String} (done : Entries) {entries : Entries}
    (hkeys : ((done ++ entries).map (·.1)).Nodup) :
    (entries.map Statement.ofEntry).foldlM Document.add
        ⟨[name], [(name, .table .header done)]⟩ =
      some ⟨[name], [(name, .table .header (done ++ entries))]⟩ := by
  induction entries generalizing done with
  | nil => simp
  | cons e rest ih =>
    have hsplit : done ++ e :: rest = (done ++ [e]) ++ rest := by simp
    have hkey : e.1 ∉ done.map (·.1) := fun hmem => by
      rw [List.map_append, List.map_cons] at hkeys
      exact (List.nodup_append.mp hkeys).2.2 _ hmem _ List.mem_cons_self rfl
    rw [List.map_cons, List.foldlM_cons, add_ofEntry hkey]
    rw [hsplit] at hkeys ⊢
    exact ih _ hkeys

/-- Pairs whose keys differ are the entries of the table under whose header they stand. -/
theorem ofStatements?_pairs {name : String} {entries : Entries}
    (hkeys : (entries.map (·.1)).Nodup) :
    Document.ofStatements? (.header [name] :: entries.map .ofEntry) =
      some ⟨[name], [(name, .table .header entries)]⟩ := by
  rw [Document.ofStatements?, List.foldlM_cons]
  exact foldlM_pairs [] hkeys

/-- The text of a table describes the document that holds the table alone. -/
theorem parse?_tableText {name : String} {pairs : List (String × String)} {entries : Entries}
    (h : SpellPairs pairs entries) (hkeys : (entries.map (·.1)).Nodup) :
    parse? (tableText name pairs) = some [(name, .table .header entries)] := by
  have hread : readFrom {} (tableText name pairs).toList =
      some { statements := (entries.map .ofEntry).reverse ++ [.header [name]] } := by
    rw [tableText, String.toList_ofList, readFrom_header]
    exact readFrom_pairs h _
  obtain ⟨tokens, hscan, htokens⟩ := Option.bind_eq_some_iff.mp hread
  have hmark : dropMark (tableText name pairs).toList = (tableText name pairs).toList := by
    rw [tableText, String.toList_ofList]
    rfl
  have hstatements : statements? tokens = some (.header [name] :: entries.map .ofEntry) := by
    rw [statements?, List.foldlM_append, htokens]
    simp [Reading.step]
  rw [parse?, hmark, hscan]
  simp [hstatements, ofStatements?_pairs hkeys]

end DeviceLayout.Toml
