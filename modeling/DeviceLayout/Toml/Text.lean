import DeviceLayout.Scanning

/-!
# Strings in TOML

Strings stand between double quotes, where a backslash escapes, or between single quotes,
where it does not. Between three quotes of either sort a string may run over several lines:
a line break right after the opening quotes is dropped, one or two quotes may stand inside, and
between double quotes a backslash at the end of a line drops the white space up to the next
text. No string holds control characters other than tabs and, in long strings, line breaks.
-/

namespace DeviceLayout.Toml

/-- The two sorts of quotes. -/
inductive Quote where
  | double
  | single
  deriving DecidableEq, Repr

/-- The character of a quote. -/
def Quote.mark : Quote → Char
  | double => '"'
  | single => '\''

/-- Whether a backslash escapes between these quotes. -/
def Quote.escapes : Quote → Bool
  | double => true
  | single => false

/-- A blank within a line. -/
def isBlank (c : Char) : Bool :=
  c = ' ' || c = '\t'

/-- A character that text and comments may hold: a tab, or no control character. -/
def isText (c : Char) : Bool :=
  c = '\t' || (0x20 ≤ c.toNat && c.toNat ≠ 0x7F)

/-! ## Escapes -/

/-- The character whose code point is given in hexadecimal digits. -/
def codePoint? (digits : List Char) : Option Char :=
  ((ofDigits? 16 digits).filter fun n => n.isValidChar).map Char.ofNat

/-- The character whose code point is given in `count` digits, and what follows. -/
def scanCodePoint (count : Nat) (text : List Char) : Option (Char × List Char) :=
  if text.length < count then none
  else (codePoint? (text.take count)).map fun c => (c, text.drop count)

/-- The character that an escape names after its backslash, and what follows. -/
def scanEscape : List Char → Option (Char × List Char)
  | 'b' :: rest => some ('\x08', rest)
  | 't' :: rest => some ('\t', rest)
  | 'n' :: rest => some ('\n', rest)
  | 'f' :: rest => some ('\x0c', rest)
  | 'r' :: rest => some ('\r', rest)
  | '"' :: rest => some ('"', rest)
  | '\\' :: rest => some ('\\', rest)
  | 'u' :: rest => scanCodePoint 4 rest
  | 'U' :: rest => scanCodePoint 8 rest
  | _ => none

theorem length_of_scanCodePoint {count : Nat} {text rest : List Char} {c : Char}
    (h : scanCodePoint count text = some (c, rest)) : rest.length ≤ text.length := by
  unfold scanCodePoint at h
  split at h
  · simp at h
  · obtain ⟨c', -, h⟩ := Option.map_eq_some_iff.mp h
    cases h
    rw [List.length_drop]
    omega

/-- An escape takes up some text, so scanning a string comes to an end. -/
theorem length_of_scanEscape {text rest : List Char} {c : Char}
    (h : scanEscape text = some (c, rest)) : rest.length < text.length := by
  unfold scanEscape at h
  split at h
  case h_8 => exact Nat.lt_succ_of_le (length_of_scanCodePoint h)
  case h_9 => exact Nat.lt_succ_of_le (length_of_scanCodePoint h)
  case h_10 => simp at h
  all_goals
    cases h
    simp

/-! ## Strings on one line -/

/-- The rest of a string on one line after its opening quote, and what follows its closing
quote. -/
def scanLine (q : Quote) (text : List Char) : Option (List Char × List Char) :=
  match text with
  | [] => none
  | c :: rest =>
    if c = q.mark then some ([], rest)
    else if c = '\\' && q.escapes then
      match _h : scanEscape rest with
      | none => none
      | some (e, after) => (scanLine q after).map fun (s, after) => (e :: s, after)
    else if isText c then (scanLine q rest).map fun (s, after) => (c :: s, after)
    else none
termination_by text.length
decreasing_by
  · exact Nat.lt_succ_of_lt (length_of_scanEscape _h)
  · simp

/-! ## Strings over several lines -/

/-- What follows a line break at the front of a text. -/
def afterBreak? : List Char → Option (List Char)
  | '\n' :: rest => some rest
  | '\r' :: '\n' :: rest => some rest
  | _ => none

theorem length_of_afterBreak? {text rest : List Char} (h : afterBreak? text = some rest) :
    rest.length < text.length := by
  unfold afterBreak? at h
  split at h
  · cases h
    simp
  · cases h
    simp only [List.length_cons]
    omega
  · simp at h

/-- The text without blanks and line breaks at its front. -/
def dropSpace (text : List Char) : List Char :=
  match text with
  | '\n' :: rest => dropSpace rest
  | '\r' :: '\n' :: rest => dropSpace rest
  | ' ' :: rest => dropSpace rest
  | '\t' :: rest => dropSpace rest
  | text => text

/-- What follows a backslash at the end of a line: the next text, blanks and line breaks
dropped. -/
def afterJoin? (text : List Char) : Option (List Char) :=
  (afterBreak? (text.dropWhile isBlank)).map dropSpace

theorem length_dropSpace_le (text : List Char) : (dropSpace text).length ≤ text.length := by
  fun_induction dropSpace text with
  | case5 text => exact Nat.le_refl _
  | _ => simp only [List.length_cons]; omega

/-- A backslash at the end of a line takes up some text, with the white space it joins over. -/
theorem length_of_afterJoin? {text rest : List Char} (h : afterJoin? text = some rest) :
    rest.length < text.length := by
  obtain ⟨after, ha, rfl⟩ := Option.map_eq_some_iff.mp h
  have h₁ := length_of_afterBreak? ha
  have h₂ := length_dropSpace_le after
  have h₃ := (List.dropWhile_sublist isBlank (l := text)).length_le
  omega

/-- How many quotes stand at the front of a text. -/
def countQuotes (q : Quote) (text : List Char) : Nat :=
  (text.takeWhile fun c => c = q.mark).length

/-- The rest of a string over several lines, and what follows its closing quotes. The string
ends at three quotes; two more right before them belong to it. -/
def scanBlock (q : Quote) (text : List Char) : Option (List Char × List Char) :=
  match text with
  | [] => none
  | c :: rest =>
    if c = q.mark then
      let count := min (countQuotes q (c :: rest)) 5
      if 3 ≤ count then some (List.replicate (count - 3) q.mark, (c :: rest).drop count)
      else (scanBlock q rest).map fun (s, after) => (c :: s, after)
    else if c = '\\' && q.escapes then
      match _hj : afterJoin? rest with
      | some after => scanBlock q after
      | none =>
        match _he : scanEscape rest with
        | none => none
        | some (e, after) => (scanBlock q after).map fun (s, after) => (e :: s, after)
    else
      match _hb : afterBreak? (c :: rest) with
      | some after => (scanBlock q after).map fun (s, after) => ('\n' :: s, after)
      | none =>
        if isText c then (scanBlock q rest).map fun (s, after) => (c :: s, after) else none
termination_by text.length
decreasing_by
  · simp
  · exact Nat.lt_succ_of_lt (length_of_afterJoin? _hj)
  · exact Nat.lt_succ_of_lt (length_of_scanEscape _he)
  · exact length_of_afterBreak? _hb
  · simp

/-- A string over several lines from its start, where one line break is dropped. -/
def scanBlockStart (q : Quote) (text : List Char) : Option (List Char × List Char) :=
  scanBlock q ((afterBreak? text).getD text)

end DeviceLayout.Toml
