import DeviceLayout.Toml.Scalar
import DeviceLayout.Toml.Text

/-!
# TOML tokens

A document is scanned into line breaks, blanks, words, strings and punctuation. A word is a run
of the characters that keys, numbers and dates are made of; which of these it is, and whether it
is a well-formed one, is decided where it stands. A date and a time with one space between them
are one word. Comments are dropped with the check that they hold text only.
-/

namespace DeviceLayout.Toml

/-- The tokens of a document. -/
inductive Token where
  /-- The end of a line. -/
  | newline
  /-- Blanks within a line. -/
  | blank
  /-- A key, a number, a date, or several keys with dots between them. -/
  | word (w : List Char)
  /-- A string on one line. -/
  | line (s : List Char)
  /-- A string that may run over several lines. -/
  | block (s : List Char)
  | equals
  | comma
  | openBracket
  | closeBracket
  | openBrace
  | closeBrace
  deriving DecidableEq, Repr

/-- A character of a bare key. -/
def isKeyChar (c : Char) : Bool :=
  c.isAlphanum || c = '_' || c = '-'

/-- A character of a word. -/
def isWordChar (c : Char) : Bool :=
  isKeyChar c || c = '.' || c = '+' || c = ':'

/-- The word at the front of a text, and the rest. After a date, one space and a digit the word
goes on. -/
def scanWord (text : List Char) : List Char × List Char :=
  let word := text.takeWhile isWordChar
  let rest := text.dropWhile isWordChar
  match rest with
  | ' ' :: c :: more =>
    if isDate word && isDigitOf 10 c then
      (word ++ ' ' :: (c :: more).takeWhile isWordChar, (c :: more).dropWhile isWordChar)
    else (word, rest)
  | _ => (word, rest)

/-- The token at the front of a text, and the rest. -/
def scanToken : List Char → Option (Token × List Char)
  | '\n' :: rest => some (.newline, rest)
  | '\r' :: '\n' :: rest => some (.newline, rest)
  | '=' :: rest => some (.equals, rest)
  | ',' :: rest => some (.comma, rest)
  | '[' :: rest => some (.openBracket, rest)
  | ']' :: rest => some (.closeBracket, rest)
  | '{' :: rest => some (.openBrace, rest)
  | '}' :: rest => some (.closeBrace, rest)
  | '"' :: '"' :: '"' :: rest =>
    (scanBlockStart .double rest).map fun (s, rest) => (.block s, rest)
  | '"' :: rest => (scanLine .double rest).map fun (s, rest) => (.line s, rest)
  | '\'' :: '\'' :: '\'' :: rest =>
    (scanBlockStart .single rest).map fun (s, rest) => (.block s, rest)
  | '\'' :: rest => (scanLine .single rest).map fun (s, rest) => (.line s, rest)
  | c :: rest =>
    if isBlank c then some (.blank, rest.dropWhile isBlank)
    else if isWordChar c then
      let (word, rest) := scanWord (c :: rest)
      some (.word word, rest)
    else none
  | [] => none

/-! ## Every token takes up some text -/

theorem length_dropWhile_le (p : Char → Bool) (text : List Char) :
    (text.dropWhile p).length ≤ text.length :=
  (List.dropWhile_sublist p).length_le

/-- A string on one line takes up at least its closing quote. -/
theorem length_of_scanLine {q : Quote} {text s rest : List Char}
    (h : scanLine q text = some (s, rest)) : rest.length < text.length := by
  fun_induction scanLine q text generalizing s rest with
  | case1 => simp at h
  | case2 r =>
    cases h
    simp
  | case3 => simp at h
  | case4 c r _ _ e after he ih =>
    obtain ⟨⟨_, _⟩, hs, h⟩ := Option.map_eq_some_iff.mp h
    cases h
    have := ih hs
    have := length_of_scanEscape he
    simp only [List.length_cons]
    omega
  | case5 c r _ _ _ ih =>
    obtain ⟨⟨_, _⟩, hs, h⟩ := Option.map_eq_some_iff.mp h
    cases h
    have := ih hs
    simp only [List.length_cons]
    omega
  | case6 => simp at h

/-- A string over several lines takes up at least its closing quotes. -/
theorem length_of_scanBlock {q : Quote} {text s rest : List Char}
    (h : scanBlock q text = some (s, rest)) : rest.length < text.length := by
  fun_induction scanBlock q text generalizing s rest with
  | case1 => simp at h
  | case2 r count =>
    cases h
    rw [List.length_drop]
    simp only [List.length_cons]
    omega
  | case3 r count =>
    rename_i ih
    obtain ⟨⟨_, _⟩, hs, h⟩ := Option.map_eq_some_iff.mp h
    cases h
    have := ih hs
    simp only [List.length_cons]
    omega
  | case4 c r _ _ after hj ih =>
    have := ih h
    have := length_of_afterJoin? hj
    simp only [List.length_cons]
    omega
  | case5 => simp at h
  | case6 c r _ _ _ e after he ih =>
    obtain ⟨⟨_, _⟩, hs, h⟩ := Option.map_eq_some_iff.mp h
    cases h
    have := ih hs
    have := length_of_scanEscape he
    simp only [List.length_cons]
    omega
  | case7 c r _ _ after hb ih =>
    obtain ⟨⟨_, _⟩, hs, h⟩ := Option.map_eq_some_iff.mp h
    cases h
    have := ih hs
    have := length_of_afterBreak? hb
    omega
  | case8 c r _ _ _ _ ih =>
    obtain ⟨⟨_, _⟩, hs, h⟩ := Option.map_eq_some_iff.mp h
    cases h
    have := ih hs
    simp only [List.length_cons]
    omega
  | case9 => simp at h

theorem length_of_scanBlockStart {q : Quote} {text s rest : List Char}
    (h : scanBlockStart q text = some (s, rest)) : rest.length < text.length := by
  unfold scanBlockStart at h
  have := length_of_scanBlock h
  cases hb : afterBreak? text with
  | none => simpa [hb] using this
  | some after =>
    have := length_of_afterBreak? hb
    simp only [hb, Option.getD_some] at *
    omega

/-- A word takes up its first character, whether or not a date goes on behind a space. -/
theorem length_scanWord_le (c : Char) (text : List Char) (hc : isWordChar c = true) :
    (scanWord (c :: text)).2.length ≤ text.length := by
  have hd : ((c :: text).dropWhile isWordChar).length ≤ text.length := by
    rw [List.dropWhile_cons, if_pos hc]
    exact length_dropWhile_le _ _
  unfold scanWord
  dsimp only
  split
  · next d more heq =>
    rw [heq] at hd
    split
    · have := length_dropWhile_le isWordChar (d :: more)
      simp only [List.length_cons] at hd this ⊢
      omega
    · rw [heq]
      exact hd
  · exact hd

/-- Every token takes up some text, which is why scanning ends. -/
theorem length_of_scanToken {text rest : List Char} {t : Token}
    (h : scanToken text = some (t, rest)) : rest.length < text.length := by
  unfold scanToken at h
  split at h
  case h_9 | h_11 =>
    obtain ⟨⟨_, _⟩, hs, he⟩ := Option.map_eq_some_iff.mp h
    cases he
    have := length_of_scanBlockStart hs
    simp only [List.length_cons]
    omega
  case h_10 | h_12 =>
    obtain ⟨⟨_, _⟩, hs, he⟩ := Option.map_eq_some_iff.mp h
    cases he
    have := length_of_scanLine hs
    simp only [List.length_cons]
    omega
  case h_13 c r _ _ _ _ _ _ _ _ _ _ _ _ =>
    split at h
    · cases h
      exact Nat.lt_succ_of_le (length_dropWhile_le _ _)
    · split at h
      · next hc =>
        cases h
        exact Nat.lt_succ_of_le (length_scanWord_le _ _ hc)
      · simp at h
  case h_14 => simp at h
  all_goals
    cases h
    simp only [List.length_cons]
    omega

/-- The tokens of a document, comments left out. -/
def scan (text : List Char) : Option (List Token) :=
  match text with
  | [] => some []
  | '#' :: rest => scan (rest.dropWhile isText)
  | c :: rest =>
    match _h : scanToken (c :: rest) with
    | none => none
    | some (t, after) => (scan after).map (t :: ·)
termination_by text.length
decreasing_by
  · exact Nat.lt_succ_of_le (length_dropWhile_le _ _)
  · exact length_of_scanToken _h

theorem scan_nil : scan [] = some [] := by
  rw [scan]

/-- A token is taken from the front where no comment starts. -/
theorem scan_of_scanToken {text rest : List Char} {t : Token} (hcomment : text.head? ≠ some '#')
    (h : scanToken text = some (t, rest)) : scan text = (scan rest).map (t :: ·) := by
  cases text with
  | nil => cases h
  | cons c more =>
    have hc : c ≠ '#' := fun heq => hcomment (congrArg some heq)
    rw [scan]
    · split
      · next hnone => cases h.symm.trans hnone
      · next hsome =>
        cases h.symm.trans hsome
        rfl
    · exact hc

end DeviceLayout.Toml
