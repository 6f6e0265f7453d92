import DeviceLayout.Toml.Token
import Mathlib.Data.List.Basic

/-!
# Words and strings as they are written

A word is scanned up to the first character that belongs to none (`Toml.scanToken_word`), a string
between double quotes up to the quote behind its escaped text (`Toml.scanToken_quote`). A numeral is
an integer if 64 bits hold it (`Toml.ofWord?_numeral`).
-/

namespace DeviceLayout.Toml

variable {text word rest : List Char}

/-! ## Words -/

/-- What follows a word : nothing, or a character of no word. After a space there is no digit, with
which a date would go on. -/
structure EndsWord (rest : List Char) : Prop where
  head : ∀ c ∈ rest.head?, isWordChar c = false
  time : ∀ {c more}, rest = ' ' :: c :: more → isDigitOf 10 c = false

theorem EndsWord.cons {c : Char} (hc : isWordChar c = false) (hspace : c ≠ ' ')
    (rest : List Char) : EndsWord (c :: rest) :=
  ⟨fun _ hd => Option.mem_some.mp hd ▸ hc, fun h => absurd (List.cons.inj h).1 hspace⟩

/-- A word is scanned as a whole, and no more than the word. -/
theorem scanWord_append (hword : ∀ c ∈ word, isWordChar c = true) (hrest : EndsWord rest) :
    scanWord (word ++ rest) = (word, rest) := by
  have hfront : rest.takeWhile isWordChar = [] ∧ rest.dropWhile isWordChar = rest := by
    cases rest with
    | nil => exact ⟨rfl, rfl⟩
    | cons c more => simp [hrest.head c rfl]
  rw [scanWord, List.takeWhile_append_of_pos hword, List.dropWhile_append_of_pos hword, hfront.1,
    hfront.2, List.append_nil]
  split
  · next c more => simp [hrest.time rfl]
  · rfl

/-- A word at the front of a text is its first token. -/
theorem scanToken_word (hne : word ≠ []) (hword : ∀ c ∈ word, isWordChar c = true)
    (hrest : EndsWord rest) : scanToken (word ++ rest) = some (.word word, rest) := by
  have hscan := scanWord_append hword hrest
  obtain ⟨c, more, rfl⟩ := List.exists_cons_of_ne_nil hne
  have hc := hword c List.mem_cons_self
  unfold scanToken
  split
  case h_13 heq =>
    obtain ⟨rfl, rfl⟩ := List.cons.inj heq
    have hblank : isBlank c = false := by
      cases hblank : isBlank c with
      | false => rfl
      | true =>
        simp only [isBlank, Bool.or_eq_true, decide_eq_true_eq] at hblank
        rcases hblank with rfl | rfl <;> exact absurd hc (by decide)
    rw [List.cons_append] at hscan
    simp [hblank, hc, hscan]
  case h_14 heq => cases heq
  all_goals
    next heq => exact absurd ((List.cons.inj heq).1 ▸ hc) (by decide)

/-! ## Numerals -/

/-- A numeral is a word. -/
theorem isWordChar_of_isDigitOf {c : Char} (hc : isDigitOf 10 c = true) : isWordChar c = true := by
  simp [isWordChar, isKeyChar, Char.isAlphanum, isDigit_of_isDigitOf hc]

/-- Digits without underscores between them are taken as they are. -/
theorem ungroup?_of_digits {radix : Nat} (hne : word ≠ [])
    (hdigits : ∀ c ∈ word, isDigitOf radix c = true) (hunder : isDigitOf radix '_' = false) :
    ungroup? radix word = some word := by
  fun_induction ungroup? radix word with
  | case1 => exact absurd rfl hne
  | case2 c hc => rfl
  | case3 c hc => exact absurd (hdigits c List.mem_cons_self) hc
  | case4 c rest hc ih => simp [hdigits '_' (by simp)] at hunder
  | case5 c rest hc => exact absurd (hdigits c List.mem_cons_self) hc
  | case6 c rest hrest _ hc ih =>
    rw [ih hrest fun d hd => hdigits d (List.mem_cons_of_mem c hd), Option.map_some]
  | case7 c rest _ _ hc => exact absurd (hdigits c List.mem_cons_self) hc

section

variable {n : Nat}

theorem splitSign_numeral : splitSign (numeral n) = (false, numeral n) := by
  unfold splitSign
  split
  · next heq => exact absurd (heq ▸ List.mem_cons_self) (not_mem_numeral (by decide))
  · next heq => exact absurd (heq ▸ List.mem_cons_self) (not_mem_numeral (by decide))
  · rfl

/-- No numeral but that of 0 starts with a zero, so all of them are well-formed whole numbers. -/
theorem wholeDigits?_numeral : wholeDigits? (numeral n) = some (numeral n) := by
  have hungroup : ungroup? 10 (numeral n) = some (numeral n) :=
    ungroup?_of_digits (numeral_ne_nil n) (fun _ hc => isDigitOf_of_mem_numeral hc) (by decide)
  rw [wholeDigits?, hungroup, Option.filter_some_pos]
  rcases Nat.eq_zero_or_pos n with rfl | hn
  · rfl
  · simp [head?_numeral_ne_zero hn]

/-- A numeral is read as decimal : it has no radix mark behind a zero. -/
theorem integer?_numeral (hn : n < integerBound) : integer? (numeral n) = some (n : Int) := by
  have hdecimal : decimal? (numeral n) = some (n : Int) := by
    simp [decimal?, splitSign_numeral, wholeDigits?_numeral, ofDigits?_numeral, hn]
  have hradix {c : Char} {rest : List Char} (hc : isDigitOf 10 c = false) :
      numeral n ≠ '0' :: c :: rest := fun heq =>
    not_mem_numeral hc (heq ▸ List.mem_cons_of_mem _ List.mem_cons_self)
  unfold integer?
  split
  · next heq => exact absurd heq (hradix (by decide))
  · next heq => exact absurd heq (hradix (by decide))
  · next heq => exact absurd heq (hradix (by decide))
  · exact hdecimal

/-- A numeral is an integer. -/
theorem ofWord?_numeral (hn : n < integerBound) : ofWord? (numeral n) = some (integer n) := by
  have htrue : numeral n ≠ ['t', 'r', 'u', 'e'] := fun h =>
    not_mem_numeral (n := n) (c := 't') (by decide) (by simp [h])
  have hfalse : numeral n ≠ ['f', 'a', 'l', 's', 'e'] := fun h =>
    not_mem_numeral (n := n) (c := 'f') (by decide) (by simp [h])
  rw [ofWord?, if_neg htrue, if_neg hfalse, integer?_numeral hn]

end

/-! ## Strings -/

/-- A character between double quotes. -/
def escapeChar (c : Char) : List Char :=
  if c = '"' || c = '\\' then ['\\', c]
  else if isText c then [c]
  else ['\\', 'u', '0', '0', Nat.digitChar (c.toNat / 16), Nat.digitChar (c.toNat % 16)]

/-- A text between double quotes. -/
def quote (s : String) : List Char :=
  '"' :: (s.toList.flatMap escapeChar ++ ['"'])

/-- Characters that may not stand in a string are spelled by their four digits. -/
theorem codePoint?_of_not_isText {c : Char} (hc : isText c = false) :
    codePoint? ['0', '0', Nat.digitChar (c.toNat / 16), Nat.digitChar (c.toNat % 16)] = some c := by
  have hall : ∀ n < 0x80, (n < 0x20 ∨ n = 0x7F) →
      codePoint? ['0', '0', Nat.digitChar (n / 16), Nat.digitChar (n % 16)] =
        some (Char.ofNat n) := by
    decide
  have hn : c.toNat < 0x20 ∨ c.toNat = 0x7F := by
    simp [isText] at hc
    omega
  rw [hall c.toNat (by omega) hn, Char.ofNat_toNat]

theorem scanLine_escape {c : Char} (h : scanEscape text = some (c, rest)) :
    scanLine .double ('\\' :: text) =
      (scanLine .double rest).map fun (s, rest) => (c :: s, rest) := by
  rw [scanLine, if_neg (by decide), if_pos (by decide)]
  split
  · next hnone => cases h.symm.trans hnone
  · next hsome =>
    cases h.symm.trans hsome
    rfl

/-- Every character is read back from its spelling, escaped or not. -/
theorem scanLine_escapeChar (c : Char) (text : List Char) :
    scanLine .double (escapeChar c ++ text) =
      (scanLine .double text).map fun (s, rest) => (c :: s, rest) := by
  unfold escapeChar
  split
  · next h =>
    refine scanLine_escape ?_
    rcases (by simpa using h) with rfl | rfl <;> rfl
  · next hspecial =>
    obtain ⟨hquote, hbackslash⟩ : c ≠ '"' ∧ c ≠ '\\' := by simpa using hspecial
    split
    · next htext => simp [scanLine, Quote.mark, hquote, hbackslash, htext]
    · next htext =>
      have hcode := codePoint?_of_not_isText (c := c) (by simpa using htext)
      have hescape : scanEscape ('u' :: '0' :: '0' :: Nat.digitChar (c.toNat / 16) ::
          Nat.digitChar (c.toNat % 16) :: text) = some (c, text) := by
        simp [scanEscape, scanCodePoint, hcode]
      exact scanLine_escape hescape

/-- An escaped text is read back up to the quote behind it. -/
theorem scanLine_escaped (text rest : List Char) :
    scanLine .double (text.flatMap escapeChar ++ '"' :: rest) = some (text, rest) := by
  induction text with
  | nil => simp [scanLine, Quote.mark]
  | cons c more ih =>
    rw [List.flatMap_cons, List.append_assoc, scanLine_escapeChar, ih, Option.map_some]

/-- No character is written with a quote in front. -/
theorem exists_escapeChar_eq_cons (c : Char) : ∃ d ds, escapeChar c = d :: ds ∧ d ≠ '"' := by
  unfold escapeChar
  split
  · exact ⟨'\\', _, rfl, by decide⟩
  · next hspecial =>
    split
    · exact ⟨c, _, rfl, fun h => hspecial (by simp [h])⟩
    · exact ⟨'\\', _, rfl, by decide⟩

/-- A string ends at the quote behind its text, unless the text is empty and a third quote makes it
a string over several lines. -/
theorem scanToken_quote (s : String) (hrest : rest.head? ≠ some '"') :
    scanToken (quote s ++ rest) = some (.line s.toList, rest) := by
  have hquotes (more : List Char) :
      s.toList.flatMap escapeChar ++ '"' :: rest ≠ '"' :: '"' :: more := fun heq => by
    cases hs : s.toList with
    | nil => simp_all
    | cons c cs =>
      obtain ⟨d, ds, hcons, hd⟩ := exists_escapeChar_eq_cons c
      simp [hs, hcons, hd] at heq
  rw [quote, List.cons_append, List.append_assoc, List.singleton_append, scanToken,
    scanLine_escaped, Option.map_some]
  exact hquotes

end DeviceLayout.Toml
