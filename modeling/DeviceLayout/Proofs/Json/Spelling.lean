import DeviceLayout.Json.Token
import Mathlib.Data.List.Basic

/-!
# Numbers and strings as they are written

An escaped text names the text (`Json.unescape_escape`). Scanning takes exactly what was written:
an escaped text up to the quote behind it (`Json.scanString_escape`), a numeral up to the first
character that can follow a value (`Json.scanNumber_numeral`).
-/

namespace DeviceLayout.Json

/-! ## Escapes -/

/-- The four digits that spell a control character. -/
theorem ofDigits?_control {n : Nat} (hn : n < 0x20) :
    ofDigits? 16 ['0', '0', Nat.digitChar (n / 16), Nat.digitChar (n % 16)] = some n := by
  have hall : ∀ n < 0x20,
      ofDigits? 16 ['0', '0', Nat.digitChar (n / 16), Nat.digitChar (n % 16)] = some n := by
    decide
  exact hall n hn

/-- The three ways in which a character is written. -/
inductive Escaped (c : Char) : List Char → Prop
  | simple {e : Char} (he : e ≠ 'u') (h : simpleEscape? e = some c) : Escaped c ['\\', e]
  | control (h : c.toNat < 0x20) : Escaped c
      ['\\', 'u', '0', '0', Nat.digitChar (c.toNat / 16), Nat.digitChar (c.toNat % 16)]
  | plain (hquote : c ≠ '"') (hbackslash : c ≠ '\\') (hcontrol : isControl c = false) :
      Escaped c [c]

/-- Every character is written in one of these ways. -/
theorem escaped_escapeChar (c : Char) : Escaped c (escapeChar c) := by
  unfold escapeChar
  split
  case h_8 hquote hbackslash _ _ _ _ _ =>
    split
    · next hcontrol => exact .control (by simpa [isControl] using hcontrol)
    · next hcontrol => exact .plain hquote hbackslash (by simpa using hcontrol)
  all_goals exact .simple (by decide) rfl

/-! ### Reading back -/

/-- A spelled character is read back, whatever follows. -/
theorem unescape_escaped {c : Char} {spelling : List Char} (h : Escaped c spelling)
    (rest : List Char) : unescape (spelling ++ rest) = (unescape rest).map (c :: ·) := by
  cases h with
  | simple he h => simp [unescape, h, he]
  | control h =>
    have hunit : Char.ofNat c.toNat = c := Char.ofNat_toNat c
    have hhigh : isHighSurrogate c.toNat = false := by simp [isHighSurrogate]; omega
    have hlow : isLowSurrogate c.toNat = false := by simp [isLowSurrogate]; omega
    simp only [List.cons_append, List.nil_append]
    rw [unescape]
    simp [ofDigits?_control h, hhigh, hlow]
  | plain _ hbackslash _ =>
    rw [List.singleton_append, unescape.eq_def]
    split <;> simp_all

/-- An escaped text names the text. -/
theorem unescape_escape (text : List Char) : unescape (escape text) = some text := by
  induction text with
  | nil => simp [escape, unescape]
  | cons c rest ih =>
    rw [escape] at ih
    rw [escape, List.flatMap_cons, unescape_escaped (escaped_escapeChar c), ih, Option.map_some]

/-! ### Scanning -/

/-- Scanning a string takes the spelling of a character as it stands. -/
theorem scanString_escaped {c : Char} {spelling : List Char} (h : Escaped c spelling)
    (text : List Char) : scanString (spelling ++ text) =
      (scanString text).map fun (raw, rest) => (spelling ++ raw, rest) := by
  cases h with
  | simple he h => simp [scanString, h, he]
  | control h =>
    have hzero : isDigitOf 16 '0' = true := by decide
    have hhigh : isDigitOf 16 (Nat.digitChar (c.toNat / 16)) = true :=
      isDigitOf_digitChar (by decide) (by omega)
    have hlow : isDigitOf 16 (Nat.digitChar (c.toNat % 16)) = true :=
      isDigitOf_digitChar (by decide) (by omega)
    simp only [List.cons_append, List.nil_append]
    rw [scanString]
    simp [hzero, hhigh, hlow]
  | plain hquote hbackslash hcontrol =>
    rw [List.singleton_append, scanString.eq_def]
    split <;> simp_all

/-- A string ends at the quote behind its escaped text. -/
theorem scanString_escape (text rest : List Char) :
    scanString (escape text ++ '"' :: rest) = some (escape text, rest) := by
  induction text with
  | nil => simp [escape, scanString]
  | cons c more ih =>
    rw [escape] at ih
    rw [escape, List.flatMap_cons, List.append_assoc, scanString_escaped (escaped_escapeChar c), ih,
      Option.map_some]

/-- The characters that follow a value in a text: white space, commas and closing brackets. -/
def isDelimiter (c : Char) : Bool :=
  isSpace c || c = ',' || c = ']' || c = '}'

/-- Nothing follows, or something that ends a value. -/
def Delimited (rest : List Char) : Prop :=
  ∀ c ∈ rest.head?, isDelimiter c = true

theorem Delimited.nil : Delimited [] :=
  fun _ hc => nomatch hc

theorem Delimited.cons {c : Char} (hc : isDelimiter c = true) (rest : List Char) :
    Delimited (c :: rest) :=
  fun _ h => Option.mem_some.mp h ▸ hc

/-- No digit follows a value, so a numeral does not go on. -/
theorem isDigitOf_of_isDelimiter {c : Char} (hc : isDelimiter c = true) :
    isDigitOf 10 c = false := by
  simp only [isDelimiter, isSpace, Bool.or_eq_true, decide_eq_true_eq] at hc
  rcases hc with (((((rfl | rfl) | rfl) | rfl) | rfl) | rfl) | rfl <;> decide

/-- Digits are scanned up to what can follow a value. -/
theorem scanDigits_append {digits rest : List Char} (hdigits : ∀ c ∈ digits, isDigitOf 10 c = true)
    (hrest : Delimited rest) : scanDigits (digits ++ rest) = (digits, rest) := by
  have hnone : rest.takeWhile (isDigitOf 10) = [] ∧ rest.dropWhile (isDigitOf 10) = rest := by
    cases rest with
    | nil => exact ⟨rfl, rfl⟩
    | cons c more =>
      have hc := isDigitOf_of_isDelimiter (hrest c rfl)
      simp [hc]
  rw [scanDigits, List.takeWhile_append_of_pos hdigits, List.dropWhile_append_of_pos hdigits,
    hnone.1, hnone.2, List.append_nil]

/-- A whole number has neither a fraction nor an exponent behind it. -/
theorem scanFraction_of_delimited {rest : List Char} (hrest : Delimited rest) :
    scanFraction rest = some ([], rest) := by
  unfold scanFraction
  split
  · next more => exact absurd (hrest '.' rfl) (by decide)
  · rfl

theorem scanExponent_of_delimited {rest : List Char} (hrest : Delimited rest) :
    scanExponent rest = some ([], rest) := by
  cases rest with
  | nil => rfl
  | cons c more =>
    have hc := hrest c rfl
    have hmark : ¬ (c = 'e' || c = 'E') = true := by
      intro hmark
      simp only [Bool.or_eq_true, decide_eq_true_eq] at hmark
      rcases hmark with rfl | rfl <;> exact absurd hc (by decide)
    exact if_neg hmark

/-- A numeral is the whole part of a number : it does not start with a zero, unless it is the zero.
-/
theorem scanWhole_numeral (n : Nat) {rest : List Char} (hrest : Delimited rest) :
    scanWhole (numeral n ++ rest) = some (numeral n, rest) := by
  rcases Nat.eq_zero_or_pos n with rfl | hn
  · rfl
  · have hdigits : scanDigits (numeral n ++ rest) = (numeral n, rest) :=
      scanDigits_append (fun _ hc => isDigitOf_of_mem_numeral hc) hrest
    unfold scanWhole
    split
    · next more heq =>
      have hhead := head?_numeral_ne_zero hn
      rw [← List.head?_append_of_ne_nil _ (numeral_ne_nil n), heq] at hhead
      exact absurd rfl hhead
    · rw [scanSomeDigits, hdigits]
      simp [numeral_ne_nil n]

/-- A numeral ends at what can follow a value. -/
theorem scanNumber_numeral (n : Nat) {rest : List Char} (hrest : Delimited rest) :
    scanNumber (numeral n ++ rest) = some (numeral n, rest) := by
  unfold scanNumber
  split
  · next more heq =>
    obtain ⟨d, ds, hcons, hd⟩ := exists_numeral_eq_cons n
    rw [hcons, List.cons_append] at heq
    exact absurd ((List.cons.inj heq).1 ▸ hd) (by decide)
  · simp [scanMagnitude, scanWhole_numeral n hrest, scanFraction_of_delimited hrest,
      scanExponent_of_delimited hrest]

end DeviceLayout.Json
