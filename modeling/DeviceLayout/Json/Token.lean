import DeviceLayout.Json.Basic

/-!
# JSON tokens

A text is a row of tokens with white space between them. Strings and numbers are taken as
spelled; scanning checks that the spelling follows the grammar: escapes are complete, no
control character stands in a string, numbers have no leading zeros and a digit wherever the
grammar wants one.
-/

namespace DeviceLayout.Json

/-- The tokens of JSON text. -/
inductive Token where
  | openBracket
  | closeBracket
  | openBrace
  | closeBrace
  | comma
  | colon
  | null
  | bool (b : Bool)
  | number (digits : List Char)
  | string (raw : List Char)
  deriving DecidableEq, Repr

/-- The white space of JSON. -/
def isSpace (c : Char) : Bool :=
  c = ' ' || c = '\t' || c = '\n' || c = '\r'

/-! ## Strings -/

/-- The rest of a string after its opening quote, as spelled, and what follows its closing
quote. -/
def scanString : List Char → Option (List Char × List Char)
  | [] => none
  | '"' :: rest => some ([], rest)
  | '\\' :: 'u' :: a :: b :: c :: d :: rest =>
    if [a, b, c, d].all (isDigitOf 16) then
      (scanString rest).map fun (raw, rest) => ('\\' :: 'u' :: a :: b :: c :: d :: raw, rest)
    else none
  | '\\' :: e :: rest =>
    if (simpleEscape? e).isSome then
      (scanString rest).map fun (raw, rest) => ('\\' :: e :: raw, rest)
    else none
  | c :: rest =>
    if isControl c || c = '\\' then none
    else (scanString rest).map fun (raw, rest) => (c :: raw, rest)

/-! ## Numbers -/

/-- The digits at the front of a text, and the rest. -/
def scanDigits (text : List Char) : List Char × List Char :=
  (text.takeWhile (isDigitOf 10), text.dropWhile (isDigitOf 10))

/-- At least one digit. -/
def scanSomeDigits (text : List Char) : Option (List Char × List Char) :=
  let (digits, rest) := scanDigits text
  if digits.isEmpty then none else some (digits, rest)

/-- The whole part of a number: a zero on its own, or digits that do not start with one. -/
def scanWhole : List Char → Option (List Char × List Char)
  | '0' :: rest => some (['0'], rest)
  | text => scanSomeDigits text

/-- The fraction of a number, if a point follows. -/
def scanFraction : List Char → Option (List Char × List Char)
  | '.' :: rest => (scanSomeDigits rest).map fun (digits, rest) => ('.' :: digits, rest)
  | text => some ([], text)

/-- The exponent of a number, if its mark follows. -/
def scanExponent : List Char → Option (List Char × List Char)
  | e :: rest =>
    if e = 'e' || e = 'E' then
      match rest with
      | sign :: digits =>
        if sign = '+' || sign = '-' then
          (scanSomeDigits digits).map fun (digits, rest) => (e :: sign :: digits, rest)
        else (scanSomeDigits rest).map fun (digits, rest) => (e :: digits, rest)
      | [] => none
    else some ([], e :: rest)
  | [] => some ([], [])

/-- A number without its sign. -/
def scanMagnitude (text : List Char) : Option (List Char × List Char) := do
  let (whole, rest) ← scanWhole text
  let (fraction, rest) ← scanFraction rest
  let (exponent, rest) ← scanExponent rest
  return (whole ++ fraction ++ exponent, rest)

/-- A number as spelled, and what follows it. -/
def scanNumber : List Char → Option (List Char × List Char)
  | '-' :: rest => (scanMagnitude rest).map fun (digits, rest) => ('-' :: digits, rest)
  | text => scanMagnitude text

/-! ## Tokens -/

/-- The token at the front of a text that starts with no white space, and the rest. -/
def scanToken : List Char → Option (Token × List Char)
  | '[' :: rest => some (.openBracket, rest)
  | ']' :: rest => some (.closeBracket, rest)
  | '{' :: rest => some (.openBrace, rest)
  | '}' :: rest => some (.closeBrace, rest)
  | ',' :: rest => some (.comma, rest)
  | ':' :: rest => some (.colon, rest)
  | 'n' :: 'u' :: 'l' :: 'l' :: rest => some (.null, rest)
  | 't' :: 'r' :: 'u' :: 'e' :: rest => some (.bool true, rest)
  | 'f' :: 'a' :: 'l' :: 's' :: 'e' :: rest => some (.bool false, rest)
  | '"' :: rest => (scanString rest).map fun (raw, rest) => (.string raw, rest)
  | text => (scanNumber text).map fun (digits, rest) => (.number digits, rest)

/-! ## Every token takes up some text -/

/-- A string takes up at least its closing quote. -/
theorem length_of_scanString {text raw rest : List Char}
    (h : scanString text = some (raw, rest)) : rest.length < text.length := by
  fun_induction scanString text generalizing raw rest with
  | case1 => simp at h
  | case2 r =>
    simp only [Option.some.injEq, Prod.mk.injEq] at h
    simp [h.2]
  | case3 a b c d r _ ih =>
    obtain ⟨⟨raw', rest'⟩, hs, he⟩ := Option.map_eq_some_iff.mp h
    cases he
    have := ih hs
    simp only [List.length_cons]
    omega
  | case4 => simp at h
  | case5 e r _ _ ih =>
    obtain ⟨⟨raw', rest'⟩, hs, he⟩ := Option.map_eq_some_iff.mp h
    cases he
    have := ih hs
    simp only [List.length_cons]
    omega
  | case6 => simp at h
  | case7 => simp at h
  | case8 c r _ _ _ _ ih =>
    obtain ⟨⟨raw', rest'⟩, hs, he⟩ := Option.map_eq_some_iff.mp h
    cases he
    have := ih hs
    simp only [List.length_cons]
    omega

theorem length_of_scanSomeDigits {text digits rest : List Char}
    (h : scanSomeDigits text = some (digits, rest)) : rest.length < text.length := by
  unfold scanSomeDigits scanDigits at h
  dsimp only at h
  split at h
  · simp at h
  · next hd =>
    cases h
    have hl := congrArg List.length
      (List.takeWhile_append_dropWhile (p := isDigitOf 10) (l := text))
    have hp : 0 < (text.takeWhile (isDigitOf 10)).length :=
      List.length_pos_iff.mpr (mt List.isEmpty_iff.mpr hd)
    rw [List.length_append] at hl
    omega

/-- The whole part of a number is never empty; the fraction and the exponent behind it may be. -/
theorem length_of_scanWhole {text digits rest : List Char}
    (h : scanWhole text = some (digits, rest)) : rest.length < text.length := by
  unfold scanWhole at h
  split at h
  · cases h
    simp
  · exact length_of_scanSomeDigits h

theorem length_of_scanFraction {text digits rest : List Char}
    (h : scanFraction text = some (digits, rest)) : rest.length ≤ text.length := by
  unfold scanFraction at h
  split at h
  · obtain ⟨⟨_, _⟩, hs, he⟩ := Option.map_eq_some_iff.mp h
    cases he
    have := length_of_scanSomeDigits hs
    simp only [List.length_cons]
    omega
  · cases h
    exact Nat.le_refl _

theorem length_of_scanExponent {text digits rest : List Char}
    (h : scanExponent text = some (digits, rest)) : rest.length ≤ text.length := by
  unfold scanExponent at h
  split at h
  · split at h
    · split at h
      · split at h
        · obtain ⟨⟨_, _⟩, hs, he⟩ := Option.map_eq_some_iff.mp h
          cases he
          have := length_of_scanSomeDigits hs
          simp only [List.length_cons]
          omega
        · obtain ⟨⟨_, _⟩, hs, he⟩ := Option.map_eq_some_iff.mp h
          cases he
          have := length_of_scanSomeDigits hs
          simp only [List.length_cons] at this ⊢
          omega
      · simp at h
    · cases h
      exact Nat.le_refl _
  · cases h
    exact Nat.le_refl _

/-- A number takes up some text because its whole part does. -/
theorem length_of_scanMagnitude {text digits rest : List Char}
    (h : scanMagnitude text = some (digits, rest)) : rest.length < text.length := by
  obtain ⟨⟨_, _⟩, hw, h⟩ := Option.bind_eq_some_iff.mp h
  obtain ⟨⟨_, _⟩, hf, h⟩ := Option.bind_eq_some_iff.mp h
  obtain ⟨⟨_, _⟩, he, h⟩ := Option.bind_eq_some_iff.mp h
  cases h
  exact Nat.lt_of_le_of_lt (length_of_scanExponent he)
    (Nat.lt_of_le_of_lt (length_of_scanFraction hf) (length_of_scanWhole hw))

theorem length_of_scanNumber {text digits rest : List Char}
    (h : scanNumber text = some (digits, rest)) : rest.length < text.length := by
  unfold scanNumber at h
  split at h
  · obtain ⟨⟨_, _⟩, hs, he⟩ := Option.map_eq_some_iff.mp h
    cases he
    have := length_of_scanMagnitude hs
    simp only [List.length_cons]
    omega
  · exact length_of_scanMagnitude h

/-- Every token takes up some text, which is why scanning ends. -/
theorem length_of_scanToken {text rest : List Char} {t : Token}
    (h : scanToken text = some (t, rest)) : rest.length < text.length := by
  unfold scanToken at h
  split at h
  case h_10 =>
    obtain ⟨⟨_, _⟩, hs, he⟩ := Option.map_eq_some_iff.mp h
    cases he
    have := length_of_scanString hs
    simp only [List.length_cons]
    omega
  case h_11 =>
    obtain ⟨⟨_, _⟩, hs, he⟩ := Option.map_eq_some_iff.mp h
    cases he
    exact length_of_scanNumber hs
  all_goals
    cases h
    simp only [List.length_cons]
    omega

/-- The tokens of a text. -/
def scan (text : List Char) : Option (List Token) :=
  match text with
  | [] => some []
  | c :: rest =>
    if isSpace c then scan rest
    else
      match _h : scanToken (c :: rest) with
      | none => none
      | some (t, after) => (scan after).map (t :: ·)
termination_by text.length
decreasing_by
  · simp
  · exact length_of_scanToken _h

theorem scan_nil : scan [] = some [] := by
  rw [scan]

/-- A token is taken from the front where no white space stands. -/
theorem scan_of_scanToken {text rest : List Char} {c : Char} {t : Token} (hc : isSpace c = false)
    (h : scanToken (c :: text) = some (t, rest)) :
    scan (c :: text) = (scan rest).map (t :: ·) := by
  rw [scan, if_neg (by simp [hc])]
  split
  · next hnone => cases h.symm.trans hnone
  · next hsome =>
    cases h.symm.trans hsome
    rfl

end DeviceLayout.Json
