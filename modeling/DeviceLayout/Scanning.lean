/-!
# Numerals, and reading token by token

What the readers of both text formats share. There are digits in a radix up to 16, upper and lower
case alike, and the number a row of digits names. `numeral` writes the decimal digits of a number,
and `ofDigits?` reads them back (`ofDigits?_numeral`).

A reader scans a text into tokens and takes one step for each of them. If scanning takes a token
from the front of the text, reading takes the step of this token and goes on behind it
(`foldlM_scan_cons`). This composes, since the rest of the text is there all the time.
-/

namespace DeviceLayout

/-! ## Digits -/

/-- The value of a digit in a radix up to 16. -/
def digitValue? (radix : Nat) (c : Char) : Option Nat :=
  let value :=
    if '0' ≤ c ∧ c ≤ '9' then some (c.toNat - '0'.toNat)
    else if 'a' ≤ c ∧ c ≤ 'f' then some (c.toNat - 'a'.toNat + 10)
    else if 'A' ≤ c ∧ c ≤ 'F' then some (c.toNat - 'A'.toNat + 10)
    else none
  value.filter fun v => v < radix

/-- Whether a character is a digit of the radix. -/
def isDigitOf (radix : Nat) (c : Char) : Bool :=
  (digitValue? radix c).isSome

/-- The number that digits name, read on from the value of the digits before them. -/
def ofDigitsFrom? (radix value : Nat) : List Char → Option Nat
  | [] => some value
  | c :: rest => (digitValue? radix c).bind fun v => ofDigitsFrom? radix (value * radix + v) rest

/-- The number that a row of digits names; no digits name no number. -/
def ofDigits? (radix : Nat) (digits : List Char) : Option Nat :=
  if digits.isEmpty then none else ofDigitsFrom? radix 0 digits

/-- The decimal digits of a number. -/
def numeral (n : Nat) : List Char :=
  Nat.toDigits 10 n

/-- Decimal digits are no letters. -/
theorem isDigit_of_isDigitOf {c : Char} (hc : isDigitOf 10 c = true) : c.isDigit = true := by
  have hletter (n : Nat) : ((some (n + 10)).filter fun v => v < 10) = none :=
    Option.filter_some_neg (decide_eq_false (by omega))
  rw [isDigitOf, digitValue?] at hc
  split at hc
  · next h => simpa [Char.isDigit, Char.le_def] using h
  · split at hc
    · simp only [hletter] at hc
      cases hc
    · split at hc
      · simp only [hletter] at hc
        cases hc
      · cases hc

/-! ## Numerals -/

/-- The digit that spells a value has this value, whatever the radix. -/
theorem digitValue?_digitChar {radix d : Nat} (hradix : radix ≤ 16) (hd : d < radix) :
    digitValue? radix (Nat.digitChar d) = some d := by
  have hall : ∀ radix ≤ 16, ∀ d < radix, digitValue? radix (Nat.digitChar d) = some d := by
    decide
  exact hall radix hradix d hd

theorem isDigitOf_digitChar {radix d : Nat} (hradix : radix ≤ 16) (hd : d < radix) :
    isDigitOf radix (Nat.digitChar d) = true := by
  rw [isDigitOf, digitValue?_digitChar hradix hd]
  rfl

/-- Digits are read from the left : the ones behind go on from the value of the ones in front. -/
theorem ofDigitsFrom?_append (radix : Nat) (front back : List Char) (value : Nat) :
    ofDigitsFrom? radix value (front ++ back) =
      (ofDigitsFrom? radix value front).bind fun v => ofDigitsFrom? radix v back := by
  induction front generalizing value with
  | nil => rfl
  | cons c rest ih =>
    simp only [List.cons_append, ofDigitsFrom?, Option.bind_assoc, ih]

theorem ofDigitsFrom?_numeral (n : Nat) : ofDigitsFrom? 10 0 (numeral n) = some n := by
  induction n using Nat.strongRecOn with
  | ind n ih =>
    rw [numeral]
    by_cases hn : n < 10
    · rw [Nat.toDigits_of_lt_base hn]
      simp [ofDigitsFrom?, digitValue?_digitChar (by decide) hn]
    · have hlast : n % 10 < 10 := Nat.mod_lt n (by decide)
      have hfront := ih (n / 10) (by omega)
      rw [numeral] at hfront
      rw [Nat.toDigits_of_base_le (by decide) (by omega), ofDigitsFrom?_append, hfront]
      simp only [Option.bind_some, ofDigitsFrom?, digitValue?_digitChar (by decide) hlast]
      congr 1
      omega

theorem numeral_ne_nil (n : Nat) : numeral n ≠ [] :=
  Nat.toDigits_ne_nil

/-- A numeral names its number. -/
theorem ofDigits?_numeral (n : Nat) : ofDigits? 10 (numeral n) = some n := by
  rw [ofDigits?, if_neg (mt List.isEmpty_iff.mp (numeral_ne_nil n)), ofDigitsFrom?_numeral]

/-- A numeral is made of decimal digits. -/
theorem isDigitOf_of_mem_numeral {n : Nat} {c : Char} (hc : c ∈ numeral n) :
    isDigitOf 10 c = true := by
  induction n using Nat.strongRecOn with
  | ind n ih =>
    rw [numeral, Nat.toDigits_eq_if (by decide)] at hc
    split at hc
    · next hn => exact List.mem_singleton.mp hc ▸ isDigitOf_digitChar (by decide) hn
    · next hn =>
      rcases List.mem_append.mp hc with hc | hc
      · exact ih (n / 10) (by omega) hc
      · have hlast : n % 10 < 10 := Nat.mod_lt n (by decide)
        exact List.mem_singleton.mp hc ▸ isDigitOf_digitChar (by decide) hlast

theorem exists_numeral_eq_cons (n : Nat) :
    ∃ d ds, numeral n = d :: ds ∧ isDigitOf 10 d = true := by
  obtain ⟨d, ds, h⟩ := List.exists_cons_of_ne_nil (numeral_ne_nil n)
  exact ⟨d, ds, h, isDigitOf_of_mem_numeral (h ▸ List.mem_cons_self)⟩

/-- Only the numeral of 0 starts with a zero. -/
theorem head?_numeral_ne_zero {n : Nat} (hn : 0 < n) : (numeral n).head? ≠ some '0' := by
  induction n using Nat.strongRecOn with
  | ind n ih =>
    rw [numeral, Nat.toDigits_eq_if (by decide)]
    split
    · next hlt =>
      have hall : ∀ d < 10, 0 < d → Nat.digitChar d ≠ '0' := by decide
      simpa using hall n hlt hn
    · next hge =>
      have hfront := ih (n / 10) (by omega) (by omega)
      obtain ⟨d, ds, hcons⟩ := List.exists_cons_of_ne_nil (numeral_ne_nil (n / 10))
      rw [hcons] at hfront
      rw [numeral] at hcons
      rw [hcons]
      exact hfront

theorem not_mem_numeral {n : Nat} {c : Char} (hc : isDigitOf 10 c = false) : c ∉ numeral n := by
  intro h
  rw [isDigitOf_of_mem_numeral h] at hc
  cases hc

/-! ## Reading token by token -/

/-- Where a token stands at the front of a text, its step is the first one that is taken. -/
theorem foldlM_scan_cons {τ ρ : Type} {scan : List Char → Option (List τ)}
    {step : ρ → τ → Option ρ} {text rest : List Char} {t : τ} {r r' : ρ}
    (hscan : scan text = (scan rest).map (t :: ·)) (hstep : step r t = some r') :
    ((scan text).bind fun tokens => tokens.foldlM step r) =
      (scan rest).bind fun tokens => tokens.foldlM step r' := by
  rw [hscan, Option.bind_map]
  refine congrArg (scan rest).bind (funext fun tokens => ?_)
  rw [Function.comp_apply, List.foldlM_cons, hstep]
  rfl

end DeviceLayout
