import DeviceLayout.Scanning
import DeviceLayout.Toml.Basic

/-!
# Numbers, truth values and dates in TOML

What stands for a value without quotes and brackets is one word. `Toml.ofWord?` decides what a
word is: `true` or `false`, an integer in 64 bits, a number with a fraction or an exponent, an
infinity or no number at all, a date, a time, or both. Digits may be grouped by single
underscores.
-/

namespace DeviceLayout.Toml

/-! ## Digits and signs -/

/-- The digits of a group of digits, without the underscores between them. -/
def ungroup? (radix : Nat) : List Char → Option (List Char)
  | [] => none
  | [c] => if isDigitOf radix c then some [c] else none
  | c :: '_' :: rest => if isDigitOf radix c then (ungroup? radix rest).map (c :: ·) else none
  | c :: rest => if isDigitOf radix c then (ungroup? radix rest).map (c :: ·) else none

/-- The number that grouped digits name. -/
def grouped? (radix : Nat) (word : List Char) : Option Nat :=
  (ungroup? radix word).bind (ofDigits? radix)

/-- Whether a word starts with a minus sign, and the word without its sign. -/
def splitSign : List Char → Bool × List Char
  | '-' :: rest => (true, rest)
  | '+' :: rest => (false, rest)
  | word => (false, word)

/-- The digits of a whole number; a leading zero stands alone. -/
def wholeDigits? (word : List Char) : Option (List Char) :=
  (ungroup? 10 word).filter fun digits => digits.head? ≠ some '0' || digits.length = 1

/-! ## Integers -/

/-- Integers lie below this bound, and not below its negation: they have 64 bits. -/
def integerBound : Nat :=
  9223372036854775808

/-- An integer with a sign or none, in 64 bits. -/
def decimal? (word : List Char) : Option Int := do
  let (negative, magnitude) := splitSign word
  let n ← (wholeDigits? magnitude).bind (ofDigits? 10)
  if negative then
    if n ≤ integerBound then return -(n : Int) else none
  else if n < integerBound then return n else none

/-- An integer: decimal, or without a sign in one of three other radixes. -/
def integer? : List Char → Option Int
  | '0' :: 'x' :: rest => ((grouped? 16 rest).filter fun n => n < integerBound).map Int.ofNat
  | '0' :: 'o' :: rest => ((grouped? 8 rest).filter fun n => n < integerBound).map Int.ofNat
  | '0' :: 'b' :: rest => ((grouped? 2 rest).filter fun n => n < integerBound).map Int.ofNat
  | word => decimal? word

/-! ## Numbers with a fraction or an exponent -/

/-- From here on a positive number rounds to infinity in 64 bits: half a step above the largest
finite number. -/
def infinityBound : Nat :=
  Nat.pow 2 1024 - Nat.pow 2 970

/-- Whether `mantissa * 10 ^ exponent` rounds to infinity. The number of digits decides all
but the numbers near the bound, which has 309 digits. -/
def roundsToInfinity (mantissa : Nat) (exponent : Int) : Bool :=
  let size : Int := (numeral mantissa).length + exponent
  if mantissa = 0 || size < 309 then false
  else if 309 < size then true
  else if 0 ≤ exponent then infinityBound ≤ mantissa * Nat.pow 10 exponent.toNat
  else infinityBound * Nat.pow 10 (-exponent).toNat ≤ mantissa

/-- The exponent that follows its mark. -/
def exponent? (word : List Char) : Option Int :=
  let (negative, magnitude) := splitSign word
  (grouped? 10 magnitude).map fun n => if negative then -(n : Int) else n

/-- What follows the whole part of a number: the digits of the fraction and the exponent, of
which one may be missing. -/
def fractionAndExponent? : List Char → Option (List Char × Int)
  | '.' :: rest => do
    let isMark := fun c => c = 'e' || c = 'E'
    let digits ← ungroup? 10 (rest.takeWhile fun c => !isMark c)
    match rest.dropWhile fun c => !isMark c with
    | [] => return (digits, 0)
    | _ :: word => return (digits, ← exponent? word)
  | c :: word => if c = 'e' || c = 'E' then (exponent? word).map fun e => ([], e) else none
  | [] => none

/-- Whether a word is a number with a fraction or an exponent that 64 bits can hold. A
negative number may be too large, which makes it a negative infinity. -/
def isFloat (word : List Char) : Bool :=
  let (negative, magnitude) := splitSign word
  let isWhole := fun c => c ≠ '.' && c ≠ 'e' && c ≠ 'E'
  match wholeDigits? (magnitude.takeWhile isWhole),
      fractionAndExponent? (magnitude.dropWhile isWhole) with
  | some whole, some (fraction, exponent) =>
    match ofDigits? 10 (whole ++ fraction) with
    | some mantissa => negative || !roundsToInfinity mantissa (exponent - fraction.length)
    | none => false
  | _, _ => false

/-- Whether a word is an infinity or the mark of no number. -/
def isSpecialFloat (word : List Char) : Bool :=
  let magnitude := (splitSign word).2
  magnitude = ['i', 'n', 'f'] || magnitude = ['n', 'a', 'n']

/-! ## Dates and times -/

/-- Whether a year has a 29th of February. -/
def isLeap (year : Nat) : Bool :=
  year % 4 = 0 && (year % 100 ≠ 0 || year % 400 = 0)

/-- The number of days of a month. -/
def daysIn (year month : Nat) : Nat :=
  if month = 2 then if isLeap year then 29 else 28
  else if month = 4 || month = 6 || month = 9 || month = 11 then 30
  else 31

/-- Whether a word is a date, four digits, two and two between hyphens, of the calendar. -/
def isDate : List Char → Bool
  | [a, b, c, d, '-', e, f, '-', g, h] =>
    match ofDigits? 10 [a, b, c, d], ofDigits? 10 [e, f], ofDigits? 10 [g, h] with
    | some year, some month, some day =>
      1 ≤ month && month ≤ 12 && 1 ≤ day && day ≤ daysIn year month
    | _, _, _ => false
  | _ => false

/-- What follows hours, minutes and seconds at the front of a word; a minute may have 61
seconds. -/
def afterSeconds? : List Char → Option (List Char)
  | a :: b :: ':' :: c :: d :: ':' :: e :: f :: rest =>
    match ofDigits? 10 [a, b], ofDigits? 10 [c, d], ofDigits? 10 [e, f] with
    | some hour, some minute, some second =>
      if hour ≤ 23 && minute ≤ 59 && second ≤ 60 then some rest else none
    | _, _, _ => none
  | _ => none

/-- What follows a time at the front of a word, fractions of a second included. -/
def afterTime? (word : List Char) : Option (List Char) :=
  match afterSeconds? word with
  | some ('.' :: rest) =>
    if (rest.takeWhile (isDigitOf 10)).isEmpty then none
    else some (rest.dropWhile (isDigitOf 10))
  | after => after

/-- Whether a word is the distance of a local time from universal time. -/
def isOffset : List Char → Bool
  | ['Z'] | ['z'] => true
  | [sign, a, b, ':', c, d] =>
    (sign = '+' || sign = '-') &&
      match ofDigits? 10 [a, b], ofDigits? 10 [c, d] with
      | some hour, some minute => hour ≤ 23 && minute ≤ 59
      | _, _ => false
  | _ => false

/-- Whether a word is a date, a time, or a date with a time that may have an offset. -/
def isMoment (word : List Char) : Bool :=
  isDate word || afterTime? word = some [] ||
    isDate (word.take 10) &&
      match word.drop 10 with
      | c :: time =>
        (c = 'T' || c = 't' || c = ' ') &&
          match afterTime? time with
          | some offset => offset.isEmpty || isOffset offset
          | none => false
      | [] => false

/-! ## Words -/

/-- The value that a word stands for. -/
def ofWord? (word : List Char) : Option Toml :=
  if word = ['t', 'r', 'u', 'e'] then some (boolean true)
  else if word = ['f', 'a', 'l', 's', 'e'] then some (boolean false)
  else
    match integer? word with
    | some n => some (integer n)
    | none =>
      if isFloat word || isSpecialFloat word then some float
      else if isMoment word then some date
      else none

end DeviceLayout.Toml
