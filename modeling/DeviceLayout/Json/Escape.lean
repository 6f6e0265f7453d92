import DeviceLayout.Scanning

/-!
# Escapes in JSON strings

A string is written with a backslash before quotes and backslashes, and with an escape for
each control character; everything else stands as it is (`escape`). Reading (`unescape`)
accepts every escape of the format. A code point beyond the first plane may be spelled as a
pair of surrogates; a surrogate on its own names no character.
-/

namespace DeviceLayout.Json

/-- The characters below U+0020, which no string holds unescaped. -/
def isControl (c : Char) : Bool :=
  c.toNat < 0x20

/-- A character as it stands in a string. -/
def escapeChar (c : Char) : List Char :=
  match c with
  | '"' => ['\\', '"']
  | '\\' => ['\\', '\\']
  | '\x08' => ['\\', 'b']
  | '\x0c' => ['\\', 'f']
  | '\n' => ['\\', 'n']
  | '\r' => ['\\', 'r']
  | '\t' => ['\\', 't']
  | c =>
    if isControl c then
      ['\\', 'u', '0', '0', Nat.digitChar (c.toNat / 16), Nat.digitChar (c.toNat % 16)]
    else [c]

/-- A text as the inside of a string. -/
def escape (text : List Char) : List Char :=
  text.flatMap escapeChar

/-- The character that an escape of one letter names. -/
def simpleEscape? : Char → Option Char
  | '"' => some '"'
  | '\\' => some '\\'
  | '/' => some '/'
  | 'b' => some '\x08'
  | 'f' => some '\x0c'
  | 'n' => some '\n'
  | 'r' => some '\r'
  | 't' => some '\t'
  | _ => none

/-- Whether a code unit is the first half of a surrogate pair. -/
def isHighSurrogate (unit : Nat) : Bool :=
  0xD800 ≤ unit ∧ unit ≤ 0xDBFF

/-- Whether a code unit is the second half of a surrogate pair. -/
def isLowSurrogate (unit : Nat) : Bool :=
  0xDC00 ≤ unit ∧ unit ≤ 0xDFFF

/-- The character that a surrogate pair names. -/
def pairedChar (high low : Nat) : Char :=
  Char.ofNat (0x10000 + (high - 0xD800) * 0x400 + (low - 0xDC00))

/-- The text that the inside of a string names. -/
def unescape : List Char → Option (List Char)
  | [] => some []
  | '\\' :: 'u' :: a :: b :: c :: d :: rest =>
    match ofDigits? 16 [a, b, c, d] with
    | none => none
    | some unit =>
      if isHighSurrogate unit then
        match rest with
        | '\\' :: 'u' :: a :: b :: c :: d :: rest =>
          match ofDigits? 16 [a, b, c, d] with
          | none => none
          | some low =>
            if isLowSurrogate low then (unescape rest).map (pairedChar unit low :: ·) else none
        | _ => none
      else if isLowSurrogate unit then none
      else (unescape rest).map (Char.ofNat unit :: ·)
  | '\\' :: e :: rest =>
    match simpleEscape? e with
    | none => none
    | some c => (unescape rest).map (c :: ·)
  | ['\\'] => none
  | c :: rest => (unescape rest).map (c :: ·)

end DeviceLayout.Json
