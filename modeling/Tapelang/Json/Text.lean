import Tapelang.Text.Utf8

/-! # JSON strings

How a text is written between the quotes of a JSON string, and how it is read back. Writing
replaces stray bytes by the replacement character; reading replaces them and lone halves of
surrogate pairs. `Escaping` says which characters are escaped besides those that have to be.
-/

namespace Tapelang.Json

open Text

/-- How texts are escaped besides what has to be. -/
structure Escaping where
  /-- The further characters that are escaped. -/
  extra : Nat → Bool
  /-- Whether a stray byte is written as an escape, or as the replacement character itself. -/
  stray : Bool

/-- The line and paragraph separators, which some readers take for newlines. -/
def isSeparator (code : Nat) : Bool := code == 0x2028 || code == 0x2029

/-- The characters with a meaning in markup. -/
def isMarkup (code : Nat) : Bool := code == 60 || code == 62 || code == 38

/-- The escape for documents, which are safe inside markup. -/
def Escaping.document : Escaping := ⟨fun code => isMarkup code || isSeparator code, false⟩

/-- The escape for texts shown on a terminal. -/
def Escaping.shown : Escaping := ⟨isSeparator, false⟩

/-- The escape for log lines. -/
def Escaping.logged : Escaping := ⟨(· == 0x7f), true⟩

/-- `\u` and four hexadecimal digits. -/
def unicodeEscape (code : Nat) : Bytes := utf8 "\\u" ++ hexadecimal 4 code

/-- The character after the backslash of a short escape. -/
def shortEscape? (code : Nat) : Option Char :=
  match code with
  | 8 => some 'b'
  | 9 => some 't'
  | 10 => some 'n'
  | 12 => some 'f'
  | 13 => some 'r'
  | 34 => some '"'
  | 92 => some '\\'
  | _ => none

/-- A glyph inside a JSON string. -/
def escapeGlyph (e : Escaping) : Glyph → Bytes
  | .stray _ => if e.stray then unicodeEscape replacement else encodeChar replacement
  | .char code =>
    match shortEscape? code with
    | some letter => [92, letter.toUInt8]
    | none =>
      if code < 0x20 ∨ e.extra code then unicodeEscape code else encodeChar code

/-- The text between the quotes. -/
def escape (e : Escaping) (text : Bytes) : Bytes := (glyphs text).flatMap (escapeGlyph e)

/-- A text with its quotes. -/
def quoted (e : Escaping) (text : Bytes) : Bytes := utf8 "\"" ++ escape e text ++ utf8 "\""

/-! ## Reading -/

/-- The number that four hexadecimal digits in front of a text write. -/
def fourDigits? : Bytes → Option Nat
  | a :: b :: c :: d :: _ => do
    let a ← hexValue? a
    let b ← hexValue? b
    let c ← hexValue? c
    let d ← hexValue? d
    return ((a * 16 + b) * 16 + c) * 16 + d
  | _ => none

/-- The code of a `\u` escape in front of a text. -/
def unicodeEscape? : Bytes → Option Nat
  | 92 :: 117 :: rest => fourDigits? rest
  | _ => none

/-- The character that a pair of surrogates stands for. -/
def surrogatePair? (high low : Nat) : Option Nat :=
  if 0xd800 ≤ high ∧ high < 0xdc00 ∧ 0xdc00 ≤ low ∧ low < 0xe000 then
    some (0x10000 + (high - 0xd800) * 0x400 + (low - 0xdc00))
  else none

/-- The byte of a short escape. -/
def unescapeByte (letter : UInt8) : UInt8 :=
  if letter = 'b'.toUInt8 then 8
  else if letter = 't'.toUInt8 then 9
  else if letter = 'n'.toUInt8 then 10
  else if letter = 'f'.toUInt8 then 12
  else if letter = 'r'.toUInt8 then 13
  else letter

/-- What stands at `b :: rest` between quotes, and how many bytes of `rest` it takes. -/
def unescapeAt (b : UInt8) (rest : Bytes) : Bytes × Nat :=
  if b = 92 then
    match rest with
    | [] => ([], 0)
    | letter :: more =>
      if letter = 'u'.toUInt8 then
        match fourDigits? more with
        | none => ([], 1)
        | some code =>
          if 0xd800 ≤ code ∧ code < 0xe000 then
            match (unicodeEscape? (more.drop 4)).bind (surrogatePair? code) with
            | some pair => (encodeChar pair, 11)
            | none => (encodeChar replacement, 5)
          else (encodeChar code, 5)
      else ([unescapeByte letter], 1)
  else
    match charAt? b rest with
    | some (_, more) => (b :: rest.take more, more)
    | none => (encodeChar replacement, 0)

/-- The text that stands between quotes, after `skip` bytes that have been dealt with. -/
def unescapeFrom : (skip : Nat) → Bytes → Bytes
  | _, [] => []
  | skip + 1, _ :: rest => unescapeFrom skip rest
  | 0, b :: rest =>
    let (bytes, more) := unescapeAt b rest
    bytes ++ unescapeFrom more rest

/-- The text that stands between quotes. -/
def unescape (raw : Bytes) : Bytes := unescapeFrom 0 raw

end Tapelang.Json
