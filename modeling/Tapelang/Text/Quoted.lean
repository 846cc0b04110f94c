import Tapelang.Text.Utf8
import Tapelang.Text.Printable

/-! # Quoted texts

How a text from outside is shown in a message: between quotes, with printable characters as they
are and everything else as an escape.
-/

namespace Tapelang.Text

/-- The letter of the short escapes. -/
def shortEscape? (code : Nat) : Option Char :=
  match code with
  | 7 => some 'a'
  | 8 => some 'b'
  | 9 => some 't'
  | 10 => some 'n'
  | 11 => some 'v'
  | 12 => some 'f'
  | 13 => some 'r'
  | _ => none

/-- A character that is not the quote, escaped if it is not printable. -/
def escapeChar (code : Nat) : Bytes :=
  if isPrintable code then encodeChar code
  else
    match shortEscape? code with
    | some letter => [92, letter.toUInt8]
    | none =>
      if code < 0x20 ∨ code = 0x7f then utf8 "\\x" ++ hexadecimal 2 code
      else if code < 0x10000 then utf8 "\\u" ++ hexadecimal 4 code
      else utf8 "\\U" ++ hexadecimal 8 code

/-- A glyph between quotes of the kind `mark`. -/
def quoteGlyph (mark : Char) : Glyph → Bytes
  | .stray b => utf8 "\\x" ++ hexadecimal 2 b.toNat
  | .char code =>
    if code = mark.toNat ∨ code = 92 then [92, UInt8.ofNat code] else escapeChar code

/-- A text between double quotes. -/
def quote (text : Bytes) : Bytes :=
  utf8 "\"" ++ (glyphs text).flatMap (quoteGlyph '"') ++ utf8 "\""

/-- A character between single quotes. -/
def quoteChar (code : Nat) : Bytes :=
  utf8 "'" ++ quoteGlyph '\'' (.char code) ++ utf8 "'"

end Tapelang.Text
