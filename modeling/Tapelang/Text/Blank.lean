import Tapelang.Text.Utf8

/-! # Blank characters

The characters that leave a place blank or end a line, in all scripts.
-/

namespace Tapelang.Text

/-- Whether a character is blank. -/
def isBlankChar (code : Nat) : Bool :=
  (9 ≤ code && code ≤ 13) || code == 32 || code == 0x85 || code == 0xa0 || code == 0x1680 ||
    (0x2000 ≤ code && code ≤ 0x200a) || code == 0x2028 || code == 0x2029 || code == 0x202f ||
    code == 0x205f || code == 0x3000

/-- Whether a glyph is a blank character. -/
def Glyph.isBlank : Glyph → Bool
  | char code => isBlankChar code
  | stray _ => false

/-- The text without blank characters at its ends. -/
def trimBlanks (text : Bytes) : Bytes :=
  let rest := (glyphs text).dropWhile Glyph.isBlank
  (rest.reverse.dropWhile Glyph.isBlank).reverse.flatMap Glyph.bytes

end Tapelang.Text
