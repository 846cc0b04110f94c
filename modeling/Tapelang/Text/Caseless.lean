import Tapelang.Text.Utf8

/-! # Comparison without regard to case

Names made of ASCII letters are compared without regard to case. Two characters outside ASCII are
other forms of an ASCII letter and count as it: the long s and the Kelvin sign.
-/

namespace Tapelang.Text

/-- The upper-case form of an ASCII letter in any of its forms; other characters are kept. -/
def foldChar (code : Nat) : Nat :=
  if 97 ≤ code ∧ code ≤ 122 then code - 32
  else if code = 0x17f then 83
  else if code = 0x212a then 75
  else code

/-- A glyph without regard to case. -/
def foldGlyph : Glyph → Glyph
  | .char code => .char (foldChar code)
  | .stray b => .stray b

/-- The lower-case form of an ASCII letter in any of its forms; other characters are kept. The
dotted capital i is a form of the letter i. -/
def lowerChar (code : Nat) : Nat :=
  if 65 ≤ code ∧ code ≤ 90 then code + 32
  else if code = 0x130 then 105
  else if code = 0x212a then 107
  else code

/-- A name made of ASCII letters in lower case. -/
def lowerName (text : Bytes) : Bytes :=
  (glyphs text).flatMap fun
    | .char code => encodeChar (lowerChar code)
    | .stray b => [b]

/-- Whether two texts differ in case only. -/
def sameName (a b : Bytes) : Bool :=
  (glyphs a).map foldGlyph == (glyphs b).map foldGlyph

end Tapelang.Text
