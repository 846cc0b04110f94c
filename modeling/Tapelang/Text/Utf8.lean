import Tapelang.Bytes

/-! # Characters in byte texts

A byte text is read as UTF-8 where it is UTF-8: `glyphs` cuts it into characters and stray bytes
that belong to none. Nothing is lost by the cut, since every stray byte stands for itself.
-/

namespace Tapelang.Text

/-- A character, or a byte that is part of none. -/
inductive Glyph where
  | char (code : Nat)
  | stray (byte : UInt8)
  deriving DecidableEq, Repr, Inhabited

/-- Whether a byte continues a character. -/
def isTail (b : UInt8) : Bool := 0x80 ≤ b && b ≤ 0xbf

/-- The least and greatest second byte after the lead byte `b` of a character of three or four
bytes; they keep out the overlong forms, the surrogates and what lies behind the last character. -/
def secondRange (b : UInt8) : UInt8 × UInt8 :=
  if b = 0xe0 then (0xa0, 0xbf)
  else if b = 0xed then (0x80, 0x9f)
  else if b = 0xf0 then (0x90, 0xbf)
  else if b = 0xf4 then (0x80, 0x8f)
  else (0x80, 0xbf)

/-- The six low bits of a byte. -/
def tailBits (b : UInt8) : Nat := b.toNat % 64

/-- The character that begins with `b` and goes on in `rest`, and how many bytes of `rest` it
takes. -/
def charAt? (b : UInt8) (rest : Bytes) : Option (Nat × Nat) :=
  if b < 0x80 then some (b.toNat, 0)
  else if 0xc2 ≤ b ∧ b ≤ 0xdf then
    match rest with
    | c :: _ => if isTail c then some (b.toNat % 32 * 64 + tailBits c, 1) else none
    | _ => none
  else if 0xe0 ≤ b ∧ b ≤ 0xef then
    match rest with
    | c :: d :: _ =>
      if (secondRange b).1 ≤ c ∧ c ≤ (secondRange b).2 ∧ isTail d then
        some ((b.toNat % 16 * 64 + tailBits c) * 64 + tailBits d, 2)
      else none
    | _ => none
  else if 0xf0 ≤ b ∧ b ≤ 0xf4 then
    match rest with
    | c :: d :: e :: _ =>
      if (secondRange b).1 ≤ c ∧ c ≤ (secondRange b).2 ∧ isTail d ∧ isTail e then
        some (((b.toNat % 8 * 64 + tailBits c) * 64 + tailBits d) * 64 + tailBits e, 3)
      else none
    | _ => none
  else none

/-- The glyphs of a text whose first `skip` bytes have been dealt with. -/
def glyphsFrom : (skip : Nat) → Bytes → List Glyph
  | _, [] => []
  | skip + 1, _ :: rest => glyphsFrom skip rest
  | 0, b :: rest =>
    match charAt? b rest with
    | some (code, more) => .char code :: glyphsFrom more rest
    | none => .stray b :: glyphsFrom 0 rest

/-- The glyphs of a text. -/
def glyphs (text : Bytes) : List Glyph := glyphsFrom 0 text

/-- The UTF-8 bytes of a character. -/
def encodeChar (code : Nat) : Bytes := String.utf8EncodeChar (Char.ofNat code)

/-- The character that stands for what cannot be read. -/
def replacement : Nat := 0xfffd

namespace Glyph

/-- The bytes of a glyph. -/
def bytes : Glyph → Bytes
  | char code => encodeChar code
  | stray b => [b]

/-- The character, or the replacement character for a stray byte. -/
def code : Glyph → Nat
  | char code => code
  | stray _ => replacement

/-- Whether the glyph is a character. -/
def isChar : Glyph → Bool
  | char _ => true
  | stray _ => false

end Glyph

/-- Whether a text is UTF-8 throughout. -/
def isUtf8 (text : Bytes) : Bool := (glyphs text).all Glyph.isChar

/-- The text with every stray byte replaced. -/
def mend (text : Bytes) : Bytes := (glyphs text).flatMap fun g => encodeChar g.code

end Tapelang.Text
