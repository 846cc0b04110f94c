import Tapelang.Text.Utf8

/-! # The characters of a YAML text

A text is UTF-8, or UTF-16 if it begins with a byte order mark that says so. It is decoded in
blocks; in a block that is malformed or holds a character that YAML does not allow, no character
can be read. So a text is the characters that can be read and whether something unreadable follows
them, which matters only to those who ask for more.
-/

namespace Tapelang.Yaml

open Text

/-- How characters are written as bytes. -/
inductive Encoding where
  | utf8
  | utf16 (bigEndian : Bool)
  deriving DecidableEq, Repr, Inhabited

/-- What stands at a place in a block. -/
inductive Decoded where
  /-- A character, and how many bytes it takes after the first. -/
  | char (code more : Nat)
  /-- The beginning of a character that the block cuts off. -/
  | cut
  /-- No character. -/
  | malformed
  deriving DecidableEq, Repr, Inhabited

/-- How many bytes follow the first byte of a character in UTF-8. -/
def tailLength? (b : UInt8) : Option Nat :=
  if b < 0x80 then some 0
  else if 0xc0 ≤ b ∧ b < 0xe0 then some 1
  else if 0xe0 ≤ b ∧ b < 0xf0 then some 2
  else if 0xf0 ≤ b ∧ b < 0xf8 then some 3
  else none

/-- What stands at `b :: rest` in UTF-8. -/
def decodeUtf8 (b : UInt8) (rest : Bytes) : Decoded :=
  match tailLength? b with
  | none => .malformed
  | some more =>
    if (rest.take more).length < more then .cut
    else
      match charAt? b rest with
      | some (code, more) => .char code more
      | none => .malformed

/-- The number that two bytes write. -/
def unitOf (bigEndian : Bool) (a b : UInt8) : Nat :=
  if bigEndian then a.toNat * 256 + b.toNat else b.toNat * 256 + a.toNat

/-- What stands at `a :: rest` in UTF-16. -/
def decodeUtf16 (bigEndian : Bool) (a : UInt8) (rest : Bytes) : Decoded :=
  match rest with
  | [] => .cut
  | b :: rest =>
    let unit := unitOf bigEndian a b
    if unit < 0xd800 ∨ 0xdfff < unit then .char unit 1
    else if 0xdc00 ≤ unit then .malformed
    else
      match rest with
      | c :: d :: _ =>
        let low := unitOf bigEndian c d
        if 0xdc00 ≤ low ∧ low ≤ 0xdfff then
          .char (0x10000 + (unit - 0xd800) * 0x400 + (low - 0xdc00)) 3
        else .malformed
      | _ => .cut

/-- What stands at `b :: rest`. -/
def Encoding.decode (e : Encoding) (b : UInt8) (rest : Bytes) : Decoded :=
  match e with
  | utf8 => decodeUtf8 b rest
  | utf16 bigEndian => decodeUtf16 bigEndian b rest

/-- Whether YAML allows a character in a text. -/
def isAllowed (code : Nat) : Bool :=
  code == 0x09 || code == 0x0a || code == 0x0d || (0x20 ≤ code && code ≤ 0x7e) || code == 0x85 ||
    (0xa0 ≤ code && code ≤ 0xd7ff) || (0xe000 ≤ code && code ≤ 0xfffd) ||
    (0x10000 ≤ code && code ≤ 0x10ffff)

/-- The characters of a block, put in front of `done` in reverse, and the bytes of a character that
is cut off at the end; none if the block is malformed. -/
def decodeBlock (e : Encoding) :
    (skip : Nat) → (done : List Char) → Bytes → Option (List Char × Bytes)
  | _, done, [] => some (done, [])
  | skip + 1, done, _ :: rest => decodeBlock e skip done rest
  | 0, done, b :: rest =>
    match e.decode b rest with
    | .char code more =>
      if isAllowed code then decodeBlock e more (Char.ofNat code :: done) rest else none
    | .cut => some (done, b :: rest)
    | .malformed => none

/-- The number of bytes in a block. -/
def blockLength : Nat := 512

/-- The characters that can be read, in reverse after `done`, and whether something unreadable
follows. A block is `length` bytes long with what the block before has left of a character. -/
def decodeBlocks (e : Encoding) :
    (bound length : Nat) → (done : List Char) → (left text : Bytes) → List Char × Bool
  | 0, _, done, _, _ => (done, true)
  | bound + 1, length, done, left, text =>
    if text.isEmpty then (done, !left.isEmpty)
    else
      let fresh := length - left.length
      match decodeBlock e 0 done (left ++ text.take fresh) with
      | none => (done, true)
      | some (done, left) => decodeBlocks e bound blockLength done left (text.drop fresh)

/-- The encoding of a text, and how many bytes of its front say so. -/
def encodingOf : Bytes → Encoding × Nat
  | 0xff :: 0xfe :: _ => (.utf16 false, 2)
  | 0xfe :: 0xff :: _ => (.utf16 true, 2)
  | 0xef :: 0xbb :: 0xbf :: _ => (.utf8, 3)
  | _ => (.utf8, 0)

/-- The characters of a text that can be read, and whether something unreadable follows. -/
def characters (text : Bytes) : List Char × Bool :=
  let (encoding, mark) := encodingOf text
  let text := text.drop mark
  let (done, broken) := decodeBlocks encoding (text.length + 1) (blockLength - mark) [] [] text
  (done.reverse, broken)

/-! ## Kinds of characters -/

/-- The character that stands for the end of the text. -/
def theEnd : Char := '\x00'

/-- A space or a tab. -/
def isBlank (c : Char) : Bool := c == ' ' || c == '\t'

/-- A character that ends a line. -/
def isBreak (c : Char) : Bool :=
  c == '\r' || c == '\n' || c == '\u0085' || c == '\u2028' || c == '\u2029'

/-- The end of a line or of the text. -/
def isLineEnd (c : Char) : Bool := isBreak c || c == theEnd

/-- A character that cannot be part of a word: a blank, or the end of a line or of the text. -/
def isGap (c : Char) : Bool := isBlank c || isLineEnd c

/-- A character of a name: an ASCII letter or digit, a dash or an underscore. -/
def isNameChar (c : Char) : Bool := c.isAlphanum || c == '-' || c == '_'

/-- The value of a hexadecimal digit. -/
def hexValue? (c : Char) : Option Nat :=
  if c.isDigit then some (c.toNat - 48)
  else if 'a' ≤ c ∧ c ≤ 'f' then some (c.toNat - 87)
  else if 'A' ≤ c ∧ c ≤ 'F' then some (c.toNat - 55)
  else none

/-- The UTF-8 bytes of characters. -/
def encode (cs : List Char) : Bytes := cs.flatMap String.utf8EncodeChar

end Tapelang.Yaml
