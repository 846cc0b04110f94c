import Tapelang.Bytes

/-! # Positions in a program text

A position names a byte by line and column. Lines start at 1; column 0 is the place before the
first byte. A newline belongs to the line that it ends. Source maps may hold any pair of
integers, and the pair of zeros stands for "unknown".
-/

namespace Tapelang

/-- A line and a column. -/
structure Position where
  line : Int := 0
  column : Int := 0
  deriving DecidableEq, Repr, Inhabited

namespace Position

/-- The place before the first byte of a text. -/
def start : Position := ⟨1, 0⟩

/-- The unknown position. -/
def unknown : Position := ⟨0, 0⟩

/-- Whether a position is the unknown one. -/
def isUnknown (p : Position) : Bool :=
  p.line == 0 && p.column == 0

/-- A position as `line:column`. -/
def render (p : Position) : Bytes :=
  signed p.line ++ utf8 ":" ++ signed p.column

/-- The position of the byte that follows one at `p`, where `fresh` says that the byte at `p` was
a newline. -/
def following (p : Position) (fresh : Bool) : Position :=
  if fresh then ⟨p.line + 1, 1⟩ else ⟨p.line, p.column + 1⟩

end Position

/-- The byte that ends a line. -/
def newline : UInt8 := 10

/-- The bytes after the last newline of a text, or the whole text when there is none. -/
def lastLine (text : Bytes) : Bytes :=
  (text.reverse.takeWhile (· ≠ newline)).reverse

namespace Position

/-- The position of the byte at `offset` in a text: one line for every newline before it, and one
column for every byte between the last of them and the byte, which has a column of its own. -/
def ofOffset (text : Bytes) (offset : Nat) : Position :=
  let before := text.take offset
  ⟨before.count newline + 1, (lastLine before).length + 1⟩

/-- The position of the last byte of a text, or the start when there is none. -/
def ofLast (text : Bytes) : Position :=
  if text.isEmpty then start else ofOffset text (text.length - 1)

end Position

end Tapelang
