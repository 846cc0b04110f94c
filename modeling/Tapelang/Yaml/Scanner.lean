import Tapelang.Iteration
import Tapelang.Yaml.Character

/-! # Moving through a YAML text

A scanner stands at a character of a text and knows its line and column. Everything that looks at
characters ahead says first how many it `need`s, because the text may become unreadable there;
behind the end of a readable text there is `theEnd`, again and again.
-/

namespace Tapelang.Yaml

/-- A place in a text. -/
structure Mark where
  index : Nat := 0
  line : Nat := 0
  column : Nat := 0
  deriving DecidableEq, Repr, Inhabited

/-- A text that is being read. -/
structure Scanner where
  /-- The characters from here on. -/
  rest : List Char
  /-- Whether something unreadable follows them. -/
  broken : Bool := false
  /-- A bound on the number of steps of any loop over the text. -/
  bound : Nat
  mark : Mark := {}
  /-- The number of lines that have ended since the last character that is no blank. -/
  newlines : Nat := 0
  deriving Repr, Inhabited

namespace Scanner

/-- A scanner at the beginning of a text. -/
def ofText (text : Bytes) : Scanner :=
  let (rest, broken) := characters text
  { rest, broken, bound := rest.length + 8 }

/-- The character `k` places ahead. -/
def peekAt (s : Scanner) (k : Nat) : Char := (s.rest[k]?).getD theEnd

/-- The character here. -/
def peek (s : Scanner) : Char := s.rest.head?.getD theEnd

/-- Fails unless the next `n` characters can be looked at; `n` is not zero. -/
def need (s : Scanner) (n : Nat) : Option Unit :=
  if s.broken ∧ (s.rest.drop (n - 1)).isEmpty then none else some ()

/-- Steps over a character that does not end a line. -/
def skip (s : Scanner) : Scanner :=
  { s with
    rest := s.rest.tail
    mark := { s.mark with index := s.mark.index + 1, column := s.mark.column + 1 }
    newlines := if isBlank s.peek then s.newlines else 0 }

/-- Steps over the end of a line, which is one character or a carriage return and a line feed. -/
def skipBreak (s : Scanner) : Scanner :=
  let count := if s.peek = '\r' ∧ s.peekAt 1 = '\n' then 2 else 1
  { s with
    rest := s.rest.drop count
    mark := ⟨s.mark.index + count, s.mark.line + 1, 0⟩
    newlines := s.newlines + 1 }

/-- What the end of a line here stands for in a scalar: a line feed, except for the separators of
lines and paragraphs. -/
def breakChar (s : Scanner) : Char :=
  if s.peek = '\u2028' ∨ s.peek = '\u2029' then s.peek else '\n'

/-- The characters from here that have a property, none of which ends a line, and the scanner behind
them. -/
def span (s : Scanner) (p : Char → Bool) : Option (List Char × Scanner) :=
  let (taken, rest) := s.rest.span p
  if rest.isEmpty ∧ s.broken then none
  else
    let n := taken.length
    some (taken,
      { s with
        rest
        mark := { s.mark with index := s.mark.index + n, column := s.mark.column + n }
        newlines := if taken.all isBlank then s.newlines else 0 })

/-- Steps over the characters from here that have a property. -/
def skipWhile (s : Scanner) (p : Char → Bool) : Option Scanner := (s.span p).map (·.2)

/-- Steps over what is left of a line. -/
def skipLine (s : Scanner) : Option Scanner := s.skipWhile fun c => !isLineEnd c

/-- Steps over a character that is expected here. -/
def expect (s : Scanner) (c : Char) : Option Scanner := do
  s.need 1
  if s.peek = c then some s.skip else none

/-- Whether a character stands here three times, at the beginning of a line and with a gap behind
it. -/
def atTriple (s : Scanner) (c : Char) : Bool :=
  s.mark.column == 0 && s.peek == c && s.peekAt 1 == c && s.peekAt 2 == c && isGap (s.peekAt 3)

/-- Whether a document begins or ends here. -/
def atDocumentMark (s : Scanner) : Bool := s.atTriple '-' || s.atTriple '.'

/-! ## Comments -/

/-- How far comments are looked for ahead. -/
def lookahead : Nat := 512

/-- The number of characters before a comment mark ahead, where only characters with the property
stand before it. -/
def distance? (p : Char → Bool) : (limit : Nat) → List Char → Option Nat
  | limit + 1, c :: rest =>
    if c = '#' then some 0 else if p c then (distance? p limit rest).map (· + 1) else none
  | _, _ => none

/-- Fails if the text becomes unreadable where a comment is looked for: behind characters with the
property, up to the limit. -/
def canLookAhead (s : Scanner) (p : Char → Bool) : (limit : Nat) → List Char → Bool
  | limit + 1, c :: rest => !p c || canLookAhead s p limit rest
  | 0, _ => true
  | _ + 1, [] => !s.broken

/-- A comment behind a token on the same line is part of that token's line. -/
def skipLineComment (s : Scanner) : Option Scanner :=
  if 0 < s.newlines then some s
  else if !s.canLookAhead isBlank lookahead s.rest then none
  else
    match distance? isBlank lookahead s.rest with
    | none => some s
    | some _ => s.skipLine

/-- A blank, or an end of line that is a single byte. -/
def isThinSpace (c : Char) : Bool := isBlank c || c == '\r' || c == '\n'

/-- Steps over characters until `index` is reached. -/
def skipTo (index : Nat) (s : Scanner) : Option (Next Scanner Scanner) :=
  if index ≤ s.mark.index then some (.done s)
  else if isBreak s.peek then some (.again s.skipBreak)
  else some (.again s.skip)

/-- Goes on from the end of a comment to the end of the next one, if only blanks and ends of lines
stand between them. -/
def nextComment (s : Scanner) : Option (Next Scanner Scanner) := do
  let here := s.peek
  if !isThinSpace here then
    s.need 2
    return .done s
  if !s.canLookAhead isThinSpace (lookahead - 1) s.rest.tail then failure
  match distance? isThinSpace (lookahead - 1) s.rest.tail with
  | none => return .done s
  | some ahead =>
    let s ← iterate (skipTo (s.mark.index + ahead + 1)) s.bound s
    let s ← s.skipLine
    return .again s

/-- Steps over a comment here and the comments that follow it. -/
def skipComments (s : Scanner) : Option Scanner := do
  let s ← s.skipLine
  iterate nextComment s.bound s

end Scanner

end Tapelang.Yaml
