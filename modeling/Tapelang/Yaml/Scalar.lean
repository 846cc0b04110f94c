import Tapelang.Yaml.Scanner

/-! # Scalars in YAML texts

A scalar is written plainly, between quotes, or as a block of lines. In all but a literal block,
lines are folded: a single end of line stands for a blank, and further ones for themselves.

Texts are gathered last character first.
-/

namespace Tapelang.Yaml

/-- What stands between two words of a scalar: blanks, or ends of lines with the blanks around them
dropped. -/
inductive Gap where
  /-- Blanks, the last one first. -/
  | blanks (seen : List Char)
  /-- The first end of a line, if it counts, and the further ones, the last one first. -/
  | breaks (first : Option Char) (more : List Char)
  deriving DecidableEq, Repr, Inhabited

namespace Gap

/-- No gap at all. -/
def none : Gap := .blanks []

/-- Whether a line has ended in the gap. -/
def hasBreak : Gap → Bool
  | blanks _ => false
  | breaks _ _ => true

/-- Whether there is no gap. -/
def isNone : Gap → Bool
  | blanks seen => seen.isEmpty
  | breaks _ _ => false

/-- The gap with a blank behind it. -/
def addBlank (c : Char) : Gap → Gap
  | blanks seen => blanks (c :: seen)
  | breaks first more => breaks first more

/-- The gap with an end of line behind it. -/
def addBreak (c : Char) : Gap → Gap
  | blanks _ => breaks (some c) []
  | breaks first more => breaks first (c :: more)

/-- The text with a folded gap behind it. -/
def foldOnto (text : List Char) : Gap → List Char
  | blanks seen => seen ++ text
  | breaks (some '\n') [] => ' ' :: text
  | breaks (some '\n') more => more ++ text
  | breaks first more => more ++ first.toList ++ text

end Gap

/-! ## Plain scalars -/

/-- A plain or quoted scalar that is being read. -/
structure Gathering where
  scanner : Scanner
  text : List Char := []
  gap : Gap := .none
  deriving Repr, Inhabited

namespace Gathering

/-- Takes a blank or an end of line. -/
def takeSpace (g : Gathering) : Option Gathering := do
  let c := g.scanner.peek
  if isBlank c then
    return { g with scanner := g.scanner.skip, gap := g.gap.addBlank c }
  g.scanner.need 2
  return { g with scanner := g.scanner.skipBreak, gap := g.gap.addBreak g.scanner.breakChar }

/-- Puts characters behind the text and what stands between them. -/
def add (g : Gathering) (c : Char) (scanner : Scanner) : Gathering :=
  { scanner, text := c :: g.gap.foldOnto g.text, gap := .none }

end Gathering

/-- Whether a plain scalar ends at a character that is no gap: a colon before a gap, or, inside
brackets, a mark that has a meaning there. -/
def endsPlain (inFlow : Bool) (s : Scanner) : Bool :=
  let c := s.peek
  (c == ':' && isGap (s.peekAt 1)) ||
    (inFlow && (c == ',' || c == '[' || c == ']' || c == '\x7b' || c == '\x7d' ||
      (c == '?' && (s.peekAt 1 == ' ' || isLineEnd (s.peekAt 1)))))

/-- A step through a plain scalar whose further lines are indented to `indent`. -/
def stepPlain (inFlow : Bool) (indent : Nat) (g : Gathering) : Option (Next Gathering Gathering) :=
  do
  let s := g.scanner
  s.need (if g.gap.isNone then 2 else 1)
  let c := s.peek
  if isBlank c || isBreak c then
    if g.gap.hasBreak ∧ s.mark.column < indent ∧ c = '\t' then failure
    return .again (← g.takeSpace)
  if c = theEnd then return .done g
  if !g.gap.isNone then
    if !inFlow ∧ s.mark.column < indent then return .done g
    s.need 4
    if s.atDocumentMark ∨ c = '#' then return .done g
  if endsPlain inFlow s then return .done g
  return .again (g.add c s.skip)

/-- A plain scalar, the scanner behind it, and whether a line has ended behind it. -/
def plainScalar (inFlow : Bool) (indent : Nat) (s : Scanner) :
    Option (List Char × Scanner × Bool) := do
  s.need 4
  let g ← iterate (stepPlain inFlow indent) s.bound { scanner := s }
  return (g.text.reverse, g.scanner, g.gap.hasBreak)

/-! ## Quoted scalars -/

/-- The quote inside which it is written twice. -/
def singleQuote : Char := '\x27'

/-- The quote inside which a backslash has a meaning. -/
def doubleQuote : Char := '\x22'

/-- The character that a letter stands for behind a backslash. -/
def escapeChar? (c : Char) : Option Char :=
  [('0', '\x00'), ('a', '\x07'), ('b', '\x08'), ('t', '\t'), ('\t', '\t'), ('n', '\n'),
    ('v', '\x0b'), ('f', '\x0c'), ('r', '\r'), ('e', '\x1b'), (' ', ' '), ('\x22', '\x22'),
    ('\x27', '\x27'), ('\x5c', '\x5c'), ('N', '\u0085'), ('_', '\u00a0'), ('L', '\u2028'), ('P', '\u2029')].lookup c

/-- The number of hexadecimal digits that follow a letter behind a backslash. -/
def escapeDigits? (c : Char) : Option Nat :=
  [('x', 2), ('u', 4), ('U', 8)].lookup c

/-- The character of a code; surrogates have none. -/
def charOf? (code : Nat) : Option Char :=
  if code.isValidChar then some (Char.ofNat code) else none

/-- The number that hexadecimal digits write. -/
def hexNumber? (digits : List Char) : Option Nat :=
  (digits.mapM hexValue?).map fun values => values.foldl (fun n v => n * 16 + v) 0

/-- Steps over `n` characters. -/
def Scanner.skipMany : (n : Nat) → Scanner → Scanner
  | 0, s => s
  | n + 1, s => skipMany n s.skip

/-- The character that is written with a backslash here, and the scanner behind it. -/
def escapeAt (s : Scanner) : Option (Char × Scanner) :=
  let letter := s.peekAt 1
  let s := s.skipMany 2
  match escapeChar? letter, escapeDigits? letter with
  | some c, _ => some (c, s)
  | none, some n => do
    s.need n
    let code ← hexNumber? ((List.range n).map s.peekAt)
    let c ← charOf? code
    return (c, s.skipMany n)
  | none, none => none

/-- Takes a character between quotes that is neither a gap nor the closing quote. -/
def takeQuoted (quote : Char) (g : Gathering) : Option Gathering := do
  let s := g.scanner
  let c := s.peek
  if c = quote then return g.add c (s.skipMany 2)
  if quote = doubleQuote ∧ c = '\x5c' then
    if isBreak (s.peekAt 1) then
      s.need 3
      return { scanner := s.skip.skipBreak, text := g.gap.foldOnto g.text, gap := .breaks none [] }
    let (c, s) ← escapeAt s
    return g.add c s
  return g.add c s.skip

/-- A step through a quoted scalar. -/
def stepQuoted (quote : Char) (g : Gathering) : Option (Next Gathering Gathering) := do
  let s := g.scanner
  s.need (if g.gap.isNone then 2 else 1)
  let c := s.peek
  if isBlank c || isBreak c then return .again (← g.takeSpace)
  if !g.gap.isNone then s.need 4
  if s.atDocumentMark ∨ c = theEnd then failure
  if c = quote ∧ ¬ (quote = singleQuote ∧ s.peekAt 1 = quote) then
    return .done { g with text := g.gap.foldOnto g.text, scanner := s.skip }
  return .again (← takeQuoted quote g)

/-- A quoted scalar and the scanner behind it. -/
def quotedScalar (s : Scanner) : Option (List Char × Scanner) := do
  let quote := s.peek
  let s := s.skip
  s.need 4
  let g ← iterate (stepQuoted quote) s.bound { scanner := s }
  return (g.text.reverse, g.scanner)

/-! ## Blocks -/

/-- What becomes of the ends of lines at the end of a block. -/
inductive Chomping where
  | strip
  | clip
  | keep
  deriving DecidableEq, Repr, Inhabited

/-- The chomping that a character asks for. -/
def Chomping.ofChar? (c : Char) : Option Chomping :=
  if c = '+' then some .keep else if c = '-' then some .strip else none

/-- The marks behind the one that begins a block, in either order: how it is chomped and how far it
is indented, zero standing for no mark. -/
def blockMarks (s : Scanner) : Option (Chomping × Nat × Scanner) := do
  s.need 1
  match Chomping.ofChar? s.peek with
  | some chomping =>
    let s := s.skip
    s.need 1
    let (depth, s) ← depthMark s
    return (chomping, depth, s)
  | none =>
    let (depth, s) ← depthMark s
    if depth = 0 then return (.clip, 0, s)
    s.need 1
    match Chomping.ofChar? s.peek with
    | some chomping => return (chomping, depth, s.skip)
    | none => return (.clip, depth, s)
where
  /-- A digit other than zero, or nothing. -/
  depthMark (s : Scanner) : Option (Nat × Scanner) :=
    if !s.peek.isDigit then some (0, s)
    else if s.peek = '0' then none
    else some (s.peek.toNat - 48, s.skip)

/-- Steps over what may stand behind the marks of a block on its first line. -/
def blockHeader (s : Scanner) : Option Scanner := do
  let s ← s.skipWhile isBlank
  let s ← if s.peek = '#' then s.skipLine else pure s
  if !isLineEnd s.peek then failure
  if isBreak s.peek then
    s.need 2
    return s.skipBreak
  return s

/-- Lines of a block that hold nothing: the scanner, the ends of lines, the last one first, and the
largest column that was reached. -/
structure EmptyLines where
  scanner : Scanner
  breaks : List Char := []
  widest : Nat := 0
  deriving Repr, Inhabited

/-- Takes the indentation of a line, and its end if it holds nothing else. An indentation of zero
is still unknown. -/
def stepEmptyLine (indent : Nat) (e : EmptyLines) : Option (Next EmptyLines EmptyLines) := do
  e.scanner.need 1
  let inside := fun (s : Scanner) => indent == 0 || s.mark.column < indent
  let s := e.scanner
  if inside s ∧ s.peek = ' ' then return .again { e with scanner := s.skip }
  let widest := max e.widest s.mark.column
  if inside s ∧ s.peek = '\t' then failure
  if !isBreak s.peek then return .done { e with widest }
  s.need 2
  return .again { scanner := s.skipBreak, breaks := s.breakChar :: e.breaks, widest }

/-- Empty lines in a block of a given indentation, which is found out if it is zero; it is deeper
than that of what the block is part of. -/
def emptyLines (indent least : Nat) (s : Scanner) : Option (Nat × EmptyLines) := do
  let e ← iterate (stepEmptyLine indent) (2 * s.bound) { scanner := s }
  return (if indent = 0 then max (max e.widest least) 1 else indent, e)

/-- A block that is being read, at the beginning of a line. -/
structure Block where
  empty : EmptyLines
  text : List Char := []
  /-- The end of the last line that holds something. -/
  lineBreak : Option Char := none
  /-- Whether that line begins with a blank. -/
  indented : Bool := false
  deriving Repr, Inhabited

/-- Takes a line of a block that holds something. -/
def stepBlock (literal : Bool) (indent : Nat) (b : Block) : Option (Next Block Block) := do
  let s := b.empty.scanner
  s.need 1
  if s.mark.column ≠ indent ∨ s.peek = theEnd then return .done b
  let blankFirst := isBlank s.peek
  let folded := !literal && !b.indented && !blankFirst && b.lineBreak == some '\n'
  let text :=
    if folded then if b.empty.breaks.isEmpty then ' ' :: b.text else b.text
    else b.lineBreak.toList ++ b.text
  let (line, s) ← s.span fun c => !isLineEnd c
  s.need 2
  let lineBreak := if isBreak s.peek then some s.breakChar else none
  let s := if isBreak s.peek then s.skipBreak else s
  let (_, empty) ← emptyLines indent indent s
  return .again
    { empty, text := line.reverse ++ (b.empty.breaks ++ text), lineBreak, indented := blankFirst }

/-- A block scalar, whose marks stand here, and the scanner behind it. It is part of something that
is indented to one less than `least`. -/
def blockScalar (literal : Bool) (least : Nat) (s : Scanner) : Option (List Char × Scanner) := do
  let (chomping, depth, s) ← blockMarks s.skip
  let s ← blockHeader s
  let indent := if depth = 0 then 0 else least - 1 + depth
  let (indent, empty) ← emptyLines indent least s
  let b ← iterate (stepBlock literal indent) s.bound { empty }
  let text := if chomping = .strip then b.text else b.lineBreak.toList ++ b.text
  let text := if chomping = .keep then b.empty.breaks ++ text else text
  return (text.reverse, b.empty.scanner)

end Tapelang.Yaml
