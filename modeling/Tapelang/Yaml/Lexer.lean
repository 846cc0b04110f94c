import Tapelang.Yaml.Token

/-! # Cutting a YAML text into tokens

Two things about YAML are not seen from a token alone. Blocks begin and end by indentation, so the
lexer keeps the columns of the blocks that are open. And whether something is a key is known only
when a colon follows it on the same line, so the lexer remembers for each level of brackets where
the last thing stands that may be a key, and puts the mark of a key in front of it afterwards.
Tokens wait in a queue until it is certain that none will be put in front of them.
-/

namespace Tapelang.Yaml

/-- A place where a key may have begun. -/
structure KeyStart where
  /-- Whether it is still possible. -/
  possible : Bool
  /-- Whether it must be a key, because it begins a line of a block of keys. -/
  required : Bool
  /-- The number of the token that begins there. -/
  number : Nat
  mark : Mark
  deriving DecidableEq, Repr, Inhabited

/-- A text that is being cut into tokens. -/
structure Lexer where
  scanner : Scanner
  /-- The tokens that wait. -/
  queue : List Token := []
  /-- The number of tokens that have been taken from the queue. -/
  taken : Nat := 0
  /-- The number of brackets that are open. -/
  flowLevel : Nat := 0
  /-- The place where a key may have begun, inside these brackets. -/
  keyStart : KeyStart := ⟨false, false, 0, {}⟩
  /-- The same inside each of the brackets around these, innermost first. -/
  outerStarts : List KeyStart := []
  /-- Whether a key may begin here. -/
  keyAllowed : Bool := true
  /-- The column of the innermost block plus one, or zero outside all blocks. -/
  depth : Nat := 0
  /-- The same for the blocks around it, and how many these are. -/
  outerDepths : List Nat := []
  blocks : Nat := 0
  deriving Repr, Inhabited

namespace Lexer

/-- A lexer at the beginning of a text. -/
def ofText (text : Bytes) : Lexer := { scanner := .ofText text }

/-- Whether no bracket is open. -/
def inBlock (l : Lexer) : Bool := l.flowLevel == 0

/-- Puts a token at the end of the queue and goes on behind it. -/
def push (l : Lexer) (t : Token) (scanner : Scanner) : Lexer :=
  { l with queue := l.queue ++ [t], scanner }

/-- Puts a token into the queue before the one with a number. -/
def insert (l : Lexer) (number : Nat) (t : Token) : Lexer :=
  let place := number - l.taken
  { l with queue := l.queue.take place ++ t :: l.queue.drop place }

/-- The number of the next token that is put at the end of the queue. -/
def nextNumber (l : Lexer) : Nat := l.taken + l.queue.length

/-! ## Keys -/

/-- How far ahead of a key its colon may be. -/
def maxKeyLength : Nat := 1024

/-- Whether a place may still turn out to be the beginning of a key: the colon has to be on the same
line and near. It is an error if it cannot be a key but must. -/
def KeyStart.isAlive (k : KeyStart) (here : Mark) : Option Bool :=
  if !k.possible then some false
  else if k.mark.line < here.line ∨ k.mark.index + maxKeyLength < here.index then
    if k.required then none else some false
  else some true

/-- Gives up the place where a key may have begun; it is an error if it must be one. -/
def dropKey (l : Lexer) : Option Lexer :=
  if l.keyStart.possible ∧ l.keyStart.required then none
  else some { l with keyStart := { l.keyStart with possible := false } }

/-- Remembers that a key may begin here. -/
def saveKey (l : Lexer) : Option Lexer :=
  if !l.keyAllowed then some l
  else
    let required := l.inBlock && l.depth == l.scanner.mark.column + 1
    l.dropKey.map fun l => { l with keyStart := ⟨true, required, l.nextNumber, l.scanner.mark⟩ }

/-- Whether the token in front of the queue may still turn out to be the beginning of a key. -/
def headIsOpen (l : Lexer) : Option Bool :=
  let starts := (l.keyStart :: l.outerStarts).takeWhile fun k => l.taken ≤ k.number
  match starts.find? fun k => k.number == l.taken && k.possible with
  | none => some false
  | some k => KeyStart.isAlive k l.scanner.mark

/-! ## Blocks -/

/-- The most blocks, and the most brackets, that may be inside each other. -/
def maxDepth : Nat := 10000

/-- Opens a block at a column that is deeper than the innermost one, with its token before the one
with a number. -/
def openBlock (l : Lexer) (column number : Nat) (t : Token) : Option Lexer :=
  if !l.inBlock ∨ column < l.depth then some l
  else if maxDepth ≤ l.blocks then none
  else
    some (insert { l with
      outerDepths := l.depth :: l.outerDepths, depth := column + 1, blocks := l.blocks + 1 } number t)

/-- Ends blocks, given the depths of those around them, until the innermost one is not deeper than
`depth`. -/
def closeDeeper (depth : Nat) : List Nat → Lexer → Lexer
  | outer :: rest, l =>
    if depth < l.depth then
      closeDeeper depth rest { l with
        queue := l.queue ++ [.blockEnd], depth := outer, outerDepths := rest, blocks := l.blocks - 1 }
    else l
  | [], l => l

/-- Ends the blocks that are deeper than `depth`. -/
def closeBlocks (l : Lexer) (depth : Nat) : Lexer :=
  if l.inBlock then closeDeeper depth l.outerDepths l else l

/-! ## Between tokens -/

/-- A step to the next token: over blanks and comments, and over the end of a line, behind which a
key may begin. A tab is a blank only where it cannot be taken for indentation. -/
def stepGap (l : Lexer) : Option (Next Lexer Lexer) := do
  let s := l.scanner
  s.need 1
  let s := if s.mark.column = 0 ∧ s.peek = '\ufeff' then s.skip else s
  let tabs := !l.inBlock || !l.keyAllowed
  let s ← s.skipWhile fun c => c == ' ' || (tabs && c == '\t')
  let s ← if s.peek = '#' then s.skipComments else pure s
  if isBreak s.peek then
    s.need 2
    return .again { l with scanner := s.skipBreak, keyAllowed := l.keyAllowed || l.inBlock }
  return .done { l with scanner := s }

/-- Goes to the next token. -/
def skipGap (l : Lexer) : Option Lexer := iterate stepGap l.scanner.bound l

/-! ## Tokens -/

/-- Takes what is not part of any block: the end of the text, directives and the marks of
documents. -/
def outsideBlocks (l : Lexer) : Option Lexer :=
  (dropKey (l.closeBlocks 0)).map fun l => { l with keyAllowed := false }

/-- Takes the end of the text, which ends a line. -/
def takeEnd (l : Lexer) : Option Lexer := do
  let s := l.scanner
  let s := if s.mark.column = 0 then s
    else { s with mark := { s.mark with line := s.mark.line + 1, column := 0 } }
  let l ← outsideBlocks { l with scanner := s }
  return l.push .streamEnd s

/-- Takes a directive. -/
def takeDirective (l : Lexer) : Option Lexer := do
  let l ← l.outsideBlocks
  let (t, s) ← directiveAt l.scanner
  return l.push t s

/-- Takes the mark of a document. -/
def takeDocumentMark (l : Lexer) (t : Token) : Option Lexer := do
  let l ← l.outsideBlocks
  return l.push t (l.scanner.skipMany 3)

/-- Takes an opening bracket. -/
def takeOpening (l : Lexer) (t : Token) : Option Lexer := do
  let l ← l.saveKey
  if maxDepth ≤ l.flowLevel then failure
  let l := { l with
    flowLevel := l.flowLevel + 1, keyAllowed := true
    outerStarts := l.keyStart :: l.outerStarts
    keyStart := ⟨false, false, l.nextNumber, l.scanner.mark⟩ }
  return l.push t l.scanner.skip

/-- Takes a closing bracket. -/
def takeClosing (l : Lexer) (t : Token) : Option Lexer := do
  let l ← l.dropKey
  let l := match l.outerStarts with
    | outer :: rest =>
      { l with flowLevel := l.flowLevel - 1, keyStart := outer, outerStarts := rest }
    | [] => l
  return push { l with keyAllowed := false } t l.scanner.skip

/-- Takes a comma between brackets. -/
def takeComma (l : Lexer) : Option Lexer := do
  let l ← l.dropKey
  return push { l with keyAllowed := true } .flowEntry l.scanner.skip

/-- Takes the mark of an entry of a block. -/
def takeEntry (l : Lexer) : Option Lexer := do
  let l ← if l.inBlock then
      if l.keyAllowed then l.openBlock l.scanner.mark.column l.nextNumber .blockSequence else failure
    else pure l
  let l ← l.dropKey
  return push { l with keyAllowed := true } .blockEntry l.scanner.skip

/-- Takes the mark of a key. -/
def takeKey (l : Lexer) : Option Lexer := do
  let l ← if l.inBlock then
      if l.keyAllowed then l.openBlock l.scanner.mark.column l.nextNumber .blockMapping else failure
    else pure l
  let l ← l.dropKey
  return push { l with keyAllowed := l.inBlock } .key l.scanner.skip

/-- Takes the mark of a value. If a key may have begun before it, it has. -/
def takeValue (l : Lexer) : Option Lexer := do
  if ← KeyStart.isAlive l.keyStart l.scanner.mark then
    let start := l.keyStart
    let l := l.insert start.number .key
    let l ← l.openBlock start.mark.column start.number .blockMapping
    let l := { l with keyStart := { start with possible := false }, keyAllowed := false }
    return l.push .value l.scanner.skip
  let l ← if l.inBlock then
      if l.keyAllowed then l.openBlock l.scanner.mark.column l.nextNumber .blockMapping else failure
    else pure l
  let l := { l with
    keyStart := { l.keyStart with possible := false }, keyAllowed := l.inBlock }
  return l.push .value l.scanner.skip

/-- Takes an anchor or an alias. -/
def takeName (l : Lexer) (token : Bytes → Token) : Option Lexer := do
  let l ← l.saveKey
  let (name, s) ← nameAt l.scanner
  return push { l with keyAllowed := false } (token name) s

/-- Takes a tag. -/
def takeTag (l : Lexer) : Option Lexer := do
  let l ← l.saveKey
  let (t, s) ← tagAt l.scanner
  return push { l with keyAllowed := false } t s

/-- Takes a block scalar. -/
def takeBlock (l : Lexer) (literal : Bool) : Option Lexer := do
  let l ← l.dropKey
  let (text, s) ← blockScalar literal l.depth l.scanner
  return push { l with keyAllowed := true } (.scalar (encode text) false) s

/-- Takes a quoted scalar. -/
def takeQuotedScalar (l : Lexer) : Option Lexer := do
  let l ← l.saveKey
  let (text, s) ← quotedScalar l.scanner
  return push { l with keyAllowed := false } (.scalar (encode text) false) s

/-- Takes a plain scalar. A key may begin behind it if a line has ended there. -/
def takePlain (l : Lexer) : Option Lexer := do
  let l ← l.saveKey
  let (text, s, lineEnded) ← plainScalar (!l.inBlock) l.depth l.scanner
  return push { l with keyAllowed := lineEnded } (.scalar (encode text) true) s

/-- Whether a plain scalar may begin here. -/
def beginsPlain (l : Lexer) : Bool :=
  let c := l.scanner.peek
  let next := l.scanner.peekAt 1
  !(isGap c || "-?:,[]\x7b\x7d#&*!|>'\"%@\x60".contains c) || (c == '-' && !isBlank next) ||
    (l.inBlock && (c == '?' || c == ':') && !isGap next)

/-- Takes a token that is part of a document. -/
def takeContent (l : Lexer) : Option Lexer :=
  let c := l.scanner.peek
  let beforeGap := isGap (l.scanner.peekAt 1)
  if c = '[' then l.takeOpening .flowSequence
  else if c = '\x7b' then l.takeOpening .flowMapping
  else if c = ']' then l.takeClosing .flowSequenceEnd
  else if c = '\x7d' then l.takeClosing .flowMappingEnd
  else if c = ',' then l.takeComma
  else if c = '-' ∧ beforeGap then l.takeEntry
  else if c = '?' ∧ (!l.inBlock ∨ beforeGap) then l.takeKey
  else if c = ':' ∧ (!l.inBlock ∨ beforeGap) then l.takeValue
  else if c = '*' then l.takeName .alias
  else if c = '&' then l.takeName .anchor
  else if c = '!' then l.takeTag
  else if c = '|' ∧ l.inBlock then l.takeBlock true
  else if c = '>' ∧ l.inBlock then l.takeBlock false
  else if c = singleQuote ∨ c = doubleQuote then l.takeQuotedScalar
  else if l.beginsPlain then l.takePlain
  else none

/-- Takes a token that is part of a document, and the comment behind it. -/
def takeCommented (l : Lexer) : Option Lexer := do
  let l ← l.takeContent
  if l.queue.getLast? = some .blockEntry then return l
  let s ← l.scanner.skipLineComment
  return { l with scanner := s }

/-- Cuts the next token, or several that begin or end at one place, and puts them into the queue. -/
def fetch (l : Lexer) : Option Lexer := do
  l.scanner.need 1
  let l ← l.skipGap
  let l := l.closeBlocks (l.scanner.mark.column + 1)
  let s := l.scanner
  s.need 4
  if s.peek = theEnd then l.takeEnd
  else if s.mark.column = 0 ∧ s.peek = '%' then l.takeDirective
  else if s.atTriple '-' then l.takeDocumentMark .documentStart
  else if s.atTriple '.' then l.takeDocumentMark .documentEnd
  else l.takeCommented

/-! ## The queue -/

/-- Cuts a token unless three of them wait and the first of them is certain. -/
def stepQueue (l : Lexer) : Option (Next Lexer Lexer) := do
  match l.queue with
  | _ :: _ :: _ :: _ =>
    if ← l.headIsOpen then return .again (← l.fetch)
    return .done l
  | _ => return .again (← l.fetch)

/-- The next token, which stays in the queue. -/
def peek (l : Lexer) : Option (Token × Lexer) := do
  let l ← iterate stepQueue l.scanner.bound l
  let t ← l.queue.head?
  return (t, l)

/-- The lexer without the next token. -/
def advance (l : Lexer) : Lexer := { l with queue := l.queue.tail, taken := l.taken + 1 }

end Lexer

end Tapelang.Yaml
