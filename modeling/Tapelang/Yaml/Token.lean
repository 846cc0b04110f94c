import Tapelang.Yaml.Scalar

/-! # YAML tokens

The tokens of a YAML text, and how those are read that are neither marks nor scalars: names,
tags and directives.
-/

namespace Tapelang.Yaml

/-- A token. Blocks have no marks of their own; their beginnings and ends come from the
indentation. -/
inductive Token where
  | streamEnd
  | version (major minor : Nat)
  /-- What a handle stands for at the beginning of a tag. -/
  | tagDirective (handle start : Bytes)
  | documentStart
  | documentEnd
  | blockSequence
  | blockMapping
  | blockEnd
  | flowSequence
  | flowSequenceEnd
  | flowMapping
  | flowMappingEnd
  | blockEntry
  | flowEntry
  | key
  | value
  | alias (name : Bytes)
  | anchor (name : Bytes)
  | tag (handle suffix : Bytes)
  | scalar (text : Bytes) (plain : Bool)
  deriving DecidableEq, Repr, Inhabited

/-! ## Names -/

/-- Whether a name may end before a character. -/
def endsName (c : Char) : Bool := isGap c || "?:,]\x7d%@\x60".contains c

/-- The name behind the mark of an anchor or alias, and the scanner behind it. -/
def nameAt (s : Scanner) : Option (Bytes × Scanner) := do
  let (name, s) ← s.skip.span isNameChar
  if name.isEmpty ∨ !endsName s.peek then failure
  return (encode name, s)

/-! ## Tags -/

/-- Whether a character may stand in a tag. -/
def isTagChar (c : Char) : Bool := isNameChar c || ";/?:@&=+$,.!~*'()[]%".contains c

/-- A tag that is being read: its bytes, the last one first, and how many bytes of a character are
to come. -/
structure TagText where
  scanner : Scanner
  bytes : Bytes := []
  due : Nat := 0
  deriving Repr, Inhabited

/-- The byte that is written as a percent sign and two digits here. -/
def percentByte (s : Scanner) : Option UInt8 := do
  s.need 3
  if s.peek ≠ '%' then failure
  let high ← hexValue? (s.peekAt 1)
  let low ← hexValue? (s.peekAt 2)
  return (high * 16 + low).toUInt8

/-- Takes a character of a tag, or a byte that is written in digits. -/
def stepTag (t : TagText) : Option (Next TagText TagText) := do
  let s := t.scanner
  s.need 1
  if 0 < t.due then
    let b ← percentByte s
    if !Text.isTail b then failure
    return .again ⟨s.skipMany 3, b :: t.bytes, t.due - 1⟩
  if s.peek = '%' then
    let b ← percentByte s
    let due ← tailLength? b
    return .again ⟨s.skipMany 3, b :: t.bytes, due⟩
  if isTagChar s.peek then return .again ⟨s.skip, encode [s.peek] ++ t.bytes, 0⟩
  return .done t

/-- The characters of a tag from here on, and the scanner behind them. -/
def tagText (s : Scanner) : Option (Bytes × Scanner) := do
  let t ← iterate stepTag s.bound { scanner := s }
  return (t.bytes.reverse, t.scanner)

/-- The mark of a tag, letters behind it and another mark if it comes next: whether there is one, the
letters, and the scanner behind it all. -/
def tagHandle (s : Scanner) : Option (Bool × List Char × Scanner) := do
  let s ← s.expect '!'
  s.need 1
  let (letters, s) ← s.span isNameChar
  if s.peek = '!' then return (true, letters, s.skip)
  return (false, letters, s)

/-- A handle with its marks. -/
def handleBytes (letters : List Char) : Bytes := utf8 "!" ++ encode letters ++ utf8 "!"

/-- The tag that is written between `<` and `>`. -/
def verbatimTag (s : Scanner) : Option (Token × Scanner) := do
  let (suffix, s) ← tagText (s.skipMany 2)
  if suffix.isEmpty then failure
  let s ← s.expect '>'
  return (.tag [] suffix, s)

/-- The tag that is written with a handle, or with the single mark. -/
def shorthandTag (s : Scanner) : Option (Token × Scanner) := do
  let (closed, letters, s) ← tagHandle s
  let (suffix, s) ← tagText s
  if closed then
    if suffix.isEmpty then failure
    return (.tag (handleBytes letters) suffix, s)
  let suffix := encode letters ++ suffix
  return (if suffix.isEmpty then .tag [] (utf8 "!") else .tag (utf8 "!") suffix, s)

/-- The tag here, which a gap must follow. -/
def tagAt (s : Scanner) : Option (Token × Scanner) := do
  s.need 2
  let (tag, s) ← if s.peekAt 1 = '<' then verbatimTag s else shorthandTag s
  s.need 1
  if !isGap s.peek then failure
  return (tag, s)

/-! ## Directives -/

/-- A number of one or two digits. -/
def versionNumber (s : Scanner) : Option (Nat × Scanner) := do
  let (digits, s) ← s.span Char.isDigit
  if digits.isEmpty ∨ 2 < digits.length then failure
  return (digits.foldl (fun n c => 10 * n + (c.toNat - 48)) 0, s)

/-- The version that a directive gives. -/
def versionDirective (s : Scanner) : Option (Token × Scanner) := do
  let s ← s.skipWhile isBlank
  let (major, s) ← versionNumber s
  let s ← s.expect '.'
  let (minor, s) ← versionNumber s
  return (.version major minor, s)

/-- The handle that a directive gives a meaning. -/
def handleDirective (s : Scanner) : Option (Token × Scanner) := do
  let s ← s.skipWhile isBlank
  let (closed, letters, s) ← tagHandle s
  if !closed ∧ !letters.isEmpty then failure
  if !isBlank s.peek then failure
  let s ← s.skipWhile isBlank
  let (start, s) ← tagText s
  if start.isEmpty ∨ !isGap s.peek then failure
  return (.tagDirective (if closed then handleBytes letters else utf8 "!") start, s)

/-- The directive here, with the rest of its line. -/
def directiveAt (s : Scanner) : Option (Token × Scanner) := do
  let (name, s) ← s.skip.span isNameChar
  if !isGap s.peek then failure
  let (token, s) ←
    if name = "YAML".toList then versionDirective s
    else if name = "TAG".toList then handleDirective s
    else failure
  let s ← blockHeader s
  return (token, s)

end Tapelang.Yaml
