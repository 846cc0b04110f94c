import Tapelang.Setting
import Tapelang.Text.Blank

/-! # Lists of variables

A file of lines `NAME=value`, with comments behind `#`. A value may be quoted, and then go on over
several lines. Unless it is in single quotes, it may refer to variables of the environment and to
those that the file gives before it, as `$NAME` or with braces around the name.
-/

namespace Tapelang.Dotenv

open Text

/-! ## Lines -/

/-- The number that two bytes write. -/
def unitOf (bigEndian : Bool) (a b : UInt8) : Nat :=
  if bigEndian then a.toNat * 256 + b.toNat else b.toNat * 256 + a.toNat

/-- The character of a unit of 16 bits and of the one behind it, and whether it takes both. What is
no character is replaced. -/
def unitChar (unit : Nat) (next : Option Nat) : Nat × Bool :=
  if unit < 0xd800 ∨ 0xdfff < unit then (unit, false)
  else
    match next with
    | some low =>
      if 0xdc00 ≤ low ∧ low ≤ 0xdfff then
        if unit < 0xdc00 then (0x10000 + (unit - 0xd800) * 0x400 + (low - 0xdc00), true)
        else (replacement, true)
      else (replacement, false)
    | none => (replacement, false)

/-- The UTF-8 form of a text in UTF-16, after `skip` bytes that have been dealt with. -/
def fromUtf16 (bigEndian : Bool) : (skip : Nat) → Bytes → Bytes
  | skip + 1, _ :: rest => fromUtf16 bigEndian skip rest
  | 0, a :: b :: rest =>
    let next := match rest with
      | c :: d :: _ => some (unitOf bigEndian c d)
      | _ => none
    let (code, both) := unitChar (unitOf bigEndian a b) next
    encodeChar code ++ fromUtf16 bigEndian (if both then 3 else 1) (b :: rest)
  | 0, [_] => encodeChar replacement
  | _, [] => []

/-- The text in UTF-8, without a byte order mark. Only a text with such a mark is mended. -/
def toUtf8 : Bytes → Bytes
  | 0xef :: 0xbb :: 0xbf :: rest => mend rest
  | 0xff :: 0xfe :: rest => fromUtf16 false 0 rest
  | 0xfe :: 0xff :: rest => fromUtf16 true 0 rest
  | text => text

/-- The lines of a text, which end with a line feed, a carriage return or both, after those that are
`done`, the last one first, and what has been `seen` of a line, the last byte first. -/
def linesFrom (done : List Bytes) (seen : Bytes) : Bytes → List Bytes
  | [] => (seen.reverse :: done).reverse
  | 13 :: 10 :: rest => linesFrom (seen.reverse :: done) [] rest
  | b :: rest =>
    if b = 10 ∨ b = 13 then linesFrom (seen.reverse :: done) [] rest
    else linesFrom done (b :: seen) rest

/-- The lines of a text. -/
def lines (text : Bytes) : List Bytes := linesFrom [] [] text

/-- The length that a line must not reach. -/
def maxLine : Nat := 65536

/-! ## Quoted values over several lines -/

/-- The place of the last byte that equals `b`. -/
def lastIndex? (b : UInt8) (text : Bytes) : Option Nat :=
  (text.reverse.findIdx? (· == b)).map fun i => text.length - 1 - i

/-- What stands behind the first `=`, or, without one, behind the first `:`. -/
def behindSign (line : Bytes) : Option Bytes :=
  let sign := if line.contains '='.toUInt8 then '='.toUInt8 else ':'.toUInt8
  match Bytes.breakOn? sign line with
  | some (_ :: _, after) => if after.isEmpty then none else some after
  | _ => none

/-- The quote that a line opens and does not close. -/
def openQuote? (line : Bytes) : Option UInt8 := do
  let value := trimBlanks (← behindSign line)
  let quote ← value.head?
  if quote ≠ 34 ∧ quote ≠ 39 then failure
  match lastIndex? quote (trimBlanks value.tail) with
  | some i => if value[i]? = some 92 then some quote else none
  | none => some quote

/-- Whether a further line closes a quote. -/
def closesQuote (quote : UInt8) (further : Bytes) : Bool :=
  match lastIndex? quote further with
  | some (i + 1) => further[i]? != some 92
  | some 0 => true
  | none => false

/-- The text of a line without blanks at its ends, if it is none that says nothing. -/
def content? (line : Bytes) : Option Bytes :=
  let line := trimBlanks line
  if line.isEmpty ∨ line.head? = some '#'.toUInt8 then none else some line

/-- Lines that are being put together: the entries that are complete, the last one first, and a quote
that waits to be closed, with the lines since it was opened, the last one first. -/
structure Joining where
  done : List Bytes := []
  waiting : Option (UInt8 × List Bytes) := none
  deriving Repr, Inhabited

/-- Takes a line. -/
def Joining.take (j : Joining) (line : Bytes) : Joining :=
  match j.waiting with
  | some (quote, before) =>
    let lines := line :: before
    if closesQuote quote line then ⟨Bytes.join [10] lines.reverse :: j.done, none⟩
    else { j with waiting := some (quote, lines) }
  | none =>
    match content? line with
    | none => j
    | some line =>
      match openQuote? line with
      | some quote => { j with waiting := some (quote, [line]) }
      | none => { j with done := line :: j.done }

/-- The entries of a text, each a line or several; none if a line is too long or a quote is never
closed. -/
def entries? (text : Bytes) : Option (List Bytes) :=
  let all := lines (toUtf8 text)
  let joined := all.foldl Joining.take {}
  if (all.any fun line => maxLine ≤ line.length) ∨ joined.waiting.isSome then none
  else some joined.done.reverse

/-! ## The parts of an entry -/

/-- Whether a byte is an ASCII blank or ends a line. -/
def isSpace (b : UInt8) : Bool := b == 32 || b == 9 || b == 10 || b == 12 || b == 13

/-- Whether a byte may stand in a name. -/
def isNameByte (b : UInt8) : Bool :=
  (48 ≤ b && b ≤ 57) || (65 ≤ b && b ≤ 90) || (97 ≤ b && b ≤ 122) || b == '_'.toUInt8 ||
    b == '.'.toUInt8

/-- Whether only blanks, and perhaps a comment up to the end, stand behind a value. -/
def isTrailing (text : Bytes) : Bool :=
  match text.dropWhile isSpace with
  | [] => true
  | b :: rest => b == '#'.toUInt8 && !rest.contains 10

/-- The longest value that ends with the quote it begins with. It is looked for from the end: `after`
is what stands behind it, and the rest is held last byte first. -/
def quotedValue? (quote : UInt8) : (after : Bytes) → Bytes → Option Bytes
  | _, [] => none
  | after, b :: before =>
    if b = quote ∧ !before.isEmpty ∧ isTrailing after then some (b :: before).reverse
    else quotedValue? quote (b :: after) before

/-- A value in front of a comment or of the end. -/
def bareValue? (text : Bytes) : Option Bytes :=
  let (value, rest) := text.span fun b => b != '#'.toUInt8 && b != 10
  if !value.isEmpty ∧ isTrailing rest then some value else none

/-- The value in a text, which may be missing. -/
def value? (text : Bytes) : Option Bytes :=
  let quoted := match text.head? with
    | some 34 => quotedValue? 34 [] text.reverse
    | some 39 => quotedValue? 39 [] text.reverse
    | _ => none
  match quoted with
  | some value => some value
  | none =>
    match bareValue? text with
    | some value => some value
    | none => if isTrailing text then some [] else none

/-- The value behind a colon, with as few blanks skipped as possible, but at least one. -/
def colonValue? : Bytes → Option Bytes
  | [] => none
  | b :: rest =>
    if !isSpace b then none
    else
      match value? rest with
      | some value => some value
      | none => colonValue? rest

/-- The name and the value in a text. -/
def pair? (text : Bytes) : Option (Bytes × Bytes) :=
  let (name, rest) := text.span isNameByte
  if name.isEmpty then none
  else
    match rest.dropWhile isSpace, rest with
    | 61 :: after, _ => (value? (after.dropWhile isSpace)).map fun v => (name, v)
    | _, 58 :: after => (colonValue? after).map fun v => (name, v)
    | _, _ => none

/-- The name and the value of an entry. A word in front of the name is allowed, as shells want it. -/
def assignment? (entry : Bytes) : Option (Bytes × Bytes) :=
  let text := entry.dropWhile isSpace
  let exported := match Bytes.dropStart? (utf8 "export") text with
    | some (b :: rest) => if isSpace b then pair? (rest.dropWhile isSpace) else none
    | _ => none
  match exported with
  | some pair => some pair
  | none => pair? text

/-! ## Values -/

/-- The value of a variable. -/
abbrev Lookup := Bytes → Option Bytes

/-- The text with the escapes for ends of lines carried out. -/
def withLineEnds : Bytes → Bytes
  | 92 :: 110 :: rest => 10 :: withLineEnds rest
  | 92 :: 114 :: rest => 13 :: withLineEnds rest
  | b :: rest => b :: withLineEnds rest
  | [] => []

/-- The text without backslashes, except in front of a dollar sign; a backslash may stand for
itself. -/
def withoutBackslashes : Bytes → Bytes
  | 92 :: b :: rest =>
    if b = '$'.toUInt8 then 92 :: b :: withoutBackslashes rest else b :: withoutBackslashes rest
  | b :: rest => b :: withoutBackslashes rest
  | [] => []

/-- Whether a byte may stand in the name of a variable in a value. -/
def isVariableByte (b : UInt8) : Bool :=
  (48 ≤ b && b ≤ 57) || (65 ≤ b && b ≤ 90) || b == '_'.toUInt8

/-- The variable behind a dollar sign: the bytes that name it, and its name alone. -/
def reference (text : Bytes) : Bytes × Bytes :=
  let (opening, rest) := if text.head? = some 123 then ([123], text.tail) else ([], text)
  let (name, rest) := rest.span isVariableByte
  (opening ++ name ++ (if rest.head? = some 125 then [125] else []), name)

/-- The text with variables replaced by their values, after `skip` bytes that have been dealt with. A
dollar sign behind a backslash stands for itself. -/
def substitute (lookup : Lookup) : (skip : Nat) → Bytes → Bytes
  | _, [] => []
  | skip + 1, _ :: rest => substitute lookup skip rest
  | 0, 92 :: 36 :: rest =>
    let (bytes, _) := reference rest
    36 :: bytes ++ substitute lookup (bytes.length + 1) (36 :: rest)
  | 0, 36 :: rest =>
    let (bytes, name) := reference rest
    (lookup name).getD [] ++ substitute lookup bytes.length rest
  | 0, b :: rest => b :: substitute lookup 0 rest

/-- Every variable that a text may refer to. -/
def mentioned : Bytes → List Bytes
  | 36 :: rest => (reference rest).2 :: mentioned rest
  | _ :: rest => mentioned rest
  | [] => []

/-- What a value stands for. -/
def expand (lookup : Lookup) (raw : Bytes) : Bytes :=
  let value := trimBlanks raw
  let isQuoted := fun quote => 2 ≤ value.length ∧ value.head? = some quote ∧ value.getLast? = some quote
  let body := value.tail.dropLast
  if isQuoted 39 then body
  else if isQuoted 34 then
    substitute lookup 0 (withoutBackslashes (withLineEnds body))
  else substitute lookup 0 value

/-- Takes an entry, given the variables before it, the last one first. The environment counts more
than these. -/
def take (environment : Lookup) (known : List (Bytes × Bytes)) (entry : Bytes) :
    Option (List (Bytes × Bytes)) :=
  (assignment? entry).map fun (name, raw) =>
    let lookup := fun name =>
      match environment name with
      | some value => some value
      | none => known.lookup name
    (name, expand lookup raw) :: known

/-- The settings of a list of variables, all of them texts; none if it is malformed. -/
def readSettings? (environment : Lookup) (text : Bytes) : Option Configuration := do
  let entries ← entries? text
  let known ← entries.foldlM (take environment) []
  return ⟨known.map fun (name, value) => (name, .text value)⟩

end Tapelang.Dotenv
