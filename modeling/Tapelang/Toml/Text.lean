import Tapelang.Iteration
import Tapelang.Text.Utf8

/-! # Texts in TOML

Blanks, comments, the ends of lines, and the four kinds of strings. All text must be UTF-8 without
control characters. Every function takes what it reads from the front of a text and gives what
follows.
-/

namespace Tapelang.Toml

open Text

/-- Whether a byte is a space or a tab. -/
def isBlank (b : UInt8) : Bool := b == 32 || b == 9

/-- The text without the blanks in front of it. -/
def skipBlanks (text : Bytes) : Bytes := text.dropWhile isBlank

/-- Whether a byte is a control character other than a tab and the ends of lines. -/
def isControl (b : UInt8) : Bool := (b < 32 && b != 9 && b != 10 && b != 13) || b == 127

/-- The bytes of the character in front of a text, and what follows it. -/
def character? : Bytes → Option (Bytes × Bytes)
  | [] => none
  | b :: rest =>
    if isControl b then none
    else (charAt? b rest).map fun (_, more) => (b :: rest.take more, rest.drop more)

/-- What follows the end of a line, which is a line feed, with or without a carriage return in front
of it. -/
def newline? : Bytes → Option Bytes
  | 10 :: rest => some rest
  | 13 :: 10 :: rest => some rest
  | _ => none

/-- What follows an expected byte. -/
def expect? (b : UInt8) : Bytes → Option Bytes
  | c :: rest => if b = c then some rest else none
  | [] => none

/-- A step through a comment, up to the end of its line. -/
def stepComment (text : Bytes) : Option (Next Bytes Bytes) :=
  match text with
  | [] | 10 :: _ | 13 :: 10 :: _ => some (.done text)
  | 13 :: _ => none
  | text => (character? text).map fun (_, rest) => .again rest

/-- What follows a comment, if one stands in front. -/
def skipComment (bound : Nat) (text : Bytes) : Option Bytes :=
  if text.head? = some '#'.toUInt8 then iterate stepComment bound text else some text

/-- A step over blanks, a comment and the end of a line. -/
def stepSpace (bound : Nat) (text : Bytes) : Option (Next Bytes Bytes) := do
  let text ← skipComment bound (skipBlanks text)
  if text.head? = some 10 ∨ text.head? = some 13 then return .again (← newline? text)
  return .done text

/-- What follows blanks, comments and ends of lines. -/
def skipSpace (bound : Nat) (text : Bytes) : Option Bytes := iterate (stepSpace bound) bound text

/-! ## Strings -/

/-- A string that is being read: what follows, and what has been seen, the last byte first. -/
structure Quoting where
  rest : Bytes
  seen : Bytes := []
  deriving Repr, Inhabited

namespace Quoting

/-- The finished string and what follows it. -/
def finish (q : Quoting) (rest : Bytes) : Next Quoting (Bytes × Bytes) :=
  .done (q.seen.reverse, rest)

/-- Takes a character. -/
def take (q : Quoting) : Option (Next Quoting (Bytes × Bytes)) :=
  (character? q.rest).map fun (bytes, rest) => .again ⟨rest, bytes.reverse ++ q.seen⟩

end Quoting

/-- The byte that a letter stands for behind a backslash. -/
def escapeByte? (letter : UInt8) : Option UInt8 :=
  ((utf8 "\"\\bfnrte").zip [34, 92, 8, 12, 10, 13, 9, 27]).lookup letter

/-- The character that `count` hexadecimal digits write, and what follows them. -/
def hexChar? (count : Nat) (text : Bytes) : Option (Bytes × Bytes) := do
  let values ← (text.take count).mapM hexValue?
  let code := values.foldl (fun n v => n * 16 + v) 0
  if values.length = count ∧ code.isValidChar then some (encodeChar code, text.drop count) else none

/-- Takes what stands behind a backslash. -/
def Quoting.escape (q : Quoting) (letter : UInt8) (rest : Bytes) :
    Option (Next Quoting (Bytes × Bytes)) :=
  let wide := fun count =>
    (hexChar? count rest).map fun (bytes, rest) => .again ⟨rest, bytes.reverse ++ q.seen⟩
  if letter = 'u'.toUInt8 then wide 4
  else if letter = 'U'.toUInt8 then wide 8
  else (escapeByte? letter).map fun b => .again ⟨rest, b :: q.seen⟩

/-- A step through a string on one line with escapes. -/
def stepBasic (q : Quoting) : Option (Next Quoting (Bytes × Bytes)) :=
  match q.rest with
  | 34 :: rest => some (q.finish rest)
  | 10 :: _ | 13 :: _ => none
  | 92 :: letter :: rest => q.escape letter rest
  | _ => q.take

/-- A step through a string on one line without escapes. -/
def stepLiteral (q : Quoting) : Option (Next Quoting (Bytes × Bytes)) :=
  match q.rest with
  | 39 :: rest => some (q.finish rest)
  | 10 :: _ | 13 :: _ => none
  | _ => q.take

/-- Takes a quote in a string of several lines. Three of them end the string, and one or two more
in front of these belong to it. -/
def Quoting.takeQuote (q : Quoting) (quote : UInt8) : Option (Next Quoting (Bytes × Bytes)) :=
  let (quotes, rest) := q.rest.span (· == quote)
  let count := quotes.length
  if count < 3 then some (.again ⟨rest, quotes ++ q.seen⟩)
  else if 5 < count then none
  else some (Quoting.finish { q with seen := quotes.drop 3 ++ q.seen } rest)

/-- What follows the ends of lines and blanks in front of a text. -/
def stepTrim (text : Bytes) : Option (Next Bytes Bytes) :=
  match text with
  | b :: rest =>
    if isBlank b then some (.again rest)
    else if b = 10 ∨ b = 13 then (newline? text).map .again
    else some (.done text)
  | [] => some (.done [])

/-- What follows a backslash at the end of a line: the next character that is no blank. -/
def lineEnding? (bound : Nat) (text : Bytes) : Option Bytes := do
  let rest ← newline? (skipBlanks text)
  iterate stepTrim bound rest

/-- A step through a string of several lines with escapes. -/
def stepManyBasic (bound : Nat) (q : Quoting) : Option (Next Quoting (Bytes × Bytes)) :=
  match q.rest with
  | 34 :: _ => q.takeQuote 34
  | 92 :: rest =>
    match lineEnding? bound rest, rest with
    | some rest, _ => some (.again { q with rest })
    | none, letter :: rest => q.escape letter rest
    | none, [] => none
  | 13 :: rest => if rest.head? = some 10 then some (.again ⟨rest, 13 :: q.seen⟩) else none
  | _ => q.take

/-- A step through a string of several lines without escapes. -/
def stepManyLiteral (q : Quoting) : Option (Next Quoting (Bytes × Bytes)) :=
  match q.rest with
  | 39 :: _ => q.takeQuote 39
  | 13 :: rest => if rest.head? = some 10 then some (.again ⟨rest, 13 :: q.seen⟩) else none
  | _ => q.take

/-- The text without the end of a line in front of it. -/
def withoutNewline (text : Bytes) : Bytes := (newline? text).getD text

/-- A string on one line, whose quote stands in front. -/
def lineString? (bound : Nat) : Bytes → Option (Bytes × Bytes)
  | 34 :: rest => iterate stepBasic bound ⟨rest, []⟩
  | 39 :: rest => iterate stepLiteral bound ⟨rest, []⟩
  | _ => none

/-- A string of any kind, whose quotes stand in front. -/
def string? (bound : Nat) (text : Bytes) : Option (Bytes × Bytes) :=
  match text with
  | 34 :: 34 :: 34 :: rest => iterate (stepManyBasic bound) bound ⟨withoutNewline rest, []⟩
  | 39 :: 39 :: 39 :: rest => iterate stepManyLiteral bound ⟨withoutNewline rest, []⟩
  | text => lineString? bound text

end Tapelang.Toml
