import Tapelang.Bytes

/-! # JSON tokens

`tokenize` cuts a text into tokens, byte by byte, and refuses it at the first byte that fits no
token. Blanks may stand between tokens and nowhere else.
-/

namespace Tapelang.Json

/-- A token. A string is kept as it stands between its quotes. -/
inductive Token where
  | openArray
  | closeArray
  | openObject
  | closeObject
  | comma
  | colon
  | null
  | bool (value : Bool)
  | number (literal : Bytes)
  | string (raw : Bytes)
  deriving DecidableEq, Repr, Inhabited

/-- Where the tokenizer stands. What has been seen of a token is held last byte first. -/
inductive Scan where
  | between
  | word (seen : Bytes)
  | numeral (seen : Bytes)
  | quoted (seen : Bytes)
  /-- After a backslash. -/
  | escaped (seen : Bytes)
  /-- After `\u`, with `more` digits to come. -/
  | digits (more : Nat) (seen : Bytes)
  deriving DecidableEq, Repr, Inhabited

/-- Whether a byte may stand between tokens. -/
def isBlank (b : UInt8) : Bool := b == 32 || b == 9 || b == 10 || b == 13

/-- Whether a byte is a decimal digit. -/
def isDigit (b : UInt8) : Bool := 48 ≤ b && b ≤ 57

/-- Whether a byte is a hexadecimal digit. -/
def isHexDigit (b : UInt8) : Bool :=
  isDigit b || (97 ≤ b && b ≤ 102) || (65 ≤ b && b ≤ 70)

/-- Whether a byte may stand in a number. -/
def isNumeral (b : UInt8) : Bool :=
  isDigit b || b == '-'.toUInt8 || b == '+'.toUInt8 || b == '.'.toUInt8 || b == 'e'.toUInt8 ||
    b == 'E'.toUInt8

/-- Whether a byte may stand in a word. -/
def isWord (b : UInt8) : Bool := 97 ≤ b && b ≤ 122

/-- Digits, at least one, in front of a text, and what follows them. -/
def dropDigits? (text : Bytes) : Option Bytes :=
  if text.head?.any isDigit then some (text.dropWhile isDigit) else none

/-- Whether a text is empty or an exponent. -/
def isExponent : Bytes → Bool
  | [] => true
  | e :: rest =>
    (e == 'e'.toUInt8 || e == 'E'.toUInt8) &&
      match rest with
      | sign :: digits =>
        if sign == '+'.toUInt8 || sign == '-'.toUInt8 then dropDigits? digits == some []
        else dropDigits? rest == some []
      | [] => false

/-- Whether a text is a fraction, which may be missing, and an exponent, which may be missing. -/
def isFraction : Bytes → Bool
  | point :: rest =>
    if point == '.'.toUInt8 then (dropDigits? rest).any isExponent else isExponent (point :: rest)
  | [] => true

/-- Whether a text is a number without a sign. Only zero itself begins with a zero. -/
def isMagnitude : Bytes → Bool
  | 48 :: rest => isFraction rest
  | text => (dropDigits? text).any isFraction

/-- Whether a text is a number. -/
def isNumber : Bytes → Bool
  | 45 :: rest => isMagnitude rest
  | text => isMagnitude text

/-- The token of a word. -/
def wordToken? (word : Bytes) : Option Token :=
  if word = utf8 "null" then some .null
  else if word = utf8 "true" then some (.bool true)
  else if word = utf8 "false" then some (.bool false)
  else none

/-- The token of a number. -/
def numberToken? (literal : Bytes) : Option Token :=
  if isNumber literal then some (.number literal) else none

/-- The token of a single byte. -/
def mark? (b : UInt8) : Option Token :=
  if b = '['.toUInt8 then some .openArray
  else if b = ']'.toUInt8 then some .closeArray
  else if b = 123 then some .openObject
  else if b = 125 then some .closeObject
  else if b = ','.toUInt8 then some .comma
  else if b = ':'.toUInt8 then some .colon
  else none

namespace Scan

/-- Takes a byte that does not continue a token. -/
def begin (done : Array Token) (b : UInt8) : Option (Scan × Array Token) :=
  if isBlank b then some (between, done)
  else if b = 34 then some (quoted [], done)
  else if isNumeral b then some (numeral [b], done)
  else if isWord b then some (word [b], done)
  else (mark? b).map fun t => (between, done.push t)

/-- Takes a byte inside quotes. -/
def inQuotes (done : Array Token) (seen : Bytes) (b : UInt8) : Option (Scan × Array Token) :=
  if b = 34 then some (between, done.push (.string seen.reverse))
  else if b = 92 then some (escaped (b :: seen), done)
  else if b < 0x20 then none
  else some (quoted (b :: seen), done)

/-- Takes the byte after a backslash. -/
def afterBackslash (done : Array Token) (seen : Bytes) (b : UInt8) :
    Option (Scan × Array Token) :=
  if b = 'u'.toUInt8 then some (digits 4 (b :: seen), done)
  else if (utf8 "\"\\/bfnrt").contains b then some (quoted (b :: seen), done)
  else none

/-- Takes the next byte. -/
def step (scan : Scan) (done : Array Token) (b : UInt8) : Option (Scan × Array Token) :=
  match scan with
  | between => begin done b
  | word seen =>
    if isWord b then some (word (b :: seen), done)
    else (wordToken? seen.reverse).bind fun t => begin (done.push t) b
  | numeral seen =>
    if isNumeral b then some (numeral (b :: seen), done)
    else (numberToken? seen.reverse).bind fun t => begin (done.push t) b
  | quoted seen => inQuotes done seen b
  | escaped seen => afterBackslash done seen b
  | digits more seen =>
    if isHexDigit b then
      match more with
      | 0 | 1 => some (quoted (b :: seen), done)
      | more + 2 => some (digits (more + 1) (b :: seen), done)
    else none

/-- Ends the text: a word or a number may end there, a string may not. -/
def finish? (scan : Scan) (done : Array Token) : Option (Array Token) :=
  match scan with
  | between => some done
  | word seen => (wordToken? seen.reverse).map done.push
  | numeral seen => (numberToken? seen.reverse).map done.push
  | _ => none

/-- The tokens of a text, after those that are done. -/
def run (scan : Scan) (done : Array Token) : Bytes → Option (Array Token)
  | [] => scan.finish? done
  | b :: rest =>
    match scan.step done b with
    | none => none
    | some (scan, done) => run scan done rest

end Scan

/-- The tokens of a text. -/
def tokenize (text : Bytes) : Option (List Token) :=
  (Scan.run .between #[] text).map Array.toList

end Tapelang.Json
