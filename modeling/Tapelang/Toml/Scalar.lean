import Tapelang.Calendar
import Tapelang.Setting
import Tapelang.Toml.Text

/-! # Numbers and dates in TOML

Numbers may have underscores between their digits and, unless they name their base, no zeros in
front. Dates and times are separate or joined, with or without an offset.
-/

namespace Tapelang.Toml

open Text

/-- Whether a byte is a decimal digit. -/
def isDigit (b : UInt8) : Bool := Binary64.isDigit b

/-! ## Integers -/

/-- Whether every underscore has a digit on either side, given whether the last byte was one. -/
def underscoresFit : (afterDigit : Bool) → Bytes → Bool
  | afterDigit, [] => afterDigit
  | afterDigit, b :: rest =>
    if b = underscore then afterDigit && underscoresFit false rest else underscoresFit true rest

/-- The digits of an integer without underscores. -/
def digitsOf? (body : Bytes) : Option Bytes :=
  if underscoresFit false body then some (body.filter (· ≠ underscore)) else none

/-- The integer of 64 bits that digits write in a base. -/
def integer? (negative : Bool) (base : Nat) (body : Bytes) : Option Int := do
  let body ← digitsOf? body
  match (digits base false 0 body).bind (withSign negative) with
  | .ok n => some n
  | .error _ => none

/-- An integer in decimal. -/
def decimalInteger? (text : Bytes) : Option Int :=
  let (negative, body) := splitSign text
  if body.head? = some 48 ∧ 1 < (body.filter (· ≠ underscore)).length then none
  else integer? negative 10 body

/-- The base that a letter behind a zero names. -/
def baseOf? (letter : UInt8) : Option Nat :=
  if letter = 'x'.toUInt8 then some 16
  else if letter = 'o'.toUInt8 then some 8
  else if letter = 'b'.toUInt8 then some 2
  else none

/-- Whether a byte is an underscore or a digit in a base. -/
def isDigitIn (base : Nat) (b : UInt8) : Bool :=
  b == underscore || (digitValue? b).any (· < base)

/-! ## Other numbers -/

/-- Whether the underscores of a number with a point or an exponent are in order: behind a digit, and
not next to a point or the mark of an exponent. -/
def underscoresApart : (last : UInt8) → (digitBefore : Bool) → Bytes → Bool
  | last, _, [] => last != underscore
  | last, digitBefore, b :: rest =>
    let isMark := fun (c : UInt8) => c == '.'.toUInt8 || c == 'e'.toUInt8 || c == 'E'.toUInt8
    if b = underscore then
      digitBefore && !isMark last && underscoresApart b false rest
    else if isMark b then last != underscore && underscoresApart b digitBefore rest
    else if b = '+'.toUInt8 ∨ b = '-'.toUInt8 then underscoresApart b false rest
    else underscoresApart b true rest

/-- Whether every point stands between two digits and there is at most one. -/
def pointFits (text : Bytes) : Bool :=
  match Bytes.breakOn? '.'.toUInt8 text with
  | none => true
  | some (before, after) =>
    before.getLast?.any isDigit && after.head?.any isDigit && !after.contains '.'.toUInt8

/-- A number with a point or an exponent. -/
def float? (text : Bytes) : Option Binary64 :=
  let bare := text.filter (· ≠ underscore)
  let (_, body) := splitSign bare
  let leadingZero := body.head? == some 48 && (body.drop 1).head?.any isDigit
  if (text.contains underscore ∧ !underscoresApart underscore false text) ∨ !pointFits bare ∨
      leadingZero then none
  else Binary64.read? bare

/-- The number of a word behind an optional sign. -/
def wordNumber? (sign word : Bytes) : Option Binary64 :=
  if sign.length ≤ 1 ∧ sign.all fun b => b == '+'.toUInt8 || b == '-'.toUInt8 then
    if word = utf8 "inf" then some (.infinite (sign == utf8 "-"))
    else if word = utf8 "nan" then some .nan
    else none
  else none

/-- A number of any kind in front of a text, and what follows it. -/
def number? (text : Bytes) : Option (Setting × Bytes) :=
  match text with
  | 48 :: letter :: next :: rest =>
    match baseOf? letter with
    | some base =>
      let (body, rest) := (next :: rest).span (isDigitIn base)
      if body.isEmpty then none else (integer? false base body).map fun n => (.int n, rest)
    | none =>
      if letter = '.'.toUInt8 ∨ letter = 'e'.toUInt8 ∨ letter = 'E'.toUInt8 then scan text
      else some (.int 0, letter :: next :: rest)
  | text => scan text
where
  /-- A number that does not name its base. -/
  scan (text : Bytes) : Option (Setting × Bytes) :=
    let isMark := fun (b : UInt8) => b == '.'.toUInt8 || b == 'e'.toUInt8 || b == 'E'.toUInt8
    let (body, rest) := text.span fun b =>
      isDigit b || b == '+'.toUInt8 || b == '-'.toUInt8 || b == underscore || isMark b
    if rest.head? = some 'i'.toUInt8 ∨ rest.head? = some 'n'.toUInt8 then
      (wordNumber? body (rest.take 3)).map fun x => (.float x, rest.drop 3)
    else if body.any isMark then (float? body).map fun x => (.float x, rest)
    else (decimalInteger? body).map fun n => (.int n, rest)

/-! ## Dates and times -/

/-- A date. -/
def date? (text : Bytes) : Option Date := do
  let (year, rest) ← fixedNumber? 4 text
  let rest ← after? '-'.toUInt8 rest
  let (month, rest) ← fixedNumber? 2 rest
  let rest ← after? '-'.toUInt8 rest
  let (day, rest) ← fixedNumber? 2 rest
  if rest = [] ∧ Date.isValid ⟨year, month, day⟩ then some ⟨year, month, day⟩ else none

/-- A time of the day, the number of places of its seconds, and what follows it. -/
def clock? (text : Bytes) : Option (Clock × Nat × Bytes) := do
  let (hour, rest) ← fixedNumber? 2 text
  let rest ← after? ':'.toUInt8 rest
  let (minute, rest) ← fixedNumber? 2 rest
  let rest ← after? ':'.toUInt8 rest
  let (second, rest) ← fixedNumber? 2 rest
  if 23 < hour ∨ 59 < minute ∨ 60 < second then failure
  match rest with
  | 46 :: rest =>
    let (digits, rest) := rest.span isDigit
    if digits.isEmpty then failure
    return (⟨hour, minute, second, Clock.ofFraction digits⟩, min digits.length Clock.places, rest)
  | rest => return (⟨hour, minute, second, 0⟩, 0, rest)

/-- The offset of a time zone in seconds, with nothing behind it. -/
def zone? (text : Bytes) : Option Int := do
  if text = utf8 "Z" ∨ text = utf8 "z" then return 0
  let (west, rest) ← match text with
    | 43 :: rest => some (false, rest)
    | 45 :: rest => some (true, rest)
    | _ => none
  let (hours, rest) ← fixedNumber? 2 rest
  let rest ← after? ':'.toUInt8 rest
  let (minutes, rest) ← fixedNumber? 2 rest
  if rest ≠ [] ∨ 23 < hours ∨ 59 < minutes then failure
  let offset : Int := (hours * 60 + minutes) * 60
  return if west then -offset else offset

/-- A date with a time, which may have an offset. -/
def dateAndTime? (text : Bytes) : Option Setting := do
  let date ← date? (text.take 10)
  let mark ← (text.drop 10).head?
  if !(utf8 "Tt ").contains mark then failure
  let (clock, precision, rest) ← clock? (text.drop 11)
  if rest = [] then
    return .moment (date.render ++ utf8 "T" ++ clock.renderWith precision)
  let offset ← zone? rest
  return .moment (Moment.normalize ⟨date, clock, offset⟩).render

/-- A time of the day alone. -/
def timeOnly? (text : Bytes) : Option Setting := do
  let (clock, precision, rest) ← clock? text
  if rest ≠ [] then failure
  return .moment (clock.renderWith precision)

/-- Whether a date or a time stands in front: four digits and a dash, or two digits and a colon. -/
def beginsMoment (text : Bytes) : Bool :=
  let digits := (text.takeWhile isDigit).length
  (digits == 4 && text[4]? == some '-'.toUInt8) || (digits == 2 && text[2]? == some ':'.toUInt8)

/-- Whether a byte may stand in a date or a time. -/
def inMoment (b : UInt8) : Bool := isDigit b || (utf8 "-:.+TtZz").contains b

/-- The bytes of a date and a time, and what follows them. A single blank may stand between the two
if a digit follows it. -/
def momentBytes (text : Bytes) : Bytes × Bytes :=
  let (body, rest) := text.span inMoment
  match rest with
  | 32 :: digit :: more =>
    if isDigit digit then
      let (clock, rest) := more.span inMoment
      (body ++ 32 :: digit :: clock, rest)
    else (body, rest)
  | rest => (body, rest)

/-- A date, a time or both in front of a text, and what follows. -/
def moment? (text : Bytes) : Option (Setting × Bytes) :=
  let (body, rest) := momentBytes text
  let setting :=
    if body[2]? = some ':'.toUInt8 then timeOnly? body
    else if body.length = 10 then (date? body).map fun d => .moment d.render
    else dateAndTime? body
  setting.map fun s => (s, rest)

/-! ## Scalars -/

/-- A value that is neither a list nor a table, in front of a text, and what follows it. -/
def scalar? (bound : Nat) (text : Bytes) : Option (Setting × Bytes) :=
  match text with
  | [] => none
  | b :: _ =>
    if b = 34 ∨ b = 39 then (string? bound text).map fun (t, rest) => (.text t, rest)
    else if b = 't'.toUInt8 then (Bytes.dropStart? (utf8 "true") text).map fun r => (.bool true, r)
    else if b = 'f'.toUInt8 then (Bytes.dropStart? (utf8 "false") text).map fun r => (.bool false, r)
    else if beginsMoment text then moment? text
    else number? text

end Tapelang.Toml
