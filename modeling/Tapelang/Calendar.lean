import Tapelang.Binary64

/-! # Dates and times

Dates of the Gregorian calendar and times of the day, with nanoseconds. `Moment` is both together,
at an offset from universal time.
-/

namespace Tapelang

/-- A date. -/
structure Date where
  year : Nat
  month : Nat
  day : Nat
  deriving DecidableEq, Repr, Inhabited

/-- A time of the day. -/
structure Clock where
  hour : Nat := 0
  minute : Nat := 0
  second : Nat := 0
  nanosecond : Nat := 0
  deriving DecidableEq, Repr, Inhabited

/-- A date and a time, `offset` seconds east of universal time. -/
structure Moment where
  date : Date
  clock : Clock := {}
  offset : Int := 0
  deriving DecidableEq, Repr, Inhabited

/-- A number in decimal with at least `width` digits. -/
def padded (width n : Nat) : Bytes :=
  let digits := decimal n
  List.replicate (width - digits.length) 48 ++ digits

namespace Date

/-- Whether a year has a day more than others. -/
def isLeap (year : Nat) : Bool :=
  year % 4 == 0 && (year % 100 != 0 || year % 400 == 0)

/-- The number of days in a month. -/
def daysIn (year month : Nat) : Nat :=
  if month = 2 then if isLeap year then 29 else 28
  else if month = 4 ∨ month = 6 ∨ month = 9 ∨ month = 11 then 30
  else 31

/-- Whether there is such a date. -/
def isValid (d : Date) : Bool :=
  1 ≤ d.month && d.month ≤ 12 && 1 ≤ d.day && d.day ≤ daysIn d.year d.month

/-- The date after this one. -/
def next (d : Date) : Date :=
  if d.day < daysIn d.year d.month then { d with day := d.day + 1 }
  else if d.month < 12 then { d with month := d.month + 1, day := 1 }
  else { year := d.year + 1, month := 1, day := 1 }

/-- The date with dashes between its parts. -/
def render (d : Date) : Bytes :=
  padded 4 d.year ++ utf8 "-" ++ padded 2 d.month ++ utf8 "-" ++ padded 2 d.day

end Date

namespace Clock

/-- Nine places of a second, or fewer. -/
def places : Nat := 9

/-- The nanoseconds that the digits behind a point stand for; digits behind the ninth are
dropped. -/
def ofFraction (digits : Bytes) : Nat :=
  let kept := digits.take places
  Binary64.ofDigits kept * Binary64.tenTo (places - kept.length)

/-- The hours, minutes and seconds with colons between them. -/
def renderWhole (c : Clock) : Bytes :=
  padded 2 c.hour ++ utf8 ":" ++ padded 2 c.minute ++ utf8 ":" ++ padded 2 c.second

/-- The time, with as many places of a second as it needs. -/
def render (c : Clock) : Bytes :=
  let fraction := ((padded places c.nanosecond).reverse.dropWhile (· == 48)).reverse
  c.renderWhole ++ if fraction.isEmpty then [] else utf8 "." ++ fraction

/-- The time, with `precision` places of a second. -/
def renderWith (precision : Nat) (c : Clock) : Bytes :=
  let fraction := (padded places c.nanosecond).take precision
  c.renderWhole ++ if fraction.isEmpty then [] else utf8 "." ++ fraction

end Clock

namespace Moment

/-- The moment with a sixtieth second carried over. -/
def normalize (m : Moment) : Moment :=
  if m.clock.second < 60 then m
  else
    let minute := m.clock.minute + 1
    let hour := m.clock.hour + minute / 60
    { m with
      clock := { m.clock with second := m.clock.second - 60, minute := minute % 60, hour := hour % 24 }
      date := if hour < 24 then m.date else m.date.next }

/-- The offset in hours and minutes. -/
def renderOffset (offset : Int) : Bytes :=
  let minutes := offset.natAbs / 60
  utf8 (if offset < 0 then "-" else "+") ++ padded 2 (minutes / 60) ++ padded 2 (minutes % 60)

/-- The date, the time, the offset and the name of the time zone, which is the offset again unless
it is universal time. -/
def render (m : Moment) : Bytes :=
  let offset := renderOffset m.offset
  m.date.render ++ utf8 " " ++ m.clock.render ++ utf8 " " ++ offset ++ utf8 " " ++
    if m.offset = 0 then utf8 "UTC" else offset

end Moment

/-! ## Numbers in dates -/

/-- A number of one or two digits in front of a text. -/
def shortNumber? : Bytes → Option (Nat × Bytes)
  | a :: b :: rest =>
    if !Binary64.isDigit a then none
    else if Binary64.isDigit b then some (Binary64.ofDigits [a, b], rest)
    else some (Binary64.ofDigits [a], b :: rest)
  | [a] => if Binary64.isDigit a then some (Binary64.ofDigits [a], []) else none
  | [] => none

/-- A number of exactly `width` digits in front of a text. -/
def fixedNumber? (width : Nat) (text : Bytes) : Option (Nat × Bytes) :=
  let digits := text.take width
  if digits.length = width ∧ digits.all Binary64.isDigit then
    some (Binary64.ofDigits digits, text.drop width)
  else none

/-- What follows a byte at the front of a text. -/
def after? (b : UInt8) : Bytes → Option Bytes
  | c :: rest => if b = c then some rest else none
  | [] => none

end Tapelang
