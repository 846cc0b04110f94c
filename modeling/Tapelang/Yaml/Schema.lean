import Tapelang.Calendar
import Tapelang.Setting
import Tapelang.Text.Base64
import Tapelang.Yaml.Node

/-! # What YAML scalars mean

A plain scalar without a tag is a number, a date, a truth value or nothing if it looks like one,
and else a text. A tag asks for one of these meanings, and then the scalar must have it; with any
other tag, and between quotes, a scalar is a text.
-/

namespace Tapelang.Yaml

open Text

/-- What a tag asks for. -/
inductive Tag where
  | none
  | str
  | bool
  | int
  | float
  | null
  | timestamp
  | binary
  | merge
  | unknown
  deriving DecidableEq, Repr, Inhabited

/-- The tag of a node, in its long or its short form. -/
def Tag.ofBytes (tag : Bytes) : Tag :=
  let short := match Bytes.dropStart? (utf8 "tag:yaml.org,2002:") tag with
    | some rest => utf8 "!!" ++ rest
    | Option.none => tag
  (([("", none), ("!", none), ("!!str", str), ("!!bool", bool), ("!!int", int), ("!!float", float),
    ("!!null", null), ("!!timestamp", timestamp), ("!!binary", binary), ("!!merge", merge)] :
      List (String × Tag)).find? fun (name, _) => utf8 name == short).elim unknown (·.2)

/-- The tag of a meaning. -/
def tagOf : Setting → Tag
  | .null => .null
  | .bool _ => .bool
  | .int _ => .int
  | .float _ => .float
  | .moment _ => .timestamp
  | .text _ => .str
  | .other => .unknown

/-! ## Dates and times -/

/-- A date of four digits, one or two and one or two, and what follows it. -/
def date? (text : Bytes) : Option (Date × Bytes) := do
  let (year, rest) ← fixedNumber? 4 text
  let rest ← after? '-'.toUInt8 rest
  let (month, rest) ← shortNumber? rest
  let rest ← after? '-'.toUInt8 rest
  let (day, rest) ← shortNumber? rest
  if Date.isValid ⟨year, month, day⟩ then some (⟨year, month, day⟩, rest) else none

/-- The nanoseconds behind a point or comma, if digits follow it. -/
def fraction (text : Bytes) : Nat × Bytes :=
  match text with
  | mark :: digit :: rest =>
    if (mark = '.'.toUInt8 ∨ mark = ','.toUInt8) ∧ Binary64.isDigit digit then
      let (digits, rest) := (digit :: rest).span Binary64.isDigit
      (Clock.ofFraction digits, rest)
    else (0, text)
  | _ => (0, text)

/-- A time of the day, and what follows it. -/
def clock? (text : Bytes) : Option (Clock × Bytes) := do
  let (hour, rest) ← shortNumber? text
  let rest ← after? ':'.toUInt8 rest
  let (minute, rest) ← shortNumber? rest
  let rest ← after? ':'.toUInt8 rest
  let (second, rest) ← shortNumber? rest
  let (nanosecond, rest) := fraction rest
  if hour < 24 ∧ minute < 60 ∧ second < 60 then some (⟨hour, minute, second, nanosecond⟩, rest)
  else none

/-- The offset of a time zone in seconds, with nothing behind it. -/
def zone? (text : Bytes) : Option Int := do
  if text = utf8 "Z" then return 0
  let (west, rest) ← match text with
    | 43 :: rest => some (false, rest)
    | 45 :: rest => some (true, rest)
    | _ => none
  let (hours, rest) ← fixedNumber? 2 rest
  let rest ← after? ':'.toUInt8 rest
  let (minutes, rest) ← fixedNumber? 2 rest
  if rest ≠ [] ∨ 24 < hours ∨ 60 < minutes then failure
  let offset : Int := (hours * 60 + minutes) * 60
  return if west then -offset else offset

/-- A date, or a date with a time: behind a `T` with a time zone, behind blanks without one. -/
def moment? (text : Bytes) : Option Moment := do
  let (date, rest) ← date? text
  match rest with
  | [] => return { date }
  | c :: rest =>
    if c = 'T'.toUInt8 ∨ c = 't'.toUInt8 then
      let (clock, rest) ← clock? rest
      let offset ← zone? rest
      return { date, clock, offset }
    else if c = 32 then
      let (clock, rest) ← clock? (rest.dropWhile (· == 32))
      if rest ≠ [] then failure
      return { date, clock }
    else failure

/-! ## Numbers -/

/-- An integer without a sign. -/
def unsigned? (text : Bytes) : Option Int :=
  let (base, body) := splitBase text
  match digits base true 0 body with
  | .ok n => if text.isEmpty then none else some n
  | .error _ => none

/-- An integer with a sign behind its base, which is 2 or 8. -/
def signedBehindBase? (text : Bytes) : Option Int :=
  match text with
  | 48 :: letter :: rest =>
    let base := if letter = 'b'.toUInt8 then 2 else if letter = 'o'.toUInt8 then 8 else 0
    let (negative, body) := splitSign rest
    if base = 0 ∨ body.isEmpty then none
    else
      match (digits base false 0 body).bind (withSign negative) with
      | .ok n => some n
      | .error _ => none
  | _ => none

/-- An integer or another number. Underscores do not matter. -/
def number? (text : Bytes) : Option Setting :=
  let bare := text.filter (· ≠ underscore)
  match readInteger bare with
  | .ok n => some (.int n)
  | .error _ =>
    match unsigned? bare with
    | some n => some (.int n)
    | none =>
      match Binary64.read? bare with
      | some x => some (.float x)
      | none => (signedBehindBase? bare).map .int

/-! ## Meanings -/

/-- The words with a meaning of their own. -/
def words : List (Setting × List String) :=
  [ (.bool true, ["true", "True", "TRUE"]),
    (.bool false, ["false", "False", "FALSE"]),
    (.null, ["", "~", "null", "Null", "NULL"]),
    (.float .nan, [".nan", ".NaN", ".NAN"]),
    (.float (.infinite false), [".inf", ".Inf", ".INF", "+.inf", "+.Inf", "+.INF"]),
    (.float (.infinite true), ["-.inf", "-.Inf", "-.INF"]) ]

/-- The meaning of a word. -/
def word? (text : Bytes) : Option Setting :=
  (words.find? fun (_, texts) => texts.any fun t => utf8 t == text).map (·.1)

/-- What a plain scalar looks like, where `dates` says whether it may be a date. -/
def meaning (dates : Bool) (text : Bytes) : Setting :=
  match word? text, text with
  | some setting, _ => setting
  | none, first :: _ =>
    if first = '.'.toUInt8 then ((Binary64.read? text).map .float).getD (.text text)
    else if Binary64.isDigit first ∨ first = '+'.toUInt8 ∨ first = '-'.toUInt8 then
      match if dates then moment? text else none with
      | some m => .moment m.render
      | none => (number? text).getD (.text text)
    else .text text
  | none, [] => .null

/-- The meaning of a scalar with a tag that asks for one. -/
def tagged? (tag : Tag) (text : Bytes) : Option Setting :=
  let found := meaning (tag == .timestamp) text
  match tag, found with
  | .float, .int n => if n < 0x8000000000000000 then some (.float (Binary64.ofInt n)) else none
  | tag, found => if tagOf found = tag then some found else none

/-- The meaning of a scalar; none if its tag asks for another. -/
def scalarMeaning? (tag : Bytes) (plain : Bool) (text : Bytes) : Option Setting :=
  match Tag.ofBytes tag with
  | .none => some (if plain then meaning true text else .text text)
  | .str | .merge | .unknown => some (.text text)
  | .binary => (readBase64? text).map .text
  | tag => tagged? tag text

/-- The tag of a scalar, which a scalar without one has from its meaning. -/
def scalarTag (tag : Bytes) (plain : Bool) (text : Bytes) : Tag :=
  match Tag.ofBytes tag with
  | .none =>
    if !plain then .str
    else if text = utf8 "<<" then .merge
    else tagOf (meaning true text)
  | tag => tag

end Tapelang.Yaml
