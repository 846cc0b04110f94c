import Tapelang.Observer
import Tapelang.Failure
import Tapelang.Json.Text
import Tapelang.Text.Caseless
import Tapelang.Text.Numeral

/-! # Log lines

A level is a number; a line is written when its own level is not below the level asked for. Lines
begin with the time, which is given as a text.
-/

namespace Tapelang

/-- A level. -/
abbrev LogLevel := Int

namespace LogLevel

/-- The levels with names. -/
def named : List (Int × Bytes) :=
  [ (-1, utf8 "trace"), (0, utf8 "debug"), (1, utf8 "info"), (2, utf8 "warn"), (3, utf8 "error"),
    (4, utf8 "fatal"), (5, utf8 "panic"), (7, utf8 "disabled"), (6, utf8 "") ]

/-- The level for steps of a run. -/
def trace : LogLevel := -1

/-- The level for what helps to find faults. -/
def debug : LogLevel := 0

/-- The name of a level, or its number if it has none. -/
def name (level : LogLevel) : Bytes :=
  (named.lookup level).getD (signed level)

/-- The level with a name. -/
def ofName? (text : Bytes) : Option LogLevel :=
  (named.find? fun (_, name) => Text.sameName text name).map (·.1)

/-- The level that a text asks for: a name in any case, or a number of 8 bits. Nothing asks for
warnings. -/
def read? (text : Bytes) : Option LogLevel :=
  if text.isEmpty then some 2
  else
    match ofName? text with
    | some level => some level
    | none =>
      match Text.readDecimal text with
      | .ok n => if -128 ≤ n ∧ n ≤ 127 then some n else none
      | .error _ => none

/-- The failure to understand a level. -/
def unknown (text : Bytes) : Failure :=
  .text (utf8 "invalid log level: " ++ Text.quote text)

/-- Whether lines of level `line` are written when `level` is asked for. -/
def writes (level line : LogLevel) : Bool := level ≤ line

end LogLevel

/-- Whether a value has to be quoted in a line. -/
def needsQuotes (text : Bytes) : Bool :=
  text.any fun b => b < 0x20 || 0x7e < b || b == 32 || b == 92 || b == 34

/-- A value as it stands in a line. -/
def logValue (text : Bytes) : Bytes :=
  if needsQuotes text then Text.quote (Text.mend text) else text

/-- A line with fields, which stand in the order of their names. -/
def logLine (time tag message : Bytes) (fields : List (Bytes × Bytes)) : Bytes :=
  Bytes.join (utf8 " ")
    ([time, tag, message] ++ fields.map fun (name, value) => name ++ utf8 "=" ++ value) ++
    utf8 "\n"

/-- The line for a step of a run. -/
def stepLine (time : Bytes) (e : Event) : Bytes :=
  logLine time (utf8 "TRC") (utf8 "step")
    [ (utf8 "cell", decimal e.cell.toNat), (utf8 "dp", decimal e.dp), (utf8 "ip", signed e.ip),
      (utf8 "loc", logValue e.location.render), (utf8 "op", logValue e.opcodeName) ]

/-- The line for a program that has been compiled. -/
def compiledLine (time path : Bytes) (count : Nat) : Bytes :=
  logLine time (utf8 "DBG") (utf8 "compiled program")
    [(utf8 "file", logValue path), (utf8 "instructions", decimal count)]

/-- A JSON line of a log. -/
def jsonLogLine (time level key value message : Bytes) : Bytes :=
  let quoted := Json.quoted .logged
  utf8 "\x7b\"level\":" ++ quoted level ++ utf8 "," ++ quoted key ++ utf8 ":" ++ quoted value ++
    utf8 ",\"time\":" ++ quoted time ++ utf8 ",\"message\":" ++ quoted message ++ utf8 "\x7d\n"

/-- Writes a line for every step of a run, if the level asks for it. -/
def Observer.tracer (time : Bytes) (level : LogLevel) : Observer (Array UInt8) where
  notify log e :=
    (if level.writes .trace then log ++ (stepLine time e).toArray else log, {})

end Tapelang
