import Tapelang.Bytes

/-! # The eight commands

A program text is a sequence of bytes of which eight are commands; every other byte is a
comment. `Command.ofByte?` tells them apart and `commandsOf` is the command view of a text.
-/

namespace Tapelang

/-- The commands of the language. -/
inductive Command where
  /-- Add one to the current cell. -/
  | increment
  /-- Take one from the current cell. -/
  | decrement
  /-- Move to the next cell. -/
  | right
  /-- Move to the previous cell. -/
  | left
  /-- Write the current cell. -/
  | output
  /-- Read a byte into the current cell. -/
  | input
  /-- Begin a loop. -/
  | loopOpen
  /-- End a loop. -/
  | loopClose
  deriving DecidableEq, Repr, Inhabited

namespace Command

/-- Every command. -/
def all : List Command :=
  [increment, decrement, right, left, output, input, loopOpen, loopClose]

/-- The byte that writes a command. -/
def toByte : Command → UInt8
  | increment => '+'.toUInt8
  | decrement => '-'.toUInt8
  | right => '>'.toUInt8
  | left => '<'.toUInt8
  | output => '.'.toUInt8
  | input => ','.toUInt8
  | loopOpen => '['.toUInt8
  | loopClose => ']'.toUInt8

/-- The command that a byte writes, or none for a comment byte. -/
def ofByte? (b : UInt8) : Option Command :=
  all.find? fun c => c.toByte == b

theorem ofByte?_toByte (c : Command) : ofByte? c.toByte = some c := by
  cases c <;> decide

theorem toByte_of_ofByte? {b : UInt8} {c : Command} (h : ofByte? b = some c) : c.toByte = b := by
  simpa using List.find?_some h

end Command

/-- The commands of a text in order, comments left out. -/
def commandsOf (text : Bytes) : List Command :=
  text.filterMap Command.ofByte?

end Tapelang
