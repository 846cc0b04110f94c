import Tapelang.Command
import Tapelang.Tape

/-! # The language itself

What a program means, without any code in between: its commands are carried out one at a time on
the tape. A `[` on a zero cell goes on behind its `]`, and a `]` goes back to its `[`.
-/

namespace Tapelang

/-- The number of commands up to and including the `]` that ends a loop whose first commands these
are, `depth` inner loops being open. -/
def loopLength? : (depth : Nat) → List Command → Option Nat
  | _, [] => none
  | 0, .loopClose :: _ => some 1
  | depth + 1, .loopClose :: rest => (loopLength? depth rest).map (· + 1)
  | depth, .loopOpen :: rest => (loopLength? (depth + 1) rest).map (· + 1)
  | depth, _ :: rest => (loopLength? depth rest).map (· + 1)

/-- The command with `[` and `]` exchanged. -/
def Command.swapped : Command → Command
  | .loopOpen => .loopClose
  | .loopClose => .loopOpen
  | c => c

/-- The index behind the `]` that belongs to the `[` at `index`. -/
def loopExit? (program : List Command) (index : Nat) : Option Nat :=
  (loopLength? 0 (program.drop (index + 1))).map (index + 1 + ·)

/-- The index of the `[` that belongs to the `]` at `index`. -/
def loopEntry? (program : List Command) (index : Nat) : Option Nat :=
  (loopLength? 0 ((program.take index).reverse.map Command.swapped)).map (index - ·)

/-- The state of a program that is being carried out. -/
structure Interpreter where
  /-- The index of the next command. -/
  pc : Nat := 0
  /-- The current cell. -/
  dp : Fin tapeSize := ⟨0, by decide⟩
  tape : Tape := .blank
  /-- The input still to come. -/
  input : Bytes
  /-- The output so far. -/
  output : Bytes := []

namespace Interpreter

/-- Why a program is not carried out any further. -/
inductive Halt where
  | finished
  | dataPointer
  | inputEnded
  /-- A bracket has no partner. -/
  | unmatched
  deriving DecidableEq, Repr, Inhabited

/-- The current cell. -/
def cell (s : Interpreter) : UInt8 := s.tape.get s.dp

/-- Replaces the current cell and goes on. -/
def store (s : Interpreter) (value : UInt8) : Interpreter :=
  { s with tape := s.tape.set s.dp value, pc := s.pc + 1 }

/-- Carries out a command. -/
def carryOut (program : List Command) (s : Interpreter) : Command → Interpreter × Option Halt
  | .increment => (s.store (s.cell + 1), none)
  | .decrement => (s.store (s.cell - 1), none)
  | .right =>
    if h : s.dp.val + 1 < tapeSize then ({ s with dp := ⟨s.dp.val + 1, h⟩, pc := s.pc + 1 }, none)
    else (s, some .dataPointer)
  | .left =>
    if s.dp.val = 0 then (s, some .dataPointer)
    else ({ s with dp := ⟨s.dp.val - 1, by omega⟩, pc := s.pc + 1 }, none)
  | .output => ({ s with output := s.output ++ [s.cell], pc := s.pc + 1 }, none)
  | .input =>
    match s.input with
    | [] => (s, some .inputEnded)
    | b :: rest => ({ s with input := rest }.store b, none)
  | .loopOpen =>
    if s.cell ≠ 0 then ({ s with pc := s.pc + 1 }, none)
    else
      match loopExit? program s.pc with
      | some exit => ({ s with pc := exit }, none)
      | none => (s, some .unmatched)
  | .loopClose =>
    match loopEntry? program s.pc with
    | some entry => ({ s with pc := entry }, none)
    | none => (s, some .unmatched)

/-- Carries out the next command; the program finishes behind its last one. -/
def step (program : List Command) (s : Interpreter) : Interpreter × Option Halt :=
  match program[s.pc]? with
  | none => (s, some .finished)
  | some c => s.carryOut program c

/-- Carries out commands until one ends the program, `count` at most. -/
def runFor (program : List Command) : (count : Nat) → Interpreter → Interpreter × Option Halt
  | 0, s => (s, none)
  | count + 1, s =>
    match s.step program with
    | (s, some halt) => (s, some halt)
    | (s, none) => runFor program count s

/-- A program before its first command. -/
def start (input : Bytes) : Interpreter := { input }

end Interpreter

end Tapelang
