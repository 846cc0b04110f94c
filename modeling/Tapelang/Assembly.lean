import Tapelang.Code.Basic
import Tapelang.Command

/-! # Code under construction

An assembly takes commands one at a time. A command on a cell or on the data pointer extends the
last instruction when that one is of the same operation and has room, so that a run of commands
becomes as few instructions as possible. A `[` leaves a jump without a target and is pending until
its `]` gives the jump its target.
-/

namespace Tapelang

/-- A `[` that waits for its `]`: where it was written and where its jump stands. -/
structure Pending where
  position : Position
  index : Nat
  deriving DecidableEq, Repr, Inhabited

/-- Code under construction. The innermost pending loop comes first. -/
structure Assembly where
  instructions : Array Instruction := #[]
  locations : Array Position := #[]
  pending : List Pending := []
  deriving DecidableEq, Repr, Inhabited

namespace Assembly

/-- Adds an instruction that was written at `p`. -/
def emit (a : Assembly) (i : Instruction) (p : Position) : Assembly :=
  { a with instructions := a.instructions.push i, locations := a.locations.push p }

/-- Adds one more command of the operation `o`, whose instructions hold at most `most` of them:
to the last instruction if that one is of the same operation and has room, else as a new
instruction. -/
def extend (a : Assembly) (o : Opcode) (most : Nat) (p : Position) : Assembly :=
  match a.instructions.back? with
  | some last =>
    if last.code = o.toByte ∧ last.operand < most then
      { a with instructions := a.instructions.pop.push ⟨last.code, last.operand + 1⟩ }
    else a.emit (.of o 1) p
  | none => a.emit (.of o 1) p

/-- Begins a loop with a jump whose target is not known yet. -/
def openLoop (a : Assembly) (p : Position) : Assembly :=
  { a with pending := ⟨p, a.instructions.size⟩ :: a.pending }.emit (.jumpIfZero 0) p

/-- Ends the innermost loop: its first jump leads behind the new one, and the new one leads back
to it. Nothing changes if no loop is open. -/
def closeLoop (a : Assembly) (p : Position) : Assembly :=
  match a.pending with
  | [] => a
  | loop :: outer =>
    let target := a.instructions.size + 1
    { a with
      instructions := a.instructions.setIfInBounds loop.index (.jumpIfZero target)
      pending := outer }.emit (.jump loop.index) p

/-- Whether a command does not fit: a `]` when no loop is open. -/
def rejects (a : Assembly) (c : Command) : Bool :=
  c == .loopClose && a.pending.isEmpty

/-- Adds a command that was written at `p`. -/
def add (a : Assembly) (c : Command) (p : Position) : Assembly :=
  match c with
  | .increment => a.extend .addByte maxRunLength p
  | .decrement => a.extend .subByte maxRunLength p
  | .right => a.extend .addPointer maxPointerDelta p
  | .left => a.extend .subPointer maxPointerDelta p
  | .output => a.emit .write p
  | .input => a.emit .read p
  | .loopOpen => a.openLoop p
  | .loopClose => a.closeLoop p

/-- The outermost loop that is still open. -/
def outermost? (a : Assembly) : Option Pending := a.pending.getLast?

end Assembly

end Tapelang
