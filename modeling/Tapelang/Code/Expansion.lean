import Tapelang.Code.Basic
import Tapelang.Command

/-! # Expansion

The commands that instructions stand for, and the codes that are written with as few instructions
as possible.
-/

namespace Tapelang

/-- The commands that an instruction stands for; `END` stands for none. -/
def Instruction.commands (i : Instruction) : List Command :=
  match i.opcode? with
  | some .addByte => List.replicate i.operand.toNat .increment
  | some .subByte => List.replicate i.operand.toNat .decrement
  | some .addPointer => List.replicate i.operand.toNat .right
  | some .subPointer => List.replicate i.operand.toNat .left
  | some .write => [.output]
  | some .read => [.input]
  | some .jumpIfZero => [.loopOpen]
  | some .jump => [.loopClose]
  | some .finish | none => []

/-- The commands that instructions stand for. -/
def expand (instructions : List Instruction) : List Command :=
  instructions.flatMap Instruction.commands

/-- The program text that instructions stand for. -/
def expansion (instructions : List Instruction) : Bytes :=
  (expand instructions).map Command.toByte

/-- The most commands that an instruction of an operation can hold, for the operations that hold
more than one. -/
def Opcode.capacity? : Opcode → Option Nat
  | .addByte | .subByte => some maxRunLength
  | .addPointer | .subPointer => some maxPointerDelta
  | _ => none

/-- The most commands that an instruction with this opcode byte can hold. -/
def Instruction.capacity? (i : Instruction) : Option Nat := i.opcode?.bind Opcode.capacity?

/-- No instruction stands for nothing, and none is followed by one that it had room for. -/
def IsFolded (instructions : List Instruction) : Prop :=
  (∀ i ∈ instructions, i.capacity?.isSome → 1 ≤ i.operand) ∧
    ∀ (k : Nat) (i j : Instruction) (most : Nat), instructions[k]? = some i →
      instructions[k + 1]? = some j → i.code = j.code → i.capacity? = some most →
      i.operand = most

/-- An instruction moved by `distance`: jumps lead as far as before. -/
def Instruction.relocate (distance : Int) (i : Instruction) : Instruction :=
  if i.kind = .target then { i with operand := i.operand + distance } else i

end Tapelang
