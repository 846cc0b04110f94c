import Tapelang.Bytes

/-! # Opcodes

The nine operations of the machine, their numbers, their names and what their operand means. Any
byte may stand where an opcode is expected; bytes without an operation are called `INVALID` and
have no operand.
-/

namespace Tapelang

/-- What the operand of an instruction means. -/
inductive OperandKind where
  /-- There is no operand. -/
  | none
  /-- A count of 8 bits that is applied to the current cell. -/
  | run
  /-- A distance of 16 bits that the data pointer moves. -/
  | delta
  /-- The index of an instruction. -/
  | target
  deriving DecidableEq, Repr, Inhabited

namespace OperandKind

/-- The name of a kind. -/
def name : OperandKind → Bytes
  | none => utf8 "none"
  | run => utf8 "run"
  | delta => utf8 "delta"
  | target => utf8 "target"

/-- The kind of a number. -/
def ofByte (b : UInt8) : OperandKind :=
  if b = 1 then run else if b = 2 then delta else if b = 3 then target else none

end OperandKind

/-- The operations of the machine. -/
inductive Opcode where
  /-- Add to the current cell. -/
  | addByte
  /-- Take from the current cell. -/
  | subByte
  /-- Move the data pointer right. -/
  | addPointer
  /-- Move the data pointer left. -/
  | subPointer
  /-- Write the current cell. -/
  | write
  /-- Read a byte into the current cell. -/
  | read
  /-- Go elsewhere when the current cell is zero. -/
  | jumpIfZero
  /-- Go elsewhere. -/
  | jump
  /-- Finish the program. -/
  | finish
  deriving DecidableEq, Repr, Inhabited

namespace Opcode

/-- Every operation, by ascending number. -/
def all : List Opcode :=
  [addByte, subByte, addPointer, subPointer, write, read, jumpIfZero, jump, finish]

/-- The number of an operation. -/
def toByte : Opcode → UInt8
  | addByte => 1
  | subByte => 2
  | addPointer => 10
  | subPointer => 11
  | write => 20
  | read => 21
  | jumpIfZero => 30
  | jump => 31
  | finish => 40

/-- The operation of a number. -/
def ofByte? (b : UInt8) : Option Opcode :=
  if b = 1 then some addByte
  else if b = 2 then some subByte
  else if b = 10 then some addPointer
  else if b = 11 then some subPointer
  else if b = 20 then some write
  else if b = 21 then some read
  else if b = 30 then some jumpIfZero
  else if b = 31 then some jump
  else if b = 40 then some finish
  else Option.none

/-- The name of an operation. -/
def name : Opcode → Bytes
  | addByte => utf8 "ADD_BYTE"
  | subByte => utf8 "SUB_BYTE"
  | addPointer => utf8 "ADD_POINTER"
  | subPointer => utf8 "SUB_POINTER"
  | write => utf8 "WRITE"
  | read => utf8 "READ"
  | jumpIfZero => utf8 "JUMP_IF_ZERO"
  | jump => utf8 "JUMP"
  | finish => utf8 "END"

/-- The operation of a name. -/
def ofName? (text : Bytes) : Option Opcode :=
  all.find? fun o => o.name == text

/-- What the operand of an operation means. -/
def operandKind : Opcode → OperandKind
  | addByte | subByte => .run
  | addPointer | subPointer => .delta
  | jumpIfZero | jump => .target
  | write | read | finish => .none

theorem ofByte?_toByte (o : Opcode) : ofByte? o.toByte = some o := by
  cases o <;> decide

theorem toByte_of_ofByte? {b : UInt8} {o : Opcode} (h : ofByte? b = some o) : o.toByte = b := by
  unfold ofByte? at h
  repeat' split at h
  all_goals first
    | (cases h; subst_vars; rfl)
    | cases h

theorem ofName?_name (o : Opcode) : ofName? o.name = some o := by
  cases o <;> decide

end Opcode

/-- The name of the operation with number `b`, `INVALID` if there is none. -/
def opcodeName (b : UInt8) : Bytes :=
  match Opcode.ofByte? b with
  | some o => o.name
  | none => utf8 "INVALID"

/-- What the operand of an instruction with number `b` means. -/
def operandKindOf (b : UInt8) : OperandKind :=
  match Opcode.ofByte? b with
  | some o => o.operandKind
  | none => .none

end Tapelang
