import Tapelang.Opcode

/-! # Instructions

An instruction is an opcode byte and an operand. Both may be anything, since code can come from
outside; the accessors `runLength`, `pointerDelta` and `jumpTarget` refuse an instruction whose
operand means something else, and cut the operand to the width that it has.
-/

namespace Tapelang

/-- An opcode byte with an operand. The pair of zeros is no instruction of the machine. -/
structure Instruction where
  code : UInt8 := 0
  operand : Int := 0
  deriving DecidableEq, Repr, Inhabited

/-- The operand of an instruction was read as something that it is not. -/
structure OperandFault where
  wanted : OperandKind
  code : UInt8
  deriving DecidableEq, Repr, Inhabited

/-- The fault in words. -/
def OperandFault.message (f : OperandFault) : Bytes :=
  utf8 "bytecode: " ++ f.wanted.name ++ utf8 " operand read from " ++ opcodeName f.code ++
    utf8 " instruction"

/-- The largest count of an instruction on a cell. -/
def maxRunLength : Nat := 255

/-- The largest distance of an instruction on the data pointer. -/
def maxPointerDelta : Nat := 65535

namespace Instruction

/-- The instruction of an operation with an operand. -/
def of (o : Opcode) (operand : Int := 0) : Instruction := ⟨o.toByte, operand⟩

def addByte (n : UInt8) : Instruction := of .addByte n.toNat
def subByte (n : UInt8) : Instruction := of .subByte n.toNat
def addPointer (n : UInt16) : Instruction := of .addPointer n.toNat
def subPointer (n : UInt16) : Instruction := of .subPointer n.toNat
def write : Instruction := of .write
def read : Instruction := of .read
def jumpIfZero (target : Int) : Instruction := of .jumpIfZero target
def jump (target : Int) : Instruction := of .jump target
def finish : Instruction := of .finish

/-- The operation, if the opcode byte stands for one. -/
def opcode? (i : Instruction) : Option Opcode := Opcode.ofByte? i.code

/-- The name of the operation. -/
def name (i : Instruction) : Bytes := opcodeName i.code

/-- What the operand means. -/
def kind (i : Instruction) : OperandKind := operandKindOf i.code

/-- The operand as it is shown: zero for an instruction without one. -/
def shownOperand (i : Instruction) : Int :=
  if i.kind = .none then 0 else i.operand

/-- The operand, if the operation has one. -/
def operand? (i : Instruction) : Option Int :=
  if i.kind = .none then none else some i.operand

/-- The name and, if the operation has one, the operand. -/
def render (i : Instruction) : Bytes :=
  match i.operand? with
  | none => i.name
  | some n => i.name ++ utf8 " " ++ signed n

/-- Refuses an instruction whose operand is not of kind `wanted`. -/
def expect (i : Instruction) (wanted : OperandKind) : Except OperandFault Unit :=
  if i.kind = wanted then .ok () else .error ⟨wanted, i.code⟩

/-- The operand cut to 8 bits. -/
def operandByte (i : Instruction) : UInt8 := UInt8.ofNat (i.operand % 256).toNat

/-- The operand cut to 16 bits. -/
def operandWord (i : Instruction) : UInt16 := UInt16.ofNat (i.operand % 65536).toNat

/-- The count of an instruction on a cell. -/
def runLength (i : Instruction) : Except OperandFault UInt8 := do
  i.expect .run
  return i.operandByte

/-- The distance of an instruction on the data pointer. -/
def pointerDelta (i : Instruction) : Except OperandFault UInt16 := do
  i.expect .delta
  return i.operandWord

/-- The destination of a jump. -/
def jumpTarget (i : Instruction) : Except OperandFault Int := do
  i.expect .target
  return i.operand

end Instruction

end Tapelang
