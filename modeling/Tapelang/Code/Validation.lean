import Tapelang.Code.Basic

/-! # Validation

The structure that the machine relies on: code ends with `END` and has it nowhere else, every
opcode is known, operands fit their width, and every `JUMP_IF_ZERO` and its `JUMP` point at each
other. `Code.validate` walks over the instructions once, with a stack of the loops that are open,
and gives the first `Defect`.
-/

namespace Tapelang

/-- What is wrong with some code. -/
inductive Defect where
  | empty
  | noFinish
  /-- The source map has neither no entries nor one per instruction. -/
  | sourceMap (entries count : Nat)
  | unknownOpcode (code : UInt8) (index : Nat)
  | runLength (operand : Int) (index : Nat)
  | pointerDelta (operand : Int) (index : Nat)
  | earlyFinish (index : Nat)
  | unmatchedJump (index : Nat)
  | jumpTarget (index : Nat) (target : Int) (wanted : Nat)
  | jumpIfZeroTarget (index : Nat) (target : Int) (wanted : Nat)
  | unmatchedJumpIfZero (index : Nat)
  deriving DecidableEq, Repr, Inhabited

/-- A defect in words. -/
def Defect.message : Defect → Bytes
  | empty => utf8 "bytecode: empty program"
  | noFinish => utf8 "bytecode: program does not end with END"
  | sourceMap entries count =>
    utf8 "bytecode: source map has " ++ decimal entries ++ utf8 " entries for " ++
      decimal count ++ utf8 " instructions"
  | unknownOpcode code index =>
    utf8 "bytecode: unknown opcode " ++ decimal code.toNat ++ utf8 " at " ++ decimal index
  | runLength operand index =>
    utf8 "bytecode: run length " ++ signed operand ++ utf8 " out of range at " ++ decimal index
  | pointerDelta operand index =>
    utf8 "bytecode: pointer delta " ++ signed operand ++ utf8 " out of range at " ++ decimal index
  | earlyFinish index =>
    utf8 "bytecode: END at " ++ decimal index ++ utf8 " before end of program"
  | unmatchedJump index =>
    utf8 "bytecode: JUMP at " ++ decimal index ++ utf8 " has no matching JUMP_IF_ZERO"
  | jumpTarget index target wanted =>
    utf8 "bytecode: JUMP at " ++ decimal index ++ utf8 " targets " ++ signed target ++
      utf8 ", expected " ++ decimal wanted
  | jumpIfZeroTarget index target wanted =>
    utf8 "bytecode: JUMP_IF_ZERO at " ++ decimal index ++ utf8 " targets " ++ signed target ++
      utf8 ", expected " ++ decimal wanted
  | unmatchedJumpIfZero index =>
    utf8 "bytecode: JUMP_IF_ZERO at " ++ decimal index ++ utf8 " has no matching JUMP"

namespace Code

/-- A loop that has been opened: where its `JUMP_IF_ZERO` stands and where that one leads. -/
structure OpenLoop where
  index : Nat
  target : Int
  deriving DecidableEq, Repr, Inhabited

/-- Checks that an operand is between 0 and `most`. -/
def checkWidth (most : Nat) (operand : Int) (otherwise : Defect) : Except Defect Unit :=
  if 0 ≤ operand ∧ operand ≤ most then .ok () else .error otherwise

/-- Checks the instruction `i` at `index`, given the loops that are open, innermost first, and
whether it is the last one. Gives the loops that are open after it. -/
def checkInstruction (i : Instruction) (index : Nat) (isLast : Bool) (loops : List OpenLoop) :
    Except Defect (List OpenLoop) :=
  match i.opcode? with
  | none => .error (.unknownOpcode i.code index)
  | some .addByte | some .subByte => do
    checkWidth maxRunLength i.operand (.runLength i.operand index)
    return loops
  | some .addPointer | some .subPointer => do
    checkWidth maxPointerDelta i.operand (.pointerDelta i.operand index)
    return loops
  | some .write | some .read => .ok loops
  | some .finish => if isLast then .ok loops else .error (.earlyFinish index)
  | some .jumpIfZero => .ok (⟨index, i.operand⟩ :: loops)
  | some .jump =>
    match loops with
    | [] => .error (.unmatchedJump index)
    | loop :: outer =>
      if i.operand ≠ loop.index then .error (.jumpTarget index i.operand loop.index)
      else if loop.target ≠ index + 1 then
        .error (.jumpIfZeroTarget loop.index loop.target (index + 1))
      else .ok outer

/-- Checks the instructions from `index` on. -/
def checkFrom : (index : Nat) → (loops : List OpenLoop) → List Instruction → Except Defect Unit
  | _, [], [] => .ok ()
  | _, loop :: _, [] => .error (.unmatchedJumpIfZero loop.index)
  | index, loops, i :: rest => do
    let loops ← checkInstruction i index rest.isEmpty loops
    checkFrom (index + 1) loops rest

/-- Checks everything that the machine relies on. -/
def validate (c : Code) : Except Defect Unit :=
  match c.instructions.back? with
  | none => .error .empty
  | some last =>
    if last.code ≠ Opcode.finish.toByte then .error .noFinish
    else if c.locations.size ≠ 0 ∧ c.locations.size ≠ c.size then
      .error (.sourceMap c.locations.size c.size)
    else checkFrom 0 [] c.instructions.toList

/-- Whether the machine can rely on the code. -/
def IsValid (c : Code) : Prop := c.validate = .ok ()

instance (c : Code) : Decidable c.IsValid :=
  match h : c.validate with
  | .ok () => isTrue h
  | .error _ => isFalse fun valid => by rw [IsValid, h] at valid; cases valid

end Code

end Tapelang
