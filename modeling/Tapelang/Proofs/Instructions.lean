import Tapelang.Code.Expansion

/-!
# Single instructions

The operation of an instruction decides the kind of its operand, and with it which accessor reads
the operand and which commands the instruction stands for.
-/

namespace Tapelang

/-! ## Operations -/

namespace Instruction

@[simp] theorem opcode?_of (o : Opcode) (operand : Int) : (of o operand).opcode? = some o :=
  Opcode.ofByte?_toByte o

theorem of_inj {o o' : Opcode} {operand operand' : Int} :
    of o operand = of o' operand' ↔ o = o' ∧ operand = operand' := by
  constructor
  · intro h
    have ho := congrArg opcode? h
    rw [opcode?_of, opcode?_of, Option.some.injEq] at ho
    exact ⟨ho, congrArg Instruction.operand h⟩
  · rintro ⟨rfl, rfl⟩
    rfl

theorem kind_of_opcode? {i : Instruction} {o : Opcode} (h : i.opcode? = some o) :
    i.kind = o.operandKind := by
  unfold opcode? at h
  simp [kind, operandKindOf, h]

theorem code_of_opcode? {i : Instruction} {o : Opcode} (h : i.opcode? = some o) :
    i.code = o.toByte :=
  (Opcode.toByte_of_ofByte? h).symm

theorem opcode?_of_code {i : Instruction} {o : Opcode} (h : i.code = o.toByte) :
    i.opcode? = some o := by
  rw [opcode?, h, Opcode.ofByte?_toByte]

theorem code_ne_finish {i : Instruction} {o : Opcode} (h : i.opcode? = some o)
    (hf : o ≠ .finish) : i.code ≠ Opcode.finish.toByte := by
  intro hc
  rw [opcode?_of_code hc, Option.some.injEq] at h
  exact hf h.symm

theorem runLength_ok {i : Instruction} (h : i.kind = .run) : i.runLength = .ok i.operandByte := by
  simp [runLength, expect, h, bind, Except.bind, pure, Except.pure]

theorem pointerDelta_ok {i : Instruction} (h : i.kind = .delta) :
    i.pointerDelta = .ok i.operandWord := by
  simp [pointerDelta, expect, h, bind, Except.bind, pure, Except.pure]

theorem jumpTarget_ok {i : Instruction} (h : i.kind = .target) : i.jumpTarget = .ok i.operand := by
  simp [jumpTarget, expect, h, bind, Except.bind, pure, Except.pure]

/-! ## Shown operands -/

/-- An instruction without an operand that means nothing. -/
def shown (i : Instruction) : Instruction := ⟨i.code, i.shownOperand⟩

theorem opcode?_shown (i : Instruction) : i.shown.opcode? = i.opcode? := rfl

/-- The shown form of an instruction, by its operation. -/
theorem shown_eq {i : Instruction} {o : Opcode} (h : i.opcode? = some o) :
    i.shown = of o (if o.operandKind = .none then 0 else i.operand) := by
  simp only [shown, shownOperand, kind_of_opcode? h, of, code_of_opcode? h]

end Instruction

/-! ## Expansion -/

theorem expand_append (is js : List Instruction) : expand (is ++ js) = expand is ++ expand js :=
  List.flatMap_append

@[simp] theorem expand_nil : expand [] = [] := rfl

theorem expand_cons (i : Instruction) (is : List Instruction) :
    expand (i :: is) = i.commands ++ expand is := rfl

@[simp] theorem commands_jumpIfZero (target : Int) :
    (Instruction.jumpIfZero target).commands = [.loopOpen] := rfl

@[simp] theorem commands_jump (target : Int) : (Instruction.jump target).commands = [.loopClose] :=
  rfl

/-- An instruction that is no `END` stands for a command, unless it is a run of none. -/
theorem commands_length_pos {i : Instruction} {o : Opcode} (h : i.opcode? = some o)
    (hf : o ≠ .finish) (hfilled : i.capacity?.isSome → 1 ≤ i.operand) :
    0 < i.commands.length := by
  simp only [Instruction.capacity?, h, Option.bind_some] at hfilled
  cases o with
  | addByte | subByte | addPointer | subPointer =>
    have := hfilled rfl
    simp only [Instruction.commands, h, List.length_replicate]
    omega
  | write | read | jumpIfZero | jump => simp [Instruction.commands, h]
  | finish => exact absurd rfl hf

end Tapelang
