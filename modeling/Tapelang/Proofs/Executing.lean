import Tapelang.Engine
import Tapelang.Proofs.Instructions

/-!
# What an instruction does

One equation for each operation: what `Core.execute` gives when the data pointer is on the tape.
No access fails there, so the checked accesses are gone from the equations.

* `Core.execute_effect`: what all of them share, where the pointers are afterwards and which refusals
  there are (`Core.Refusal`).
* `Core.execute_refused`: an instruction that refuses changes neither pointers nor tape.
* `Machine.round`: all that a whole round can be, with the check that decided.
-/

namespace Tapelang

namespace Core

variable {i : Instruction} {c : Core}

theorem cell_ok (h : c.dp < tapeSize) : c.cell = .ok (c.tape.get ⟨c.dp, h⟩) := by
  have hsize : c.dp < c.tape.toArray.size := by simpa using h
  simp [cell, Tape.cellAt, itemAt, Array.getElem?_eq_getElem hsize, Vector.get]

/-! ## The operations -/

theorem execute_addByte (ho : i.opcode? = some .addByte) (h : c.dp < tapeSize) :
    c.execute i = (c.store (c.tape.get ⟨c.dp, h⟩ + i.operandByte), none) := by
  have hk : i.kind = .run := Instruction.kind_of_opcode? ho
  simp [execute, ho, withCell, cell_ok h, withOperand, Instruction.runLength_ok hk]

theorem execute_subByte (ho : i.opcode? = some .subByte) (h : c.dp < tapeSize) :
    c.execute i = (c.store (c.tape.get ⟨c.dp, h⟩ - i.operandByte), none) := by
  have hk : i.kind = .run := Instruction.kind_of_opcode? ho
  simp [execute, ho, withCell, cell_ok h, withOperand, Instruction.runLength_ok hk]

theorem execute_addPointer (ho : i.opcode? = some .addPointer) :
    c.execute i = c.move i.operandWord.toNat := by
  have hk : i.kind = .delta := Instruction.kind_of_opcode? ho
  simp [execute, ho, withOperand, Instruction.pointerDelta_ok hk]

theorem execute_subPointer (ho : i.opcode? = some .subPointer) :
    c.execute i = c.move (-i.operandWord.toNat) := by
  have hk : i.kind = .delta := Instruction.kind_of_opcode? ho
  simp [execute, ho, withOperand, Instruction.pointerDelta_ok hk]

theorem execute_write (ho : i.opcode? = some .write) (h : c.dp < tapeSize) :
    c.execute i = c.write (c.tape.get ⟨c.dp, h⟩) := by
  simp [execute, ho, withCell, cell_ok h]

theorem execute_read (ho : i.opcode? = some .read) : c.execute i = c.read := by
  simp [execute, ho]

theorem execute_jumpIfZero (ho : i.opcode? = some .jumpIfZero) (h : c.dp < tapeSize) :
    c.execute i =
      ({ c with ip := if c.tape.get ⟨c.dp, h⟩ ≠ 0 then c.ip + 1 else i.operand }, none) := by
  have hk : i.kind = .target := Instruction.kind_of_opcode? ho
  simp only [execute, ho, withCell, cell_ok h, withOperand, Instruction.jumpTarget_ok hk]
  split <;> rfl

theorem execute_jump (ho : i.opcode? = some .jump) :
    c.execute i = ({ c with ip := i.operand }, none) := by
  have hk : i.kind = .target := Instruction.kind_of_opcode? ho
  simp [execute, ho, withOperand, Instruction.jumpTarget_ok hk]

/-! ## What an instruction leads to -/

/-- Both show the same pointers and the same tape. -/
structure Agrees (c c' : Core) : Prop where
  ip : c.ip = c'.ip
  dp : c.dp = c'.dp
  tape : c.tape = c'.tape

theorem Agrees.refl (c : Core) : c.Agrees c := ⟨rfl, rfl, rfl⟩

theorem Agrees.trans {c₁ c₂ c₃ : Core} (h : c₁.Agrees c₂) (h' : c₂.Agrees c₃) : c₁.Agrees c₃ :=
  ⟨h.ip.trans h'.ip, h.dp.trans h'.dp, h.tape.trans h'.tape⟩

theorem Agrees.of_eq {c c' : Core} (h : c = c') : c.Agrees c' := h ▸ .refl c

/-- The reasons that an instruction has to refuse. -/
inductive Refusal (i : Instruction) : Stop → Prop
  | dataPointer : i.opcode? = some .addPointer ∨ i.opcode? = some .subPointer →
      Refusal i .dataPointer
  | output {why : WriteFault} : i.opcode? = some .write ∨ i.opcode? = some .read →
      Refusal i (.output why)
  | inputEnded : i.opcode? = some .read → Refusal i .inputEnded
  | input {why : ReadFault} : i.opcode? = some .read → Refusal i (.input why)
  | unknownOpcode : i.opcode? = none → Refusal i (.unknownOpcode i.code)

instance (i : Instruction) : (stop : Stop) → Decidable (Refusal i stop)
  | .dataPointer =>
    decidable_of_iff (i.opcode? = some .addPointer ∨ i.opcode? = some .subPointer)
      ⟨.dataPointer, fun | .dataPointer h => h⟩
  | .output _ =>
    decidable_of_iff (i.opcode? = some .write ∨ i.opcode? = some .read)
      ⟨.output, fun | .output h => h⟩
  | .inputEnded =>
    decidable_of_iff (i.opcode? = some .read) ⟨.inputEnded, fun | .inputEnded h => h⟩
  | .input _ => decidable_of_iff (i.opcode? = some .read) ⟨.input, fun | .input h => h⟩
  | .unknownOpcode code =>
    decidable_of_iff (code = i.code ∧ i.opcode? = none)
      ⟨fun h => h.1 ▸ .unknownOpcode h.2, fun | .unknownOpcode h => ⟨rfl, h⟩⟩
  | .finished | .instructionPointer _ | .stepLimit _ | .halted | .brokenDown _ | .faulted _
  | .interrupted _ => isFalse nofun

/-- What an instruction other than `END` can lead to: the next instruction, the target of a jump, or
a refusal that changes neither the pointers nor the tape. The data pointer stays on the tape. -/
inductive Effect (i : Instruction) (c : Core) : Core × Option Stop → Prop
  | next {c' : Core} : i.opcode? ≠ some .jump → c'.ip = c.ip + 1 → c'.dp < tapeSize →
      Effect i c (c', none)
  | jumped {c' : Core} : i.opcode? = some .jumpIfZero ∨ i.opcode? = some .jump →
      c'.ip = i.operand → c'.dp < tapeSize → Effect i c (c', none)
  | refused {c' : Core} {stop : Stop} : Refusal i stop → c'.Agrees c → Effect i c (c', some stop)

theorem move_effect (ho : i.opcode? = some .addPointer ∨ i.opcode? = some .subPointer)
    (delta : Int) : Effect i c (c.move delta) := by
  unfold move
  simp only
  split
  · exact .refused (.dataPointer ho) (.refl c)
  · refine .next ?_ rfl ?_
    · rcases ho with ho | ho <;> simp [ho]
    · simp only
      omega

theorem write_effect (ho : i.opcode? = some .write) (h : c.dp < tapeSize) (b : UInt8) :
    Effect i c (c.write b) := by
  unfold write
  split
  · exact .next (by simp [ho]) rfl h
  · exact .refused (.output (.inl ho)) ⟨rfl, rfl, rfl⟩

theorem read_effect (ho : i.opcode? = some .read) (h : c.dp < tapeSize) : Effect i c c.read := by
  unfold read
  split
  · exact .refused (.output (.inr ho)) ⟨rfl, rfl, rfl⟩
  · simp only
    split
    · rw [if_pos h]
      exact .next (by simp [ho]) rfl h
    · exact .refused (.inputEnded ho) ⟨rfl, rfl, rfl⟩
    · exact .refused (.input ho) ⟨rfl, rfl, rfl⟩

/-- **What an instruction leads to**, if the data pointer is on the tape. -/
theorem execute_effect (hf : i.code ≠ Opcode.finish.toByte) (h : c.dp < tapeSize) :
    Effect i c (c.execute i) := by
  cases ho : i.opcode? with
  | none =>
    rw [execute, ho]
    exact .refused (.unknownOpcode ho) (.refl c)
  | some o =>
    cases o with
    | addByte =>
      rw [execute_addByte ho h]
      exact .next (by simp [ho]) rfl h
    | subByte =>
      rw [execute_subByte ho h]
      exact .next (by simp [ho]) rfl h
    | addPointer =>
      rw [execute_addPointer ho]
      exact move_effect (.inl ho) _
    | subPointer =>
      rw [execute_subPointer ho]
      exact move_effect (.inr ho) _
    | write =>
      rw [execute_write ho h]
      exact write_effect ho h _
    | read =>
      rw [execute_read ho]
      exact read_effect ho h
    | jumpIfZero =>
      rw [execute_jumpIfZero ho h]
      by_cases hz : c.tape.get ⟨c.dp, h⟩ = 0
      · exact .jumped (.inl ho) (by simp [hz]) h
      · exact .next (by simp [ho]) (by simp [hz]) h
    | jump =>
      rw [execute_jump ho]
      exact .jumped (.inr ho) rfl h
    | finish => exact absurd (Instruction.code_of_opcode? ho) hf

/-- **An instruction that refuses** changes neither the pointers nor the tape, and has one of the
reasons of its operation. -/
theorem execute_refused {c' : Core} {stop : Stop} (hdp : c.dp < tapeSize)
    (hf : i.code ≠ Opcode.finish.toByte) (h : c.execute i = (c', some stop)) :
    c'.Agrees c ∧ Refusal i stop := by
  have he := execute_effect hf hdp
  rw [h] at he
  cases he with
  | refused hr hsame => exact ⟨hsame, hr⟩

/-- No instruction moves the data pointer off the tape. -/
theorem execute_dp (i : Instruction) (hdp : c.dp < tapeSize) : (c.execute i).1.dp < tapeSize := by
  by_cases hf : i.code = Opcode.finish.toByte
  · rw [execute, Instruction.opcode?_of_code hf]
    exact hdp
  · have he := execute_effect hf hdp
    generalize c.execute i = result at he
    cases he with
    | next _ _ hdp' => exact hdp'
    | jumped _ _ hdp' => exact hdp'
    | refused _ hsame => exact hsame.dp ▸ hdp

end Core

/-! ## Rounds -/

namespace Machine

variable {σ : Type}

/-- The instruction pointer is at the instruction `i` of the code, which has index `k`. -/
def Reaches (code : Code) (core : Core) (k : Nat) (i : Instruction) : Prop :=
  core.ip = k ∧ code.instructions[k]? = some i

theorem Reaches.instructionAt {code : Code} {core : Core} {k : Nat} {i : Instruction}
    (h : Reaches code core k i) : code.instructionAt core.ip = .ok i := by
  unfold Code.instructionAt itemAt
  rw [h.1, if_neg (by omega), Int.toNat_natCast, h.2]

theorem Reaches.lt {code : Code} {core : Core} {k : Nat} {i : Instruction}
    (h : Reaches code core k i) : k < code.size :=
  (Array.getElem?_eq_some_iff.1 h.2).1

/-- All that one round can be, in the order of the checks. -/
inductive Round (s : Setup σ) (m : Machine σ) : Machine σ × Option Stop → Prop
  | outside : m.core.ip < 0 ∨ s.code.size ≤ m.core.ip →
      Round s m (m, some (.instructionPointer m.core.ip))
  | finished {k : Nat} {i : Instruction} : Reaches s.code m.core k i →
      i.code = Opcode.finish.toByte → Round s m (m, some .finished)
  | interrupted {k : Nat} {i : Instruction} {m₁ : Machine σ} {why : Interruption} :
      Reaches s.code m.core k i → i.code ≠ Opcode.finish.toByte →
      m.checkContext s.checkInterval = (m₁, some why) → Round s m (m₁, some (.interrupted why))
  | limited {k : Nat} {i : Instruction} {m₁ : Machine σ} :
      Reaches s.code m.core k i → i.code ≠ Opcode.finish.toByte →
      m.checkContext s.checkInterval = (m₁, none) → 0 < s.stepLimit → s.stepLimit ≤ m₁.steps →
      Round s m (m₁, some (.stepLimit s.stepLimit))
  | observed {k : Nat} {i : Instruction} {m₁ m₂ : Machine σ} {stop : Stop} :
      Reaches s.code m.core k i → i.code ≠ Opcode.finish.toByte →
      m.checkContext s.checkInterval = (m₁, none) →
      ¬ (0 < s.stepLimit ∧ s.stepLimit ≤ m₁.steps) →
      { m₁ with steps := m₁.steps + 1 }.observe s i = (m₂, some stop) →
      Round s m (m₂, some stop)
  | dispatched {k : Nat} {i : Instruction} {m₁ m₂ : Machine σ} :
      Reaches s.code m.core k i → i.code ≠ Opcode.finish.toByte →
      m.checkContext s.checkInterval = (m₁, none) →
      ¬ (0 < s.stepLimit ∧ s.stepLimit ≤ m₁.steps) →
      { m₁ with steps := m₁.steps + 1 }.observe s i = (m₂, none) →
      Round s m (m₂.dispatch i)

/-- **One round** is one of these. -/
theorem round (s : Setup σ) (m : Machine σ) : Round s m (m.step s) := by
  unfold step
  split
  · exact .outside ‹_›
  · rename_i hin
    obtain ⟨k, hk⟩ : ∃ k : Nat, m.core.ip = k := ⟨m.core.ip.toNat, by omega⟩
    have hlt : k < s.code.size := by omega
    obtain ⟨i, hi⟩ : ∃ i, s.code.instructions[k]? = some i := ⟨_, Array.getElem?_eq_getElem hlt⟩
    have hr : Reaches s.code m.core k i := ⟨hk, hi⟩
    rw [hr.instructionAt]
    simp only
    split
    · exact .finished hr ‹_›
    · rcases hc : m.checkContext s.checkInterval with ⟨m₁, why?⟩
      cases why? with
      | some why => exact .interrupted hr ‹_› hc
      | none =>
        simp only
        split
        · rename_i hl
          exact .limited hr ‹_› hc hl.1 hl.2
        · rcases ho : observe { m₁ with steps := m₁.steps + 1 } s i with ⟨m₂, stop?⟩
          cases stop? with
          | some stop => exact .observed hr ‹_› hc ‹_› ho
          | none => exact .dispatched hr ‹_› hc ‹_› ho

/-- What a round can be, it is. -/
theorem Round.step_eq {s : Setup σ} {m : Machine σ} {result : Machine σ × Option Stop}
    (h : Round s m result) : m.step s = result := by
  have hin : ∀ {k : Nat} {i : Instruction}, Reaches s.code m.core k i →
      ¬ (m.core.ip < 0 ∨ s.code.size ≤ m.core.ip) := by
    intro k i hr
    have := hr.lt
    rw [hr.1]
    omega
  unfold step
  cases h with
  | outside hout => rw [if_pos hout]
  | finished hr hf =>
    rw [if_neg (hin hr), hr.instructionAt]
    exact if_pos hf
  | interrupted hr hf hc =>
    rw [if_neg (hin hr), hr.instructionAt]
    simp only
    rw [if_neg hf, hc]
  | limited hr hf hc hpos hle =>
    rw [if_neg (hin hr), hr.instructionAt]
    simp only
    rw [if_neg hf, hc]
    exact if_pos ⟨hpos, hle⟩
  | observed hr hf hc hl ho | dispatched hr hf hc hl ho =>
    rw [if_neg (hin hr), hr.instructionAt]
    simp only
    rw [if_neg hf, hc]
    simp only
    rw [if_neg hl, ho]

theorem checkContext_core (m : Machine σ) (interval : Int) :
    (m.checkContext interval).1.core = m.core ∧ (m.checkContext interval).1.watch = m.watch := by
  unfold checkContext
  repeat' split
  all_goals exact ⟨rfl, rfl⟩

/-- A look at the context has nothing to do with the core. -/
theorem checkContext_withCore (m : Machine σ) (interval : Int) (core : Core) :
    ({ m with core } : Machine σ).checkContext interval =
      ({ (m.checkContext interval).1 with core }, (m.checkContext interval).2) := by
  by_cases hb : 0 < interval ∧ m.context.isBounded
  · by_cases hd : interval ≤ m.sinceCheck + 1
    · have hc : m.checkContext interval = (_, _) := (if_pos hb).trans (if_pos hd)
      rw [hc]
      exact (if_pos hb).trans (if_pos hd)
    · have hc : m.checkContext interval = (_, _) := (if_pos hb).trans (if_neg hd)
      rw [hc]
      exact (if_pos hb).trans (if_neg hd)
  · have hc : m.checkContext interval = (_, _) := if_neg hb
    rw [hc]
    exact if_neg hb

/-- An observer is shown nothing of the core but the pointers and the cell. -/
theorem observe_withCore (m : Machine σ) (s : Setup σ) (i : Instruction) (core : Core)
    (hip : core.ip = m.core.ip) (hdp : core.dp = m.core.dp) (hcell : core.cell = m.core.cell) :
    ({ m with core } : Machine σ).observe s i =
      ({ (m.observe s i).1 with core }, (m.observe s i).2) := by
  unfold observe
  cases s.observer with
  | none => rfl
  | some observer =>
    simp only [hip, hdp, hcell]
    cases m.core.cell with
    | error f => rfl
    | ok cell =>
      simp only
      split <;> rfl

/-- Ending a run leaves the pointers alone, and changes why it ended only if it had finished. -/
theorem close_eq (m : Machine σ) (stop : Stop) :
    (m.close stop).1.core.ip = m.core.ip ∧ (m.close stop).1.core.dp = m.core.dp ∧
      ((m.close stop).2 = stop ∨ stop = .finished ∧ ∃ why, (m.close stop).2 = .output why) := by
  unfold close
  rcases m.core.output.flush with ⟨output, fault⟩
  simp only
  split
  · exact ⟨rfl, rfl, .inr ⟨rfl, _, rfl⟩⟩
  · exact ⟨rfl, rfl, .inl rfl⟩

end Machine

end Tapelang
