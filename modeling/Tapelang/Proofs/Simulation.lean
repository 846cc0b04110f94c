import Tapelang.Proofs.Reading
import Tapelang.Proofs.Executing
import Tapelang.Proofs.Sending
import Tapelang.Proofs.Interpreting

/-!
# Instructions and the commands they stand for

A machine and an interpreter are level at an instruction when the interpreter is about to carry out
the commands that the instruction stands for, and both have the same tape, data pointer, output and
input left (`Level`). Carrying out the instruction on the one side and its commands on the other
leaves them level again, or ends both (`execute_follows`). The two differ in one way only: commands
that move the data pointer go as far as the edge of the tape, where the instruction refuses as a
whole.

Everything here is about an outlet that never fails (`Outlet.IsEndless`) and input that ends without
a fault.
-/

namespace Tapelang

open LoopTree

/-- The bytes that the sink has taken and those that are held back, in order. -/
def Core.written (c : Core) : Bytes :=
  c.output.sink.taken.toList ++ c.output.buffer.toList

theorem Core.written_eq (c : Core) : c.written = c.output.written := rfl

/-! ## Level states -/

/-- The machine shows the tape and the output of the interpreter. -/
structure Shows (core : Core) (s : Interpreter) : Prop where
  tape : core.tape = s.tape
  output : core.written = s.output
  endless : core.output.IsEndless

/-- The machine is at the instruction `k` of `code` and the interpreter at the first command that
this instruction stands for, with the same data pointer, input, tape and output. -/
structure Level (code : List Instruction) (k : Nat) (core : Core) (s : Interpreter) : Prop where
  ip : core.ip = k
  pc : s.pc = (expand (code.take k)).length
  dp : core.dp = s.dp
  input : core.input.lead = ⟨s.input, none⟩
  shows : Shows core s

theorem Level.dp_lt {code : List Instruction} {k : Nat} {core : Core} {s : Interpreter}
    (h : Level code k core s) : core.dp < tapeSize := by
  rw [h.dp]
  exact s.dp.isLt

theorem Level.cell {code : List Instruction} {k : Nat} {core : Core} {s : Interpreter}
    (h : Level code k core s) : core.tape.get ⟨core.dp, h.dp_lt⟩ = s.cell := by
  rw [Interpreter.cell, ← h.shows.tape]
  congr 1
  exact Fin.ext h.dp

/-- What the commands of an instruction, `width` of them, do when the instruction gives `result`. -/
inductive Follows (code : List Instruction) (core : Core) (s : Interpreter) (width : Nat) :
    Core × Option Stop → Prop
  /-- Both are level again. -/
  | level {core' : Core} {s' : Interpreter} {k : Nat} :
      s.runFor (expand code) width = (s', none) → k ≤ code.length → Level code k core' s' →
      Follows code core s width (core', none)
  /-- Both meet the end of the input. -/
  | inputEnded {core' : Core} :
      0 < width → s.step (expand code) = (s, some .inputEnded) → core'.ip = core.ip →
      core'.dp = core.dp → Shows core' s → Follows code core s width (core', some .inputEnded)
  /-- The instruction refuses, and one of its commands meets the edge of the tape. -/
  | dataPointer {s' : Interpreter} {d : Nat} :
      d < width → s.runFor (expand code) d = (s', none) → s'.pc = s.pc + d →
      s'.step (expand code) = (s', some .dataPointer) → Shows core s' →
      Follows code core s width (core, some .dataPointer)

/-! ## Instructions that go on to the next one -/

section

variable {code after : List Instruction} {i : Instruction} {k : Nat} {core : Core}
  {s : Interpreter}

theorem expand_split (hcode : code = code.take k ++ i :: after) :
    expand code = expand (code.take k) ++ (i.commands ++ expand after) := by
  rw [← expand_cons, ← expand_append, ← hcode]

theorem length_expand_take_succ (hcode : code = code.take k ++ i :: after) (hk : k < code.length) :
    (expand (code.take (k + 1))).length = (expand (code.take k)).length + i.commands.length := by
  rw [List.take_add_one, getElem?_split hcode hk, expand_append, List.length_append]
  simp [expand]

/-- The next command is the first one of the instruction. -/
theorem Level.command {c : Command} (h : Level code k core s)
    (hcode : code = code.take k ++ i :: after) (hi : i.commands = [c]) :
    (expand code)[s.pc]? = some c := by
  rw [expand_split hcode, hi, h.pc, List.getElem?_append_right (Nat.le_refl _), Nat.sub_self]
  rfl

/-- The next commands are those of the instruction. -/
theorem Level.row {c : Command} {n : Nat} (h : Level code k core s)
    (hcode : code = code.take k ++ i :: after) (hi : i.commands = List.replicate n c) :
    Interpreter.Row (expand code) s.pc n c := by
  rw [expand_split hcode, hi, h.pc]
  exact Interpreter.row_replicate _ n c _

/-- The instruction leaves its machine level with what its commands leave. -/
theorem Level.next {core' : Core} {s' : Interpreter} {width : Nat} (h : Level code k core s)
    (hcode : code = code.take k ++ i :: after) (hk : k < code.length)
    (hw : i.commands.length = width) (hr : s.runFor (expand code) width = (s', none))
    (hip : core'.ip = core.ip + 1) (hpc : s'.pc = s.pc + width) (hdp : core'.dp = s'.dp)
    (hin : core'.input.lead = ⟨s'.input, none⟩) (hs : Shows core' s') :
    Follows code core s width (core', none) := by
  refine .level (k := k + 1) hr hk ⟨?_, ?_, hdp, hin, hs⟩
  · rw [hip, h.ip]
    rfl
  · rw [hpc, h.pc, length_expand_take_succ hcode hk, hw]

theorem operandByte_of (o : Opcode) (n : UInt8) :
    (Instruction.of o n.toNat).operandByte = n := by
  have hn : (n.toNat : Int) % 256 = n.toNat := by
    have := n.toNat_lt
    omega
  simp [Instruction.operandByte, Instruction.of, hn]

theorem operandWord_of (o : Opcode) (n : UInt16) :
    (Instruction.of o n.toNat).operandWord = n := by
  have hn : (n.toNat : Int) % 65536 = n.toNat := by
    have := n.toNat_lt
    omega
  simp [Instruction.operandWord, Instruction.of, hn]

theorem Tape.setIfInBounds_eq (t : Tape) (i : Fin tapeSize) (value : UInt8) :
    t.setIfInBounds i value = t.set i value := by
  ext j hj
  rw [Vector.getElem_setIfInBounds hj, Vector.getElem_set]

/-- Replacing the cell on both sides. -/
theorem Level.store {width : Nat} {value : UInt8} (h : Level code k core s)
    (hcode : code = code.take k ++ i :: after) (hk : k < code.length)
    (hw : i.commands.length = width)
    (hr : s.runFor (expand code) width = (s.stored width value, none)) :
    Follows code core s width (core.store value, none) := by
  refine h.next hcode hk hw hr rfl rfl h.dp h.input ⟨?_, h.shows.output, h.shows.endless⟩
  simp only [Core.store, Interpreter.stored, Interpreter.store, h.shows.tape, h.dp]
  exact Tape.setIfInBounds_eq _ _ _

theorem follows_addByte {n : UInt8} (h : Level code k core s)
    (hcode : code = code.take k ++ .addByte n :: after) (hk : k < code.length) :
    Follows code core s n.toNat (core.execute (.addByte n)) := by
  have hr := Interpreter.runFor_increment (h.row hcode (c := .increment) (n := n.toNat) rfl)
  rw [UInt8.ofNat_toNat] at hr
  rw [Instruction.addByte, Core.execute_addByte (Instruction.opcode?_of _ _) h.dp_lt, h.cell,
    operandByte_of]
  exact h.store hcode hk List.length_replicate hr

theorem follows_subByte {n : UInt8} (h : Level code k core s)
    (hcode : code = code.take k ++ .subByte n :: after) (hk : k < code.length) :
    Follows code core s n.toNat (core.execute (.subByte n)) := by
  have hr := Interpreter.runFor_decrement (h.row hcode (c := .decrement) (n := n.toNat) rfl)
  rw [UInt8.ofNat_toNat] at hr
  rw [Instruction.subByte, Core.execute_subByte (Instruction.opcode?_of _ _) h.dp_lt, h.cell,
    operandByte_of]
  exact h.store hcode hk List.length_replicate hr

theorem follows_addPointer {n : UInt16} (h : Level code k core s)
    (hcode : code = code.take k ++ .addPointer n :: after) (hk : k < code.length) :
    Follows code core s n.toNat (core.execute (.addPointer n)) := by
  have hrow := h.row hcode (c := .right) (n := n.toNat) rfl
  rw [Instruction.addPointer, Core.execute_addPointer (Instruction.opcode?_of _ _), operandWord_of,
    Core.move]
  have hdp := h.dp
  by_cases hin : s.dp.val + n.toNat < tapeSize
  · rw [if_neg (by omega)]
    exact h.next hcode hk List.length_replicate (Interpreter.runFor_right hrow hin) rfl rfl
      (by simp only [Interpreter.moved]; omega) h.input
      ⟨h.shows.tape, h.shows.output, h.shows.endless⟩
  · -- the commands go as far as the last cell
    rw [if_pos (by omega)]
    have hd : s.dp.val + (tapeSize - 1 - s.dp.val) < tapeSize := by omega
    refine .dataPointer (d := tapeSize - 1 - s.dp.val) (by omega)
      (Interpreter.runFor_right (hrow.of_le (by omega)) hd) rfl ?_
      ⟨h.shows.tape, h.shows.output, h.shows.endless⟩
    rw [Interpreter.step_command (hrow _ (by omega)), Interpreter.carryOut,
      dif_neg (by simp only [Interpreter.moved]; omega)]

theorem follows_subPointer {n : UInt16} (h : Level code k core s)
    (hcode : code = code.take k ++ .subPointer n :: after) (hk : k < code.length) :
    Follows code core s n.toNat (core.execute (.subPointer n)) := by
  have hrow := h.row hcode (c := .left) (n := n.toNat) rfl
  rw [Instruction.subPointer, Core.execute_subPointer (Instruction.opcode?_of _ _), operandWord_of,
    Core.move]
  have hdp := h.dp
  have hlt := s.dp.isLt
  by_cases hin : n.toNat ≤ s.dp.val
  · rw [if_neg (by omega)]
    exact h.next hcode hk List.length_replicate (Interpreter.runFor_left hrow hin) rfl rfl
      (by simp only [Interpreter.moved]; omega) h.input
      ⟨h.shows.tape, h.shows.output, h.shows.endless⟩
  · -- the commands go as far as the first cell
    rw [if_pos (by omega)]
    refine .dataPointer (d := s.dp.val) (by omega)
      (Interpreter.runFor_left (hrow.of_le (by omega)) (Nat.le_refl _)) rfl ?_
      ⟨h.shows.tape, h.shows.output, h.shows.endless⟩
    rw [Interpreter.step_command (hrow _ (by omega)), Interpreter.carryOut,
      if_pos (by simp only [Interpreter.moved]; omega)]

theorem follows_write (h : Level code k core s)
    (hcode : code = code.take k ++ .write :: after) (hk : k < code.length) :
    Follows code core s 1 (core.execute .write) := by
  have hr := Interpreter.step_command (h.command hcode (c := .output) rfl)
  obtain ⟨o, hput, he, hw⟩ := Outlet.put_endless h.shows.endless s.cell
  rw [Instruction.write, Core.execute_write (Instruction.opcode?_of _ _) h.dp_lt, h.cell,
    Core.write, hput]
  refine h.next hcode hk rfl (Interpreter.runFor_one hr) rfl rfl h.dp h.input
    ⟨h.shows.tape, ?_, he⟩
  rw [Core.written_eq, hw, ← h.shows.output]
  rfl

theorem follows_read (h : Level code k core s)
    (hcode : code = code.take k ++ .read :: after) (hk : k < code.length) :
    Follows code core s 1 (core.execute .read) := by
  have hr := Interpreter.step_command (h.command hcode (c := .input) rfl)
  obtain ⟨o, hflush, he, hw, -⟩ := Outlet.flush_endless h.shows.endless
  rw [← Core.written_eq, h.shows.output] at hw
  have harrival := core.input.next_arrival
  rw [Instruction.read, Core.execute_read (Instruction.opcode?_of _ _), Core.read, hflush]
  simp only
  cases hin : s.input with
  | nil =>
    rw [h.input, hin] at harrival
    rcases hnext : core.input.next with ⟨arrival, input⟩
    rw [hnext] at harrival
    cases harrival
    refine .inputEnded Nat.one_pos ?_ rfl rfl ⟨h.shows.tape, hw, he⟩
    rw [hr, Interpreter.carryOut, hin]
  | cons b rest =>
    have hlead := h.input
    rw [hin] at hlead
    have hleft := Reader.next_lead hlead
    rw [hlead] at harrival
    rcases hnext : core.input.next with ⟨arrival, input⟩
    rw [hnext] at harrival hleft
    cases harrival
    simp only
    rw [if_pos h.dp_lt]
    have hstep : s.step (expand code) = ({ s with input := rest }.store b, none) := by
      rw [hr, Interpreter.carryOut, hin]
    refine h.next hcode hk rfl (Interpreter.runFor_one hstep) rfl rfl h.dp hleft ⟨?_, hw, he⟩
    simp only [Core.store, Interpreter.store, h.shows.tape, h.dp]
    exact Tape.setIfInBounds_eq _ _ _

end

/-! ## Loops -/

section

variable {code after : List Instruction} {start k : Nat} {body : List LoopTree} {core : Core}
  {s : Interpreter}

theorem expand_loop (hcode : code = code.take start ++ (loop body).flatten start ++ after) :
    expand code = expand (code.take start) ++ .loopOpen ::
      (expand (flattenAll (start + 1) body) ++ .loopClose :: expand after) := by
  rw [← List.singleton_append (l := expand after), ← List.append_assoc _ _ (expand after),
    ← List.cons_append, ← expand_flatten_loop, ← List.append_assoc, ← expand_append,
    ← expand_append, ← hcode]

/-- How far the commands go that stand before the end of a loop. -/
theorem length_expand_body (hcode : code = code.take start ++ (loop body).flatten start ++ after)
    (hstart : start ≤ code.length) :
    (expand (code.take (start + (flattenAll (start + 1) body).length + 1))).length =
      (expand (code.take start)).length + (expand (flattenAll (start + 1) body)).length + 1 := by
  have hlen : (code.take start).length = start := List.length_take_of_le hstart
  have htake : code.take (start + (flattenAll (start + 1) body).length + 1) = code.take start ++
      .jumpIfZero (start + (flattenAll (start + 1) body).length + 2 : Nat) ::
        flattenAll (start + 1) body := by
    generalize code.take start = before at hcode hlen
    rw [hcode, flatten_loop, ← hlen, List.append_assoc, Nat.add_assoc before.length,
      List.take_length_add_append, List.cons_append, List.take_succ_cons, List.append_assoc,
      List.take_left]
  rw [htake, expand_append, expand_cons, commands_jumpIfZero, List.length_append,
    List.length_append, List.length_singleton]
  omega

/-- How far the commands go that stand before what is behind a loop. -/
theorem length_expand_loop (hcode : code = code.take start ++ (loop body).flatten start ++ after)
    (hstart : start ≤ code.length) :
    (expand (code.take (start + (flattenAll (start + 1) body).length + 2))).length =
      (expand (code.take start)).length + (expand (flattenAll (start + 1) body)).length + 2 := by
  have hlen : (code.take start).length = start := List.length_take_of_le hstart
  have htake : code.take (start + (flattenAll (start + 1) body).length + 2) =
      code.take start ++ (loop body).flatten start := by
    generalize code.take start = before at hcode hlen
    rw [hcode, List.take_append_of_le_length, List.take_of_length_le] <;>
      simp [flatten_loop, hlen] <;> omega
  rw [htake, expand_append, expand_flatten_loop]
  simp only [List.length_append, List.length_cons, List.length_nil]
  omega

theorem follows_jumpIfZero (h : Level code k core s)
    (hcode : code = code.take k ++ (loop body).flatten k ++ after) (hk : k < code.length) :
    Follows code core s 1
      (core.execute (.jumpIfZero (k + (flattenAll (k + 1) body).length + 2 : Nat))) := by
  have hcode' := hcode
  rw [flatten_loop, List.append_assoc, List.cons_append] at hcode'
  have hr := Interpreter.step_command (h.command hcode' (c := .loopOpen) rfl)
  rw [Instruction.jumpIfZero, Core.execute_jumpIfZero (Instruction.opcode?_of _ _) h.dp_lt, h.cell]
  by_cases hz : s.cell = 0
  · have hexit : s.step (expand code) = ({ s with
        pc := s.pc + (expand (flattenAll (k + 1) body)).length + 2 }, none) := by
      rw [hr, Interpreter.carryOut, if_neg (by simp [hz]), expand_loop hcode, h.pc,
        loopExit?_eq (nested_flattenAll body (k + 1))]
    refine .level (k := k + (flattenAll (k + 1) body).length + 2) (Interpreter.runFor_one hexit) ?_
      ⟨by simp [hz, Instruction.of], ?_, h.dp, h.input,
        ⟨h.shows.tape, h.shows.output, h.shows.endless⟩⟩
    · have hlen := congrArg List.length hcode
      rw [flatten_loop] at hlen
      simp only [List.length_append, List.length_cons, List.length_take, List.length_nil] at hlen
      omega
    · simp only
      rw [length_expand_loop hcode (Nat.le_of_lt hk), h.pc]
  · have hstay : s.step (expand code) = ({ s with pc := s.pc + 1 }, none) := by
      rw [hr, Interpreter.carryOut, if_pos hz]
    exact h.next hcode' hk rfl (Interpreter.runFor_one hstay) (by simp [hz]) rfl h.dp h.input
      ⟨h.shows.tape, h.shows.output, h.shows.endless⟩

theorem follows_jump (h : Level code k core s)
    (hcode : code = code.take start ++ (loop body).flatten start ++ after)
    (hstart : start ≤ code.length) (hk : k = start + (flattenAll (start + 1) body).length + 1) :
    Follows code core s 1 (core.execute (.jump start)) := by
  have hpc := h.pc
  rw [hk, length_expand_body hcode hstart] at hpc
  have hget : (expand code)[s.pc]? = some .loopClose := by
    rw [expand_loop hcode, hpc, List.getElem?_append_right (by omega)]
    rw [show ∀ a b : Nat, a + b + 1 - a = b + 1 by omega, List.getElem?_cons_succ,
      List.getElem?_append_right (Nat.le_refl _), Nat.sub_self]
    rfl
  have hback : s.step (expand code) =
      ({ s with pc := (expand (code.take start)).length }, none) := by
    rw [Interpreter.step_command hget, Interpreter.carryOut, expand_loop hcode, hpc,
      loopEntry?_eq (nested_flattenAll body (start + 1))]
  rw [Instruction.jump, Core.execute_jump (Instruction.opcode?_of _ _)]
  exact .level (k := start) (Interpreter.runFor_one hback) hstart
    ⟨rfl, rfl, h.dp, h.input, ⟨h.shows.tape, h.shows.output, h.shows.endless⟩⟩

end

/-! ## Any instruction -/

/-- An instruction that goes on to the next one is followed by its commands. -/
theorem follows_leaf {code after : List Instruction} {tree : LoopTree} {i : Instruction} {k : Nat}
    {core : Core} {s : Interpreter} (h : Level code k core s) (hi : tree.instruction? = some i)
    (hcode : code = code.take k ++ i :: after) (hk : k < code.length) :
    Follows code core s i.commands.length (core.execute i) := by
  cases tree with
  | addByte n =>
    cases hi
    rw [show (Instruction.addByte n).commands.length = n.toNat from List.length_replicate]
    exact follows_addByte h hcode hk
  | subByte n =>
    cases hi
    rw [show (Instruction.subByte n).commands.length = n.toNat from List.length_replicate]
    exact follows_subByte h hcode hk
  | addPointer n =>
    cases hi
    rw [show (Instruction.addPointer n).commands.length = n.toNat from List.length_replicate]
    exact follows_addPointer h hcode hk
  | subPointer n =>
    cases hi
    rw [show (Instruction.subPointer n).commands.length = n.toNat from List.length_replicate]
    exact follows_subPointer h hcode hk
  | write =>
    cases hi
    exact follows_write h hcode hk
  | read =>
    cases hi
    exact follows_read h hcode hk
  | loop body => cases hi

/-- **Every instruction of loop trees is followed by its commands.** -/
theorem execute_follows (trees : List LoopTree) {k : Nat} {core : Core} {s : Interpreter}
    (h : Level (flattenAll 0 trees) k core s) (hk : k < (flattenAll 0 trees).length) :
    ∃ i o, (flattenAll 0 trees)[k]? = some i ∧ i.opcode? = some o ∧ o ≠ .finish ∧
      Follows (flattenAll 0 trees) core s i.commands.length (core.execute i) := by
  have hspot := spot_flattenAll trees hk
  generalize flattenAll 0 trees = code at h hk hspot ⊢
  cases hspot with
  | leaf tree i after hi hcode =>
    obtain ⟨o, ho, -, hf⟩ := opcode?_instruction hi
    exact ⟨i, o, getElem?_split hcode hk, ho, hf, follows_leaf h hi hcode hk⟩
  | enter body after hcode =>
    have hcode' := hcode
    rw [flatten_loop, List.append_assoc, List.cons_append] at hcode'
    exact ⟨_, _, getElem?_split hcode' hk, Instruction.opcode?_of _ _, by decide,
      follows_jumpIfZero h hcode hk⟩
  | leave start body after hcode hstart hlast =>
    refine ⟨.jump start, .jump, ?_, Instruction.opcode?_of _ _, by decide,
      follows_jump h hcode hstart hlast⟩
    rw [hlast]
    exact getElem?_loop_end hcode hstart

end Tapelang
