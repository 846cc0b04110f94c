import Tapelang.Proofs.Assembling
import Tapelang.Proofs.Simulation

/-!
# Compilation preserves meaning

The compiled text and the text itself, carried out command by command, do the same. One round of
the machine is followed by one or more commands (`Machine.step_follows`), so a run of the machine
is followed by a run of the interpreter that is at least as long, and both end in the same way or
not at all (`Machine.runFor_follows`). `Engine.run_compiled` puts this together for whole runs.

The runs are those where nothing but the code and the input has a say (`Options.IsPlain`): no step
limit, no observer, no context that can end, a sink that takes everything, and input that ends
without a fault.
-/

namespace Tapelang

open LoopTree

/-! ## How both end -/

/-- How a machine ends when the language itself ends in the given way. No program that compiles
has a bracket without a partner. -/
def Interpreter.Halt.stop? : Interpreter.Halt → Option Stop
  | .finished => some .finished
  | .dataPointer => some .dataPointer
  | .inputEnded => some .inputEnded
  | .unmatched => none

/-- The machine stands at an instruction of `code` with the data pointer that the interpreter, from
`s` on, had in the state `s₁` in which it began with the commands of that instruction; it is in
state `s'` now, at one of these commands. -/
def FailsWithin (program : List Command) (code : List Instruction) (s : Interpreter) (core : Core)
    (s' : Interpreter) : Prop :=
  ∃ k i n d s₁, core.ip = (k : Nat) ∧ code[k]? = some i ∧
    s.runFor program n = (s₁, none) ∧ s₁.pc = (expand (code.take k)).length ∧
    core.dp = s₁.dp ∧ d < i.commands.length ∧ s.runFor program (n + d) = (s', none) ∧
    s'.pc = s₁.pc + d

/-- The interpreter, from `s` on, ends in state `s'` as a machine ends that stopped with `core`. -/
structure EndsAlike (code : List Instruction) (s : Interpreter) (core : Core) (stop : Stop)
    (s' : Interpreter) (halt : Interpreter.Halt) : Prop where
  run : ∃ n, s.runFor (expand code) n = (s', some halt)
  stop : halt.stop? = some stop
  shows : Shows core s'
  dp : halt ≠ .dataPointer → core.dp = s'.dp
  edge : halt = .dataPointer → FailsWithin (expand code) code s core s'

section

variable {code : List Instruction} {s s₁ s' : Interpreter} {core : Core} {n : Nat}

theorem FailsWithin.after (h : s.runFor (expand code) n = (s₁, none))
    (hf : FailsWithin (expand code) code s₁ core s') :
    FailsWithin (expand code) code s core s' := by
  obtain ⟨k, i, m, d, s₂, hip, hi, hm, hpc, hdp, hd, hmd, hpc'⟩ := hf
  refine ⟨k, i, n + m, d, s₂, hip, hi, ?_, hpc, hdp, hd, ?_, hpc'⟩
  · rw [Interpreter.runFor_add h, hm]
  · rw [Nat.add_assoc, Interpreter.runFor_add h, hmd]

/-- What comes behind the code makes no difference. -/
theorem FailsWithin.append {program : List Command} (hf : FailsWithin program code s core s')
    (more : List Instruction) : FailsWithin program (code ++ more) s core s' := by
  obtain ⟨k, i, m, d, s₂, hip, hi, hm, hpc, hrest⟩ := hf
  have hk : k < code.length := (List.getElem?_eq_some_iff.1 hi).1
  refine ⟨k, i, m, d, s₂, hip, ?_, hm, ?_, hrest⟩
  · rw [List.getElem?_append_left hk, hi]
  · rw [List.take_append_of_le_length (Nat.le_of_lt hk), hpc]

theorem EndsAlike.after {stop : Stop} {halt : Interpreter.Halt}
    (h : s.runFor (expand code) n = (s₁, none)) (he : EndsAlike code s₁ core stop s' halt) :
    EndsAlike code s core stop s' halt := by
  obtain ⟨⟨m, hr⟩, hstop, hshows, hdp, hedge⟩ := he
  exact ⟨⟨n + m, (Interpreter.runFor_add h m).trans hr⟩, hstop, hshows, hdp,
    fun hh => (hedge hh).after h⟩

/-- Behind the last instruction the program has finished. -/
theorem Level.finished (h : Level code code.length core s) :
    EndsAlike code s core .finished s .finished := by
  have hend : (expand code)[s.pc]? = none := by
    rw [h.pc, List.take_length]
    exact List.getElem?_eq_none (Nat.le_refl _)
  have hs : s.step (expand code) = (s, some .finished) := by rw [Interpreter.step, hend]
  exact ⟨⟨1, Interpreter.runFor_halt (n := 0) rfl hs⟩, rfl, h.shows, fun _ => h.dp,
    fun he => by cases he⟩

/-- Where commands follow an instruction that refuses, both end alike. -/
theorem Follows.endsAlike {k : Nat} {i : Instruction} {core' : Core} {stop : Stop}
    (hl : Level code k core s) (hi : code[k]? = some i)
    (h : Follows code core s i.commands.length (core', some stop)) :
    ∃ s' halt, EndsAlike code s core' stop s' halt := by
  cases h with
  | inputEnded hpos hs hip hdp hshows =>
    exact ⟨s, .inputEnded, ⟨1, Interpreter.runFor_halt (n := 0) rfl hs⟩, rfl, hshows,
      fun _ => hdp.trans hl.dp, fun he => by cases he⟩
  | @dataPointer s' d hd hr hpc hs hshows =>
    refine ⟨s', .dataPointer, ⟨d + 1, Interpreter.runFor_halt hr hs⟩, rfl, hshows,
      fun hne => absurd rfl hne, fun _ => ?_⟩
    refine ⟨k, i, 0, d, s, hl.ip, hi, rfl, hl.pc, hl.dp, hd, ?_, hpc⟩
    rw [Nat.zero_add, hr]

end

/-! ## Rounds -/

/-- Nothing but the code, which is the given trees and an `END`, has a say in a run. -/
structure Setup.IsPlain {σ : Type} (s : Setup σ) (trees : List LoopTree) : Prop where
  code : s.code.instructions.toList = flattenAll 0 trees ++ [.finish]
  filled : ∀ i ∈ flattenAll 0 trees, i.capacity?.isSome → 1 ≤ i.operand
  noLimit : s.stepLimit ≤ 0
  noObserver : s.observer = none

namespace Machine

variable {σ : Type} {setup : Setup σ} {trees : List LoopTree} {m : Machine σ} {k : Nat}

theorem step_finish {i : Instruction} (hr : Reaches setup.code m.core k i)
    (hf : i.code = Opcode.finish.toByte) : m.step setup = (m, some .finished) := by
  have hlt := hr.lt
  rw [step, if_neg (by rw [hr.1]; omega), hr.instructionAt]
  simp only
  rw [if_pos hf]

/-- With nothing around it, a round is its instruction. -/
theorem step_plain {i : Instruction} (hp : setup.IsPlain trees) (hc : m.context = .unbounded)
    (hr : Reaches setup.code m.core k i) (hf : i.code ≠ Opcode.finish.toByte) :
    m.step setup = dispatch { m with steps := m.steps + 1 } i := by
  have hlt := hr.lt
  have hcheck : m.checkContext setup.checkInterval = (m, none) := by
    simp [checkContext, hc, Context.isBounded]
  have hno := hp.noLimit
  rw [step, if_neg (by rw [hr.1]; omega), hr.instructionAt]
  simp only
  rw [if_neg hf, hcheck]
  simp only
  rw [if_neg (by omega), observe, hp.noObserver]

/-- The instruction at `k`, seen in the array. -/
theorem reaches_tree (hp : setup.IsPlain trees) (hip : m.core.ip = k) {i : Instruction}
    (hi : (flattenAll 0 trees)[k]? = some i) : Reaches setup.code m.core k i := by
  refine ⟨hip, ?_⟩
  rw [← Array.getElem?_toList, hp.code, List.getElem?_append_left, hi]
  exact (List.getElem?_eq_some_iff.1 hi).1

/-- **One round** is followed by one or more commands, or both end alike. -/
theorem step_follows {s : Interpreter} (hp : setup.IsPlain trees) (hc : m.context = .unbounded)
    (hk : k ≤ (flattenAll 0 trees).length) (hl : Level (flattenAll 0 trees) k m.core s) :
    (∃ m' s' n k', m.step setup = (m', none) ∧ m'.context = .unbounded ∧ 0 < n ∧
        s.runFor (expand (flattenAll 0 trees)) n = (s', none) ∧
        k' ≤ (flattenAll 0 trees).length ∧ Level (flattenAll 0 trees) k' m'.core s') ∨
      ∃ m' stop s' halt, m.step setup = (m', some stop) ∧
        EndsAlike (flattenAll 0 trees) s m'.core stop s' halt := by
  by_cases hlast : k = (flattenAll 0 trees).length
  · subst hlast
    have hr : Reaches setup.code m.core (flattenAll 0 trees).length .finish := by
      refine ⟨hl.ip, ?_⟩
      rw [← Array.getElem?_toList, hp.code, List.getElem?_append_right (Nat.le_refl _),
        Nat.sub_self]
      rfl
    exact .inr ⟨m, .finished, s, .finished, step_finish hr rfl, hl.finished⟩
  · obtain ⟨i, o, hi, ho, hf, hfollows⟩ := execute_follows trees hl (by omega)
    have hpos := commands_length_pos ho hf (hp.filled i (List.mem_of_getElem? hi))
    have hstep := step_plain hp hc (reaches_tree hp hl.ip hi) (Instruction.code_ne_finish ho hf)
    rcases he : m.core.execute i with ⟨core', stop?⟩
    rw [he] at hfollows
    rw [dispatch] at hstep
    simp only [he] at hstep
    cases stop? with
    | none =>
      cases hfollows with
      | level hr hk' hl' => exact .inl ⟨_, _, _, _, hstep, hc, hpos, hr, hk', hl'⟩
    | some stop =>
      obtain ⟨s', halt, he⟩ := hfollows.endsAlike hl hi
      exact .inr ⟨_, stop, s', halt, hstep, he⟩

/-! ## Runs -/

/-- **A run of the machine** is followed by a run of the interpreter that is at least as long, or
both end alike. -/
theorem runFor_follows (hp : setup.IsPlain trees) (rounds : Nat) {m : Machine σ} {s : Interpreter}
    {k : Nat} (hc : m.context = .unbounded) (hk : k ≤ (flattenAll 0 trees).length)
    (hl : Level (flattenAll 0 trees) k m.core s) :
    (∃ m' s' n k', m.runFor setup rounds = (m', none) ∧ rounds ≤ n ∧
        s.runFor (expand (flattenAll 0 trees)) n = (s', none) ∧
        Level (flattenAll 0 trees) k' m'.core s') ∨
      ∃ m' stop s' halt, m.runFor setup rounds = (m', some stop) ∧
        EndsAlike (flattenAll 0 trees) s m'.core stop s' halt := by
  induction rounds generalizing m s k with
  | zero => exact .inl ⟨m, s, 0, k, rfl, Nat.le_refl _, rfl, hl⟩
  | succ rounds ih =>
    rcases step_follows hp hc hk hl with ⟨m₁, s₁, n₁, k₁, hs, hc₁, hpos, hr₁, hk₁, hl₁⟩ |
      ⟨m₁, stop, s', halt, hs, he⟩
    · rw [runFor, hs]
      rcases ih hc₁ hk₁ hl₁ with ⟨m', s', n, k', hrun, hle, hr, hl'⟩ |
        ⟨m', stop, s', halt, hrun, he⟩
      · refine .inl ⟨m', s', n₁ + n, k', hrun, by omega, ?_, hl'⟩
        rw [Interpreter.runFor_add hr₁, hr]
      · exact .inr ⟨m', stop, s', halt, hrun, he.after hr₁⟩
    · rw [runFor, hs]
      exact .inr ⟨m₁, stop, s', halt, rfl, he⟩

/-- Ending a run sends all the output, if it is never refused, and changes nothing else. -/
theorem close_endless (h : m.core.output.IsEndless) (stop : Stop) :
    ∃ output, m.close stop = ({ m with core := { m.core with output } }, stop) ∧
      output.sink.taken.toList = m.core.written ∧ output.written = m.core.written := by
  obtain ⟨output, hflush, -, hw, htaken⟩ := Outlet.flush_endless h
  refine ⟨output, ?_, htaken, hw⟩
  rw [close, hflush]
  cases stop <;> rfl

end Machine

/-! ## Compiled texts -/

/-- Nothing but the code and the input has a say in a run: there is no step limit, no observer and
no context that can end, the sink takes everything and is empty, and the input ends without a
fault, as that of `Feed.ofBytes` does (`Feed.lead_ofBytes`). -/
structure Options.IsPlain {σ : Type} (o : Options σ) (input : Bytes) : Prop where
  noLimit : o.stepLimit ≤ 0
  noObserver : o.observer = none
  unbounded : o.context = .unbounded
  endless : o.sink.capacity = none
  empty : o.sink.taken = #[]
  input : o.input.lead = ⟨input, none⟩

section

variable {σ : Type} {naming : Naming} {text : Bytes} {code : Code} {o : Options σ} {input : Bytes}

/-- Before a run the machine and the interpreter are level. -/
theorem Options.IsPlain.level (ho : o.IsPlain input) (code : List Instruction) :
    Level code 0 o.machine.core (.start input) :=
  ⟨rfl, rfl, rfl, ho.input, rfl, by simp [Core.written, Options.machine, ho.empty]; rfl, rfl,
    ho.endless⟩

/-- How a run of compiled code and the program itself go on: the program goes on as well, with the
same tape, data pointer and output, or both end alike. -/
theorem Engine.run_follows (h : compileBytes naming text = .ok code) (ho : o.IsPlain input)
    (rounds : Nat) :
    (∃ e s n, (Engine.new (some code) o).run rounds = (.unfinished, e) ∧ rounds ≤ n ∧
        (Interpreter.start input).runFor (commandsOf text) n = (s, none) ∧
        e.machine.core.dp = s.dp ∧ e.machine.core.tape = s.tape ∧
        e.machine.core.written = s.output) ∨
      ∃ e stop s n halt, (Engine.new (some code) o).run rounds = (.stopped stop, e) ∧
        (Interpreter.start input).runFor (commandsOf text) n = (s, some halt) ∧
        halt.stop? = some stop ∧ e.machine.core.output.sink.taken.toList = s.output ∧
        e.machine.core.written = s.output ∧ e.machine.core.tape = s.tape ∧
        (halt ≠ .dataPointer → e.machine.core.dp = s.dp) ∧
        (halt = .dataPointer → FailsWithin (commandsOf text) code.instructions.toList
          (.start input) e.machine.core s) := by
  obtain ⟨trees, hcode, hspelled, hfilled⟩ := compileBytes_trees h
  have hp : (o.setup code).IsPlain trees := ⟨hcode, hfilled, ho.noLimit, ho.noObserver⟩
  have hrun := Machine.runFor_follows hp rounds (m := o.machine) ho.unbounded (Nat.zero_le _)
    (ho.level (flattenAll 0 trees))
  simp only [Engine.run, Engine.new, Option.map_some, Machine.run]
  rw [hspelled] at hrun
  rcases hrun with ⟨m', s', n, k, hr, hle, hs, hl⟩ | ⟨m', stop, s', halt, hr, he⟩
  · rw [hr]
    exact .inl ⟨_, s', n, rfl, hle, hs, hl.dp, hl.shows.tape, hl.shows.output⟩
  · rw [hr, hcode]
    obtain ⟨⟨n, hs⟩, hstop, hshows, hdp, hedge⟩ := he
    obtain ⟨output, hclose, htaken, hw⟩ := m'.close_endless hshows.endless stop
    rw [hspelled] at hs hedge
    rw [hshows.output] at htaken hw
    simp only [hclose]
    exact .inr ⟨_, stop, s', n, halt, rfl, hs, hstop, htaken, hw, hshows.tape, hdp,
      fun hh => (hedge hh).append _⟩

/-- **Compilation preserves meaning.** A run of compiled code ends if and only if the program itself
ends. If they end, they end in the same way, with the same output and the same tape, and with the
same data pointer unless that would have left the tape: then the machine's is the one with which the
program began with the commands of the instruction that failed. As long as a run goes on, the
program goes on as well and shows the same after some number of commands, at least as many as
rounds; and whatever the program writes, the run writes sooner or later. -/
theorem Engine.run_compiled (h : compileBytes naming text = .ok code) (ho : o.IsPlain input) :
    ((∃ rounds stop e, (Engine.new (some code) o).run rounds = (.stopped stop, e)) ↔
      ∃ n s halt, (Interpreter.start input).runFor (commandsOf text) n = (s, some halt)) ∧
    (∀ rounds stop e n s halt, (Engine.new (some code) o).run rounds = (.stopped stop, e) →
      (Interpreter.start input).runFor (commandsOf text) n = (s, some halt) →
      halt.stop? = some stop ∧ e.machine.core.output.sink.taken.toList = s.output ∧
        e.machine.core.tape = s.tape ∧
        (halt ≠ .dataPointer → e.machine.core.dp = s.dp) ∧
        (halt = .dataPointer → FailsWithin (commandsOf text) code.instructions.toList
          (.start input) e.machine.core s)) ∧
    (∀ rounds e, (Engine.new (some code) o).run rounds = (.unfinished, e) →
      ∃ n s, rounds ≤ n ∧ (Interpreter.start input).runFor (commandsOf text) n = (s, none) ∧
        e.machine.core.dp = s.dp ∧ e.machine.core.tape = s.tape ∧
        e.machine.core.written = s.output) ∧
    ∀ n, ∃ rounds, ((Interpreter.start input).runFor (commandsOf text) n).1.output <+:
      ((Engine.new (some code) o).run rounds).2.machine.core.written := by
  refine ⟨⟨?_, ?_⟩, ?_, ?_, ?_⟩
  · rintro ⟨rounds, stop, e, hr⟩
    rcases Engine.run_follows h ho rounds with ⟨e', s, n, hr', -⟩ |
      ⟨e', stop', s, n, halt, hr', hs, -⟩
    · rw [hr] at hr'
      cases hr'
    · exact ⟨n, s, halt, hs⟩
  · -- a run that goes on for more rounds than the program has commands is not there
    rintro ⟨n, s, halt, hs⟩
    rcases Engine.run_follows h ho (n + 1) with ⟨e, s', n', -, hle, hs', -⟩ |
      ⟨e, stop, s', n', halt', hr, -⟩
    · rw [Interpreter.runFor_halted hs (by omega)] at hs'
      cases hs'
    · exact ⟨n + 1, stop, e, hr⟩
  · intro rounds stop e n s halt hr hs
    rcases Engine.run_follows h ho rounds with ⟨e', s', n', hr', -⟩ |
      ⟨e', stop', s', n', halt', hr', hs', hstop, htaken, -, hrest⟩
    · rw [hr] at hr'
      cases hr'
    · rw [hr] at hr'
      cases hr'
      obtain ⟨rfl, rfl⟩ := Interpreter.runFor_unique hs hs'
      exact ⟨hstop, htaken, hrest⟩
  · intro rounds e hr
    rcases Engine.run_follows h ho rounds with ⟨e', s, n, hr', hle, hs, hrest⟩ |
      ⟨e', stop', s', n', halt', hr', -⟩
    · rw [hr] at hr'
      cases hr'
      exact ⟨n, s, hle, hs, hrest⟩
    · rw [hr] at hr'
      cases hr'
  · intro n
    refine ⟨n, ?_⟩
    rcases Engine.run_follows h ho n with ⟨e, s, n', hr, hle, hs, -, -, hw⟩ |
      ⟨e, stop, s, n', halt, hr, hs, -, -, hw, -⟩
    · have ho := Interpreter.output_mono (commandsOf text) (.start input) hle
      rw [hs] at ho
      rw [hr, hw]
      exact ho
    · have hn : ((Interpreter.start input).runFor (commandsOf text) n).1.output <+: s.output := by
        have ho := Interpreter.output_mono (commandsOf text) (.start input) (Nat.le_max_left n n')
        rw [Interpreter.runFor_halted hs (Nat.le_max_right n n')] at ho
        exact ho
      rw [hr, hw]
      exact hn

end

/-- A step to the right and two to the left: the machine refuses both of them at once. -/
theorem Engine.run_compiled_edge : ∃ (code : Code) (rounds : Nat) (e : Engine Unit)
    (s : Interpreter), compileBytes {} (utf8 "><<") = .ok code ∧
      (Engine.new (some code) { watch := () }).run rounds = (.stopped .dataPointer, e) ∧
      FailsWithin (commandsOf (utf8 "><<")) code.instructions.toList (.start []) e.machine.core
        s := by
  obtain ⟨code, hc⟩ : ∃ code, compileBytes {} (utf8 "><<") = .ok code := by
    rw [compileBytes_eq]
    exact ⟨_, rfl⟩
  obtain ⟨s, hs⟩ : ∃ s, (Interpreter.start []).runFor (commandsOf (utf8 "><<")) 3 =
      (s, some .dataPointer) := ⟨_, rfl⟩
  have ho : ({ watch := () } : Options Unit).IsPlain [] := ⟨by decide, rfl, rfl, rfl, rfl, rfl⟩
  have hall := Engine.run_compiled hc ho
  obtain ⟨rounds, stop, e, hr⟩ := hall.1.2 ⟨3, s, .dataPointer, hs⟩
  obtain ⟨hstop, -, -, -, hf⟩ := hall.2.1 rounds stop e 3 s .dataPointer hr hs
  cases hstop
  exact ⟨code, rounds, e, s, hc, hr, hf rfl⟩

end Tapelang
