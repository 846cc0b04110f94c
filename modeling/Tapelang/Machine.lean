import Tapelang.Tape
import Tapelang.Reader
import Tapelang.Outlet
import Tapelang.Observer

/-! # The machine

A machine carries out code on a tape. `Core` is what instructions work on and `Core.execute`
carries out one of them; it changes nothing that the tape and pointers show when it refuses.
`Machine.step` adds everything that surrounds an instruction: the range of the instruction
pointer, the end of the program, cancellation, the step limit and the observer, in this order.
`Machine.runFor` repeats steps, and `Machine.close` sends the output that is held back.

Every access to the tape, to the code and to an operand is a checked one; a failed check is a
`Stop.faulted`.
-/

namespace Tapelang

/-- How a run is tied to the outside. -/
inductive Context where
  /-- It cannot be cancelled. -/
  | unbounded
  /-- It can be cancelled and has not been. -/
  | live
  /-- It has been cancelled. -/
  | cancelled
  /-- Its time is up. -/
  | expired
  deriving DecidableEq, Repr, Inhabited

/-- Why a run may not go on. -/
inductive Interruption where
  | cancelled
  | expired
  deriving DecidableEq, Repr, Inhabited

/-- The reason in words. -/
def Interruption.message : Interruption → Bytes
  | cancelled => utf8 "context canceled"
  | expired => utf8 "context deadline exceeded"

namespace Context

/-- Whether the context has to be looked at during a run. -/
def isBounded : Context → Bool
  | unbounded => false
  | _ => true

/-- Why a run in this context may not go on. -/
def interruption? : Context → Option Interruption
  | cancelled => some .cancelled
  | expired => some .expired
  | _ => none

/-- The context after it has been cancelled; the first reason stays. -/
def cancel : Context → Context
  | live => cancelled
  | other => other

end Context

/-- Why a run ended. -/
inductive Stop where
  /-- The program finished. -/
  | finished
  /-- The data pointer would have left the tape. -/
  | dataPointer
  /-- Output could not be written. -/
  | output (why : WriteFault)
  /-- The input came to its end. -/
  | inputEnded
  /-- Input could not be read. -/
  | input (why : ReadFault)
  /-- The instruction pointer left the code. -/
  | instructionPointer (ip : Int)
  /-- The opcode byte stands for no operation. -/
  | unknownOpcode (code : UInt8)
  /-- The step limit was reached. -/
  | stepLimit (limit : Int)
  /-- The observer halted the run. -/
  | halted
  /-- The observer broke down. -/
  | brokenDown (value : Bytes)
  /-- A checked access failed. -/
  | faulted (what : Bytes)
  /-- The context ended. -/
  | interrupted (why : Interruption)
  deriving DecidableEq, Repr, Inhabited

/-- The failure that a run ended with; none if the program finished. -/
def Stop.toFailure? : Stop → Option Failure
  | finished => none
  | dataPointer => some (.report ⟨.range, utf8 "E3001", utf8 "data pointer out of range", {}⟩)
  | output why =>
    some (.reportOf ⟨.transfer, utf8 "E3002", utf8 "could not write output", {}⟩ why.toFailure)
  | inputEnded => some (.reportOf ⟨.transfer, utf8 "E3003", utf8 "end of input", {}⟩ .endOfData)
  | input why =>
    some (.reportOf ⟨.transfer, utf8 "E3003", utf8 "could not read input", {}⟩ why.toFailure)
  | instructionPointer ip =>
    some (.report ⟨.internal, utf8 "E3004",
      utf8 "instruction pointer out of range: " ++ signed ip, {}⟩)
  | unknownOpcode code =>
    some (.report ⟨.internal, utf8 "E3004", utf8 "unknown opcode: " ++ decimal code.toNat, {}⟩)
  | stepLimit limit =>
    some (.report ⟨.runtime, utf8 "E3005",
      utf8 "step limit of " ++ signed limit ++ utf8 " instructions exceeded", {}⟩)
  | halted => some (.report ⟨.runtime, utf8 "E3006", utf8 "execution halted by observer", {}⟩)
  | brokenDown value => some (.report ⟨.internal, utf8 "E3007", utf8 "panic: " ++ value, {}⟩)
  | faulted what => some (.report ⟨.internal, utf8 "E3007", utf8 "panic: " ++ what, {}⟩)
  | interrupted why => some (.text why.message)

/-! ## Carrying out instructions -/

/-- What instructions work on. -/
structure Core where
  /-- The index of the next instruction. -/
  ip : Int := 0
  /-- The index of the current cell. -/
  dp : Nat := 0
  tape : Tape := .blank
  input : Reader
  output : Outlet
  /-- How many bytes the sink had taken at each request on the input. -/
  requests : Array Nat := #[]
  deriving Repr

namespace Core

/-- The current cell. -/
def cell (c : Core) : Except IndexFault UInt8 := c.tape.cellAt c.dp

/-- Replaces the current cell and goes on to the next instruction. -/
def store (c : Core) (value : UInt8) : Core :=
  { c with tape := c.tape.setIfInBounds c.dp value, ip := c.ip + 1 }

/-- Moves the data pointer and goes on, unless it would leave the tape. -/
def move (c : Core) (delta : Int) : Core × Option Stop :=
  let dp := c.dp + delta
  if dp < 0 ∨ tapeSize ≤ dp then (c, some .dataPointer)
  else ({ c with dp := dp.toNat, ip := c.ip + 1 }, none)

/-- Writes a byte and goes on. -/
def write (c : Core) (b : UInt8) : Core × Option Stop :=
  match c.output.put b with
  | (output, none) => ({ c with output, ip := c.ip + 1 }, none)
  | (output, some why) => ({ c with output }, some (.output why))

/-- Sends the output that is held back, then reads a byte into the current cell and goes on. -/
def read (c : Core) : Core × Option Stop :=
  match c.output.flush with
  | (output, some why) => ({ c with output }, some (.output why))
  | (output, none) =>
    let before := c.input.pulls
    match c.input.next with
    | (arrival, input) =>
      let requests :=
        c.requests ++ Array.replicate (input.pulls - before) output.sink.taken.size
      match arrival with
      | .byte b =>
        if c.dp < tapeSize then ({ c with output, input, requests }.store b, none)
        else
          ({ c with output, input, requests },
            some (.faulted (IndexFault.message ⟨c.dp, tapeSize⟩)))
      | .ending => ({ c with output, input, requests }, some .inputEnded)
      | .fault why => ({ c with output, input, requests }, some (.input why))

/-- Goes on with the current cell. -/
@[inline]
def withCell (c : Core) (go : UInt8 → Core × Option Stop) : Core × Option Stop :=
  match c.cell with
  | .error f => (c, some (.faulted f.message))
  | .ok cell => go cell

/-- Goes on with an operand. -/
@[inline]
def withOperand {α : Type} (c : Core) (operand : Except OperandFault α)
    (go : α → Core × Option Stop) : Core × Option Stop :=
  match operand with
  | .error f => (c, some (.faulted f.message))
  | .ok value => go value

/-- Carries out an instruction; the reason is given if it refuses. -/
def execute (i : Instruction) (c : Core) : Core × Option Stop :=
  match i.opcode? with
  | none | some .finish => (c, some (.unknownOpcode i.code))
  | some .addByte => c.withCell fun cell => c.withOperand i.runLength fun n =>
    (c.store (cell + n), none)
  | some .subByte => c.withCell fun cell => c.withOperand i.runLength fun n =>
    (c.store (cell - n), none)
  | some .addPointer => c.withOperand i.pointerDelta fun n => c.move n.toNat
  | some .subPointer => c.withOperand i.pointerDelta fun n => c.move (-n.toNat)
  | some .write => c.withCell c.write
  | some .read => c.read
  | some .jumpIfZero => c.withCell fun cell =>
    if cell ≠ 0 then ({ c with ip := c.ip + 1 }, none)
    else c.withOperand i.jumpTarget fun target => ({ c with ip := target }, none)
  | some .jump => c.withOperand i.jumpTarget fun target => ({ c with ip := target }, none)

end Core

/-! ## Running -/

/-- What stays the same during a run. -/
structure Setup (σ : Type) where
  code : Code
  /-- The most instructions to carry out; there is no limit if it is not positive. -/
  stepLimit : Int := 0
  /-- The number of instructions between two looks at the context; none are taken if it is not
  positive. -/
  checkInterval : Int := 1000
  observer : Option (Observer σ) := none

/-- A machine in the middle of a run. -/
structure Machine (σ : Type) where
  core : Core
  /-- The number of instructions begun. The count has no bound; that a signed 64-bit counter wraps
  around after `2 ^ 63` instructions is left out. -/
  steps : Nat := 0
  context : Context := .unbounded
  /-- The number of instructions reached since the last look at the context. -/
  sinceCheck : Nat := 0
  /-- What the observer remembers. -/
  watch : σ

namespace Machine

variable {σ : Type}

/-- Looks at the context when it is time to. -/
def checkContext (m : Machine σ) (interval : Int) : Machine σ × Option Interruption :=
  if 0 < interval ∧ m.context.isBounded then
    if interval ≤ m.sinceCheck + 1 then ({ m with sinceCheck := 0 }, m.context.interruption?)
    else ({ m with sinceCheck := m.sinceCheck + 1 }, none)
  else (m, none)

/-- Tells the observer, if there is one, of the instruction `i`. -/
def observe (m : Machine σ) (s : Setup σ) (i : Instruction) : Machine σ × Option Stop :=
  match s.observer with
  | none => (m, none)
  | some observer =>
    match m.core.cell with
    | .error f => (m, some (.faulted f.message))
    | .ok cell =>
      let (watch, reaction) := observer.notify m.watch
        { ip := m.core.ip, code := i.code, location := s.code.locationAt m.core.ip,
          dp := m.core.dp, cell }
      let m := { m with
        watch, context := if reaction.cancel then m.context.cancel else m.context }
      match reaction.verdict with
      | .proceed => (m, none)
      | .halt => (m, some .halted)
      | .breakDown value => (m, some (.brokenDown value))

/-- Carries out an instruction. -/
def dispatch (m : Machine σ) (i : Instruction) : Machine σ × Option Stop :=
  let (core, stop) := m.core.execute i
  ({ m with core }, stop)

/-- One round: everything that comes before an instruction, and the instruction. -/
def step (s : Setup σ) (m : Machine σ) : Machine σ × Option Stop :=
  if m.core.ip < 0 ∨ s.code.size ≤ m.core.ip then (m, some (.instructionPointer m.core.ip))
  else
    match s.code.instructionAt m.core.ip with
    | .error f => (m, some (.faulted f.message))
    | .ok i =>
      if i.code = Opcode.finish.toByte then (m, some .finished)
      else
        match m.checkContext s.checkInterval with
        | (m, some why) => (m, some (.interrupted why))
        | (m, none) =>
          if 0 < s.stepLimit ∧ s.stepLimit ≤ m.steps then (m, some (.stepLimit s.stepLimit))
          else
            match { m with steps := m.steps + 1 }.observe s i with
            | (m, some stop) => (m, some stop)
            | (m, none) => m.dispatch i

/-- Repeats rounds until one ends the run, `rounds` at most. -/
def runFor (s : Setup σ) : (rounds : Nat) → Machine σ → Machine σ × Option Stop
  | 0, m => (m, none)
  | rounds + 1, m =>
    match m.step s with
    | (m, some stop) => (m, some stop)
    | (m, none) => runFor s rounds m

/-- Ends a run: sends the output that is held back. A failure to do so counts only if there was
no other. -/
def close (m : Machine σ) (stop : Stop) : Machine σ × Stop :=
  let (output, fault) := m.core.output.flush
  let m := { m with core := { m.core with output } }
  match stop, fault with
  | .finished, some why => (m, .output why)
  | stop, _ => (m, stop)

/-- A whole run of at most `rounds` rounds; there is no stop if it did not end within them. -/
def run (s : Setup σ) (rounds : Nat) (m : Machine σ) : Machine σ × Option Stop :=
  match m.runFor s rounds with
  | (m, none) => (m, none)
  | (m, some stop) =>
    let (m, stop) := m.close stop
    (m, some stop)

end Machine

end Tapelang
