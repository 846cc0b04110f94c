import Tapelang.Machine
import Tapelang.Compiler

/-! # Engines

An engine is a machine that has been given its code, input and output and runs at most once. Code
may be missing, and then no run begins. `exec` compiles and runs in one go.
-/

namespace Tapelang

/-- How code is to be run. -/
structure Options (σ : Type) where
  input : Feed := {}
  sink : Sink := {}
  stepLimit : Int := 0
  checkInterval : Int := 1000
  context : Context := .unbounded
  observer : Option (Observer σ) := none
  watch : σ

/-- How a call to run an engine ended. -/
inductive Ending where
  /-- There is no code. -/
  | noCode
  /-- The engine has run before. -/
  | alreadyRun
  /-- The run did not end within the rounds given to it. -/
  | unfinished
  | stopped (why : Stop)
  deriving DecidableEq, Repr, Inhabited

/-- A machine with its code. -/
structure Engine (σ : Type) where
  setup : Option (Setup σ)
  machine : Machine σ
  hasRun : Bool := false

namespace Options

variable {σ : Type}

/-- What stays the same during a run of `code`. -/
def setup (o : Options σ) (code : Code) : Setup σ :=
  { code, stepLimit := o.stepLimit, checkInterval := o.checkInterval, observer := o.observer }

/-- The machine before a run. -/
def machine (o : Options σ) : Machine σ :=
  { core := { input := .ofFeed o.input, output := { sink := o.sink } }
    context := o.context, watch := o.watch }

end Options

namespace Engine

variable {σ : Type}

/-- An engine that has not run. -/
def new (code : Option Code) (o : Options σ) : Engine σ :=
  { setup := code.map o.setup, machine := o.machine }

/-- Runs the engine, for at most `rounds` rounds. -/
def run (e : Engine σ) (rounds : Nat) : Ending × Engine σ :=
  match e.setup with
  | none => (.noCode, e)
  | some setup =>
    if e.hasRun then (.alreadyRun, e)
    else
      match e.machine.run setup rounds with
      | (machine, none) => (.unfinished, { e with machine, hasRun := true })
      | (machine, some why) => (.stopped why, { e with machine, hasRun := true })

end Engine

/-- The failure that a call to run ended with. -/
def Ending.toFailure? : Ending → Option Failure
  | noCode => some (.text (utf8 "no main code available"))
  | alreadyRun => some (.text (utf8 "vm has already run"))
  | unfinished => none
  | stopped why => why.toFailure?

/-- Runs what was compiled, if it did compile. -/
def exec {σ : Type} (compiled : Except CompileError Code) (o : Options σ) (rounds : Nat) :
    Except CompileError Ending × Engine σ :=
  match compiled with
  | .error e => (.error e, .new none o)
  | .ok code =>
    let (ending, engine) := (Engine.new (some code) o).run rounds
    (.ok ending, engine)

end Tapelang
