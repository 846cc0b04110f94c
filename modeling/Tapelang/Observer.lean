import Tapelang.Code.Basic

/-! # Observers

An observer is told of every instruction before it is carried out. It may ask that the run's
context be cancelled, and it may halt the run or break down. `Observer.profile` counts
instructions by opcode; `Observer.recorder` keeps the events themselves.
-/

namespace Tapelang

/-- An instruction that is about to be carried out, and the cell that it will work on. -/
structure Event where
  ip : Int
  code : UInt8
  location : Position
  dp : Nat
  cell : UInt8
  deriving DecidableEq, Repr, Inhabited

/-- The name of the instruction's operation. -/
def Event.opcodeName (e : Event) : Bytes := Tapelang.opcodeName e.code

/-- What an observer makes of a run. -/
inductive Verdict where
  | proceed
  | halt
  /-- The observer broke down with this value. -/
  | breakDown (value : Bytes)
  deriving DecidableEq, Repr, Inhabited

/-- An observer's answer to an event. -/
structure Reaction where
  cancel : Bool := false
  verdict : Verdict := .proceed
  deriving DecidableEq, Repr, Inhabited

/-- An observer that remembers what it has seen as a `σ`. -/
structure Observer (σ : Type) where
  notify : σ → Event → σ × Reaction

/-! ## Profiles -/

/-- How often each opcode byte was about to be carried out. A profile that was never set up and one
that has seen nothing are the same value. The counts have no bound; that signed 64-bit counters wrap
around after `2 ^ 63` instructions is left out. -/
structure Profile where
  counts : Vector Nat 256 := Vector.replicate 256 0
  deriving DecidableEq, Repr

namespace Profile

/-- How often the opcode byte `b` was seen. -/
def count (p : Profile) (b : UInt8) : Nat := p.counts.get b.toFin

/-- One more of the opcode byte `b`. -/
def add (p : Profile) (b : UInt8) : Profile :=
  ⟨p.counts.set b.toFin (p.counts.get b.toFin + 1)⟩

/-- The number of events seen. -/
def total (p : Profile) : Nat := p.counts.toList.foldr (· + ·) 0

end Profile

/-- Counts instructions by opcode. -/
def Observer.profile : Observer Profile where
  notify p e := (p.add e.code, {})

/-! ## Recordings -/

/-- At which of its calls a recorder does something besides recording; calls count from 1. -/
structure RecorderPlan where
  cancelAt : Option Nat := none
  breakDownAt : Option Nat := none
  breakDownValue : Bytes := []
  haltAt : Option Nat := none
  deriving DecidableEq, Repr, Inhabited

/-- The first `keep` events, and the number of all of them. -/
structure Recording where
  keep : Nat
  events : Array Event := #[]
  count : Nat := 0
  deriving DecidableEq, Repr, Inhabited

/-- One more event. -/
def Recording.add (r : Recording) (e : Event) : Recording :=
  { r with
    events := if r.events.size < r.keep then r.events.push e else r.events
    count := r.count + 1 }

/-- Records every event; on the planned calls it then cancels, breaks down or halts, in this
order. -/
def Observer.recorder (plan : RecorderPlan) : Observer Recording where
  notify r e :=
    let r := r.add e
    let verdict :=
      if plan.breakDownAt = some r.count then .breakDown plan.breakDownValue
      else if plan.haltAt = some r.count then .halt
      else .proceed
    (r, { cancel := plan.cancelAt == some r.count, verdict })

end Tapelang
