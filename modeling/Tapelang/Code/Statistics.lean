import Tapelang.Code.Basic

/-! # Statistics

How many instructions there are of each name, how many loops, and how deeply they nest.
-/

namespace Tapelang

/-- Counts by name. -/
abbrev Tally := List (Bytes × Nat)

/-- One more of `name`. The names stay in the order of `Bytes.le`, each once. -/
def Tally.add (name : Bytes) : Tally → Tally
  | [] => [(name, 1)]
  | (known, n) :: rest =>
    if known = name then (known, n + 1) :: rest
    else if Bytes.le name known then (name, 1) :: (known, n) :: rest
    else (known, n) :: Tally.add name rest

/-- The sum of all counts. -/
def Tally.total (t : Tally) : Nat := t.foldr (fun entry sum => entry.2 + sum) 0

/-- Statistics of some code. -/
structure Statistics where
  instructionCount : Nat := 0
  opCounts : Tally := []
  loopCount : Nat := 0
  maxLoopDepth : Int := 0
  deriving DecidableEq, Repr, Inhabited

/-- Statistics under way: the depth is that of the instruction reached. -/
structure StatisticsWalk where
  done : Statistics := {}
  depth : Int := 0
  deriving DecidableEq, Repr, Inhabited

/-- Counts one instruction in. -/
def StatisticsWalk.add (w : StatisticsWalk) (i : Instruction) : StatisticsWalk :=
  let done := { w.done with
    instructionCount := w.done.instructionCount + 1
    opCounts := w.done.opCounts.add i.name }
  match i.opcode? with
  | some .jumpIfZero =>
    let depth := w.depth + 1
    { done := { done with
        loopCount := done.loopCount + 1
        maxLoopDepth := max done.maxLoopDepth depth }
      depth }
  | some .jump => { done, depth := w.depth - 1 }
  | _ => { done, depth := w.depth }

/-- The statistics of some code. -/
def Code.statistics (c : Code) : Statistics :=
  (c.instructions.foldl StatisticsWalk.add {}).done

end Tapelang
