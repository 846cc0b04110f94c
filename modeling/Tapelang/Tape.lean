import Tapelang.Code.Basic

/-! # The tape

30000 cells of one byte each, all zero at first.
-/

namespace Tapelang

/-- The number of cells. -/
def tapeSize : Nat := 30000

/-- The cells, by index. -/
abbrev Tape := Vector UInt8 tapeSize

namespace Tape

/-- The tape before a run. -/
def blank : Tape := Vector.replicate tapeSize 0

/-- The cell at an integer index. -/
def cellAt (t : Tape) (i : Int) : Except IndexFault UInt8 :=
  itemAt t.toArray i

/-- A stretch of equal cells that are not zero. -/
structure Stretch where
  start : Nat
  length : Nat
  value : UInt8
  deriving DecidableEq, Repr, Inhabited

/-- The stretches of a list of cells, the first of which has index `start`. -/
def stretchesFrom (start : Nat) : List UInt8 → List Stretch
  | [] => []
  | cell :: rest =>
    match stretchesFrom (start + 1) rest with
    | s :: others =>
      if cell = 0 then s :: others
      else if s.value = cell ∧ s.start = start + 1 then ⟨start, s.length + 1, cell⟩ :: others
      else ⟨start, 1, cell⟩ :: s :: others
    | [] => if cell = 0 then [] else [⟨start, 1, cell⟩]

/-- The stretches of a tape, each as long as possible. -/
def stretches (t : Tape) : List Stretch :=
  stretchesFrom 0 t.toList

end Tape

end Tapelang
