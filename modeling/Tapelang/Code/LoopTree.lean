import Tapelang.Code.Basic

/-! # Loop trees

Code seen as nested loops. `LoopTree.flattenAll` lays trees out as instructions from an index on:
a loop becomes a jump behind itself, its body, and a jump back.
-/

namespace Tapelang

/-- An instruction that goes on to the next one, or a loop. -/
inductive LoopTree where
  | addByte (n : UInt8)
  | subByte (n : UInt8)
  | addPointer (n : UInt16)
  | subPointer (n : UInt16)
  | write
  | read
  | loop (body : List LoopTree)
  deriving Repr, Inhabited

namespace LoopTree

mutual

/-- A tree as instructions, the first of which has the given index. -/
def flatten (index : Nat) : LoopTree → List Instruction
  | addByte n => [.addByte n]
  | subByte n => [.subByte n]
  | addPointer n => [.addPointer n]
  | subPointer n => [.subPointer n]
  | write => [.write]
  | read => [.read]
  | loop body =>
    let inner := flattenAll (index + 1) body
    .jumpIfZero (index + inner.length + 2 : Nat) :: inner ++ [.jump index]

/-- Trees as instructions, the first of which has the given index. -/
def flattenAll (index : Nat) : List LoopTree → List Instruction
  | [] => []
  | tree :: rest =>
    let first := flatten index tree
    first ++ flattenAll (index + first.length) rest

end

mutual

/-- How deeply the loops of a tree nest. -/
def height : LoopTree → Nat
  | loop body => heightAll body + 1
  | _ => 0

/-- How deeply the loops of trees nest. -/
def heightAll : List LoopTree → Nat
  | [] => 0
  | tree :: rest => max tree.height (heightAll rest)

end

end LoopTree

end Tapelang
