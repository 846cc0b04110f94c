import Tapelang.Instruction
import Tapelang.Position

/-! # Code

A program in bytecode: its instructions, a name, the file it came from, and a source map with one
position per instruction, which may be missing. Code can be built from anything;
`Tapelang.Code.validate` says whether the machine can rely on it.
-/

namespace Tapelang

/-- An index outside a sequence of `length` items. -/
structure IndexFault where
  index : Int
  length : Nat
  deriving DecidableEq, Repr, Inhabited

/-- The fault in words. The length is left out for a negative index. -/
def IndexFault.message (f : IndexFault) : Bytes :=
  utf8 "runtime error: index out of range [" ++ signed f.index ++ utf8 "]" ++
    if f.index < 0 then [] else utf8 " with length " ++ decimal f.length

/-- The item of an array at an integer index. -/
def itemAt {α : Type} (items : Array α) (i : Int) : Except IndexFault α :=
  if i < 0 then .error ⟨i, items.size⟩
  else
    match items[i.toNat]? with
    | some a => .ok a
    | none => .error ⟨i, items.size⟩

/-- A program in bytecode. -/
structure Code where
  name : Bytes := []
  filename : Bytes := []
  instructions : Array Instruction := #[]
  locations : Array Position := #[]
  deriving DecidableEq, Repr, Inhabited

namespace Code

/-- The number of instructions. -/
def size (c : Code) : Nat := c.instructions.size

/-- The instruction at an index. -/
def instructionAt (c : Code) (i : Int) : Except IndexFault Instruction :=
  itemAt c.instructions i

/-- The source position of the instruction at an index, unknown where the source map has none. -/
def locationAt (c : Code) (i : Int) : Position :=
  if i < 0 then .unknown else (c.locations[i.toNat]?).getD .unknown

end Code

end Tapelang
