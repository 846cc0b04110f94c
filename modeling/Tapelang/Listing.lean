import Tapelang.Code.Statistics
import Tapelang.Table

/-! # Listings

A listing shows code one instruction a line: where it stands, what it is, where it came from and
what it does.
-/

namespace Tapelang

/-- A line of a listing. -/
structure ListingLine where
  offset : Int
  name : Bytes
  code : UInt8 := 0
  operand : Option Int := none
  location : Position := .unknown
  note : Bytes := []
  deriving DecidableEq, Repr, Inhabited

/-- What an instruction does, in a few words; nothing for one that its name explains. -/
def Instruction.note (i : Instruction) : Bytes :=
  match i.opcode? with
  | some .jumpIfZero => utf8 "skip to " ++ signed i.operand ++ utf8 " if zero"
  | some .jump => utf8 "back to " ++ signed i.operand
  | some .addByte => utf8 "cell += " ++ decimal i.operandByte.toNat
  | some .subByte => utf8 "cell -= " ++ decimal i.operandByte.toNat
  | some .addPointer => utf8 "ptr += " ++ decimal i.operandWord.toNat
  | some .subPointer => utf8 "ptr -= " ++ decimal i.operandWord.toNat
  | _ => []

namespace Listing

/-- The line of the instruction at `index`. -/
def line (c : Code) (index : Nat) (i : Instruction) : ListingLine :=
  { offset := index, name := i.name, code := i.code, operand := i.operand?,
    location := c.locationAt index, note := i.note }

/-- The listing of some code. -/
def ofCode (c : Code) : List ListingLine :=
  c.instructions.toList.zipIdx.map fun (i, index) => line c index i

/-- The colour of names. -/
def nameInk : Text.Ink := ⟨"1", "22"⟩

/-- The colour of operands. -/
def operandInk : Text.Ink := ⟨"33", "0"⟩

/-- The colour of notes. -/
def noteInk : Text.Ink := ⟨"96", "0"⟩

/-- How the parts of a line are painted. -/
structure Palette where
  name : Bytes → Bytes
  operand : Bytes → Bytes
  note : Bytes → Bytes

/-- Nothing is painted. -/
def Palette.plain : Palette := ⟨id, id, id⟩

/-- Names, operands and notes have colours of their own. -/
def Palette.inked : Palette := ⟨nameInk.paint, operandInk.paint, noteInk.paint⟩

/-- The cells of a line. -/
def cells (palette : Palette) (l : ListingLine) : List Bytes :=
  [ signed l.offset,
    palette.name l.name,
    match l.operand with
    | none => []
    | some n => palette.operand (signed n),
    if l.location.isUnknown then [] else l.location.render,
    if l.note.isEmpty then [] else palette.note l.note ]

/-- The table of a listing. -/
def table (palette : Palette) (lines : List ListingLine) : Table :=
  { header := [utf8 "OFFSET", utf8 "OPCODE", utf8 "OPERAND", utf8 "SOURCE", utf8 "INFO"]
    headerAlignment := [.centre, .centre, .centre, .centre, .centre]
    alignment := [.right, .left, .right, .left, .left]
    rows := lines.map (cells palette) }

/-- A listing drawn, in colour or not. -/
def render (colour : Bool) (lines : List ListingLine) : Bytes :=
  (table (if colour then .inked else .plain) lines).render

end Listing

/-- The table of statistics. -/
def Statistics.table (s : Statistics) : Table :=
  { header := [utf8 "STAT", utf8 "COUNT"]
    alignment := [.left, .right]
    rows := s.opCounts.map (fun (name, n) => [name, decimal n]) ++
      [ [utf8 "instructions", decimal s.instructionCount],
        [utf8 "loops", decimal s.loopCount],
        [utf8 "max loop depth", signed s.maxLoopDepth] ] }

end Tapelang
