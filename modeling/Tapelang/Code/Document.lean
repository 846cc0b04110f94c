import Tapelang.Code.Validation
import Tapelang.Code.Statistics
import Tapelang.Json.Parser
import Tapelang.Json.Printer
import Tapelang.Text.Quoted
import Tapelang.Text.Caseless

/-! # Code as a document

Code is written as a JSON object with a name, a file name and a list of instructions, each with
its name, operand and position; what is empty or zero is left out, except the operand of an
instruction that has one. `Code.read` reads such a document back and validates the code.

Reading takes members in the order in which they stand. A key matches a field without regard to
case, unknown keys are passed over, and `null` leaves a field as it is. When the list of
instructions is given again, its items are read into the places of the earlier ones, so that a
field that an item does not name keeps what it had there; an empty list or `null` in its place
forgets the earlier items.
-/

namespace Tapelang

/-! ## Writing -/

/-- A member that is left out when the text is empty. -/
def textMember (key : String) (text : Bytes) : Option (Bytes × Json) :=
  if text.isEmpty then none else some (utf8 key, .string text)

/-- A member that is left out when the number is zero. -/
def intMember (key : String) (n : Int) : Option (Bytes × Json) :=
  if n = 0 then none else some (utf8 key, .int n)

/-- An instruction as JSON. -/
def Instruction.toJson (i : Instruction) (p : Position) : Json :=
  .ofMembers
    [ some (utf8 "op", .string i.name),
      i.operand?.map fun n => (utf8 "operand", .int n),
      intMember "line" p.line,
      intMember "column" p.column ]

namespace Code

/-- The instructions with their positions, in order. -/
def placed (c : Code) : List (Instruction × Position) :=
  c.instructions.toList.zipIdx.map fun (i, index) => (i, c.locationAt index)

/-- Code as JSON. -/
def toJson (c : Code) : Json :=
  .ofMembers
    [ textMember "name" c.name,
      textMember "filename" c.filename,
      some (utf8 "instructions", .array (c.placed.map fun (i, p) => i.toJson p)) ]

/-- Code as a document. -/
def write (c : Code) : Bytes := c.toJson.compact

end Code

/-- Statistics as JSON. -/
def Statistics.toJson (s : Statistics) : Json :=
  .object
    [ (utf8 "instruction_count", .nat s.instructionCount),
      (utf8 "op_counts", .object (s.opCounts.map fun (name, n) => (name, .nat n))),
      (utf8 "loop_count", .nat s.loopCount),
      (utf8 "max_loop_depth", .int s.maxLoopDepth) ]

/-! ## Reading -/

/-- Why a text is not a document of some valid code. -/
inductive DocumentError where
  /-- It is not JSON, or a field has a value of the wrong sort. -/
  | malformed
  /-- The instruction at `index` has a name that no operation has. -/
  | unknownName (name : Bytes) (index : Nat)
  /-- The instruction at `index` lacks its operand. -/
  | missingOperand (name : Bytes) (index : Nat)
  | defect (d : Defect)
  deriving DecidableEq, Repr, Inhabited

/-- The error in words. -/
def DocumentError.message : DocumentError → Bytes
  | malformed => utf8 "malformed document"
  | unknownName name index =>
    utf8 "bytecode: unknown opcode " ++ Text.quote name ++ utf8 " at " ++ decimal index
  | missingOperand name index =>
    utf8 "bytecode: " ++ name ++ utf8 " at " ++ decimal index ++ utf8 " is missing its operand"
  | defect d => d.message

/-- The fields of an instruction in a document. -/
structure DocumentItem where
  op : Bytes := []
  operand : Option Int := none
  line : Int := 0
  column : Int := 0
  deriving DecidableEq, Repr, Inhabited

/-- The fields of a document. The first `count` items are its instructions; the others are what
is left of an earlier, longer list. -/
structure Document where
  name : Bytes := []
  filename : Bytes := []
  items : List DocumentItem := []
  count : Nat := 0
  deriving DecidableEq, Repr, Inhabited

/-- The integer that a literal of digits writes, if it fits into 64 bits. -/
def int64? (literal : Bytes) : Option Int :=
  let (negative, digits) := match literal with
    | 45 :: digits => (true, digits)
    | digits => (false, digits)
  if digits ≠ [] ∧ digits.all Json.isDigit then
    let magnitude : Int := (digits.foldl (fun n b => 10 * n + (b.toNat - 48)) 0 : Nat)
    let n := if negative then -magnitude else magnitude
    if -0x8000000000000000 ≤ n ∧ n < 0x8000000000000000 then some n else none
  else none

/-- Reads a text over `old`. -/
def readText? (old : Bytes) : Json → Option Bytes
  | .null => some old
  | .string text => some text
  | _ => none

/-- Reads an integer over `old`. -/
def readInt? (old : Int) : Json → Option Int
  | .null => some old
  | .number literal => int64? literal
  | _ => none

/-- Reads an operand; `null` is no operand. -/
def readOperand? : Json → Option (Option Int)
  | .null => some none
  | .number literal => (int64? literal).map some
  | _ => none

namespace DocumentItem

/-- Reads a member of an instruction. -/
def readMember? (item : DocumentItem) (key : Bytes) (v : Json) : Option DocumentItem :=
  if Text.sameName key (utf8 "op") then (readText? item.op v).map ({ item with op := · })
  else if Text.sameName key (utf8 "operand") then
    (readOperand? v).map ({ item with operand := · })
  else if Text.sameName key (utf8 "line") then
    (readInt? item.line v).map ({ item with line := · })
  else if Text.sameName key (utf8 "column") then
    (readInt? item.column v).map ({ item with column := · })
  else some item

/-- Reads an instruction over `item`. -/
def read? (item : DocumentItem) : Json → Option DocumentItem
  | .null => some item
  | .object members => members.foldlM (fun item (key, v) => item.readMember? key v) item
  | _ => none

/-- Reads a list of instructions over the items that are there. -/
def readAll? : List DocumentItem → List Json → Option (List DocumentItem)
  | items, [] => some items
  | items, v :: rest => do
    let item ← (items.headD {}).read? v
    let more ← readAll? items.tail rest
    return item :: more

/-- The instruction of an item at `index`. -/
def instruction (item : DocumentItem) (index : Nat) : Except DocumentError Instruction :=
  match Opcode.ofName? item.op with
  | none => .error (.unknownName item.op index)
  | some o =>
    if o.operandKind = .none then .ok (.of o)
    else
      match item.operand with
      | none => .error (.missingOperand item.op index)
      | some n => .ok (.of o n)

/-- The position of an item. -/
def position (item : DocumentItem) : Position := ⟨item.line, item.column⟩

end DocumentItem

namespace Document

/-- Reads the list of instructions. -/
def readItems? (d : Document) : Json → Option Document
  | .null | .array [] => some { d with items := [], count := 0 }
  | .array vs =>
    (DocumentItem.readAll? d.items vs).map fun items => { d with items, count := vs.length }
  | _ => none

/-- Reads a member of a document. -/
def readMember? (d : Document) (key : Bytes) (v : Json) : Option Document :=
  if Text.sameName key (utf8 "name") then (readText? d.name v).map ({ d with name := · })
  else if Text.sameName key (utf8 "filename") then
    (readText? d.filename v).map ({ d with filename := · })
  else if Text.sameName key (utf8 "instructions") then d.readItems? v
  else some d

/-- The document that a value is. -/
def ofJson? : Json → Option Document
  | .null => some {}
  | .object members => members.foldlM (fun (d : Document) (key, v) => d.readMember? key v) {}
  | _ => none

/-- The instructions of items, the first of which has index `index`. -/
def instructions : (index : Nat) → List DocumentItem → Except DocumentError (List Instruction)
  | _, [] => .ok []
  | index, item :: rest => do
    let i ← item.instruction index
    let more ← instructions (index + 1) rest
    return i :: more

/-- The code of a document, not validated. Positions are kept only if one of them is known. -/
def toCode (d : Document) : Except DocumentError Code := do
  let items := d.items.take d.count
  let is ← instructions 0 items
  let locations := if items.any fun item => !item.position.isUnknown then
      items.map DocumentItem.position
    else []
  return { name := d.name, filename := d.filename,
           instructions := is.toArray, locations := locations.toArray }

end Document

namespace Code

/-- The valid code that a JSON value stands for. -/
def ofJson (v : Json) : Except DocumentError Code :=
  match Document.ofJson? v with
  | none => .error .malformed
  | some d =>
    match d.toCode with
    | .error e => .error e
    | .ok c => (c.validate.mapError .defect).map fun _ => c

/-- The valid code that a document stands for. -/
def read (text : Bytes) : Except DocumentError Code :=
  match Json.parse text with
  | none => .error .malformed
  | some v => ofJson v

end Code

end Tapelang
