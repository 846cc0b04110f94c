import Tapelang.Assembly
import Tapelang.Cursor

/-! # The compiler

`Compiler.compile` reads a program text command by command into an assembly and makes code of it.
The first thing that goes wrong ends the compilation: a `]` without its `[` where it stands, a
failure to read where it happens, and a `[` without its `]` at the end of the text, of which the
outermost is named. A compiler may be used again; it keeps what it had built when it stopped, and
clears it before the next text.
-/

namespace Tapelang

/-- Why a text does not compile. -/
inductive CompileError where
  /-- A `[` has no `]`. -/
  | unclosed (place : Place)
  /-- A `]` has no `[`. -/
  | unopened (place : Place)
  /-- The text could not be read to its end. -/
  | unreadable (why : ReadFault)
  /-- The file of the text could not be opened. -/
  | unopenable (path : Bytes) (why : OpenFault)
  deriving DecidableEq, Repr, Inhabited

/-- The failure to compile. -/
def CompileError.toFailure : CompileError → Failure
  | unclosed place => .report ⟨.brackets, utf8 "E2001", utf8 "no matching ']'", place⟩
  | unopened place => .report ⟨.brackets, utf8 "E2002", utf8 "no matching '['", place⟩
  | unreadable why => why.whileReadingSource
  | unopenable path why => why.whileOpeningSource path

/-- What a program is called; an empty text leaves a name open. -/
structure Naming where
  filename : Bytes := []
  name : Bytes := []
  deriving DecidableEq, Repr, Inhabited

/-- The name of a program that was not given one. -/
def defaultName : Bytes := utf8 "__main__"

/-- A compiler, with what the last compilation has left in it. -/
structure Compiler where
  naming : Naming := {}
  filename : Bytes := []
  assembly : Assembly := {}
  deriving Repr, Inhabited

namespace Compiler

/-- A compiler that has not been used. -/
def new (naming : Naming) : Compiler := { naming }

/-- Reads commands into an assembly up to the end of the text, and gives the position of the last
byte of the text. What has been built is given in any case. -/
def assemble (filename : Bytes) (a : Assembly) (c : Cursor) :
    Assembly × Except CompileError Position :=
  match _h : c.token with
  | (⟨.command command, p⟩, c') =>
    if a.rejects command then (a, .error (.unopened ⟨filename, p.line, p.column⟩))
    else assemble filename (a.add command p) c'
  | (⟨.ending, p⟩, _) =>
    match a.outermost? with
    | some loop => (a, .error (.unclosed ⟨filename, loop.position.line, loop.position.column⟩))
    | none => (a.emit .finish p, .ok p)
  | (⟨.fault why, _⟩, _) => (a, .error (.unreadable why))
termination_by c.left
decreasing_by
  have h := @Cursor.left_token_lt c command (by rw [_h])
  rw [_h] at h
  exact h

/-- Clears what an earlier compilation has left. The file name is the one asked for, or else that
of the text. -/
def reset (k : Compiler) (source : Cursor) : Compiler :=
  { k with
    filename := if k.naming.filename.isEmpty then source.filename else k.naming.filename
    assembly := {} }

/-- The name of the program. -/
def programName (k : Compiler) : Bytes :=
  if k.naming.name.isEmpty then defaultName else k.naming.name

/-- Compiles a text. -/
def compile (k : Compiler) (source : Cursor) : Except CompileError Code × Compiler :=
  let k := k.reset source
  let (assembly, outcome) := assemble k.filename k.assembly source
  let code := outcome.map fun _ =>
    { name := k.programName, filename := k.filename,
      instructions := assembly.instructions, locations := assembly.locations }
  (code, { k with assembly })

end Compiler

/-- Compiles what a feed delivers. -/
def compileFeed (naming : Naming) (feed : Feed) : Except CompileError Code :=
  ((Compiler.new naming).compile (.ofFeed feed)).1

/-- Compiles a text in memory. -/
def compileBytes (naming : Naming) (text : Bytes) : Except CompileError Code :=
  compileFeed naming (.ofBytes text)

/-- Compiles the file called `path`. The code is named after the file unless `naming` says
otherwise. -/
def compileFile (openFile : Bytes → Except OpenFault Feed) (naming : Naming) (path : Bytes) :
    Except CompileError Code :=
  match Cursor.openFile openFile path with
  | .error why => .error (.unopenable path why)
  | .ok source =>
    let filename := if naming.filename.isEmpty then path else naming.filename
    ((Compiler.new { naming with filename }).compile source).1

end Tapelang
