import Tapelang.Toml.Scalar
import Tapelang.Toml.Tables

/-! # TOML documents

A document is a sequence of lines: a key with its value, the header of a table, or of the next table
of an array. Only the values at the top of a document are single settings; all else is read as well,
because an error anywhere makes a document useless.
-/

namespace Tapelang.Toml

/-! ## Keys -/

/-- Whether a byte may stand in a key without quotes. -/
def isKeyByte (b : UInt8) : Bool :=
  (48 ≤ b && b ≤ 57) || (65 ≤ b && b ≤ 90) || (97 ≤ b && b ≤ 122) || b == '-'.toUInt8 ||
    b == '_'.toUInt8

/-- A key without dots, and what follows it. -/
def simpleKey? (bound : Nat) (text : Bytes) : Option (Bytes × Bytes) :=
  if text.head? = some 34 ∨ text.head? = some 39 then lineString? bound text
  else
    let (name, rest) := text.span isKeyByte
    if name.isEmpty then none else some (name, rest)

/-- Takes a part of a key, given the parts before it, the last one first. -/
def stepKey (bound : Nat) (state : List Bytes × Bytes) :
    Option (Next (List Bytes × Bytes) (List Bytes × Bytes)) := do
  let (name, rest) ← simpleKey? bound state.2
  let parts := name :: state.1
  match skipBlanks rest with
  | 46 :: rest => return .again (parts, skipBlanks rest)
  | rest => return .done (parts.reverse, rest)

/-- A key with its parts, and what follows it without blanks in front. -/
def key? (bound : Nat) (text : Bytes) : Option (List Bytes × Bytes) :=
  iterate (stepKey bound) bound ([], text)

/-- A key with the sign behind it, and what follows that without blanks in front. -/
def keySign? (bound : Nat) (text : Bytes) : Option (List Bytes × Bytes) := do
  let (key, rest) ← key? bound text
  let rest ← expect? '='.toUInt8 rest
  return (key, skipBlanks rest)

/-! ## Values -/

/-- A list or an inline table that is open. -/
inductive Opened where
  | list
  /-- The names in use in the table, and the key that waits for its value. -/
  | table (names : Entries) (key : List Bytes)
  deriving Repr, Inhabited

/-- A value that is being read. -/
structure Reading where
  rest : Bytes
  stack : List Opened := []
  /-- The value that has just been read, if one has. -/
  value : Option Setting := none
  deriving Repr, Inhabited

namespace Reading

/-- Ends the innermost list or table. -/
def close (r : Reading) (rest : Bytes) : Reading := ⟨rest, r.stack.tail, some .other⟩

/-- Goes on in a list, in front of a value or of its end. -/
def inList (r : Reading) (text : Bytes) : Reading :=
  match text with
  | 93 :: rest => r.close rest
  | text => { r with rest := text, value := none }

/-- Goes on in a table, in front of a key. -/
def inTable (bound : Nat) (r : Reading) (names : Entries) (outer : List Opened) (text : Bytes) :
    Option Reading :=
  (keySign? bound text).map fun (key, rest) =>
    { r with rest, stack := .table names key :: outer, value := none }

/-- Takes the beginning of a list or a table, or another value. -/
def begin (bound : Nat) (r : Reading) : Option Reading :=
  match r.rest with
  | 91 :: rest => do
    let rest ← skipSpace bound rest
    if rest.head? = some ','.toUInt8 then failure
    return inList { r with stack := .list :: r.stack } rest
  | 123 :: rest =>
    match skipBlanks rest with
    | 125 :: rest => some { r with rest, value := some .other }
    | rest => inTable bound r [] r.stack rest
  | text => (scalar? bound text).map fun (setting, rest) => { r with rest, value := some setting }

/-- Takes what stands behind a value: the end of what it is part of, or a comma. -/
def proceed (bound : Nat) (r : Reading) : Option Reading :=
  match r.stack with
  | .list :: _ => do
    match ← skipSpace bound r.rest with
    | 93 :: rest => return r.close rest
    | 44 :: rest =>
      let rest ← skipSpace bound rest
      return r.inList rest
    | _ => failure
  | .table names key :: outer => do
    let names ← Entries.define key names
    match skipBlanks r.rest with
    | 125 :: rest => return r.close rest
    | 44 :: rest => inTable bound r names outer (skipBlanks rest)
    | _ => failure
  | [] => none

/-- A step through a value. -/
def step (bound : Nat) (r : Reading) : Option (Next Reading (Setting × Bytes)) :=
  match r.value, r.stack with
  | some setting, [] => some (.done (setting, r.rest))
  | some _, _ :: _ => (r.proceed bound).map .again
  | none, _ => (r.begin bound).map .again

end Reading

/-- A value in front of a text, and what follows it. -/
def value? (bound : Nat) (text : Bytes) : Option (Setting × Bytes) :=
  iterate (Reading.step bound) (2 * bound) { rest := text }

/-! ## Lines -/

/-- A document that is being read: what follows, the names in use, the table that keys belong to, and
the settings at the top, the last one first. -/
structure Progress where
  rest : Bytes
  names : Entries := []
  current : List Bytes := []
  settings : List (Bytes × Setting) := []
  deriving Repr, Inhabited

namespace Progress

/-- Notes that a name at the top stands for something that is no single value. -/
def noteTable (p : Progress) (path : List Bytes) : List (Bytes × Setting) :=
  match path with
  | name :: _ => (name, .other) :: p.settings
  | [] => p.settings

/-- Takes a key and its value. -/
def takePair (bound : Nat) (p : Progress) : Option Progress := do
  let (key, rest) ← keySign? bound p.rest
  let (setting, rest) ← value? bound rest
  let names ← Entries.changeAt (Entries.define key) p.current p.names
  let settings := match p.current, key with
    | [], [name] => (name, setting) :: p.settings
    | [], path => p.noteTable path
    | _ :: _, _ => p.settings
  return { p with rest, names, settings }

/-- Takes the header of a table, or of the next table of an array if it has two brackets. -/
def takeHeader (bound : Nat) (p : Progress) (text : Bytes) : Option Progress := do
  let (many, text) := match text with
    | 91 :: rest => (true, rest)
    | rest => (false, rest)
  let (path, rest) ← key? bound (skipBlanks text)
  let rest ← expect? ']'.toUInt8 rest
  let rest ← if many then expect? ']'.toUInt8 rest else some rest
  let names ← Entries.changeAt (fun entries => some (Entries.closeAll entries)) p.current p.names
  let names ← if many then Entries.openNext path names else Entries.openTable path names
  return { rest, names, current := path, settings := p.noteTable path }

/-- Takes a line, up to its end. -/
def takeLine (bound : Nat) (p : Progress) : Option Progress := do
  let p := { p with rest := skipBlanks p.rest }
  let p ← match p.rest with
    | [] | 35 :: _ | 10 :: _ | 13 :: _ => some p
    | 91 :: rest => p.takeHeader bound rest
    | _ => p.takePair bound
  let rest ← skipComment bound (skipBlanks p.rest)
  return { p with rest }

/-- Takes a line and its end. -/
def step (bound : Nat) (p : Progress) : Option (Next Progress Configuration) := do
  let p ← p.takeLine bound
  if p.rest.isEmpty then return .done ⟨p.settings⟩
  let rest ← newline? p.rest
  return .again { p with rest }

end Progress

/-- The settings of a TOML text; none if it is malformed. -/
def readSettings? (text : Bytes) : Option Configuration :=
  let bound := text.length + 2
  iterate (Progress.step bound) bound { rest := text }

end Tapelang.Toml
