import Tapelang.Bytes

/-! # The tables of a TOML document

Which names a document has used, and for what, so that nothing is defined twice. A table may be
opened once by its own header; tables that come from the middle of a header can still be opened, and
those that come from a dotted key can be extended by dotted keys until the next header.
-/

namespace Tapelang.Toml

/-- What a name stands for. -/
inductive Kind where
  | value
  | table
  | tableArray
  deriving DecidableEq, Repr, Inhabited

/-- A name that is in use, with the names inside it. -/
inductive Entry where
  /-- `closed` says that the table cannot be opened or extended again, and `dotted` that the name
  comes from a key. -/
  | mk (name : Bytes) (kind : Kind) (closed dotted : Bool) (inside : List Entry)
  deriving Repr, Inhabited

/-- The names at the top of a document. -/
abbrev Entries := List Entry

namespace Entry

/-- The name itself. -/
def name : Entry → Bytes
  | mk name _ _ _ _ => name

/-- The names inside. -/
def inside : Entry → Entries
  | mk _ _ _ _ inside => inside

/-- The entry with other names inside. -/
def withInside (inside : Entries) : Entry → Entry
  | mk name kind closed dotted _ => mk name kind closed dotted inside

end Entry

namespace Entries

/-- Replaces the entry of a name by what becomes of it. There may be none yet. -/
def alter (name : Bytes) (f : Option Entry → Option Entry) : Entries → Option Entries
  | [] => (f none).map fun e => [e]
  | e :: rest =>
    if e.name = name then (f (some e)).map (· :: rest)
    else (alter name f rest).map (e :: ·)

/-- Opens a table by its own header. -/
def openTable : (path : List Bytes) → Entries → Option Entries
  | [], entries => some entries
  | [name], entries => entries.alter name fun
    | none => some (.mk name .table true false [])
    | some (.mk name .table false dotted inside) => some (.mk name .table true dotted inside)
    | some _ => none
  | name :: path, entries => entries.alter name fun
    | none => (openTable path []).map (.mk name .table false false)
    | some (.mk _ .value _ _ _) => none
    | some e => (openTable path e.inside).map fun inside => e.withInside inside

/-- Opens the next table of an array by its own header. -/
def openNext : (path : List Bytes) → Entries → Option Entries
  | [], entries => some entries
  | [name], entries => entries.alter name fun
    | none => some (.mk name .tableArray true false [])
    | some (.mk name .tableArray closed dotted _) => some (.mk name .tableArray closed dotted [])
    | some _ => none
  | name :: path, entries => entries.alter name fun
    | none => (openNext path []).map (.mk name .table false false)
    | some (.mk _ .value _ _ _) => none
    | some e => (openNext path e.inside).map fun inside => e.withInside inside

/-- Gives a key a value. The tables that its dots name are made, or extended. -/
def define : (key : List Bytes) → Entries → Option Entries
  | [], entries => some entries
  | [name], entries => entries.alter name fun
    | none => some (.mk name .value false true [])
    | some _ => none
  | name :: key, entries => entries.alter name fun
    | none => (define key []).map (.mk name .table false true)
    | some (.mk name .table false dotted inside) =>
      (define key inside).map (.mk name .table false dotted)
    | some _ => none

mutual

/-- Closes what dotted keys have made inside an entry. -/
def closeEntry : Entry → Entry
  | .mk name kind closed dotted inside => .mk name kind (closed || dotted) false (closeAll inside)

/-- Closes what dotted keys have made. -/
def closeAll : List Entry → List Entry
  | [] => []
  | e :: rest => closeEntry e :: closeAll rest

end

/-- Applies a change to the names inside the table at a path. -/
def changeAt (f : Entries → Option Entries) : (path : List Bytes) → Entries → Option Entries
  | [], entries => f entries
  | name :: path, entries => entries.alter name fun e =>
    e.bind fun e => (changeAt f path e.inside).map fun inside => e.withInside inside

end Entries

end Tapelang.Toml
