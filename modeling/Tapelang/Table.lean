import Tapelang.Text.Ink

/-! # Tables

A table is drawn in characters: a column is as wide as its widest cell, colour sequences in a cell
take no room, and rows may be of any length.
-/

namespace Tapelang

/-- Where a cell stands in its column. -/
inductive Alignment where
  | left
  | right
  | centre
  deriving DecidableEq, Repr, Inhabited

/-- The alignment of a number; every number without a meaning is `left`. -/
def Alignment.ofInt (n : Int) : Alignment :=
  if n = 1 then right else if n = 2 then centre else left

/-- A header, which may be missing, and rows. Columns without an alignment are aligned left. -/
structure Table where
  header : List Bytes := []
  rows : List (List Bytes) := []
  alignment : List Alignment := []
  headerAlignment : List Alignment := []
  deriving DecidableEq, Repr, Inhabited

namespace Table

/-- The larger width in every column; the shorter list has no say in the columns that it lacks. -/
def widen : List Nat → List Nat → List Nat
  | [], ws => ws
  | vs, [] => vs
  | v :: vs, w :: ws => max v w :: widen vs ws

/-- The widths of a row's cells. -/
def rowWidths (row : List Bytes) : List Nat := row.map Text.visibleWidth

/-- The widths of the columns. -/
def widths (t : Table) : List Nat :=
  t.rows.foldl (fun ws row => widen ws (rowWidths row)) (rowWidths t.header)

/-- `n` blanks. -/
def blanks (n : Nat) : Bytes := List.replicate n 32

/-- A cell in a column of the given width. -/
def pad (cell : Bytes) (width : Nat) (alignment : Alignment) : Bytes :=
  let gap := width - Text.visibleWidth cell
  match alignment with
  | .left => cell ++ blanks gap
  | .right => blanks gap ++ cell
  | .centre => blanks (gap / 2) ++ cell ++ blanks (gap - gap / 2)

/-- The cells of a row, one for every column; a missing cell is blank. -/
def drawCells : (widths : List Nat) → (row : List Bytes) → List Alignment → Bytes
  | [], _, _ => []
  | width :: widths, row, alignments =>
    utf8 " " ++ pad (row.headD []) width (alignments.headD .left) ++ utf8 " |" ++
      drawCells widths row.tail alignments.tail

/-- The line of a row. -/
def drawRow (widths : List Nat) (alignments : List Alignment) (row : List Bytes) : Bytes :=
  utf8 "|" ++ drawCells widths row alignments ++ utf8 "\n"

/-- The line above and below rows. -/
def separator (widths : List Nat) : Bytes :=
  utf8 "+" ++ (widths.flatMap fun width => List.replicate (width + 2) '-'.toUInt8 ++ utf8 "+") ++
    utf8 "\n"

/-- The table drawn. -/
def render (t : Table) : Bytes :=
  let ws := t.widths
  separator ws ++
    (if t.header.isEmpty then [] else drawRow ws t.headerAlignment t.header ++ separator ws) ++
    t.rows.flatMap (drawRow ws t.alignment) ++
    (if t.rows.isEmpty then [] else separator ws)

/-- One more row at the end. -/
def append (t : Table) (row : List Bytes) : Table :=
  { t with rows := t.rows ++ [row] }

end Table

end Tapelang
