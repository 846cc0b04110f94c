import Mathlib.Algebra.GroupWithZero.Nat
import Mathlib.Data.List.Forall2
import Tapelang.Table
import Tapelang.Proofs.Ink

/-!
# The lines of a table

Every line of a table is as wide as the separators are long, whatever bytes the cells hold.

* `Table.visibleWidth_pad`: a padded cell fills its column, since a blank parts widths.
* `Table.widths_covers`: the columns are wide enough for every cell and as many as the longest row
  has cells.
* `Table.render_lines`: a table is its lines, and each of them shows its row (`Table.Shows`) and is as
  wide as a separator.
-/

namespace Tapelang.Table

open Text

/-! ## Blanks -/

theorem isMark_blank : IsMark 32 := ⟨by decide, by decide, by decide⟩

theorem isMark_bar : IsMark 124 := ⟨by decide, by decide, by decide⟩

theorem blanks_succ (n : Nat) : blanks (n + 1) = 32 :: blanks n := List.replicate_succ

theorem visibleWidth_blanks_append (n : Nat) (text : Bytes) :
    visibleWidth (blanks n ++ text) = n + visibleWidth text := by
  induction n with
  | zero => rw [Nat.zero_add]; rfl
  | succ n ih =>
    rw [blanks_succ, List.cons_append, visibleWidth_cons isMark_blank, ih]
    omega

theorem visibleWidth_append_blanks (text : Bytes) (n : Nat) :
    visibleWidth (text ++ blanks n) = visibleWidth text + n := by
  cases n with
  | zero => rw [blanks, List.replicate_zero, List.append_nil, Nat.add_zero]
  | succ n =>
    have hrest := visibleWidth_blanks_append n []
    rw [List.append_nil] at hrest
    rw [blanks_succ, visibleWidth_mark isMark_blank, hrest]
    rfl

/-! ## Cells -/

/-- How much of a gap stands in front of the cell. -/
def leftGap (gap : Nat) : Alignment → Nat
  | .left => 0
  | .right => gap
  | .centre => gap / 2

theorem leftGap_le (gap : Nat) (alignment : Alignment) : leftGap gap alignment ≤ gap := by
  cases alignment with
  | left => exact Nat.zero_le gap
  | right => exact Nat.le_refl gap
  | centre => exact Nat.div_le_self gap 2

/-- A padded cell is the cell between blanks. -/
theorem pad_eq (cell : Bytes) (width : Nat) (alignment : Alignment) :
    pad cell width alignment =
      blanks (leftGap (width - visibleWidth cell) alignment) ++ cell ++
        blanks (width - visibleWidth cell - leftGap (width - visibleWidth cell) alignment) := by
  cases alignment with
  | left => rfl
  | right => simp [pad, leftGap, blanks]
  | centre => rfl

/-- **A padded cell** is as wide as its column, if the cell is not wider. -/
theorem visibleWidth_pad {cell : Bytes} {width : Nat} (h : visibleWidth cell ≤ width)
    (alignment : Alignment) : visibleWidth (pad cell width alignment) = width := by
  have hle := leftGap_le (width - visibleWidth cell) alignment
  rw [pad_eq, visibleWidth_append_blanks, visibleWidth_blanks_append]
  omega

/-! ## Columns -/

/-- The number of cells in the longest row, the header included. -/
def columns (t : Table) : Nat := (t.rows.map List.length).foldl max t.header.length

/-- There is a column for every cell of the row, and it is wide enough. -/
structure Covers (ws : List Nat) (row : List Bytes) : Prop where
  length : row.length ≤ ws.length
  fits : ∀ k, visibleWidth (row.getD k []) ≤ ws.getD k 0

theorem length_widen (vs ws : List Nat) : (widen vs ws).length = max vs.length ws.length := by
  fun_induction widen vs ws with
  | case1 ws => simp
  | case2 vs => simp
  | case3 v vs w ws ih =>
    simp only [List.length_cons, ih]
    omega

theorem getD_widen (vs ws : List Nat) (k : Nat) :
    (widen vs ws).getD k 0 = max (vs.getD k 0) (ws.getD k 0) := by
  fun_induction widen vs ws generalizing k with
  | case1 ws => simp
  | case2 vs => simp
  | case3 v vs w ws ih =>
    cases k with
    | zero => rfl
    | succ k => exact ih k

theorem rowWidths_covers (row : List Bytes) : Covers (rowWidths row) row := by
  refine ⟨by simp [rowWidths], fun k => ?_⟩
  rw [rowWidths, List.getD_eq_getElem?_getD, List.getD_eq_getElem?_getD, List.getElem?_map]
  cases row[k]? <;> exact Nat.le_refl _

/-- Columns that are widened cover what they covered. -/
theorem Covers.left {vs : List Nat} {row : List Bytes} (h : Covers vs row) (ws : List Nat) :
    Covers (widen vs ws) row := by
  refine ⟨?_, fun k => ?_⟩
  · rw [length_widen]
    exact Nat.le_trans h.length (Nat.le_max_left _ _)
  · rw [getD_widen]
    exact Nat.le_trans (h.fits k) (Nat.le_max_left _ _)

/-- Columns that are widened cover what they are widened for. -/
theorem Covers.right {ws : List Nat} {row : List Bytes} (h : Covers ws row) (vs : List Nat) :
    Covers (widen vs ws) row := by
  refine ⟨?_, fun k => ?_⟩
  · rw [length_widen]
    exact Nat.le_trans h.length (Nat.le_max_right _ _)
  · rw [getD_widen]
    exact Nat.le_trans (h.fits k) (Nat.le_max_right _ _)

/-- Columns that take in rows, one after the other, cover what they covered and these rows, and are
as many as the longest row needs. -/
theorem foldl_widen (rows : List (List Bytes)) (ws : List Nat) :
    (∀ row, Covers ws row ∨ row ∈ rows →
      Covers (rows.foldl (fun ws row => widen ws (rowWidths row)) ws) row) ∧
    (rows.foldl (fun ws row => widen ws (rowWidths row)) ws).length =
      (rows.map List.length).foldl max ws.length := by
  induction rows generalizing ws with
  | nil => simp
  | cons first rest ih =>
    obtain ⟨hcovers, hlength⟩ := ih (widen ws (rowWidths first))
    simp only [List.foldl_cons, List.map_cons]
    refine ⟨fun row hrow => hcovers row ?_, ?_⟩
    · rcases hrow with hrow | hrow
      · exact .inl (hrow.left _)
      · rcases List.mem_cons.1 hrow with rfl | hrow
        · exact .inl ((rowWidths_covers row).right ws)
        · exact .inr hrow
    · rw [hlength, length_widen, rowWidths, List.length_map]

/-- **The columns** are wide enough for every cell. -/
theorem widths_covers (t : Table) {row : List Bytes} (h : row ∈ t.header :: t.rows) :
    Covers t.widths row := by
  refine (foldl_widen t.rows (rowWidths t.header)).1 row ?_
  rcases List.mem_cons.1 h with rfl | h
  · exact .inl (rowWidths_covers _)
  · exact .inr h

theorem length_widths (t : Table) : t.widths.length = t.columns := by
  have h := (foldl_widen t.rows (rowWidths t.header)).2
  rw [rowWidths, List.length_map] at h
  exact h

/-! ## Rows -/

/-- A line that shows a row in columns of the given widths: a bar, and for every column a blank, the
cell between blanks that fill the column, a blank and a bar. A cell that the row lacks is empty. -/
def Shows (ws : List Nat) (row : List Bytes) (line : Bytes) : Prop :=
  ∃ left right : Nat → Nat,
    line = utf8 "|" ++ (List.range ws.length).flatMap (fun k =>
      utf8 " " ++ (blanks (left k) ++ row.getD k [] ++ blanks (right k)) ++ utf8 " |") ∧
    ∀ k < ws.length, left k + visibleWidth (row.getD k []) + right k = ws.getD k 0

theorem drawCells_cons (w : Nat) (ws : List Nat) (row : List Bytes)
    (alignments : List Alignment) :
    drawCells (w :: ws) row alignments =
      32 :: (pad (row.headD []) w (alignments.headD .left) ++
        32 :: 124 :: drawCells ws row.tail alignments.tail) := by
  rw [drawCells, List.append_assoc, List.append_assoc]
  rfl

theorem drawCells_eq (ws : List Nat) (row : List Bytes) (alignments : List Alignment) :
    drawCells ws row alignments = (List.range ws.length).flatMap fun k =>
      utf8 " " ++ pad (row.getD k []) (ws.getD k 0) (alignments.getD k .left) ++ utf8 " |" := by
  induction ws generalizing row alignments with
  | nil => rfl
  | cons w ws ih =>
    rw [drawCells, ih, List.length_cons, List.range_succ_eq_map, List.flatMap_cons,
      List.flatMap_map]
    cases row <;> cases alignments <;> rfl

/-- The line of a row shows the row, if the columns cover it. -/
theorem Covers.shows {ws : List Nat} {row : List Bytes} (h : Covers ws row)
    (alignments : List Alignment) : Shows ws row (utf8 "|" ++ drawCells ws row alignments) := by
  refine ⟨fun k => leftGap (ws.getD k 0 - visibleWidth (row.getD k [])) (alignments.getD k .left),
    fun k => ws.getD k 0 - visibleWidth (row.getD k []) -
      leftGap (ws.getD k 0 - visibleWidth (row.getD k [])) (alignments.getD k .left),
    by simp only [drawCells_eq, pad_eq], fun k _ => ?_⟩
  have hfits := h.fits k
  have hle := leftGap_le (ws.getD k 0 - visibleWidth (row.getD k [])) (alignments.getD k .left)
  simp only
  omega

theorem visibleWidth_drawCells {ws : List Nat} {row : List Bytes} (h : Covers ws row)
    (alignments : List Alignment) :
    visibleWidth (drawCells ws row alignments) = (ws.map (· + 3)).sum := by
  induction ws generalizing row alignments with
  | nil => rfl
  | cons w ws ih =>
    have hhead : visibleWidth (row.headD []) ≤ w := by
      have := h.fits 0
      cases row <;> exact this
    have htail : Covers ws row.tail := by
      refine ⟨?_, fun k => ?_⟩
      · have := h.length
        rw [List.length_tail]
        simp only [List.length_cons] at this
        omega
      · have := h.fits (k + 1)
        cases row <;> exact this
    rw [drawCells_cons, visibleWidth_cons isMark_blank, visibleWidth_mark isMark_blank,
      visibleWidth_cons isMark_bar, visibleWidth_pad hhead, ih htail, List.map_cons, List.sum_cons]
    omega

/-! ## Tables -/

/-- A separator without its newline. -/
def rule (ws : List Nat) : Bytes :=
  utf8 "+" ++ ws.flatMap fun w => List.replicate (w + 2) '-'.toUInt8 ++ utf8 "+"

theorem length_rule (ws : List Nat) : (rule ws).length = (ws.map (· + 3)).sum + 1 := by
  have hcolumn : (fun w => (List.replicate (w + 2) '-'.toUInt8 ++ utf8 "+").length) = (· + 3) := by
    funext w
    rw [List.length_append, List.length_replicate]
    rfl
  rw [rule, List.length_append, List.length_flatMap, hcolumn, Nat.add_comm]
  rfl

/-- A line is as wide as the separators are long. -/
theorem Covers.visibleWidth_line {ws : List Nat} {row : List Bytes} (h : Covers ws row)
    (alignments : List Alignment) :
    visibleWidth (utf8 "|" ++ drawCells ws row alignments) = (rule ws).length := by
  have hbar : utf8 "|" ++ drawCells ws row alignments = 124 :: drawCells ws row alignments := rfl
  rw [hbar, visibleWidth_cons isMark_bar, visibleWidth_drawCells h, length_rule]

theorem separator_eq (ws : List Nat) : separator ws = rule ws ++ utf8 "\n" := rfl

theorem drawRow_eq (ws : List Nat) (alignments : List Alignment) (row : List Bytes) :
    drawRow ws alignments row = utf8 "|" ++ drawCells ws row alignments ++ utf8 "\n" := rfl

/-- **Tables are rectangular and complete.** A table is its lines: a separator, then the header, if
there is one, and a separator, then the rows, and a separator if there are rows. Every line shows
its row in the same columns, as many as the longest row has cells, and is as wide as the separators
are long. -/
theorem render_lines (t : Table) :
    ∃ (ws : List Nat) (head : Bytes) (body : List Bytes),
      t.render = ([rule ws] ++ (if t.header = [] then [] else [head, rule ws]) ++ body ++
        (if t.rows = [] then [] else [rule ws])).flatMap (· ++ utf8 "\n") ∧
      ws.length = t.columns ∧
      (t.header ≠ [] → Shows ws t.header head ∧ visibleWidth head = (rule ws).length) ∧
      List.Forall₂ (fun row line => Shows ws row line ∧ visibleWidth line = (rule ws).length)
        t.rows body := by
  have hline : ∀ (alignments : List Alignment), ∀ row ∈ t.header :: t.rows,
      Shows t.widths row (utf8 "|" ++ drawCells t.widths row alignments) ∧
        visibleWidth (utf8 "|" ++ drawCells t.widths row alignments) = (rule t.widths).length := by
    intro alignments row hrow
    have hcovers := t.widths_covers hrow
    exact ⟨hcovers.shows alignments, hcovers.visibleWidth_line alignments⟩
  refine ⟨t.widths, utf8 "|" ++ drawCells t.widths t.header t.headerAlignment,
    t.rows.map fun row => utf8 "|" ++ drawCells t.widths row t.alignment, ?_, t.length_widths,
    fun _ => hline _ _ List.mem_cons_self, ?_⟩
  · simp only [render, separator_eq, drawRow_eq, List.isEmpty_iff, List.flatMap_append,
      List.flatMap_cons, List.flatMap_nil, List.append_nil, List.flatMap_map]
    congr 1
    · congr 2
      split <;> simp
    · split <;> simp
  · rw [List.forall₂_map_right_iff, List.forall₂_same]
    exact fun row hrow => hline _ row (List.mem_cons_of_mem _ hrow)

end Tapelang.Table
