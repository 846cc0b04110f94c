import Tapelang.Listing
import Tapelang.Proofs.Numerals
import Tapelang.Proofs.TableLines

/-!
# Listings in colour and without

A table without its colours is the table of its cells without their colours
(`Table.withoutInk_render`): widths are counted without colours, so every cell is padded by the same
blanks, and no sequence goes on over them. The cells of a listing lose their colours and nothing
else (`Listing.withoutInk_cells`), so listings in colour and without say the same
(`Listing.render_without_colours`).
-/

namespace Tapelang

open Text

/-! ## Tables -/

namespace Table

/-- The table with a function applied to every cell. -/
def mapCells (f : Bytes → Bytes) (t : Table) : Table :=
  { t with header := t.header.map f, rows := t.rows.map (List.map f) }

/-- No sequence forms where the sequences of the cell have been taken out. -/
def IsSettled (cell : Bytes) : Prop := withoutInk (withoutInk cell) = withoutInk cell

theorem IsSettled.visibleWidth {cell : Bytes} (h : IsSettled cell) :
    visibleWidth (withoutInk cell) = Text.visibleWidth cell := by
  rw [Text.visibleWidth, h]
  rfl

theorem withoutInk_blanks_append (n : Nat) (text : Bytes) :
    withoutInk (blanks n ++ text) = blanks n ++ withoutInk text := by
  induction n with
  | zero => rfl
  | succ n ih => rw [blanks_succ, List.cons_append, withoutInk_cons (by decide), ih]; rfl

theorem withoutInk_append_blanks (text : Bytes) (n : Nat) :
    withoutInk (text ++ blanks n) = withoutInk text ++ blanks n := by
  have hedge : StartsAtEdge (blanks n) := by
    cases n with
    | zero =>
      intro e he
      cases he
    | succ n =>
      intro e he
      cases he
      decide
  have hblanks := withoutInk_blanks_append n []
  rw [List.append_nil] at hblanks
  rw [withoutInk_append hedge, hblanks]
  exact congrArg (withoutInk text ++ ·) (List.append_nil _)

/-- A padded cell is padded by the same blanks without its colours. -/
theorem withoutInk_pad {cell : Bytes} (h : IsSettled cell) (width : Nat) (alignment : Alignment) :
    withoutInk (pad cell width alignment) = pad (withoutInk cell) width alignment := by
  rw [pad_eq, pad_eq, h.visibleWidth, withoutInk_append_blanks, withoutInk_blanks_append]

theorem withoutInk_drawCells (ws : List Nat) {row : List Bytes} (h : ∀ cell ∈ row, IsSettled cell)
    (alignments : List Alignment) :
    withoutInk (drawCells ws row alignments) = drawCells ws (row.map withoutInk) alignments := by
  induction ws generalizing row alignments with
  | nil => rfl
  | cons w ws ih =>
    have hhead : IsSettled (row.headD []) := by
      cases row with
      | nil => rfl
      | cons cell row => exact h cell List.mem_cons_self
    have hmap : (row.map withoutInk).headD [] = withoutInk (row.headD []) := by
      cases row <;> rfl
    rw [drawCells_cons, drawCells_cons, withoutInk_cons (by decide),
      withoutInk_append_edge (by decide), withoutInk_cons (by decide), withoutInk_cons (by decide),
      withoutInk_pad hhead, ih fun cell hc => h cell (List.mem_of_mem_tail hc), hmap, List.map_tail]

theorem withoutInk_drawRow (ws : List Nat) {row : List Bytes} (h : ∀ cell ∈ row, IsSettled cell)
    (alignments : List Alignment) :
    withoutInk (drawRow ws alignments row) = drawRow ws alignments (row.map withoutInk) := by
  have hrow : ∀ row, drawRow ws alignments row =
      124 :: (drawCells ws row alignments ++ [10]) := fun _ => rfl
  rw [hrow, hrow, withoutInk_cons (by decide), withoutInk_append_edge (by decide),
    withoutInk_drawCells ws h]
  rfl

theorem withoutInk_separator (ws : List Nat) : withoutInk (separator ws) = separator ws := by
  have hend : escapeByte ∉ utf8 "+" ∧ escapeByte ∉ utf8 "\n" := by decide
  have hdashes : ∀ n, escapeByte ∉ List.replicate n '-'.toUInt8 := fun n h =>
    absurd (List.eq_of_mem_replicate h) (by decide)
  apply withoutInk_eq_self
  simp only [separator, List.mem_append, List.mem_flatMap, not_or, not_exists, not_and]
  exact ⟨⟨hend.1, fun w _ => ⟨hdashes (w + 2), hend.1⟩⟩, hend.2⟩

theorem startsAtEdge_separator (ws : List Nat) : StartsAtEdge (separator ws) := by
  intro e he
  cases he
  decide

theorem startsAtEdge_drawRow (ws : List Nat) (alignments : List Alignment) (row : List Bytes) :
    StartsAtEdge (drawRow ws alignments row) := by
  intro e he
  cases he
  decide

theorem widths_eq (t : Table) :
    t.widths = (t.rows.map rowWidths).foldl widen (rowWidths t.header) := by
  rw [List.foldl_map]
  rfl

theorem IsSettled.rowWidths {row : List Bytes} (h : ∀ cell ∈ row, IsSettled cell) :
    rowWidths (row.map withoutInk) = Table.rowWidths row := by
  rw [Table.rowWidths, Table.rowWidths, List.map_map]
  exact List.map_congr_left fun cell hc => (h cell hc).visibleWidth

/-- Colours take no room, so the columns are as wide without them. -/
theorem widths_mapCells {t : Table} (h : ∀ row ∈ t.header :: t.rows, ∀ cell ∈ row, IsSettled cell) :
    (t.mapCells withoutInk).widths = t.widths := by
  have hheader : rowWidths (t.header.map withoutInk) = rowWidths t.header :=
    IsSettled.rowWidths (h t.header List.mem_cons_self)
  have hrows : (t.rows.map (List.map withoutInk)).map rowWidths = t.rows.map rowWidths := by
    rw [List.map_map]
    exact List.map_congr_left fun row hrow =>
      IsSettled.rowWidths (h row (List.mem_cons_of_mem _ hrow))
  rw [widths_eq, widths_eq, mapCells, hheader, hrows]

/-- **A table without its colours** is the table of its cells without their colours. -/
theorem withoutInk_render {t : Table}
    (h : ∀ row ∈ t.header :: t.rows, ∀ cell ∈ row, IsSettled cell) :
    withoutInk t.render = (t.mapCells withoutInk).render := by
  have hheader := h t.header List.mem_cons_self
  have hrows : ∀ row ∈ t.rows, ∀ cell ∈ row, IsSettled cell := fun row hrow =>
    h row (List.mem_cons_of_mem _ hrow)
  have hbody : (t.rows.flatMap fun row => withoutInk (drawRow t.widths t.alignment row)) =
      t.rows.flatMap fun row => drawRow t.widths t.alignment (row.map withoutInk) :=
    List.flatMap_congr fun row hrow => withoutInk_drawRow t.widths (hrows row hrow) t.alignment
  have hedge : ∀ {p : Prop} [Decidable p] {text : Bytes}, StartsAtEdge text →
      StartsAtEdge (if p then [] else text) := by
    intro p _ text htext
    split
    · exact fun e he => nomatch he
    · exact htext
  have hif : ∀ {p : Prop} [Decidable p] (text : Bytes),
      withoutInk (if p then [] else text) = if p then [] else withoutInk text := by
    intro p _ text
    split <;> rfl
  simp only [render, widths_mapCells h]
  rw [withoutInk_append (hedge (startsAtEdge_separator _)),
    withoutInk_append (startsAtEdge_flatMap fun row _ => startsAtEdge_drawRow _ _ row),
    withoutInk_append (hedge ((startsAtEdge_drawRow _ _ _).append (startsAtEdge_separator _))),
    hif, hif, withoutInk_append (startsAtEdge_separator _), withoutInk_drawRow _ hheader,
    withoutInk_flatMap fun row _ => startsAtEdge_drawRow _ _ row, withoutInk_separator, hbody]
  simp only [mapCells, List.isEmpty_map, List.flatMap_map]

end Table

/-! ## Texts without sequences -/

theorem escapeByte_notMem_signed (n : Int) : escapeByte ∉ signed n := fun h =>
  absurd ((Json.signed_numeral n).1 _ h) (by decide)

theorem escapeByte_notMem_decimal (n : Nat) : escapeByte ∉ decimal n :=
  escapeByte_notMem_signed n

theorem escapeByte_notMem_render (p : Position) : escapeByte ∉ p.render := by
  have hcolon : escapeByte ∉ utf8 ":" := by decide
  simp [Position.render, escapeByte_notMem_signed, hcolon]

theorem Instruction.name_spec (i : Instruction) : escapeByte ∉ i.name ∧ i.name ≠ [] := by
  have hnames : ∀ o : Opcode, escapeByte ∉ o.name ∧ o.name ≠ [] := by
    intro o
    cases o <;> decide
  rw [Instruction.name, opcodeName]
  split
  · exact hnames _
  · decide

theorem Instruction.escapeByte_notMem_note (i : Instruction) : escapeByte ∉ i.note := by
  have hwords : ∀ word ∈ ["skip to ", " if zero", "back to ", "cell += ", "cell -= ", "ptr += ",
      "ptr -= "], escapeByte ∉ utf8 word := by decide
  rw [Instruction.note]
  split <;> simp [escapeByte_notMem_signed, escapeByte_notMem_decimal, hwords]

namespace Listing

/-! ## Listings -/

/-- A text that is not empty is put between two sequences. -/
def IsPaint (paint : Bytes → Bytes) : Prop :=
  ∀ text, text ≠ [] → ∃ before after : Bytes,
    IsSequence before ∧ IsSequence after ∧ paint text = before ++ text ++ after

/-- Every part of a line is painted. -/
structure Palette.Paints (p : Palette) : Prop where
  name : IsPaint p.name
  operand : IsPaint p.operand
  note : IsPaint p.note

theorem isPaint_ink {ink : Ink} (hon : (utf8 ink.on).all isParameter = true)
    (hoff : (utf8 ink.off).all isParameter = true) : IsPaint ink.paint := by
  intro text _
  exact ⟨_, _, ⟨utf8 ink.on, List.all_eq_true.1 hon, rfl⟩,
    ⟨utf8 ink.off, List.all_eq_true.1 hoff, rfl⟩, rfl⟩

theorem Palette.inked_paints : Palette.inked.Paints :=
  ⟨isPaint_ink (by decide) (by decide), isPaint_ink (by decide) (by decide),
    isPaint_ink (by decide) (by decide)⟩

theorem IsPaint.withoutInk {paint : Bytes → Bytes} (h : IsPaint paint) {text : Bytes}
    (hne : text ≠ []) (hplain : escapeByte ∉ text) : withoutInk (paint text) = text := by
  obtain ⟨before, after, hb, ha, heq⟩ := h text hne
  rw [heq, withoutInk_painted hb ha, withoutInk_eq_self hplain]

/-- A line whose texts hold no sequence. -/
structure IsPlain (l : ListingLine) : Prop where
  name : escapeByte ∉ l.name
  named : l.name ≠ []
  note : escapeByte ∉ l.note

theorem isPlain_of_mem_ofCode {c : Code} {l : ListingLine} (h : l ∈ ofCode c) : IsPlain l := by
  obtain ⟨⟨i, index⟩, -, rfl⟩ := List.mem_map.1 h
  exact ⟨i.name_spec.1, i.name_spec.2, i.escapeByte_notMem_note⟩

theorem IsPlain.cells {l : ListingLine} (h : IsPlain l) :
    ∀ cell ∈ cells .plain l, escapeByte ∉ cell := by
  intro cell hcell
  simp only [Listing.cells, List.mem_cons, List.not_mem_nil, or_false] at hcell
  rcases hcell with rfl | rfl | rfl | rfl | rfl
  · exact escapeByte_notMem_signed l.offset
  · exact h.name
  · split
    · exact List.not_mem_nil
    · exact escapeByte_notMem_signed _
  · split
    · exact List.not_mem_nil
    · exact escapeByte_notMem_render _
  · split
    · exact List.not_mem_nil
    · exact h.note

section
variable {p : Palette} (hp : p.Paints)
include hp

/-- **The cells of a line** lose their colours and nothing else. -/
theorem withoutInk_cells {l : ListingLine} (h : IsPlain l) :
    (cells p l).map withoutInk = cells .plain l := by
  have hoperand : ∀ n : Int, withoutInk (p.operand (signed n)) = signed n := fun n =>
    hp.operand.withoutInk (Json.signed_numeral n).2 (escapeByte_notMem_signed n)
  simp only [cells, List.map_cons, List.map_nil, List.cons.injEq, and_true]
  refine ⟨?_, ?_, ?_, ?_, ?_⟩
  · exact withoutInk_eq_self (escapeByte_notMem_signed l.offset)
  · exact hp.name.withoutInk h.named h.name
  · split
    · rfl
    · exact hoperand _
  · split
    · rfl
    · exact withoutInk_eq_self (escapeByte_notMem_render l.location)
  · split
    · rfl
    · rename_i hne
      exact hp.note.withoutInk (mt List.isEmpty_iff.2 hne) h.note

theorem isSettled_cells {l : ListingLine} (h : IsPlain l) :
    ∀ cell ∈ cells p l, Table.IsSettled cell := by
  intro cell hcell
  have hmem : withoutInk cell ∈ cells .plain l := by
    rw [← withoutInk_cells hp h]
    exact List.mem_map_of_mem hcell
  exact withoutInk_eq_self (h.cells _ hmem)

/-- The table of a listing without its colours is the table without colours. -/
theorem withoutInk_table {lines : List ListingLine} (h : ∀ l ∈ lines, IsPlain l) :
    withoutInk (table p lines).render = (table .plain lines).render := by
  have hheader : ∀ cell ∈ (table .plain []).header, withoutInk cell = cell := by decide
  have hsettled : ∀ row ∈ (table p lines).header :: (table p lines).rows,
      ∀ cell ∈ row, Table.IsSettled cell := by
    intro row hrow
    rcases List.mem_cons.1 hrow with rfl | hrow
    · exact fun cell hcell => congrArg withoutInk (hheader cell hcell)
    · obtain ⟨l, hl, rfl⟩ := List.mem_map.1 hrow
      exact isSettled_cells hp (h l hl)
  have hmap : (table p lines).mapCells withoutInk = table .plain lines := by
    have hhead : (table p lines).header.map withoutInk = (table .plain lines).header :=
      (List.map_congr_left hheader).trans (List.map_id _)
    have hrows : (table p lines).rows.map (List.map withoutInk) = (table .plain lines).rows := by
      simp only [table, List.map_map]
      exact List.map_congr_left fun l hl => withoutInk_cells hp (h l hl)
    rw [Table.mapCells, hhead, hrows]
    rfl
  rw [Table.withoutInk_render hsettled, hmap]

end

/-- **Listings in colour and without say the same.** For any way to paint, and so for the colours of
listings, the text in colour without its sequences is the text without colours. -/
theorem render_without_colours (c : Code) :
    (∀ p : Palette, p.Paints →
      withoutInk (table p (ofCode c)).render = render false (ofCode c)) ∧
    withoutInk (render true (ofCode c)) = render false (ofCode c) := by
  have hplain : ∀ l ∈ ofCode c, IsPlain l := fun _ => isPlain_of_mem_ofCode
  exact ⟨fun p hp => withoutInk_table hp hplain, withoutInk_table Palette.inked_paints hplain⟩

end Listing

end Tapelang
