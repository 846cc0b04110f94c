import Tapelang.Text.Ink
import Tapelang.Proofs.Utf8

/-!
# Colour sequences in longer texts

Neither a colour sequence nor a character goes on over a byte that cannot stand inside one. So a
text can be cut there before its sequences are taken out and its glyphs are counted:

* `Text.withoutInk_append`: no sequence goes on over an edge (`IsEdge`).
* `Text.glyphs_append`: no character goes on over a byte that continues none.
* `Text.visibleWidth_mark`: a mark (`IsMark`), such as a blank, takes one place and parts the widths
  of what stands on both sides of it.
* `Text.withoutInk_painted`: a text between two sequences is left as it is without them.
-/

namespace Tapelang.Text

/-! ## Taking out sequences -/

theorem withoutInkFrom_eq (skip : Nat) (text : Bytes) :
    withoutInkFrom skip text = withoutInk (text.drop skip) := by
  induction skip generalizing text with
  | zero => rfl
  | succ skip ih =>
    cases text with
    | nil => rfl
    | cons b rest => exact ih rest

theorem withoutInk_sequence {b : UInt8} {rest : Bytes} {more : Nat}
    (h : inkLength? b rest = some more) : withoutInk (b :: rest) = withoutInk (rest.drop more) := by
  rw [withoutInk, withoutInkFrom, h]
  exact withoutInkFrom_eq more rest

theorem withoutInk_plain {b : UInt8} {rest : Bytes} (h : inkLength? b rest = none) :
    withoutInk (b :: rest) = b :: withoutInk rest := by
  rw [withoutInk, withoutInkFrom, h]
  rfl

theorem withoutInk_cons {b : UInt8} (h : b ≠ escapeByte) (rest : Bytes) :
    withoutInk (b :: rest) = b :: withoutInk rest :=
  withoutInk_plain (if_neg h)

/-- A text without the byte that begins a sequence is left as it is. -/
theorem withoutInk_eq_self {text : Bytes} (h : escapeByte ∉ text) : withoutInk text = text := by
  induction text with
  | nil => rfl
  | cons b rest ih =>
    rw [List.mem_cons, not_or] at h
    rw [withoutInk_cons (Ne.symm h.1), ih h.2]

/-! ## Edges -/

/-- No sequence goes on with this byte, though one may begin with it. -/
def IsEdge (b : UInt8) : Prop := b ≠ '['.toUInt8 ∧ b ≠ 'm'.toUInt8 ∧ isParameter b = false

instance (b : UInt8) : Decidable (IsEdge b) :=
  inferInstanceAs (Decidable (b ≠ '['.toUInt8 ∧ b ≠ 'm'.toUInt8 ∧ isParameter b = false))

section
variable {e : UInt8} (he : IsEdge e)
include he

theorem parametersLength?_append (text rest : Bytes) :
    parametersLength? (text ++ e :: rest) = parametersLength? text := by
  induction text with
  | nil => simp [parametersLength?, he.2.1, he.2.2]
  | cons b text ih => rw [List.cons_append, parametersLength?, parametersLength?, ih]

theorem inkLength?_append (b : UInt8) (text rest : Bytes) :
    inkLength? b (text ++ e :: rest) = inkLength? b text := by
  cases text with
  | nil => simp [inkLength?, he.1]
  | cons c text => simp only [inkLength?, List.cons_append, parametersLength?_append he]

end

theorem parametersLength?_le {text : Bytes} {n : Nat} (h : parametersLength? text = some n) :
    n ≤ text.length := by
  induction text generalizing n with
  | nil => cases h
  | cons b text ih =>
    rw [parametersLength?] at h
    split at h
    · cases h
      simp
    · split at h
      · obtain ⟨m, hm, rfl⟩ := Option.map_eq_some_iff.1 h
        have := ih hm
        simp only [List.length_cons]
        omega
      · cases h

theorem inkLength?_le {b : UInt8} {text : Bytes} {n : Nat} (h : inkLength? b text = some n) :
    n ≤ text.length := by
  unfold inkLength? at h
  split at h
  · split at h
    · split at h
      · obtain ⟨m, hm, rfl⟩ := Option.map_eq_some_iff.1 h
        have := parametersLength?_le hm
        simp only [List.length_cons]
        omega
      · cases h
    · cases h
  · cases h

theorem withoutInk_append_edge {e : UInt8} (he : IsEdge e) (text rest : Bytes) :
    withoutInk (text ++ e :: rest) = withoutInk text ++ withoutInk (e :: rest) := by
  -- on the length of the text, since a sequence takes several bytes at once
  induction hn : text.length using Nat.strongRecOn generalizing text with
  | ind n ih =>
    cases text with
    | nil => rfl
    | cons b text =>
      rw [List.length_cons] at hn
      have happ := inkLength?_append he b text rest
      rw [List.cons_append]
      cases hb : inkLength? b text with
      | none =>
        rw [hb] at happ
        rw [withoutInk_plain happ, withoutInk_plain hb, ih text.length (by omega) text rfl]
        rfl
      | some more =>
        rw [hb] at happ
        rw [withoutInk_sequence happ, withoutInk_sequence hb,
          List.drop_append_of_le_length (inkLength?_le hb)]
        exact ih (text.drop more).length (by simp; omega) (text.drop more) rfl

/-- The text is empty or begins with an edge. -/
def StartsAtEdge (text : Bytes) : Prop := ∀ e ∈ text.head?, IsEdge e

theorem StartsAtEdge.append {a b : Bytes} (ha : StartsAtEdge a) (hb : StartsAtEdge b) :
    StartsAtEdge (a ++ b) := by
  cases a with
  | nil => exact hb
  | cons e a => exact ha

/-- **No sequence goes on over an edge**, so the sequences on both sides of it are taken out one by
one. -/
theorem withoutInk_append {rest : Bytes} (h : StartsAtEdge rest) (text : Bytes) :
    withoutInk (text ++ rest) = withoutInk text ++ withoutInk rest := by
  cases rest with
  | nil => rw [List.append_nil, withoutInk, withoutInk, withoutInkFrom, List.append_nil]
  | cons e rest => exact withoutInk_append_edge (h e rfl) text rest

theorem startsAtEdge_flatMap {α : Type} {items : List α} {draw : α → Bytes}
    (h : ∀ a ∈ items, StartsAtEdge (draw a)) : StartsAtEdge (items.flatMap draw) := by
  induction items with
  | nil =>
    intro e he
    cases he
  | cons a items ih =>
    rw [List.flatMap_cons]
    exact (h a List.mem_cons_self).append (ih fun a' ha => h a' (List.mem_cons_of_mem a ha))

theorem withoutInk_flatMap {α : Type} {items : List α} {draw : α → Bytes}
    (h : ∀ a ∈ items, StartsAtEdge (draw a)) :
    withoutInk (items.flatMap draw) = items.flatMap fun a => withoutInk (draw a) := by
  induction items with
  | nil => rfl
  | cons a items ih =>
    have hrest : ∀ a' ∈ items, StartsAtEdge (draw a') := fun a' ha =>
      h a' (List.mem_cons_of_mem a ha)
    rw [List.flatMap_cons, List.flatMap_cons, withoutInk_append (startsAtEdge_flatMap hrest),
      ih hrest]

/-! ## Glyphs -/

/-- The bytes of a character behind its first continue it. -/
theorem Spells.isTail {code : Nat} {b : UInt8} {more : Bytes} (h : Spells code (b :: more))
    {c : UInt8} (hc : c ∈ more) : Text.isTail c = true := by
  have hsecond : ∀ {b c : UInt8}, FitsSecond b c → Text.isTail c = true := by
    intro b c h
    rw [fitsSecond_iff] at h
    rw [isTail_iff]
    omega
  cases h with
  | one => cases hc
  | two _ h2 =>
    rw [List.mem_singleton.1 hc]
    exact h2
  | three _ h2 h3 =>
    simp only [List.mem_cons, List.not_mem_nil, or_false] at hc
    rcases hc with rfl | rfl
    · exact hsecond h2
    · exact h3
  | four _ h2 h3 h4 =>
    simp only [List.mem_cons, List.not_mem_nil, or_false] at hc
    rcases hc with rfl | rfl | rfl
    · exact hsecond h2
    · exact h3
    · exact h4

theorem charAt?_of_take {b : UInt8} {text : Bytes} {code more : Nat}
    (h : Spells code (b :: text.take more)) (hle : more ≤ text.length) :
    charAt? b text = some (code, more) := by
  have hc := h.charAt? (text.drop more)
  rwa [List.take_append_drop, List.length_take_of_le hle] at hc

theorem charAt?_le {b : UInt8} {text : Bytes} {code more : Nat}
    (h : charAt? b text = some (code, more)) : more ≤ text.length := by
  have hc := (charAt?_spells h).charAt? (text.drop more)
  rw [List.take_append_drop, h, Option.some.injEq, Prod.mk.injEq, List.length_take] at hc
  omega

theorem charAt?_append {e : UInt8} (he : isTail e = false) (b : UInt8) (text rest : Bytes) :
    charAt? b (text ++ e :: rest) = charAt? b text := by
  cases h : charAt? b text with
  | some found =>
    obtain ⟨code, more⟩ := found
    have hle := charAt?_le h
    refine charAt?_of_take ?_ (by simp; omega)
    rw [List.take_append_of_le_length hle]
    exact charAt?_spells h
  | none =>
    cases hc : charAt? b (text ++ e :: rest) with
    | none => rfl
    | some found =>
      obtain ⟨code, more⟩ := found
      have hs := charAt?_spells hc
      -- the character does not reach the byte that continues none
      have hle : more ≤ text.length := by
        apply Nat.le_of_not_lt
        intro hlt
        obtain ⟨k, rfl⟩ := Nat.exists_eq_add_of_lt hlt
        rw [Nat.add_assoc, List.take_length_add_append, List.take_succ_cons] at hs
        have htail := hs.isTail (c := e) (by simp)
        rw [he] at htail
        cases htail
      rw [List.take_append_of_le_length hle] at hs
      rw [charAt?_of_take hs hle] at h
      cases h

/-- **No character goes on over a byte that continues none.** -/
theorem glyphs_append {e : UInt8} (he : isTail e = false) (text rest : Bytes) :
    glyphs (text ++ e :: rest) = glyphs text ++ glyphs (e :: rest) := by
  -- on the length of the text, since a character takes several bytes at once
  induction hn : text.length using Nat.strongRecOn generalizing text with
  | ind n ih =>
    cases text with
    | nil => rfl
    | cons b text =>
      rw [List.length_cons] at hn
      have happ := charAt?_append he b text rest
      rw [List.cons_append]
      cases hb : charAt? b text with
      | none =>
        rw [hb] at happ
        rw [glyphs_stray happ, glyphs_stray hb, ih text.length (by omega) text rfl]
        rfl
      | some found =>
        obtain ⟨code, more⟩ := found
        rw [hb] at happ
        rw [glyphs_char happ, glyphs_char hb, List.drop_append_of_le_length (charAt?_le hb),
          ih (text.drop more).length (by simp; omega) (text.drop more) rfl]
        rfl

/-! ## Widths -/

/-- A byte in ASCII that stands in no sequence. -/
structure IsMark (b : UInt8) : Prop where
  ascii : b < 0x80
  plain : b ≠ escapeByte
  edge : IsEdge b

theorem IsMark.isTail {b : UInt8} (h : IsMark b) : Text.isTail b = false := by
  have ha := h.ascii
  simp only [UInt8.lt_iff_toNat_lt, UInt8.reduceToNat] at ha
  rw [Bool.eq_false_iff, Ne, isTail_iff]
  omega

/-- **A mark** takes one place, wherever it stands, and parts what is on both sides of it. -/
theorem visibleWidth_mark {e : UInt8} (he : IsMark e) (text rest : Bytes) :
    visibleWidth (text ++ e :: rest) = visibleWidth text + (visibleWidth rest + 1) := by
  have hglyph : glyphs (e :: withoutInk rest) = .char e.toNat :: glyphs (withoutInk rest) :=
    glyphs_char (if_pos he.ascii)
  rw [visibleWidth, withoutInk_append_edge he.edge, withoutInk_cons he.plain,
    glyphs_append he.isTail, hglyph, List.length_append, List.length_cons]
  rfl

theorem visibleWidth_cons {e : UInt8} (he : IsMark e) (rest : Bytes) :
    visibleWidth (e :: rest) = visibleWidth rest + 1 := by
  have h := visibleWidth_mark he [] rest
  rw [List.nil_append] at h
  rw [h]
  exact Nat.zero_add _

/-! ## Painting -/

/-- The bytes are one sequence. -/
def IsSequence (bytes : Bytes) : Prop :=
  ∃ parameters : Bytes, (∀ b ∈ parameters, isParameter b = true) ∧
    bytes = escapeByte :: '['.toUInt8 :: (parameters ++ ['m'.toUInt8])

theorem parametersLength?_sequence {parameters : Bytes}
    (h : ∀ b ∈ parameters, isParameter b = true) (rest : Bytes) :
    parametersLength? (parameters ++ 'm'.toUInt8 :: rest) = some (parameters.length + 1) := by
  induction parameters with
  | nil => rfl
  | cons b parameters ih =>
    have hb := h b List.mem_cons_self
    have hm : b ≠ 'm'.toUInt8 := by
      rintro rfl
      exact absurd hb (by decide)
    rw [List.cons_append, parametersLength?, if_neg hm, if_pos hb,
      ih fun b' hb' => h b' (List.mem_cons_of_mem b hb')]
    rfl

theorem IsSequence.withoutInk_append {bytes : Bytes} (h : IsSequence bytes) (rest : Bytes) :
    withoutInk (bytes ++ rest) = withoutInk rest := by
  obtain ⟨parameters, hp, rfl⟩ := h
  have hlen : inkLength? escapeByte ('['.toUInt8 :: (parameters ++ 'm'.toUInt8 :: rest)) =
      some (parameters.length + 2) := by
    simp [inkLength?, parametersLength?_sequence hp]
  have hdrop : (parameters ++ 'm'.toUInt8 :: rest).drop (parameters.length + 1) = rest := by
    rw [List.drop_length_add_append, List.drop_succ_cons, List.drop_zero]
  rw [List.cons_append, List.cons_append, List.append_assoc, List.singleton_append,
    withoutInk_sequence hlen, List.drop_succ_cons, hdrop]

/-- **A text between two sequences** is left as it is without them. -/
theorem withoutInk_painted {before after : Bytes} (hb : IsSequence before)
    (ha : IsSequence after) (text : Bytes) :
    withoutInk (before ++ text ++ after) = withoutInk text := by
  have hafter : withoutInk after = [] := by
    have h := ha.withoutInk_append []
    rwa [List.append_nil] at h
  have hedge : StartsAtEdge after := by
    obtain ⟨parameters, -, rfl⟩ := ha
    intro e he
    cases he
    decide
  rw [List.append_assoc, hb.withoutInk_append, Text.withoutInk_append hedge, hafter,
    List.append_nil]

end Tapelang.Text
