import Tapelang.Json.Text
import Tapelang.Json.Token
import Tapelang.Proofs.Utf8

/-!
# Texts between the quotes of a JSON string

A character is written in one of three ways (`Json.Writes`): with a short escape, with the four
digits of its number, or as its own bytes. Reading takes each of them back to the character
(`Writes.unescape`), and the tokenizer takes each of them without leaving the string
(`Writes.scan`). So a text that is written and read again is mended (`unescape_escape`), and its
escaped form with its quotes is one token (`scan_quoted`).
-/

namespace Tapelang.Json

open Text

/-! ## Hexadecimal digits -/

theorem hexValue?_hexDigit (n : Nat) : hexValue? (hexDigit n) = some (n % 16) := by
  have hall : ∀ d < 16, hexValue? (Nat.digitChar d).toUInt8 = some d := by decide
  exact hall (n % 16) (Nat.mod_lt n (by decide))

theorem isHexDigit_hexDigit (n : Nat) : isHexDigit (hexDigit n) = true := by
  have hall : ∀ d < 16, isHexDigit (Nat.digitChar d).toUInt8 = true := by decide
  exact hall (n % 16) (Nat.mod_lt n (by decide))

theorem hexadecimal_four (code : Nat) :
    hexadecimal 4 code =
      [hexDigit (code / 16 / 16 / 16), hexDigit (code / 16 / 16), hexDigit (code / 16),
        hexDigit code] := rfl

theorem unicodeEscape_eq (code : Nat) :
    unicodeEscape code =
      [92, 117, hexDigit (code / 16 / 16 / 16), hexDigit (code / 16 / 16), hexDigit (code / 16),
        hexDigit code] := rfl

theorem fourDigits?_hexadecimal {code : Nat} (h : code < 0x10000) (rest : Bytes) :
    fourDigits? (hexadecimal 4 code ++ rest) = some code := by
  simp only [hexadecimal_four, List.cons_append, fourDigits?, hexValue?_hexDigit,
    Option.bind_eq_bind, Option.bind_some, Option.pure_def, Option.some.injEq]
  omega

/-! ## How a character is written -/

/-- The ways in which a character is written between quotes. -/
inductive Writes : (code : Nat) → Bytes → Prop
  | short {code : Nat} {letter : Char} : shortEscape? code = some letter →
      Writes code [92, letter.toUInt8]
  | unicode {code : Nat} : code.isValidChar → code < 0x10000 → Writes code (unicodeEscape code)
  | plain {code : Nat} : code.isValidChar → 0x20 ≤ code → code ≠ 34 → code ≠ 92 →
      Writes code (encodeChar code)

/-- All that is escaped has a number of at most four digits. -/
def Escaping.IsNarrow (e : Escaping) : Prop := ∀ code, e.extra code = true → code < 0x10000

theorem Escaping.isNarrow_document : Escaping.document.IsNarrow := by
  intro code h
  simp only [document, isMarkup, isSeparator, Bool.or_eq_true, beq_iff_eq] at h
  omega

/-- A glyph is written as its character, or as the replacement character. -/
theorem escapeGlyph_writes {e : Escaping} (he : e.IsNarrow) {g : Glyph}
    (hg : ∀ code, g = .char code → code.isValidChar) : Writes g.code (escapeGlyph e g) := by
  cases g with
  | stray b =>
    have hv : replacement.isValidChar := by decide
    rw [escapeGlyph, Glyph.code]
    split
    · exact .unicode hv (by decide)
    · exact .plain hv (by decide) (by decide) (by decide)
  | char code =>
    have hv := hg code rfl
    rw [escapeGlyph, Glyph.code]
    cases hs : shortEscape? code with
    | some letter => exact .short hs
    | none =>
      simp only
      split
      · rename_i hc
        refine .unicode hv ?_
        rcases hc with hc | hc
        · omega
        · exact he code hc
      · rename_i hc
        refine .plain hv (by omega) ?_ ?_ <;> rintro rfl <;> cases hs

/-! ## Reading -/

theorem unescapeFrom_eq (skip : Nat) (raw : Bytes) :
    unescapeFrom skip raw = unescape (raw.drop skip) := by
  induction skip generalizing raw with
  | zero => rfl
  | succ skip ih =>
    cases raw with
    | nil => rfl
    | cons b rest => exact ih rest

theorem unescape_cons (b : UInt8) (rest : Bytes) :
    unescape (b :: rest) =
      (unescapeAt b rest).1 ++ unescape (rest.drop (unescapeAt b rest).2) := by
  rw [unescape, unescapeFrom]
  simp only [unescapeFrom_eq]

/-- A short escape is read as its character. -/
theorem unescapeAt_short {code : Nat} {letter : Char} (h : shortEscape? code = some letter)
    (rest : Bytes) : unescapeAt 92 (letter.toUInt8 :: rest) = (encodeChar code, 1) := by
  unfold shortEscape? at h
  split at h <;> cases h <;> rfl

theorem unescapeAt_unicode {code : Nat} (hv : code.isValidChar) (h : code < 0x10000)
    (rest : Bytes) :
    unescapeAt 92 (117 :: (hexadecimal 4 code ++ rest)) = (encodeChar code, 5) := by
  unfold Nat.isValidChar at hv
  unfold unescapeAt
  rw [if_pos rfl]
  simp only
  rw [if_pos (by decide), fourDigits?_hexadecimal h]
  simp only
  rw [if_neg (by omega)]

/-- A character is read where it is written. -/
theorem Writes.unescape {code : Nat} {bytes : Bytes} (h : Writes code bytes) (rest : Bytes) :
    Json.unescape (bytes ++ rest) = encodeChar code ++ Json.unescape rest := by
  cases h with
  | short hs =>
    rw [List.cons_append, unescape_cons, List.singleton_append, unescapeAt_short hs]
    rfl
  | unicode hv hc =>
    have hu : unicodeEscape code ++ rest = 92 :: 117 :: (hexadecimal 4 code ++ rest) := rfl
    rw [hu, unescape_cons, unescapeAt_unicode hv hc]
    rfl
  | plain hv hl hq hb =>
    have hs := spells_encodeChar hv
    cases he : encodeChar code with
    | nil =>
      rw [he] at hs
      cases hs
    | cons b more =>
      rw [he] at hs
      have hb92 : b ≠ 92 := by
        rintro rfl
        have := hs.byte List.mem_cons_self
        simp only [UInt8.reduceToNat] at this
        omega
      have hat : unescapeAt b (more ++ rest) = (b :: more, more.length) := by
        unfold unescapeAt
        rw [if_neg hb92, hs.charAt? rest]
        simp
      rw [List.cons_append, unescape_cons, hat, List.drop_left]

theorem unescape_glyphs {e : Escaping} (he : e.IsNarrow) {gs : List Glyph}
    (hgs : ∀ code, .char code ∈ gs → code.isValidChar) :
    unescape (gs.flatMap (escapeGlyph e)) = gs.flatMap fun g => encodeChar g.code := by
  induction gs with
  | nil => rfl
  | cons g gs ih =>
    have hw := escapeGlyph_writes (g := g) he fun code hg => hgs code (hg ▸ List.mem_cons_self)
    rw [List.flatMap_cons, List.flatMap_cons, hw.unescape,
      ih fun code hg => hgs code (List.mem_cons_of_mem g hg)]

/-- **A text that is written and read again** is mended. -/
theorem unescape_escape {e : Escaping} (he : e.IsNarrow) (text : Bytes) :
    unescape (escape e text) = mend text :=
  unescape_glyphs he (glyphs_spec text).1

/-! ## Tokens -/

namespace Scan

/-- What the tokenizer does inside quotes with bytes that stand for themselves. -/
theorem run_plain {bytes : Bytes} (h : ∀ b ∈ bytes, 0x20 ≤ b.toNat ∧ b.toNat ≠ 34 ∧ b.toNat ≠ 92)
    (seen : Bytes) (done : Array Token) (rest : Bytes) :
    run (quoted seen) done (bytes ++ rest) = run (quoted (bytes.reverse ++ seen)) done rest := by
  induction bytes generalizing seen with
  | nil => rfl
  | cons b bytes ih =>
    obtain ⟨hl, hq, hb⟩ := h b List.mem_cons_self
    have hlow : ¬ b < 0x20 := by
      simp only [UInt8.lt_iff_toNat_lt, UInt8.reduceToNat]
      omega
    have hstep : step (quoted seen) done b = some (quoted (b :: seen), done) := by
      rw [step, inQuotes, if_neg (by rintro rfl; exact hq rfl),
        if_neg (by rintro rfl; exact hb rfl), if_neg hlow]
    rw [List.cons_append, run, hstep]
    simp only
    rw [ih fun b' hb' => h b' (List.mem_cons_of_mem b hb')]
    simp

theorem run_unicodeEscape (code : Nat) (seen : Bytes) (done : Array Token) (rest : Bytes) :
    run (quoted seen) done (unicodeEscape code ++ rest) =
      run (quoted ((unicodeEscape code).reverse ++ seen)) done rest := by
  have hu : step (escaped (92 :: seen)) done 117 = some (digits 4 (117 :: 92 :: seen), done) := rfl
  have hdigit : ∀ (more n : Nat) (seen : Bytes), step (digits (more + 2) seen) done (hexDigit n) =
      some (digits (more + 1) (hexDigit n :: seen), done) := by
    intro more n seen
    rw [step, if_pos (isHexDigit_hexDigit n)]
  have hlast : ∀ (n : Nat) (seen : Bytes), step (digits 1 seen) done (hexDigit n) =
      some (quoted (hexDigit n :: seen), done) := by
    intro n seen
    rw [step, if_pos (isHexDigit_hexDigit n)]
  simp only [unicodeEscape_eq, List.cons_append, List.nil_append]
  rw [run, show step (quoted seen) done 92 = some (escaped (92 :: seen), done) from rfl]
  simp only
  rw [run, hu]
  simp only [run, hdigit, hlast]
  rfl

end Scan

/-- A character that is written keeps the tokenizer inside the string. -/
theorem Writes.scan {code : Nat} {bytes : Bytes} (h : Writes code bytes) (seen : Bytes)
    (done : Array Token) (rest : Bytes) :
    Scan.run (.quoted seen) done (bytes ++ rest) =
      Scan.run (.quoted (bytes.reverse ++ seen)) done rest := by
  cases h with
  | short hs =>
    unfold shortEscape? at hs
    split at hs <;> cases hs <;> rfl
  | unicode => exact Scan.run_unicodeEscape code seen done rest
  | plain hv hl hq hb =>
    refine Scan.run_plain (fun b hmem => ?_) seen done rest
    have := (spells_encodeChar hv).byte hmem
    omega

theorem scan_glyphs {e : Escaping} (he : e.IsNarrow) {gs : List Glyph}
    (hgs : ∀ code, .char code ∈ gs → code.isValidChar) (seen : Bytes) (done : Array Token)
    (rest : Bytes) :
    Scan.run (.quoted seen) done (gs.flatMap (escapeGlyph e) ++ rest) =
      Scan.run (.quoted ((gs.flatMap (escapeGlyph e)).reverse ++ seen)) done rest := by
  induction gs generalizing seen with
  | nil => rfl
  | cons g gs ih =>
    have hw := escapeGlyph_writes (g := g) he fun code hg => hgs code (hg ▸ List.mem_cons_self)
    rw [List.flatMap_cons, List.append_assoc, hw.scan,
      ih fun code hg => hgs code (List.mem_cons_of_mem g hg), List.reverse_append,
      List.append_assoc]

/-- **A text with its quotes** is one token. -/
theorem scan_quoted {e : Escaping} (he : e.IsNarrow) (text : Bytes) (done : Array Token)
    (rest : Bytes) :
    Scan.run .between done (quoted e text ++ rest) =
      Scan.run .between (done.push (.string (escape e text))) rest := by
  have hq : quoted e text ++ rest = 34 :: (escape e text ++ 34 :: rest) := by
    simp only [quoted, List.append_assoc]
    rfl
  rw [hq, Scan.run, show Scan.step .between done 34 = some (.quoted [], done) from rfl]
  simp only
  rw [escape, scan_glyphs he (glyphs_spec text).1, List.append_nil, Scan.run]
  simp only [Scan.step, Scan.inQuotes, if_true, List.reverse_reverse]

end Tapelang.Json
