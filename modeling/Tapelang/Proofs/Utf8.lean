import Tapelang.Text.Utf8

/-!
# Characters and their bytes

* `Text.Spells`: the four forms that the bytes of a character have. What is found in front of a text
  has one of them (`charAt?_spells`), what has one of them is found (`Spells.charAt?`), and they
  are the bytes of the characters that exist (`Spells.encodeChar_eq`, `spells_encodeChar`).
* `Text.glyphs_spec`: the glyphs of a text, written one after the other, are the text.
* `Text.mend_eq_self`: mending leaves a text as it is exactly if it is UTF-8, and that is if it is
  made of characters (`isUtf8_iff`).
-/

namespace Tapelang.Text

/-! ## Single characters -/

theorem val_ofNat {code : Nat} (h : code.isValidChar) : (Char.ofNat code).val.toNat = code := by
  rw [Char.ofNat, dif_pos h]
  rfl

theorem ofNat_eq {n : Nat} {b : UInt8} (h : n = b.toNat) : UInt8.ofNat n = b := by
  rw [h, UInt8.ofNat_toNat]

theorem encodeChar_one {code : Nat} (h : code ≤ 0x7f) : encodeChar code = [UInt8.ofNat code] := by
  have hv : code.isValidChar := .inl (by omega)
  rw [encodeChar, String.utf8EncodeChar, val_ofNat hv]
  rw [if_pos h]

theorem encodeChar_two {code : Nat} (hl : 0x7f < code) (h : code ≤ 0x7ff) :
    encodeChar code = [UInt8.ofNat (code / 64 % 32 + 0xc0), UInt8.ofNat (code % 64 + 0x80)] := by
  have hv : code.isValidChar := .inl (by omega)
  rw [encodeChar, String.utf8EncodeChar, val_ofNat hv]
  rw [if_neg (by omega), if_pos h]

theorem encodeChar_three {code : Nat} (hv : code.isValidChar) (hl : 0x7ff < code)
    (h : code ≤ 0xffff) :
    encodeChar code = [UInt8.ofNat (code / 4096 % 16 + 0xe0), UInt8.ofNat (code / 64 % 64 + 0x80),
      UInt8.ofNat (code % 64 + 0x80)] := by
  rw [encodeChar, String.utf8EncodeChar, val_ofNat hv]
  rw [if_neg (by omega), if_neg (by omega), if_pos h]

theorem encodeChar_four {code : Nat} (hv : code.isValidChar) (hl : 0xffff < code) :
    encodeChar code = [UInt8.ofNat (code / 262144 % 8 + 0xf0),
      UInt8.ofNat (code / 4096 % 64 + 0x80), UInt8.ofNat (code / 64 % 64 + 0x80),
      UInt8.ofNat (code % 64 + 0x80)] := by
  rw [encodeChar, String.utf8EncodeChar, val_ofNat hv]
  rw [if_neg (by omega), if_neg (by omega), if_neg (by omega)]

/-! ## The forms of a character -/

/-- What the second byte `c` after the lead byte `b` may be. -/
def FitsSecond (b c : UInt8) : Prop := (secondRange b).1 ≤ c ∧ c ≤ (secondRange b).2

theorem fitsSecond_iff {b c : UInt8} : FitsSecond b c ↔
    0x80 ≤ c.toNat ∧ c.toNat ≤ 0xbf ∧ (b.toNat = 0xe0 → 0xa0 ≤ c.toNat) ∧
      (b.toNat = 0xed → c.toNat ≤ 0x9f) ∧ (b.toNat = 0xf0 → 0x90 ≤ c.toNat) ∧
      (b.toNat = 0xf4 → c.toNat ≤ 0x8f) := by
  unfold FitsSecond secondRange
  simp only [UInt8.le_iff_toNat_le, ← UInt8.toNat_inj]
  repeat' split
  all_goals simp_all <;> omega

theorem isTail_iff {b : UInt8} : isTail b = true ↔ 0x80 ≤ b.toNat ∧ b.toNat ≤ 0xbf := by
  simp [isTail, UInt8.le_iff_toNat_le]

/-- The bytes are those of the character `code`: the four forms that there are. -/
inductive Spells : (code : Nat) → Bytes → Prop
  | one {b : UInt8} : b < 0x80 → Spells b.toNat [b]
  | two {b c : UInt8} : 0xc2 ≤ b ∧ b ≤ 0xdf → isTail c = true →
      Spells (b.toNat % 32 * 64 + tailBits c) [b, c]
  | three {b c d : UInt8} : 0xe0 ≤ b ∧ b ≤ 0xef → FitsSecond b c → isTail d = true →
      Spells ((b.toNat % 16 * 64 + tailBits c) * 64 + tailBits d) [b, c, d]
  | four {b c d e : UInt8} : 0xf0 ≤ b ∧ b ≤ 0xf4 → FitsSecond b c → isTail d = true →
      isTail e = true →
      Spells (((b.toNat % 8 * 64 + tailBits c) * 64 + tailBits d) * 64 + tailBits e) [b, c, d, e]

/-- A character that is found is spelled by the bytes that it takes. -/
theorem charAt?_spells {b : UInt8} {rest : Bytes} {code more : Nat}
    (h : charAt? b rest = some (code, more)) : Spells code (b :: rest.take more) := by
  unfold charAt? at h
  split at h
  · cases h
    exact .one ‹_›
  split at h
  · split at h
    · split at h <;> cases h
      exact .two ‹_› ‹_›
    · cases h
  split at h
  · split at h
    · split at h <;> cases h
      rename_i hc
      exact .three ‹_› ⟨hc.1, hc.2.1⟩ hc.2.2
    · cases h
  split at h
  · split at h
    · split at h <;> cases h
      rename_i hc
      exact .four ‹_› ⟨hc.1, hc.2.1⟩ hc.2.2.1 hc.2.2.2
    · cases h
  · cases h

/-- A character that is spelled in front of a text is found there. -/
theorem Spells.charAt? {code : Nat} {b : UInt8} {more : Bytes} (h : Spells code (b :: more))
    (rest : Bytes) : Text.charAt? b (more ++ rest) = some (code, more.length) := by
  unfold Text.charAt?
  cases h with
  | one hb => rw [if_pos hb]; rfl
  | two hb hc =>
    have hb' := hb
    simp only [UInt8.le_iff_toNat_le, UInt8.reduceToNat] at hb'
    rw [if_neg (by simp only [UInt8.lt_iff_toNat_lt, UInt8.reduceToNat]; omega), if_pos hb]
    simp [hc]
  | three hb hc hd =>
    have hb' := hb
    simp only [UInt8.le_iff_toNat_le, UInt8.reduceToNat] at hb'
    rw [if_neg (by simp only [UInt8.lt_iff_toNat_lt, UInt8.reduceToNat]; omega),
      if_neg (by simp only [UInt8.le_iff_toNat_le, UInt8.reduceToNat]; omega), if_pos hb]
    simp [hc.1, hc.2, hd]
  | four hb hc hd he =>
    have hb' := hb
    simp only [UInt8.le_iff_toNat_le, UInt8.reduceToNat] at hb'
    rw [if_neg (by simp only [UInt8.lt_iff_toNat_lt, UInt8.reduceToNat]; omega),
      if_neg (by simp only [UInt8.le_iff_toNat_le, UInt8.reduceToNat]; omega),
      if_neg (by simp only [UInt8.le_iff_toNat_le, UInt8.reduceToNat]; omega), if_pos hb]
    simp [hc.1, hc.2, hd, he]

/-- What is spelled is a character, and the bytes are its own. -/
theorem Spells.encodeChar_eq {code : Nat} {bytes : Bytes} (h : Spells code bytes) :
    code.isValidChar ∧ encodeChar code = bytes := by
  unfold Nat.isValidChar
  cases h with
  | one hb =>
    simp only [UInt8.lt_iff_toNat_lt, UInt8.reduceToNat] at hb
    refine ⟨by omega, ?_⟩
    rw [encodeChar_one (by omega), UInt8.ofNat_toNat]
  | two hb hc =>
    rw [isTail_iff] at hc
    simp only [UInt8.le_iff_toNat_le, UInt8.reduceToNat] at hb
    simp only [tailBits]
    refine ⟨by omega, ?_⟩
    rw [encodeChar_two (by omega) (by omega), ofNat_eq, ofNat_eq] <;> omega
  | @three b c d hb hc hd =>
    rw [fitsSecond_iff] at hc
    rw [isTail_iff] at hd
    simp only [UInt8.le_iff_toNat_le, UInt8.reduceToNat] at hb
    simp only [tailBits]
    have hv : ((b.toNat % 16 * 64 + c.toNat % 64) * 64 + d.toNat % 64).isValidChar := by
      unfold Nat.isValidChar
      omega
    refine ⟨hv, ?_⟩
    rw [encodeChar_three hv (by omega) (by omega), ofNat_eq, ofNat_eq, ofNat_eq] <;> omega
  | @four b c d e hb hc hd he =>
    rw [fitsSecond_iff] at hc
    rw [isTail_iff] at hd he
    simp only [UInt8.le_iff_toNat_le, UInt8.reduceToNat] at hb
    simp only [tailBits]
    have hv : (((b.toNat % 8 * 64 + c.toNat % 64) * 64 + d.toNat % 64) * 64 +
        e.toNat % 64).isValidChar := by
      unfold Nat.isValidChar
      omega
    refine ⟨hv, ?_⟩
    rw [encodeChar_four hv (by omega), ofNat_eq, ofNat_eq, ofNat_eq, ofNat_eq] <;> omega

theorem Spells.of_eq {code code' : Nat} {bytes : Bytes} (h : Spells code' bytes)
    (he : code' = code) : Spells code bytes := he ▸ h

/-- The bytes of a character spell it. -/
theorem spells_encodeChar {code : Nat} (hv : code.isValidChar) : Spells code (encodeChar code) := by
  have hn : ∀ n < 256, (UInt8.ofNat n).toNat = n := fun n h => UInt8.toNat_ofNat_of_lt' h
  have hbounds := hv
  unfold Nat.isValidChar at hbounds
  by_cases h1 : code ≤ 0x7f
  · rw [encodeChar_one h1]
    refine .of_eq (.one ?_) (hn code (by omega))
    rw [UInt8.lt_iff_toNat_lt, hn code (by omega)]
    simp only [UInt8.reduceToNat]
    omega
  have hlast : (UInt8.ofNat (code % 64 + 0x80)).toNat = code % 64 + 0x80 := hn _ (by omega)
  have htail : isTail (UInt8.ofNat (code % 64 + 0x80)) = true := by
    rw [isTail_iff, hlast]
    omega
  by_cases h2 : code ≤ 0x7ff
  · rw [encodeChar_two (by omega) h2]
    have hlead := hn (code / 64 % 32 + 0xc0) (by omega)
    refine .of_eq (.two ?_ htail) ?_
    · simp only [UInt8.le_iff_toNat_le, UInt8.reduceToNat, hlead]
      omega
    · simp only [tailBits, hlead, hlast]
      omega
  have hthird : (UInt8.ofNat (code / 64 % 64 + 0x80)).toNat = code / 64 % 64 + 0x80 :=
    hn _ (by omega)
  by_cases h3 : code ≤ 0xffff
  · rw [encodeChar_three hv (by omega) h3]
    have hlead := hn (code / 4096 % 16 + 0xe0) (by omega)
    refine .of_eq (.three ?_ ?_ htail) ?_
    · simp only [UInt8.le_iff_toNat_le, UInt8.reduceToNat, hlead]
      omega
    · rw [fitsSecond_iff, hlead, hthird]
      omega
    · simp only [tailBits, hlead, hthird, hlast]
      omega
  · rw [encodeChar_four hv (by omega)]
    have hlead := hn (code / 262144 % 8 + 0xf0) (by omega)
    have hsecond := hn (code / 4096 % 64 + 0x80) (by omega)
    refine .of_eq (.four ?_ ?_ ?_ htail) ?_
    · simp only [UInt8.le_iff_toNat_le, UInt8.reduceToNat, hlead]
      omega
    · rw [fitsSecond_iff, hlead, hsecond]
      omega
    · rw [isTail_iff, hthird]
      omega
    · simp only [tailBits, hlead, hsecond, hthird, hlast]
      omega

/-- Every byte of a character is the character itself or lies behind ASCII. -/
theorem Spells.byte {code : Nat} {bytes : Bytes} (h : Spells code bytes) {b : UInt8}
    (hb : b ∈ bytes) : b.toNat = code ∨ 0x80 ≤ b.toNat := by
  cases h with
  | one => exact .inl (by rw [List.mem_singleton.1 hb])
  | two hl hc =>
    rw [isTail_iff] at hc
    simp only [UInt8.le_iff_toNat_le, UInt8.reduceToNat] at hl
    simp only [List.mem_cons, List.not_mem_nil, or_false] at hb
    rcases hb with rfl | rfl <;> exact .inr (by omega)
  | three hl hc hd =>
    rw [fitsSecond_iff] at hc
    rw [isTail_iff] at hd
    simp only [UInt8.le_iff_toNat_le, UInt8.reduceToNat] at hl
    simp only [List.mem_cons, List.not_mem_nil, or_false] at hb
    rcases hb with rfl | rfl | rfl <;> exact .inr (by omega)
  | four hl hc hd he =>
    rw [fitsSecond_iff] at hc
    rw [isTail_iff] at hd he
    simp only [UInt8.le_iff_toNat_le, UInt8.reduceToNat] at hl
    simp only [List.mem_cons, List.not_mem_nil, or_false] at hb
    rcases hb with rfl | rfl | rfl | rfl <;> exact .inr (by omega)

/-! ## Glyphs -/

theorem glyphsFrom_eq (skip : Nat) (text : Bytes) :
    glyphsFrom skip text = glyphs (text.drop skip) := by
  induction skip generalizing text with
  | zero => rfl
  | succ skip ih =>
    cases text with
    | nil => rfl
    | cons b rest => exact ih rest

theorem glyphs_char {b : UInt8} {rest : Bytes} {code more : Nat}
    (h : charAt? b rest = some (code, more)) :
    glyphs (b :: rest) = .char code :: glyphs (rest.drop more) := by
  rw [glyphs, glyphsFrom, h]
  simp only [glyphsFrom_eq]

theorem glyphs_stray {b : UInt8} {rest : Bytes} (h : charAt? b rest = none) :
    glyphs (b :: rest) = .stray b :: glyphs rest := by
  rw [glyphs, glyphsFrom, h]
  rfl

/-- **Nothing is lost in glyphs**: their characters exist, and one after the other they are the
text. -/
theorem glyphs_spec (text : Bytes) :
    (∀ code, .char code ∈ glyphs text → code.isValidChar) ∧
      (glyphs text).flatMap Glyph.bytes = text := by
  -- on the length of the text, since a character takes several bytes at once
  induction hn : text.length using Nat.strongRecOn generalizing text with
  | ind n ih =>
    cases text with
    | nil => exact ⟨fun _ h => (List.not_mem_nil h).elim, rfl⟩
    | cons b rest =>
      simp only [List.length_cons] at hn
      cases hc : charAt? b rest with
      | none =>
        obtain ⟨hvalid, hbytes⟩ := ih rest.length (by omega) rest rfl
        rw [glyphs_stray hc]
        refine ⟨fun code hg => ?_, by simp [Glyph.bytes, hbytes]⟩
        rcases List.mem_cons.1 hg with hg | hg
        · cases hg
        · exact hvalid code hg
      | some found =>
        obtain ⟨code, more⟩ := found
        obtain ⟨hv, he⟩ := (charAt?_spells hc).encodeChar_eq
        obtain ⟨hvalid, hbytes⟩ := ih (rest.drop more).length (by simp; omega) (rest.drop more) rfl
        rw [glyphs_char hc]
        refine ⟨fun code' hg => ?_, ?_⟩
        · rcases List.mem_cons.1 hg with hg | hg
          · cases hg
            exact hv
          · exact hvalid code' hg
        · rw [List.flatMap_cons, hbytes, Glyph.bytes, he, List.cons_append, List.take_append_drop]

theorem glyphs_encodeChar {code : Nat} (hv : code.isValidChar) (rest : Bytes) :
    glyphs (encodeChar code ++ rest) = .char code :: glyphs rest := by
  have hs := spells_encodeChar hv
  cases he : encodeChar code with
  | nil =>
    rw [he] at hs
    cases hs
  | cons b more =>
    rw [he] at hs
    rw [List.cons_append, glyphs_char (hs.charAt? rest), List.drop_left]

/-! ## UTF-8 -/

/-- Mending makes each stray byte two bytes longer. -/
theorem length_flatMap_code (gs : List Glyph) :
    (gs.flatMap fun g => encodeChar g.code).length =
      (gs.flatMap Glyph.bytes).length + 2 * (gs.countP fun g => !g.isChar) := by
  induction gs with
  | nil => rfl
  | cons g gs ih =>
    simp only [List.flatMap_cons, List.length_append, List.countP_cons, ih]
    cases g with
    | char code =>
      simp [Glyph.code, Glyph.bytes, Glyph.isChar]
      omega
    | stray b =>
      have hr : (encodeChar replacement).length = 3 := by decide
      simp [Glyph.code, Glyph.bytes, Glyph.isChar, hr]
      omega

/-- Mending leaves characters as they are. -/
theorem flatMap_code_of_isChar {gs : List Glyph} (h : ∀ g ∈ gs, g.isChar = true) :
    (gs.flatMap fun g => encodeChar g.code) = gs.flatMap Glyph.bytes := by
  induction gs with
  | nil => rfl
  | cons g gs ih =>
    rw [List.flatMap_cons, List.flatMap_cons, ih fun g' hg => h g' (List.mem_cons_of_mem g hg)]
    cases g with
    | char code => rfl
    | stray b => cases h _ List.mem_cons_self

/-- **Mending changes a text** exactly if it is not UTF-8. -/
theorem mend_eq_self (text : Bytes) : mend text = text ↔ isUtf8 text = true := by
  obtain ⟨-, hbytes⟩ := glyphs_spec text
  rw [isUtf8, List.all_eq_true]
  constructor
  · intro h g hg
    have hlen := length_flatMap_code (glyphs text)
    rw [hbytes, show (glyphs text).flatMap (fun g => encodeChar g.code) = text from h] at hlen
    have hnone : (glyphs text).countP (fun g => !g.isChar) = 0 := by omega
    simpa using List.countP_eq_zero.1 hnone g hg
  · intro h
    exact (flatMap_code_of_isChar h).trans hbytes

/-- The texts that are UTF-8 are the characters of some list, one after the other. -/
theorem isUtf8_iff (text : Bytes) :
    isUtf8 text = true ↔ ∃ chars : List Char, chars.flatMap String.utf8EncodeChar = text := by
  constructor
  · intro h
    refine ⟨(glyphs text).map fun g => Char.ofNat g.code, ?_⟩
    rw [List.flatMap_map]
    exact (mend_eq_self text).2 h
  · rintro ⟨chars, rfl⟩
    rw [isUtf8]
    induction chars with
    | nil => rfl
    | cons c chars ih =>
      have hc : String.utf8EncodeChar c = encodeChar c.toNat := by
        rw [encodeChar, Char.ofNat_toNat]
      have hv : c.toNat.isValidChar := c.valid
      rw [List.flatMap_cons, hc, glyphs_encodeChar hv]
      simpa [Glyph.isChar] using ih

end Tapelang.Text
