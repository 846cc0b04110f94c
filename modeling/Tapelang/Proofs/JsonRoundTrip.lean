import Tapelang.Json.Parser
import Tapelang.Json.Printer
import Tapelang.Proofs.JsonText

/-!
# Values that are written and read again

A value without blanks is cut into its own tokens (`Json.scan_compact`), and these are put together
to the same value with its texts mended (`Json.takeAll_tokens`). So `parse` gives back what
`compact` wrote, as long as numbers are numbers and not too many arrays and objects are inside each
other (`Json.parse_compact`).
-/

namespace Tapelang.Json

open Text

/-! ## What is read -/

mutual

/-- A value with all its texts mended. -/
def mended : Json → Json
  | .null => .null
  | .bool b => .bool b
  | .number literal => .number literal
  | .string text => .string (mend text)
  | .array items => .array (mendedItems items)
  | .object members => .object (mendedMembers members)

/-- Items with all their texts mended. -/
def mendedItems : List Json → List Json
  | [] => []
  | v :: rest => v.mended :: mendedItems rest

/-- Members with all their texts mended. -/
def mendedMembers : List (Bytes × Json) → List (Bytes × Json)
  | [] => []
  | (key, v) :: rest => (mend key, v.mended) :: mendedMembers rest

end

/-- Bytes that make a number token. -/
structure IsLiteral (literal : Bytes) : Prop where
  nonempty : literal ≠ []
  numeral : ∀ b ∈ literal, isNumeral b = true
  isNumber : Json.isNumber literal = true

mutual

/-- The numbers of a value are numbers, and at most `room` arrays and objects are inside each
other. -/
def Fits : Json → (room : Nat) → Prop
  | .null, _ | .bool _, _ | .string _, _ => True
  | .number literal, _ => IsLiteral literal
  | .array items, room => 0 < room ∧ FitsItems items (room - 1)
  | .object members, room => 0 < room ∧ FitsMembers members (room - 1)

/-- All items fit. -/
def FitsItems : List Json → (room : Nat) → Prop
  | [], _ => True
  | v :: rest, room => v.Fits room ∧ FitsItems rest room

/-- The values of all members fit. -/
def FitsMembers : List (Bytes × Json) → (room : Nat) → Prop
  | [], _ => True
  | (_, v) :: rest, room => v.Fits room ∧ FitsMembers rest room

end

/-! ## Tokens -/

mutual

/-- The tokens of a value. -/
def tokens : Json → List Token
  | .null => [.null]
  | .bool b => [.bool b]
  | .number literal => [.number literal]
  | .string text => [.string (escape .document text)]
  | .array items => .openArray :: (tokensOfItems items ++ [.closeArray])
  | .object members => .openObject :: (tokensOfMembers members ++ [.closeObject])

/-- The tokens of items, with commas between them. -/
def tokensOfItems : List Json → List Token
  | [] => []
  | [v] => v.tokens
  | v :: w :: rest => v.tokens ++ .comma :: tokensOfItems (w :: rest)

/-- The tokens of members, with commas between them. -/
def tokensOfMembers : List (Bytes × Json) → List Token
  | [] => []
  | [(key, v)] => .string (escape .document key) :: .colon :: v.tokens
  | (key, v) :: m :: rest =>
    .string (escape .document key) :: .colon :: (v.tokens ++ .comma :: tokensOfMembers (m :: rest))

end

/-- No number and no word goes on in the text. -/
def Ends (text : Bytes) : Prop :=
  ∀ b rest, text = b :: rest → isNumeral b = false ∧ isWord b = false

theorem Ends.nil : Ends [] := fun _ _ h => by cases h

theorem Ends.cons {b : UInt8} {rest : Bytes} (hn : isNumeral b = false) (hw : isWord b = false) :
    Ends (b :: rest) := by
  rintro _ _ ⟨rfl, rfl⟩
  exact ⟨hn, hw⟩

namespace Scan

theorem run_word_end (seen : Bytes) {rest : Bytes} {t : Token}
    (hw : wordToken? seen.reverse = some t) (h : Ends rest) (done : Array Token) :
    run (word seen) done rest = run between (done.push t) rest := by
  cases rest with
  | nil => simp [run, finish?, hw]
  | cons b rest => simp [run, step, (h b rest rfl).2, hw]

theorem run_numeral_end {seen rest : Bytes} (hn : isNumber seen.reverse = true) (h : Ends rest)
    (done : Array Token) :
    run (numeral seen) done rest = run between (done.push (.number seen.reverse)) rest := by
  cases rest with
  | nil => simp [run, finish?, numberToken?, hn]
  | cons b rest => simp [run, step, (h b rest rfl).1, numberToken?, hn]

theorem begin_numeral {b : UInt8} (h : isNumeral b = true) (done : Array Token) :
    begin done b = some (numeral [b], done) := by
  have hb : isBlank b = false ∧ b ≠ 34 := by
    simp only [isNumeral, isDigit, Bool.or_eq_true, Bool.and_eq_true, decide_eq_true_eq,
      beq_iff_eq] at h
    rcases h with (((((h | rfl) | rfl) | rfl) | rfl) | rfl)
    · simp only [UInt8.le_iff_toNat_le, UInt8.reduceToNat] at h
      simp only [isBlank, Bool.or_eq_false_iff, beq_eq_false_iff_ne, ne_eq, ← UInt8.toNat_inj,
        UInt8.reduceToNat]
      omega
    all_goals decide
  simp [begin, hb.1, hb.2, h]

theorem run_numeral {literal : Bytes} (h : ∀ b ∈ literal, isNumeral b = true) (seen : Bytes)
    (done : Array Token) (rest : Bytes) :
    run (numeral seen) done (literal ++ rest) =
      run (numeral (literal.reverse ++ seen)) done rest := by
  induction literal generalizing seen with
  | nil => rfl
  | cons b literal ih =>
    have hb := h b List.mem_cons_self
    rw [List.cons_append, run, step, if_pos hb]
    simp only
    rw [ih fun b' hb' => h b' (List.mem_cons_of_mem b hb')]
    simp

/-- A number in front of a text is one token. -/
theorem run_literal {literal rest : Bytes} (hl : IsLiteral literal) (h : Ends rest)
    (done : Array Token) :
    run between done (literal ++ rest) = run between (done.push (.number literal)) rest := by
  obtain ⟨hne, hnumeral, hnumber⟩ := hl
  cases literal with
  | nil => exact absurd rfl hne
  | cons b literal =>
    rw [List.cons_append, run, step, begin_numeral (hnumeral b List.mem_cons_self)]
    simp only
    rw [run_numeral fun b' hb' => hnumeral b' (List.mem_cons_of_mem b hb'),
      run_numeral_end (by simpa using hnumber) h]
    simp

end Scan

theorem ends_comma (rest : Bytes) : Ends (utf8 "," ++ rest) := .cons (by decide) (by decide)

theorem ends_closeArray (rest : Bytes) : Ends (utf8 "]" ++ rest) := .cons (by decide) (by decide)

theorem ends_closeObject (rest : Bytes) : Ends (utf8 "\x7d" ++ rest) :=
  .cons (by decide) (by decide)

section

variable (done : Array Token) (rest : Bytes)

theorem scan_comma : Scan.run .between done (utf8 "," ++ rest) =
    Scan.run .between (done.push .comma) rest := rfl

theorem scan_openArray : Scan.run .between done (utf8 "[" ++ rest) =
    Scan.run .between (done.push .openArray) rest := rfl

theorem scan_closeArray : Scan.run .between done (utf8 "]" ++ rest) =
    Scan.run .between (done.push .closeArray) rest := rfl

theorem scan_openObject : Scan.run .between done (utf8 "\x7b" ++ rest) =
    Scan.run .between (done.push .openObject) rest := rfl

theorem scan_closeObject : Scan.run .between done (utf8 "\x7d" ++ rest) =
    Scan.run .between (done.push .closeObject) rest := rfl

end

/-- A key with its colon is two tokens. -/
theorem scan_key (key : Bytes) (done : Array Token) (rest : Bytes) :
    Scan.run .between done (quoted .document key ++ (utf8 ":" ++ rest)) =
      Scan.run .between (done ++ #[.string (escape .document key), .colon]) rest := by
  rw [scan_quoted Escaping.isNarrow_document]
  rfl

mutual

/-- **A value without blanks** is cut into its tokens. -/
theorem scan_compact : ∀ (v : Json) (room : Nat), v.Fits room →
    ∀ (done : Array Token) (rest : Bytes), Ends rest →
      Scan.run .between done (v.compact ++ rest) =
        Scan.run .between (done ++ v.tokens.toArray) rest
  | .null, _, _, done, rest, h => by
    rw [tokens, compact]
    exact Scan.run_word_end [108, 108, 117, 110] (by decide) h done
  | .bool true, _, _, done, rest, h => by
    rw [tokens, compact]
    exact Scan.run_word_end [101, 117, 114, 116] (by decide) h done
  | .bool false, _, _, done, rest, h => by
    rw [tokens, compact]
    exact Scan.run_word_end [101, 115, 108, 97, 102] (by decide) h done
  | .number literal, _, hf, done, rest, h => by
    rw [Fits] at hf
    rw [tokens, compact, Scan.run_literal hf h]
    rfl
  | .string text, _, _, done, rest, _ => by
    rw [tokens, compact, scan_quoted Escaping.isNarrow_document]
    rfl
  | .array items, room, hf, done, rest, _ => by
    rw [Fits] at hf
    rw [tokens, compact, List.append_assoc, List.append_assoc]
    rw [scan_openArray, scan_items items (room - 1) hf.2 _ _ (ends_closeArray rest),
      scan_closeArray]
    simp
  | .object members, room, hf, done, rest, _ => by
    rw [Fits] at hf
    rw [tokens, compact, List.append_assoc, List.append_assoc]
    rw [scan_openObject, scan_members members (room - 1) hf.2 _ _ (ends_closeObject rest),
      scan_closeObject]
    simp

theorem scan_items : ∀ (items : List Json) (room : Nat), FitsItems items room →
    ∀ (done : Array Token) (rest : Bytes), Ends rest →
      Scan.run .between done (compactItems items ++ rest) =
        Scan.run .between (done ++ (tokensOfItems items).toArray) rest
  | [], _, _, done, rest, _ => by simp [compactItems, tokensOfItems]
  | [v], room, hf, done, rest, h => by
    rw [FitsItems] at hf
    rw [compactItems, tokensOfItems]
    exact scan_compact v room hf.1 done rest h
  | v :: w :: more, room, hf, done, rest, h => by
    rw [FitsItems] at hf
    have hc : compactItems (v :: w :: more) =
        v.compact ++ utf8 "," ++ compactItems (w :: more) := by
      simp [compactItems]
    rw [hc, tokensOfItems, List.append_assoc, List.append_assoc,
      scan_compact v room hf.1 done _ (ends_comma _), scan_comma,
      scan_items (w :: more) room hf.2 _ rest h]
    simp

theorem scan_members : ∀ (members : List (Bytes × Json)) (room : Nat), FitsMembers members room →
    ∀ (done : Array Token) (rest : Bytes), Ends rest →
      Scan.run .between done (compactMembers members ++ rest) =
        Scan.run .between (done ++ (tokensOfMembers members).toArray) rest
  | [], _, _, done, rest, _ => by simp [compactMembers, tokensOfMembers]
  | [(key, v)], room, hf, done, rest, h => by
    rw [FitsMembers] at hf
    rw [compactMembers, tokensOfMembers, List.append_assoc, List.append_assoc, scan_key,
      scan_compact v room hf.1 _ rest h]
    simp
  | (key, v) :: m :: more, room, hf, done, rest, h => by
    rw [FitsMembers] at hf
    have hc : compactMembers ((key, v) :: m :: more) =
        quoted .document key ++ (utf8 ":" ++ (v.compact ++ (utf8 "," ++
          compactMembers (m :: more)))) := by
      simp [compactMembers]
    rw [hc, tokensOfMembers, List.append_assoc, List.append_assoc, List.append_assoc,
      List.append_assoc, scan_key, scan_compact v room hf.1 _ _ (ends_comma _), scan_comma,
      scan_members (m :: more) room hf.2 _ rest h]
    simp

end

/-! ## Putting tokens together -/

namespace Parse

/-- A value may come next, though an array may end here as well. -/
def AwaitsValue (p : Parse) : Prop := ∀ t, t ≠ .closeArray → p.take t = p.takeValue t

theorem awaitsValue_value (stack : List Frame) (depth : Nat) :
    AwaitsValue ⟨stack, depth, .value⟩ := fun _ _ => rfl

theorem awaitsValue_first (items : Array Json) (outer : List Frame) (depth : Nat) :
    AwaitsValue ⟨.array items :: outer, depth, .first⟩ := by
  intro t ht
  cases t <;> first | rfl | exact absurd rfl ht

theorem takeAll_cons {p q : Parse} {t : Token} (h : p.take t = some q) (rest : List Token) :
    p.takeAll (t :: rest) = q.takeAll rest := by
  rw [takeAll, h]

/-- A token that is a value of its own. -/
theorem AwaitsValue.complete {p : Parse} (h : p.AwaitsValue) {t : Token} {v : Json}
    (ht : t ≠ .closeArray) (hv : p.takeValue t = Parse.complete v p.stack p.depth)
    (rest : List Token) :
    p.takeAll (t :: rest) = (Parse.complete v p.stack p.depth).bind fun q => q.takeAll rest := by
  rw [takeAll, h t ht, hv]
  cases Parse.complete v p.stack p.depth <;> rfl

/-- Opening an array or an object, when there is room. -/
theorem AwaitsValue.enter {p : Parse} (h : p.AwaitsValue) {t : Token} {frame : Frame}
    (ht : t ≠ .closeArray) (hv : p.takeValue t = p.enter frame) (hd : p.depth < maxDepth)
    (rest : List Token) :
    p.takeAll (t :: rest) =
      takeAll ⟨frame :: p.stack, p.depth + 1, .first⟩ rest := by
  rw [takeAll, h t ht, hv, Parse.enter, if_pos hd]

theorem complete_array (v : Json) (items : Array Json) (outer : List Frame) (depth : Nat) :
    Parse.complete v (.array items :: outer) depth =
      some ⟨.array (items.push v) :: outer, depth, .more⟩ := rfl

theorem complete_member (v : Json) (members : Array (Bytes × Json)) (key : Bytes)
    (outer : List Frame) (depth : Nat) :
    Parse.complete v (.member members key :: outer) depth =
      some ⟨.object (members.push (key, v)) :: outer, depth, .more⟩ := rfl

/-- Closing an array, before its first item or after its last one. -/
theorem takeAll_closeArray {due : Due} (h : due = .first ∨ due = .more) (items : Array Json)
    (outer : List Frame) (depth : Nat) (rest : List Token) :
    takeAll ⟨.array items :: outer, depth, due⟩ (.closeArray :: rest) =
      (Parse.complete (.array items.toList) outer (depth - 1)).bind fun q => q.takeAll rest := by
  have ht : take ⟨.array items :: outer, depth, due⟩ .closeArray =
      Parse.complete (.array items.toList) outer (depth - 1) := by
    rcases h with rfl | rfl <;> rfl
  rw [takeAll, ht]
  cases Parse.complete (.array items.toList) outer (depth - 1) <;> rfl

/-- Closing an object, before its first member or after its last one. -/
theorem takeAll_closeObject {due : Due} (h : due = .first ∨ due = .more)
    (members : Array (Bytes × Json)) (outer : List Frame) (depth : Nat) (rest : List Token) :
    takeAll ⟨.object members :: outer, depth, due⟩ (.closeObject :: rest) =
      (Parse.complete (.object members.toList) outer (depth - 1)).bind fun q => q.takeAll rest := by
  have ht : take ⟨.object members :: outer, depth, due⟩ .closeObject =
      Parse.complete (.object members.toList) outer (depth - 1) := by
    rcases h with rfl | rfl <;> rfl
  rw [takeAll, ht]
  cases Parse.complete (.object members.toList) outer (depth - 1) <;> rfl

/-- A key with its colon. -/
theorem takeAll_key {due : Due} (h : due = .first ∨ due = .key) (members : Array (Bytes × Json))
    (outer : List Frame) (depth : Nat) (key : Bytes) (rest : List Token) :
    takeAll ⟨.object members :: outer, depth, due⟩
        (.string (escape .document key) :: .colon :: rest) =
      takeAll ⟨.member members (mend key) :: outer, depth, .value⟩ rest := by
  rw [← unescape_escape Escaping.isNarrow_document]
  rcases h with rfl | rfl <;> rfl

end Parse

open Parse

mutual

/-- **The tokens of a value** are put together to the value, its texts mended. -/
theorem takeAll_tokens : ∀ (v : Json) (room : Nat), v.Fits room → ∀ (p : Parse),
    p.AwaitsValue → p.depth + room ≤ maxDepth → ∀ rest : List Token,
      p.takeAll (v.tokens ++ rest) =
        (complete v.mended p.stack p.depth).bind fun q => q.takeAll rest
  | .null, _, _, p, hp, _, rest => hp.complete (by simp) rfl rest
  | .bool b, _, _, p, hp, _, rest => hp.complete (by simp) rfl rest
  | .number literal, _, _, p, hp, _, rest => hp.complete (by simp) rfl rest
  | .string text, _, _, p, hp, _, rest => by
    rw [mended, ← unescape_escape Escaping.isNarrow_document]
    exact hp.complete (by simp) rfl rest
  | .array items, room, hf, p, hp, hd, rest => by
    rw [Fits] at hf
    rw [tokens, mended, List.cons_append, List.append_assoc, List.singleton_append,
      hp.enter (by simp) rfl (by omega),
      takeAll_items items (room - 1) hf.2 #[] p.stack (p.depth + 1) .first
        (awaitsValue_first _ _ _) (.inl rfl) (by omega)]
    rfl
  | .object members, room, hf, p, hp, hd, rest => by
    rw [Fits] at hf
    rw [tokens, mended, List.cons_append, List.append_assoc, List.singleton_append,
      hp.enter (by simp) rfl (by omega),
      takeAll_members members (room - 1) hf.2 #[] p.stack (p.depth + 1) .first (.inl rfl)
        (.inl rfl) (by omega)]
    rfl

/-- The tokens of the items of an array that are still to come, and its end. -/
theorem takeAll_items : ∀ (items : List Json) (room : Nat), FitsItems items room →
    ∀ (done : Array Json) (outer : List Frame) (depth : Nat) (due : Due),
      AwaitsValue ⟨.array done :: outer, depth, due⟩ →
      (due = .first ∨ items ≠ []) → depth + room ≤ maxDepth → ∀ rest : List Token,
      takeAll ⟨.array done :: outer, depth, due⟩ (tokensOfItems items ++ .closeArray :: rest) =
        (complete (.array (done.toList ++ mendedItems items)) outer (depth - 1)).bind
          fun q => q.takeAll rest
  | [], _, _, done, outer, depth, due, _, hdue, _, rest => by
    rw [tokensOfItems, mendedItems, List.append_nil, List.nil_append]
    exact takeAll_closeArray (.inl (by simpa using hdue)) done outer depth rest
  | [v], room, hf, done, outer, depth, due, hp, _, hd, rest => by
    rw [FitsItems] at hf
    rw [tokensOfItems, takeAll_tokens v room hf.1 _ hp hd, complete_array, Option.bind_some,
      takeAll_closeArray (.inr rfl), Array.toList_push]
    rfl
  | v :: w :: items, room, hf, done, outer, depth, due, hp, _, hd, rest => by
    rw [FitsItems] at hf
    rw [tokensOfItems, List.append_assoc, List.cons_append, takeAll_tokens v room hf.1 _ hp hd,
      complete_array, Option.bind_some]
    have hcomma : take ⟨.array (done.push v.mended) :: outer, depth, .more⟩ .comma =
        some ⟨.array (done.push v.mended) :: outer, depth, .value⟩ := rfl
    rw [takeAll_cons hcomma, takeAll_items (w :: items) room hf.2 _ outer depth .value
      (awaitsValue_value _ _) (.inr (by simp)) hd, Array.toList_push, List.append_assoc]
    rfl

/-- The tokens of the members of an object that are still to come, and its end. -/
theorem takeAll_members : ∀ (members : List (Bytes × Json)) (room : Nat),
    FitsMembers members room →
    ∀ (done : Array (Bytes × Json)) (outer : List Frame) (depth : Nat) (due : Due),
      (due = .first ∨ due = .key) → (due = .first ∨ members ≠ []) → depth + room ≤ maxDepth →
      ∀ rest : List Token,
      takeAll ⟨.object done :: outer, depth, due⟩
          (tokensOfMembers members ++ .closeObject :: rest) =
        (complete (.object (done.toList ++ mendedMembers members)) outer (depth - 1)).bind
          fun q => q.takeAll rest
  | [], _, _, done, outer, depth, due, _, hdue, _, rest => by
    rw [tokensOfMembers, mendedMembers, List.append_nil, List.nil_append]
    exact takeAll_closeObject (.inl (by simpa using hdue)) done outer depth rest
  | [(key, v)], room, hf, done, outer, depth, due, hdue, _, hd, rest => by
    rw [FitsMembers] at hf
    rw [tokensOfMembers, List.cons_append, List.cons_append, takeAll_key hdue,
      takeAll_tokens v room hf.1 _ (awaitsValue_value _ _) hd, complete_member, Option.bind_some,
      takeAll_closeObject (.inr rfl), Array.toList_push]
    rfl
  | (key, v) :: m :: members, room, hf, done, outer, depth, due, hdue, _, hd, rest => by
    rw [FitsMembers] at hf
    rw [tokensOfMembers, List.cons_append, List.cons_append, List.append_assoc, List.cons_append,
      takeAll_key hdue, takeAll_tokens v room hf.1 _ (awaitsValue_value _ _) hd, complete_member,
      Option.bind_some]
    have hcomma : take ⟨.object (done.push (mend key, v.mended)) :: outer, depth, .more⟩ .comma =
        some ⟨.object (done.push (mend key, v.mended)) :: outer, depth, .key⟩ := rfl
    rw [takeAll_cons hcomma, takeAll_members (m :: members) room hf.2 _ outer depth .key (.inr rfl)
      (.inr (by simp)) hd, Array.toList_push, List.append_assoc]
    rfl

end

/-- A text is read as the value whose tokens it is cut into, its texts mended. -/
theorem parse_of_tokenize {v : Json} (h : v.Fits maxDepth) {text : Bytes}
    (hs : Scan.run .between #[] text = some v.tokens.toArray) : parse text = some v.mended := by
  have ht := takeAll_tokens v maxDepth h {} (awaitsValue_value [] 0)
    (Nat.le_of_eq (Nat.zero_add _)) []
  rw [List.append_nil] at ht
  rw [parse, tokenize, hs]
  simp [ofTokens?, ht, complete, takeAll, value?]

/-- **Reading what was written** gives the value, its texts mended. -/
theorem parse_compact {v : Json} (h : v.Fits maxDepth) : parse v.compact = some v.mended := by
  have hs := scan_compact v maxDepth h #[] [] .nil
  rw [List.append_nil] at hs
  exact parse_of_tokenize h (by simp [hs, Scan.run, Scan.finish?])

end Tapelang.Json
