import Tapelang.Proofs.JsonRoundTrip

/-!
# Values on lines of their own

Between tokens, blanks make no difference (`Json.scan_line`). So a value with its parts on lines of
their own is cut into the same tokens as without blanks (`Json.scan_indented`), and `parse` gives
back what `indented` wrote, also with blanks behind it (`Json.parse_indented`).
-/

namespace Tapelang.Json

open Text

/-! ## Blanks -/

theorem scan_blank {b : UInt8} (h : isBlank b = true) (done : Array Token) (rest : Bytes) :
    Scan.run .between done (b :: rest) = Scan.run .between done rest := by
  rw [Scan.run, Scan.step, Scan.begin, if_pos h]

theorem scan_blanks {blanks : Bytes} (h : ∀ b ∈ blanks, isBlank b = true) (done : Array Token)
    (rest : Bytes) : Scan.run .between done (blanks ++ rest) = Scan.run .between done rest := by
  induction blanks with
  | nil => rfl
  | cons b blanks ih =>
    rw [List.cons_append, scan_blank (h b List.mem_cons_self),
      ih fun b' hb => h b' (List.mem_cons_of_mem b hb)]

theorem isBlank_lineAt (level : Nat) : ∀ b ∈ lineAt level, isBlank b = true := by
  intro b hb
  rcases List.mem_cons.1 hb with rfl | hb
  · decide
  · rw [List.eq_of_mem_replicate hb]
    decide

/-- **A new line** makes no token, at whatever level. -/
theorem scan_line (level : Nat) (done : Array Token) (rest : Bytes) :
    Scan.run .between done (lineAt level ++ rest) = Scan.run .between done rest :=
  scan_blanks (isBlank_lineAt level) done rest

/-- No number and no word goes on over a blank. -/
theorem Ends.blank {b : UInt8} (h : isBlank b = true) (rest : Bytes) : Ends (b :: rest) := by
  simp only [isBlank, Bool.or_eq_true, beq_iff_eq] at h
  rcases h with ((rfl | rfl) | rfl) | rfl <;> exact .cons (by decide) (by decide)

theorem ends_line (level : Nat) (rest : Bytes) : Ends (lineAt level ++ rest) :=
  .blank (by decide) _

/-! ## Tokens of the parts -/

/-- The tokens of a member. -/
def memberTokens (member : Bytes × Json) : List Token :=
  .string (escape .document member.1) :: .colon :: member.2.tokens

theorem tokensOfItems_cons (v : Json) (rest : List Json) :
    tokensOfItems (v :: rest) = v.tokens ++ rest.flatMap fun w => .comma :: w.tokens := by
  induction rest generalizing v with
  | nil => rw [tokensOfItems, List.flatMap_nil, List.append_nil]
  | cons w rest ih => rw [tokensOfItems, ih, List.flatMap_cons, List.cons_append]

theorem tokensOfMembers_cons (member : Bytes × Json) (rest : List (Bytes × Json)) :
    tokensOfMembers (member :: rest) =
      memberTokens member ++ rest.flatMap fun m => .comma :: memberTokens m := by
  induction rest generalizing member with
  | nil => simp [tokensOfMembers, memberTokens]
  | cons m rest ih => simp [tokensOfMembers, memberTokens, ih]

/-! ## Scanning -/

theorem ends_indentedItems {rest : Bytes} (h : Ends rest) (level : Nat) (items : List Json) :
    Ends (indentedItems level items ++ rest) := by
  cases items with
  | nil => exact h
  | cons v items => exact .cons (by decide) (by decide)

theorem ends_indentedMembers {rest : Bytes} (h : Ends rest) (level : Nat)
    (members : List (Bytes × Json)) : Ends (indentedMembers level members ++ rest) := by
  cases members with
  | nil => exact h
  | cons m members => exact .cons (by decide) (by decide)

/-- A key with its colon and a blank is two tokens. -/
theorem scan_key_blank (key : Bytes) (done : Array Token) (rest : Bytes) :
    Scan.run .between done (quoted .document key ++ (utf8 ": " ++ rest)) =
      Scan.run .between (done ++ #[.string (escape .document key), .colon]) rest := by
  have hcolon : utf8 ": " ++ rest = utf8 ":" ++ 32 :: rest := rfl
  rw [hcolon, scan_key, scan_blank (by decide)]

mutual

/-- **A value on lines of its own** is cut into its tokens. -/
theorem scan_indented : ∀ (v : Json) (level room : Nat), v.Fits room →
    ∀ (done : Array Token) (rest : Bytes), Ends rest →
      Scan.run .between done (v.indentedAt level ++ rest) =
        Scan.run .between (done ++ v.tokens.toArray) rest
  -- a value without parts is written as it is without blanks
  | .null, _, room, hf, done, rest, h => by
    rw [indentedAt]
    exact scan_compact .null room hf done rest h
  | .bool true, _, room, hf, done, rest, h => by
    rw [indentedAt]
    exact scan_compact (.bool true) room hf done rest h
  | .bool false, _, room, hf, done, rest, h => by
    rw [indentedAt]
    exact scan_compact (.bool false) room hf done rest h
  | .number literal, _, room, hf, done, rest, h => by
    rw [indentedAt]
    exact scan_compact (.number literal) room hf done rest h
  | .string text, _, room, hf, done, rest, h => by
    rw [indentedAt]
    exact scan_compact (.string text) room hf done rest h
  | .array [], _, room, hf, done, rest, h => by
    rw [indentedAt]
    exact scan_compact (.array []) room hf done rest h
  | .object [], _, room, hf, done, rest, h => by
    rw [indentedAt]
    exact scan_compact (.object []) room hf done rest h
  | .array (v :: items), level, room, hf, done, rest, _ => by
    rw [Fits, FitsItems] at hf
    obtain ⟨-, hv, hitems⟩ := hf
    have hend := ends_line level (utf8 "]" ++ rest)
    rw [indentedAt, tokens, tokensOfItems_cons]
    simp only [List.append_assoc]
    rw [scan_openArray, scan_line, scan_indented v _ _ hv _ _ (ends_indentedItems hend _ items),
      scan_indentedItems items _ _ hitems _ _ hend, scan_line, scan_closeArray]
    simp
  | .object ((key, v) :: members), level, room, hf, done, rest, _ => by
    rw [Fits, FitsMembers] at hf
    obtain ⟨-, hv, hmembers⟩ := hf
    have hend := ends_line level (utf8 "\x7d" ++ rest)
    rw [indentedAt, tokens, tokensOfMembers_cons, memberTokens]
    simp only [List.append_assoc]
    rw [scan_openObject, scan_line, scan_key_blank,
      scan_indented v _ _ hv _ _ (ends_indentedMembers hend _ members),
      scan_indentedMembers members _ _ hmembers _ _ hend, scan_line, scan_closeObject]
    simp

theorem scan_indentedItems : ∀ (items : List Json) (level room : Nat), FitsItems items room →
    ∀ (done : Array Token) (rest : Bytes), Ends rest →
      Scan.run .between done (indentedItems level items ++ rest) =
        Scan.run .between (done ++ (items.flatMap fun v => .comma :: v.tokens).toArray) rest
  | [], _, _, _, done, rest, _ => by simp [indentedItems]
  | v :: items, level, room, hf, done, rest, h => by
    rw [FitsItems] at hf
    rw [indentedItems]
    simp only [List.append_assoc]
    rw [scan_comma, scan_line, scan_indented v _ _ hf.1 _ _ (ends_indentedItems h _ items),
      scan_indentedItems items _ _ hf.2 _ _ h]
    simp

theorem scan_indentedMembers : ∀ (members : List (Bytes × Json)) (level room : Nat),
    FitsMembers members room → ∀ (done : Array Token) (rest : Bytes), Ends rest →
      Scan.run .between done (indentedMembers level members ++ rest) =
        Scan.run .between (done ++ (members.flatMap fun m => .comma :: memberTokens m).toArray) rest
  | [], _, _, _, done, rest, _ => by simp [indentedMembers]
  | (key, v) :: members, level, room, hf, done, rest, h => by
    rw [FitsMembers] at hf
    rw [indentedMembers]
    simp only [List.append_assoc]
    rw [scan_comma, scan_line, scan_key_blank,
      scan_indented v _ _ hf.1 _ _ (ends_indentedMembers h _ members),
      scan_indentedMembers members _ _ hf.2 _ _ h]
    simp [memberTokens]

end

/-- **Reading what was written on lines** gives the value, its texts mended. -/
theorem parse_indented {v : Json} (h : v.Fits maxDepth) {blanks : Bytes}
    (hb : ∀ b ∈ blanks, isBlank b = true) : parse (v.indented ++ blanks) = some v.mended := by
  have hend : Ends blanks := by
    cases blanks with
    | nil => exact .nil
    | cons b rest => exact .blank (hb b List.mem_cons_self) rest
  have hnone := scan_blanks hb v.tokens.toArray []
  have hs := scan_indented v 0 maxDepth h #[] blanks hend
  rw [List.append_nil] at hnone
  refine parse_of_tokenize h ?_
  rw [indented, hs]
  simp [hnone, Scan.run, Scan.finish?]

end Tapelang.Json
