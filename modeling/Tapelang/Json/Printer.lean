import Tapelang.Json.Value
import Tapelang.Json.Text
import Tapelang.Text.Ink

/-! # Writing JSON

Three layouts: `compact` without blanks, `indented` with two blanks for each level, and `painted`,
which is indented, coloured and sorted by key.
-/

namespace Tapelang.Json

open Text

/-! ## Compact -/

mutual

/-- A value without blanks. -/
def compact : Json → Bytes
  | .null => utf8 "null"
  | .bool true => utf8 "true"
  | .bool false => utf8 "false"
  | .number literal => literal
  | .string text => quoted .document text
  | .array items => utf8 "[" ++ compactItems items ++ utf8 "]"
  | .object members => utf8 "\x7b" ++ compactMembers members ++ utf8 "\x7d"

/-- Items with commas between them. -/
def compactItems : List Json → Bytes
  | [] => []
  | [v] => v.compact
  | v :: rest => v.compact ++ utf8 "," ++ compactItems rest

/-- Members with commas between them. -/
def compactMembers : List (Bytes × Json) → Bytes
  | [] => []
  | [(key, v)] => quoted .document key ++ utf8 ":" ++ v.compact
  | (key, v) :: rest =>
    quoted .document key ++ utf8 ":" ++ v.compact ++ utf8 "," ++ compactMembers rest

end

/-! ## Indented -/

/-- A new line at a level. -/
def lineAt (level : Nat) : Bytes := 10 :: List.replicate (2 * level) 32

mutual

/-- A value at a level, its parts on lines of their own. -/
def indentedAt (level : Nat) : Json → Bytes
  | .array [] => utf8 "[]"
  | .object [] => utf8 "\x7b\x7d"
  | .array (v :: rest) =>
    utf8 "[" ++ lineAt (level + 1) ++ indentedAt (level + 1) v ++ indentedItems (level + 1) rest ++
      lineAt level ++ utf8 "]"
  | .object ((key, v) :: rest) =>
    utf8 "\x7b" ++ lineAt (level + 1) ++ quoted .document key ++ utf8 ": " ++
      indentedAt (level + 1) v ++ indentedMembers (level + 1) rest ++ lineAt level ++ utf8 "\x7d"
  | .null => utf8 "null"
  | .bool true => utf8 "true"
  | .bool false => utf8 "false"
  | .number literal => literal
  | .string text => quoted .document text

/-- The items after the first, each on a line of its own. -/
def indentedItems (level : Nat) : List Json → Bytes
  | [] => []
  | v :: rest => utf8 "," ++ lineAt level ++ indentedAt level v ++ indentedItems level rest

/-- The members after the first, each on a line of its own. -/
def indentedMembers (level : Nat) : List (Bytes × Json) → Bytes
  | [] => []
  | (key, v) :: rest =>
    utf8 "," ++ lineAt level ++ quoted .document key ++ utf8 ": " ++ indentedAt level v ++
      indentedMembers level rest

end

/-- A value with two blanks for each level. -/
def indented (v : Json) : Bytes := v.indentedAt 0

/-! ## Painted -/

/-- The colour of keys. -/
def keyInk : Ink := ⟨"34;1", "0;22"⟩

/-- The colour of strings. -/
def stringInk : Ink := ⟨"32;1", "0;22"⟩

/-- The colour of numbers. -/
def numberInk : Ink := ⟨"36;1", "0;22"⟩

/-- The colour of truth values. -/
def boolInk : Ink := ⟨"33;1", "0;22"⟩

/-- The colour of the missing value. -/
def nullInk : Ink := ⟨"30;1", "0;22"⟩

/-- The lines of an array or object between its marks, or the marks alone. -/
def bracketed (level : Nat) (opening closing : Bytes) (lines : List Bytes) : Bytes :=
  if lines.isEmpty then opening ++ closing
  else
    opening ++ lineAt (level + 1) ++ Bytes.join (utf8 "," ++ lineAt (level + 1)) lines ++
      lineAt level ++ closing

mutual

/-- A value at a level, in colour and with sorted keys. -/
def paintedAt (level : Nat) : Json → Bytes
  | .null => nullInk.paint (utf8 "null")
  | .bool b => boolInk.paint (utf8 (if b then "true" else "false"))
  | .number literal => numberInk.paint literal
  | .string text => stringInk.paint (quoted .shown text)
  | .array items => bracketed level (utf8 "[") (utf8 "]") (paintedItems (level + 1) items)
  | .object members =>
    let lines := (paintedMembers (level + 1) members).mergeSort fun a b => Bytes.le a.1 b.1
    bracketed level (utf8 "\x7b") (utf8 "\x7d") (lines.map (·.2))

/-- The lines of items. -/
def paintedItems (level : Nat) : List Json → List Bytes
  | [] => []
  | v :: rest => paintedAt level v :: paintedItems level rest

/-- The lines of members, with their keys. -/
def paintedMembers (level : Nat) : List (Bytes × Json) → List (Bytes × Bytes)
  | [] => []
  | (key, v) :: rest =>
    (key, keyInk.paint (utf8 "\"" ++ key ++ utf8 "\"") ++ utf8 ": " ++ paintedAt level v) ::
      paintedMembers level rest

end

/-- A value in colour and with sorted keys. -/
def painted (v : Json) : Bytes := v.paintedAt 0

end Tapelang.Json
