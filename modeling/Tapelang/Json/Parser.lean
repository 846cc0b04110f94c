import Tapelang.Json.Value
import Tapelang.Json.Text
import Tapelang.Json.Token

/-! # Reading JSON

`Json.parse` makes a value of a text, or refuses it. Tokens are taken one at a time, with a stack
of the arrays and objects that are open; at most `maxDepth` may be open at once.
-/

namespace Tapelang.Json

/-- The most arrays and objects that may be inside each other. -/
def maxDepth : Nat := 10000

/-- An array or object that is open, with what it holds so far. -/
inductive Frame where
  | array (items : Array Json)
  | object (members : Array (Bytes × Json))
  /-- An object whose member `key` waits for its value. -/
  | member (members : Array (Bytes × Json)) (key : Bytes)
  deriving Repr, Inhabited

/-- What may come next. -/
inductive Due where
  /-- A value. -/
  | value
  /-- The first item or key, or the end of what was just opened. -/
  | first
  /-- A key. -/
  | key
  /-- The colon after a key. -/
  | colon (key : Bytes)
  /-- A comma, or the end of what is open. -/
  | more
  /-- Nothing: the value is complete. -/
  | nothing (value : Json)
  deriving Repr, Inhabited

/-- A value that is being read: what is open, innermost first, how much that is, and what may come
next. -/
structure Parse where
  stack : List Frame := []
  depth : Nat := 0
  due : Due := .value
  deriving Repr, Inhabited

namespace Parse

/-- Puts a complete value where it belongs. -/
def complete (v : Json) (stack : List Frame) (depth : Nat) : Option Parse :=
  match stack with
  | [] => some ⟨[], depth, .nothing v⟩
  | .array items :: outer => some ⟨.array (items.push v) :: outer, depth, .more⟩
  | .member members key :: outer => some ⟨.object (members.push (key, v)) :: outer, depth, .more⟩
  | .object _ :: _ => none

/-- Opens an array or an object. -/
def enter (p : Parse) (frame : Frame) : Option Parse :=
  if p.depth < maxDepth then some ⟨frame :: p.stack, p.depth + 1, .first⟩ else none

/-- Takes a token that begins a value. -/
def takeValue (p : Parse) : Token → Option Parse
  | .null => complete .null p.stack p.depth
  | .bool b => complete (.bool b) p.stack p.depth
  | .number literal => complete (.number literal) p.stack p.depth
  | .string raw => complete (.string (unescape raw)) p.stack p.depth
  | .openArray => p.enter (.array #[])
  | .openObject => p.enter (.object #[])
  | _ => none

/-- Takes a token. -/
def take (p : Parse) (t : Token) : Option Parse :=
  match p.due, p.stack, t with
  | .value, _, t => p.takeValue t
  | .first, .array items :: outer, .closeArray =>
    complete (.array items.toList) outer (p.depth - 1)
  | .first, .array _ :: _, t => p.takeValue t
  | .first, .object members :: outer, .closeObject =>
    complete (.object members.toList) outer (p.depth - 1)
  | .first, .object _ :: _, .string raw => some { p with due := .colon (unescape raw) }
  | .key, .object _ :: _, .string raw => some { p with due := .colon (unescape raw) }
  | .colon key, .object members :: outer, .colon =>
    some { p with stack := .member members key :: outer, due := .value }
  | .more, .array _ :: _, .comma => some { p with due := .value }
  | .more, .array items :: outer, .closeArray =>
    complete (.array items.toList) outer (p.depth - 1)
  | .more, .object _ :: _, .comma => some { p with due := .key }
  | .more, .object members :: outer, .closeObject =>
    complete (.object members.toList) outer (p.depth - 1)
  | _, _, _ => none

/-- Takes tokens one after the other. -/
def takeAll (p : Parse) : List Token → Option Parse
  | [] => some p
  | t :: rest =>
    match p.take t with
    | none => none
    | some p => p.takeAll rest

/-- The value, if it is complete. -/
def value? (p : Parse) : Option Json :=
  match p.due with
  | .nothing v => some v
  | _ => none

end Parse

/-- The value of a sequence of tokens. -/
def ofTokens? (tokens : List Token) : Option Json :=
  (Parse.takeAll {} tokens).bind Parse.value?

/-- The value of a text. -/
def parse (text : Bytes) : Option Json :=
  (tokenize text).bind ofTokens?

end Tapelang.Json
