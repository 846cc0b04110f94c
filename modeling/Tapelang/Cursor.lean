import Tapelang.Reader
import Tapelang.Command
import Tapelang.FileTree

/-! # Reading a program text

A cursor walks over the bytes of a program text and knows the position of the byte that it last
passed. `Cursor.token` goes on to the next command and skips comments.

Main facts: every byte passed is one byte less to come (`size_add_left_next`), and so is every
command (`left_token_lt`).
-/

namespace Tapelang

/-- A place in a program text that is being read. -/
structure Cursor where
  reader : Reader
  /-- The position of the last byte passed. -/
  position : Position := .start
  /-- Whether the last byte passed was a newline. -/
  fresh : Bool := false
  /-- The file that the text comes from; empty for a text without a file. -/
  filename : Bytes := []
  deriving Repr, Inhabited

/-- What is found on the way through a program text. -/
inductive Lexeme where
  | command (c : Command)
  | ending
  | fault (why : ReadFault)
  deriving DecidableEq, Repr, Inhabited

/-- The written name of a lexeme. -/
def Lexeme.name : Lexeme → Bytes
  | command c => [c.toByte]
  | ending => utf8 "EOF"
  | fault _ => utf8 "NONE"

/-- A lexeme and the position of the last byte passed when it was found. -/
structure Token where
  lexeme : Lexeme
  position : Position
  deriving DecidableEq, Repr, Inhabited

/-- The failure to read a program text. -/
def ReadFault.whileReadingSource (why : ReadFault) : Failure :=
  .reportOf ⟨.source, utf8 "E1002", utf8 "could not read source", {}⟩ why.toFailure

/-- The failure to open the program text called `path`. -/
def OpenFault.whileOpeningSource (path : Bytes) (why : OpenFault) : Failure :=
  .reportOf ⟨.source, utf8 "E1001", utf8 "could not open file: " ++ path, {}⟩
    (why.toFailure path)

namespace Cursor

/-- A cursor at the start of a feed without a file name. -/
def ofFeed (feed : Feed) : Cursor := { reader := .ofFeed feed }

/-- A cursor at the start of a text in memory. -/
def ofBytes (text : Bytes) : Cursor := ofFeed (.ofBytes text)

/-- A cursor at the start of the file called `path`. -/
def openFile (tree : Bytes → Except OpenFault Feed) (path : Bytes) : Except OpenFault Cursor :=
  (tree path).map fun feed => { reader := .ofFeed feed, filename := path }

/-- The bytes still to come. -/
def left (c : Cursor) : Nat := c.reader.left

/-- Passes the next byte. -/
def next (c : Cursor) : Arrival × Cursor :=
  match c.reader.next with
  | (.byte b, reader) =>
    (.byte b, { c with reader, position := c.position.following c.fresh, fresh := b == newline })
  | (arrival, reader) => (arrival, { c with reader })

theorem size_add_left_next (c : Cursor) : c.next.1.size + c.next.2.left = c.left := by
  have h := Reader.size_add_left_next c.reader
  rcases hr : c.reader.next with ⟨arrival, reader⟩
  rw [hr] at h
  cases arrival <;> simpa [next, hr, left] using h

/-- Goes on to the next command, the end or a failure, over any comments. -/
def token (c : Cursor) : Token × Cursor :=
  match _h : c.next with
  | (.byte b, c') =>
    match Command.ofByte? b with
    | some command => (⟨.command command, c'.position⟩, c')
    | none => c'.token
  | (.ending, c') => (⟨.ending, c'.position⟩, c')
  | (.fault why, c') => (⟨.fault why, c'.position⟩, c')
termination_by c.left
decreasing_by
  have h := size_add_left_next c
  simp only [_h, Arrival.size] at h
  omega

/-- The text has no more bytes to come after a command than before it, and one less at least. -/
theorem left_token_lt {c : Cursor} {command : Command} (h : c.token.1.lexeme = .command command) :
    c.token.2.left < c.left := by
  fun_induction token c with
  | case1 c b c' hn command' hb =>
    have hl := size_add_left_next c
    simp only [hn, Arrival.size] at hl
    simp only
    omega
  | case2 c b c' hn hb ih =>
    have hl := size_add_left_next c
    simp only [hn, Arrival.size] at hl
    have := ih h
    omega
  | case3 => simp at h
  | case4 => simp at h

/-- Closes the file of a text. Bytes in the buffer can still be read, and after them every
request fails. A text without a file has nothing to close. -/
def close (c : Cursor) : Cursor :=
  if c.filename.isEmpty then c
  else { c with reader := { c.reader with feed := closedFeed c.filename } }

end Cursor

end Tapelang
