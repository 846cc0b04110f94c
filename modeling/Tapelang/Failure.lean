import Tapelang.Position

/-! # Failures

Whatever goes wrong ends as a `Failure`: a plain text, a note in front of another failure, or a
`Report` that carries a kind, a code and a place and may name its cause. The rest of the library
has its own error types, one per activity; each has one function into `Failure`, and the wording
of a failure is decided here.
-/

namespace Tapelang

/-- What a reported failure is about. Numbers without a meaning are kept as they are. -/
inductive FailureKind where
  /-- The program text could not be opened or read. -/
  | source
  /-- The loop brackets do not match. -/
  | brackets
  /-- The data pointer left the tape. -/
  | range
  /-- A byte could not be read or written. -/
  | transfer
  /-- A run was stopped. -/
  | runtime
  /-- Something that should not happen. -/
  | internal
  /-- A kind without a name. -/
  | other (number : Int)
  deriving DecidableEq, Repr, Inhabited

namespace FailureKind

/-- The number of a kind. -/
def toInt : FailureKind → Int
  | source => 0
  | brackets => 1
  | range => 2
  | transfer => 3
  | runtime => 4
  | internal => 5
  | other n => n

/-- The kind of a number. -/
def ofInt (n : Int) : FailureKind :=
  if n = 0 then source
  else if n = 1 then brackets
  else if n = 2 then range
  else if n = 3 then transfer
  else if n = 4 then runtime
  else if n = 5 then internal
  else other n

/-- The words for a kind. -/
def name : FailureKind → Bytes
  | source => utf8 "source error"
  | brackets => utf8 "syntax error"
  | range => utf8 "range error"
  | transfer => utf8 "io error"
  | runtime => utf8 "runtime error"
  | internal => utf8 "internal error"
  | other _ => utf8 "error"

end FailureKind

/-- A place in a named file. -/
structure Place where
  filename : Bytes := []
  line : Int := 0
  column : Int := 0
  deriving DecidableEq, Repr, Inhabited

/-- A place is known as soon as its line or its column is not zero. -/
def Place.isKnown (p : Place) : Bool :=
  p.line != 0 || p.column != 0

/-- A failure with a kind, a code and a place. -/
structure Report where
  kind : FailureKind
  code : Bytes
  message : Bytes
  place : Place := {}
  deriving DecidableEq, Repr, Inhabited

/-- `kind: message`, followed by ` (line:column)` when the place is known. -/
def Report.render (r : Report) : Bytes :=
  r.kind.name ++ utf8 ": " ++ r.message ++
    if r.place.isKnown then
      utf8 " (" ++ signed r.place.line ++ utf8 ":" ++ signed r.place.column ++ utf8 ")"
    else []

/-- A failure of any sort. -/
inductive Failure where
  /-- The data came to its end. -/
  | endOfData
  /-- No program was named. -/
  | noSources
  /-- A failure known only by its text. -/
  | text (message : Bytes)
  /-- A failure with a note in front of it. -/
  | noted (note : Bytes) (inner : Failure)
  /-- A reported failure. -/
  | report (report : Report)
  /-- A reported failure that came of another one. -/
  | reportOf (report : Report) (cause : Failure)
  deriving DecidableEq, Repr, Inhabited

namespace Failure

/-- The one-line text of a failure. A cause is not part of it, a note is. -/
def message : Failure → Bytes
  | endOfData => utf8 "EOF"
  | noSources => utf8 "no sources"
  | text message => message
  | noted note inner => note ++ utf8 ": " ++ inner.message
  | report r => r.render
  | reportOf r _ => r.render

/-- The failure right behind this one. -/
def unwrap? : Failure → Option Failure
  | noted _ inner => some inner
  | reportOf _ cause => some cause
  | _ => none

/-- The report of a failure that is itself a reported one. -/
def ownReport? : Failure → Option Report
  | report r => some r
  | reportOf r _ => some r
  | _ => none

/-- The first report along the chain, with its cause. -/
def reported? : Failure → Option (Report × Option Failure)
  | noted _ inner => inner.reported?
  | report r => some (r, none)
  | reportOf r cause => some (r, some cause)
  | _ => none

/-- The kind of the first report along the chain. -/
def kind? (f : Failure) : Option FailureKind :=
  f.reported?.map fun (r, _) => r.kind

/-- Whether the chain has a report and the first one is of kind `k`. -/
def isKind (f : Failure) (k : FailureKind) : Bool :=
  f.kind? == some k

/-- Whether the end of data stands anywhere along the chain. -/
def isEndOfData : Failure → Bool
  | endOfData => true
  | noted _ inner => inner.isEndOfData
  | reportOf _ cause => cause.isEndOfData
  | _ => false

/-- Whether a missing program stands anywhere along the chain. -/
def isNoSources : Failure → Bool
  | noSources => true
  | noted _ inner => inner.isNoSources
  | reportOf _ cause => cause.isNoSources
  | _ => false

end Failure

/-! ## Codes -/

/-- What the codes of this library stand for. -/
def codeDescriptions : List (Bytes × Bytes) :=
  [ (utf8 "E1001", utf8 "could not open source"),
    (utf8 "E1002", utf8 "could not read source"),
    (utf8 "E2001", utf8 "unmatched '['"),
    (utf8 "E2002", utf8 "unmatched ']'"),
    (utf8 "E2003", utf8 "invalid token"),
    (utf8 "E3001", utf8 "data pointer out of range"),
    (utf8 "E3002", utf8 "write failed"),
    (utf8 "E3003", utf8 "read failed"),
    (utf8 "E3004", utf8 "unknown opcode"),
    (utf8 "E3005", utf8 "step limit exceeded"),
    (utf8 "E3006", utf8 "execution halted"),
    (utf8 "E3007", utf8 "internal panic") ]

/-- A few words for a code. -/
def describeCode (code : Bytes) : Bytes :=
  (codeDescriptions.lookup code).getD (utf8 "unknown error")

end Tapelang
