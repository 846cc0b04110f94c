import Tapelang.Failure
import Tapelang.Text.Ink
import Tapelang.FileTree

/-! # Diagnostics

A failure as one line for the user: a title, the place if it is known, the severity and the
message.
-/

namespace Tapelang

/-- How serious a diagnostic is. -/
inductive Severity where
  | info
  | warning
  | error
  | fatal
  deriving DecidableEq, Repr, Inhabited

namespace Severity

/-- The severity of a number; a number without a meaning is an error. -/
def ofInt (n : Int) : Severity :=
  if n = 0 then info else if n = 1 then warning else if n = 3 then fatal else error

/-- The word for a severity. -/
def name : Severity → Bytes
  | info => utf8 "info"
  | warning => utf8 "warning"
  | error => utf8 "error"
  | fatal => utf8 "fatal error"

/-- The colour of a severity. -/
def ink : Severity → Text.Ink
  | info => ⟨"32;1", "0;22"⟩
  | warning => ⟨"33;1", "0;22"⟩
  | error | fatal => ⟨"31;1", "0;22"⟩

end Severity

/-- The last part of a path. Slashes at its end do not count; a path of slashes only is `/`, and
no path has no last part. -/
def lastPart (path : Bytes) : Bytes :=
  if path.isEmpty then []
  else
    match ((path.splitOn FileTree.slash).filter (· ≠ [])).getLast? with
    | some part => part
    | none => utf8 "/"

/-- How diagnostics are written. -/
structure Diagnostics where
  title : Bytes := utf8 "bfvm"
  /-- The program that a place without a file name belongs to. -/
  program : Bytes := []
  colour : Bool := false
  deriving DecidableEq, Repr, Inhabited

namespace Diagnostics

/-- The title that stands in for an empty one. -/
def defaultTitle : Bytes := utf8 "bfvm"

/-- Diagnostics about the program at a path. -/
def forPath (path : Bytes) (colour : Bool) : Diagnostics :=
  { title := defaultTitle, program := lastPart path, colour }

/-- The colour of titles and places. -/
def titleInk : Text.Ink := ⟨"37;1", "0;22"⟩

/-- A line. -/
def line (d : Diagnostics) (severity : Severity) (place : Option Place) (message : Bytes) :
    Bytes :=
  let title := if d.title.isEmpty then defaultTitle else d.title
  titleInk.paintIf d.colour (title ++ utf8 ": ") ++
    (match place with
      | none => []
      | some p =>
        let program := if p.filename.isEmpty then d.program else lastPart p.filename
        titleInk.paintIf d.colour
          (program ++ utf8 ":" ++ signed p.line ++ utf8 ":" ++ signed p.column ++ utf8 ": ")) ++
    severity.ink.paintIf d.colour (severity.name ++ utf8 ": ") ++ message

/-- The line of a failure. A report along its chain speaks for it. -/
def render (d : Diagnostics) (severity : Severity) (f : Failure) : Bytes :=
  match f.reported? with
  | some (r, _) => d.line severity (if r.place.isKnown then some r.place else none) r.message
  | none => d.line severity none f.message

end Diagnostics

/-- The line that reports a failure at the end of the program; a missing program is fatal. -/
def reportLine (colour : Bool) (f : Failure) : Bytes :=
  (Diagnostics.forPath [] colour).render (if f.isNoSources then .fatal else .error) f ++ utf8 "\n"

end Tapelang
