import Tapelang.Shell.Session
import Std.Time.Format

/-! # The program

Reads the arguments, the environment and the files that a session needs, runs the session, and
copies what it writes to the standard streams. Input is asked for only when the machine has used
up what has come, and everything written before is shown first.
-/

namespace Tapelang.Shell

/-- The name of a file as the system takes it. -/
def systemName (path : Bytes) : Option String :=
  String.fromUTF8? ⟨path.toArray⟩

/-- Why the system refused to open a file. -/
def openFaultOf : IO.Error → OpenFault
  | .noFileOrDirectory .. => .missing
  | .inappropriateType .. => .notFolder
  | .permissionDenied .. => .denied
  | .invalidArgument .. => .malformed
  | _ => .missing

/-- Opens a file and reads all of it; what cannot be read is taken for a folder. -/
def loadFile (path : Bytes) : IO (Except OpenFault Feed) := do
  match systemName path with
  | none => return .error .missing
  | some name =>
    match ← (IO.FS.Handle.mk name .read).toBaseIO with
    | .error e => return .error (openFaultOf e)
    | .ok handle =>
      match ← handle.readBinToEnd.toBaseIO with
      | .error _ => return .ok (folderFeed path)
      | .ok content => return .ok (fileFeed content.toList)

/-- The variables of the environment that have a value. -/
def readEnvironment (names : List Bytes) : IO Environment := do
  let found ← names.mapM fun name => do
    match systemName name with
    | none => return none
    | some text => return (← IO.getEnv text).map fun value => (name, utf8 value)
  return found.filterMap id

/-- The text of a file that could be opened. -/
def loadedText (file : Except OpenFault Feed) : Option Bytes :=
  file.toOption.bind fun feed => feed.contents.toOption

/-- The time of day and the date with it, as logs show them. -/
def readClock : IO (Bytes × Bytes) := do
  let now ← Std.Time.Timestamp.now
  let date := Std.Time.DateTime.ofTimestampWithZone now Std.Time.TimeZone.UTC
  return (utf8 (date.format "h:mma"), utf8 (date.format "uuuu-MM-dd'T'HH:mm:ss'Z'"))

/-- Copies bytes to a stream. -/
def copyTo (stream : IO.FS.Stream) (bytes : Array UInt8) : IO Unit := do
  if !bytes.isEmpty then
    stream.write ⟨bytes⟩
    stream.flush

/-- What a machine has written, whether it has been sent or is held back. -/
def written {σ : Type} (m : Machine σ) : Array UInt8 :=
  m.core.output.sink.taken ++ m.core.output.buffer

/-- Runs a machine to its end, with `shown` bytes of output and `logged` bytes of its log copied
already. -/
partial def drive (setup : Setup (Array UInt8)) (m : Machine (Array UInt8)) (shown logged : Nat) :
    IO (Machine (Array UInt8) × Stop × Nat × Nat) := do
  let (m, stop) := runToInput setup 100000 m
  let out := written m
  copyTo (← IO.getStdout) (out.extract shown)
  copyTo (← IO.getStderr) (m.watch.extract logged)
  match stop with
  | some stop => return (m, stop, out.size, m.watch.size)
  | none =>
    if awaitsInput setup m then
      let bytes ← (← IO.getStdin).read blockSize.toUSize
      if bytes.isEmpty then
        let (m, stop) := m.runFor setup 1
        match stop with
        | some stop => return (m, stop, out.size, m.watch.size)
        | none => drive setup m out.size m.watch.size
      else drive setup (withInput m bytes.toList) out.size m.watch.size
    else drive setup m out.size m.watch.size

/-- Runs a session and gives its exit code. -/
def runProgram (arguments : List Bytes) : IO UInt32 := do
  let home := utf8 ((← IO.getEnv "HOME").getD "")
  let files ← (pathsNeeded home arguments).mapM fun path => do
    let file ← loadFile path
    return (path, file)
  let environment ← readEnvironment (variablesNeeded (files.filterMap fun (_, f) => loadedText f))
  let (clock, stamp) ← readClock
  let term ← IO.getEnv "TERM"
  let out ← IO.getStdout
  let err ← IO.getStderr
  let world : World :=
    { openFile := fun path => (files.lookup path).getD (.error .missing)
      home, environment, clock, stamp
      outTerminal := (← out.isTty) && term != some "dumb", errTerminal := ← err.isTty }
  match start world arguments with
  | .ended outcome =>
    copyTo out outcome.out.toArray
    copyTo err outcome.err.toArray
    return outcome.exit.toUInt32
  | .ready before colour setup machine =>
    copyTo err before.toArray
    let (machine, stop, shown, logged) ← drive setup machine 0 0
    let outcome := finish [] colour machine stop
    copyTo out (outcome.out.toArray.extract shown)
    copyTo err (outcome.err.toArray.extract logged)
    return outcome.exit.toUInt32

end Tapelang.Shell

/-- Runs the program with its arguments. -/
def main (arguments : List String) : IO UInt32 :=
  Tapelang.Shell.runProgram (arguments.map Tapelang.utf8)
