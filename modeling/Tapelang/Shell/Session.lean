import Tapelang.Shell.Completion
import Tapelang.Shell.Help
import Tapelang.Shell.Settings
import Tapelang.Engine
import Tapelang.Disassembly
import Tapelang.Diagnostic
import Tapelang.Log

/-! # Sessions

What the program does with its arguments. `start` goes as far as it can without running anything:
it finds the verb, reads the flags, loads the configuration file, checks the words and the log
level, in this order, and then either has an outcome or has a machine ready to run. `finish` makes
an outcome of a machine that has stopped.
-/

namespace Tapelang.Shell

/-- What the program sees of its surroundings. -/
structure World where
  openFile : Bytes → Except OpenFault Feed
  /-- The user's own folder. -/
  home : Bytes := []
  environment : Environment := []
  input : Feed := {}
  /-- The time on log lines. -/
  clock : Bytes := []
  /-- The date and time in JSON log lines. -/
  stamp : Bytes := []
  /-- Whether output goes to a terminal that can show colours. -/
  outTerminal : Bool := false
  /-- Whether messages go to a terminal. -/
  errTerminal : Bool := false

/-- What the program leaves behind. -/
structure Outcome where
  exit : Nat
  out : Bytes := []
  err : Bytes := []
  deriving DecidableEq, Repr, Inhabited

/-- A session after its start. -/
inductive Session where
  | ended (outcome : Outcome)
  /-- A machine is ready, and `err` has been written. The machine's observer keeps a log. -/
  | ready (err : Bytes) (colour : Bool) (setup : Setup (Array UInt8))
      (machine : Machine (Array UInt8))

/-- The program that words name. -/
def sourcePath : List Bytes → Except Failure Bytes
  | path :: _ => if path.isEmpty then .error .noSources else .ok path
  | [] => .error .noSources

/-! ## The configuration file -/

/-- The text of a file. -/
def World.readFile (w : World) (path : Bytes) : Except Failure Bytes :=
  match w.openFile path with
  | .error why => .error (why.toFailure path)
  | .ok feed => feed.contents.mapError ReadFault.toFailure

/-- The letters behind the last point of the last part of a path. -/
def extension (path : Bytes) : Bytes :=
  let last := ((path.splitOn FileTree.slash).getLast?).getD []
  if last.contains 46 then (last.reverse.takeWhile (· ≠ 46)).reverse else []

/-- What came of the configuration file. -/
inductive Loading where
  | none
  | used (path : Bytes) (configuration : Configuration)
  /-- It cannot be read, but nobody asked for it. -/
  | ignored (why : Failure)
  /-- It cannot be read, and it was asked for. -/
  | failed (why : Failure)
  deriving Repr, Inhabited

/-- A failure to read the configuration file. -/
def configurationFailure (why : Failure) : Failure :=
  .noted (utf8 "could not read config file") why

/-- The failure to understand a configuration file. -/
def FormatFault.toFailure (why : FormatFault) : Failure :=
  configurationFailure (.text (utf8 "While parsing config: " ++ why.reason))

/-- Loads the configuration file that was asked for. -/
def loadNamed (w : World) (path : Bytes) : Loading :=
  let kind := extension path
  match Format.ofKind? kind with
  | none =>
    .failed (configurationFailure (.text (utf8 "Unsupported Config Type " ++ Text.quote kind)))
  | some format =>
    match w.readFile path with
    | .error why => .failed (configurationFailure why)
    | .ok text =>
      match format.read w.environment text with
      | .error why => .failed why.toFailure
      | .ok configuration => .used path configuration

/-- Where a configuration file that nobody asked for may be, in order of preference. -/
def defaultPaths (home : Bytes) : List Bytes :=
  let base := (home.reverse.dropWhile (· == FileTree.slash)).reverse ++ utf8 "/.bfvm"
  (formatNames.map fun (kind, _) => base ++ utf8 "." ++ utf8 kind) ++ [base]

/-- Loads the first configuration file that there is in the user's own folder. It is YAML, whatever
its name. -/
def loadDefault (w : World) : Loading :=
  let found := (defaultPaths w.home).findSome? fun path =>
    match w.readFile path with
    | .ok text => some (path, text)
    | .error _ => none
  match found with
  | none => .none
  | some (path, text) =>
    match Format.yaml.read w.environment text with
    | .error why => .ignored why.toFailure
    | .ok configuration => .used path configuration

/-- Loads the configuration file. -/
def loadConfiguration (w : World) (a : Arguments) : Loading :=
  match a.value? "config" with
  | some (b :: path) => loadNamed w (b :: path)
  | _ => loadDefault w

/-- Every file that a session with these arguments may open. -/
def pathsNeeded (home : Bytes) (arguments : List Bytes) : List Bytes :=
  let (verb, rest) := Verb.find arguments
  match readArguments verb.flags rest with
  | .error _ => []
  | .ok a =>
    a.words ++
      match a.value? "config" with
      | some (b :: path) => [b :: path]
      | _ => defaultPaths home

/-- Every variable of the environment that a session may look at, given the texts of its files. -/
def variablesNeeded (texts : List Bytes) : List Bytes :=
  [ "BFVM_NO_COLOR", "NO_COLOR", "BFVM_TRACE", "BFVM_LOG_LEVEL", "BFVM_STEP_LIMIT",
    "BFVM_COMPLETION_DESCRIPTIONS", "COBRA_COMPLETION_DESCRIPTIONS" ].map utf8 ++
    texts.flatMap Dotenv.mentioned

/-! ## Verbs -/

/-- The outcome of a failure, after `err` has been written. -/
def Outcome.ofFailure (err : Bytes) (colour : Bool) (f : Failure) : Outcome :=
  { exit := 1, err := err ++ reportLine colour f }

/-- The outcome of a success. -/
def Outcome.ofOutput (err out : Bytes) : Outcome := { exit := 0, out, err }

/-- The version of the program. -/
def versionFields : List (Bytes × Bytes) :=
  [ (utf8 "commit", utf8 "unknown"), (utf8 "date", utf8 "unknown"), (utf8 "version", utf8 "dev") ]

/-- The version for the user. -/
def versionText (colour : Bool) : OutputFormat → Bytes
  | .text => utf8 "bfvm dev (commit unknown, built unknown)\n"
  | .json => jsonOutput colour (.object (versionFields.map fun (key, v) => (key, .string v)))

/-- The layout that was asked for. -/
def layout (a : Arguments) : Except Failure OutputFormat :=
  let text := (a.value? "output").getD (utf8 "text")
  match OutputFormat.ofText? text with
  | none => .error (OutputFormat.unknown text)
  | some format => .ok format

/-- The program at a path, compiled. -/
def compiledAt (w : World) (path : Bytes) : Except Failure Code :=
  (compileFile w.openFile {} path).mapError CompileError.toFailure

/-- Lists the code of a program. -/
def disassemble (w : World) (a : Arguments) (colour : Bool) : Except Failure Bytes := do
  let path ← sourcePath a.words
  let code ← compiledAt w path
  let format ← layout a
  return code.disassembly format (a.isOn "stats") colour

/-- Makes a program ready to run, and gives what is to be logged before it runs. -/
def prepare (w : World) (s : Sources) (level : LogLevel) :
    Except Failure (Bytes × Setup (Array UInt8) × Machine (Array UInt8)) := do
  let path ← sourcePath s.arguments.words
  let code ← compiledAt w path
  let log := if level.writes .debug then compiledLine w.clock path code.size else []
  let options : Options (Array UInt8) :=
    { input := w.input, stepLimit := s.stepLimit, context := .live, watch := #[]
      observer := if s.trace then some (.tracer w.clock level) else none }
  return (log, options.setup code, options.machine)

/-- Whether a shell wants to know what the offers are for: unless it asks for none, or a variable of
the environment says so. -/
def wantsDescriptions (environment : Environment) (described : Bool) : Bool :=
  let wish := ["BFVM_COMPLETION_DESCRIPTIONS", "COBRA_COMPLETION_DESCRIPTIONS"].findSome? fun name =>
    environment.value? name
  described && ((wish.bind Text.readBool?).getD true)

/-- What a shell is offered, for the benefit of a shell. -/
def completionOutcome (err : Bytes) (described : Bool) (words : List Bytes) : Outcome :=
  let c := completions words
  let problem := match c.problem with
    | some message => utf8 "[Debug] [Error] " ++ message ++ utf8 "\n"
    | none => []
  { exit := 0
    out := (c.offers.flatMap fun o => o.render described ++ utf8 "\n") ++
      utf8 ":" ++ decimal c.directive.number ++ utf8 "\n"
    err := err ++ problem ++ utf8 "Completion ended with directive: " ++ c.directive.name ++
      utf8 "\n" }

/-- Whether colours are shown before the settings are known. -/
def World.colour (w : World) : Bool :=
  w.outTerminal && (Environment.value? w.environment "NO_COLOR").isNone

/-- Carries out a verb with its arguments, as far as that goes without running a program. -/
def carryOut (w : World) (verb : Verb) (a : Arguments) : Except Outcome Session := do
  let (err, configuration) ← match loadConfiguration w a with
    | .none => pure ([], {})
    | .used path configuration =>
      pure (jsonLogLine w.stamp (utf8 "debug") (utf8 "file") path (utf8 "using config file"),
        configuration)
    | .ignored why =>
      pure (jsonLogLine w.stamp (utf8 "warn") (utf8 "error") why.message
        (utf8 "ignoring config file"), {})
    | .failed why =>
      throw { exit := 1, err := (Diagnostics.forPath [] w.colour).render .fatal why ++ utf8 "\n" }
  match verb.checkWords a.words with
  | .error message => throw (.ofFailure err w.colour (.text message))
  | .ok () => pure ()
  let s : Sources := { arguments := a, environment := w.environment, configuration }
  let colour := w.colour && w.errTerminal && !s.noColour
  let level ← match LogLevel.read? s.logLevel with
    | none => throw (.ofFailure err colour (LogLevel.unknown s.logLevel))
    | some level => pure level
  let orFail {α : Type} (r : Except Failure α) : Except Outcome α :=
    r.mapError (.ofFailure err colour)
  match verb with
  | .bare | .run =>
    let (log, setup, machine) ← orFail (prepare w s level)
    return .ready (err ++ log) colour setup machine
  | .dis => return .ended (.ofOutput err (← orFail (disassemble w a colour)))
  | .version => return .ended (.ofOutput err (versionText colour (← orFail (layout a))))
  | .help => return .ended (.ofOutput err (Verb.topic a.words).explanation)
  | .completion | .script _ => return .ended (.ofOutput err verb.explanation)
  | .complete described =>
    return .ended (completionOutcome err (wantsDescriptions w.environment described) a.words)

/-- The start of a session. -/
def start (w : World) (arguments : List Bytes) : Session :=
  let (verb, rest) := Verb.find arguments
  let read : Except FlagError Arguments := match verb with
    | .complete _ => .ok { words := rest }
    | verb => readArguments verb.flags rest
  match read with
  | .error e => .ended (.ofFailure [] w.colour (.text e.message))
  | .ok a =>
    if a.isOn "help" ∨ verb = .completion then .ended (.ofOutput [] verb.explanation)
    else
      match carryOut w verb a with
      | .error outcome => .ended outcome
      | .ok session => session

/-- The outcome of a machine that has stopped. -/
def finish (err : Bytes) (colour : Bool) (m : Machine (Array UInt8)) (stop : Stop) : Outcome :=
  let (m, stop) := m.close stop
  let out := m.core.output.sink.taken.toList
  let err := err ++ m.watch.toList
  match stop.toFailure? with
  | none => { exit := 0, out, err }
  | some f => { exit := 1, out, err := err ++ reportLine colour f }

/-- Whether the next instruction will ask for input that has not come yet. -/
def awaitsInput {σ : Type} (s : Setup σ) (m : Machine σ) : Bool :=
  match s.code.instructionAt m.core.ip with
  | .ok i => i.opcode? == some .read && m.core.input.left == 0
  | .error _ => false

/-- Repeats rounds until one ends the run or will ask for input that has not come yet, `rounds` at
most. -/
def runToInput {σ : Type} (s : Setup σ) : (rounds : Nat) → Machine σ → Machine σ × Option Stop
  | 0, m => (m, none)
  | rounds + 1, m =>
    if awaitsInput s m then (m, none)
    else
      match m.step s with
      | (m, some stop) => (m, some stop)
      | (m, none) => runToInput s rounds m

/-- The machine with more input to come. -/
def withInput {σ : Type} (m : Machine σ) (bytes : Bytes) : Machine σ :=
  let input := m.core.input
  let feed := { input.feed with script := input.feed.script ++ [.data bytes] }
  { m with core := { m.core with input := { input with feed } } }

/-- A whole session, whose machine runs for at most `rounds` rounds; there is no outcome if it has
not stopped by then. -/
def run (w : World) (arguments : List Bytes) (rounds : Nat) : Option Outcome :=
  match start w arguments with
  | .ended outcome => some outcome
  | .ready err colour setup machine =>
    match machine.runFor setup rounds with
    | (m, some stop) => some (finish err colour m stop)
    | (_, none) => none

end Tapelang.Shell
