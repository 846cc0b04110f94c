import Tapelang.Shell.Flag
import Tapelang.Shell.Configuration

/-! # Settings

A setting comes from a flag, else from a variable of the environment, else from the configuration
file, else it has its default.
-/

namespace Tapelang.Shell

open Text

/-- The value of a variable; an empty one counts as missing. -/
def Environment.value? (vs : Environment) (name : String) : Option Bytes :=
  (vs.lookup (utf8 name)).filter (· ≠ [])

/-- Everything that settings come from. -/
structure Sources where
  arguments : Arguments := {}
  environment : Environment := []
  configuration : Configuration := {}
  deriving Repr, Inhabited

namespace Sources

/-- The setting called `name`, whose variables are `names` in order of preference. -/
def setting? (s : Sources) (name : String) (names : List String) : Option Setting :=
  match s.arguments.value? name with
  | some value => some (.text value)
  | none =>
    match names.findSome? fun v => Environment.value? s.environment v with
    | some value => some (.text value)
    | none => s.configuration.find? (utf8 name)

/-- Whether colours are unwanted. -/
def noColour (s : Sources) : Bool :=
  ((s.setting? "no-color" ["BFVM_NO_COLOR", "NO_COLOR"]).map Setting.toBool).getD false

/-- Whether every step is to be logged. -/
def trace (s : Sources) : Bool :=
  ((s.setting? "trace" ["BFVM_TRACE"]).map Setting.toBool).getD false

/-- The log level asked for. Logging every step asks for the lowest. -/
def logLevel (s : Sources) : Bytes :=
  if s.trace then utf8 "trace"
  else ((s.setting? "log-level" ["BFVM_LOG_LEVEL"]).map Setting.toText).getD (utf8 "warn")

/-- The step limit. -/
def stepLimit (s : Sources) : Int :=
  ((s.setting? "step-limit" ["BFVM_STEP_LIMIT"]).map Setting.toInt).getD 0

end Sources

end Tapelang.Shell
