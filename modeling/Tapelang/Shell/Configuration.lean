import Tapelang.Json.Parser
import Tapelang.Yaml.Document
import Tapelang.Toml.Document
import Tapelang.Dotenv

/-! # Configuration files

A configuration file gives settings by name. It is YAML, JSON, TOML or a list of variables, by the
end of its name. Only settings at the top of the file matter here, and only those that are single
values; whatever else a file holds is passed over when it is well formed.
-/

namespace Tapelang.Shell

/-- Variables of the environment. -/
abbrev Environment := List (Bytes × Bytes)

/-! ## JSON -/

/-- Whether a token is no number that is too large. -/
def numberFits : Json.Token → Bool
  | .number literal => (Binary64.read? literal).isSome
  | _ => true

/-- The setting of a JSON value. -/
def ofJson : Json → Setting
  | .null => .null
  | .bool b => .bool b
  | .number literal => ((Binary64.read? literal).map .float).getD .other
  | .string text => .text text
  | .array _ | .object _ => .other

/-- The settings of a JSON text, which is an object or null; none if it is malformed. Of two members
with one name the last one counts. -/
def readJson? (text : Bytes) : Option Configuration := do
  let tokens ← Json.tokenize text
  if !tokens.all numberFits then failure
  match ← Json.ofTokens? tokens with
  | .object members => return ⟨members.reverse.map fun (key, v) => (key, ofJson v)⟩
  | .null => return {}
  | _ => failure

/-! ## All formats -/

/-- The formats of configuration files. -/
inductive Format where
  | yaml
  | json
  | toml
  | dotenv
  /-- A format with a name that nothing can read. -/
  | closed
  deriving DecidableEq, Repr, Inhabited

/-- The formats by the end of a file's name, in order of preference. -/
def formatNames : List (String × Format) :=
  [ ("json", .json), ("toml", .toml), ("yaml", .yaml), ("yml", .yaml), ("properties", .closed),
    ("props", .closed), ("prop", .closed), ("hcl", .closed), ("tfvars", .closed),
    ("dotenv", .dotenv), ("env", .dotenv), ("ini", .closed) ]

/-- The format of files whose name ends with `kind`. -/
def Format.ofKind? (kind : Bytes) : Option Format :=
  (formatNames.find? fun (name, _) => utf8 name == kind).map (·.2)

/-- Why a text is no configuration. -/
inductive FormatFault where
  | malformed
  | unreadable
  deriving DecidableEq, Repr, Inhabited

/-- The reason in words. -/
def FormatFault.reason : FormatFault → Bytes
  | malformed => utf8 "malformed"
  | unreadable => utf8 "decoder not found for this format"

/-- The settings of a text in a format. -/
def Format.read (environment : Environment) (text : Bytes) : Format → Except FormatFault Configuration
  | yaml => orMalformed (Yaml.readSettings? text)
  | json => orMalformed (readJson? text)
  | toml => orMalformed (Toml.readSettings? text)
  | dotenv => orMalformed (Dotenv.readSettings? (fun name => environment.lookup name) text)
  | closed => .error .unreadable
where
  /-- The settings, if the text is well formed. -/
  orMalformed : Option Configuration → Except FormatFault Configuration
    | some configuration => .ok configuration
    | none => .error .malformed

end Tapelang.Shell
