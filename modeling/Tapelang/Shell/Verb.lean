import Tapelang.Shell.Flag

/-! # Verbs

What the program can be told to do, the flags that each verb knows, and how the verb is found among
the arguments.
-/

namespace Tapelang.Shell

/-- A program that reads commands from a terminal and can be taught to complete them. -/
inductive CommandShell where
  | bash
  | fish
  | powershell
  | zsh
  deriving DecidableEq, Repr, Inhabited

/-- What the program is told to do. -/
inductive Verb where
  /-- No verb was given: a program is run. -/
  | bare
  | run
  | dis
  | version
  | help
  | completion
  /-- Explain how a shell is taught to complete commands. -/
  | script (shell : CommandShell)
  /-- Say how the last argument may go on, with or without descriptions, for the benefit of a
  shell. -/
  | complete (described : Bool)
  deriving DecidableEq, Repr, Inhabited

/-- The name of a shell. -/
def CommandShell.name : CommandShell → Bytes
  | bash => utf8 "bash"
  | fish => utf8 "fish"
  | powershell => utf8 "powershell"
  | zsh => utf8 "zsh"

namespace Verb

/-- The name of a verb. -/
def name : Verb → Bytes
  | bare => utf8 "bfvm"
  | run => utf8 "run"
  | dis => utf8 "dis"
  | version => utf8 "version"
  | help => utf8 "help"
  | completion => utf8 "completion"
  | script shell => shell.name
  | complete _ => utf8 "__complete"

/-- What a verb is for. -/
def purpose : Verb → Bytes
  | bare => utf8 "Compile and run tape programs on a bytecode virtual machine"
  | run => utf8 "Compile and run a program"
  | dis => utf8 "Disassemble compiled bytecode"
  | version => utf8 "Print version information"
  | help => utf8 "Help about any command"
  | completion => utf8 "Generate the autocompletion script for the specified shell"
  | script shell => utf8 "Generate the autocompletion script for " ++ shell.name
  | complete _ => utf8 "Request shell completion choices for the specified command-line"

/-- The verbs that a user may want behind a verb. -/
def children : Verb → List Verb
  | bare => [completion, dis, help, run, version]
  | completion => [script .bash, script .fish, script .powershell, script .zsh]
  | _ => []

/-- The verbs that can stand behind a verb, by name. -/
def named (verb : Verb) : List (Bytes × Verb) :=
  verb.children.map (fun v => (v.name, v)) ++
    match verb with
    | bare => [(utf8 "__complete", complete true), (utf8 "__completeNoDesc", complete false)]
    | _ => []

end Verb

/-! ## Flags -/

/-- The flags that every verb knows. -/
def commonFlags : List Flag :=
  [ { name := utf8 "config", kind := .text
      purpose := utf8 "config file (default is $HOME/.bfvm.yaml)" },
    { name := utf8 "log-level", kind := .text
      purpose := utf8 "Log level (trace, debug, info, warn, error)", initially := utf8 "warn" },
    { name := utf8 "no-color", kind := .switch, purpose := utf8 "Disable colored output" },
    { name := utf8 "step-limit", kind := .number
      purpose := utf8 "Abort after this many instructions (0 is unlimited)" },
    { name := utf8 "trace", kind := .switch
      purpose := utf8 "Log every executed instruction at trace level" } ]

/-- The flag that asks for help with a verb. -/
def helpFlag (verb : Verb) : Flag :=
  { name := utf8 "help", letter := some 'h'.toUInt8, kind := .switch
    purpose := utf8 "help for " ++ verb.name }

/-- The flag that asks for a layout. -/
def outputFlag : Flag :=
  { name := utf8 "output", letter := some 'o'.toUInt8, kind := .text
    purpose := utf8 "Output format (json, text)", initially := utf8 "text" }

/-- The flag that asks for statistics. -/
def statsFlag : Flag :=
  { name := utf8 "stats", kind := .switch, purpose := utf8 "Include bytecode statistics" }

/-- The flag that asks for a script without descriptions. -/
def noDescriptionsFlag : Flag :=
  { name := utf8 "no-descriptions", kind := .switch
    purpose := utf8 "disable completion descriptions" }

namespace Verb

/-- The flags that only this verb knows, by name. -/
def ownFlags (verb : Verb) : List Flag :=
  match verb with
  | dis => [helpFlag verb, outputFlag, statsFlag]
  | version => [helpFlag verb, outputFlag]
  | script _ => [helpFlag verb, noDescriptionsFlag]
  | _ => [helpFlag verb]

/-- The flags of a verb. -/
def flags (verb : Verb) : List Flag := commonFlags ++ verb.ownFlags

/-! ## Finding -/

/-- The verb behind a verb among the arguments, and the arguments without it. -/
def next? (verb : Verb) (arguments : List Bytes) : Option (Verb × List Bytes) := do
  let word ← firstWord? commonFlags false arguments
  let found ← verb.named.lookup word
  return (found, withoutWord commonFlags word false arguments)

/-- The verb among the arguments, which may be behind another one, and the arguments without it. -/
def find (arguments : List Bytes) : Verb × List Bytes :=
  match next? bare arguments with
  | none => (bare, arguments)
  | some (verb, rest) => (next? verb rest).getD (verb, rest)

/-- The verb that a user wants help with. What only shells use is no topic. -/
def topic (words : List Bytes) : Verb :=
  match (find words).1 with
  | complete _ => bare
  | verb => verb

/-- What is wrong with the number of words that a verb is given. -/
def checkWords (verb : Verb) (words : List Bytes) : Except Bytes Unit :=
  match verb, words with
  | version, word :: _ => .error (unexpected word (utf8 "bfvm version"))
  | script shell, word :: _ => .error (unexpected word (utf8 "bfvm completion " ++ shell.name))
  | complete _, [] => .error (utf8 "requires at least 1 arg(s), only received 0")
  | bare, words | run, words | dis, words =>
    if words.length ≤ 1 then .ok ()
    else .error (utf8 "accepts at most 1 arg(s), received " ++ decimal words.length)
  | _, _ => .ok ()
where
  /-- A word where none is expected. -/
  unexpected (word path : Bytes) : Bytes :=
    utf8 "unknown command " ++ Text.quote word ++ utf8 " for " ++ Text.quote path

end Verb

end Tapelang.Shell
