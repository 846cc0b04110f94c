import Tapelang.Shell.Verb

/-! # Help

What the program says about itself and about each verb: what it is for, how it is called, which verbs
can follow it, and its flags. Names are followed by blanks, so that the texts behind them begin in
one column.
-/

namespace Tapelang.Shell

/-! ## Flags -/

/-- What stands for the value of a flag. -/
def FlagKind.placeholder : FlagKind → Bytes
  | switch => []
  | number => utf8 " int"
  | text => utf8 " string"

/-- The ways to write a flag, with room for a letter if it has none. -/
def Flag.spelling (f : Flag) : Bytes :=
  (if f.letter.isSome then utf8 "  " else utf8 "      ") ++ f.render ++ f.kind.placeholder

/-- What a flag is for, and its value when it is not given. -/
def Flag.remark (f : Flag) : Bytes :=
  if f.initially.isEmpty then f.purpose
  else f.purpose ++ utf8 " (default " ++ Text.quote f.initially ++ utf8 ")"

/-- Flags in the order of their names, one on a line. -/
def flagLines (flags : List Flag) : List Bytes :=
  let flags := flags.mergeSort fun f g => Bytes.le f.name g.name
  let width := (flags.map fun f => f.spelling.length).foldl max 0
  flags.map fun f =>
    f.spelling ++ List.replicate (width + 3 - f.spelling.length) 32 ++ f.remark

/-! ## Verbs -/

/-- The name of the program. -/
def programName : Bytes := Verb.bare.name

/-- How a shell is taught to complete commands, in words. -/
def CommandShell.explanation : CommandShell → List Bytes
  | bash =>
    [ utf8 "Generate the autocompletion script for the bash shell.",
      [],
      utf8 "This script depends on the 'bash-completion' package.",
      utf8 "If it is not installed already, you can install it via your OS's package manager.",
      [],
      utf8 "To load completions in your current shell session:",
      [],
      utf8 "\tsource <(" ++ programName ++ utf8 " completion bash)",
      [],
      utf8 "To load completions for every new session, execute once:",
      [],
      utf8 "#### Linux:",
      [],
      utf8 "\t" ++ programName ++ utf8 " completion bash > /etc/bash_completion.d/" ++ programName,
      [],
      utf8 "#### macOS:",
      [],
      utf8 "\t" ++ programName ++
        utf8 " completion bash > $(brew --prefix)/etc/bash_completion.d/" ++ programName,
      [],
      utf8 "You will need to start a new shell for this setup to take effect." ]
  | fish =>
    [ utf8 "Generate the autocompletion script for the fish shell.",
      [],
      utf8 "To load completions in your current shell session:",
      [],
      utf8 "\t" ++ programName ++ utf8 " completion fish | source",
      [],
      utf8 "To load completions for every new session, execute once:",
      [],
      utf8 "\t" ++ programName ++ utf8 " completion fish > ~/.config/fish/completions/" ++
        programName ++ utf8 ".fish",
      [],
      utf8 "You will need to start a new shell for this setup to take effect." ]
  | powershell =>
    [ utf8 "Generate the autocompletion script for powershell.",
      [],
      utf8 "To load completions in your current shell session:",
      [],
      utf8 "\t" ++ programName ++ utf8 " completion powershell | Out-String | Invoke-Expression",
      [],
      utf8 "To load completions for every new session, add the output of the above command",
      utf8 "to your powershell profile." ]
  | zsh =>
    [ utf8 "Generate the autocompletion script for the zsh shell.",
      [],
      utf8 "If shell completion is not already enabled in your environment you will need",
      utf8 "to enable it.  You can execute the following once:",
      [],
      utf8 "\techo \"autoload -U compinit; compinit\" >> ~/.zshrc",
      [],
      utf8 "To load completions in your current shell session:",
      [],
      utf8 "\tsource <(" ++ programName ++ utf8 " completion zsh)",
      [],
      utf8 "To load completions for every new session, execute once:",
      [],
      utf8 "#### Linux:",
      [],
      utf8 "\t" ++ programName ++ utf8 " completion zsh > \"$\x7bfpath[1]\x7d/_" ++ programName ++
        utf8 "\"",
      [],
      utf8 "#### macOS:",
      [],
      utf8 "\t" ++ programName ++
        utf8 " completion zsh > $(brew --prefix)/share/zsh/site-functions/_" ++ programName,
      [],
      utf8 "You will need to start a new shell for this setup to take effect." ]

namespace Verb

/-- What a verb does, in full. -/
def description : Verb → List Bytes
  | bare =>
    [ utf8 "bfvm compiles a program written in the eight-command tape language",
      utf8 "into bytecode and executes it on a 30000-cell virtual machine.",
      [],
      utf8 "Program input is read from stdin and output is written to stdout." ]
  | help =>
    [ utf8 "Help provides help for any command in the application.",
      utf8 "Simply type " ++ programName ++ utf8 " help [path to command] for full details." ]
  | completion =>
    [ utf8 "Generate the autocompletion script for " ++ programName ++
        utf8 " for the specified shell.",
      utf8 "See each sub-command's help for details on how to use the generated script." ]
  | script shell => shell.explanation
  | verb => [verb.purpose]

/-- The verb behind those that have to stand in front of it. -/
def path : Verb → Bytes
  | bare => programName
  | verb@(script _) => programName ++ utf8 " completion " ++ verb.name
  | verb => programName ++ utf8 " " ++ verb.name

/-- What can stand behind a verb, unless the verb says nothing without another one. -/
def operands? : Verb → Option Bytes
  | completion => none
  | bare | run | dis => some (utf8 " [file] [flags]")
  | help => some (utf8 " [command] [flags]")
  | script .bash => some []
  | _ => some (utf8 " [flags]")

/-- How a verb is called. -/
def usage (verb : Verb) : List Bytes :=
  let alone := verb.operands?.toList.map fun operands => utf8 "  " ++ verb.path ++ operands
  let followed := if verb.children.isEmpty then [] else [utf8 "  " ++ verb.path ++ utf8 " [command]"]
  [utf8 "Usage:"] ++ alone ++ followed

/-- A verb on a line, with what it is for. -/
def line (verb : Verb) : Bytes :=
  utf8 "  " ++ verb.name ++ List.replicate (12 - verb.name.length) 32 ++ verb.purpose

/-- Lines under a heading, behind an empty line; nothing without lines. -/
def underHeading (heading : String) (lines : List Bytes) : List Bytes :=
  if lines.isEmpty then [] else [] :: utf8 heading :: lines

/-- The flags of a verb; those that every verb knows come last, except where there is no verb. -/
def flagSections (verb : Verb) : List Bytes :=
  if verb = bare then underHeading "Flags:" (flagLines verb.flags)
  else underHeading "Flags:" (flagLines verb.ownFlags) ++
    underHeading "Global Flags:" (flagLines commonFlags)

/-- The last lines of a verb that others can follow. -/
def hint (verb : Verb) : List Bytes :=
  if verb.children.isEmpty then []
  else [[], utf8 "Use \"" ++ verb.path ++
    utf8 " [command] --help\" for more information about a command."]

/-- The help for a verb. -/
def explanation (verb : Verb) : Bytes :=
  let lines := verb.description ++ [[]] ++ verb.usage ++
    underHeading "Available Commands:" (verb.children.map line) ++ verb.flagSections ++ verb.hint
  lines.flatMap fun line => line ++ utf8 "\n"

end Verb

end Tapelang.Shell
