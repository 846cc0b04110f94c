import Tapelang.Shell.Verb

/-! # Completion

How the last of some arguments may go on, for the benefit of a shell. It may become a verb, a flag,
or the value of the flag in front of it.
-/

namespace Tapelang.Shell

/-- How a shell is to treat what it is offered. -/
inductive Directive where
  | files
  | noFiles
  deriving DecidableEq, Repr, Inhabited

/-- The number of a directive. -/
def Directive.number : Directive → Nat
  | files => 0
  | noFiles => 4

/-- The name of a directive. -/
def Directive.name : Directive → Bytes
  | files => utf8 "ShellCompDirectiveDefault"
  | noFiles => utf8 "ShellCompDirectiveNoFileComp"

/-- A text that may stand for the last argument, and what it is for. -/
structure Offer where
  text : Bytes
  purpose : Bytes := []
  deriving DecidableEq, Repr, Inhabited

/-- The offer on a line, with or without what it is for. -/
def Offer.render (described : Bool) (o : Offer) : Bytes :=
  if described ∧ !o.purpose.isEmpty then o.text ++ utf8 "\t" ++ o.purpose else o.text

/-- What a shell is told. -/
structure Completion where
  offers : List Offer := []
  directive : Directive := .files
  /-- What is wrong with the arguments. -/
  problem : Option Bytes := none
  deriving DecidableEq, Repr, Inhabited

/-! ## Values of flags -/

/-- Which flag the last argument is a value of. -/
structure Underway where
  flag : Option Flag := none
  /-- The other arguments. -/
  before : List Bytes
  /-- What has been written of the value, or of whatever else the last argument is. -/
  last : Bytes
  /-- The name of a flag that the verb does not know. -/
  unknown : Option Bytes := none
  deriving Repr, Inhabited

/-- Whether an argument begins with the mark of a flag. -/
def hasDash (argument : Bytes) : Bool := argument.head? == some '-'.toUInt8

/-- Whether an argument is a flag by its name, or letters of flags. -/
def isWholeFlag (argument : Bytes) : Bool :=
  match argument with
  | 45 :: 45 :: _ :: _ => true
  | 45 :: letter :: _ => letter != '-'.toUInt8
  | _ => false

/-- The name of a flag that is written out, or the last of several letters. -/
def flagName (argument : Bytes) : Bytes :=
  if argument.take 2 = utf8 "--" then argument.drop 2 else argument.getLast?.toList

/-- The flag with a name, where a single byte is the letter of one. -/
def flagNamed? (flags : List Flag) (name : Bytes) : Option Flag :=
  match name with
  | [letter] => flags.find? fun f => f.letter == some letter
  | name => flags.find? fun f => f.name == name

/-- The flag in front of the last argument, if its value is not joined to it. -/
def flagBefore? (before : List Bytes) : Option Bytes :=
  before.getLast?.filter fun argument =>
    isWholeFlag argument && !argument.contains '='.toUInt8

/-- Finds out which flag the last argument is a value of. Its name is joined to the value by a sign,
or stands in front of it. A switch takes its value only behind the sign. -/
def Underway.find (flags : List Flag) (before : List Bytes) (last : Bytes) : Underway :=
  let joined := if hasDash last then Bytes.breakOn? '='.toUInt8 last else none
  match hasDash last, joined with
  | true, none => { before, last }
  | _, joined =>
    let value := (joined.map (·.2)).getD last
    let name := (joined.map fun (start, _) => flagName start).getD []
    let (name, rest) :=
      if !name.isEmpty then (name, before)
      else
        match flagBefore? before with
        | some argument => (flagName argument, before.dropLast)
        | none => ([], before)
    if name.isEmpty then { before, last := value }
    else
      match flagNamed? flags name with
      | none => { before, last, unknown := some name }
      | some flag =>
        if flag.kind = .switch ∧ joined.isNone then { before, last := value }
        else { flag := some flag, before := rest, last := value }

/-! ## Offers -/

/-- The ways to write a flag that begin like the last argument. -/
def flagOffers (last : Bytes) (flag : Flag) : List Offer :=
  let long := utf8 "--" ++ flag.name
  let short := flag.letter.toList.map fun letter => utf8 "-" ++ [letter]
  ((long :: short).filter last.isPrefixOf).map fun text => ⟨text, flag.purpose⟩

/-- The flags that have not been given and begin like the last argument: those that every verb knows
first, unless there is no verb. -/
def allFlagOffers (verb : Verb) (given : List Bytes) (last : Bytes) : List Offer :=
  let flags := if verb = .bare then verb.flags.mergeSort fun f g => Bytes.le f.name g.name
    else verb.flags
  (flags.filter fun f => !given.contains f.name).flatMap (flagOffers last)

/-- The verbs behind a verb that begin like the last argument. -/
def verbOffers (verb : Verb) (last : Bytes) : List Offer :=
  (verb.children.filter fun v => last.isPrefixOf v.name).map fun v => ⟨v.name, v.purpose⟩

/-- What a verb has to say about its words. -/
def wordOffers (verb : Verb) (words : List Bytes) (last : Bytes) : Option (List Offer) :=
  match verb with
  | .help => some (verbOffers (Verb.find words).1 last)
  | .completion | .script _ => some []
  | _ => none

/-- What a verb has to say about the value of a flag. -/
def valueOffers (verb : Verb) (flag : Flag) : Option (List Offer) :=
  if verb = .dis ∧ flag = outputFlag then some [⟨utf8 "json", []⟩, ⟨utf8 "text", []⟩] else none

/-- Texts in brackets. -/
def bracketed (texts : List Bytes) : Bytes :=
  utf8 "[" ++ Bytes.join (utf8 " ") texts ++ utf8 "]"

/-- The completion of an argument that is no flag. Whatever the verb or the flag has to say comes
behind the verbs, and then no file is meant. -/
def completeWord (verb : Verb) (u : Underway) (words : List Bytes) (canBeFlag : Bool) : Completion :=
  let verbs := if u.flag.isNone ∧ words.isEmpty then verbOffers verb u.last else []
  let special := match u.flag.filter fun _ => canBeFlag with
    | some flag => valueOffers verb flag
    | none => wordOffers verb words u.last
  let meansVerb := u.flag.isNone && words.isEmpty && !verb.children.isEmpty
  { offers := verbs ++ special.getD []
    directive := if special.isSome || meansVerb then .noFiles else .files }

/-- The completion of an argument behind others, given which flag it is a value of and what the others
are. Behind `--` there are no flags. -/
def completeLast (verb : Verb) (u : Underway) (a : Arguments) (canBeFlag : Bool) : Completion :=
  match u.unknown.filter fun _ => canBeFlag with
  | some name =>
    { problem := some (utf8 "Subcommand '" ++ verb.name ++ utf8 "' does not support flag '" ++ name ++
        utf8 "'") }
  | none =>
    if (a.value? "help").isSome then { directive := .noFiles }
    else if u.flag.isNone ∧ hasDash u.last ∧ !u.last.contains '='.toUInt8 ∧ canBeFlag then
      { offers := allFlagOffers verb (a.given.map (·.1)) u.last, directive := .noFiles }
    else completeWord verb u a.words canBeFlag

/-- How the last argument may go on. -/
def completions (arguments : List Bytes) : Completion :=
  let last := arguments.getLastD []
  let (verb, before) := Verb.find arguments.dropLast
  match verb with
  | .complete _ => completeLast verb { before, last } { words := before } true
  | verb =>
    let u := Underway.find verb.flags before last
    match readArguments verb.flags u.before with
    | .error e =>
      { problem := some (utf8 "Error while parsing flags from args " ++ bracketed u.before ++
          utf8 ": " ++ e.message) }
    | .ok a =>
      let more := readArguments verb.flags (u.before ++ [utf8 "--"])
      let canBeFlag := match more with
        | .ok b => b.words.length ≤ a.words.length
        | .error _ => true
      completeLast verb u a canBeFlag

end Tapelang.Shell
