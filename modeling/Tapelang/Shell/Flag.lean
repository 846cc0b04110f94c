import Tapelang.Text.Numeral

/-! # Flags

The arguments of a command are flags, values of flags and other words, in any order. A flag is
written `--name`, or with a letter as `-n`; a value follows it, or is joined to it by `=`, or, for
a letter, by nothing. A switch takes a value only behind `=`. After `--` everything is a word.
-/

namespace Tapelang.Shell

open Text

/-- What values a flag has. -/
inductive FlagKind where
  | switch
  | number
  | text
  deriving DecidableEq, Repr, Inhabited

/-- A flag, and what it is for. -/
structure Flag where
  name : Bytes
  letter : Option UInt8 := none
  kind : FlagKind
  purpose : Bytes := []
  /-- The value of the flag when it is not given, if that is worth mentioning. -/
  initially : Bytes := []
  deriving DecidableEq, Repr, Inhabited

/-- The flag as it is written in messages. -/
def Flag.render (f : Flag) : Bytes :=
  match f.letter with
  | none => utf8 "--" ++ f.name
  | some letter => utf8 "-" ++ [letter] ++ utf8 ", --" ++ f.name

/-- What is wrong with the arguments of a command. -/
inductive FlagError where
  | malformed (argument : Bytes)
  | unknown (name : Bytes)
  | unknownLetter (letter : UInt8) (letters : Bytes)
  | missingValue (argument : Bytes)
  | missingLetterValue (letter : UInt8) (letters : Bytes)
  | badSwitch (flag : Flag) (value : Bytes)
  | badNumber (flag : Flag) (value : Bytes) (why : NumeralError)
  deriving DecidableEq, Repr, Inhabited

/-- The error in words. -/
def FlagError.message : FlagError → Bytes
  | malformed argument => utf8 "bad flag syntax: " ++ argument
  | unknown name => utf8 "unknown flag: --" ++ name
  | unknownLetter letter letters =>
    utf8 "unknown shorthand flag: " ++ quoteChar letter.toNat ++ utf8 " in -" ++ letters
  | missingValue argument => utf8 "flag needs an argument: " ++ argument
  | missingLetterValue letter letters =>
    utf8 "flag needs an argument: " ++ quoteChar letter.toNat ++ utf8 " in -" ++ letters
  | badSwitch flag value =>
    utf8 "invalid argument " ++ quote value ++ utf8 " for " ++ quote flag.render ++
      utf8 " flag: strconv.ParseBool: parsing " ++ quote value ++ utf8 ": invalid syntax"
  | badNumber flag value why =>
    utf8 "invalid argument " ++ quote value ++ utf8 " for " ++ quote flag.render ++
      utf8 " flag: strconv.ParseInt: parsing " ++ quote value ++ utf8 ": " ++ why.reason

/-- The arguments of a command, taken apart: the flags given, the last one first, and the other
words in order. -/
structure Arguments where
  given : List (Bytes × Bytes) := []
  words : List Bytes := []
  deriving DecidableEq, Repr, Inhabited

namespace Arguments

/-- The value that a flag was given last. -/
def value? (a : Arguments) (name : String) : Option Bytes := a.given.lookup (utf8 name)

/-- The value of a switch; a switch that was not given is off. -/
def isOn (a : Arguments) (name : String) : Bool :=
  ((a.value? name).bind readBool?).getD false

/-- Gives a flag a value. -/
def give (a : Arguments) (f : Flag) (value : Bytes) : Except FlagError Arguments :=
  let given := { a with given := (f.name, value) :: a.given }
  match f.kind with
  | .text => .ok given
  | .switch => if (readBool? value).isSome then .ok given else .error (.badSwitch f value)
  | .number =>
    match readInteger value with
    | .ok _ => .ok given
    | .error why => .error (.badNumber f value why)

end Arguments

/-- A flag that waits for its value, and the error if none comes. -/
structure Waiting where
  flag : Flag
  otherwise : FlagError
  deriving DecidableEq, Repr, Inhabited

/-- The value of a switch that is given without one. -/
def switchedOn : Bytes := utf8 "true"

/-- Takes `--name` or `--name=value`. -/
def takeLong (flags : List Flag) (a : Arguments) (argument : Bytes) :
    Except FlagError (Arguments × Option Waiting) :=
  let body := argument.drop 2
  if body.head? = some '-'.toUInt8 ∨ body.head? = some '='.toUInt8 then
    .error (.malformed argument)
  else
    let (name, value) := match Bytes.breakOn? '='.toUInt8 body with
      | some (name, value) => (name, some value)
      | none => (body, none)
    match flags.find? fun f => f.name == name with
    | none => .error (.unknown name)
    | some f =>
      match value with
      | some value => (a.give f value).map fun a => (a, none)
      | none =>
        if f.kind = .switch then (a.give f switchedOn).map fun a => (a, none)
        else .ok (a, some ⟨f, .missingValue argument⟩)

/-- Takes the letters after a single `-`. -/
def takeLetters (flags : List Flag) (a : Arguments) :
    Bytes → Except FlagError (Arguments × Option Waiting)
  | [] => .ok (a, none)
  | letter :: rest =>
    match flags.find? fun f => f.letter == some letter with
    | none => .error (.unknownLetter letter (letter :: rest))
    | some f =>
      match rest with
      | 61 :: c :: more => (a.give f (c :: more)).map fun a => (a, none)
      | _ =>
        if f.kind = .switch then
          match a.give f switchedOn with
          | .error e => .error e
          | .ok a => takeLetters flags a rest
        else if rest.isEmpty then .ok (a, some ⟨f, .missingLetterValue letter [letter]⟩)
        else (a.give f rest).map fun a => (a, none)

/-- Whether an argument is a flag or a group of letters. -/
def isFlag (argument : Bytes) : Bool :=
  match argument with
  | 45 :: _ :: _ => true
  | _ => false

/-- Takes the arguments of a command, `waiting` being the flag that the next one belongs to. -/
def takeArguments (flags : List Flag) (a : Arguments) (waiting : Option Waiting) :
    List Bytes → Except FlagError Arguments
  | [] =>
    match waiting with
    | none => .ok a
    | some w => .error w.otherwise
  | argument :: rest =>
    match waiting with
    | some w =>
      match a.give w.flag argument with
      | .error e => .error e
      | .ok a => takeArguments flags a none rest
    | none =>
      if !isFlag argument then
        takeArguments flags { a with words := a.words ++ [argument] } none rest
      else if argument = utf8 "--" then .ok { a with words := a.words ++ rest }
      else
        let taken := if argument.take 2 = utf8 "--" then takeLong flags a argument
          else takeLetters flags a (argument.drop 1)
        match taken with
        | .error e => .error e
        | .ok (a, waiting) => takeArguments flags a waiting rest

/-- The arguments of a command, taken apart. -/
def readArguments (flags : List Flag) (arguments : List Bytes) : Except FlagError Arguments :=
  takeArguments flags {} none arguments

/-! ## Words among arguments

To find out which command is meant, the words are told from the flags before the command's own
flags are known. A flag that is not known is taken to have a value.
-/

/-- Whether an argument is a flag whose value is the next argument. -/
def takesNext (flags : List Flag) (argument : Bytes) : Bool :=
  !argument.contains '='.toUInt8 &&
    if argument.take 2 = utf8 "--" then
      !flags.any fun f => f.name == argument.drop 2 && f.kind == .switch
    else if argument.length = 2 ∧ argument.head? = some '-'.toUInt8 then
      !flags.any fun f => f.letter == argument[1]? && f.kind == .switch
    else false

/-- Whether an argument is a word. -/
def isWord (argument : Bytes) : Bool :=
  !argument.isEmpty && argument.head? != some '-'.toUInt8

/-- The first word among arguments, if there is one, where `skip` says that the next argument is a
value. A flag with a value hides what follows it if that is at most one argument. -/
def firstWord? (flags : List Flag) : (skip : Bool) → List Bytes → Option Bytes
  | _, [] => none
  | true, _ :: rest => firstWord? flags false rest
  | false, argument :: rest =>
    if argument = utf8 "--" then none
    else if takesNext flags argument then
      if rest.length ≤ 1 then none else firstWord? flags true rest
    else if isWord argument then some argument
    else firstWord? flags false rest

/-- The arguments without the first word that equals `word`. -/
def withoutWord (flags : List Flag) (word : Bytes) : (skip : Bool) → List Bytes → List Bytes
  | _, [] => []
  | true, argument :: rest => argument :: withoutWord flags word false rest
  | false, argument :: rest =>
    if argument = utf8 "--" then argument :: rest
    else if takesNext flags argument then argument :: withoutWord flags word true rest
    else if argument = word then rest
    else argument :: withoutWord flags word false rest

end Tapelang.Shell
