import Tapelang.Text.Utf8

/-! # Ink

Terminals change colour on escape sequences: `ESC [`, digits and semicolons, `m`. An `Ink` is a
pair of such sequences, one to put in front of a text and one to put behind it. `withoutInk` takes
every sequence out of a text, and `visibleWidth` counts the glyphs that remain.
-/

namespace Tapelang.Text

/-- The byte that begins a sequence. -/
def escapeByte : UInt8 := 27

/-- A sequence with the given parameters. -/
def inkSequence (parameters : String) : Bytes :=
  escapeByte :: utf8 "[" ++ utf8 parameters ++ utf8 "m"

/-- A colour: the parameters that turn it on and off. -/
structure Ink where
  on : String
  off : String
  deriving DecidableEq, Repr, Inhabited

/-- The text in a colour, also when it is empty. -/
def Ink.paint (ink : Ink) (text : Bytes) : Bytes :=
  inkSequence ink.on ++ text ++ inkSequence ink.off

/-- The text in a colour if colours are wanted. -/
def Ink.paintIf (colour : Bool) (ink : Ink) (text : Bytes) : Bytes :=
  if colour then ink.paint text else text

/-- Whether a byte may stand among the parameters of a sequence. -/
def isParameter (b : UInt8) : Bool :=
  (48 ≤ b && b ≤ 57) || b == 59

/-- The length of the parameters and the `m` that ends a sequence. -/
def parametersLength? : Bytes → Option Nat
  | [] => none
  | b :: rest =>
    if b = 'm'.toUInt8 then some 1
    else if isParameter b then (parametersLength? rest).map (· + 1)
    else none

/-- What is left of a sequence whose first byte is `b`, if one begins there: the number of its
bytes in `rest`. -/
def inkLength? (b : UInt8) (rest : Bytes) : Option Nat :=
  if b = escapeByte then
    match rest with
    | c :: more => if c = '['.toUInt8 then (parametersLength? more).map (· + 1) else none
    | [] => none
  else none

/-- The text without its sequences, after `skip` bytes that have been dealt with. -/
def withoutInkFrom : (skip : Nat) → Bytes → Bytes
  | _, [] => []
  | skip + 1, _ :: rest => withoutInkFrom skip rest
  | 0, b :: rest =>
    match inkLength? b rest with
    | some more => withoutInkFrom more rest
    | none => b :: withoutInkFrom 0 rest

/-- The text without its sequences. What remains is not looked at again. -/
def withoutInk (text : Bytes) : Bytes := withoutInkFrom 0 text

/-- The number of glyphs that a terminal shows. -/
def visibleWidth (text : Bytes) : Nat := (glyphs (withoutInk text)).length

end Tapelang.Text
