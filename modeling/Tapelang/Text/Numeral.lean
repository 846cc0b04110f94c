import Tapelang.Text.Quoted

/-! # Numbers and truth values in texts

How settings are read: decimal integers, integers with a base in front and underscores between
their digits, and truth values.
-/

namespace Tapelang.Text

/-- Why a text is not a number. -/
inductive NumeralError where
  | malformed
  | outOfRange
  deriving DecidableEq, Repr, Inhabited

/-- The error in words. -/
def NumeralError.reason : NumeralError → Bytes
  | malformed => utf8 "invalid syntax"
  | outOfRange => utf8 "value out of range"

/-- The value of a digit in any base up to 36. -/
def digitValue? (b : UInt8) : Option Nat :=
  if 48 ≤ b ∧ b ≤ 57 then some (b.toNat - 48)
  else if 97 ≤ b ∧ b ≤ 122 then some (b.toNat - 87)
  else if 65 ≤ b ∧ b ≤ 90 then some (b.toNat - 55)
  else none

/-- The underscore. -/
def underscore : UInt8 := '_'.toUInt8

/-- The base that a number without a sign begins with, and its digits. A zero in front of further
digits stands for base 8. -/
def splitBase (text : Bytes) : Nat × Bytes :=
  match text with
  | 48 :: letter :: digit :: rest =>
    if letter = 'b'.toUInt8 ∨ letter = 'B'.toUInt8 then (2, digit :: rest)
    else if letter = 'o'.toUInt8 ∨ letter = 'O'.toUInt8 then (8, digit :: rest)
    else if letter = 'x'.toUInt8 ∨ letter = 'X'.toUInt8 then (16, digit :: rest)
    else (8, letter :: digit :: rest)
  | 48 :: rest => (8, rest)
  | text => (10, text)

/-- The value of digits in a base, underscores passed over, below 2 to the power of 64. The first
digit that goes too far or does not fit the base decides. -/
def digits (base : Nat) (underscores : Bool) : (value : Nat) → Bytes → Except NumeralError Nat
  | value, [] => .ok value
  | value, b :: rest =>
    if underscores ∧ b = underscore then digits base underscores value rest
    else
      match digitValue? b with
      | none => .error .malformed
      | some d =>
        if base ≤ d then .error .malformed
        else if value * base + d < 0x10000000000000000 then digits base underscores (value * base + d) rest
        else .error .outOfRange

/-- Whether every underscore stands between two digits, given whether the last byte was a digit
and whether it was an underscore. -/
def underscoresFit (hex : Bool) : (afterDigit afterUnderscore : Bool) → Bytes → Bool
  | _, afterUnderscore, [] => !afterUnderscore
  | afterDigit, afterUnderscore, b :: rest =>
    let isDigit := (48 ≤ b && b ≤ 57) ||
      (hex && ((97 ≤ b && b ≤ 102) || (65 ≤ b && b ≤ 70)))
    if isDigit then underscoresFit hex true false rest
    else if b = underscore then afterDigit && underscoresFit hex false true rest
    else !afterUnderscore && underscoresFit hex false false rest

/-- Whether the underscores of a number without a sign are in order; a base counts as a digit. -/
def underscoresOk (text : Bytes) : Bool :=
  match text with
  | 48 :: letter :: rest =>
    if letter = 'x'.toUInt8 ∨ letter = 'X'.toUInt8 then underscoresFit true true false rest
    else if letter = 'b'.toUInt8 ∨ letter = 'B'.toUInt8 ∨ letter = 'o'.toUInt8 ∨
        letter = 'O'.toUInt8 then
      underscoresFit false true false rest
    else underscoresFit false false false text
  | text => underscoresFit false false false text

/-- The sign of a text, and the text without it. -/
def splitSign : Bytes → Bool × Bytes
  | 45 :: rest => (true, rest)
  | 43 :: rest => (false, rest)
  | text => (false, text)

/-- The integer of 64 bits with a sign and a magnitude. -/
def withSign (negative : Bool) (magnitude : Nat) : Except NumeralError Int :=
  if negative then
    if magnitude ≤ 0x8000000000000000 then .ok (-magnitude) else .error .outOfRange
  else if magnitude < 0x8000000000000000 then .ok magnitude
  else .error .outOfRange

/-- An integer of 64 bits that may name its base and have underscores between its digits. -/
def readInteger (text : Bytes) : Except NumeralError Int := do
  let (negative, magnitude) := splitSign text
  if magnitude.isEmpty then throw .malformed
  let (base, body) := splitBase magnitude
  let value ← digits base true 0 body
  if magnitude.contains underscore ∧ !underscoresOk magnitude then throw .malformed
  withSign negative value

/-- A decimal integer of 64 bits. -/
def readDecimal (text : Bytes) : Except NumeralError Int := do
  let (negative, magnitude) := splitSign text
  if magnitude.isEmpty then throw .malformed
  let value ← digits 10 false 0 magnitude
  withSign negative value

/-- The texts for true. -/
def trueTexts : List Bytes := ["1", "t", "T", "true", "TRUE", "True"].map utf8

/-- The texts for false. -/
def falseTexts : List Bytes := ["0", "f", "F", "false", "FALSE", "False"].map utf8

/-- A truth value. -/
def readBool? (text : Bytes) : Option Bool :=
  if trueTexts.contains text then some true
  else if falseTexts.contains text then some false
  else none

end Tapelang.Text
