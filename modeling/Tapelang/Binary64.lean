import Tapelang.Text.Numeral

/-! # Floating-point numbers

Binary numbers with 53 significant bits. A decimal numeral is read exactly and rounded once, to the
nearest number and half-way to the one with an even mantissa. A number is written with the fewest
digits that read back as it, the nearest of those, and always in positional form.
-/

namespace Tapelang

open Text

/-- A floating-point number: `mantissa` times two to the power of `exponent`, an infinity, or what
is no number. A finite number has its exponent as small as the mantissa and `leastExponent`
allow. -/
inductive Binary64 where
  | finite (negative : Bool) (mantissa : Nat) (exponent : Int)
  | infinite (negative : Bool)
  | nan
  deriving DecidableEq, Repr, Inhabited

namespace Binary64

/-- The number of bits of a mantissa. -/
def precision : Nat := 53

/-- The least exponent. -/
def leastExponent : Int := -1074

/-- The greatest exponent. -/
def greatestExponent : Int := 971

/-! ## Rounding -/

/-- A quotient rounded to the nearest integer, half-way to the even one. -/
def roundQuotient (num den : Nat) : Nat :=
  let quotient := num / den
  let rest := 2 * (num % den)
  if rest < den then quotient
  else if den < rest then quotient + 1
  else quotient + quotient % 2

/-- A power of ten. -/
def tenTo (power : Nat) : Nat := Nat.pow 10 power

/-- A ratio divided by two to the power of `e`. -/
def shiftRatio (num den : Nat) (e : Int) : Nat × Nat :=
  (num <<< (-e).toNat, den <<< e.toNat)

/-- The exponent of the greatest power of two that is not above a positive ratio. -/
def magnitude (num den : Nat) : Int :=
  let guess : Int := (num.log2 : Int) - den.log2
  let (n, d) := shiftRatio num den guess
  if n < d then guess - 1 else guess

/-- The number nearest to a ratio; none if the ratio is too large. -/
def ofRatio? (negative : Bool) (num den : Nat) : Option Binary64 :=
  if num = 0 then some (.finite negative 0 leastExponent)
  else
    let e := max (magnitude num den - (precision - 1)) leastExponent
    let (n, d) := shiftRatio num den e
    let mantissa := roundQuotient n d
    let (mantissa, e) :=
      if mantissa = 1 <<< precision then (1 <<< (precision - 1), e + 1) else (mantissa, e)
    if greatestExponent < e then none else some (.finite negative mantissa e)

/-- The number nearest to an integer. -/
def ofInt (n : Int) : Binary64 :=
  (ofRatio? (n < 0) n.natAbs 1).getD (.infinite (n < 0))

/-! ## Reading -/

/-- Whether a byte is a decimal digit. -/
def isDigit (b : UInt8) : Bool := 48 ≤ b && b ≤ 57

/-- The number that decimal digits write. -/
def ofDigits (digits : Bytes) : Nat := digits.foldl (fun n b => 10 * n + (b.toNat - 48)) 0

/-- The bound on exponents: one that has reached it grows no further. -/
def exponentBound : Nat := 10000

/-- The exponent that digits write, up to a digit beyond the bound. -/
def boundedDigits (digits : Bytes) : Nat :=
  digits.foldl (fun n b => if n < exponentBound then 10 * n + (b.toNat - 48) else n) 0

/-- The exponent behind a numeral's digits, which may be missing. -/
def exponent? : Bytes → Option Int
  | [] => some 0
  | e :: rest =>
    let (negative, body) := splitSign rest
    if (e = 'e'.toUInt8 ∨ e = 'E'.toUInt8) ∧ body.head?.any isDigit ∧
        body.all fun b => isDigit b || b == underscore then
      let n : Int := boundedDigits (body.filter isDigit)
      some (if negative then -n else n)
    else none

/-- The number that a decimal numeral writes, with an optional sign, point and exponent and with
underscores between digits; none if the text is no numeral or its number too large. -/
def read? (text : Bytes) : Option Binary64 :=
  let (negative, body) := splitSign text
  let inNumeral := fun b => isDigit b || b == underscore
  let (whole, rest) := body.span inNumeral
  let (fraction, rest) := match rest with
    | 46 :: more => more.span inNumeral
    | rest => ([], rest)
  let places := (fraction.filter isDigit).length
  let digits := (whole ++ fraction).filter isDigit
  if digits.isEmpty ∨ (body.contains underscore ∧ !underscoresOk body) then none
  else (exponent? rest).bind fun e =>
    let e := e - places
    let value := ofDigits digits
    if value = 0 then ofRatio? negative 0 1
    else ofRatio? negative (value * tenTo e.toNat) (tenTo (-e).toNat)

/-! ## Writing -/

/-- Where a positive number lies on the grid of multiples of a power of ten: the multiplier of the
nearest point that reads back as the number, if there is one. -/
def gridPoint? (mantissa : Nat) (exponent power : Int) : Option Nat :=
  -- Everything is measured in quarters of the number's last place, times a common denominator.
  let unit := tenTo power.toNat <<< (2 - exponent).toNat
  let quarter := tenTo (-power).toNat <<< (exponent - 2).toNat
  let value := 4 * mantissa * quarter
  let isBoundary := mantissa = 1 <<< (precision - 1) ∧ exponent ≠ leastExponent
  let low := value - (if isBoundary then 1 else 2) * quarter
  let high := value + 2 * quarter
  let readsBack := fun point =>
    if mantissa % 2 = 0 then low ≤ point ∧ point ≤ high else low < point ∧ point < high
  let below := value / unit
  let above := below + 1
  match decide (readsBack (below * unit)), decide (readsBack (above * unit)) with
  | false, false => none
  | true, false => some below
  | false, true => some above
  | true, true =>
    let down := value - below * unit
    let up := above * unit - value
    some (if down < up ∨ (down = up ∧ below % 2 = 0) then below else above)

/-- The first grid, from `power` downwards, that has a point which reads back as the number. -/
def shortestFrom (mantissa : Nat) (exponent : Int) : (grids : Nat) → (power : Int) → Nat × Int
  | 0, _ => (0, 0)
  | grids + 1, power =>
    match gridPoint? mantissa exponent power with
    | some point => (point, power)
    | none => shortestFrom mantissa exponent grids (power - 1)

/-- The fewest digits that read back as a positive number, as a multiple of a power of ten. -/
def shortest (mantissa : Nat) (exponent : Int) : Nat × Int :=
  let start := ((mantissa.log2 : Int) + exponent) * 30103 / 100000 + 1
  shortestFrom mantissa exponent 24 start

/-- A multiple of a power of ten in positional form, without zeros at the end of its fraction. -/
def positional (multiplier : Nat) (power : Int) : Bytes :=
  let places := (-power).toNat
  let scaled := multiplier * tenTo power.toNat
  let digits := decimal (scaled % tenTo places)
  let fraction := List.replicate (places - digits.length) 48 ++ digits
  let fraction := (fraction.reverse.dropWhile (· == 48)).reverse
  decimal (scaled / tenTo places) ++ if fraction.isEmpty then [] else utf8 "." ++ fraction

/-- The sign of a negative number. -/
def sign (negative : Bool) : Bytes := if negative then utf8 "-" else []

/-- The number in decimal. -/
def render : Binary64 → Bytes
  | finite negative mantissa exponent =>
    let (multiplier, power) := if mantissa = 0 then (0, 0) else shortest mantissa exponent
    sign negative ++ positional multiplier power
  | infinite negative => utf8 (if negative then "-Inf" else "+Inf")
  | nan => utf8 "NaN"

/-! ## Conversion -/

/-- Whether the number is zero, with either sign. -/
def isZero : Binary64 → Bool
  | finite _ mantissa _ => mantissa == 0
  | _ => false

/-- The integer of 64 bits that stands for every number without one. -/
def noInteger : Int := -0x8000000000000000

/-- The number without its fraction, if that is an integer of 64 bits. -/
def truncate : Binary64 → Int
  | finite negative mantissa exponent =>
    let size : Nat := (mantissa <<< exponent.toNat) >>> (-exponent).toNat
    let whole : Int := if negative then -size else size
    if -0x8000000000000000 ≤ whole ∧ whole < 0x8000000000000000 then whole else noInteger
  | _ => noInteger

end Binary64

end Tapelang
