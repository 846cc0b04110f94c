import Tapelang.Binary64
import Tapelang.Text.Caseless

/-! # Settings

A setting is a value in a configuration file. Whatever kind of value it is, it can be taken as an
integer, as a truth value and as a text; what cannot be understood counts as zero, as false or as
no text. A configuration gives settings by name, without regard to case.
-/

namespace Tapelang

open Text

/-- A value in a configuration file. -/
inductive Setting where
  | null
  | bool (value : Bool)
  | int (value : Int)
  | float (value : Binary64)
  /-- A date or a time, in words. -/
  | moment (words : Bytes)
  | text (value : Bytes)
  /-- A list, a table or anything else that is no single value. -/
  | other
  deriving DecidableEq, Repr, Inhabited

namespace Setting

/-- An integer of 64 bits: one without a sign that is too large for one with a sign wraps around. -/
def wrap (n : Int) : Int := if 0x8000000000000000 ≤ n then n - 0x10000000000000000 else n

/-- What stands in front of the point of a whole number whose fraction is zero. It is looked for
from the end, among zeros and points only. -/
def beforeZeroFraction? : (seenZero : Bool) → Bytes → Option Bytes
  | _, [] => none
  | seenZero, 46 :: rest => if seenZero then some rest else beforeZeroFraction? seenZero rest
  | _, 48 :: rest => beforeZeroFraction? true rest
  | _, _ => none

/-- A whole number without its fraction, if that is zero. -/
def withoutZeroFraction (text : Bytes) : Bytes :=
  match beforeZeroFraction? false text.reverse with
  | some rest => rest.reverse
  | none => text

/-- The setting as an integer of 64 bits. -/
def toInt : Setting → Int
  | null | moment _ | other => 0
  | bool b => if b then 1 else 0
  | int n => wrap n
  | float x => x.truncate
  | text t =>
    match readInteger (withoutZeroFraction t) with
    | .ok n => n
    | .error _ => 0

/-- The setting as a truth value. -/
def toBool : Setting → Bool
  | null | moment _ | other => false
  | bool b => b
  | int n => n ≠ 0
  | float x => !x.isZero
  | text t => (readBool? t).getD false

/-- The setting as a text. -/
def toText : Setting → Bytes
  | null | other => []
  | bool b => utf8 (if b then "true" else "false")
  | int n => signed n
  | float x => x.render
  | moment words => words
  | text t => t

end Setting

/-- Settings by name, the ones that count most first. -/
structure Configuration where
  entries : List (Bytes × Setting) := []
  deriving DecidableEq, Repr, Inhabited

namespace Configuration

/-- The setting called `name`, which is in lower case. A name that is not in lower case throughout
counts more than one that is, and a setting that is null is none. -/
def find? (c : Configuration) (name : Bytes) : Option Setting :=
  let named := c.entries.filter fun (key, _) => lowerName key == name
  let found := match named.find? fun (key, _) => key != name with
    | some entry => some entry
    | none => named.head?
  (found.map (·.2)).filter (· ≠ .null)

end Configuration

end Tapelang
