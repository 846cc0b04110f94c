/-! # Byte texts

Program texts, names, paths, messages and cells are all sequences of bytes; nothing in them has
to be well-formed UTF-8. `Bytes` is the one text type of this library, `utf8` writes a literal as
bytes, and `decimal` and `signed` write numbers.
-/

namespace Tapelang

/-- A text: any sequence of bytes. -/
abbrev Bytes := List UInt8

/-- The UTF-8 bytes of a literal. -/
def utf8 (s : String) : Bytes :=
  s.toList.flatMap String.utf8EncodeChar

/-- A natural number in decimal, without leading zeros. -/
def decimal (n : Nat) : Bytes :=
  (Nat.toDigits 10 n).map Char.toUInt8

/-- An integer in decimal, with a leading `-` when it is negative. -/
def signed : Int → Bytes
  | .ofNat n => decimal n
  | .negSucc n => '-'.toUInt8 :: decimal (n + 1)

/-- The digit of value `n` below 16, in lower case. -/
def hexDigit (n : Nat) : UInt8 :=
  (Nat.digitChar (n % 16)).toUInt8

/-- The value of a hexadecimal digit of either case. -/
def hexValue? (b : UInt8) : Option Nat :=
  if 48 ≤ b ∧ b ≤ 57 then some (b.toNat - 48)
  else if 97 ≤ b ∧ b ≤ 102 then some (b.toNat - 87)
  else if 65 ≤ b ∧ b ≤ 70 then some (b.toNat - 55)
  else none

/-- The lowest `width` hexadecimal digits of `n`. -/
def hexadecimal : (width : Nat) → (n : Nat) → Bytes
  | 0, _ => []
  | width + 1, n => hexadecimal width (n / 16) ++ [hexDigit n]

namespace Bytes

/-- The texts of a list, one after the other, with `separator` between neighbours. -/
def join (separator : Bytes) (texts : List Bytes) : Bytes :=
  (texts.intersperse separator).flatten

/-- `n` copies of a text. -/
def times (text : Bytes) (n : Nat) : Bytes :=
  (List.replicate n text).flatten

/-- ASCII upper-case letters made lower case; every other byte is kept. -/
def toLower (text : Bytes) : Bytes :=
  text.map fun b => if 65 ≤ b ∧ b ≤ 90 then b + 32 else b

/-- The order of texts byte by byte, a text before its extensions. -/
def le : Bytes → Bytes → Bool
  | [], _ => true
  | _ :: _, [] => false
  | a :: as, b :: bs => a < b || (a == b && le as bs)

/-- The parts of a text between the bytes that equal `separator`, empty parts included. -/
def splitOn (separator : UInt8) : Bytes → List Bytes
  | [] => [[]]
  | b :: rest =>
    match splitOn separator rest with
    | part :: parts => if b = separator then [] :: part :: parts else (b :: part) :: parts
    | [] => [[b]]

/-- The text split at the first byte that equals `separator`, which belongs to neither part. -/
def breakOn? (separator : UInt8) : Bytes → Option (Bytes × Bytes)
  | [] => none
  | b :: rest =>
    if b = separator then some ([], rest)
    else (breakOn? separator rest).map fun (before, after) => (b :: before, after)

/-- What follows `start`, for a text that begins with it. -/
def dropStart? : (start : Bytes) → Bytes → Option Bytes
  | [], text => some text
  | _ :: _, [] => none
  | a :: as, b :: bs => if a = b then dropStart? as bs else none

end Bytes

end Tapelang
