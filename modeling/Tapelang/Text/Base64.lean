import Tapelang.Bytes

/-! # Bytes as letters

Three bytes are written as four letters out of sixty-four; the last letters of a text are filled up
with `=`. Line ends between letters do not matter.
-/

namespace Tapelang.Text

/-- The six bits of a letter. -/
def base64Value? (b : UInt8) : Option Nat :=
  if 65 ≤ b ∧ b ≤ 90 then some (b.toNat - 65)
  else if 97 ≤ b ∧ b ≤ 122 then some (b.toNat - 71)
  else if 48 ≤ b ∧ b ≤ 57 then some (b.toNat + 4)
  else if b = '+'.toUInt8 then some 62
  else if b = '/'.toUInt8 then some 63
  else none

/-- The first `count` bytes of a number of 24 bits. -/
def leadingBytes (count n : Nat) : Bytes :=
  [(n / 0x10000).toUInt8, (n / 0x100).toUInt8, n.toUInt8].take count

/-- The number that four letters write, of which the missing ones count as zero bits. -/
def quartet? (letters : Bytes) : Option Nat :=
  (letters.mapM base64Value?).map fun values =>
    (values ++ [0, 0, 0, 0]).take 4 |>.foldl (fun n v => n * 64 + v) 0

/-- The bytes that letters without line ends stand for. -/
def base64Groups? : Bytes → Option Bytes
  | [] => some []
  | [a, b, 61, 61] => (quartet? [a, b]).map (leadingBytes 1)
  | [a, b, c, 61] => (quartet? [a, b, c]).map (leadingBytes 2)
  | a :: b :: c :: d :: rest =>
    match quartet? [a, b, c, d], base64Groups? rest with
    | some n, some bytes => some (leadingBytes 3 n ++ bytes)
    | _, _ => none
  | _ => none

/-- The bytes that a text stands for. -/
def readBase64? (text : Bytes) : Option Bytes :=
  base64Groups? (text.filter fun b => b ≠ 10 ∧ b ≠ 13)

end Tapelang.Text
