import Tapelang.Bytes

/-! # Templates

A template is a text with places for arguments: `%s`, `%d` and `%v` stand for the next argument
and `%%` for a percent sign. Any other percent sign stands for itself.
-/

namespace Tapelang.Text

/-- The template with its places filled by the texts of the arguments. A place without an argument
is left empty. -/
def fill : (template : Bytes) → (arguments : List Bytes) → Bytes
  | 37 :: c :: rest, arguments =>
    if c = 's'.toUInt8 ∨ c = 'd'.toUInt8 ∨ c = 'v'.toUInt8 then
      arguments.headD [] ++ fill rest arguments.tail
    else if c = 37 then 37 :: fill rest arguments
    else 37 :: c :: fill rest arguments
  | b :: rest, arguments => b :: fill rest arguments
  | [], _ => []

end Tapelang.Text
