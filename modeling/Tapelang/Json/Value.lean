import Tapelang.Bytes

/-! # JSON values

Numbers keep their literal, and the members of an object keep their order and their duplicates.
-/

namespace Tapelang

/-- A JSON value. -/
inductive Json where
  | null
  | bool (value : Bool)
  | number (literal : Bytes)
  | string (text : Bytes)
  | array (items : List Json)
  | object (members : List (Bytes × Json))
  deriving Repr, Inhabited

namespace Json

/-- An integer as a JSON number. -/
def int (n : Int) : Json := number (signed n)

/-- A natural number as a JSON number. -/
def nat (n : Nat) : Json := number (decimal n)

/-- An object whose members are the ones that are present. -/
def ofMembers (members : List (Option (Bytes × Json))) : Json :=
  object (members.filterMap id)

end Json

end Tapelang
