import Tapelang.Code.Document
import Tapelang.Listing
import Tapelang.Failure

/-! # Disassemblies

Code for the user, as a listing or as JSON, with or without its statistics.
-/

namespace Tapelang

/-- How output is laid out. -/
inductive OutputFormat where
  | text
  | json
  deriving DecidableEq, Repr, Inhabited

/-- The format that a text asks for, in any case; nothing asks for text. -/
def OutputFormat.ofText? (text : Bytes) : Option OutputFormat :=
  let word := text.toLower
  if word = [] ∨ word = utf8 "text" then some .text
  else if word = utf8 "json" then some .json
  else none

/-- The failure to understand a format. -/
def OutputFormat.unknown (text : Bytes) : Failure :=
  .text (utf8 "unknown output format: " ++ text)

/-- JSON for the user: in colour with sorted keys, or plain. -/
def jsonOutput (colour : Bool) (v : Json) : Bytes :=
  (if colour then v.painted else v.indented) ++ utf8 "\n"

/-- Code for the user. -/
def Code.disassembly (c : Code) (format : OutputFormat) (statistics colour : Bool) : Bytes :=
  match format with
  | .text =>
    Listing.render colour (Listing.ofCode c) ++
      if statistics then c.statistics.table.render else []
  | .json =>
    jsonOutput colour <|
      if statistics then
        .object [(utf8 "code", c.toJson), (utf8 "stats", c.statistics.toJson)]
      else c.toJson

end Tapelang
