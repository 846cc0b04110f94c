import Tapelang.Yaml.Schema

/-! # Settings in YAML documents

The document of a configuration file is a mapping from names to settings. All of it is visited,
because an error anywhere makes it useless: a key that is written twice, a key that is a
collection, a scalar that does not have the meaning its tag asks for, an alias that contains
itself, or so many aliases that the document is much larger than its text.

A mapping may take over pairs of other mappings: those that it does not have itself, and of two
sources the first one counts.
-/

namespace Tapelang.Yaml

open Text

/-! ## Keys -/

/-- Whether two keys are written alike. Collections never differ in this. -/
def sameKey : Node → Node → Bool
  | .scalar _ _ a, .scalar _ _ b => a == b
  | .sequence _, .sequence _ => true
  | .mapping _, .mapping _ => true
  | .alias a _, .alias b _ | .alias a _, .cycle b | .cycle a, .alias b _ | .cycle a, .cycle b => a == b
  | _, _ => false

/-- Whether no two keys are written alike. -/
def keysDiffer : List (Node × Node) → Bool
  | [] => true
  | (key, _) :: rest => !rest.any (fun (other, _) => sameKey key other) && keysDiffer rest

/-- Whether a key asks for pairs of other mappings. -/
def isMergeKey : Node → Bool
  | .scalar tag plain text => text == utf8 "<<" && scalarTag tag plain text == .merge
  | _ => false

/-- Whether a key is a text, or asks for pairs of other mappings. -/
def isTextKey : Node → Bool
  | .scalar tag plain text =>
    let tag := scalarTag tag plain text
    tag == .str || tag == .merge
  | .alias _ target => isTextKey target
  | _ => false

/-- Whether a node is a mapping, or an alias of one. -/
def isMapping : Node → Bool
  | .mapping _ | .alias _ (.mapping _) => true
  | _ => false

/-! ## Counting -/

/-- The number of nodes visited, and how many of them as parts of aliases. -/
structure Visits where
  all : Nat := 0
  aliased : Nat := 0
  deriving DecidableEq, Repr, Inhabited

namespace Visits

/-- Up to this many visits, nearly all of them may be parts of aliases. -/
def fewVisits : Nat := 400000

/-- From this many visits on, a tenth of them may be parts of aliases. -/
def manyVisits : Nat := 4000000

/-- Whether too large a part of the visits are parts of aliases: more than 99 of 100 when they are
few, more than 10 of 100 when they are many, and in between accordingly. -/
def isExcessive (v : Visits) : Bool :=
  let range := manyVisits - fewVisits
  let allowed := 99 * range - 89 * (min v.all manyVisits - fewVisits)
  v.aliased > 100 && v.all > 1000 && v.aliased * 100 * range > v.all * allowed

/-- Counts a visit. -/
def count (v : Visits) (aliased : Bool) : Option Visits :=
  let v : Visits := ⟨v.all + 1, v.aliased + aliased.toNat⟩
  if v.isExcessive then none else some v

end Visits

/-! ## Visiting -/

/-- What is known about the mapping whose pairs are visited: whether its keys are taken as texts, the
keys that it need not take over from others, if it takes over any, and the pairs it has got, the last
one first. -/
structure Gathered where
  visits : Visits
  textKeys : Bool
  known : Option (List Setting) := none
  pairs : List (Bytes × Setting) := []
  deriving Repr, Inhabited

/-- The key of a pair taken as a text; none for a key that is null. -/
def textKey? (tag : Bytes) (plain : Bool) (text : Bytes) : Option (Option Bytes) :=
  (scalarMeaning? tag plain text).map fun
    | .null => none
    | .text value => some value
    | _ => some text

/-- Whether a pair with this key is already there; if not, it is noted. -/
def Gathered.note (g : Gathered) (key : Setting) : Bool × Gathered :=
  match g.known with
  | none => (false, g)
  | some known =>
    if known.contains key then (true, g) else (false, { g with known := some (key :: known) })

/-- Adds a pair. -/
def Gathered.add (g : Gathered) (key : Setting) (value : Setting) (visits : Visits) : Gathered :=
  { g with visits, pairs := (key.toText, value) :: g.pairs }

/-- Visits the pairs of a mapping: first its own, then those that it takes over. When it begins to take
over pairs, it must know its own keys. -/
def gatherWith (own merges : Gathered → Option Gathered)
    (keys : Visits → Option (List Setting × Visits)) (pairs : List (Node × Node)) (g : Gathered) :
    Option Gathered := do
  if !keysDiffer pairs then failure
  let g ← own g
  if !pairs.any fun (key, _) => isMergeKey key then return g
  match g.known with
  | some _ => merges g
  | none =>
    let (known, visits) ← keys g.visits
    let g ← merges { g with known := some known, visits }
    return { g with known := none }

/-- Whether a mapping has no keys but texts. -/
def hasTextKeys (pairs : List (Node × Node)) : Bool := pairs.all fun (key, _) => isTextKey key

mutual

/-- Visits a node and gives its meaning; `inAlias` says whether it is part of an alias. -/
def visit (inAlias : Bool) (v : Visits) : Node → Option (Setting × Visits)
  | .scalar tag plain text => do
    let v ← v.count inAlias
    let setting ← scalarMeaning? tag plain text
    return (setting, v)
  | .sequence items => do
    let v ← v.count inAlias
    let v ← visitItems inAlias v items
    return (.other, v)
  | .mapping pairs => do
    let v ← v.count inAlias
    let g ← gatherWith (fun g => visitPairs inAlias g pairs) (fun g => visitMerges inAlias g pairs)
      (fun v => visitKeys inAlias v pairs) pairs { visits := v, textKeys := hasTextKeys pairs }
    return (.other, g.visits)
  | .alias _ target => do
    let v ← v.count inAlias
    visit true v target
  | .cycle _ => none

/-- Visits the items of a sequence. -/
def visitItems (inAlias : Bool) (v : Visits) : List Node → Option Visits
  | [] => some v
  | item :: rest => do
    let (_, v) ← visit inAlias v item
    visitItems inAlias v rest

/-- Visits the keys of a mapping, in order to know them. -/
def visitKeys (inAlias : Bool) (v : Visits) : List (Node × Node) → Option (List Setting × Visits)
  | [] => some ([], v)
  | (key, _) :: rest => do
    let (setting, v) ← visit inAlias v key
    if setting = .other then failure
    let (known, v) ← visitKeys inAlias v rest
    return (setting :: known, v)

/-- Visits a key that is taken as a text; none for a key that is null. -/
def visitTextKey (inAlias : Bool) (v : Visits) : Node → Option (Option Bytes × Visits)
  | .scalar tag plain text => do
    let v ← v.count inAlias
    let key ← textKey? tag plain text
    return (key, v)
  | .alias _ target => do
    let v ← v.count inAlias
    visitTextKey true v target
  | _ => none

/-- Visits the pairs of a mapping that are its own. A pair whose key is null does not count where keys
are texts. -/
def visitPairs (inAlias : Bool) (g : Gathered) : List (Node × Node) → Option Gathered
  | [] => some g
  | (key, value) :: rest => do
    if isMergeKey key then visitPairs inAlias g rest
    else
      let (setting, visits) ←
        if g.textKeys then
          (visitTextKey inAlias g.visits key).map fun (text, visits) => (text.map .text, visits)
        else
          (visit inAlias g.visits key).map fun (setting, visits) => (some setting, visits)
      let g := { g with visits }
      match setting with
      | none => visitPairs inAlias g rest
      | some .other => failure
      | some setting =>
        let (present, g) := g.note setting
        if present then visitPairs inAlias g rest
        else
          let (meaning, visits) ← visit inAlias g.visits value
          visitPairs inAlias (g.add setting meaning visits) rest

/-- Takes over the pairs that the merging key asks for. -/
def visitMerges (inAlias : Bool) (g : Gathered) : List (Node × Node) → Option Gathered
  | [] => some g
  | (key, value) :: rest =>
    if isMergeKey key then absorb inAlias g value else visitMerges inAlias g rest

/-- Takes over the pairs of a mapping, of an alias of one, or of a sequence of these. -/
def absorb (inAlias : Bool) (g : Gathered) : Node → Option Gathered
  | .mapping pairs => do
    let visits ← g.visits.count inAlias
    gatherWith (fun g => visitPairs inAlias g pairs) (fun g => visitMerges inAlias g pairs)
      (fun v => visitKeys inAlias v pairs) pairs { g with visits }
  | .alias _ target =>
    if isMapping target then do
      let visits ← g.visits.count inAlias
      absorb true { g with visits } target
    else none
  | .sequence items => absorbAll inAlias g items
  | _ => none

/-- Takes over the pairs of several mappings. -/
def absorbAll (inAlias : Bool) (g : Gathered) : List Node → Option Gathered
  | [] => some g
  | item :: rest => do
    if !isMapping item then failure
    let g ← absorb inAlias g item
    absorbAll inAlias g rest

end

/-- The settings of a document: a mapping with texts for keys, or nothing. -/
def Node.settings : Node → Option Configuration
  | .mapping pairs =>
    (absorb false { visits := ⟨1, 0⟩, textKeys := true } (.mapping pairs)).map fun g => ⟨g.pairs⟩
  | .scalar tag plain text =>
    if scalarMeaning? tag plain text = some .null then some {} else none
  | _ => none

/-- The settings of a YAML text; none if it is malformed. -/
def readSettings? (text : Bytes) : Option Configuration :=
  match firstDocument text with
  | none => none
  | some none => some {}
  | some (some node) => node.settings

end Tapelang.Yaml
