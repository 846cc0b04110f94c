import Tapelang.Yaml.Lexer

/-! # YAML documents

A document is a tree of scalars, sequences and mappings. An alias holds what it stands for, unless
that is a collection which it is itself a part of.

`Composer` makes the first document of a text from tokens, with a stack of the collections that are
open; whatever follows that document is not looked at.
-/

namespace Tapelang.Yaml

/-- A node of a document. A tag is empty if there is none. -/
inductive Node where
  | scalar (tag : Bytes) (plain : Bool) (text : Bytes)
  | sequence (items : List Node)
  | mapping (pairs : List (Node × Node))
  | alias (name : Bytes) (target : Node)
  /-- An alias of a collection that it is part of. -/
  | cycle (name : Bytes)
  deriving Repr, Inhabited

/-- The node that stands where nothing is written. -/
def Node.empty : Node := .scalar [] true []

/-- A collection that is open, what it holds so far, the last part first, and what it waits for. -/
inductive Frame where
  /-- Entries of a block with marks in front of them. -/
  | blockSequence (items : List Node)
  /-- The same at the column of the keys around it, so that its end has no token. -/
  | flatSequence (items : List Node)
  | blockKey (pairs : List (Node × Node))
  | blockValue (pairs : List (Node × Node)) (key : Node)
  | flowSequence (first : Bool) (items : List Node)
  /-- A single pair in a sequence. -/
  | pairKey
  | pairValue (key : Node)
  | flowKey (first : Bool) (pairs : List (Node × Node))
  /-- A key without a mark, which has no value. -/
  | flowBareKey (pairs : List (Node × Node))
  | flowValue (pairs : List (Node × Node)) (key : Node)
  deriving Repr, Inhabited

/-- What becomes of a frame that is given the node it waits for: it goes on, or it is complete. -/
def Frame.put (node : Node) : Frame → Frame ⊕ Node
  | blockSequence items => .inl (blockSequence (node :: items))
  | flatSequence items => .inl (flatSequence (node :: items))
  | blockKey pairs => .inl (blockValue pairs node)
  | blockValue pairs key => .inl (blockKey ((key, node) :: pairs))
  | flowSequence _ items => .inl (flowSequence false (node :: items))
  | pairKey => .inl (pairValue node)
  | pairValue key => .inr (.mapping [(key, node)])
  | flowKey _ pairs => .inl (flowValue pairs node)
  | flowBareKey pairs => .inl (flowKey false ((node, .empty) :: pairs))
  | flowValue pairs key => .inl (flowKey false ((key, node) :: pairs))

/-- A collection that is open, and the number of its anchor. -/
structure Opened where
  frame : Frame
  anchor : Option Nat := none
  deriving Repr, Inhabited

/-- An anchor: its name, its number and its node, once that is complete. -/
structure Anchor where
  name : Bytes
  number : Nat
  node : Option Node
  deriving Repr, Inhabited

/-- What is due next in a document. -/
inductive Due where
  /-- A node, which may be a block, and may be a sequence at the column of the keys around it. -/
  | node (block flat : Bool)
  /-- Whatever the innermost collection waits for. -/
  | part
  deriving DecidableEq, Repr, Inhabited

/-- A document that is being made. -/
structure Composer where
  lexer : Lexer
  due : Due
  stack : List Opened := []
  /-- The anchors, the last one first. -/
  anchors : List Anchor := []
  /-- What handles stand for in tags. -/
  handles : List (Bytes × Bytes) := []
  deriving Repr, Inhabited

namespace Composer

/-! ## Finished nodes -/

/-- Gives an anchor its node. -/
def bind (anchors : List Anchor) (number : Option Nat) (node : Node) : List Anchor :=
  match number with
  | none => anchors
  | some n => anchors.map fun a => if a.number = n then { a with node := some node } else a

/-- Puts a complete node where it belongs; without an open collection it is the document. -/
def complete (c : Composer) (node : Node) : List Opened → Next Composer (Node × Lexer)
  | [] => .done (node, c.lexer)
  | o :: rest =>
    match o.frame.put node with
    | .inl frame => .again { c with due := .part, stack := { o with frame } :: rest }
    | .inr node => complete { c with anchors := bind c.anchors o.anchor node } node rest

/-- Puts a complete node into the innermost collection. -/
def put (c : Composer) (node : Node) : Next Composer (Node × Lexer) := c.complete node c.stack

/-- Ends the innermost collection, which has become `node`. -/
def close (c : Composer) (node : Node) : Next Composer (Node × Lexer) :=
  match c.stack with
  | o :: rest => complete { c with anchors := bind c.anchors o.anchor node } node rest
  | [] => c.complete node []

/-- Takes the next token away. -/
def advance (c : Composer) : Composer := { c with lexer := c.lexer.advance }

/-- The next token, which stays. -/
def peek (c : Composer) : Option (Token × Composer) :=
  c.lexer.peek.map fun (t, lexer) => (t, { c with lexer })

/-- Changes the frame of the innermost collection. -/
def setFrame (c : Composer) (frame : Frame) : Composer :=
  match c.stack with
  | o :: rest => { c with stack := { o with frame } :: rest }
  | [] => c

/-! ## Nodes -/

/-- What may stand in front of a node. -/
structure Properties where
  anchor : Option Bytes := none
  tag : Bytes := []
  deriving Repr, Inhabited

/-- The tag of a token: what its handle stands for, and the rest. -/
def expandTag (c : Composer) (handle suffix : Bytes) : Option Bytes :=
  if handle.isEmpty then some suffix else (c.handles.lookup handle).map (· ++ suffix)

/-- An anchor and a tag in either order, both of which may be missing. -/
def properties (c : Composer) : Option (Properties × Token × Composer) := do
  let (t, c) ← c.peek
  match t with
  | .anchor name =>
    let (t, c) ← c.advance.peek
    match t with
    | .tag handle suffix =>
      let tag ← c.expandTag handle suffix
      let (t, c) ← c.advance.peek
      return (⟨some name, tag⟩, t, c)
    | t => return (⟨some name, []⟩, t, c)
  | .tag handle suffix =>
    let tag ← c.expandTag handle suffix
    let (t, c) ← c.advance.peek
    match t with
    | .anchor name =>
      let (t, c) ← c.advance.peek
      return (⟨some name, tag⟩, t, c)
    | t => return (⟨none, tag⟩, t, c)
  | t => return ({}, t, c)

/-- Registers an anchor; the same name may be used again. -/
def anchored (c : Composer) (name : Option Bytes) (node : Option Node) : Composer :=
  match name with
  | none => c
  | some name => { c with anchors := ⟨name, c.anchors.length, node⟩ :: c.anchors }

/-- Opens a collection. -/
def enter (c : Composer) (anchor : Option Bytes) (frame : Frame) : Next Composer (Node × Lexer) :=
  let number := anchor.map fun _ => c.anchors.length
  let c := c.anchored anchor none
  .again { c with due := .part, stack := ⟨frame, number⟩ :: c.stack }

/-- The node that an alias stands for. -/
def resolveAlias (c : Composer) (name : Bytes) : Option Node :=
  (c.anchors.find? fun a => a.name == name).map fun a =>
    match a.node with
    | some node => .alias name node
    | none => .cycle name

/-- Takes a node, or the beginning of a collection. -/
def takeNode (c : Composer) (block flat : Bool) : Option (Next Composer (Node × Lexer)) := do
  let (t, c) ← c.peek
  if let .alias name := t then
    let node ← c.resolveAlias name
    return c.advance.put node
  let (p, t, c) ← c.properties
  match t with
  | .scalar text plain =>
    let node := .scalar p.tag plain text
    return (c.advance.anchored p.anchor (some node)).put node
  | .flowSequence => return c.advance.enter p.anchor (.flowSequence true [])
  | .flowMapping => return c.advance.enter p.anchor (.flowKey true [])
  | t =>
    if flat ∧ t = .blockEntry then return c.enter p.anchor (.flatSequence [])
    if block ∧ t = .blockSequence then return c.advance.enter p.anchor (.blockSequence [])
    if block ∧ t = .blockMapping then return c.advance.enter p.anchor (.blockKey [])
    if p.anchor.isNone ∧ p.tag.isEmpty then failure
    let node := .scalar p.tag true []
    return (c.anchored p.anchor (some node)).put node

/-! ## Parts of collections -/

/-- Takes a node unless one of `ends` comes next, in which case nothing is written there. -/
def nodeUnless (c : Composer) (ends : List Token) (block flat : Bool) :
    Option (Next Composer (Node × Lexer)) := do
  let (t, c) ← c.peek
  if ends.contains t then return c.put .empty
  return .again { c with due := .node block flat }

/-- Takes a part of a sequence or mapping in a block. -/
def takeBlockPart (c : Composer) (t : Token) : Frame → Option (Next Composer (Node × Lexer))
  | .blockSequence items =>
    if t = .blockEntry then c.advance.nodeUnless [.blockEntry, .blockEnd] true false
    else if t = .blockEnd then some (c.advance.close (.sequence items.reverse))
    else none
  | .flatSequence items =>
    if t = .blockEntry then
      c.advance.nodeUnless [.blockEntry, .key, .value, .blockEnd] true false
    else some (c.close (.sequence items.reverse))
  | .blockKey pairs =>
    if t = .key then c.advance.nodeUnless [.key, .value, .blockEnd] true true
    else if t = .blockEnd then some (c.advance.close (.mapping pairs.reverse))
    else none
  | _ =>
    if t = .value then c.advance.nodeUnless [.key, .value, .blockEnd] true true
    else some (c.put .empty)

/-- Takes an entry of a sequence in brackets, behind the comma. -/
def takeFlowEntry (c : Composer) (t : Token) (items : List Node) :
    Option (Next Composer (Node × Lexer)) :=
  if t = .flowSequenceEnd then some (c.advance.close (.sequence items.reverse))
  else if t = .key then
    some (.again { c.advance with stack := ⟨.pairKey, none⟩ :: c.stack })
  else some (.again { c with due := .node false false })

/-- Takes a key of a mapping in braces, behind the comma. -/
def takeFlowKey (c : Composer) (t : Token) (pairs : List (Node × Node)) :
    Option (Next Composer (Node × Lexer)) :=
  if t = .flowMappingEnd then some (c.advance.close (.mapping pairs.reverse))
  else if t = .key then c.advance.nodeUnless [.value, .flowEntry, .flowMappingEnd] false false
  else some (.again { c.setFrame (.flowBareKey pairs) with due := .node false false })

/-- Goes on behind the comma that must stand between two parts, unless the collection ends. -/
def behindComma (c : Composer) (t : Token) (first : Bool) (last : Token) :
    Option (Token × Composer) :=
  if first ∨ t = last then some (t, c) else if t = .flowEntry then c.advance.peek else none

/-- Takes a part of a sequence or mapping between brackets. -/
def takeFlowPart (c : Composer) (t : Token) : Frame → Option (Next Composer (Node × Lexer))
  | .flowSequence first items => do
    let (t, c) ← c.behindComma t first .flowSequenceEnd
    c.takeFlowEntry t items
  | .flowKey first pairs => do
    let (t, c) ← c.behindComma t first .flowMappingEnd
    c.takeFlowKey t pairs
  | .flowValue _ _ =>
    if t = .value then c.advance.nodeUnless [.flowEntry, .flowMappingEnd] false false
    else some (c.put .empty)
  | .pairKey =>
    if [.value, .flowEntry, .flowSequenceEnd].contains t then some (c.advance.put .empty)
    else some (.again { c with due := .node false false })
  | _ =>
    if t = .value then c.advance.nodeUnless [.flowEntry, .flowSequenceEnd] false false
    else some (c.put .empty)

/-- Takes what is due. -/
def step (c : Composer) : Option (Next Composer (Node × Lexer)) := do
  match c.due, c.stack with
  | .node block flat, _ => c.takeNode block flat
  | .part, o :: _ =>
    let (t, c) ← c.peek
    match o.frame with
    | .blockSequence _ | .flatSequence _ | .blockKey _ | .blockValue _ _ =>
      c.takeBlockPart t o.frame
    | frame => c.takeFlowPart t frame
  | .part, [] => failure

end Composer

/-! ## Documents -/

/-- What the handles stand for that need no directive. -/
def standardHandles : List (Bytes × Bytes) :=
  [(utf8 "!", utf8 "!"), (utf8 "!!", utf8 "tag:yaml.org,2002:")]

/-- Directives that are being read: whether a version was given, and the handles. -/
structure Directives where
  lexer : Lexer
  versioned : Bool := false
  handles : List (Bytes × Bytes) := []
  deriving Repr, Inhabited

/-- Takes a directive. No more than one version may be given, and only one is known; no handle may
be given twice. -/
def stepDirective (d : Directives) : Option (Next Directives Directives) := do
  let (t, lexer) ← d.lexer.peek
  match t with
  | .version major minor =>
    if d.versioned ∨ major ≠ 1 ∨ minor ≠ 1 then failure
    return .again { d with lexer := lexer.advance, versioned := true }
  | .tagDirective handle start =>
    if (d.handles.lookup handle).isSome then failure
    return .again { d with lexer := lexer.advance, handles := d.handles ++ [(handle, start)] }
  | _ => return .done { d with lexer }

/-- The document that a composer makes. What follows it must be readable as far as the next
token. -/
def Composer.document (c : Composer) : Option Node := do
  let (node, lexer) ← iterate step (16 * c.lexer.scanner.bound) c
  let _ ← lexer.peek
  return node

/-- A document that begins with directives or with a mark. -/
def explicitDocument (l : Lexer) : Option Node := do
  let d ← iterate stepDirective l.scanner.bound { lexer := l }
  let (t, lexer) ← d.lexer.peek
  if t ≠ .documentStart then failure
  let (t, lexer) ← lexer.advance.peek
  match t with
  | .version _ _ | .tagDirective _ _ | .documentStart | .documentEnd | .streamEnd =>
    return .empty
  | _ =>
    Composer.document
      { lexer, due := .node true false, handles := d.handles ++ standardHandles }

/-- The first document of a text. There may be none, and the text may be malformed. -/
def firstDocument (text : Bytes) : Option (Option Node) := do
  let (t, lexer) ← (Lexer.ofText text).peek
  match t with
  | .streamEnd => return none
  | .version _ _ | .tagDirective _ _ | .documentStart => (explicitDocument lexer).map some
  | _ =>
    (Composer.document
      { lexer, due := .node true false, handles := standardHandles }).map some

end Tapelang.Yaml
