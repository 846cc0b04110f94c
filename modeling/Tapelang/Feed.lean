import Tapelang.Failure

/-! # Feeds

A feed is where bytes come from: a script of what successive requests deliver, and what every
request delivers once the script is used up. Files, standard input and texts in memory are feeds
with one data chunk. `Feed.pull` answers one request for at most `blockSize` bytes, and
`Feed.left` counts the data bytes that a feed still holds.

Main fact: a request takes from the feed exactly the bytes that it delivers
(`size_add_left_pull`).
-/

namespace Tapelang

/-- The most bytes that one request asks for. -/
def blockSize : Nat := 4096

/-- How many empty answers in a row a reader puts up with. -/
def patience : Nat := 100

/-- Why bytes could not be read. -/
inductive ReadFault where
  /-- The feed refused with a message. -/
  | refused (message : Bytes)
  /-- The feed went on delivering nothing. -/
  | stalled
  deriving DecidableEq, Repr, Inhabited

/-- A read fault as a failure. -/
def ReadFault.toFailure : ReadFault → Failure
  | refused message => .text message
  | stalled => .text (utf8 "multiple Read calls return no data or error")

/-- One entry of a feed's script. -/
inductive Chunk where
  /-- These bytes, in as many requests as they need. -/
  | data (bytes : Bytes)
  /-- One request fails. -/
  | fault (message : Bytes)
  /-- `count` requests deliver nothing. -/
  | blank (count : Nat)
  /-- `count` requests meet the end of data. -/
  | ending (count : Nat)
  deriving DecidableEq, Repr, Inhabited

/-- What every request meets after the script. -/
inductive Tail where
  | ending
  | fault (message : Bytes)
  deriving DecidableEq, Repr, Inhabited

/-- A source of bytes. -/
structure Feed where
  script : List Chunk := []
  tail : Tail := .ending
  deriving DecidableEq, Repr, Inhabited

/-- What one request delivers. Data is never empty. -/
inductive Delivery where
  | data (first : UInt8) (more : Bytes)
  | nothing
  | ending
  | fault (message : Bytes)
  deriving DecidableEq, Repr, Inhabited

/-- How many bytes a delivery brings. -/
def Delivery.size : Delivery → Nat
  | data _ more => more.length + 1
  | _ => 0

namespace Chunk

/-- The data bytes in an entry. -/
def left : Chunk → Nat
  | data bytes => bytes.length
  | _ => 0

end Chunk

namespace Feed

/-- A feed that delivers `bytes` and then ends. -/
def ofBytes (bytes : Bytes) : Feed := ⟨[.data bytes], .ending⟩

/-- The data bytes that a script still holds. -/
def scriptLeft : List Chunk → Nat
  | [] => 0
  | chunk :: rest => chunk.left + scriptLeft rest

/-- The data bytes that the feed still holds. -/
def left (f : Feed) : Nat :=
  scriptLeft f.script

/-- Answers one request by the first entry of the script that has something left. -/
def pullScript (tail : Tail) : List Chunk → Delivery × List Chunk
  | [] =>
    match tail with
    | .ending => (.ending, [])
    | .fault message => (.fault message, [])
  | .data [] :: rest => pullScript tail rest
  | .data (b :: bs) :: rest =>
    (.data b (bs.take (blockSize - 1)), .data (bs.drop (blockSize - 1)) :: rest)
  | .fault message :: rest => (.fault message, rest)
  | .blank 0 :: rest => pullScript tail rest
  | .blank (n + 1) :: rest => (.nothing, .blank n :: rest)
  | .ending 0 :: rest => pullScript tail rest
  | .ending (n + 1) :: rest => (.ending, .ending n :: rest)

/-- Answers one request. -/
def pull (f : Feed) : Delivery × Feed :=
  let (delivery, script) := pullScript f.tail f.script
  (delivery, { f with script })

/-- All the data up to the first end of data. -/
def contentsOf (tail : Tail) : List Chunk → Except ReadFault Bytes
  | [] =>
    match tail with
    | .ending => .ok []
    | .fault message => .error (.refused message)
  | .data bytes :: rest => (contentsOf tail rest).map (bytes ++ ·)
  | .fault message :: _ => .error (.refused message)
  | .blank _ :: rest => contentsOf tail rest
  | .ending 0 :: rest => contentsOf tail rest
  | .ending (_ + 1) :: _ => .ok []

/-- All the data of a feed, for a reader that waits as long as it takes. -/
def contents (f : Feed) : Except ReadFault Bytes := contentsOf f.tail f.script

/-- What a reader gets of a feed before its first end or fault, and the fault if it was one. -/
structure Lead where
  bytes : Bytes := []
  fault : Option ReadFault := none
  deriving DecidableEq, Repr, Inhabited

/-- The lead of a script after `blanks` empty answers in a row. -/
def leadOf (tail : Tail) : (blanks : Nat) → List Chunk → Lead
  | _, [] =>
    match tail with
    | .ending => {}
    | .fault message => { fault := some (.refused message) }
  | blanks, .data [] :: rest => leadOf tail blanks rest
  | _, .data (b :: bs) :: rest =>
    let lead := leadOf tail 0 rest
    { lead with bytes := b :: bs ++ lead.bytes }
  | _, .fault message :: _ => { fault := some (.refused message) }
  | blanks, .blank n :: rest =>
    if patience ≤ blanks + n then { fault := some .stalled } else leadOf tail (blanks + n) rest
  | blanks, .ending 0 :: rest => leadOf tail blanks rest
  | _, .ending (_ + 1) :: _ => {}

/-- The lead of a feed. -/
def lead (f : Feed) : Lead := leadOf f.tail 0 f.script

/-! ## What a request takes -/

theorem left_pullScript (tail : Tail) (script : List Chunk) :
    (pullScript tail script).1.size + scriptLeft (pullScript tail script).2
      = scriptLeft script := by
  fun_induction pullScript tail script <;> simp_all [scriptLeft, Chunk.left, Delivery.size]
  omega

/-- A request takes from the feed exactly the bytes that it delivers. -/
theorem size_add_left_pull (f : Feed) : f.pull.1.size + f.pull.2.left = f.left :=
  left_pullScript f.tail f.script

end Feed

end Tapelang
