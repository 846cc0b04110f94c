import Tapelang.Feed

/-! # Buffered reading

A reader hands out the bytes of a feed one at a time. It makes a request only when its buffer is
empty, gives up after `patience` empty answers in a row, and forgets a failure once it has been
returned, so that a later call reads on. `pulls` counts the requests made.

Main fact: a byte handed out is one byte less to come, and no other call changes what is to come
(`size_add_left_next`).
-/

namespace Tapelang

/-- What a call for the next byte brings. -/
inductive Arrival where
  | byte (b : UInt8)
  | ending
  | fault (why : ReadFault)
  deriving DecidableEq, Repr, Inhabited

/-- How many bytes an arrival is. -/
def Arrival.size : Arrival → Nat
  | byte _ => 1
  | _ => 0

/-- A feed with a buffer in front of it. -/
structure Reader where
  buffer : Bytes := []
  feed : Feed
  pulls : Nat := 0
  deriving Repr, Inhabited

namespace Reader

/-- A reader that has not made a request yet. -/
def ofFeed (feed : Feed) : Reader := { feed }

/-- The bytes still to come: those in the buffer and those in the feed. -/
def left (r : Reader) : Nat :=
  r.buffer.length + r.feed.left

/-- Makes requests until one brings data, an end or a failure, `attempts` at most. The first byte
of the data is handed out and the others fill the buffer. -/
def refill : (attempts : Nat) → Feed → (pulls : Nat) → Arrival × Reader
  | 0, feed, pulls => (.fault .stalled, { feed, pulls })
  | attempts + 1, feed, pulls =>
    match feed.pull with
    | (.data b more, feed) => (.byte b, { buffer := more, feed, pulls := pulls + 1 })
    | (.ending, feed) => (.ending, { feed, pulls := pulls + 1 })
    | (.fault message, feed) => (.fault (.refused message), { feed, pulls := pulls + 1 })
    | (.nothing, feed) => refill attempts feed (pulls + 1)

/-- The next byte. -/
def next (r : Reader) : Arrival × Reader :=
  match r.buffer with
  | b :: rest => (.byte b, { r with buffer := rest })
  | [] => refill patience r.feed r.pulls

/-! ## What is left to come -/

theorem size_add_left_refill (attempts : Nat) (feed : Feed) (pulls : Nat) :
    (refill attempts feed pulls).1.size + (refill attempts feed pulls).2.left = feed.left := by
  induction attempts generalizing feed pulls with
  | zero => simp [refill, left, Arrival.size]
  | succ attempts ih =>
    have h := Feed.size_add_left_pull feed
    rcases hp : feed.pull with ⟨delivery, feed'⟩
    rw [hp] at h
    cases delivery <;> simp_all [refill, left, Arrival.size, Delivery.size]
    omega

/-- A byte handed out is one byte less to come, and no other call changes what is to come. -/
theorem size_add_left_next (r : Reader) : r.next.1.size + r.next.2.left = r.left := by
  rcases r with ⟨_ | ⟨b, rest⟩, feed, pulls⟩
  · simpa [next, left] using size_add_left_refill patience feed pulls
  · simp [next, left, Arrival.size]
    omega

end Reader

end Tapelang
