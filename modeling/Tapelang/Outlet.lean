import Tapelang.Failure

/-! # Buffered writing

A sink takes the bytes that it is sent, up to a capacity if it has one, and keeps count of the
calls made on it. An outlet is a buffer of `bufferSize` bytes in front of a sink. The buffer is
sent when a byte no longer fits and whenever it is flushed, but never when it is empty. Once a
call has failed the outlet stays failed and makes no further call.
-/

namespace Tapelang

/-- The most bytes that an outlet holds back. -/
def bufferSize : Nat := 4096

/-- Why bytes could not be written. -/
inductive WriteFault where
  /-- The sink refused with a message. -/
  | refused (message : Bytes)
  /-- The sink took fewer bytes than it was sent and did not say why. -/
  | short
  deriving DecidableEq, Repr, Inhabited

/-- A write fault as a failure. -/
def WriteFault.toFailure : WriteFault → Failure
  | refused message => .text message
  | short => .text (utf8 "short write")

/-- Where output goes. -/
structure Sink where
  /-- The most bytes that it takes in all; `none` for any number. -/
  capacity : Option Nat := none
  /-- What it says when it takes less than it is sent. -/
  refusal : WriteFault := .refused (utf8 "broken pipe")
  /-- The bytes taken so far. -/
  taken : Array UInt8 := #[]
  /-- The number of bytes sent in each call. -/
  calls : Array Nat := #[]
  deriving DecidableEq, Repr, Inhabited

namespace Sink

/-- How many of `n` further bytes the sink takes. -/
def room (s : Sink) (n : Nat) : Nat :=
  match s.capacity with
  | none => n
  | some most => min n (most - s.taken.size)

/-- Sends bytes to the sink; gives how many it took if that was not all of them. -/
def send (s : Sink) (bytes : Array UInt8) : Sink × Option Nat :=
  let n := s.room bytes.size
  ({ s with taken := s.taken ++ bytes.extract 0 n, calls := s.calls.push bytes.size },
    if n < bytes.size then some n else none)

end Sink

/-- A sink with a buffer in front of it. -/
structure Outlet where
  sink : Sink := {}
  buffer : Array UInt8 := #[]
  fault : Option WriteFault := none
  deriving DecidableEq, Repr, Inhabited

namespace Outlet

/-- Sends what is in the buffer. -/
def flush (o : Outlet) : Outlet × Option WriteFault :=
  if o.fault.isSome then (o, o.fault)
  else if o.buffer.isEmpty then (o, none)
  else
    match o.sink.send o.buffer with
    | (sink, none) => ({ o with sink, buffer := #[] }, none)
    | (sink, some n) =>
      let fault := some sink.refusal
      ({ sink, buffer := o.buffer.extract n, fault }, fault)

/-- Puts a byte into the buffer, after sending a full one. -/
def put (o : Outlet) (b : UInt8) : Outlet × Option WriteFault :=
  if o.fault.isSome then (o, o.fault)
  else if o.buffer.size < bufferSize then ({ o with buffer := o.buffer.push b }, none)
  else
    match o.flush with
    | (o, none) => ({ o with buffer := o.buffer.push b }, none)
    | (o, some why) => (o, some why)

end Outlet

end Tapelang
