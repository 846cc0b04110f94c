import Tapelang.Outlet

/-!
# Bytes on their way to a sink

As long as an outlet has not failed, the bytes that its sink has taken and those that are held back
are exactly the bytes put into it (`Outlet.Kept`). When the sink refuses, it has taken a first part of
these bytes (`Outlet.Lost`).

* `Outlet.flush_outcome`, `Outlet.put_outcome`: the two things that can happen when bytes are sent,
  the first of them as with a sink that takes everything (`Outlet.unlimited`).
* `Outlet.flush_endless`, `Outlet.put_endless`: only the first can happen with such a sink.
-/

namespace Tapelang

theorem Sink.send_endless {s : Sink} (h : s.capacity = none) (bytes : Array UInt8) :
    s.send bytes =
      ({ s with taken := s.taken ++ bytes, calls := s.calls.push bytes.size }, none) := by
  simp [send, room, h]

namespace Outlet

/-- The bytes that the sink has taken and those that are held back, in order. -/
def written (o : Outlet) : Bytes := o.sink.taken.toList ++ o.buffer.toList

/-- Nothing put into the outlet is ever refused. -/
def IsEndless (o : Outlet) : Prop := o.fault = none ∧ o.sink.capacity = none

/-- The same outlet in front of a sink that takes everything. -/
def unlimited (o : Outlet) : Outlet := { o with sink := { o.sink with capacity := none } }

/-- Nothing has been refused: `bytes` have been taken or are held back. -/
structure Kept (o : Outlet) (capacity : Option Nat) (bytes : Bytes) : Prop where
  fault : o.fault = none
  capacity : o.sink.capacity = capacity
  written : o.written = bytes

/-- The sink has refused some of `bytes`, and taken those before. -/
structure Lost (o : Outlet) (capacity : Option Nat) (bytes : Bytes) (why : WriteFault) : Prop where
  fault : o.fault = some why
  limited : capacity ≠ none
  taken : o.sink.taken.toList <+: bytes

variable {o : Outlet} {capacity : Option Nat} {bytes : Bytes}

/-- What is held back is sent in one call. -/
theorem flush_send (h : o.IsEndless) (hne : ¬ o.buffer.isEmpty = true) :
    o.flush = ({ o with
      sink := { o.sink with
        taken := o.sink.taken ++ o.buffer, calls := o.sink.calls.push o.buffer.size }
      buffer := #[] }, none) := by
  rw [flush, if_neg (by simp [h.1]), if_neg hne, Sink.send_endless h.2]

theorem flush_outcome (h : o.Kept capacity bytes) :
    (∃ o', o.flush = (o', none) ∧ o.unlimited.flush = (o'.unlimited, none) ∧
        o'.Kept capacity bytes ∧ o'.sink.taken.toList = bytes) ∨
      ∃ o' why, o.flush = (o', some why) ∧ o'.Lost capacity bytes why := by
  have hf : ¬ o.fault.isSome = true := by simp [h.fault]
  by_cases he : o.buffer.isEmpty = true
  · refine .inl ⟨o, ?_, ?_, h, ?_⟩
    · rw [flush, if_neg hf, if_pos he]
    · rw [flush, if_neg (by exact hf), if_pos (by exact he)]
    · rw [← h.written, written, Array.isEmpty_iff.1 he, List.append_nil]
  · have hfree : o.unlimited.flush = ({ o.unlimited with
        sink := { o.unlimited.sink with
          taken := o.sink.taken ++ o.buffer, calls := o.sink.calls.push o.buffer.size }
        buffer := #[] }, none) := flush_send ⟨h.fault, rfl⟩ he
    rw [hfree, flush, if_neg hf, if_neg he, Sink.send]
    by_cases hroom : o.sink.room o.buffer.size < o.buffer.size
    · simp only [if_pos hroom]
      refine .inr ⟨_, _, rfl, rfl, ?_, ?_⟩
      · intro hc
        rw [Sink.room, h.capacity, hc] at hroom
        exact absurd hroom (Nat.lt_irrefl _)
      · -- the part of the buffer that was taken
        rw [← h.written, written]
        simp only [Array.toList_append, Array.toList_extract]
        exact (List.prefix_append_right_inj _).2 (List.extract_eq_take_drop ▸ List.take_prefix _ _)
    · have hall : o.buffer.extract 0 (o.sink.room o.buffer.size) = o.buffer :=
        Array.extract_eq_self_of_le (by omega)
      simp only [if_neg hroom, hall]
      refine .inl ⟨_, rfl, rfl, ⟨h.fault, h.capacity, ?_⟩, ?_⟩
      · rw [← h.written]
        simp [written]
      · rw [← h.written, Array.toList_append, written]

theorem Kept.push (h : o.Kept capacity bytes) (b : UInt8) :
    ({ o with buffer := o.buffer.push b } : Outlet).Kept capacity (bytes ++ [b]) := by
  refine ⟨h.fault, h.capacity, ?_⟩
  rw [← h.written]
  simp [Outlet.written]

theorem put_outcome (h : o.Kept capacity bytes) (b : UInt8) :
    (∃ o', o.put b = (o', none) ∧ o.unlimited.put b = (o'.unlimited, none) ∧
        o'.Kept capacity (bytes ++ [b])) ∨
      ∃ o' why, o.put b = (o', some why) ∧ o'.Lost capacity bytes why := by
  have hf : ¬ o.fault.isSome = true := by simp [h.fault]
  by_cases hroom : o.buffer.size < bufferSize
  · refine .inl ⟨_, by rw [put, if_neg hf, if_pos hroom], ?_, h.push b⟩
    rw [put, if_neg (by exact hf), if_pos (by exact hroom)]
    rfl
  · rw [put, if_neg hf, if_neg hroom, put, if_neg (by exact hf), if_neg (by exact hroom)]
    rcases flush_outcome h with ⟨o', hflush, hfree, hkept, -⟩ | ⟨o', why, hflush, hlost⟩
    · rw [hflush, hfree]
      exact .inl ⟨_, rfl, rfl, hkept.push b⟩
    · rw [hflush]
      exact .inr ⟨o', why, rfl, hlost⟩

/-! ## Output that is never refused -/

theorem IsEndless.kept (h : o.IsEndless) : o.Kept none o.written := ⟨h.1, h.2, rfl⟩

theorem Kept.isEndless (h : o.Kept none bytes) : o.IsEndless := ⟨h.fault, h.capacity⟩

/-- Flushing leaves nothing held back. -/
theorem flush_endless (h : o.IsEndless) :
    ∃ o', o.flush = (o', none) ∧ o'.IsEndless ∧ o'.written = o.written ∧
      o'.sink.taken.toList = o.written := by
  rcases flush_outcome h.kept with ⟨o', hflush, -, hkept, htaken⟩ | ⟨_, _, -, hlost⟩
  · exact ⟨o', hflush, hkept.isEndless, hkept.written, htaken⟩
  · exact absurd rfl hlost.limited

theorem put_endless (h : o.IsEndless) (b : UInt8) :
    ∃ o', o.put b = (o', none) ∧ o'.IsEndless ∧ o'.written = o.written ++ [b] := by
  rcases put_outcome h.kept b with ⟨o', hput, -, hkept⟩ | ⟨_, _, -, hlost⟩
  · exact ⟨o', hput, hkept.isEndless, hkept.written⟩
  · exact absurd rfl hlost.limited

end Outlet

end Tapelang
