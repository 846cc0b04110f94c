import Tapelang.Reader

/-!
# What a reader hands out

A reader depends on its feed only through the feed's lead (`Feed.lead`): the bytes before the first
end, fault or stall, and what came there. `Reader.lead` is the lead of a reader, its buffer
included.

* `Feed.pullScript_lead`: one request takes its delivery off the front of the lead.
* `Reader.next_arrival`: the next arrival is the first thing of the lead.
* `Reader.next_lead`: a byte handed out is the first byte of the lead, and the rest remains.
-/

namespace Tapelang

namespace Feed

/-! ## Requests -/

/-- Data in front of a script is data in front of its lead. -/
theorem leadOf_data (tail : Tail) (bytes : Bytes) (rest : List Chunk) :
    leadOf tail 0 (.data bytes :: rest) =
      { leadOf tail 0 rest with bytes := bytes ++ (leadOf tail 0 rest).bytes } := by
  cases bytes <;> simp [leadOf]

/-- The lead of a script whose next request is answered by `delivery` and leaves `script`, after
`blanks` empty answers in a row. -/
def leadAfter (tail : Tail) (blanks : Nat) (delivery : Delivery) (script : List Chunk) : Lead :=
  match delivery with
  | .data b more =>
    { leadOf tail 0 script with bytes := b :: more ++ (leadOf tail 0 script).bytes }
  | .nothing =>
    if patience ≤ blanks + 1 then { fault := some .stalled } else leadOf tail (blanks + 1) script
  | .ending => {}
  | .fault message => { fault := some (.refused message) }

/-- One request takes its delivery off the front of the lead. -/
theorem pullScript_lead (tail : Tail) (script : List Chunk) {blanks : Nat}
    (hb : blanks < patience) :
    leadOf tail blanks script =
      leadAfter tail blanks (pullScript tail script).1 (pullScript tail script).2 := by
  fun_induction pullScript tail script with
  | case1 ht =>
    subst ht
    rfl
  | case2 message ht =>
    subst ht
    rfl
  | case3 rest ih => rw [leadOf, ih]
  | case4 b bs rest =>
    simp only [leadOf, leadAfter, leadOf_data, List.cons_append]
    rw [← List.append_assoc, List.take_append_drop]
  | case5 => simp [leadOf, leadAfter]
  | case6 rest ih => rw [leadOf, Nat.add_zero, if_neg (by omega), ih]
  | case7 n rest =>
    simp only [leadOf, leadAfter]
    by_cases h : patience ≤ blanks + 1
    · rw [if_pos (by omega), if_pos h]
    · rw [if_neg h, show blanks + 1 + n = blanks + (n + 1) by omega]
  | case8 rest ih => rw [leadOf, ih]
  | case9 => simp [leadOf, leadAfter]

theorem pull_lead (f : Feed) (blanks : Nat) (hb : blanks < patience) :
    leadOf f.tail blanks f.script = leadAfter f.tail blanks f.pull.1 f.pull.2.script ∧
      f.pull.2.tail = f.tail :=
  ⟨pullScript_lead f.tail f.script hb, rfl⟩

/-- The first thing that a reader gets of a lead. -/
def Lead.first (lead : Lead) : Arrival :=
  match lead.bytes, lead.fault with
  | b :: _, _ => .byte b
  | [], none => .ending
  | [], some why => .fault why

end Feed

namespace Reader

/-- What a reader still hands out before its first end or fault. -/
def lead (r : Reader) : Feed.Lead :=
  { r.feed.lead with bytes := r.buffer ++ r.feed.lead.bytes }

/-! ## Bytes handed out -/

/-- Requests are made until one brings the first thing of the lead. -/
theorem refill_lead (attempts : Nat) (feed : Feed) (pulls : Nat) (ha : attempts < patience) :
    let lead := Feed.leadOf feed.tail (patience - (attempts + 1)) feed.script
    (refill (attempts + 1) feed pulls).1 = lead.first ∧
      ∀ b rest, lead.bytes = b :: rest →
        (refill (attempts + 1) feed pulls).2.lead = { lead with bytes := rest } := by
  induction attempts generalizing feed pulls with
  | zero =>
    obtain ⟨hl, ht⟩ := feed.pull_lead (patience - (0 + 1)) (by simp [patience])
    rcases hp : feed.pull with ⟨delivery, feed'⟩
    rw [hp] at hl ht
    rw [hl]
    cases delivery <;> simp_all [refill, Feed.leadAfter, Feed.Lead.first, lead, Feed.lead, patience]
  | succ attempts ih =>
    obtain ⟨hl, ht⟩ := feed.pull_lead (patience - (attempts + 1 + 1)) (by omega)
    rcases hp : feed.pull with ⟨delivery, feed'⟩
    rw [hp] at hl ht
    rw [hl]
    cases delivery with
    | nothing =>
      have hi := ih feed' (pulls + 1) (by omega)
      simp only at ht
      rw [ht, show patience - (attempts + 1) = patience - (attempts + 1 + 1) + 1 by omega] at hi
      simp only [Feed.leadAfter]
      rw [if_neg (by omega), refill, hp]
      exact hi
    | _ => simp_all [refill, Feed.leadAfter, Feed.Lead.first, lead, Feed.lead]

/-- **The next arrival** is the first thing of the lead. -/
theorem next_arrival (r : Reader) : r.next.1 = r.lead.first := by
  rcases r with ⟨_ | ⟨b, rest⟩, feed, pulls⟩
  · exact (refill_lead (patience - 1) feed pulls (by decide)).1
  · rfl

/-- **A byte handed out** is the first byte of the lead, and the rest remains. -/
theorem next_lead {r : Reader} {b : UInt8} {rest : Bytes} {fault : Option ReadFault}
    (h : r.lead = ⟨b :: rest, fault⟩) : r.next.2.lead = ⟨rest, fault⟩ := by
  rcases r with ⟨_ | ⟨b', rest'⟩, feed, pulls⟩
  · have hr := (refill_lead (patience - 1) feed pulls (by decide)).2 b rest
    have hf : Feed.leadOf feed.tail (patience - (patience - 1 + 1)) feed.script
        = ⟨b :: rest, fault⟩ := h
    rw [hf] at hr
    exact hr rfl
  · simp only [lead, List.cons_append, Feed.Lead.mk.injEq, List.cons.injEq] at h
    obtain ⟨⟨rfl, rfl⟩, rfl⟩ := h
    rfl

end Reader

/-- A feed of bytes hands out these bytes and ends. -/
theorem Feed.lead_ofBytes (bytes : Bytes) : (Feed.ofBytes bytes).lead = ⟨bytes, none⟩ := by
  cases bytes <;> simp [Feed.ofBytes, Feed.lead, Feed.leadOf]

end Tapelang
