import Tapelang.Proofs.Events
import Tapelang.Proofs.Reading

/-!
# What a run takes from its input

A run is compared with the same run on another input (`Core.withInput`, `Machine.withInput`), which
hands out the same bytes first and may then go on differently (`Reader.Precedes`). An instruction
other than `READ` does not see the difference (`Core.execute_withInput`), and a `READ` sees it only
when the bytes that both inputs have are used up (`Core.read_withInput`).

* `Machine.step_fed`: a round does the same on both inputs, or it comes to a `READ` and the first
  input has nothing left (`Machine.Wants`).
* `Machine.runFor_fed`, `Machine.runFor_starved`: the same for a run.
* `Machine.runFor_received`: the bytes stored by `READ`s are the first bytes of the input.
* `Options.outcome_lead`: a run depends on its input only through the bytes before the first end or
  fault.
-/

namespace Tapelang

/-! ## Two readers -/

/-- Why a run ends whose input has ended, by the fault that was met there. -/
def Stop.starved : Option ReadFault → Stop
  | none => .inputEnded
  | some why => .input why

theorem Stop.starved_inj {why why' : Option ReadFault} (h : starved why = starved why') :
    why = why' := by
  cases why <;> cases why' <;> simp_all [starved]

theorem Stop.starved_ne_finished (why : Option ReadFault) : starved why ≠ .finished := by
  cases why <;> exact nofun

namespace Reader

variable {r r' : Reader} {fault : Option ReadFault} {rest : Feed.Lead}

/-- `r` hands out some bytes and ends with `fault`, where `r'` hands out the same bytes and goes on
with `rest`. -/
structure Precedes (r r' : Reader) (fault : Option ReadFault) (rest : Feed.Lead) : Prop where
  fault : r.lead.fault = fault
  rest : r'.lead = ⟨r.lead.bytes ++ rest.bytes, rest.fault⟩

/-- Both readers hand out the same byte, or the first one is at its end. -/
theorem Precedes.next (h : Precedes r r' fault rest) :
    (∃ b, r.next.1 = .byte b ∧ r'.next.1 = .byte b ∧ Precedes r.next.2 r'.next.2 fault rest) ∨
      r.lead = ⟨[], fault⟩ ∧ r'.lead = rest := by
  obtain ⟨hfault, hrest⟩ := h
  rcases hl : r.lead with ⟨_ | ⟨b, bytes⟩, why⟩
  · rw [hl] at hfault hrest
    exact .inr ⟨by rw [← hfault], hrest⟩
  · rw [hl] at hfault hrest
    have hnext := next_lead hl
    refine .inl ⟨b, ?_, ?_, ?_, ?_⟩
    · rw [next_arrival, hl]
      rfl
    · rw [next_arrival, hrest]
      rfl
    · rw [hnext]
      exact hfault
    · rw [hnext, next_lead hrest]
      rfl

end Reader

/-! ## Instructions -/

namespace Core

variable {i : Instruction} {c c' : Core} {o : Outlet} {input : Reader} {requests : Array Nat}
  {fault : Option ReadFault} {rest : Feed.Lead}

/-- The same core with another input, on which these requests were made. -/
def withInput (c : Core) (input : Reader) (requests : Array Nat) : Core :=
  { c with input, requests }

theorem move_withInput (c : Core) (delta : Int) (input : Reader) (requests : Array Nat) :
    (c.withInput input requests).move delta =
        ((c.move delta).1.withInput input requests, (c.move delta).2) := by
  by_cases hout : c.dp + delta < 0 ∨ tapeSize ≤ c.dp + delta
  · have hmove : c.move delta = (_, some .dataPointer) := if_pos hout
    rw [hmove]
    exact if_pos hout
  · have hmove : c.move delta = (_, none) := if_neg hout
    rw [hmove]
    exact if_neg hout

theorem write_withInput (c : Core) (b : UInt8) (input : Reader) (requests : Array Nat) :
    (c.withInput input requests).write b =
        ((c.write b).1.withInput input requests, (c.write b).2) ∧
      (c.write b).1.input = c.input := by
  have hout : (c.withInput input requests).output = c.output := rfl
  rw [write, write, hout]
  rcases c.output.put b with ⟨o, _ | why⟩ <;> exact ⟨rfl, rfl⟩

/-- **An instruction other than `READ`** has nothing to do with the input. -/
theorem execute_withInput (hr : i.opcode? ≠ some .read) (input : Reader) (requests : Array Nat) :
    (c.withInput input requests).execute i =
        ((c.execute i).1.withInput input requests, (c.execute i).2) ∧
      (c.execute i).1.input = c.input := by
  have hcell : (c.withInput input requests).cell = c.cell := rfl
  cases ho : i.opcode? with
  | none =>
    rw [execute, execute, ho]
    exact ⟨rfl, rfl⟩
  | some o =>
    cases o with
    | read => exact absurd ho hr
    | finish =>
      rw [execute, execute, ho]
      exact ⟨rfl, rfl⟩
    | write =>
      simp only [execute, ho, withCell, hcell]
      cases c.cell with
      | error f => exact ⟨rfl, rfl⟩
      | ok cell => exact write_withInput c cell input requests
    | addPointer | subPointer =>
      refine ⟨?_, (execute_quiet (c := c) (by simp [ho]) hr).2.2.1⟩
      simp only [execute, ho, withOperand]
      cases i.pointerDelta with
      | error f => rfl
      | ok n => exact move_withInput c _ input requests
    | addByte | subByte =>
      simp only [execute, ho, withCell, hcell]
      cases c.cell with
      | error f => exact ⟨rfl, rfl⟩
      | ok cell => cases i.runLength <;> exact ⟨rfl, rfl⟩
    | jumpIfZero =>
      simp only [execute, ho, withCell, hcell]
      cases c.cell with
      | error f => exact ⟨rfl, rfl⟩
      | ok cell =>
        simp only
        split
        · exact ⟨rfl, rfl⟩
        · cases i.jumpTarget <;> exact ⟨rfl, rfl⟩
    | jump =>
      simp only [execute, ho]
      cases i.jumpTarget <;> exact ⟨rfl, rfl⟩

/-- A `READ` whose output is sent and whose input has nothing left ends the run. -/
theorem read_starved (hf : c.output.flush = (o, none)) (hl : c.input.lead = ⟨[], fault⟩) :
    ∃ input requests,
      c.read = ({ c with output := o }.withInput input requests, some (.starved fault)) := by
  have harrival := c.input.next_arrival
  rw [hl] at harrival
  rcases hn : c.input.next with ⟨arrival, input⟩
  rw [hn] at harrival
  simp only [read, hf, hn]
  cases fault with
  | none =>
    obtain rfl : arrival = .ending := harrival
    exact ⟨_, _, rfl⟩
  | some why =>
    obtain rfl : arrival = .fault why := harrival
    exact ⟨_, _, rfl⟩

theorem cell_store (hdp : c.dp < tapeSize) (b : UInt8) : (c.store b).cell = .ok b := by
  rw [cell_ok (by exact hdp)]
  have hget : (c.tape.setIfInBounds c.dp b)[c.dp] = b := Vector.getElem_setIfInBounds_self ..
  exact congrArg Except.ok hget

/-- A `READ` that goes on stores the first byte of its input. -/
theorem read_goes (hdp : c.dp < tapeSize) (h : c.read = (c', none)) :
    ∃ b, c.input.lead = ⟨b :: c'.input.lead.bytes, c'.input.lead.fault⟩ ∧ c'.cell = .ok b := by
  have harrival := c.input.next_arrival
  unfold read at h
  split at h
  · cases h
  · simp only at h
    split at h
    · rename_i b hb
      rw [if_pos hdp] at h
      cases h
      refine ⟨b, ?_, ?_⟩
      · rcases hl : c.input.lead with ⟨_ | ⟨b', bytes⟩, why⟩
        · rw [hl, hb] at harrival
          cases why <;> cases harrival
        · rw [hl, hb] at harrival
          cases harrival
          have hnext := Reader.next_lead hl
          simp only [store]
          rw [hnext]
      · exact cell_store (by exact hdp) b
    · cases h
    · cases h

/-- **A `READ`** does the same on both inputs, or the first one has nothing left. -/
theorem read_withInput (h : c.input.Precedes input fault rest) (requests : Array Nat) :
    (∃ input' requests', (c.withInput input requests).read =
          (c.read.1.withInput input' requests', c.read.2) ∧
        c.read.1.input.Precedes input' fault rest ∧ ∀ why, c.read.2 ≠ some (.starved why)) ∨
      (∃ o, c.output.flush = (o, none)) ∧ c.input.lead = ⟨[], fault⟩ ∧ input.lead = rest := by
  have hout : (c.withInput input requests).output = c.output := rfl
  have hin : (c.withInput input requests).input = input := rfl
  rcases hf : c.output.flush with ⟨o, _ | why⟩
  · rcases h.next with ⟨b, hb, hb', hnext⟩ | hend
    · rcases hn : c.input.next with ⟨arrival, r⟩
      rcases hn' : input.next with ⟨arrival', r'⟩
      rw [hn] at hb hnext
      rw [hn'] at hb' hnext
      obtain rfl : arrival = .byte b := hb
      obtain rfl : arrival' = .byte b := hb'
      refine .inl ?_
      simp only [read, hout, hin, hf, hn, hn']
      by_cases hdp : c.dp < tapeSize
      · simp only [if_pos hdp]
        exact ⟨r', _, if_pos hdp, hnext, fun why hw => by cases hw⟩
      · simp only [if_neg hdp]
        exact ⟨r', _, if_neg hdp, hnext, fun why hw => by cases why <;> cases hw⟩
    · exact .inr ⟨⟨o, rfl⟩, hend⟩
  · refine .inl ⟨input, requests, ?_, ?_, ?_⟩
    · simp only [read, hout, hf]
      rfl
    · simp only [read, hf]
      exact h
    · simp only [read, hf]
      intro why' hw
      cases why' <;> cases hw

end Core

/-! ## Rounds -/

namespace Machine

variable {σ : Type} {s : Setup σ} {m m' m₁ m₂ : Machine σ} {i : Instruction} {o : Outlet}
  {stop : Stop} {input : Reader} {requests : Array Nat} {fault : Option ReadFault}
  {rest : Feed.Lead}

/-- The same machine with another input, on which these requests were made. -/
def withInput (m : Machine σ) (input : Reader) (requests : Array Nat) : Machine σ :=
  { m with core := m.core.withInput input requests }

theorem checkContext_withInput {interval : Int} {why? : Option Interruption}
    (h : m.checkContext interval = (m₁, why?)) :
    (m.withInput input requests).checkContext interval =
      (m₁.withInput input requests, why?) := by
  have hcore := (m.checkContext_core interval).1
  rw [h] at hcore
  rw [withInput, checkContext_withCore, h, withInput, hcore]

theorem observe_withInput (m : Machine σ) (i : Instruction) :
    (m.withInput input requests).observe s i =
      ((m.observe s i).1.withInput input requests, (m.observe s i).2) := by
  have hcore := m.observe_core s i
  have hsame := m.observe_withCore s i (m.core.withInput input requests) rfl rfl rfl
  rw [withInput, hsame, withInput, hcore]

theorem Halts.withInput (h : Halts s m m₁ stop) :
    Halts s (m.withInput input requests) (m₁.withInput input requests) stop := by
  cases h with
  | outside hout => exact .outside hout
  | finished hr hf => exact .finished hr hf
  | interrupted hr hf hc => exact .interrupted hr hf (checkContext_withInput hc)
  | limited hr hf hc hpos hle => exact .limited hr hf (checkContext_withInput hc) hpos hle

theorem Begins.withInput (h : Begins s m i m₁) :
    Begins s (m.withInput input requests) i (m₁.withInput input requests) := by
  cases h with
  | intro hr hf hc hl =>
    have hc' : (m.withInput input requests).checkContext s.checkInterval = _ :=
      checkContext_withInput hc
    exact Begins.intro (m := m.withInput input requests) hr hf hc' hl

/-- The round comes to a `READ`, and the output that was held back has been sent: `m₂` is the machine
before it reads, and `o` its outlet. -/
inductive Wants (s : Setup σ) (m : Machine σ) : Machine σ → Outlet → Prop
  | intro {i : Instruction} {m₁ m₂ : Machine σ} {o : Outlet} : Begins s m i m₁ →
      m₁.observe s i = (m₂, none) → i.opcode? = some .read → m₂.core = m.core →
      m.core.output.flush = (o, none) → Wants s m m₂ o

theorem Wants.withInput (h : Wants s m m₂ o) :
    Wants s (m.withInput input requests) (m₂.withInput input requests) o := by
  cases h with
  | intro hb ho hi hcore hf =>
    refine .intro hb.withInput ?_ hi ?_ hf
    · rw [observe_withInput, ho]
    · exact congrArg (Core.withInput · input requests) hcore

theorem Wants.step_starved (h : Wants s m m₂ o) (hl : m.core.input.lead = ⟨[], fault⟩) :
    ∃ input requests, m.step s =
      ({ m₂ with core := { m.core with output := o }.withInput input requests },
        some (.starved fault)) := by
  cases h with
  | intro hb ho hi hcore hf =>
    obtain ⟨input, requests, hread⟩ := Core.read_starved hf hl
    refine ⟨input, requests, ?_⟩
    rw [hb.step_eq, carryOut, ho]
    simp only [dispatch, Core.execute_read hi, hcore, hread]

theorem dispatch_fed (hdp : m.core.dp < tapeSize) (hf : i.code ≠ Opcode.finish.toByte)
    (h : m.core.input.Precedes input fault rest) (requests : Array Nat) :
    (∃ input' requests', (m.withInput input requests).dispatch i =
          ((m.dispatch i).1.withInput input' requests', (m.dispatch i).2) ∧
        (m.dispatch i).1.core.input.Precedes input' fault rest ∧
        ∀ why, (m.dispatch i).2 ≠ some (.starved why)) ∨
      i.opcode? = some .read ∧ (∃ o, m.core.output.flush = (o, none)) ∧
        m.core.input.lead = ⟨[], fault⟩ ∧ input.lead = rest := by
  have hcore : (m.withInput input requests).core = m.core.withInput input requests := rfl
  simp only [dispatch, hcore]
  by_cases hr : i.opcode? = some .read
  · simp only [Core.execute_read hr]
    rcases Core.read_withInput h requests with ⟨input', requests', hread, hrest⟩ | hend
    · rw [hread]
      exact .inl ⟨input', requests', rfl, hrest⟩
    · exact .inr ⟨hr, hend⟩
  · obtain ⟨hex, hin⟩ := Core.execute_withInput (c := m.core) hr input requests
    rw [hex]
    refine .inl ⟨input, requests, rfl, hin ▸ h, ?_⟩
    intro why hw
    obtain ⟨-, hrefusal⟩ := Core.execute_refused hdp hf (Prod.ext rfl hw)
    cases why with
    | none => cases hrefusal with | inputEnded ho => exact hr ho
    | some why => cases hrefusal with | input ho => exact hr ho

/-- **A round** does the same on both inputs, or it comes to a `READ` and the first input has nothing
left. -/
theorem step_fed (s : Setup σ) (hdp : m.core.dp < tapeSize)
    (h : m.core.input.Precedes input fault rest) (requests : Array Nat) :
    (∃ input' requests', (m.withInput input requests).step s =
          ((m.step s).1.withInput input' requests', (m.step s).2) ∧
        (m.step s).1.core.input.Precedes input' fault rest ∧
        ∀ why, (m.step s).2 ≠ some (.starved why)) ∨
      (∃ m₂ o, Wants s m m₂ o) ∧ m.core.input.lead = ⟨[], fault⟩ ∧ input.lead = rest := by
  rcases halts_or_begins s m with ⟨m₁, stop, hh⟩ | ⟨i, m₁, hb⟩
  · rw [hh.step_eq, hh.withInput.step_eq]
    refine .inl ⟨input, requests, rfl, hh.same.1 ▸ h, ?_⟩
    intro why hw
    cases hh <;> cases why <;> cases hw
  · rw [hb.step_eq, hb.withInput.step_eq, carryOut, carryOut, observe_withInput]
    rcases ho : m₁.observe s i with ⟨m₂, _ | stop⟩
    · have hsame := hb.observed_core ho
      rw [← hsame] at h hdp
      rcases dispatch_fed hdp hb.code_ne h requests with hgoes | ⟨hi, ⟨o, hf⟩, hend⟩
      · exact .inl hgoes
      · rw [hsame] at hf hend
        exact .inr ⟨⟨m₂, o, .intro hb ho hi hsame hf⟩, hend⟩
    · refine .inl ⟨input, requests, rfl, ?_, ?_⟩
      · simp only [hb.observed_core ho]
        exact h
      · intro why hw
        rcases hb.observed_stop hdp ho with rfl | ⟨value, rfl⟩ <;> cases why <;> cases hw

/-! ## Runs -/

/-- **A run that does not end for want of input** is the same on both inputs. -/
theorem runFor_fed {rounds : Nat} (hdp : m.core.dp < tapeSize)
    (h : m.core.input.Precedes input fault rest) (requests : Array Nat)
    (hne : ∀ why, (m.runFor s rounds).2 ≠ some (.starved why)) :
    ∃ input' requests', (m.withInput input requests).runFor s rounds =
        ((m.runFor s rounds).1.withInput input' requests', (m.runFor s rounds).2) ∧
      (m.runFor s rounds).1.core.input.Precedes input' fault rest ∧
      (m.withInput input requests).events s rounds = m.events s rounds ∧
      (m.withInput input requests).emitted s rounds = m.emitted s rounds := by
  induction rounds generalizing m input requests with
  | zero => exact ⟨input, requests, rfl, h, rfl, rfl⟩
  | succ rounds ih =>
    rw [runFor] at hne
    have hnext := step_dp s hdp
    rcases step_fed s hdp h requests with ⟨input', requests', hstep, hprec, -⟩ | ⟨⟨m₂, o, hw⟩, hl, -⟩
    · rw [runFor, runFor, events, events, emitted, emitted, hstep]
      rcases hs : m.step s with ⟨m₁, _ | stop⟩
      · rw [hs] at hne hnext hprec
        obtain ⟨input₂, requests₂, hrun, hprec₂, hevents, hemitted⟩ := ih hnext hprec requests' hne
        refine ⟨input₂, requests₂, hrun, hprec₂, ?_, ?_⟩
        · simp only [hevents]
          rfl
        · simp only [hemitted]
          rfl
      · rw [hs] at hprec
        exact ⟨input', requests', rfl, hprec, rfl, rfl⟩
    · obtain ⟨_, _, hstep⟩ := hw.step_starved hl
      rw [hstep] at hne
      exact absurd rfl (hne fault)

/-- **A run that ends for want of input** has come to a `READ`, as the run on the other input has;
that one finds `rest` there. -/
theorem runFor_starved {rounds : Nat} {why : Option ReadFault} (hdp : m.core.dp < tapeSize)
    (h : m.core.input.Precedes input fault rest) (requests : Array Nat)
    (hrun : m.runFor s rounds = (m', some (.starved why))) :
    why = fault ∧ ∃ n m₁ m₂ o input' requests', n < rounds ∧ m.runFor s n = (m₁, none) ∧
      m₁.step s = (m', some (.starved why)) ∧ Wants s m₁ m₂ o ∧
      m₁.core.input.lead = ⟨[], fault⟩ ∧ input'.lead = rest ∧
      (m.withInput input requests).runFor s n = (m₁.withInput input' requests', none) ∧
      (m.withInput input requests).events s n = m.events s n ∧
      (m.withInput input requests).emitted s n = m.emitted s n := by
  obtain ⟨n, m₁, hlt, hbefore, hlast⟩ := runFor_stopped hrun
  have hgoes : ∀ why, (m.runFor s n).2 ≠ some (.starved why) := by simp [hbefore]
  obtain ⟨input', requests', hother, hprec, hsame⟩ := runFor_fed hdp h requests hgoes
  rw [hbefore] at hother hprec
  rcases step_fed s (runFor_dp hdp hbefore) hprec requests' with
    ⟨_, _, -, -, hne⟩ | ⟨⟨m₂, o, hw⟩, hl, hl'⟩
  · rw [hlast] at hne
    exact absurd rfl (hne why)
  · obtain ⟨_, _, hstarved⟩ := hw.step_starved hl
    rw [hlast, Prod.mk.injEq, Option.some.injEq] at hstarved
    exact ⟨Stop.starved_inj hstarved.2,
      n, m₁, m₂, o, input', requests', hlt, hbefore, hlast, hw, hl, hl', hother, hsame⟩

theorem close_withInput (m : Machine σ) (stop : Stop) :
    (m.withInput input requests).close stop =
      ((m.close stop).1.withInput input requests, (m.close stop).2) := by
  have hout : (m.withInput input requests).core.output = m.core.output := rfl
  unfold close
  rw [hout]
  rcases m.core.output.flush with ⟨output, fault⟩
  cases stop <;> cases fault <;> rfl

theorem run_fed {rounds : Nat} (hdp : m.core.dp < tapeSize)
    (h : m.core.input.Precedes input fault rest) (requests : Array Nat)
    (hne : ∀ why, (m.runFor s rounds).2 ≠ some (.starved why)) :
    ∃ input' requests', (m.withInput input requests).run s rounds =
      ((m.run s rounds).1.withInput input' requests', (m.run s rounds).2) := by
  obtain ⟨input', requests', hrun, -⟩ := runFor_fed hdp h requests hne
  refine ⟨input', requests', ?_⟩
  rw [run, run, hrun]
  rcases m.runFor s rounds with ⟨m₁, _ | stop⟩
  · rfl
  · simp only [close_withInput]

/-- A run that ends for want of input did so before it was closed. -/
theorem starved_of_close {why : Option ReadFault} (h : (m.close stop).2 = .starved why) :
    stop = .starved why := by
  obtain ⟨-, -, hsame | ⟨-, why', hout⟩⟩ := m.close_eq stop
  · rw [← hsame, h]
  · rw [hout] at h
    cases why <;> cases h

theorem runFor_of_starved {rounds : Nat} {why : Option ReadFault}
    (h : (m.run s rounds).2 = some (.starved why)) :
    (m.runFor s rounds).2 = some (.starved why) := by
  rw [run] at h
  rcases hr : m.runFor s rounds with ⟨m₁, _ | stop⟩
  · rw [hr] at h
    cases h
  · rw [hr, Option.some.injEq] at h
    exact congrArg some (starved_of_close h)

theorem Wants.events_eq (h : Wants s m m₂ o) (hdp : m.core.dp < tapeSize)
    (hl : m.core.input.lead = ⟨[], fault⟩) (rounds : Nat) :
    m.events s (rounds + 1) = (m.core.event? s.code).toList := by
  obtain ⟨_, _, hstep⟩ := h.step_starved hl
  cases h with
  | intro hb =>
    obtain ⟨e, rest, he, hevents, -, hstop⟩ := hb.events_eq hdp rounds
    rw [hevents, hstop _ _ hstep, he]
    rfl

/-- Where both inputs have ended, both runs end for want of input. -/
theorem run_starved {rounds : Nat} {why why' : Option ReadFault} (hdp : m.core.dp < tapeSize)
    (h : m.core.input.Precedes input fault ⟨[], why'⟩) (requests : Array Nat)
    (hrun : m.runFor s rounds = (m', some (.starved why))) :
    (m.run s rounds).2 = some (.starved fault) ∧
      (∃ input' requests', (m.withInput input requests).run s rounds =
        ((m.run s rounds).1.withInput input' requests', some (.starved why'))) ∧
      (m.withInput input requests).events s rounds = m.events s rounds := by
  obtain ⟨-, n, m₁, m₂, o, input', requests', hlt, hbefore, -, hw, hl, hl', hother, hevents, -⟩ :=
    runFor_starved hdp h requests hrun
  have hw' : Wants s (m₁.withInput input' requests') (m₂.withInput input' requests') o :=
    hw.withInput
  obtain ⟨input₁, requests₁, hstep⟩ := hw.step_starved hl
  obtain ⟨input₂, requests₂, hstep'⟩ := hw'.step_starved hl'
  have hend := run_of_stopped (runFor_of_step hlt hbefore hstep) (Stop.starved_ne_finished _)
  have hend' := run_of_stopped (runFor_of_step hlt hother hstep') (Stop.starved_ne_finished _)
  rw [hend, hend']
  refine ⟨rfl, ⟨input₂, requests₂, rfl⟩, ?_⟩
  obtain ⟨k, rfl⟩ : ∃ k, rounds = n + (k + 1) := ⟨rounds - n - 1, by omega⟩
  have hdp₁ := runFor_dp hdp hbefore
  rw [events_add hbefore, events_add hother, hevents, hw.events_eq hdp₁ hl,
    hw'.events_eq hdp₁ hl']
  rfl

end Machine

/-! ## Bytes received -/

/-- The byte that the instruction carried out between two cores has stored, if it was a `READ`. -/
def Core.byteRead? (code : Code) (before after : Core) : Option UInt8 :=
  match code.instructionAt before.ip, after.cell with
  | .ok i, .ok cell => if i.opcode? = some .read then some cell else none
  | _, _ => none

namespace Machine

variable {σ : Type} {s : Setup σ} {m m' : Machine σ}

/-- The bytes stored by the `READ`s that are completed in the next `rounds` rounds. -/
def received (s : Setup σ) : (rounds : Nat) → Machine σ → Bytes
  | 0, _ => []
  | rounds + 1, m =>
    match m.step s with
    | (m', none) => (m.core.byteRead? s.code m'.core).toList ++ received s rounds m'
    | (_, some _) => []

theorem step_goes (h : m.step s = (m', none)) :
    ∃ i, s.code.instructionAt m.core.ip = .ok i ∧ m.core.execute i = (m'.core, none) := by
  rcases step_unlimited s m with ⟨_, _, -, hstep, -⟩ | ⟨m₁, i, hcore, hi, hstep, -⟩
  · rw [h] at hstep
    cases hstep
  · rw [h, dispatch, hcore] at hstep
    rcases hex : m.core.execute i with ⟨c', stop?⟩
    rw [hex] at hstep
    cases hstep
    exact ⟨i, hi, hex⟩

theorem step_received (hdp : m.core.dp < tapeSize) (h : m.step s = (m', none)) :
    m.core.input.lead = ⟨(m.core.byteRead? s.code m'.core).toList ++ m'.core.input.lead.bytes,
      m'.core.input.lead.fault⟩ := by
  obtain ⟨i, hi, hex⟩ := step_goes h
  by_cases hr : i.opcode? = some .read
  · rw [Core.execute_read hr] at hex
    obtain ⟨b, hlead, hcell⟩ := Core.read_goes hdp hex
    simp [Core.byteRead?, hi, hcell, hr, hlead]
  · have hin := (Core.execute_withInput (c := m.core) hr m.core.input #[]).2
    rw [hex] at hin
    simp only [Core.byteRead?, hi]
    cases m'.core.cell <;> simp [hr, ← hin]

/-- **The bytes stored by `READ`s** are the first bytes of the input, in order. -/
theorem runFor_received (s : Setup σ) (rounds : Nat) (hdp : m.core.dp < tapeSize) :
    m.received s rounds <+: m.core.input.lead.bytes := by
  induction rounds generalizing m with
  | zero => exact List.nil_prefix
  | succ rounds ih =>
    have hnext := step_dp s hdp
    rw [received]
    rcases hs : m.step s with ⟨m₁, _ | stop⟩
    · rw [hs] at hnext
      rw [step_received hdp hs]
      exact (List.prefix_append_right_inj _).2 (ih hnext)
    · exact List.nil_prefix

end Machine

/-! ## Whole runs -/

theorem Ending.ofStop?_eq_stopped {stop? : Option Stop} {stop : Stop} :
    ofStop? stop? = .stopped stop ↔ stop? = some stop := by
  cases stop? <;> simp [ofStop?]

namespace Options

variable {σ : Type}

/-- The same options with another input. -/
def fedBy (o : Options σ) (feed : Feed) : Options σ := { o with input := feed }

/-- The bytes stored by the `READ`s that a run of `c` completes in its first `rounds` rounds. -/
def received (o : Options σ) (c : Code) (rounds : Nat) : Bytes :=
  o.machine.received (o.setup c) rounds

/-- The same options with nothing in the input but the bytes before its first end or fault. -/
def plain (o : Options σ) : Options σ := o.fedBy (.ofBytes o.input.lead.bytes)

theorem outcome_fedBy (o : Options σ) (feed : Feed) (c : Code) (rounds : Nat) :
    (o.fedBy feed).outcome c rounds =
      (.ofStop? ((o.machine.withInput (.ofFeed feed) #[]).run (o.setup c) rounds).2,
        ((o.machine.withInput (.ofFeed feed) #[]).run (o.setup c) rounds).1) :=
  outcome_eq _ _ _

theorem machine_precedes {o : Options σ} {feed : Feed} (rest : Feed.Lead)
    (h : feed.lead = ⟨o.input.lead.bytes ++ rest.bytes, rest.fault⟩) :
    o.machine.core.input.Precedes (.ofFeed feed) o.input.lead.fault rest := ⟨rfl, h⟩

/-- A run goes as it does on the plain input. Both end for the same reason, or both end for want of
input. -/
theorem outcome_plain (o : Options σ) (c : Code) (rounds : Nat) :
    (∃ input requests,
        (o.plain.outcome c rounds).2 = (o.outcome c rounds).2.withInput input requests) ∧
      o.plain.events c rounds = o.events c rounds ∧
      ((o.plain.outcome c rounds).1 = (o.outcome c rounds).1 ∧
          (∀ why, (o.outcome c rounds).1 ≠ .stopped (.starved why)) ∨
        (o.plain.outcome c rounds).1 = .stopped .inputEnded ∧
          (o.outcome c rounds).1 = .stopped (.starved o.input.lead.fault)) := by
  have hlead : (Feed.ofBytes o.input.lead.bytes).lead = ⟨o.input.lead.bytes ++ [], none⟩ := by
    rw [Feed.lead_ofBytes, List.append_nil]
  have hprec := machine_precedes {} hlead
  rw [plain, outcome_fedBy, outcome_eq]
  by_cases hstarved : ∃ why, (o.machine.runFor (o.setup c) rounds).2 = some (.starved why)
  · obtain ⟨why, hwhy⟩ := hstarved
    obtain ⟨hend, ⟨input, requests, hplain⟩, hevents⟩ :=
      Machine.run_starved o.machine_dp hprec #[] (Prod.ext rfl hwhy)
    rw [hplain, hend]
    exact ⟨⟨input, requests, rfl⟩, hevents, .inr ⟨rfl, rfl⟩⟩
  · have hne : ∀ why, (o.machine.runFor (o.setup c) rounds).2 ≠ some (.starved why) :=
      fun why hwhy => hstarved ⟨why, hwhy⟩
    obtain ⟨input, requests, hplain⟩ := Machine.run_fed o.machine_dp hprec #[] hne
    obtain ⟨-, -, -, -, hevents, -⟩ := Machine.runFor_fed o.machine_dp hprec #[] hne
    rw [hplain]
    refine ⟨⟨input, requests, rfl⟩, hevents, .inl ⟨rfl, ?_⟩⟩
    intro why hend
    exact hne why (Machine.runFor_of_starved (Ending.ofStop?_eq_stopped.1 hend))

/-- **A run depends on its input only through the bytes before the first end or fault.** On these
bytes alone it has the same events and leaves the same machine but for the input, and it ends for the
same reason, unless it ends because the input does: then a fault in the input is the reason. The
bytes that `READ`s store are the first of these bytes, in order, however they are delivered. -/
theorem outcome_lead (o : Options σ) (c : Code) (rounds : Nat) :
    (∃ input requests,
      (o.plain.outcome c rounds).2 = (o.outcome c rounds).2.withInput input requests) ∧
    o.plain.events c rounds = o.events c rounds ∧
    ((o.plain.outcome c rounds).1 ≠ .stopped .inputEnded ∨ o.input.lead.fault = none →
      (o.outcome c rounds).1 = (o.plain.outcome c rounds).1) ∧
    (∀ why, (o.plain.outcome c rounds).1 = .stopped .inputEnded → o.input.lead.fault = some why →
      (o.outcome c rounds).1 = .stopped (.input why) ∧
      (o.outcome c rounds).1.toFailure? =
        some (.reportOf ⟨.transfer, utf8 "E3003", utf8 "could not read input", {}⟩
          why.toFailure)) ∧
    o.received c rounds <+: o.input.lead.bytes := by
  obtain ⟨hmachine, hevents, hend⟩ := o.outcome_plain c rounds
  refine ⟨hmachine, hevents, ?_, ?_, Machine.runFor_received _ _ o.machine_dp⟩
  · intro hcase
    rcases hend with ⟨hsame, -⟩ | ⟨hplain, hown⟩
    · exact hsame.symm
    · rcases hcase with hne | hnone
      · exact absurd hplain hne
      · rw [hown, hplain, hnone]
        rfl
  · intro why hplain hfault
    rcases hend with ⟨hsame, hne⟩ | ⟨-, hown⟩
    · exact absurd (hsame.symm.trans hplain) (hne none)
    · rw [hown, hfault]
      exact ⟨rfl, rfl⟩

/-- Two bytes in two chunks, with an empty answer between them, and then a fault: the third `READ`
meets the fault where it would meet the end of the plain input. -/
theorem outcome_lead_fault : ∃ (c : Code) (o : Options Unit),
    o.input = ⟨[.data [7], .blank 1, .data [8], .fault (utf8 "gone")], .ending⟩ ∧
      (o.plain.outcome c 3).1 = .stopped .inputEnded ∧
      (o.outcome c 3).1 = .stopped (.input (.refused (utf8 "gone"))) ∧
      (o.outcome c 3).2.steps = 3 ∧ o.received c 3 <+: [7, 8] := by
  let c : Code := { instructions := #[.read, .read, .read, .finish] }
  let o : Options Unit :=
    { input := ⟨[.data [7], .blank 1, .data [8], .fault (utf8 "gone")], .ending⟩, watch := () }
  obtain ⟨-, -, -, hfault, hreceived⟩ := outcome_lead o c 3
  have hplain : (o.plain.outcome c 3).1 = .stopped .inputEnded := rfl
  exact ⟨c, o, rfl, hplain, (hfault (.refused (utf8 "gone")) hplain rfl).1, rfl,
    hreceived⟩

end Options

end Tapelang
