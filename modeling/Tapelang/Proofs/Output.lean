import Tapelang.Proofs.Executing
import Tapelang.Proofs.Sending

/-!
# Where output goes

A run is compared with the same run on a sink that takes everything (`unlimited`). As long as the
outlet has not failed, the two go the same way, and the bytes that the sink has taken and those that
are held back are exactly the bytes written so far (`Outlet.Kept`). When the sink refuses, the run
ends at once, and the sink has taken a first part of these bytes (`Outlet.Lost`).

* `Core.execute_sends`, `Machine.step_sends`: the two things that can happen in an instruction and in
  a round.
* `Machine.runFor_delivers`: the same for a run, with the bytes that it writes (`Machine.emitted`).
* `Engine.run_output`: no byte of output is lost, written twice or out of order.
-/

namespace Tapelang

/-! ## Instructions -/

namespace Core

/-- The same core with a sink that takes everything. -/
def unlimited (c : Core) : Core := { c with output := c.output.unlimited }

/-- The bytes that the sink has taken. -/
def taken (c : Core) : Bytes := c.output.sink.taken.toList

/-- The byte that an instruction writes, if it writes one. -/
def byteFor? (c : Core) (i : Instruction) : Option UInt8 :=
  match c.cell with
  | .ok cell => if i.opcode? = some .write then some cell else none
  | .error _ => none

/-- The byte that the next instruction writes, if it writes one. -/
def nextByte? (code : Code) (c : Core) : Option UInt8 :=
  match code.instructionAt c.ip, c.cell with
  | .ok i, .ok cell => if i.opcode? = some .write then some cell else none
  | _, _ => none

theorem nextByte?_eq {code : Code} {c : Core} {i : Instruction}
    (h : code.instructionAt c.ip = .ok i) : c.nextByte? code = c.byteFor? i := by
  rw [nextByte?, byteFor?, h]
  cases c.cell <;> rfl

theorem byteFor?_eq_none {i : Instruction} (h : i.opcode? ≠ some .write) (c : Core) :
    c.byteFor? i = none := by
  rw [byteFor?]
  cases c.cell with
  | error f => rfl
  | ok cell => exact if_neg h

/-- What carrying out an instruction can do, where `bytes` have been written before: what it does
with a sink that takes everything, or it fails because the sink refuses. -/
inductive Sends (i : Instruction) (c : Core) (capacity : Option Nat) (bytes : Bytes) :
    Core × Option Stop → Prop
  | goes {c' : Core} : c.unlimited.execute i = (c'.unlimited, none) →
      c'.output.Kept capacity (bytes ++ (c.byteFor? i).toList) →
      Sends i c capacity bytes (c', none)
  | stops {c' : Core} {stop : Stop} : c.unlimited.execute i = (c'.unlimited, some stop) →
      c'.output.Kept capacity bytes → Sends i c capacity bytes (c', some stop)
  | fails {c' : Core} {why : WriteFault} : c'.output.Lost capacity bytes why →
      Sends i c capacity bytes (c', some (.output why))

variable {i : Instruction} {c : Core} {capacity : Option Nat} {bytes : Bytes}

theorem Sends.of_unlimited {result : Core × Option Stop} (hw : i.opcode? ≠ some .write)
    (hfree : c.unlimited.execute i = (result.1.unlimited, result.2))
    (hkept : result.1.output.Kept capacity bytes) : Sends i c capacity bytes result := by
  rcases result with ⟨c', _ | stop⟩
  · refine .goes hfree ?_
    rwa [byteFor?_eq_none hw, Option.toList_none, List.append_nil]
  · exact .stops hfree hkept

theorem move_quiet (c : Core) (delta : Int) :
    c.unlimited.move delta = ((c.move delta).1.unlimited, (c.move delta).2) ∧
      (c.move delta).1.output = c.output ∧ (c.move delta).1.input = c.input ∧
      (c.move delta).1.requests = c.requests := by
  by_cases hout : c.dp + delta < 0 ∨ tapeSize ≤ c.dp + delta
  · have hmove : c.move delta = (_, some .dataPointer) := if_pos hout
    rw [hmove]
    exact ⟨if_pos hout, rfl, rfl, rfl⟩
  · have hmove : c.move delta = (_, none) := if_neg hout
    rw [hmove]
    exact ⟨if_neg hout, rfl, rfl, rfl⟩

/-- Only `WRITE` and `READ` have to do with input and output. -/
theorem execute_quiet (hw : i.opcode? ≠ some .write) (hr : i.opcode? ≠ some .read) :
    c.unlimited.execute i = ((c.execute i).1.unlimited, (c.execute i).2) ∧
      (c.execute i).1.output = c.output ∧ (c.execute i).1.input = c.input ∧
      (c.execute i).1.requests = c.requests := by
  have hcell : c.unlimited.cell = c.cell := rfl
  unfold execute
  cases ho : i.opcode? with
  | none => exact ⟨rfl, rfl, rfl, rfl⟩
  | some o =>
    cases o with
    | write => exact absurd ho hw
    | read => exact absurd ho hr
    | finish => exact ⟨rfl, rfl, rfl, rfl⟩
    | addByte | subByte =>
      simp only [withCell, hcell]
      cases c.cell with
      | error f => exact ⟨rfl, rfl, rfl, rfl⟩
      | ok cell => cases i.runLength <;> exact ⟨rfl, rfl, rfl, rfl⟩
    | addPointer | subPointer =>
      simp only [withOperand]
      cases i.pointerDelta with
      | error f => exact ⟨rfl, rfl, rfl, rfl⟩
      | ok n => exact move_quiet c _
    | jumpIfZero =>
      simp only [withCell, hcell]
      cases c.cell with
      | error f => exact ⟨rfl, rfl, rfl, rfl⟩
      | ok cell =>
        simp only
        split
        · exact ⟨rfl, rfl, rfl, rfl⟩
        · cases i.jumpTarget <;> exact ⟨rfl, rfl, rfl, rfl⟩
    | jump =>
      simp only
      cases i.jumpTarget <;> exact ⟨rfl, rfl, rfl, rfl⟩

theorem write_sends (ho : i.opcode? = some .write) (h : c.output.Kept capacity bytes) :
    Sends i c capacity bytes (c.execute i) := by
  have hcell : c.unlimited.cell = c.cell := rfl
  have hex : ∀ c : Core, c.execute i = c.withCell c.write := fun c => by rw [execute, ho]
  cases hc : c.cell with
  | error f =>
    have hstop : ∀ c : Core, c.cell = .error f → c.execute i = (c, some (.faulted f.message)) := by
      intro c hc
      rw [hex, withCell, hc]
    rw [hstop c hc]
    exact .stops (hstop _ (hcell.trans hc)) h
  | ok cell =>
    have hput : ∀ c : Core, c.cell = .ok cell → c.execute i = c.write cell := by
      intro c hc
      rw [hex, withCell, hc]
    have hbyte : c.byteFor? i = some cell := by simp [byteFor?, hc, ho]
    rw [hput c hc]
    rcases Outlet.put_outcome h cell with ⟨o, hp, hfree, hkept⟩ | ⟨o, why, hp, hlost⟩
    · rw [write, hp]
      refine .goes ?_ (by rw [hbyte]; exact hkept)
      rw [hput _ (hcell.trans hc), write]
      simp only [unlimited, hfree]
    · rw [write, hp]
      exact .fails hlost

/-- A `READ` whose flush succeeds goes the same way whatever the sink is, and notes how much the
sink had taken. -/
theorem read_flushed {o : Outlet} (hf : c.output.flush = (o, none))
    (hfree : c.output.unlimited.flush = (o.unlimited, none)) :
    c.unlimited.read = (c.read.1.unlimited, c.read.2) ∧ c.read.1.output = o ∧
      c.read.1.requests = c.requests ++
        Array.replicate (c.read.1.input.pulls - c.input.pulls) o.sink.taken.size := by
  simp only [read, unlimited, hf, hfree]
  rcases c.input.next with ⟨_ | _ | _, input⟩
  · by_cases hdp : c.dp < tapeSize
    · simp only [if_pos hdp]
      exact ⟨if_pos hdp, rfl, rfl⟩
    · simp only [if_neg hdp]
      exact ⟨if_neg hdp, trivial, trivial⟩
  · exact ⟨rfl, rfl, rfl⟩
  · exact ⟨rfl, rfl, rfl⟩

theorem read_sends (ho : i.opcode? = some .read) (h : c.output.Kept capacity bytes) :
    Sends i c capacity bytes (c.execute i) := by
  rw [execute_read ho]
  rcases Outlet.flush_outcome h with ⟨o, hf, hfree, hkept, -⟩ | ⟨o, why, hf, hlost⟩
  · obtain ⟨hread, hout, -⟩ := read_flushed hf hfree
    refine .of_unlimited (by simp [ho]) ?_ (by rwa [hout])
    rw [execute_read ho, hread]
  · rw [read, hf]
    exact .fails hlost

/-- **An instruction** does what it does with a sink that takes everything, or fails because the
sink refuses. -/
theorem execute_sends (i : Instruction) (h : c.output.Kept capacity bytes) :
    Sends i c capacity bytes (c.execute i) := by
  by_cases hw : i.opcode? = some .write
  · exact write_sends hw h
  · by_cases hr : i.opcode? = some .read
    · exact read_sends hr h
    · obtain ⟨hfree, hout, -, -⟩ := execute_quiet (c := c) hw hr
      exact .of_unlimited hw hfree (by rwa [hout])

/-- What was done from `c` to `c'` made requests on the input only with all of `bytes` taken. -/
structure Asks (bytes : Bytes) (c c' : Core) : Prop where
  requests : c'.requests = c.requests ++
    Array.replicate (c'.input.pulls - c.input.pulls) bytes.length
  taken : c'.input.pulls ≠ c.input.pulls → c'.taken = bytes

theorem Asks.of_eq {c' : Core} (hi : c'.input = c.input) (hr : c'.requests = c.requests) :
    Asks bytes c c' := by
  refine ⟨?_, fun hne => absurd (congrArg Reader.pulls hi) hne⟩
  rw [hi, hr]
  simp

theorem read_asks (h : c.output.Kept capacity bytes) : Asks bytes c c.read.1 := by
  rcases Outlet.flush_outcome h with ⟨o, hf, hfree, -, htaken⟩ | ⟨o, why, hf, -⟩
  · obtain ⟨-, hout, hreq⟩ := read_flushed hf hfree
    refine ⟨?_, fun _ => ?_⟩
    · rw [hreq, ← htaken, Array.length_toList]
    · rw [taken, hout, htaken]
  · rw [read, hf]
    exact .of_eq rfl rfl

theorem execute_asks (i : Instruction) (h : c.output.Kept capacity bytes) :
    Asks bytes c (c.execute i).1 := by
  by_cases hr : i.opcode? = some .read
  · rw [execute_read hr]
    exact read_asks h
  · by_cases hw : i.opcode? = some .write
    · rw [execute, hw]
      simp only [withCell]
      cases c.cell with
      | error f => exact .of_eq rfl rfl
      | ok cell =>
        simp only [write]
        rcases c.output.put cell with ⟨o, _ | why⟩ <;> exact .of_eq rfl rfl
    · obtain ⟨-, -, hi, hreq⟩ := execute_quiet (c := c) hw hr
      exact .of_eq hi hreq

end Core

/-! ## Rounds -/

namespace Machine

variable {σ : Type}

/-- The same machine with a sink that takes everything. -/
def unlimited (m : Machine σ) : Machine σ := { m with core := m.core.unlimited }

/-- The bytes written in the next `rounds` rounds, as far as the run goes on. -/
def emitted (s : Setup σ) : (rounds : Nat) → Machine σ → Bytes
  | 0, _ => []
  | rounds + 1, m =>
    match m.step s with
    | (m', none) => (m.core.nextByte? s.code).toList ++ emitted s rounds m'
    | (_, some _) => []

theorem checkContext_unlimited (m : Machine σ) (interval : Int) :
    m.unlimited.checkContext interval =
      ((m.checkContext interval).1.unlimited, (m.checkContext interval).2) := by
  have hcore := (m.checkContext_core interval).1
  rw [unlimited, checkContext_withCore, unlimited, hcore]

theorem observe_core (m : Machine σ) (s : Setup σ) (i : Instruction) :
    (m.observe s i).1.core = m.core := by
  unfold observe
  cases s.observer with
  | none => rfl
  | some observer =>
    cases m.core.cell with
    | error f => rfl
    | ok cell =>
      simp only
      split <;> rfl

theorem observe_unlimited (m : Machine σ) (s : Setup σ) (i : Instruction) :
    m.unlimited.observe s i = ((m.observe s i).1.unlimited, (m.observe s i).2) := by
  have hcore := m.observe_core s i
  have hfree := m.observe_withCore s i m.core.unlimited rfl rfl rfl
  rw [unlimited, hfree, unlimited, hcore]

/-- Whether a round comes to its instruction does not depend on the sink. -/
theorem step_unlimited (s : Setup σ) (m : Machine σ) :
    (∃ (m' : Machine σ) (stop : Stop), m'.core = m.core ∧ m.step s = (m', some stop) ∧
        m.unlimited.step s = (m'.unlimited, some stop)) ∨
      ∃ (m' : Machine σ) (i : Instruction),
        m'.core = m.core ∧ s.code.instructionAt m.core.ip = .ok i ∧
        m.step s = m'.dispatch i ∧ m.unlimited.step s = m'.unlimited.dispatch i := by
  have hcheck : ∀ {m₁ : Machine σ} {why? : Option Interruption},
      m.checkContext s.checkInterval = (m₁, why?) →
      m.unlimited.checkContext s.checkInterval = (m₁.unlimited, why?) ∧ m₁.core = m.core := by
    intro m₁ why? hc
    have hcore := (m.checkContext_core s.checkInterval).1
    rw [checkContext_unlimited, hc]
    rw [hc] at hcore
    exact ⟨rfl, hcore⟩
  have hobserve : ∀ {m₁ m₂ : Machine σ} {i : Instruction} {stop? : Option Stop},
      observe { m₁ with steps := m₁.steps + 1 } s i = (m₂, stop?) →
      observe { m₁.unlimited with steps := m₁.unlimited.steps + 1 } s i =
        (m₂.unlimited, stop?) ∧ m₂.core = m₁.core := by
    intro m₁ m₂ i stop? ho
    have hfree := observe_unlimited { m₁ with steps := m₁.steps + 1 } s i
    have hcore := observe_core { m₁ with steps := m₁.steps + 1 } s i
    rw [ho] at hfree hcore
    exact ⟨hfree, hcore⟩
  have hround := m.round s
  generalize m.step s = result at hround
  cases hround with
  | outside hout => exact .inl ⟨_, _, rfl, rfl, Round.step_eq (.outside hout)⟩
  | finished hr hf => exact .inl ⟨_, _, rfl, rfl, Round.step_eq (.finished hr hf)⟩
  | interrupted hr hf hc =>
    obtain ⟨hc', hcore⟩ := hcheck hc
    exact .inl ⟨_, _, hcore, rfl, Round.step_eq (.interrupted hr hf hc')⟩
  | limited hr hf hc hpos hle =>
    obtain ⟨hc', hcore⟩ := hcheck hc
    exact .inl ⟨_, _, hcore, rfl, Round.step_eq (.limited hr hf hc' hpos hle)⟩
  | observed hr hf hc hl ho =>
    obtain ⟨hc', hcore⟩ := hcheck hc
    obtain ⟨ho', hcore'⟩ := hobserve ho
    exact .inl ⟨_, _, hcore'.trans hcore, rfl, Round.step_eq (.observed hr hf hc' hl ho')⟩
  | dispatched hr hf hc hl ho =>
    obtain ⟨hc', hcore⟩ := hcheck hc
    obtain ⟨ho', hcore'⟩ := hobserve ho
    exact .inr ⟨_, _, hcore'.trans hcore, hr.instructionAt, rfl,
      Round.step_eq (.dispatched hr hf hc' hl ho')⟩

/-- What a round can do, where `bytes` have been written before; see `Core.Sends`. -/
inductive Sends (s : Setup σ) (m : Machine σ) (capacity : Option Nat) (bytes : Bytes) :
    Machine σ × Option Stop → Prop
  | goes {m' : Machine σ} : m.unlimited.step s = (m'.unlimited, none) →
      m'.core.output.Kept capacity (bytes ++ (m.core.nextByte? s.code).toList) →
      Sends s m capacity bytes (m', none)
  | stops {m' : Machine σ} {stop : Stop} : m.unlimited.step s = (m'.unlimited, some stop) →
      m'.core.output.Kept capacity bytes → Sends s m capacity bytes (m', some stop)
  | fails {m' : Machine σ} {why : WriteFault} : m'.core.output.Lost capacity bytes why →
      Sends s m capacity bytes (m', some (.output why))

variable {s : Setup σ} {m : Machine σ} {capacity : Option Nat} {bytes : Bytes}

/-- **A round** does what it does with a sink that takes everything, or fails because the sink
refuses. -/
theorem step_sends (s : Setup σ) (h : m.core.output.Kept capacity bytes) :
    Sends s m capacity bytes (m.step s) := by
  rcases step_unlimited s m with ⟨m', stop, hcore, hstep, hfree⟩ | ⟨m', i, hcore, hi, hstep, hfree⟩
  · rw [hstep]
    exact .stops hfree (hcore ▸ h)
  · rw [← hcore] at h hi
    have hsends := Core.execute_sends i h
    rw [hstep, dispatch]
    rw [dispatch] at hfree
    generalize m'.core.execute i = result at hsends
    cases hsends with
    | goes hexec hkept =>
      refine .goes ?_ ?_
      · rw [hfree, show m'.unlimited.core.execute i = _ from hexec]
        rfl
      · rwa [← hcore, Core.nextByte?_eq hi]
    | stops hexec hkept =>
      refine .stops ?_ hkept
      rw [hfree, show m'.unlimited.core.execute i = _ from hexec]
      rfl
    | fails hlost => exact .fails hlost

theorem step_asks (s : Setup σ) (h : m.core.output.Kept capacity bytes) :
    m.core.Asks bytes (m.step s).1.core := by
  rcases step_unlimited s m with ⟨m', stop, hcore, hstep, -⟩ | ⟨m', i, hcore, -, hstep, -⟩
  · rw [hstep]
    exact .of_eq (congrArg Core.input hcore) (congrArg Core.requests hcore)
  · rw [← hcore] at h ⊢
    rw [hstep]
    exact Core.execute_asks i h

/-! ## Runs -/

theorem emitted_goes {m' : Machine σ} (h : m.step s = (m', none)) (rounds : Nat) :
    m.emitted s (rounds + 1) = (m.core.nextByte? s.code).toList ++ m'.emitted s rounds := by
  rw [emitted, h]

theorem emitted_stops {m' : Machine σ} {stop : Stop} (h : m.step s = (m', some stop))
    (rounds : Nat) : m.emitted s (rounds + 1) = [] := by
  rw [emitted, h]

/-- A run that has ended writes nothing more. -/
theorem emitted_eq_of_stopped {rounds n : Nat} (h : (m.runFor s rounds).2 ≠ none)
    (hn : rounds ≤ n) : m.emitted s n = m.emitted s rounds := by
  induction rounds generalizing m n with
  | zero => exact absurd rfl h
  | succ rounds ih =>
    obtain ⟨n, rfl⟩ : ∃ k, n = k + 1 := ⟨n - 1, by omega⟩
    rcases hs : m.step s with ⟨m', stop?⟩
    rw [runFor, hs] at h
    cases stop? with
    | none => rw [emitted_goes hs, emitted_goes hs, ih h (by omega)]
    | some stop => rw [emitted_stops hs, emitted_stops hs]

/-- What a run can do, where `bytes` have been written before: what it does with a sink that takes
everything, and nothing has been refused; or it has failed because the sink refused. -/
inductive Delivers (s : Setup σ) (rounds : Nat) (m : Machine σ) (capacity : Option Nat)
    (bytes : Bytes) : Machine σ × Option Stop → Prop
  | kept {m' : Machine σ} {stop? : Option Stop} :
      m.unlimited.runFor s rounds = (m'.unlimited, stop?) →
      m.unlimited.emitted s rounds = m.emitted s rounds →
      m'.core.output.Kept capacity (bytes ++ m.emitted s rounds) →
      Delivers s rounds m capacity bytes (m', stop?)
  | lost {m' : Machine σ} {why : WriteFault} :
      m'.core.output.Lost capacity (bytes ++ m.unlimited.emitted s rounds) why →
      Delivers s rounds m capacity bytes (m', some (.output why))

/-- **A run** does what it does with a sink that takes everything, or fails because the sink
refuses. -/
theorem runFor_delivers (s : Setup σ) (rounds : Nat) (h : m.core.output.Kept capacity bytes) :
    Delivers s rounds m capacity bytes (m.runFor s rounds) := by
  -- the bytes written before grow along the run
  induction rounds generalizing m bytes with
  | zero => exact .kept rfl rfl (by simpa [emitted] using h)
  | succ rounds ih =>
    have hsends := step_sends s h
    rcases hs : m.step s with ⟨m', stop?⟩
    rw [hs] at hsends
    rw [runFor, hs]
    cases hsends with
    | goes hfree hkept =>
      have hrest := ih hkept
      simp only
      generalize m'.runFor s rounds = result at hrest
      cases hrest with
      | kept hrun hemit hkept' =>
        refine .kept (by rw [runFor, hfree]; exact hrun) ?_ ?_
        · rw [emitted_goes hfree, emitted_goes hs, hemit]
          rfl
        · rwa [emitted_goes hs, ← List.append_assoc]
      | lost hlost =>
        refine .lost ?_
        rwa [emitted_goes hfree, ← List.append_assoc]
    | stops hfree hkept =>
      refine .kept (by rw [runFor, hfree]) ?_ ?_
      · rw [emitted_stops hfree, emitted_stops hs]
      · rwa [emitted_stops hs, List.append_nil]
    | fails hlost =>
      -- with a sink that takes everything the run may go on and write more
      exact .lost ⟨hlost.fault, hlost.limited, hlost.taken.trans (List.prefix_append _ _)⟩

theorem close_kept (h : m.core.output.Kept capacity bytes) (stop : Stop) :
    (m.close stop).1.core.taken <+: bytes ∧
      ((m.close stop).2 = .finished ∨ capacity = none → (m.close stop).1.core.taken = bytes) := by
  unfold close
  rcases Outlet.flush_outcome h with ⟨o, hf, -, -, htaken⟩ | ⟨o, why, hf, hlost⟩
  · rw [hf]
    simp only
    exact ⟨htaken ▸ List.prefix_refl _, fun _ => htaken⟩
  · rw [hf]
    simp only
    split
    · exact ⟨hlost.taken, fun hend => hend.elim nofun fun hc => absurd hc hlost.limited⟩
    · -- another reason to end stays, and it is not that the program finished
      rename_i hne
      refine ⟨hlost.taken, fun hend => hend.elim ?_ fun hc => absurd hc hlost.limited⟩
      rintro rfl
      exact absurd rfl (hne why rfl)

theorem close_lost {why : WriteFault} (h : m.core.output.Lost capacity bytes why) :
    m.close (.output why) = (m, .output why) := by
  rw [close, Outlet.flush, if_pos (by simp [h.fault])]

theorem Delivers.taken {rounds : Nat} {result : Machine σ × Option Stop}
    (h : Delivers s rounds m capacity bytes result) :
    result.1.core.taken <+: bytes ++ m.unlimited.emitted s rounds := by
  cases h with
  | kept _ hemit hkept =>
    rw [hemit, ← hkept.written]
    exact List.prefix_append _ _
  | lost hlost => exact hlost.taken

theorem run_delivers (s : Setup σ) (rounds : Nat) (h : m.core.output.Kept capacity bytes) :
    (m.run s rounds).1.core.taken <+: bytes ++ m.unlimited.emitted s rounds ∧
      ∀ stop, (m.run s rounds).2 = some stop → stop = .finished ∨ capacity = none →
        ∀ n, rounds ≤ n → (m.run s rounds).1.core.taken = bytes ++ m.emitted s n ∧
          m.unlimited.emitted s n = m.emitted s n := by
  have hdelivers := runFor_delivers s rounds h
  rw [run]
  rcases hm : m.runFor s rounds with ⟨m₁, _ | stop₁⟩
  · rw [hm] at hdelivers
    exact ⟨hdelivers.taken, nofun⟩
  rw [hm] at hdelivers
  cases hdelivers with
  | kept hfree hemit hkept =>
    obtain ⟨hpart, hall⟩ := close_kept hkept stop₁
    refine ⟨hemit ▸ hpart, ?_⟩
    rintro stop ⟨⟩ hend n hn
    have hown : m.emitted s n = m.emitted s rounds :=
      emitted_eq_of_stopped (by simp [hm]) hn
    have hother : m.unlimited.emitted s n = m.unlimited.emitted s rounds :=
      emitted_eq_of_stopped (by simp [hfree]) hn
    exact ⟨hown ▸ hall hend, by rw [hother, hown, hemit]⟩
  | lost hlost =>
    simp only [close_lost hlost]
    refine ⟨hlost.taken, ?_⟩
    rintro stop ⟨⟩ (hend | hend)
    · cases hend
    · exact absurd hend hlost.limited

end Machine

/-! ## Engines -/

namespace Options

variable {σ : Type}

/-- The same options with a sink that takes everything. -/
def unlimited (o : Options σ) : Options σ := { o with sink := { o.sink with capacity := none } }

/-- What the sink holds once it has taken every byte written in the first `rounds` rounds. -/
def written (o : Options σ) (c : Code) (rounds : Nat) : Bytes :=
  o.sink.taken.toList ++ o.machine.emitted (o.setup c) rounds

theorem machine_kept (o : Options σ) :
    o.machine.core.output.Kept o.sink.capacity o.sink.taken.toList :=
  ⟨rfl, rfl, List.append_nil _⟩

end Options

theorem Stop.eq_finished_of_toFailure? {why : Stop} (h : why.toFailure? = none) :
    why = .finished := by
  cases why <;> first | rfl | cases h

theorem Engine.run_new {σ : Type} {c : Code} {o : Options σ} {rounds : Nat} {ending : Ending}
    {e : Engine σ} (h : (Engine.new (some c) o).run rounds = (ending, e)) :
    e.machine = (o.machine.run (o.setup c) rounds).1 ∧
      ∀ why, ending = .stopped why → (o.machine.run (o.setup c) rounds).2 = some why := by
  simp only [Engine.run, Engine.new, Option.map_some] at h
  rcases hm : o.machine.run (o.setup c) rounds with ⟨m, _ | stop⟩
  · rw [hm] at h
    cases h
    exact ⟨rfl, nofun⟩
  · rw [hm] at h
    cases h
    refine ⟨rfl, ?_⟩
    rintro why ⟨⟩
    rfl

/-- **No byte of output is lost, written twice or out of order**, whatever the code, the input, the
sink, the limits, the context and the observer are. After any number of rounds, and after a call to
run, the sink has taken a first part of what the same run writes with a sink that takes everything.
When a run has ended without a failure, or with any ending if the sink takes everything, the sink
has taken all that the run ever writes. When a round makes requests on the input, the sink has
already taken all that was written before. -/
theorem Engine.run_output {σ : Type} (c : Code) (o : Options σ) :
    (∀ rounds, (o.machine.runFor (o.setup c) rounds).1.core.taken <+:
      o.unlimited.written c rounds) ∧
    (∀ rounds ending e, (Engine.new (some c) o).run rounds = (ending, e) →
      e.machine.core.taken <+: o.unlimited.written c rounds ∧
      ∀ why, ending = .stopped why → why.toFailure? = none ∨ o.sink.capacity = none →
        ∀ n, rounds ≤ n →
          e.machine.core.taken = o.written c n ∧ o.unlimited.written c n = o.written c n) ∧
    ∀ rounds m, o.machine.runFor (o.setup c) rounds = (m, none) →
      m.core.Asks (o.written c rounds) (m.step (o.setup c)).1.core := by
  have hruns := fun rounds => Machine.runFor_delivers (o.setup c) rounds o.machine_kept
  refine ⟨fun rounds => (hruns rounds).taken, ?_, ?_⟩
  · intro rounds ending e hrun
    obtain ⟨hmachine, hending⟩ := Engine.run_new hrun
    obtain ⟨hpart, hall⟩ := Machine.run_delivers (o.setup c) rounds o.machine_kept
    rw [hmachine]
    refine ⟨hpart, ?_⟩
    intro why hwhy hend n hn
    obtain ⟨htaken, hemit⟩ :=
      hall why (hending why hwhy) (hend.imp_left Stop.eq_finished_of_toFailure?) n hn
    exact ⟨htaken, congrArg (o.sink.taken.toList ++ ·) hemit⟩
  · intro rounds m hm
    have hrun := hruns rounds
    rw [hm] at hrun
    cases hrun with
    | kept _ _ hkept => exact Machine.step_asks _ hkept

end Tapelang
