import Tapelang.Proofs.UncheckedCode

/-!
# What an observer is told

A round ends the run before it begins an instruction (`Machine.Halts`), or it begins one
(`Machine.Begins`): then the instruction is counted, the observer is told of it, and it is carried
out unless the observer objects (`Machine.carryOut`). The instructions begun in a run are its events
(`Machine.events`).

* `Machine.step_tells`: what a round tells the observer.
* `Machine.runFor_tells`: a run counts its events, and they are all that its observer is told.
* `Machine.events_getElem?`: each of them shows the machine just before its instruction.
-/

namespace Tapelang

/-! ## Observers -/

/-- The reason that a verdict gives to end a run. -/
def Verdict.stop? : Verdict → Option Stop
  | proceed => none
  | halt => some .halted
  | breakDown value => some (.brokenDown value)

namespace Observer

variable {σ : Type}

/-- What an observer remembers once it has been told of `events`. -/
def after (observer : Observer σ) (watch : σ) (events : List Event) : σ :=
  events.foldl (fun watch e => (observer.notify watch e).1) watch

/-- What an observer answers to `events`, one after the other. -/
def reactions (observer : Observer σ) : (watch : σ) → List Event → List Reaction
  | _, [] => []
  | watch, e :: rest =>
    (observer.notify watch e).2 :: observer.reactions (observer.notify watch e).1 rest

@[simp] theorem after_cons (observer : Observer σ) (watch : σ) (e : Event) (rest : List Event) :
    observer.after watch (e :: rest) = observer.after (observer.notify watch e).1 rest := rfl

@[simp] theorem reactions_length (observer : Observer σ) (watch : σ) (events : List Event) :
    (observer.reactions watch events).length = events.length := by
  induction events generalizing watch with
  | nil => rfl
  | cons e rest ih => rw [reactions, List.length_cons, List.length_cons, ih]

end Observer

/-- What the observer of a run, if there is one, remembers once it has been told of `events`. -/
def Setup.told {σ : Type} (s : Setup σ) (watch : σ) (events : List Event) : σ :=
  match s.observer with
  | none => watch
  | some observer => observer.after watch events

@[simp] theorem Setup.told_nil {σ : Type} (s : Setup σ) (watch : σ) : s.told watch [] = watch := by
  unfold told
  cases s.observer <;> rfl

theorem Setup.told_append {σ : Type} (s : Setup σ) (watch : σ) (events more : List Event) :
    s.told watch (events ++ more) = s.told (s.told watch events) more := by
  unfold told
  cases s.observer with
  | none => rfl
  | some observer => exact List.foldl_append

/-! ## Rounds -/

/-- The event of the next instruction, if there is one. -/
def Core.event? (code : Code) (c : Core) : Option Event :=
  match code.instructionAt c.ip, c.cell with
  | .ok i, .ok cell =>
    some { ip := c.ip, code := i.code, location := code.locationAt c.ip, dp := c.dp, cell }
  | _, _ => none

theorem Core.event?_isSome {code : Code} {c : Core} {i : Instruction} (hdp : c.dp < tapeSize)
    (hi : code.instructionAt c.ip = .ok i) : ∃ e, c.event? code = some e ∧ e.code = i.code := by
  rw [event?, hi, cell_ok hdp]
  exact ⟨_, rfl, rfl⟩

namespace Machine

variable {σ : Type} {s : Setup σ} {m m' m₁ : Machine σ} {i : Instruction} {stop : Stop} {e : Event}

/-- The machine once its observer has been told of `e`. -/
def tell (m : Machine σ) (observer : Observer σ) (e : Event) : Machine σ :=
  { m with
    watch := (observer.notify m.watch e).1
    context := if (observer.notify m.watch e).2.cancel then m.context.cancel else m.context }

theorem observe_eq {observer : Observer σ} (hobs : s.observer = some observer)
    (hi : s.code.instructionAt m.core.ip = .ok i) (he : m.core.event? s.code = some e) :
    m.observe s i = (m.tell observer e, (observer.notify m.watch e).2.verdict.stop?) := by
  cases hc : m.core.cell with
  | error f =>
    rw [Core.event?, hi, hc] at he
    cases he
  | ok cell =>
    rw [Core.event?, hi, hc] at he
    cases he
    simp only [observe, hobs, hc, tell]
    split <;> rename_i hv <;> rw [hv] <;> rfl

/-- The rest of a round once `i` has been counted: the observer is told, and `i` is carried out. -/
def carryOut (s : Setup σ) (m : Machine σ) (i : Instruction) : Machine σ × Option Stop :=
  match m.observe s i with
  | (m, some stop) => (m, some stop)
  | (m, none) => m.dispatch i

/-- The round begins the instruction `i`, and `m₁` is the machine with `i` counted. -/
inductive Begins (s : Setup σ) (m : Machine σ) (i : Instruction) : Machine σ → Prop
  | intro {k : Nat} {m₁ : Machine σ} : Reaches s.code m.core k i →
      i.code ≠ Opcode.finish.toByte → m.checkContext s.checkInterval = (m₁, none) →
      ¬ (0 < s.stepLimit ∧ s.stepLimit ≤ m₁.steps) →
      Begins s m i { m₁ with steps := m₁.steps + 1 }

/-- The round ends the run before an instruction is begun, and leaves `m₁`. -/
inductive Halts (s : Setup σ) (m : Machine σ) : Machine σ → Stop → Prop
  | outside : m.core.ip < 0 ∨ s.code.size ≤ m.core.ip →
      Halts s m m (.instructionPointer m.core.ip)
  | finished {k : Nat} {i : Instruction} : Reaches s.code m.core k i →
      i.code = Opcode.finish.toByte → Halts s m m .finished
  | interrupted {k : Nat} {i : Instruction} {m₁ : Machine σ} {why : Interruption} :
      Reaches s.code m.core k i → i.code ≠ Opcode.finish.toByte →
      m.checkContext s.checkInterval = (m₁, some why) → Halts s m m₁ (.interrupted why)
  | limited {k : Nat} {i : Instruction} {m₁ : Machine σ} :
      Reaches s.code m.core k i → i.code ≠ Opcode.finish.toByte →
      m.checkContext s.checkInterval = (m₁, none) → 0 < s.stepLimit → s.stepLimit ≤ m₁.steps →
      Halts s m m₁ (.stepLimit s.stepLimit)

/-- **A round** begins an instruction or ends the run before it does. -/
theorem halts_or_begins (s : Setup σ) (m : Machine σ) :
    (∃ m₁ stop, Halts s m m₁ stop) ∨ ∃ i m₁, Begins s m i m₁ := by
  have hround := m.round s
  generalize m.step s = result at hround
  cases hround with
  | outside hout => exact .inl ⟨_, _, .outside hout⟩
  | finished hr hf => exact .inl ⟨_, _, .finished hr hf⟩
  | interrupted hr hf hc => exact .inl ⟨_, _, .interrupted hr hf hc⟩
  | limited hr hf hc hpos hle => exact .inl ⟨_, _, .limited hr hf hc hpos hle⟩
  | observed hr hf hc hl _ => exact .inr ⟨_, _, .intro hr hf hc hl⟩
  | dispatched hr hf hc hl _ => exact .inr ⟨_, _, .intro hr hf hc hl⟩

theorem Halts.step_eq (h : Halts s m m₁ stop) : m.step s = (m₁, some stop) := by
  cases h with
  | outside hout => exact Round.step_eq (.outside hout)
  | finished hr hf => exact Round.step_eq (.finished hr hf)
  | interrupted hr hf hc => exact Round.step_eq (.interrupted hr hf hc)
  | limited hr hf hc hpos hle => exact Round.step_eq (.limited hr hf hc hpos hle)

theorem Begins.step_eq (h : Begins s m i m₁) : m.step s = m₁.carryOut s i := by
  cases h with
  | @intro k m₁ hr hf hc hl =>
    rcases ho : observe { m₁ with steps := m₁.steps + 1 } s i with ⟨m₂, _ | stop⟩
    · rw [Round.step_eq (.dispatched hr hf hc hl ho), carryOut, ho]
    · rw [Round.step_eq (.observed hr hf hc hl ho), carryOut, ho]

/-- A look at the context changes neither the context nor what the observer remembers. -/
theorem checked_context {why? : Option Interruption} {interval : Int}
    (hc : m.checkContext interval = (m₁, why?)) :
    m₁.watch = m.watch ∧ m₁.context = m.context := by
  unfold checkContext at hc
  repeat' split at hc
  all_goals
    cases hc
    exact ⟨rfl, rfl⟩

/-- A round that begins no instruction leaves the core, the count and the observer alone. -/
theorem Halts.same (h : Halts s m m₁ stop) :
    m₁.core = m.core ∧ m₁.steps = m.steps ∧ m₁.watch = m.watch ∧ m₁.context = m.context := by
  cases h with
  | outside | finished => exact ⟨rfl, rfl, rfl, rfl⟩
  | interrupted _ _ hc | limited _ _ hc =>
    exact ⟨(checked_core hc).1, (checked_core hc).2, checked_context hc⟩

theorem Begins.counted (h : Begins s m i m₁) :
    m₁.core = m.core ∧ m₁.steps = m.steps + 1 ∧ m₁.watch = m.watch ∧
      m₁.context = m.context := by
  cases h with
  | intro _ _ hc _ =>
    have hcontext := checked_context hc
    exact ⟨(checked_core hc).1, congrArg (· + 1) (checked_core hc).2, hcontext⟩

theorem Begins.observed_core {m₂ : Machine σ} {stop? : Option Stop} (h : Begins s m i m₁)
    (ho : m₁.observe s i = (m₂, stop?)) : m₂.core = m.core := by
  have hcore := m₁.observe_core s i
  rw [ho] at hcore
  exact hcore.trans h.counted.1

/-- An observer ends a run only by halting it or by breaking down. -/
theorem Begins.observed_stop {m₂ : Machine σ} (h : Begins s m i m₁) (hdp : m.core.dp < tapeSize)
    (ho : m₁.observe s i = (m₂, some stop)) :
    stop = .halted ∨ ∃ value, stop = .brokenDown value := by
  cases h with
  | intro _ _ hc _ => exact (observed_exit m.core hdp hc ho).2

theorem carryOut_steps (s : Setup σ) (m : Machine σ) (i : Instruction) :
    (m.carryOut s i).1.steps = m.steps := by
  have hsteps := m.observe_steps s i
  unfold carryOut
  rcases ho : m.observe s i with ⟨m₂, _ | stop⟩
  · rw [ho] at hsteps
    exact hsteps
  · rw [ho] at hsteps
    exact hsteps

theorem Begins.step_steps (h : Begins s m i m₁) : (m.step s).1.steps = m.steps + 1 := by
  rw [h.step_eq, carryOut_steps, h.counted.2.1]

theorem Begins.instructionAt (h : Begins s m i m₁) : s.code.instructionAt m.core.ip = .ok i := by
  cases h with
  | intro hr => exact hr.instructionAt

theorem Begins.code_ne (h : Begins s m i m₁) : i.code ≠ Opcode.finish.toByte := by
  cases h with
  | intro _ hf => exact hf

theorem carryOut_watch (hi : s.code.instructionAt m.core.ip = .ok i)
    (he : m.core.event? s.code = some e) : (m.carryOut s i).1.watch = s.told m.watch [e] := by
  unfold carryOut Setup.told
  cases hobs : s.observer with
  | none =>
    simp only [observe, hobs]
    rfl
  | some observer =>
    rw [observe_eq hobs hi he]
    cases (observer.notify m.watch e).2.verdict <;> rfl

/-- What a round can tell the observer: nothing if it begins no instruction, and otherwise the event
of the instruction, which is no `END`. -/
inductive Tells (s : Setup σ) (m : Machine σ) : Machine σ × Option Stop → Prop
  | nothing {m₁ : Machine σ} {stop : Stop} : m₁.steps = m.steps → m₁.watch = m.watch →
      Tells s m (m₁, some stop)
  | event {m₁ : Machine σ} {stop? : Option Stop} {e : Event} : m.core.event? s.code = some e →
      e.code ≠ Opcode.finish.toByte → m₁.steps = m.steps + 1 →
      m₁.watch = s.told m.watch [e] → Tells s m (m₁, stop?)

theorem Begins.step_watch (h : Begins s m i m₁) (he : m.core.event? s.code = some e) :
    (m.step s).1.watch = s.told m.watch [e] := by
  obtain ⟨hcore, -, hwatch, -⟩ := h.counted
  rw [h.step_eq, ← hwatch]
  exact carryOut_watch (hcore ▸ h.instructionAt) (hcore ▸ he)

/-- **What a round tells the observer.** -/
theorem step_tells (s : Setup σ) (hdp : m.core.dp < tapeSize) : Tells s m (m.step s) := by
  rcases halts_or_begins s m with ⟨m₁, stop, h⟩ | ⟨i, m₁, h⟩
  · rw [h.step_eq]
    exact .nothing h.same.2.1 h.same.2.2.1
  · obtain ⟨e, he, hcode⟩ := Core.event?_isSome hdp h.instructionAt
    have hsteps := h.step_steps
    have hwatch := h.step_watch he
    rcases hs : m.step s with ⟨m₂, stop?⟩
    rw [hs] at hsteps hwatch
    exact .event he (hcode ▸ h.code_ne) hsteps hwatch

/-! ## Runs -/

/-- The events of the instructions begun in the next `rounds` rounds, as far as the run goes on. -/
def events (s : Setup σ) : (rounds : Nat) → Machine σ → List Event
  | 0, _ => []
  | rounds + 1, m =>
    (if (m.step s).1.steps = m.steps then [] else (m.core.event? s.code).toList) ++
      match m.step s with
      | (m', none) => events s rounds m'
      | (_, some _) => []

theorem events_of_same (h : m.step s = (m₁, some stop)) (hsteps : m₁.steps = m.steps)
    (rounds : Nat) : m.events s (rounds + 1) = [] := by
  rw [events, h]
  simp [hsteps]

theorem events_of_stop (h : m.step s = (m₁, some stop)) (hsteps : m₁.steps = m.steps + 1)
    (he : m.core.event? s.code = some e) (rounds : Nat) : m.events s (rounds + 1) = [e] := by
  rw [events, h, he]
  simp [hsteps]

theorem events_of_go (h : m.step s = (m₁, none)) (hsteps : m₁.steps = m.steps + 1)
    (he : m.core.event? s.code = some e) (rounds : Nat) :
    m.events s (rounds + 1) = e :: m₁.events s rounds := by
  rw [events, h, he]
  simp [hsteps]

/-- A round that begins an instruction has its event first. -/
theorem Begins.events_eq (h : Begins s m i m₁) (hdp : m.core.dp < tapeSize) (rounds : Nat) :
    ∃ e rest, m.core.event? s.code = some e ∧ m.events s (rounds + 1) = e :: rest ∧
      (∀ m₂, m.step s = (m₂, none) → rest = m₂.events s rounds) ∧
      ∀ m₂ stop, m.step s = (m₂, some stop) → rest = [] := by
  obtain ⟨e, he, -⟩ := Core.event?_isSome hdp h.instructionAt
  have hsteps := h.step_steps
  rcases hs : m.step s with ⟨m₂, stop?⟩
  rw [hs] at hsteps
  cases stop? with
  | none =>
    refine ⟨e, _, he, events_of_go hs hsteps he rounds, ?_, ?_⟩
    · intro m₃ h₃
      cases h₃
      rfl
    · intro m₃ stop h₃
      cases h₃
  | some stop =>
    refine ⟨e, _, he, events_of_stop hs hsteps he rounds, ?_, ?_⟩
    · intro m₃ h₃
      cases h₃
    · intros
      rfl

/-- **A run counts its events**, and they are all that its observer is told. -/
theorem runFor_tells (s : Setup σ) (rounds : Nat) (hdp : m.core.dp < tapeSize) :
    (m.runFor s rounds).1.steps = m.steps + (m.events s rounds).length ∧
      (m.runFor s rounds).1.watch = s.told m.watch (m.events s rounds) := by
  induction rounds generalizing m with
  | zero => exact ⟨rfl, (s.told_nil _).symm⟩
  | succ rounds ih =>
    have htells := step_tells s hdp
    have hnext := step_dp s hdp
    rcases hs : m.step s with ⟨m₁, stop?⟩
    rw [hs] at htells hnext
    rw [runFor, hs]
    cases htells with
    | nothing hsteps hwatch =>
      rw [events_of_same hs hsteps]
      exact ⟨hsteps, hwatch.trans (s.told_nil _).symm⟩
    | event he _ hsteps hwatch =>
      cases stop? with
      | some stop =>
        rw [events_of_stop hs hsteps he]
        exact ⟨hsteps, hwatch⟩
      | none =>
        obtain ⟨hcount, hmemory⟩ := ih (m := m₁) hnext
        rw [events_of_go hs hsteps he]
        constructor
        · rw [hcount, hsteps, List.length_cons]
          omega
        · rw [hmemory, hwatch, ← s.told_append, List.singleton_append]

theorem events_add {rounds : Nat} (h : m.runFor s rounds = (m', none)) (more : Nat) :
    m.events s (rounds + more) = m.events s rounds ++ m'.events s more := by
  induction rounds generalizing m with
  | zero =>
    cases h
    rw [Nat.zero_add]
    rfl
  | succ rounds ih =>
    rw [runFor] at h
    rw [Nat.add_right_comm, events, events]
    rcases hs : m.step s with ⟨m₁, stop?⟩
    rw [hs] at h
    cases stop? with
    | none =>
      simp only
      rw [ih h, List.append_assoc]
    | some stop => cases h

theorem events_length_le (s : Setup σ) (rounds : Nat) (m : Machine σ) :
    (m.events s rounds).length ≤ rounds := by
  induction rounds generalizing m with
  | zero => exact Nat.le_refl 0
  | succ rounds ih =>
    have hfirst : (if (m.step s).1.steps = m.steps then []
        else (m.core.event? s.code).toList).length ≤ 1 := by
      cases m.core.event? s.code <;> split <;> simp
    rw [events, List.length_append]
    generalize m.step s = result at hfirst
    rcases result with ⟨m₁, _ | stop⟩
    · have hrest := ih m₁
      simp only at hfirst ⊢
      omega
    · simp only [List.length_nil] at hfirst ⊢
      omega

/-- **Each event** shows the machine just before its instruction, which is no `END`. -/
theorem events_getElem? (hdp : m.core.dp < tapeSize) {rounds n : Nat}
    (h : (m.events s rounds)[n]? = some e) :
    ∃ m', m.runFor s n = (m', none) ∧ m'.core.event? s.code = some e ∧
      e.code ≠ Opcode.finish.toByte := by
  induction rounds generalizing m n with
  | zero => cases h
  | succ rounds ih =>
    have htells := step_tells s hdp
    have hnext := step_dp s hdp
    rcases hs : m.step s with ⟨m₁, stop?⟩
    rw [hs] at htells hnext
    cases htells with
    | nothing hsteps _ =>
      rw [events_of_same hs hsteps] at h
      cases h
    | event he hcode hsteps _ =>
      cases stop? with
      | some stop =>
        rw [events_of_stop hs hsteps he, List.getElem?_singleton] at h
        split at h
        · rename_i hn
          cases h
          exact ⟨m, by rw [hn]; rfl, he, hcode⟩
        · cases h
      | none =>
        rw [events_of_go hs hsteps he] at h
        cases n with
        | zero =>
          cases h
          exact ⟨m, rfl, he, hcode⟩
        | succ n =>
          obtain ⟨m', hrun, hevent⟩ := ih hnext h
          exact ⟨m', by rw [runFor, hs]; exact hrun, hevent⟩

end Machine

/-! ## Whole runs -/

/-- The core with the output sent that was held back, as a run leaves it. -/
def Core.flushed (c : Core) : Core := { c with output := c.output.flush.1 }

namespace Machine

variable {σ : Type} {s : Setup σ} {m m' : Machine σ} {stop : Stop}

theorem close_fst (m : Machine σ) (stop : Stop) :
    (m.close stop).1 = { m with core := m.core.flushed } := by
  unfold close
  rcases hf : m.core.output.flush with ⟨output, fault⟩
  simp only [Core.flushed, hf]
  split <;> rfl

/-- How a run is closed depends on the core only. -/
theorem close_snd {τ : Type} {m₁ : Machine τ} (h : m.core = m₁.core) (stop : Stop) :
    (m.close stop).2 = (m₁.close stop).2 := by
  unfold close
  rw [h]
  rcases m₁.core.output.flush with ⟨output, fault⟩
  cases stop <;> cases fault <;> rfl

/-- A run that was ended before the program finished says why, whatever becomes of its output. -/
theorem run_of_stopped {rounds : Nat} (h : m.runFor s rounds = (m', some stop))
    (hne : stop ≠ .finished) :
    m.run s rounds = ({ m' with core := m'.core.flushed }, some stop) := by
  have hstop : (m'.close stop).2 = stop := by
    obtain ⟨-, -, hsame | ⟨hf, -⟩⟩ := m'.close_eq stop
    · exact hsame
    · exact absurd hf hne
  rw [run, h]
  simp only [close_fst, hstop]

theorem run_tells (s : Setup σ) (rounds : Nat) (hdp : m.core.dp < tapeSize) :
    (m.run s rounds).1.steps = m.steps + (m.events s rounds).length ∧
      (m.run s rounds).1.watch = s.told m.watch (m.events s rounds) := by
  have htells := runFor_tells s rounds hdp
  rw [run]
  rcases hm : m.runFor s rounds with ⟨m₁, _ | stop⟩
  · rw [hm] at htells
    exact htells
  · rw [hm] at htells
    simp only [close_fst]
    exact htells

end Machine

/-- How a call to run ends whose machine ends in this way. -/
def Ending.ofStop? : Option Stop → Ending
  | none => .unfinished
  | some why => .stopped why

namespace Options

variable {σ : Type}

/-- How a run of `c` that is given `rounds` rounds ends, and the machine that it leaves. -/
def outcome (o : Options σ) (c : Code) (rounds : Nat) : Ending × Machine σ :=
  (((Engine.new (some c) o).run rounds).1, ((Engine.new (some c) o).run rounds).2.machine)

/-- The events of a run of `c` in its first `rounds` rounds. -/
def events (o : Options σ) (c : Code) (rounds : Nat) : List Event :=
  o.machine.events (o.setup c) rounds

theorem outcome_eq (o : Options σ) (c : Code) (rounds : Nat) :
    o.outcome c rounds = (.ofStop? (o.machine.run (o.setup c) rounds).2,
      (o.machine.run (o.setup c) rounds).1) := by
  unfold outcome Engine.run
  simp only [Engine.new, Option.map_some]
  rcases o.machine.run (o.setup c) rounds with ⟨m, _ | stop⟩ <;> rfl

theorem outcome_of_run {o : Options σ} {c : Code} {rounds : Nat}
    {result : Machine σ × Option Stop} (h : o.machine.run (o.setup c) rounds = result) :
    o.outcome c rounds = (.ofStop? result.2, result.1) := by
  rw [outcome_eq, h]

theorem outcome_of_stopped {o : Options σ} {c : Code} {rounds : Nat} {m : Machine σ} {stop : Stop}
    (h : o.machine.runFor (o.setup c) rounds = (m, some stop)) :
    o.outcome c rounds = (.stopped (m.close stop).2, { m with core := m.core.flushed }) := by
  rw [outcome_eq, Machine.run, h, ← m.close_fst stop]
  rfl

theorem outcome_stopped {o : Options σ} {c : Code} {rounds : Nat} {m : Machine σ} {why : Stop}
    (h : o.outcome c rounds = (.stopped why, m)) :
    ∃ m₁ stop, o.machine.runFor (o.setup c) rounds = (m₁, some stop) ∧
      why = (m₁.close stop).2 ∧ m = { m₁ with core := m₁.core.flushed } := by
  rcases hrun : o.machine.runFor (o.setup c) rounds with ⟨m₁, _ | stop⟩
  · rw [outcome_eq, Machine.run, hrun] at h
    cases h
  · rw [outcome_of_stopped hrun] at h
    cases h
    exact ⟨m₁, stop, rfl, rfl, rfl⟩

theorem machine_dp (o : Options σ) : o.machine.core.dp < tapeSize := by
  simp [machine, tapeSize]

/-- A run that is ended before it begins instruction `n + 1`, other than by the end of the program,
is as it is after `n` instructions. -/
theorem outcome_of_halts {o : Options σ} {c : Code} {n rounds : Nat} {m m₁ : Machine σ}
    {stop : Stop} (hlt : n < rounds) (hrun : o.machine.runFor (o.setup c) n = (m, none))
    (hh : Machine.Halts (o.setup c) m m₁ stop) (hne : stop ≠ .finished) :
    ∃ m', o.outcome c rounds = (.stopped stop, m') ∧ m'.steps = n ∧ m'.core = m.core.flushed ∧
      m'.watch = m.watch ∧ o.events c rounds = o.events c n := by
  obtain ⟨hcore, hsteps, hwatch, -⟩ := hh.same
  have hcount : m.steps = 0 + n := (Machine.runFor_bare hrun).2
  refine ⟨{ m₁ with core := m₁.core.flushed }, ?_, ?_, congrArg Core.flushed hcore, hwatch, ?_⟩
  · rw [outcome_eq, Machine.run_of_stopped (Machine.runFor_of_step hlt hrun hh.step_eq) hne]
    rfl
  · show m₁.steps = n
    omega
  · obtain ⟨more, rfl⟩ : ∃ k, rounds = n + (k + 1) := ⟨rounds - n - 1, by omega⟩
    have hevents := Machine.events_add hrun (more + 1)
    rw [Machine.events_of_same hh.step_eq hsteps, List.append_nil] at hevents
    exact hevents

/-- **A run counts its events**, and they are all that its observer is told. -/
theorem outcome_tells (o : Options σ) (c : Code) (rounds : Nat) :
    (o.outcome c rounds).2.steps = (o.events c rounds).length ∧
      (o.outcome c rounds).2.watch = (o.setup c).told o.watch (o.events c rounds) := by
  obtain ⟨hsteps, hwatch⟩ := Machine.run_tells (o.setup c) rounds o.machine_dp
  have hzero : o.machine.steps = 0 := rfl
  rw [hzero, Nat.zero_add] at hsteps
  rw [outcome_eq]
  exact ⟨hsteps, hwatch⟩

end Options

end Tapelang
