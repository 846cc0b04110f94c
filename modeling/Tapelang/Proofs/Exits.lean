import Tapelang.Proofs.Output

/-!
# Where a run ends

A run of any code, valid or not, ends between two instructions: the pointers and the tape are those
of a machine with nothing around it, which has carried out as many instructions as the run has
completed.

* `Machine.step_bare`, `Machine.runFor_bare`: what surrounds the instructions (limit, observer,
  context) has no say in what they do.
* `Machine.step_exit`: the table of exits. A round that ends a run leaves everything as it was, and
  has counted its instruction or not (`Machine.Exit`).
* `Engine.run_between`: the two together, for whole runs.
-/

namespace Tapelang

/-! ## Rounds -/

namespace Machine

variable {σ : Type} {s : Setup σ} {m m' : Machine σ} {stop : Stop}

theorem checkContext_steps (m : Machine σ) (interval : Int) :
    (m.checkContext interval).1.steps = m.steps := by
  unfold checkContext
  repeat' split
  all_goals rfl

theorem observe_steps (m : Machine σ) (s : Setup σ) (i : Instruction) :
    (m.observe s i).1.steps = m.steps := by
  unfold observe
  cases s.observer with
  | none => rfl
  | some observer =>
    cases m.core.cell with
    | error f => rfl
    | ok cell =>
      simp only
      split <;> rfl

/-- A look at the context leaves the core and the count of instructions alone. -/
theorem checked_core {m₁ : Machine σ} {why? : Option Interruption}
    (hc : m.checkContext s.checkInterval = (m₁, why?)) :
    m₁.core = m.core ∧ m₁.steps = m.steps := by
  have hcore := (m.checkContext_core s.checkInterval).1
  have hsteps := m.checkContext_steps s.checkInterval
  rw [hc] at hcore hsteps
  exact ⟨hcore, hsteps⟩

/-- What comes before an instruction leaves the core alone and counts the instruction. -/
theorem observed_core {m₁ m₂ : Machine σ} {i : Instruction} {stop? : Option Stop}
    (hc : m.checkContext s.checkInterval = (m₁, none))
    (ho : observe { m₁ with steps := m₁.steps + 1 } s i = (m₂, stop?)) :
    m₂.core = m.core ∧ m₂.steps = m.steps + 1 := by
  obtain ⟨hcore, hsteps⟩ := checked_core hc
  have hcore' := observe_core { m₁ with steps := m₁.steps + 1 } s i
  have hsteps' := observe_steps { m₁ with steps := m₁.steps + 1 } s i
  rw [ho] at hcore' hsteps'
  exact ⟨hcore'.trans hcore, hsteps'.trans (congrArg (· + 1) hsteps)⟩

/-- No round moves the data pointer off the tape. -/
theorem step_dp (s : Setup σ) (hdp : m.core.dp < tapeSize) :
    (m.step s).1.core.dp < tapeSize := by
  have hround := m.round s
  generalize m.step s = result at hround
  cases hround with
  | outside => exact hdp
  | finished => exact hdp
  | interrupted _ _ hc =>
    rw [(checked_core hc).1]
    exact hdp
  | limited _ _ hc =>
    rw [(checked_core hc).1]
    exact hdp
  | observed _ _ hc _ ho =>
    rw [(observed_core hc ho).1]
    exact hdp
  | @dispatched _ i _ m₂ _ _ hc _ ho =>
    rw [← (observed_core hc ho).1] at hdp
    exact m₂.core.execute_dp i hdp

theorem runFor_dp {rounds : Nat} {stop? : Option Stop} (hdp : m.core.dp < tapeSize)
    (h : m.runFor s rounds = (m', stop?)) : m'.core.dp < tapeSize := by
  induction rounds generalizing m with
  | zero =>
    cases h
    exact hdp
  | succ rounds ih =>
    have hnext := step_dp s hdp
    rw [runFor] at h
    rcases hs : m.step s with ⟨m₁, _ | stop⟩
    · rw [hs] at h hnext
      exact ih hnext h
    · rw [hs] at h hnext
      cases h
      exact hnext

/-! ## Nothing around the instructions -/

/-- The same machine with nothing around it. -/
def bare (m : Machine σ) : Machine Unit := { core := m.core, steps := m.steps, watch := () }

end Machine

/-- The same code with no limit and no observer. -/
def Setup.bare {σ : Type} (s : Setup σ) : Setup Unit := { code := s.code }

namespace Machine

variable {σ : Type} {s : Setup σ} {m m' : Machine σ} {stop : Stop}

/-- **A round that goes on** carries out its instruction, as it would with nothing around it, and
counts it. -/
theorem step_bare (h : m.step s = (m', none)) :
    m.bare.step s.bare = (m'.bare, none) ∧ m'.steps = m.steps + 1 := by
  have hround := m.round s
  rw [h] at hround
  generalize hres : (m', (none : Option Stop)) = result at hround
  cases hround with
  | outside | finished | interrupted | limited | observed => cases hres
  | @dispatched k i m₁ m₂ hr hf hc hl ho =>
    obtain ⟨hcore, hsteps⟩ := observed_core hc ho
    have hcheck : m.bare.checkContext s.bare.checkInterval = (m.bare, none) :=
      if_neg fun hb => absurd hb.2 (by simp [bare, Context.isBounded])
    have hbare : m.bare.step s.bare =
        dispatch { m.bare with steps := m.bare.steps + 1 } i := by
      refine Round.step_eq (.dispatched hr hf hcheck ?_ rfl)
      rintro ⟨hpos, -⟩
      exact absurd hpos (by simp [Setup.bare])
    unfold dispatch at hres hbare
    rw [hcore] at hres
    rw [hbare, show m.bare.core = m.core from rfl]
    rcases hex : m.core.execute i with ⟨c', stop?⟩
    rw [hex] at hres
    cases hres
    simp [bare, hsteps]

/-- A run that goes on does what it does with nothing around its instructions, one a round. -/
theorem runFor_bare {rounds : Nat} (h : m.runFor s rounds = (m', none)) :
    m.bare.runFor s.bare rounds = (m'.bare, none) ∧ m'.steps = m.steps + rounds := by
  induction rounds generalizing m with
  | zero =>
    cases h
    exact ⟨rfl, rfl⟩
  | succ rounds ih =>
    rw [runFor] at h
    rcases hs : m.step s with ⟨m₁, _ | stop⟩
    · rw [hs] at h
      obtain ⟨hbare, hsteps⟩ := step_bare hs
      obtain ⟨hrest, hsteps'⟩ := ih h
      rw [runFor, hbare]
      exact ⟨hrest, by omega⟩
    · rw [hs] at h
      cases h

/-- A run that has ended was ended by a round. -/
theorem runFor_stopped {rounds : Nat} (h : m.runFor s rounds = (m', some stop)) :
    ∃ before m₁, before < rounds ∧ m.runFor s before = (m₁, none) ∧
      m₁.step s = (m', some stop) := by
  induction rounds generalizing m with
  | zero => cases h
  | succ rounds ih =>
    rw [runFor] at h
    rcases hs : m.step s with ⟨m₁, _ | stop₁⟩
    · rw [hs] at h
      obtain ⟨before, m₂, hlt, hbefore, hlast⟩ := ih h
      refine ⟨before + 1, m₂, by omega, ?_, hlast⟩
      rw [runFor, hs]
      exact hbefore
    · rw [hs] at h
      cases h
      exact ⟨0, m, Nat.succ_pos _, rfl, hs⟩

/-! ## The exits -/

/-- The ways to leave a run, by the reason and by the number of instructions that were begun and not
completed: `core` is what the run leaves. -/
inductive Exit (s : Setup σ) (core : Core) : Stop → Nat → Prop
  | finished {i : Instruction} : s.code.instructionAt core.ip = .ok i →
      i.opcode? = some .finish → Exit s core .finished 0
  /-- The program finished and its last output could not be written. -/
  | finalFlush {i : Instruction} {why : WriteFault} : s.code.instructionAt core.ip = .ok i →
      i.opcode? = some .finish → Exit s core (.output why) 0
  | instructionPointer : core.ip < 0 ∨ s.code.size ≤ core.ip →
      Exit s core (.instructionPointer core.ip) 0
  | stepLimit : 0 < s.stepLimit → Exit s core (.stepLimit s.stepLimit) 0
  | interrupted {why : Interruption} : 0 < s.checkInterval → Exit s core (.interrupted why) 0
  | halted {observer : Observer σ} : s.observer = some observer → Exit s core .halted 1
  | brokenDown {observer : Observer σ} {watch : σ} {event : Event} {value : Bytes} :
      s.observer = some observer →
      (observer.notify watch event).2.verdict = .breakDown value →
      Exit s core (.brokenDown value) 1
  | refused {i : Instruction} {stop : Stop} : s.code.instructionAt core.ip = .ok i →
      Core.Refusal i stop → Exit s core stop 1

variable {core core' : Core} {begun : Nat}

theorem Exit.of_ip (h : Exit s core stop begun) (hip : core.ip = core'.ip) :
    Exit s core' stop begun := by
  cases h with
  | finished hi ho => exact .finished (hip ▸ hi) ho
  | finalFlush hi ho => exact .finalFlush (hip ▸ hi) ho
  | instructionPointer hout =>
    rw [hip] at hout ⊢
    exact .instructionPointer hout
  | stepLimit hpos => exact .stepLimit hpos
  | interrupted hpos => exact .interrupted hpos
  | halted hobs => exact .halted hobs
  | brokenDown hobs hv => exact .brokenDown hobs hv
  | refused hi hr => exact .refused (hip ▸ hi) hr

theorem interrupted_interval {m₁ : Machine σ} {interval : Int} {why : Interruption}
    (hc : m.checkContext interval = (m₁, some why)) : 0 < interval := by
  unfold checkContext at hc
  split at hc
  · rename_i hb
    exact hb.1
  · cases hc

/-- An observer that is shown a cell of the tape ends a run by halting it or by breaking down. -/
theorem observed_exit (core : Core) {m₁ m₂ : Machine σ} {i : Instruction}
    (hdp : m.core.dp < tapeSize)
    (hc : m.checkContext s.checkInterval = (m₁, none))
    (ho : observe { m₁ with steps := m₁.steps + 1 } s i = (m₂, some stop)) :
    Exit s core stop 1 ∧ (stop = .halted ∨ ∃ value, stop = .brokenDown value) := by
  rw [← (checked_core hc).1] at hdp
  unfold observe at ho
  rw [Core.cell_ok hdp] at ho
  cases hobs : s.observer with
  | none =>
    rw [hobs] at ho
    cases ho
  | some observer =>
    rw [hobs] at ho
    simp only at ho
    split at ho
    · cases ho
    · cases ho
      exact ⟨.halted hobs, .inl rfl⟩
    · rename_i value hv
      cases ho
      exact ⟨.brokenDown hobs hv, .inr ⟨value, rfl⟩⟩

/-- **A round that ends a run** leaves the pointers and the tape as they were. -/
theorem step_exit (hdp : m.core.dp < tapeSize) (h : m.step s = (m', some stop)) :
    m'.core.Agrees m.core ∧
      ∃ begun, Exit s m.core stop begun ∧ m'.steps = m.steps + begun := by
  have hround := m.round s
  rw [h] at hround
  generalize hres : (m', some stop) = result at hround
  cases hround with
  | outside hout =>
    cases hres
    exact ⟨.refl _, 0, .instructionPointer hout, rfl⟩
  | finished hr hf =>
    cases hres
    exact ⟨.refl _, 0, .finished hr.instructionAt (Instruction.opcode?_of_code hf), rfl⟩
  | interrupted hr hf hc =>
    cases hres
    obtain ⟨hcore, hsteps⟩ := checked_core hc
    exact ⟨.of_eq hcore, 0, .interrupted (interrupted_interval hc), hsteps⟩
  | limited hr hf hc hpos hle =>
    cases hres
    obtain ⟨hcore, hsteps⟩ := checked_core hc
    exact ⟨.of_eq hcore, 0, .stepLimit hpos, hsteps⟩
  | observed hr hf hc hl ho =>
    cases hres
    obtain ⟨hcore, hsteps⟩ := observed_core hc ho
    exact ⟨.of_eq hcore, 1, (observed_exit _ hdp hc ho).1, hsteps⟩
  | @dispatched k i m₁ m₂ hr hf hc hl ho =>
    obtain ⟨hcore, hsteps⟩ := observed_core hc ho
    unfold dispatch at hres
    rw [hcore] at hres
    rcases hex : m.core.execute i with ⟨c', stop?⟩
    rw [hex] at hres
    cases hres
    obtain ⟨hsame, hrefusal⟩ := Core.execute_refused hdp hf hex
    exact ⟨hsame, 1, .refused hr.instructionAt hrefusal, hsteps⟩

/-- Sending what is held back at the end of a run is one more way to fail. -/
theorem Exit.close {stop' : Stop} (h : Exit s m.core stop begun)
    (hclose : m.close stop = (m', stop')) :
    m'.core.Agrees m.core ∧ m'.steps = m.steps ∧ Exit s m.core stop' begun := by
  unfold Machine.close at hclose
  rcases m.core.output.flush with ⟨output, fault⟩
  simp only at hclose
  split at hclose
  · cases hclose
    refine ⟨⟨rfl, rfl, rfl⟩, rfl, ?_⟩
    cases h with
    | finished hi ho => exact .finalFlush hi ho
    | refused _ hr => cases hr
  · cases hclose
    exact ⟨⟨rfl, rfl, rfl⟩, rfl, h⟩

/-- A run that has ended was ended by a round and closed. -/
theorem run_stopped {rounds : Nat} (h : m.run s rounds = (m', some stop)) :
    ∃ before m₁ m₂ stop₂, before < rounds ∧ m.runFor s before = (m₁, none) ∧
      m₁.step s = (m₂, some stop₂) ∧ m₂.close stop₂ = (m', stop) := by
  rw [run] at h
  rcases hrun : m.runFor s rounds with ⟨m₂, _ | stop₂⟩
  · rw [hrun] at h
    cases h
  · rw [hrun] at h
    rcases hclose : m₂.close stop₂ with ⟨m₃, stop₃⟩
    simp only [hclose] at h
    cases h
    obtain ⟨before, m₁, hlt, hbefore, hlast⟩ := runFor_stopped hrun
    exact ⟨before, m₁, m₂, stop₂, hlt, hbefore, hlast, hclose⟩

/-- **A run that ends** leaves the pointers and the tape of a machine with nothing around it and a
sink that takes everything, after the instructions that the run completed. -/
theorem run_exit {capacity : Option Nat} {bytes : Bytes} {rounds : Nat}
    (hk : m.core.output.Kept capacity bytes) (hdp : m.core.dp < tapeSize)
    (h : m.run s rounds = (m', some stop)) :
    ∃ k begun m₁, Exit s m'.core stop begun ∧ m'.steps = m.steps + k + begun ∧
      m.unlimited.bare.runFor s.bare k = (m₁, none) ∧ m₁.steps = m.steps + k ∧
      m'.core.Agrees m₁.core := by
  obtain ⟨k, m₁, m₂, stop₂, -, hbefore, hlast, hclose⟩ := run_stopped h
  obtain ⟨hsame, begun, hexit, hsteps⟩ := step_exit (runFor_dp hdp hbefore) hlast
  obtain ⟨hsame', hsteps', hexit'⟩ := (hexit.of_ip hsame.ip.symm).close hclose
  -- up to the last round the sink has not refused anything
  have hfree := runFor_delivers s k hk
  rw [hbefore] at hfree
  cases hfree with
  | kept hfree _ _ =>
    obtain ⟨hbare, hcount⟩ := runFor_bare hfree
    have hcount : m₁.steps = m.steps + k := hcount
    refine ⟨k, begun, m₁.unlimited.bare, hexit'.of_ip hsame'.ip.symm, ?_, hbare, hcount, ?_⟩
    · rw [hsteps', hsteps, hcount]
    · have hview : m₁.core.Agrees m₁.unlimited.bare.core := ⟨rfl, rfl, rfl⟩
      exact (hsame'.trans hsame).trans hview

end Machine

/-! ## Engines -/

/-- The same code and input with no limit, no observer, no context and a sink that takes
everything. -/
def Options.free {σ : Type} (o : Options σ) : Options Unit :=
  { input := o.input, sink := { o.sink with capacity := none }, watch := () }

/-- **Every exit leaves the machine between two instructions**, whatever the code, the input, the
sink, the limit, the context and the observer are: the pointers and the tape are those of the free
machine after `k` instructions, where `k` is the number of instructions counted, less the one that
was begun and not completed if the run ended inside an instruction. A further call changes
nothing. -/
theorem Engine.run_between {σ : Type} {c : Code} {o : Options σ} {rounds : Nat} {why : Stop}
    {e : Engine σ} (h : (Engine.new (some c) o).run rounds = (.stopped why, e)) :
    (∃ k begun m, Machine.Exit (o.setup c) e.machine.core why begun ∧ e.machine.steps = k + begun ∧
      o.free.machine.runFor (o.free.setup c) k = (m, none) ∧ m.steps = k ∧
      e.machine.core.Agrees m.core) ∧
    ∀ more, e.run more = (.alreadyRun, e) := by
  simp only [Engine.run, Engine.new, Option.map_some] at h
  rcases hrun : o.machine.run (o.setup c) rounds with ⟨m', _ | stop⟩
  · rw [hrun] at h
    cases h
  rw [hrun] at h
  cases h
  refine ⟨?_, fun more => rfl⟩
  have hdp : o.machine.core.dp < tapeSize := by simp [Options.machine, tapeSize]
  obtain ⟨k, begun, m, hexit, hsteps, hfree, hcount, hsame⟩ :=
    Machine.run_exit o.machine_kept hdp hrun
  have hzero : o.machine.steps = 0 := rfl
  rw [hzero, Nat.zero_add] at hsteps hcount
  exact ⟨k, begun, m, hexit, hsteps, hfree, hcount, hsame⟩

/-- Three cells to the right and five to the left: the second move is counted and not made. -/
theorem Engine.run_between_edge : ∃ (c : Code) (e : Engine Unit) (m : Machine Unit),
    (Engine.new (some c) { watch := () }).run 3 = (.stopped .dataPointer, e) ∧
      e.machine.steps = 2 ∧
      (Options.free ({ watch := () } : Options Unit)).machine.runFor
        ((Options.free ({ watch := () } : Options Unit)).setup c) 1 = (m, none) ∧
      e.machine.core.Agrees m.core := by
  obtain ⟨e, hr, hsteps⟩ : ∃ e, (Engine.new (some
      { instructions := #[.addPointer 3, .subPointer 5, .finish] })
      ({ watch := () } : Options Unit)).run 3 = (.stopped .dataPointer, e) ∧
        e.machine.steps = 2 := ⟨_, rfl, rfl⟩
  obtain ⟨⟨k, begun, m, hexit, hcount, hfree, -, hsame⟩, -⟩ := Engine.run_between hr
  have hone : begun = 1 := by
    cases hexit with
    | refused => rfl
  obtain rfl : k = 1 := by omega
  exact ⟨_, e, m, hr, hsteps, hfree, hsame⟩

end Tapelang
