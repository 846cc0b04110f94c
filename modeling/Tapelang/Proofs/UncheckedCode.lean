import Tapelang.Proofs.Exits
import Tapelang.Proofs.SafeRuns
import Tapelang.Proofs.CodeRoundTrip

/-!
# Runs of unchecked code

Code that nobody has checked may end anywhere, jump anywhere and hold instructions that stand for no
operation. It still cannot break the machine: no access fails in any round, because the range of the
instruction pointer is checked in every round, the data pointer never leaves the tape
(`Machine.runFor_dp`), and every instruction is asked for the operand that its operation has.

* `Machine.step_astray_iff`: a round ends with E3004 if and only if the instruction pointer is outside
  the code or an instruction without an operation is to be carried out (`Machine.IsAstray`).
* `Machine.run_astray_iff`: the same for a run.
* `Engine.run_unchecked`: both together, with no E3007 unless the observer breaks down.
-/

namespace Tapelang

/-- The zero instruction is the only one that can be built and stands for no operation. -/
theorem Instruction.IsBuilt.eq_zero {i : Instruction} (h : i.IsBuilt) (ho : i.opcode? = .none) :
    i = {} := by
  cases h with
  | none => rfl
  | _ => cases ho

namespace Machine

variable {σ : Type} {s : Setup σ} {m m' : Machine σ} {stop : Stop}

/-! ## Rounds -/

/-- The round comes as far as carrying out `i`: neither the context nor the limit nor the observer
has ended it. -/
def Dispatches (s : Setup σ) (m : Machine σ) (i : Instruction) : Prop :=
  ∃ k m₁ m₂, Reaches s.code m.core k i ∧ i.code ≠ Opcode.finish.toByte ∧
    m.checkContext s.checkInterval = (m₁, none) ∧
    ¬ (0 < s.stepLimit ∧ s.stepLimit ≤ m₁.steps) ∧
    observe { m₁ with steps := m₁.steps + 1 } s i = (m₂, none)

/-- There is nothing that the machine could carry out. -/
def IsAstray (s : Setup σ) (m : Machine σ) : Prop :=
  (m.core.ip < 0 ∨ s.code.size ≤ m.core.ip) ∨ ∃ i, m.Dispatches s i ∧ i.opcode? = none

theorem IsAstray.step_eq (h : m.IsAstray s) :
    ∃ m' stop, m.step s = (m', some stop) ∧ (Ending.stopped stop).code? = some (utf8 "E3004") := by
  rcases h with hout | ⟨i, ⟨k, m₁, m₂, hr, hf, hc, hl, ho⟩, hnone⟩
  · exact ⟨m, _, Round.step_eq (.outside hout), rfl⟩
  · have hstep := Round.step_eq (.dispatched hr hf hc hl ho)
    rw [dispatch, Core.execute, hnone] at hstep
    exact ⟨_, _, hstep, rfl⟩

/-- **A round ends with E3004** if and only if there is nothing that the machine could carry out. -/
theorem step_astray_iff (hdp : m.core.dp < tapeSize) (h : m.step s = (m', some stop)) :
    (Ending.stopped stop).code? = some (utf8 "E3004") ↔ m.IsAstray s := by
  constructor
  · intro hcode
    have hround := m.round s
    rw [h] at hround
    generalize hres : (m', some stop) = result at hround
    cases hround with
    | outside hout => exact .inl hout
    | finished | interrupted | limited =>
      cases hres
      rcases Ending.stop_of_E3004 hcode with ⟨ip, hs⟩ | ⟨code, hs⟩ <;> cases hs
    | observed hr hf hc hl ho =>
      cases hres
      rcases (observed_exit m.core hdp hc ho).2 with rfl | ⟨value, rfl⟩ <;>
        rcases Ending.stop_of_E3004 hcode with ⟨ip, hs⟩ | ⟨code, hs⟩ <;> cases hs
    | @dispatched k i m₁ m₂ hr hf hc hl ho =>
      unfold dispatch at hres
      rw [(observed_core hc ho).1] at hres
      rcases hex : m.core.execute i with ⟨c', stop?⟩
      rw [hex] at hres
      cases hres
      obtain ⟨-, hrefusal⟩ := Core.execute_refused hdp hf hex
      refine .inr ⟨i, ⟨k, m₁, m₂, hr, hf, hc, hl, ho⟩, ?_⟩
      rcases Ending.stop_of_E3004 hcode with ⟨ip, rfl⟩ | ⟨code, rfl⟩
      · cases hrefusal
      · cases hrefusal with
        | unknownOpcode hnone => exact hnone
  · intro hastray
    obtain ⟨m₁, stop₁, hstep, hcode⟩ := hastray.step_eq
    rw [h] at hstep
    cases hstep
    exact hcode

/-! ## Runs -/

/-- A run ends with the first round that ends it. -/
theorem runFor_of_step {before rounds : Nat} {m₁ : Machine σ} (hlt : before < rounds)
    (hbefore : m.runFor s before = (m₁, none)) (h : m₁.step s = (m', some stop)) :
    m.runFor s rounds = (m', some stop) := by
  induction before generalizing m rounds with
  | zero =>
    cases hbefore
    obtain ⟨rounds, rfl⟩ : ∃ n, rounds = n + 1 := ⟨rounds - 1, by omega⟩
    rw [runFor, h]
  | succ before ih =>
    obtain ⟨rounds, rfl⟩ : ∃ n, rounds = n + 1 := ⟨rounds - 1, by omega⟩
    rw [runFor] at hbefore
    rcases hs : m.step s with ⟨m₂, _ | stop₂⟩
    · rw [hs] at hbefore
      rw [runFor, hs]
      exact ih (by omega) hbefore
    · rw [hs] at hbefore
      cases hbefore

theorem runFor_longer {rounds more : Nat} (h : m.runFor s rounds = (m', some stop))
    (hle : rounds ≤ more) : m.runFor s more = (m', some stop) := by
  obtain ⟨before, m₁, hlt, hbefore, hlast⟩ := runFor_stopped h
  exact runFor_of_step (by omega) hbefore hlast

/-- **A run ends with E3004** if and only if it comes to a point where there is nothing that the
machine could carry out. -/
theorem run_astray_iff (s : Setup σ) (rounds : Nat) (hdp : m.core.dp < tapeSize) :
    (∃ m' stop, m.run s rounds = (m', some stop) ∧
        (Ending.stopped stop).code? = some (utf8 "E3004")) ↔
      ∃ before m₁, before < rounds ∧ m.runFor s before = (m₁, none) ∧ m₁.IsAstray s := by
  constructor
  · rintro ⟨m', stop, hrun, hcode⟩
    obtain ⟨before, m₁, m₂, stop₂, hlt, hbefore, hlast, hclose⟩ := run_stopped hrun
    have hdp₁ := runFor_dp hdp hbefore
    obtain ⟨-, -, hsame | ⟨-, why, hflush⟩⟩ := m₂.close_eq stop₂
    · rw [hclose] at hsame
      cases hsame
      exact ⟨before, m₁, hlt, hbefore, (step_astray_iff hdp₁ hlast).1 hcode⟩
    · rw [hclose] at hflush
      cases hflush
      rcases Ending.stop_of_E3004 hcode with ⟨ip, hs⟩ | ⟨code, hs⟩ <;> cases hs
  · rintro ⟨before, m₁, hlt, hbefore, hastray⟩
    obtain ⟨m₂, stop, hlast, hcode⟩ := hastray.step_eq
    refine ⟨(m₂.close stop).1, stop, ?_, hcode⟩
    rw [run, runFor_of_step hlt hbefore hlast]
    obtain ⟨-, -, hsame | ⟨rfl, -⟩⟩ := m₂.close_eq stop
    · simp only [hsame]
    · cases hcode

theorem run_dp (s : Setup σ) (rounds : Nat) (hdp : m.core.dp < tapeSize) :
    (m.run s rounds).1.core.dp < tapeSize := by
  rw [run]
  rcases hm : m.runFor s rounds with ⟨m₁, _ | stop⟩
  · exact runFor_dp hdp hm
  · obtain ⟨-, hsame, -⟩ := m₁.close_eq stop
    simp only [hsame]
    exact runFor_dp hdp hm

/-- No access fails in any round of a run. -/
theorem runFor_faultless {rounds : Nat} (hdp : m.core.dp < tapeSize) (what : Bytes) :
    (m.runFor s rounds).2 ≠ some (.faulted what) := by
  intro hfault
  rcases hrun : m.runFor s rounds with ⟨m', stop?⟩
  rw [hrun] at hfault
  cases hfault
  obtain ⟨before, m₁, -, hbefore, hlast⟩ := runFor_stopped hrun
  obtain ⟨-, begun, hexit, -⟩ := step_exit (runFor_dp hdp hbefore) hlast
  cases hexit with
  | refused _ hrefusal => cases hrefusal

end Machine

/-! ## Engines -/

/-- An observer that never breaks down. -/
def Observer.IsSteady {σ : Type} (observer : Observer σ) : Prop :=
  ∀ watch event value, (observer.notify watch event).2.verdict ≠ .breakDown value

/-- A run ends with E3007 only because the observer broke down. -/
theorem Machine.Exit.code_ne_E3007 {σ : Type} {s : Setup σ} {core : Core} {stop : Stop}
    {begun : Nat} (h : Exit s core stop begun)
    (hs : ∀ observer, s.observer = some observer → observer.IsSteady) :
    (Ending.stopped stop).code? ≠ some (utf8 "E3007") := by
  intro hcode
  rcases Ending.stop_of_E3007 hcode with ⟨value, rfl⟩ | ⟨what, rfl⟩
  · cases h with
    | brokenDown hobs hv => exact hs _ hobs _ _ _ hv
    | refused _ hrefusal => cases hrefusal
  · cases h with
    | refused _ hrefusal => cases hrefusal

/-- **Unchecked code cannot break the machine**, whatever the input, the sink, the limit and the
context are and whatever an observer does short of breaking down. At every point of a run the data
pointer is on the tape and no access has failed; no run ends with E3007; and a run ends with E3004 if
and only if it comes to a point where the instruction pointer is outside the code, or where a zero
instruction is to be carried out. -/
theorem Engine.run_unchecked {σ : Type} {c : Code} (hc : ∀ i ∈ c.instructions, i.IsBuilt)
    {o : Options σ} (hs : ∀ observer, o.observer = some observer → observer.IsSteady)
    {rounds : Nat} {ending : Ending} {e : Engine σ}
    (hr : (Engine.new (some c) o).run rounds = (ending, e)) :
    (∀ n, (o.machine.runFor (o.setup c) n).1.core.dp < tapeSize ∧
      ∀ what, (o.machine.runFor (o.setup c) n).2 ≠ some (.faulted what)) ∧
    e.machine.core.dp < tapeSize ∧ ending.code? ≠ some (utf8 "E3007") ∧
    (ending.code? = some (utf8 "E3004") ↔
      ∃ before m, before < rounds ∧ o.machine.runFor (o.setup c) before = (m, none) ∧
        ((m.core.ip < 0 ∨ c.size ≤ m.core.ip) ∨ m.Dispatches (o.setup c) {})) := by
  have hdp : o.machine.core.dp < tapeSize := by simp [Options.machine, tapeSize]
  have hastray : ∀ m : Machine σ, m.IsAstray (o.setup c) ↔
      (m.core.ip < 0 ∨ c.size ≤ m.core.ip) ∨ m.Dispatches (o.setup c) {} := by
    intro m
    refine or_congr Iff.rfl ⟨?_, fun hd => ⟨_, hd, rfl⟩⟩
    rintro ⟨i, hd, hnone⟩
    obtain ⟨k, -, -, hreaches, -⟩ := id hd
    rwa [← (hc i (Array.mem_of_getElem? hreaches.2)).eq_zero hnone]
  have hiff := Machine.run_astray_iff (o.setup c) rounds hdp
  simp only [hastray] at hiff
  rw [← hiff]
  refine ⟨fun n => ⟨Machine.runFor_dp hdp rfl, Machine.runFor_faultless hdp⟩, ?_⟩
  have hdp' := Machine.run_dp (o.setup c) rounds hdp
  simp only [Engine.run, Engine.new, Option.map_some] at hr
  rcases hrun : o.machine.run (o.setup c) rounds with ⟨m, _ | stop⟩
  · rw [hrun] at hr hdp'
    cases hr
    refine ⟨hdp', ?_, ?_, ?_⟩
    · intro hcode
      cases hcode
    · intro hcode
      cases hcode
    · rintro ⟨m', stop', heq, -⟩
      cases heq
  · rw [hrun] at hr hdp'
    cases hr
    obtain ⟨k, begun, m₁, hexit, -⟩ := Machine.run_exit o.machine_kept hdp hrun
    refine ⟨hdp', hexit.code_ne_E3007 hs, fun hcode => ⟨m, stop, rfl, hcode⟩, ?_⟩
    rintro ⟨m', stop', heq, hcode⟩
    cases heq
    exact hcode

/-- A jump to a place before the code: the next round finds nothing to carry out. -/
theorem Engine.run_unchecked_jump : ∃ (c : Code) (o : Options Unit) (e : Engine Unit),
    (∀ i ∈ c.instructions, i.IsBuilt) ∧
      (Engine.new (some c) o).run 2 = (.stopped (.instructionPointer (-5)), e) ∧
      e.machine.core.dp < tapeSize ∧
      ∃ before m, before < 2 ∧ o.machine.runFor (o.setup c) before = (m, none) ∧
        ((m.core.ip < 0 ∨ c.size ≤ m.core.ip) ∨ m.Dispatches (o.setup c) {}) := by
  have hc : ∀ i ∈ #[Instruction.jump (-5)], i.IsBuilt := by
    intro i hi
    obtain rfl : i = .jump (-5) := by simpa using hi
    exact .jump (by unfold IsInt64; decide)
  have hs : ∀ observer, ({ watch := () } : Options Unit).observer = some observer →
      observer.IsSteady := nofun
  obtain ⟨e, hr⟩ : ∃ e, (Engine.new (some { instructions := #[.jump (-5)] })
      ({ watch := () } : Options Unit)).run 2 = (.stopped (.instructionPointer (-5)), e) :=
    ⟨_, rfl⟩
  obtain ⟨-, hdp, -, hiff⟩ := Engine.run_unchecked hc hs hr
  exact ⟨_, _, e, hc, hr, hdp, hiff.1 rfl⟩

end Tapelang
