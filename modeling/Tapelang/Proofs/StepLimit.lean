import Tapelang.Proofs.Events

/-!
# Step limits

A run under a step limit is compared with the run of the same machine without one
(`Setup.limited`, where a limit of 0 is none). A round that ends the run before it begins an
instruction does so under every limit (`Machine.Halts.under`); one that begins an instruction does
the same below the limit (`Machine.Begins.under`) and is refused at the limit
(`Machine.Begins.refused`). So the limited run is the unlimited one up to `limit` instructions
(`Machine.runFor_limited`), and ends if that one goes on (`Machine.runFor_refused`).
`Options.outcome_limited` puts this together for whole runs.
-/

namespace Tapelang

variable {σ : Type}

/-- The same run under another step limit. -/
def Setup.limited (s : Setup σ) (limit : Int) : Setup σ := { s with stepLimit := limit }

/-- The same options with another step limit. -/
def Options.limited (o : Options σ) (limit : Int) : Options σ := { o with stepLimit := limit }

namespace Machine

variable {s : Setup σ} {m m₁ : Machine σ} {i : Instruction} {stop : Stop} {limit : Int}

/-! ## Rounds -/

theorem Halts.under (h : Halts (s.limited 0) m m₁ stop) (limit : Int) :
    Halts (s.limited limit) m m₁ stop := by
  cases h with
  | outside hout => exact .outside hout
  | finished hr hf => exact .finished hr hf
  | interrupted hr hf hc => exact .interrupted hr hf hc
  | limited _ _ _ hpos _ => exact absurd hpos (Int.lt_irrefl 0)

theorem Begins.under (h : Begins (s.limited 0) m i m₁) (hlt : limit ≤ 0 ∨ m.steps < limit) :
    Begins (s.limited limit) m i m₁ := by
  cases h with
  | @intro k m₂ hr hf hc _ =>
    have hsteps := (checked_core hc).2
    refine Begins.intro (s := s.limited limit) hr hf hc ?_
    show ¬ (0 < limit ∧ limit ≤ m₂.steps)
    omega

theorem Begins.refused (h : Begins (s.limited 0) m i m₁) {limit : Nat} (hpos : 0 < limit)
    (hle : limit ≤ m.steps) : ∃ m₂, Halts (s.limited limit) m m₂ (.stepLimit limit) := by
  cases h with
  | @intro k m₂ hr hf hc _ =>
    have hsteps := (checked_core hc).2
    refine ⟨m₂, Halts.limited (s := s.limited limit) hr hf hc (Int.natCast_pos.2 hpos) ?_⟩
    show (limit : Int) ≤ m₂.steps
    omega

/-! ## Runs -/

theorem Begins.steps_lt (h : Begins s m i m₁) (hdp : m.core.dp < tapeSize) (rounds : Nat) :
    m.steps < (m.runFor s (rounds + 1)).1.steps := by
  obtain ⟨e, rest, -, hevents, -⟩ := h.events_eq hdp rounds
  rw [(runFor_tells s (rounds + 1) hdp).1, hevents, List.length_cons]
  omega

/-- **Up to the limit** the limited run is the unlimited one. -/
theorem runFor_limited (limit : Int) (rounds : Nat) (hdp : m.core.dp < tapeSize)
    (h : limit ≤ 0 ∨ (m.runFor (s.limited 0) rounds).1.steps ≤ limit) :
    m.runFor (s.limited limit) rounds = m.runFor (s.limited 0) rounds ∧
      m.events (s.limited limit) rounds = m.events (s.limited 0) rounds := by
  induction rounds generalizing m with
  | zero => exact ⟨rfl, rfl⟩
  | succ rounds ih =>
    have hstep : m.step (s.limited limit) = m.step (s.limited 0) := by
      rcases halts_or_begins (s.limited 0) m with ⟨m₁, stop, hh⟩ | ⟨i, m₁, hb⟩
      · rw [hh.step_eq, (hh.under limit).step_eq]
      · have hlt := hb.steps_lt hdp rounds
        have hunder : Begins (s.limited limit) m i m₁ := hb.under (h.imp_right fun hle => by omega)
        rw [hunder.step_eq, hb.step_eq]
        rfl
    have hnext := step_dp (s.limited 0) hdp
    rw [runFor] at h
    rw [runFor, runFor, events, events, hstep]
    rcases hs : m.step (s.limited 0) with ⟨m₁, _ | stop⟩
    · rw [hs] at h hnext
      obtain ⟨hrun, hevents⟩ := ih (m := m₁) hnext h
      simp only
      rw [hrun, hevents]
      exact ⟨rfl, rfl⟩
    · exact ⟨rfl, rfl⟩

/-- **Beyond the limit** the limited run has ended, as the unlimited one within the limit or because
the unlimited one would begin another instruction. -/
theorem runFor_beyond {limit rounds : Nat} (hpos : 0 < limit) (hzero : m.steps = 0)
    (hdp : m.core.dp < tapeSize) (hlt : limit < rounds) :
    (∃ m₁ stop, m.runFor (s.limited 0) rounds = (m₁, some stop) ∧ m₁.steps ≤ limit ∧
      m.runFor (s.limited limit) rounds = (m₁, some stop)) ∨
    ∃ m₁ m₂, m.runFor (s.limited 0) limit = (m₁, none) ∧
      m.runFor (s.limited limit) limit = (m₁, none) ∧
      Halts (s.limited limit) m₁ m₂ (.stepLimit limit) := by
  have hcount : (m.runFor (s.limited 0) limit).1.steps ≤ limit := by
    have hlength := events_length_le (s.limited 0) limit m
    rw [(runFor_tells _ _ hdp).1, hzero]
    omega
  obtain ⟨hsame, -⟩ := runFor_limited (s := s) limit limit hdp (.inr (by omega))
  rcases hrun : m.runFor (s.limited 0) limit with ⟨m₁, _ | stop⟩
  · have hsteps := (runFor_bare hrun).2
    rw [hrun] at hsame
    rcases halts_or_begins (s.limited 0) m₁ with ⟨m₂, stop, hh⟩ | ⟨i, m₂, hb⟩
    · have hkept := hh.same.2.1
      exact .inl ⟨m₂, stop, runFor_of_step hlt hrun hh.step_eq, by omega,
        runFor_of_step hlt hsame (hh.under limit).step_eq⟩
    · obtain ⟨m₃, hrefused⟩ := hb.refused hpos (by omega)
      exact .inr ⟨m₁, m₃, rfl, hsame, hrefused⟩
  · rw [hrun] at hsame hcount
    have hle := Nat.le_of_lt hlt
    exact .inl ⟨m₁, stop, runFor_longer hrun hle, hcount, runFor_longer hsame hle⟩

/-- What the sink holds once a machine has sent what it held back. -/
theorem taken_flushed {capacity : Option Nat} {bytes : Bytes}
    (h : m.core.output.Kept capacity bytes) :
    m.core.flushed.taken <+: bytes ∧ (capacity = none → m.core.flushed.taken = bytes) := by
  obtain ⟨hpart, hall⟩ := close_kept h .halted
  rw [close_fst] at hpart hall
  exact ⟨hpart, fun hc => hall (.inr hc)⟩

end Machine

/-! ## Whole runs -/

namespace Options

variable {o : Options σ} {c : Code}

/-- Within the limit, and without one, the outcome and the events are those of the unlimited run. -/
theorem outcome_within (limit : Int) (rounds : Nat)
    (h : limit ≤ 0 ∨ ((o.limited 0).outcome c rounds).2.steps ≤ limit) :
    (o.limited limit).outcome c rounds = (o.limited 0).outcome c rounds ∧
      (o.limited limit).events c rounds = (o.limited 0).events c rounds := by
  have hsteps : ((o.limited 0).outcome c rounds).2.steps =
      (o.machine.runFor ((o.setup c).limited 0) rounds).1.steps := by
    rw [((o.limited 0).outcome_tells c rounds).1,
      (Machine.runFor_tells ((o.setup c).limited 0) rounds o.machine_dp).1]
    exact (Nat.zero_add _).symm
  rw [hsteps] at h
  obtain ⟨hrun, hevents⟩ := Machine.runFor_limited limit rounds o.machine_dp h
  refine ⟨?_, hevents⟩
  have hwhole : (o.limited limit).machine.run ((o.limited limit).setup c) rounds =
      (o.limited 0).machine.run ((o.limited 0).setup c) rounds := by
    rw [Machine.run, Machine.run]
    exact hrun ▸ rfl
  rw [outcome_of_run hwhole, outcome_eq]

theorem outcome_ne_stepLimit (o : Options σ) (c : Code) (rounds : Nat) (n : Int) :
    ((o.limited 0).outcome c rounds).1 ≠ .stopped (.stepLimit n) := by
  intro h
  rw [outcome_eq] at h
  rcases hrun : (o.limited 0).machine.run ((o.limited 0).setup c) rounds with ⟨m, _ | stop⟩
  · rw [hrun] at h
    cases h
  · rw [hrun] at h
    cases h
    obtain ⟨_, _, _, hexit, -⟩ := Machine.run_exit (o.limited 0).machine_kept o.machine_dp hrun
    cases hexit with
    | stepLimit hpos => exact Int.lt_irrefl 0 hpos
    | refused _ hr => cases hr

/-- Beyond the limit a run has ended, within the limit or at the limit. -/
theorem outcome_beyond (o : Options σ) (c : Code) {limit rounds : Nat} (hpos : 0 < limit)
    (hlt : limit < rounds) :
    (∃ why m, (o.limited 0).outcome c rounds = (.stopped why, m) ∧ m.steps ≤ limit ∧
      (o.limited limit).outcome c rounds = (.stopped why, m)) ∨
    ∃ m m', (o.limited 0).machine.runFor ((o.limited 0).setup c) limit = (m, none) ∧
      (o.limited limit).outcome c rounds = (.stopped (.stepLimit limit), m') ∧
      m'.steps = limit ∧ m'.core = m.core.flushed ∧ m'.watch = m.watch ∧
      (o.limited limit).events c rounds = (o.limited 0).events c limit := by
  rcases Machine.runFor_beyond (s := o.setup c) hpos rfl o.machine_dp hlt with
    ⟨m₁, stop, hfree, hle, hrun⟩ | ⟨m₁, m₂, hfree, hrun, hh⟩
  · exact .inl ⟨_, _, outcome_of_stopped (o := o.limited 0) hfree, hle,
      outcome_of_stopped (o := o.limited limit) hrun⟩
  · obtain ⟨m', hend, hsteps, hcore, hwatch, hevents⟩ :=
      outcome_of_halts (o := o.limited limit) hlt hrun hh nofun
    refine .inr ⟨m₁, m', hfree, hend, hsteps, hcore, hwatch, hevents.trans ?_⟩
    have hcount : m₁.steps = 0 + limit := (Machine.runFor_bare hfree).2
    exact (Machine.runFor_limited (s := o.setup c) limit limit o.machine_dp (.inr (by
      rw [hfree]
      show (m₁.steps : Int) ≤ limit
      omega))).2

/-- **A step limit cuts a run off exactly.** A limit that is not positive is none. Under a positive
one every run ends. It is the unlimited run if that ends with no more than `limit` instructions
counted; otherwise it ends with E3005 after `limit` instructions, as the unlimited run is then. -/
theorem outcome_limited (o : Options σ) (c : Code) :
    (∀ limit ≤ 0, ∀ rounds, (o.limited limit).outcome c rounds = (o.limited 0).outcome c rounds ∧
      ∀ n, ((o.limited limit).outcome c rounds).1 ≠ .stopped (.stepLimit n)) ∧
    ∀ limit : Nat, 0 < limit →
      (∀ rounds, limit < rounds → ∃ why m, (o.limited limit).outcome c rounds = (.stopped why, m)) ∧
      (∀ rounds why m, (o.limited 0).outcome c rounds = (.stopped why, m) → m.steps ≤ limit →
        (o.limited limit).outcome c rounds = (.stopped why, m) ∧
        (o.limited limit).events c rounds = (o.limited 0).events c rounds) ∧
      ((∀ rounds why m, (o.limited 0).outcome c rounds = (.stopped why, m) → limit < m.steps) →
        ∀ rounds, limit < rounds → ∃ m m',
          (o.limited 0).machine.runFor ((o.limited 0).setup c) limit = (m, none) ∧
          (o.limited limit).outcome c rounds = (.stopped (.stepLimit limit), m') ∧
          (Ending.stopped (.stepLimit limit)).code? = some (utf8 "E3005") ∧
          m'.steps = limit ∧ m'.core = m.core.flushed ∧ m'.watch = m.watch ∧
          (o.limited limit).events c rounds = (o.limited 0).events c limit ∧
          ((o.limited limit).events c rounds).length = limit ∧
          m'.core.taken <+: (o.limited 0).written c limit ∧
          (o.sink.capacity = none → m'.core.taken = (o.limited 0).written c limit)) := by
  refine ⟨fun limit hle rounds => ?_, fun limit hpos => ⟨fun rounds hlt => ?_, ?_, ?_⟩⟩
  · obtain ⟨hsame, -⟩ := outcome_within (o := o) (c := c) limit rounds (.inl hle)
    exact ⟨hsame, fun n => hsame ▸ o.outcome_ne_stepLimit c rounds n⟩
  · rcases o.outcome_beyond c hpos hlt with ⟨why, m, -, -, hend⟩ | ⟨m, m', -, hend, -⟩
    · exact ⟨why, m, hend⟩
    · exact ⟨_, m', hend⟩
  · intro rounds why m houtcome hle
    have hwithin := outcome_within (o := o) (c := c) limit rounds (.inr (by
      rw [houtcome]
      exact Int.ofNat_le.2 hle))
    rwa [houtcome] at hwithin
  · intro hlong rounds hlt
    rcases o.outcome_beyond c hpos hlt with
      ⟨why, m, hfree, hle, -⟩ | ⟨m, m', hfree, hend, hsteps, hcore, hwatch, hevents⟩
    · exact absurd (hlong rounds why m hfree) (by omega)
    · have hlength := ((o.limited limit).outcome_tells c rounds).1
      rw [hend] at hlength
      have hdelivers := Machine.runFor_delivers ((o.limited 0).setup c) limit
        (o.limited 0).machine_kept
      rw [hfree] at hdelivers
      cases hdelivers with
      | kept _ _ hkept =>
        obtain ⟨hpart, hall⟩ := Machine.taken_flushed hkept
        exact ⟨m, m', hfree, hend, rfl, hsteps, hcore, hwatch, hevents, hlength.symm.trans hsteps,
          hcore ▸ hpart, fun hc => hcore ▸ hall hc⟩

/-- Two moves and the end: two instructions are enough for it, and one is not. -/
theorem outcome_limited_moves : ∃ (c : Code) (o : Options Unit) (m m' : Machine Unit),
    (o.limited 0).outcome c 3 = (.stopped .finished, m) ∧ m.steps = 2 ∧
      (o.limited 2).outcome c 3 = (.stopped .finished, m) ∧
      (o.limited 1).outcome c 3 = (.stopped (.stepLimit 1), m') ∧ m'.steps = 1 := by
  let c : Code := { instructions := #[.addPointer 3, .addPointer 4, .finish] }
  let o : Options Unit := { watch := () }
  obtain ⟨m, hfree, hsteps⟩ :
      ∃ m, (o.limited 0).outcome c 3 = (.stopped .finished, m) ∧ m.steps = 2 := ⟨_, rfl, rfl⟩
  have hlong : ∀ rounds why m, (o.limited 0).outcome c rounds = (.stopped why, m) →
      1 < m.steps := by
    intro rounds why m h
    match rounds with
    | 0 | 1 | 2 => cases h
    | n + 3 =>
      cases h
      exact Nat.one_lt_two
  obtain ⟨-, hpositive⟩ := outcome_limited o c
  obtain ⟨-, hwithin, -⟩ := hpositive 2 (by decide)
  obtain ⟨-, -, hbeyond⟩ := hpositive 1 (by decide)
  obtain ⟨-, m', -, hend, -, hcount, -⟩ := hbeyond hlong 3 (by decide)
  exact ⟨c, o, m, m', hfree, hsteps, (hwithin 3 _ m hfree (Nat.le_of_eq hsteps)).1, hend, hcount⟩

end Options

end Tapelang
