import Mathlib.Algebra.BigOperators.Group.List.Basic
import Tapelang.Proofs.Events
import Tapelang.Proofs.SafeRuns

/-!
# Observed runs

A run is compared with the same run under an observer (`Machine.watchedBy`, `Setup.observedBy`). As
long as the observer's reactions are silent, the two are the same but for what the observer
remembers (`Machine.runFor_silent`): it has been told of the events of the run without an observer.
An observer that objects ends the run before the instruction that it objects to
(`Machine.runFor_objected`).

`Profile.after_count` and `Profile.after_total` say what a profile holds after any events.
`Options.outcome_observed` puts everything together.
-/

namespace Tapelang

variable {σ : Type}

/-! ## Under an observer -/

/-- The same machine, with an observer that remembers `watch`. -/
def Machine.watchedBy (m : Machine Unit) (watch : σ) : Machine σ :=
  { core := m.core, steps := m.steps, context := m.context, sinceCheck := m.sinceCheck, watch }

/-- The same run under an observer. -/
def Setup.observedBy (s : Setup Unit) (observer : Observer σ) : Setup σ :=
  { code := s.code, stepLimit := s.stepLimit, checkInterval := s.checkInterval
    observer := some observer }

/-- The same options with an observer, which remembers `watch` at first. -/
def Options.observedBy (o : Options Unit) (observer : Observer σ) (watch : σ) : Options σ :=
  { input := o.input, sink := o.sink, stepLimit := o.stepLimit, checkInterval := o.checkInterval
    context := o.context, observer := some observer, watch }

/-- The reaction lets a run in this context go on, and does not cancel it. -/
def Reaction.IsSilent (context : Context) (r : Reaction) : Prop :=
  r.verdict = .proceed ∧ (r.cancel = true → context ≠ .live)

theorem Reaction.IsSilent.context {context : Context} {r : Reaction} (h : r.IsSilent context) :
    (if r.cancel then context.cancel else context) = context := by
  split
  · rename_i hc
    cases context with
    | live => exact absurd rfl (h.2 hc)
    | _ => rfl
  · rfl

namespace Machine

variable {s : Setup Unit} {m m₁ : Machine Unit} {i : Instruction} {stop : Stop} {e : Event}
  {observer : Observer σ} {watch : σ}

theorem checkContext_watchedBy {interval : Int} {why? : Option Interruption}
    (h : m.checkContext interval = (m₁, why?)) :
    (m.watchedBy watch).checkContext interval = (m₁.watchedBy watch, why?) := by
  by_cases hb : 0 < interval ∧ m.context.isBounded
  · by_cases hd : interval ≤ m.sinceCheck + 1
    · have hc : m.checkContext interval = (_, _) := (if_pos hb).trans (if_pos hd)
      cases hc.symm.trans h
      exact (if_pos hb).trans (if_pos hd)
    · have hc : m.checkContext interval = (_, _) := (if_pos hb).trans (if_neg hd)
      cases hc.symm.trans h
      exact (if_pos hb).trans (if_neg hd)
  · have hc : m.checkContext interval = (_, _) := if_neg hb
    cases hc.symm.trans h
    exact if_neg hb

theorem Halts.watchedBy (h : Halts s m m₁ stop) :
    Halts (s.observedBy observer) (m.watchedBy watch) (m₁.watchedBy watch) stop := by
  cases h with
  | outside hout => exact .outside hout
  | finished hr hf => exact .finished hr hf
  | interrupted hr hf hc => exact .interrupted hr hf (checkContext_watchedBy hc)
  | limited hr hf hc hpos hle => exact .limited hr hf (checkContext_watchedBy hc) hpos hle

theorem Begins.watchedBy (h : Begins s m i m₁) :
    Begins (s.observedBy observer) (m.watchedBy watch) i (m₁.watchedBy watch) := by
  cases h with
  | intro hr hf hc hl =>
    have hc' : (m.watchedBy watch).checkContext s.checkInterval = _ := checkContext_watchedBy hc
    exact Begins.intro (s := s.observedBy observer) (m := m.watchedBy watch) hr hf hc' hl

/-- Without an observer nothing cancels a run. -/
theorem step_context (hn : s.observer = none) : (m.step s).1.context = m.context := by
  rcases halts_or_begins s m with ⟨m₁, stop, h⟩ | ⟨i, m₁, h⟩
  · rw [h.step_eq, h.same.2.2.2]
  · have hquiet : m₁.observe s i = (m₁, none) := by rw [observe, hn]
    rw [h.step_eq, carryOut, hquiet]
    exact h.counted.2.2.2

/-- A silent observer changes nothing about a round but what it remembers. -/
theorem Begins.step_silent (hn : s.observer = none) (h : Begins s m i m₁)
    (he : m.core.event? s.code = some e) (hr : (observer.notify watch e).2.IsSilent m.context) :
    (m.watchedBy watch).step (s.observedBy observer) =
      ((m.step s).1.watchedBy (observer.notify watch e).1, (m.step s).2) := by
  obtain ⟨hcore, -, -, hcontext⟩ := h.counted
  have hquiet : m₁.observe s i = (m₁, none) := by rw [observe, hn]
  have htold := observe_eq (s := s.observedBy observer) (m := m₁.watchedBy watch) rfl
    (show s.code.instructionAt m₁.core.ip = .ok i from hcore ▸ h.instructionAt)
    (show m₁.core.event? s.code = some e from hcore ▸ he)
  have htell : (m₁.watchedBy watch).tell observer e =
      m₁.watchedBy (observer.notify watch e).1 := by
    have hstays := (hcontext.symm ▸ hr).context
    unfold tell Machine.watchedBy
    simp only
    rw [hstays]
  rw [htell, show (observer.notify (m₁.watchedBy watch).watch e).2.verdict = .proceed from hr.1]
    at htold
  rw [h.watchedBy.step_eq, h.step_eq, carryOut, carryOut, htold, hquiet]
  rfl

/-- An observer that objects ends the run before the instruction. -/
theorem Begins.step_objected (h : Begins s m i m₁) (he : m.core.event? s.code = some e)
    (hv : (observer.notify watch e).2.verdict.stop? = some stop) :
    ∃ m₂, (m.watchedBy watch).step (s.observedBy observer) = (m₂, some stop) ∧
      m₂.core = m.core ∧ m₂.steps = m.steps + 1 ∧ m₂.watch = (observer.notify watch e).1 := by
  obtain ⟨hcore, hsteps, -, -⟩ := h.counted
  have hobserve := observe_eq (s := s.observedBy observer) (m := m₁.watchedBy watch) rfl
    (show s.code.instructionAt m₁.core.ip = .ok i from hcore ▸ h.instructionAt)
    (show m₁.core.event? s.code = some e from hcore ▸ he)
  rw [show (observer.notify (m₁.watchedBy watch).watch e).2.verdict.stop? = some stop from hv]
    at hobserve
  refine ⟨(m₁.watchedBy watch).tell observer e, ?_, hcore, hsteps, rfl⟩
  rw [h.watchedBy.step_eq, carryOut, hobserve]

/-! ## Runs -/

/-- **An observer that is silent** changes nothing about a run, and is told of its events. -/
theorem runFor_silent (hn : s.observer = none) (rounds : Nat) (hdp : m.core.dp < tapeSize)
    (hr : ∀ r ∈ observer.reactions watch (m.events s rounds), r.IsSilent m.context) :
    (m.watchedBy watch).runFor (s.observedBy observer) rounds =
      ((m.runFor s rounds).1.watchedBy (observer.after watch (m.events s rounds)),
        (m.runFor s rounds).2) := by
  induction rounds generalizing m watch with
  | zero => rfl
  | succ rounds ih =>
    rw [runFor, runFor]
    rcases halts_or_begins s m with ⟨m₁, stop, h⟩ | ⟨i, m₁, h⟩
    · rw [events_of_same h.step_eq h.same.2.1, h.watchedBy.step_eq, h.step_eq]
      rfl
    · obtain ⟨e, rest, he, hevents, hgo, hstop⟩ := h.events_eq hdp rounds
      have hnext := step_dp s hdp
      have hcontext := step_context (m := m) hn
      rw [hevents] at hr ⊢
      rw [h.step_silent hn he (hr _ List.mem_cons_self)]
      rcases hs : m.step s with ⟨m₂, _ | stop⟩
      · rw [hs] at hnext hcontext
        obtain rfl := hgo m₂ hs
        refine ih (m := m₂) hnext fun r hmem => ?_
        rw [show m₂.context = m.context from hcontext]
        exact hr r (List.mem_cons_of_mem _ hmem)
      · rw [hstop m₂ stop hs]
        rfl

/-- **An observer that objects** after `h` silent reactions ends the run before the instruction that
it objects to. -/
theorem runFor_objected (hn : s.observer = none) (rounds : Nat) (hdp : m.core.dp < tapeSize)
    {h : Nat} (hr : ∀ r ∈ (observer.reactions watch (m.events s rounds)).take h,
      r.IsSilent m.context)
    {r : Reaction} (hh : (observer.reactions watch (m.events s rounds))[h]? = some r)
    (hv : r.verdict.stop? = some stop) :
    ∃ m₁ m₂, m.runFor s h = (m₁, none) ∧
      (m.watchedBy watch).runFor (s.observedBy observer) rounds = (m₂, some stop) ∧
      m₂.core = m₁.core ∧ m₂.steps = m.steps + (h + 1) ∧
      m₂.watch = observer.after watch ((m.events s rounds).take (h + 1)) := by
  -- the events, the reactions and the two runs are taken one round at a time
  induction rounds generalizing m watch h with
  | zero => cases hh
  | succ rounds ih =>
    rw [runFor]
    rcases halts_or_begins s m with ⟨m₁, stop, hhalt⟩ | ⟨i, m₁, hb⟩
    · rw [events_of_same hhalt.step_eq hhalt.same.2.1] at hh
      cases hh
    · obtain ⟨e, rest, he, hevents, hgo, hstop⟩ := hb.events_eq hdp rounds
      rw [hevents] at hr hh ⊢
      cases h with
      | zero =>
        cases hh
        obtain ⟨m₂, hstep, hcore, hsteps, hwatch⟩ := hb.step_objected he hv
        exact ⟨m, m₂, rfl, by rw [hstep], hcore, hsteps, hwatch⟩
      | succ h =>
        have hnext := step_dp s hdp
        have hcontext := step_context (m := m) hn
        have hsteps := hb.step_steps
        have hfirst : (observer.notify watch e).2.IsSilent m.context :=
          hr _ (by rw [Observer.reactions, List.take_succ_cons]; exact List.mem_cons_self)
        rw [hb.step_silent hn he hfirst]
        rcases hs : m.step s with ⟨m₂, _ | stop₂⟩
        · rw [hs] at hnext hcontext hsteps
          obtain rfl := hgo m₂ hs
          have hrest : ∀ r ∈ (observer.reactions (observer.notify watch e).1
              (m₂.events s rounds)).take h, r.IsSilent m₂.context := by
            intro r hmem
            rw [show m₂.context = m.context from hcontext]
            apply hr
            rw [Observer.reactions, List.take_succ_cons]
            exact List.mem_cons_of_mem _ hmem
          obtain ⟨m₃, m₄, hrun, hrun', hcore, hcount, hwatch⟩ := ih hnext hrest hh
          refine ⟨m₃, m₄, by rw [runFor, hs]; exact hrun, hrun', hcore, ?_, hwatch⟩
          rw [hcount, show m₂.steps = m.steps + 1 from hsteps]
          omega
        · rw [hstop m₂ stop₂ hs] at hh
          cases hh

end Machine

/-! ## Profiles -/

namespace Profile

theorem count_eq (p : Profile) (b : UInt8) : p.count b = p.counts[b.toFin.val] := rfl

theorem counts_add (p : Profile) (b : UInt8) :
    (p.add b).counts = p.counts.set b.toFin.val (p.count b + 1) := rfl

theorem count_add (p : Profile) (a b : UInt8) :
    (p.add a).count b = p.count b + if a = b then 1 else 0 := by
  simp only [count_eq, counts_add, Vector.getElem_set]
  by_cases hab : a = b
  · subst hab
    simp
  · have hne : a.toFin.val ≠ b.toFin.val := fun h => hab (UInt8.toNat.inj h)
    simp only [if_neg hne, if_neg hab, Nat.add_zero]

theorem total_add (p : Profile) (b : UInt8) : (p.add b).total = p.total + 1 := by
  have hlt : b.toFin.val < p.counts.toList.length := by
    rw [Vector.length_toList]
    exact b.toFin.isLt
  have hset := List.sum_set p.counts.toList b.toFin.val (p.count b + 1)
  rw [if_pos hlt] at hset
  have hsplit := List.sum_take_add_sum_drop p.counts.toList b.toFin.val
  rw [List.drop_eq_getElem_cons hlt, List.sum_cons, Vector.getElem_toList, ← count_eq] at hsplit
  calc (p.add b).total
      = (p.counts.toList.set b.toFin.val (p.count b + 1)).sum := by
        rw [total, counts_add, Vector.toList_set, List.sum]
    _ = p.counts.toList.sum + 1 := by omega
    _ = p.total + 1 := rfl

theorem after_count (p : Profile) (events : List Event) (b : UInt8) :
    (Observer.profile.after p events).count b = p.count b + events.countP (·.code == b) := by
  induction events generalizing p with
  | nil => rfl
  | cons e rest ih =>
    rw [Observer.after_cons, ih, show (Observer.profile.notify p e).1 = p.add e.code from rfl,
      count_add, List.countP_cons]
    simp only [beq_iff_eq]
    omega

theorem after_total (p : Profile) (events : List Event) :
    (Observer.profile.after p events).total = p.total + events.length := by
  induction events generalizing p with
  | nil => rfl
  | cons e rest ih =>
    rw [Observer.after_cons, ih, show (Observer.profile.notify p e).1 = p.add e.code from rfl,
      total_add, List.length_cons]
    omega

theorem count_empty (b : UInt8) : ({} : Profile).count b = 0 := by simp [count_eq]

theorem total_empty : ({} : Profile).total = 0 := by
  unfold total
  rw [Vector.toList_replicate]
  exact List.sum_replicate_nat ..

theorem reactions_silent (context : Context) (p : Profile) (events : List Event) :
    ∀ r ∈ Observer.profile.reactions p events, r.IsSilent context := by
  induction events generalizing p with
  | nil => simp [Observer.reactions]
  | cons e rest ih =>
    intro r hr
    rcases List.mem_cons.1 hr with rfl | hr
    · exact ⟨rfl, fun hcancel => absurd hcancel Bool.false_ne_true⟩
    · exact ih _ r hr

end Profile

/-! ## Whole runs -/

namespace Machine

variable {s : Setup Unit} {m : Machine Unit} {observer : Observer σ} {watch : σ}

theorem close_watchedBy (m : Machine Unit) (watch : σ) (stop : Stop) :
    (m.watchedBy watch).close stop = ((m.close stop).1.watchedBy watch, (m.close stop).2) := by
  have hcore : (m.watchedBy watch).core = m.core := rfl
  refine Prod.ext ?_ (close_snd hcore stop)
  rw [close_fst, close_fst]
  rfl

theorem run_silent (hn : s.observer = none) (rounds : Nat) (hdp : m.core.dp < tapeSize)
    (hr : ∀ r ∈ observer.reactions watch (m.events s rounds), r.IsSilent m.context) :
    (m.watchedBy watch).run (s.observedBy observer) rounds =
      ((m.run s rounds).1.watchedBy (observer.after watch (m.events s rounds)),
        (m.run s rounds).2) := by
  rw [run, run, runFor_silent hn rounds hdp hr]
  rcases m.runFor s rounds with ⟨m₁, _ | stop⟩
  · rfl
  · simp only [close_watchedBy]

end Machine

/-- Only a halt and a break-down end a run, and the failure has its code from them. -/
theorem Verdict.code_of_stop? {v : Verdict} {stop : Stop} (h : v.stop? = some stop) :
    stop ≠ .finished ∧ (v = .halt → (Ending.stopped stop).code? = some (utf8 "E3006")) ∧
      ∀ value, v = .breakDown value → (Ending.stopped stop).code? = some (utf8 "E3007") := by
  cases v with
  | proceed => cases h
  | halt => cases h; exact ⟨nofun, fun _ => rfl, nofun⟩
  | breakDown value => cases h; exact ⟨nofun, nofun, fun _ _ => rfl⟩

namespace Options

variable {o : Options Unit} {observer : Observer σ} {watch : σ}

theorem outcome_silent (c : Code) (ho : o.observer = none) (rounds : Nat)
    (hr : ∀ r ∈ observer.reactions watch (o.events c rounds), r.IsSilent o.context) :
    (o.observedBy observer watch).outcome c rounds =
      ((o.outcome c rounds).1,
        (o.outcome c rounds).2.watchedBy (observer.after watch (o.events c rounds))) := by
  have hrun := Machine.run_silent (s := o.setup c) ho rounds o.machine_dp hr
  rw [outcome_eq o]
  exact outcome_of_run (o := o.observedBy observer watch) hrun

theorem outcome_objected (c : Code) (ho : o.observer = none) (rounds : Nat) {h : Nat}
    (hr : ∀ r ∈ (observer.reactions watch (o.events c rounds)).take h, r.IsSilent o.context)
    {r : Reaction} {stop : Stop} (hh : (observer.reactions watch (o.events c rounds))[h]? = some r)
    (hv : r.verdict.stop? = some stop) :
    ∃ m m', o.machine.runFor (o.setup c) h = (m, none) ∧
      (o.observedBy observer watch).outcome c rounds = (.stopped stop, m') ∧
      m'.core = m.core.flushed ∧ m'.steps = h + 1 ∧
      m'.watch = observer.after watch ((o.events c rounds).take (h + 1)) := by
  obtain ⟨m₁, m₂, hrun, hrun', hcore, hsteps, hwatch⟩ :=
    Machine.runFor_objected (s := o.setup c) ho rounds o.machine_dp hr hh hv
  have hstopped := Machine.run_of_stopped hrun' (Verdict.code_of_stop? hv).1
  refine ⟨m₁, { m₂ with core := m₂.core.flushed }, hrun, ?_, congrArg Core.flushed hcore, ?_,
    hwatch⟩
  · exact outcome_of_run (o := o.observedBy observer watch) hstopped
  · exact hsteps.trans (Nat.zero_add _)

theorem events_shows (o : Options σ) (c : Code) {rounds n : Nat} {event : Event}
    (h : (o.events c rounds)[n]? = some event) :
    ∃ m i cell, o.machine.runFor (o.setup c) n = (m, none) ∧ m.steps = n ∧
      c.instructionAt m.core.ip = .ok i ∧ i.code ≠ Opcode.finish.toByte ∧
      m.core.cell = .ok cell ∧
      event = ⟨m.core.ip, i.code, c.locationAt m.core.ip, m.core.dp, cell⟩ := by
  obtain ⟨m, hrun, hevent, hcode⟩ := Machine.events_getElem? o.machine_dp h
  have hsteps := (Machine.runFor_bare hrun).2
  unfold Core.event? at hevent
  split at hevent
  · rename_i i cell hi hcell
    cases hevent
    exact ⟨m, i, cell, hrun, hsteps.trans (Nat.zero_add _), hi, hcode, hcell, rfl⟩
  · cases hevent

/-- **Observation changes nothing and misses nothing.** A run has one event for each instruction
that it counts, and the event shows the machine just before the instruction. An observer is told of
these events and, as long as its reactions are silent, leaves no other trace; a profile counts them.
An observer that halts the run or breaks down after `calls` silent reactions does so before
instruction `calls + 1` if the run has one, and the instruction is counted and not carried out. -/
theorem outcome_observed (c : Code) (ho : o.observer = none) (rounds : Nat) :
    (o.events c rounds).length = (o.outcome c rounds).2.steps ∧
    (∀ n event, (o.events c rounds)[n]? = some event →
      ∃ m i cell, o.machine.runFor (o.setup c) n = (m, none) ∧ m.steps = n ∧
        c.instructionAt m.core.ip = .ok i ∧ i.code ≠ Opcode.finish.toByte ∧
        m.core.cell = .ok cell ∧
        event = ⟨m.core.ip, i.code, c.locationAt m.core.ip, m.core.dp, cell⟩) ∧
    (∀ {σ : Type} (observer : Observer σ) (watch : σ),
      (∀ r ∈ observer.reactions watch (o.events c rounds), r.IsSilent o.context) →
      (o.observedBy observer watch).outcome c rounds =
        ((o.outcome c rounds).1,
          (o.outcome c rounds).2.watchedBy (observer.after watch (o.events c rounds)))) ∧
    (∃ p, (o.observedBy .profile {}).outcome c rounds =
        ((o.outcome c rounds).1, (o.outcome c rounds).2.watchedBy p) ∧
      p.total = (o.outcome c rounds).2.steps ∧
      (∀ b, p.count b = (o.events c rounds).countP (·.code == b)) ∧
      p.count Opcode.finish.toByte = 0) ∧
    ∀ {σ : Type} (observer : Observer σ) (watch : σ) (calls : Nat),
      (∀ r ∈ (observer.reactions watch (o.events c rounds)).take calls, r.IsSilent o.context) →
      ((o.outcome c rounds).2.steps ≤ calls →
        (o.observedBy observer watch).outcome c rounds =
          ((o.outcome c rounds).1,
            (o.outcome c rounds).2.watchedBy (observer.after watch (o.events c rounds)))) ∧
      ∀ r stop, (observer.reactions watch (o.events c rounds))[calls]? = some r →
        r.verdict.stop? = some stop →
        ∃ m m', o.machine.runFor (o.setup c) calls = (m, none) ∧
          (o.observedBy observer watch).outcome c rounds = (.stopped stop, m') ∧
          (r.verdict = .halt → (Ending.stopped stop).code? = some (utf8 "E3006")) ∧
          (∀ value, r.verdict = .breakDown value →
            (Ending.stopped stop).code? = some (utf8 "E3007")) ∧
          m'.core = m.core.flushed ∧ m'.steps = calls + 1 ∧
          m'.watch = observer.after watch ((o.events c rounds).take (calls + 1)) := by
  have hsteps := (o.outcome_tells c rounds).1
  refine ⟨hsteps.symm, fun n event h => o.events_shows c h,
    fun observer watch hr => outcome_silent c ho rounds hr, ?_, ?_⟩
  · refine ⟨_, outcome_silent c ho rounds (Profile.reactions_silent _ _ _), ?_, fun b => ?_, ?_⟩
    · rw [Profile.after_total, Profile.total_empty, Nat.zero_add, hsteps]
    · rw [Profile.after_count, Profile.count_empty, Nat.zero_add]
    · rw [Profile.after_count, Profile.count_empty, Nat.zero_add, List.countP_eq_zero]
      intro event hmem
      obtain ⟨n, hn⟩ := List.mem_iff_getElem?.1 hmem
      obtain ⟨m, i, cell, -, -, -, hcode, -, rfl⟩ := o.events_shows c hn
      simpa using hcode
  · intro σ observer watch calls hr
    constructor
    · intro hle
      have hall : (observer.reactions watch (o.events c rounds)).length ≤ calls := by
        rw [Observer.reactions_length, ← hsteps]
        exact hle
      rw [List.take_of_length_le hall] at hr
      exact outcome_silent c ho rounds hr
    · intro r stop hh hv
      obtain ⟨m, m', hrun, houtcome, hrest⟩ := outcome_objected c ho rounds hr hh hv
      obtain ⟨-, hhalt, hbreak⟩ := Verdict.code_of_stop? hv
      exact ⟨m, m', hrun, houtcome, hhalt, hbreak, hrest⟩

/-- Two moves and the end, recorded by an observer that halts at the second move. -/
theorem outcome_observed_halt : ∃ (c : Code) (o : Options Unit) (m : Machine Unit)
    (m' : Machine Recording), o.observer = none ∧ (o.outcome c 3).2.steps = 2 ∧
      o.machine.runFor (o.setup c) 1 = (m, none) ∧
      (o.observedBy (.recorder { haltAt := some 2 }) { keep := 2 }).outcome c 3 =
        (.stopped .halted, m') ∧
      m'.core = m.core.flushed ∧ m'.steps = 2 := by
  let c : Code := { instructions := #[.addPointer 3, .addPointer 4, .finish] }
  let o : Options Unit := { watch := () }
  have htwo : (o.outcome c 3).2.steps = 2 := rfl
  obtain ⟨hlen, -, -, -, hobjects⟩ := outcome_observed (o := o) c rfl 3
  rw [htwo] at hlen
  obtain ⟨first, second, hevents⟩ := List.length_eq_two.1 hlen
  obtain ⟨-, hstop⟩ := hobjects (.recorder { haltAt := some 2 }) { keep := 2 } 1 (by
    intro r hr
    rw [hevents] at hr
    obtain rfl := List.mem_singleton.1 hr
    exact ⟨rfl, fun hcancel => absurd hcancel Bool.false_ne_true⟩)
  obtain ⟨m, m', hrun, houtcome, -, -, hcore, hsteps, -⟩ :=
    hstop { verdict := .halt } .halted (by rw [hevents]; rfl) rfl
  exact ⟨c, o, m, m', rfl, htwo, hrun, houtcome, hcore, hsteps⟩

end Options

end Tapelang
