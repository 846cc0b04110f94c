import Mathlib.Order.Bounds.Defs
import Tapelang.Proofs.Events

/-!
# Cancellation

A run in any context is compared with the run of the same machine in a context that cannot be
cancelled (`Machine.calm`). The two are the same until the first run is interrupted
(`Machine.runFor_calm`). It is interrupted at an attempt, that is when it arrives at an instruction
that is no `END`, and only at every `checkInterval`-th of them (`Machine.runFor_counts`), once the
observer's reactions have cancelled the context (`Machine.runFor_context`).
`Options.outcome_cancelled` says at which attempt that is.
-/

namespace Tapelang

variable {σ : Type}

/-! ## Contexts -/

/-- The context once the observer has reacted in these ways. -/
def Context.after (context : Context) (reactions : List Reaction) : Context :=
  reactions.foldl (fun context r => if r.cancel then context.cancel else context) context

namespace Context

theorem after_append (context : Context) (reactions more : List Reaction) :
    context.after (reactions ++ more) = (context.after reactions).after more := List.foldl_append

theorem after_of_ne_live {context : Context} (h : context ≠ .live) (reactions : List Reaction) :
    context.after reactions = context := by
  induction reactions with
  | nil => rfl
  | cons r rest ih =>
    have hstays : (if r.cancel then context.cancel else context) = context := by
      cases context with
      | live => exact absurd rfl h
      | _ => exact ite_self _
    rw [after, List.foldl_cons, hstays]
    exact ih

theorem after_live (reactions : List Reaction) :
    live.after reactions = if reactions.any (·.cancel) then cancelled else live := by
  induction reactions with
  | nil => rfl
  | cons r rest ih =>
    rw [after, List.foldl_cons, List.any_cons]
    cases hr : r.cancel with
    | false => exact ih
    | true =>
      have hcancelled : cancelled ≠ live := nofun
      exact after_of_ne_live hcancelled rest

theorem isBounded_after {context : Context} (h : context.isBounded = true)
    (reactions : List Reaction) : (context.after reactions).isBounded = true := by
  by_cases hlive : context = .live
  · rw [hlive, after_live]
    split <;> rfl
  · rw [after_of_ne_live hlive]
    exact h

end Context

/-- How the observer of a run, if there is one, reacts to `events`. -/
def Setup.reactions (s : Setup σ) (watch : σ) (events : List Event) : List Reaction :=
  match s.observer with
  | none => []
  | some observer => observer.reactions watch events

theorem Setup.reactions_cons (s : Setup σ) (watch : σ) (e : Event) (rest : List Event) :
    s.reactions watch (e :: rest) =
      s.reactions watch [e] ++ s.reactions (s.told watch [e]) rest := by
  unfold reactions told
  cases s.observer <;> rfl

@[simp] theorem Setup.reactions_nil (s : Setup σ) (watch : σ) : s.reactions watch [] = [] := by
  unfold reactions
  cases s.observer <;> rfl

/-! ## Attempts -/

/-- Whether the instruction pointer is at an instruction that is no `END`. -/
def Core.isAttempt (code : Code) (c : Core) : Bool :=
  match code.instructionAt c.ip with
  | .ok i => i.code != Opcode.finish.toByte
  | .error _ => false

theorem Core.isAttempt_iff {code : Code} {c : Core} :
    c.isAttempt code = true ↔
      ∃ k i, Machine.Reaches code c k i ∧ i.code ≠ Opcode.finish.toByte := by
  constructor
  · intro h
    cases hi : code.instructionAt c.ip with
    | error f =>
      rw [isAttempt, hi] at h
      cases h
    | ok i =>
      rw [isAttempt, hi] at h
      refine ⟨c.ip.toNat, i, ?_, by simpa using h⟩
      unfold Code.instructionAt itemAt at hi
      split at hi
      · cases hi
      · split at hi
        · rename_i hneg _ _ hget
          cases hi
          exact ⟨by omega, hget⟩
        · cases hi
  · rintro ⟨k, i, hr, hf⟩
    rw [isAttempt, hr.instructionAt]
    simpa using hf

namespace Machine

variable {s : Setup σ} {m m' m₁ : Machine σ} {i : Instruction} {stop : Stop} {e : Event}
  {why : Interruption}

/-- The number of attempts in the next `rounds` rounds, as far as the run goes on. -/
def attempts (s : Setup σ) : (rounds : Nat) → Machine σ → Nat
  | 0, _ => 0
  | rounds + 1, m =>
    (if m.core.isAttempt s.code then 1 else 0) +
      match m.step s with
      | (m', none) => attempts s rounds m'
      | (_, some _) => 0

theorem Begins.isAttempt (h : Begins s m i m₁) : m.core.isAttempt s.code = true := by
  cases h with
  | intro hr hf => exact Core.isAttempt_iff.2 ⟨_, _, hr, hf⟩

/-- Attempt `n + 1` is made in round `n + 1`. -/
theorem lt_attempts_iff {rounds n : Nat} :
    n < m.attempts s rounds ↔ n < rounds ∧
      ∃ m', m.runFor s n = (m', none) ∧ m'.core.isAttempt s.code = true := by
  induction rounds generalizing m n with
  | zero => simp [attempts]
  | succ rounds ih =>
    rw [attempts]
    rcases hs : m.step s with ⟨m₁, _ | stop⟩
    · have hfirst : m.core.isAttempt s.code = true := by
        rcases halts_or_begins s m with ⟨m₂, stop, hh⟩ | ⟨i, m₂, hb⟩
        · rw [hh.step_eq] at hs
          cases hs
        · exact hb.isAttempt
      simp only [hfirst, if_true]
      cases n with
      | zero =>
        refine ⟨fun _ => ⟨Nat.succ_pos _, m, rfl, hfirst⟩, fun _ => by omega⟩
      | succ n =>
        rw [Nat.add_comm 1, Nat.add_lt_add_iff_right, ih, Nat.add_lt_add_iff_right, runFor, hs]
    · cases n with
      | zero => by_cases hfirst : m.core.isAttempt s.code = true <;> simp [hfirst, runFor]
      | succ n =>
        rw [runFor, hs]
        constructor
        · intro h
          simp only at h
          split at h <;> omega
        · rintro ⟨-, m', hrun, -⟩
          cases hrun

/-! ## In a context that cannot be cancelled -/

/-- The same machine in a context that cannot be cancelled. -/
def calm (m : Machine σ) : Machine σ := { m with context := .unbounded, sinceCheck := 0 }

theorem checkContext_calm (m : Machine σ) (interval : Int) :
    m.calm.checkContext interval = (m.calm, none) := if_neg fun h => Bool.noConfusion h.2

/-- A look at the context is not seen but for the interruption. -/
theorem checked_calm {interval : Int} {why? : Option Interruption}
    (hc : m.checkContext interval = (m₁, why?)) : m₁.calm = m.calm := by
  unfold checkContext at hc
  repeat' split at hc
  all_goals
    cases hc
    rfl

theorem tell_calm (m : Machine σ) (observer : Observer σ) (e : Event) :
    m.calm.tell observer e = (m.tell observer e).calm := by
  have hstays : (if (observer.notify m.watch e).2.cancel then Context.unbounded.cancel
      else Context.unbounded) = .unbounded := ite_self _
  exact congrArg (fun context => { (m.tell observer e).calm with context }) hstays

theorem carryOut_calm (hi : s.code.instructionAt m.core.ip = .ok i)
    (he : m.core.event? s.code = some e) :
    m.calm.carryOut s i = ((m.carryOut s i).1.calm, (m.carryOut s i).2) := by
  unfold carryOut
  cases hobs : s.observer with
  | none =>
    simp only [observe, hobs]
    rfl
  | some observer =>
    rw [observe_eq hobs hi he, observe_eq (m := m.calm) hobs hi he, tell_calm]
    simp only [show m.calm.watch = m.watch from rfl]
    cases (observer.notify m.watch e).2.verdict <;> rfl

theorem Begins.calm (h : Begins s m i m₁) : Begins s m.calm i m₁.calm := by
  cases h with
  | @intro k m₂ hr hf hc hl =>
    have hsame := checked_calm hc
    have hcounted : Machine.calm { m₂ with steps := m₂.steps + 1 } =
        { m.calm with steps := m.calm.steps + 1 } := by
      rw [← hsame]
      rfl
    rw [hcounted]
    refine .intro hr hf (checkContext_calm m _) ?_
    rw [← hsame]
    exact hl

theorem Halts.calm (h : Halts s m m₁ stop) (hne : ∀ why, stop ≠ .interrupted why) :
    Halts s m.calm m₁.calm stop := by
  cases h with
  | outside hout => exact .outside hout
  | finished hr hf => exact .finished hr hf
  | interrupted _ _ _ => exact absurd rfl (hne _)
  | limited hr hf hc hpos hle =>
    have hsame := checked_calm hc
    rw [hsame]
    refine .limited hr hf (checkContext_calm m _) hpos ?_
    rw [← hsame]
    exact hle

theorem step_calm (hdp : m.core.dp < tapeSize)
    (hne : ∀ why, (m.step s).2 ≠ some (.interrupted why)) :
    m.calm.step s = ((m.step s).1.calm, (m.step s).2) := by
  rcases halts_or_begins s m with ⟨m₁, stop, h⟩ | ⟨i, m₁, h⟩
  · rw [h.step_eq] at hne ⊢
    exact (h.calm fun why hw => hne why (congrArg some hw)).step_eq
  · have hcore := h.counted.1
    have hi := h.instructionAt
    obtain ⟨e, he, -⟩ := Core.event?_isSome hdp hi
    rw [h.calm.step_eq, h.step_eq, carryOut_calm (hcore ▸ hi) (hcore ▸ he)]

theorem close_calm (m : Machine σ) (stop : Stop) :
    m.calm.close stop = ((m.close stop).1.calm, (m.close stop).2) := by
  have hcore : m.calm.core = m.core := rfl
  refine Prod.ext ?_ (close_snd hcore stop)
  rw [close_fst, close_fst]
  rfl

/-- **Up to an interruption** the context does not matter. -/
theorem runFor_calm {rounds : Nat} (hdp : m.core.dp < tapeSize)
    (hne : ∀ why, (m.runFor s rounds).2 ≠ some (.interrupted why)) :
    m.calm.runFor s rounds = ((m.runFor s rounds).1.calm, (m.runFor s rounds).2) ∧
      m.calm.events s rounds = m.events s rounds := by
  induction rounds generalizing m with
  | zero => exact ⟨rfl, rfl⟩
  | succ rounds ih =>
    rw [runFor] at hne
    have hstep : m.calm.step s = ((m.step s).1.calm, (m.step s).2) := by
      apply step_calm hdp
      intro why hwhy
      rcases hs : m.step s with ⟨m₁, _ | stop⟩
      · rw [hs] at hwhy
        cases hwhy
      · rw [hs] at hwhy hne
        exact hne why hwhy
    have hnext := step_dp s hdp
    rw [runFor, runFor, events, events, hstep]
    rcases hs : m.step s with ⟨m₁, _ | stop⟩
    · rw [hs] at hne hnext
      obtain ⟨hrun, hevents⟩ := ih hnext hne
      exact ⟨hrun, congrArg (_ ++ ·) hevents⟩
    · exact ⟨rfl, rfl⟩

/-! ## Interruptions -/

/-- A look at the context is due, and the context says that the run may not go on. -/
structure Due (s : Setup σ) (m : Machine σ) (why : Interruption) : Prop where
  attempt : m.core.isAttempt s.code = true
  positive : 0 < s.checkInterval
  counted : s.checkInterval ≤ m.sinceCheck + 1
  context : m.context.interruption? = some why

theorem Due.halts (h : m.Due s why) : ∃ m₁, Halts s m m₁ (.interrupted why) := by
  obtain ⟨k, i, hr, hf⟩ := Core.isAttempt_iff.1 h.attempt
  have hbounded : m.context.isBounded = true := by
    have hwhy := h.context
    cases hc : m.context with
    | unbounded =>
      rw [hc] at hwhy
      cases hwhy
    | _ => rfl
  have hcheck : m.checkContext s.checkInterval =
      ({ m with sinceCheck := 0 }, m.context.interruption?) :=
    (if_pos ⟨h.positive, hbounded⟩).trans (if_pos h.counted)
  rw [h.context] at hcheck
  exact ⟨_, .interrupted hr hf hcheck⟩

/-- **A round is interrupted** only if a look at the context is due. -/
theorem step_interrupted (hdp : m.core.dp < tapeSize)
    (h : m.step s = (m₁, some (.interrupted why))) : m.Due s why := by
  rcases halts_or_begins s m with ⟨m₂, stop, hh⟩ | ⟨i, m₂, hb⟩
  · rw [hh.step_eq] at h
    cases h
    cases hh with
    | interrupted hr hf hc =>
      unfold checkContext at hc
      split at hc
      · rename_i hlook
        split at hc
        · rename_i hcounted
          exact ⟨Core.isAttempt_iff.2 ⟨_, _, hr, hf⟩, hlook.1, hcounted, (Prod.mk.inj hc).2⟩
        · cases hc
      · cases hc
  · -- an instruction that has been begun is not interrupted
    have hsteps := hb.step_steps
    rw [h] at hsteps
    obtain ⟨-, begun, hexit, hcount⟩ := step_exit hdp h
    cases hexit with
    | interrupted _ =>
      have hsteps : m₁.steps = m.steps + 1 := hsteps
      omega
    | refused _ hr => cases hr

theorem runFor_interrupted {rounds : Nat} (hdp : m.core.dp < tapeSize)
    (h : m.runFor s rounds = (m', some (.interrupted why))) :
    ∃ n m₁, n < rounds ∧ m.runFor s n = (m₁, none) ∧ m₁.Due s why := by
  obtain ⟨n, m₁, hlt, hrun, hlast⟩ := runFor_stopped h
  exact ⟨n, m₁, hlt, hrun, step_interrupted (runFor_dp hdp hrun) hlast⟩

/-! ## Counting attempts -/

theorem carryOut_context (hi : s.code.instructionAt m.core.ip = .ok i)
    (he : m.core.event? s.code = some e) :
    (m.carryOut s i).1.context = m.context.after (s.reactions m.watch [e]) ∧
      (m.carryOut s i).1.sinceCheck = m.sinceCheck := by
  unfold carryOut Setup.reactions
  cases hobs : s.observer with
  | none =>
    simp only [observe, hobs]
    exact ⟨rfl, rfl⟩
  | some observer =>
    rw [observe_eq hobs hi he]
    cases (observer.notify m.watch e).2.verdict <;> exact ⟨rfl, rfl⟩

theorem Begins.context_step (h : Begins s m i m₁) (he : m.core.event? s.code = some e) :
    (m.step s).1.context = m.context.after (s.reactions m.watch [e]) ∧
      (m.step s).1.sinceCheck = m₁.sinceCheck := by
  obtain ⟨hcore, -, hwatch, hcontext⟩ := h.counted
  rw [h.step_eq, ← hcontext, ← hwatch]
  exact carryOut_context (hcore ▸ h.instructionAt) (hcore ▸ he)

/-- **The context of a run** is what the observer's reactions to its events make of it. -/
theorem runFor_context (s : Setup σ) (rounds : Nat) (hdp : m.core.dp < tapeSize) :
    (m.runFor s rounds).1.context =
      m.context.after (s.reactions m.watch (m.events s rounds)) := by
  induction rounds generalizing m with
  | zero =>
    rw [events, Setup.reactions_nil]
    rfl
  | succ rounds ih =>
    rw [runFor]
    rcases halts_or_begins s m with ⟨m₁, stop, h⟩ | ⟨i, m₁, h⟩
    · rw [events_of_same h.step_eq h.same.2.1, h.step_eq, Setup.reactions_nil]
      exact h.same.2.2.2
    · obtain ⟨e, rest, he, hevents, hgo, hstop⟩ := h.events_eq hdp rounds
      have hcontext := (h.context_step he).1
      have hwatch := h.step_watch he
      have hnext := step_dp s hdp
      rw [hevents]
      rcases hs : m.step s with ⟨m₂, _ | stop⟩
      · rw [hs] at hcontext hwatch hnext
        obtain rfl := hgo m₂ hs
        rw [Setup.reactions_cons, Context.after_append, ← hcontext, ← hwatch]
        exact ih hnext
      · rw [hs] at hcontext
        rw [hstop m₂ stop hs]
        exact hcontext

theorem Begins.counts {interval : Nat} (h : Begins s m i m₁) (hs : s.checkInterval = interval)
    (hb : m.context.isBounded = true) (hlt : m.sinceCheck < interval) :
    m₁.sinceCheck = (m.sinceCheck + 1) % interval := by
  cases h with
  | intro _ _ hc _ =>
    unfold checkContext at hc
    rw [hs, if_pos ⟨by omega, hb⟩] at hc
    split at hc
    · obtain ⟨rfl, -⟩ := Prod.mk.inj hc
      have hfull : m.sinceCheck + 1 = interval := by omega
      rw [hfull, Nat.mod_self]
    · cases hc
      rw [Nat.mod_eq_of_lt (by omega)]

theorem step_counts {interval : Nat} (hs : s.checkInterval = interval)
    (hdp : m.core.dp < tapeSize) (hb : m.context.isBounded = true) (hlt : m.sinceCheck < interval)
    (h : m.step s = (m', none)) :
    m'.context.isBounded = true ∧ m'.sinceCheck = (m.sinceCheck + 1) % interval := by
  rcases halts_or_begins s m with ⟨m₁, stop, hh⟩ | ⟨i, m₁, hbegins⟩
  · rw [hh.step_eq] at h
    cases h
  · obtain ⟨e, he, -⟩ := Core.event?_isSome hdp hbegins.instructionAt
    obtain ⟨hcontext, hsince⟩ := hbegins.context_step he
    rw [h] at hcontext hsince
    exact ⟨hcontext ▸ Context.isBounded_after hb _, hsince.trans (hbegins.counts hs hb hlt)⟩

/-- **In a context that can be cancelled** a run counts its rounds up to the check interval. -/
theorem runFor_counts {interval n : Nat} (hs : s.checkInterval = interval)
    (hdp : m.core.dp < tapeSize) (hb : m.context.isBounded = true) (hlt : m.sinceCheck < interval)
    (h : m.runFor s n = (m', none)) : m'.sinceCheck = (m.sinceCheck + n) % interval := by
  induction n generalizing m with
  | zero =>
    cases h
    exact (Nat.mod_eq_of_lt hlt).symm
  | succ n ih =>
    rw [runFor] at h
    rcases hstep : m.step s with ⟨m₁, _ | stop⟩
    · rw [hstep] at h
      have hnext := step_dp s hdp
      rw [hstep] at hnext
      obtain ⟨hb₁, hsince⟩ := step_counts hs hdp hb hlt hstep
      have hlt₁ : m₁.sinceCheck < interval := hsince ▸ Nat.mod_lt _ (by omega)
      rw [ih hnext hb₁ hlt₁ h, hsince, Nat.mod_add_mod]
      congr 1
      omega
    · rw [hstep] at h
      cases h

end Machine

/-! ## Whole runs -/

namespace Options

variable {o : Options σ} {c : Code} {j : Nat} {why : Interruption}

/-- The same options with a context that cannot be cancelled. -/
def calm (o : Options σ) : Options σ := { o with context := .unbounded }

/-- The number of attempts of a run of `c` in its first `rounds` rounds. -/
def attempts (o : Options σ) (c : Code) (rounds : Nat) : Nat :=
  o.machine.attempts (o.setup c) rounds

/-- A run of `c` is not affected by its context: it ends as it does in one that cannot be cancelled,
with the same machine but for the context, and has the same events. -/
def IsUnaffected (o : Options σ) (c : Code) (rounds : Nat) : Prop :=
  o.calm.outcome c rounds = ((o.outcome c rounds).1, (o.outcome c rounds).2.calm) ∧
    o.calm.events c rounds = o.events c rounds

/-- The context is not cancelled before the run, nor by the observer's reactions to its events. -/
def NeverCancelled (o : Options σ) (c : Code) : Prop :=
  o.context.interruption? = none ∧
    ∀ n, ∀ r ∈ (o.setup c).reactions o.watch (o.calm.events c n), r.cancel = false

/-- The context is cancelled, or over for the reason `why`, during call `j` of the observer; call 0
stands for the time before the run. -/
inductive CancelledAt (o : Options σ) (c : Code) : Nat → Interruption → Prop
  | before {why : Interruption} : o.context.interruption? = some why → CancelledAt o c 0 why
  | during {observer : Observer σ} {j : Nat} : o.context = .live → o.observer = some observer →
      (∀ n i r, (observer.reactions o.watch (o.calm.events c n))[i]? = some r →
        (i < j → r.cancel = false) ∧ (i = j → r.cancel = true)) →
      CancelledAt o c (j + 1) .cancelled

/-- A run that is not interrupted is not affected by its context. -/
theorem isUnaffected_of_ne {rounds : Nat}
    (hne : ∀ why, (o.machine.runFor (o.setup c) rounds).2 ≠ some (.interrupted why)) :
    o.IsUnaffected c rounds := by
  obtain ⟨hrun, hevents⟩ := Machine.runFor_calm o.machine_dp hne
  have hcalm : o.calm.machine.runFor (o.calm.setup c) rounds = _ := hrun
  refine ⟨?_, hevents⟩
  rw [outcome_eq, outcome_eq, Machine.run, Machine.run, hcalm]
  rcases o.machine.runFor (o.setup c) rounds with ⟨m, _ | stop⟩
  · rfl
  · simp only [Machine.close_calm]

/-- The events of a run that goes on are those that it has in a context that cannot be cancelled. -/
theorem calm_of_goes {n : Nat} {m : Machine σ}
    (h : o.machine.runFor (o.setup c) n = (m, none)) :
    o.calm.machine.runFor (o.calm.setup c) n = (m.calm, none) ∧
      o.calm.events c n = o.events c n ∧ (o.calm.events c n).length = n ∧
      m.context = o.context.after ((o.setup c).reactions o.watch (o.calm.events c n)) := by
  obtain ⟨hrun, hevents⟩ := Machine.runFor_calm o.machine_dp (s := o.setup c) (by
    intro why
    rw [h]
    exact nofun)
  have hsteps := (Machine.runFor_bare h).2
  have hlength := (Machine.runFor_tells (o.setup c) n o.machine_dp).1
  have hcontext := Machine.runFor_context (o.setup c) n o.machine_dp
  rw [h] at hrun hlength hcontext
  have hevents : o.calm.events c n = o.events c n := hevents
  refine ⟨hrun, hevents, ?_, hevents ▸ hcontext⟩
  rw [hevents]
  exact Nat.add_left_cancel (hlength.symm.trans hsteps)

/-- A run in which no look at the context is due goes on as long as it does in a context that cannot
be cancelled. -/
theorem goes_of_calm {n : Nat} {m₀ : Machine σ}
    (hcalm : o.calm.machine.runFor (o.calm.setup c) n = (m₀, none))
    (hnot : ∀ k m why, k < n → o.machine.runFor (o.setup c) k = (m, none) →
      ¬ m.Due (o.setup c) why) :
    ∃ m, o.machine.runFor (o.setup c) n = (m, none) ∧ m₀ = m.calm := by
  have hne : ∀ why, (o.machine.runFor (o.setup c) n).2 ≠ some (.interrupted why) := by
    intro why hwhy
    obtain ⟨k, m, hk, hrun, hdue⟩ := Machine.runFor_interrupted o.machine_dp (Prod.ext rfl hwhy)
    exact hnot k m why hk hrun hdue
  have hsame := (Machine.runFor_calm o.machine_dp hne).1
  obtain ⟨hm, hstop⟩ := Prod.mk.inj (hcalm.symm.trans hsame)
  exact ⟨_, Prod.ext rfl hstop.symm, hm⟩

theorem NeverCancelled.context (h : o.NeverCancelled c) {n : Nat} {m : Machine σ}
    (hrun : o.machine.runFor (o.setup c) n = (m, none)) : m.context.interruption? = none := by
  obtain ⟨-, -, -, hcontext⟩ := calm_of_goes hrun
  have hnone : ((o.setup c).reactions o.watch (o.calm.events c n)).any (·.cancel) = false := by
    simpa using h.2 n
  by_cases hlive : o.context = .live
  · rw [hcontext, hlive, Context.after_live, hnone]
    rfl
  · rw [hcontext, Context.after_of_ne_live hlive]
    exact h.1

/-- **A context that is cancelled at call `j`** says so after `j` instructions, and not before. -/
theorem CancelledAt.context (h : o.CancelledAt c j why) {n : Nat} {m : Machine σ}
    (hrun : o.machine.runFor (o.setup c) n = (m, none)) :
    m.context.interruption? = if j ≤ n then some why else none := by
  obtain ⟨-, -, hlength, hcontext⟩ := calm_of_goes hrun
  cases h with
  | before hwhy =>
    have hlive : o.context ≠ .live := by
      intro hlive
      rw [hlive] at hwhy
      cases hwhy
    rw [hcontext, Context.after_of_ne_live hlive, if_pos (Nat.zero_le n)]
    exact hwhy
  | @during observer j hlive hobs hreacts =>
    have hreactions : (o.setup c).reactions o.watch (o.calm.events c n) =
        observer.reactions o.watch (o.calm.events c n) := by
      unfold Setup.reactions
      rw [show (o.setup c).observer = some observer from hobs]
    rw [hcontext, hlive, hreactions, Context.after_live]
    by_cases hj : j < n
    · have hlt : j < (observer.reactions o.watch (o.calm.events c n)).length := by
        rw [Observer.reactions_length, hlength]
        exact hj
      have hget := List.getElem?_eq_getElem hlt
      have hany : (observer.reactions o.watch (o.calm.events c n)).any (·.cancel) = true :=
        List.any_eq_true.2 ⟨_, List.getElem_mem hlt, (hreacts n j _ hget).2 rfl⟩
      rw [hany, if_pos (Nat.succ_le_of_lt hj)]
      rfl
    · have hnone : (observer.reactions o.watch (o.calm.events c n)).any (·.cancel) = false := by
        rw [List.any_eq_false]
        intro r hmem
        obtain ⟨i, hi⟩ := List.mem_iff_getElem?.1 hmem
        have hlt := (List.getElem?_eq_some_iff.1 hi).1
        rw [Observer.reactions_length, hlength] at hlt
        rw [(hreacts n i r hi).1 (by omega)]
        exact Bool.false_ne_true
      rw [hnone, if_neg Bool.false_ne_true, if_neg (by omega)]
      rfl

theorem le_mod_add_one_iff {interval n : Nat} (hpos : 0 < interval) :
    interval ≤ n % interval + 1 ↔ interval ∣ n + 1 := by
  have hlt := Nat.mod_lt n hpos
  rw [Nat.dvd_iff_mod_eq_zero, ← Nat.mod_add_mod]
  constructor
  · intro hle
    rw [show n % interval + 1 = interval from by omega, Nat.mod_self]
  · intro hzero
    apply Nat.le_of_not_lt
    intro hless
    rw [Nat.mod_eq_of_lt hless] at hzero
    cases hzero

theorem CancelledAt.isBounded (h : o.CancelledAt c j why) : o.context.isBounded = true := by
  cases h with
  | before hwhy =>
    cases hc : o.context with
    | unbounded =>
      rw [hc] at hwhy
      cases hwhy
    | _ => rfl
  | during hlive =>
    rw [hlive]
    rfl

/-- A look at the context is due at the multiples of the check interval, after the cancellation. -/
theorem CancelledAt.due_iff (h : o.CancelledAt c j why) {interval : Nat}
    (hinterval : o.checkInterval = interval) (hpos : 0 < interval) {n : Nat} {m : Machine σ}
    (hrun : o.machine.runFor (o.setup c) n = (m, none)) (why' : Interruption) :
    m.Due (o.setup c) why' ↔
      m.core.isAttempt c = true ∧ (interval ∣ n + 1 ∧ j < n + 1) ∧ why' = why := by
  have hcontext := h.context hrun
  have hsince : m.sinceCheck = n % interval := by
    rw [Machine.runFor_counts (s := o.setup c) hinterval o.machine_dp h.isBounded hpos hrun]
    exact congrArg (· % interval) (Nat.zero_add n)
  rw [← le_mod_add_one_iff hpos, ← hsince]
  constructor
  · rintro ⟨hattempt, -, hcounted, hwhy⟩
    rw [show (o.setup c).checkInterval = interval from hinterval] at hcounted
    rw [hcontext] at hwhy
    split at hwhy
    · cases hwhy
      exact ⟨hattempt, ⟨by omega, by omega⟩, rfl⟩
    · cases hwhy
  · rintro ⟨hattempt, ⟨hcounted, hlt⟩, rfl⟩
    rw [if_pos (by omega)] at hcontext
    refine ⟨hattempt, ?_, ?_, hcontext⟩
    · rw [show (o.setup c).checkInterval = interval from hinterval]
      omega
    · rw [show (o.setup c).checkInterval = interval from hinterval]
      omega

/-- **Cancellation is noticed at the check points and nowhere else.** A run is not affected by a
context that is never looked at, cannot be cancelled or is not cancelled. One that is cancelled
during call `j` of the observer is noticed at attempt `look`, the first that is a multiple of the
check interval and comes after `j` attempts, if the run gets so far: the run is then as it is after
`look - 1` instructions. Otherwise it is not affected. -/
theorem outcome_cancelled (o : Options σ) (c : Code) :
    (o.checkInterval ≤ 0 ∨ o.context = .unbounded ∨ o.NeverCancelled c →
      ∀ rounds, o.IsUnaffected c rounds) ∧
    ∀ (interval j look : Nat) (why : Interruption), o.checkInterval = interval → 0 < interval →
      o.CancelledAt c j why → IsLeast { n | interval ∣ n ∧ j < n } look →
      ∀ rounds,
        (look ≤ o.calm.attempts c rounds → ∃ m m',
          o.calm.machine.runFor (o.calm.setup c) (look - 1) = (m, none) ∧
          o.outcome c rounds = (.stopped (.interrupted why), m') ∧
          m'.steps = look - 1 ∧ m'.core = m.core.flushed ∧ m'.watch = m.watch ∧
          o.events c rounds = o.calm.events c (look - 1) ∧
          (o.events c rounds).length = look - 1) ∧
        (o.calm.attempts c rounds < look → o.IsUnaffected c rounds) := by
  constructor
  · intro h rounds
    refine isUnaffected_of_ne fun why hwhy => ?_
    obtain ⟨n, m, -, hrun, hdue⟩ := Machine.runFor_interrupted o.machine_dp (Prod.ext rfl hwhy)
    rcases h with hle | hunbounded | hnever
    · exact absurd hdue.positive (Int.not_lt.2 hle)
    · have hwhy := hdue.context
      rw [(calm_of_goes hrun).2.2.2, Context.after_of_ne_live (by rw [hunbounded]; exact nofun),
        hunbounded] at hwhy
      cases hwhy
    · cases (hnever.context hrun).symm.trans hdue.context
  · intro interval j look why hinterval hpos hcancel ⟨hlook, hleast⟩ rounds
    -- no look is due before attempt `look`
    have hfirst : ∀ {n m why'}, o.machine.runFor (o.setup c) n = (m, none) →
        m.Due (o.setup c) why' → look ≤ n + 1 := fun hrun hdue =>
      hleast ((hcancel.due_iff hinterval hpos hrun _).1 hdue).2.1
    constructor
    · intro hle
      obtain ⟨n, rfl⟩ : ∃ n, look = n + 1 := ⟨look - 1, by have := hlook.2; omega⟩
      obtain ⟨hn, m₀, hcalm, hattempt⟩ := Machine.lt_attempts_iff.1 hle
      obtain ⟨m, hrun, rfl⟩ := goes_of_calm hcalm fun k m why' hk hrun hdue => by
        have := hfirst hrun hdue
        omega
      obtain ⟨m₁, hh⟩ :=
        ((hcancel.due_iff hinterval hpos hrun why).2 ⟨hattempt, hlook, rfl⟩).halts
      obtain ⟨m', hend, hsteps, hcore, hwatch, hevents⟩ := outcome_of_halts hn hrun hh nofun
      obtain ⟨-, hsame, hlength, -⟩ := calm_of_goes hrun
      refine ⟨m.calm, m', hcalm, hend, hsteps, hcore, hwatch, hevents.trans hsame.symm, ?_⟩
      rw [hevents, ← hsame]
      exact hlength
    · intro hlt
      refine isUnaffected_of_ne fun why' hwhy => ?_
      obtain ⟨n, m, hn, hrun, hdue⟩ := Machine.runFor_interrupted o.machine_dp (Prod.ext rfl hwhy)
      have hle := hfirst hrun hdue
      have hcalm := (calm_of_goes hrun).1
      have hattempt : n < o.calm.attempts c rounds :=
        Machine.lt_attempts_iff.2 ⟨hn, m.calm, hcalm, hdue.attempt⟩
      omega

/-- Two moves in a context that the observer cancels at the first of them, looked at at every second
attempt: one move is made. -/
theorem outcome_cancelled_second : ∃ (c : Code) (o : Options Recording) (m : Machine Recording),
    o.checkInterval = 2 ∧ o.CancelledAt c 1 .cancelled ∧ IsLeast { n | 2 ∣ n ∧ 1 < n } 2 ∧
      2 ≤ o.calm.attempts c 3 ∧
      o.outcome c 3 = (.stopped (.interrupted .cancelled), m) ∧ m.steps = 1 := by
  let c : Code := { instructions := #[.addPointer 3, .addPointer 4, .finish] }
  let observer : Observer Recording := .recorder { cancelAt := some 1 }
  let o : Options Recording :=
    { checkInterval := 2, context := .live, observer := some observer, watch := { keep := 2 } }
  have hcancel : o.CancelledAt c 1 .cancelled := by
    refine .during rfl rfl fun n i r h => ⟨nofun, ?_⟩
    rintro rfl
    cases hevents : o.calm.events c n with
    | nil =>
      rw [hevents] at h
      cases h
    | cons e rest =>
      rw [hevents] at h
      cases h
      rfl
  have hleast : IsLeast { n | 2 ∣ n ∧ 1 < n } 2 := ⟨⟨by decide, by decide⟩, fun n hn => hn.2⟩
  let m₀ : Machine Recording := { o.calm.machine with steps := 1 }
  have hbegins : Machine.Begins (o.calm.setup c) o.calm.machine (.addPointer 3) m₀ :=
    .intro (k := 0) ⟨rfl, rfl⟩ (by decide) rfl (by decide)
  obtain ⟨e, he, -⟩ := Core.event?_isSome o.calm.machine_dp hbegins.instructionAt
  have hobserve := Machine.observe_eq (m := m₀) rfl hbegins.instructionAt he
  obtain ⟨m₁, hstep, hattempt⟩ : ∃ m₁, o.calm.machine.step (o.calm.setup c) = (m₁, none) ∧
      m₁.core.isAttempt c = true := by
    rw [hbegins.step_eq, Machine.carryOut, hobserve]
    exact ⟨_, rfl, rfl⟩
  have hle : 2 ≤ o.calm.attempts c 3 :=
    Machine.lt_attempts_iff.2 ⟨by decide, m₁, by rw [Machine.runFor, hstep]; rfl, hattempt⟩
  obtain ⟨-, m', -, hend, hsteps, -⟩ :=
    ((outcome_cancelled o c).2 2 1 2 .cancelled rfl (by decide) hcancel hleast 3).1 hle
  exact ⟨c, o, m', rfl, hcancel, hleast, hle, hend, hsteps⟩

end Options

end Tapelang
