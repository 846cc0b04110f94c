import Tapelang.Proofs.InputBytes

/-!
# Bytes that have not been read

A run on some bytes is compared with the run on the same bytes and more behind them. Although the
reader takes the input in blocks, bytes that no `READ` has asked for have no say in anything.

* `Machine.emitted_prefix`: a run never takes back what it has written.
* `Options.outcome_wanting`: where the bytes are used up, both runs have done the same.
* `Options.outcome_causal`: a run that ends otherwise is the same with more bytes behind its input.
-/

namespace Tapelang

/-- An outlet whose sink has taken everything has nothing to send. -/
theorem Outlet.flush_of_taken {o : Outlet} {capacity : Option Nat} {bytes : Bytes}
    (h : o.Kept capacity bytes) (ht : o.sink.taken.toList = bytes) : o.flush = (o, none) := by
  have hwritten := h.written
  rw [written, ht] at hwritten
  have hempty : o.buffer.isEmpty = true := by simpa using hwritten
  simp [flush, h.fault, hempty]

namespace Machine

variable {σ : Type} {s : Setup σ} {m m₂ : Machine σ} {o : Outlet} {fault : Option ReadFault}

theorem emitted_prefix {rounds n : Nat} (h : rounds ≤ n) :
    m.emitted s rounds <+: m.emitted s n := by
  induction rounds generalizing m n with
  | zero => exact List.nil_prefix
  | succ rounds ih =>
    obtain ⟨n, rfl⟩ : ∃ k, n = k + 1 := ⟨n - 1, by omega⟩
    rcases hs : m.step s with ⟨m₁, _ | stop⟩
    · rw [emitted_goes hs, emitted_goes hs]
      exact (List.prefix_append_right_inj _).2 (ih (by omega))
    · rw [emitted_stops hs]
      exact List.nil_prefix

/-- A run that ends for want of input has counted the `READ`, has left the pointers and the tape as
they were, and has sent all its output. -/
theorem Wants.starved {m' : Machine σ} {stop : Stop} {capacity : Option Nat} {bytes : Bytes}
    (h : Wants s m m₂ o) (hl : m.core.input.lead = ⟨[], fault⟩)
    (hk : m.core.output.Kept capacity bytes) (hstep : m.step s = (m', some stop)) :
    m'.steps = m.steps + 1 ∧ m'.core.Agrees m.core ∧ m'.core.flushed.taken = bytes := by
  obtain ⟨input, requests, hstarved⟩ := h.step_starved hl
  cases h with
  | intro hb _ _ _ hf =>
    have hsteps := hb.step_steps
    rw [hstep] at hsteps hstarved
    cases hstarved
    refine ⟨hsteps, ⟨rfl, rfl, rfl⟩, ?_⟩
    rcases Outlet.flush_outcome hk with ⟨o', hf', -, hkept, htaken⟩ | ⟨o', why, hf', -⟩
    · obtain rfl : o' = o := by simpa [hf'] using hf
      have hsent := Outlet.flush_of_taken hkept htaken
      simp only [Core.flushed, Core.withInput, hsent]
      exact htaken
    · rw [hf'] at hf
      cases hf

end Machine

namespace Options

variable {σ : Type} {o : Options σ} {c : Code} {p : Bytes} {rounds : Nat} {why : Stop}
  {m : Machine σ}

theorem machine_extended (o : Options σ) (p more : Bytes) :
    (o.fedBy (.ofBytes p)).machine.core.input.Precedes (.ofFeed (.ofBytes (p ++ more))) none
      ⟨more, none⟩ := by
  have hlead : (o.fedBy (.ofBytes p)).input.lead = ⟨p, none⟩ := Feed.lead_ofBytes p
  have hmore : (Feed.ofBytes (p ++ more)).lead =
      ⟨(o.fedBy (.ofBytes p)).input.lead.bytes ++ more, none⟩ := by rw [hlead, Feed.lead_ofBytes]
  have hprec := machine_precedes ⟨more, none⟩ hmore
  rwa [hlead] at hprec

/-- **Where the input is used up**, the run with more bytes behind it has done the same. -/
theorem outcome_wanting (more : Bytes)
    (h : (o.fedBy (.ofBytes p)).outcome c rounds = (.stopped .inputEnded, m)) :
    ∃ k m', m.steps = k + 1 ∧
      (o.fedBy (.ofBytes (p ++ more))).machine.runFor
        ((o.fedBy (.ofBytes (p ++ more))).setup c) k = (m', none) ∧
      m'.steps = k ∧ m.core.Agrees m'.core ∧
      m.core.taken = (o.fedBy (.ofBytes (p ++ more))).written c k := by
  let a := o.fedBy (.ofBytes p)
  obtain ⟨m₀, stop, hrun, hwhy, rfl⟩ := outcome_stopped h
  obtain rfl : stop = .starved none := Machine.starved_of_close hwhy.symm
  obtain ⟨-, k, m₁, m₂, out, input, requests, -, hbefore, hlast, hw, hl, -, hother, -, hemitted⟩ :=
    Machine.runFor_starved a.machine_dp (o.machine_extended p more) #[] hrun
  have hcount : m₁.steps = 0 + k := (Machine.runFor_bare hbefore).2
  have hkept := Machine.runFor_delivers (a.setup c) k a.machine_kept
  rw [hbefore] at hkept
  cases hkept with
  | kept _ _ hkept =>
    obtain ⟨hsteps, hsame, htaken⟩ := hw.starved hl hkept hlast
    refine ⟨k, _, by rw [← Nat.zero_add k, ← hcount]; exact hsteps, hother,
      hcount.trans (Nat.zero_add k), ⟨hsame.ip, hsame.dp, hsame.tape⟩, ?_⟩
    show m₀.core.flushed.taken = _
    rw [htaken, ← hemitted]
    rfl

/-- **Execution is causal.** A run on `p` that ends for another reason than the end of its input is
the same on `p ++ more`. A run on `p` that ends at the end of its input has done what the run on
`p ++ more` has done after the instructions that were completed, and its output is the first part of
what that run writes. -/
theorem outcome_causal (more : Bytes)
    (h : (o.fedBy (.ofBytes p)).outcome c rounds = (.stopped why, m)) :
    (why ≠ .inputEnded → ∃ input requests,
      (o.fedBy (.ofBytes (p ++ more))).outcome c rounds =
        (.stopped why, m.withInput input requests)) ∧
    (why = .inputEnded → ∃ k m', m.steps = k + 1 ∧
      (o.fedBy (.ofBytes (p ++ more))).machine.runFor
        ((o.fedBy (.ofBytes (p ++ more))).setup c) k = (m', none) ∧
      m'.steps = k ∧ m.core.Agrees m'.core ∧
      m.core.taken = (o.fedBy (.ofBytes (p ++ more))).written c k ∧
      (∀ n, k ≤ n → m.core.taken <+: (o.fedBy (.ofBytes (p ++ more))).written c n) ∧
      ∀ n why' m'', o.sink.capacity = none →
        (o.fedBy (.ofBytes (p ++ more))).outcome c n = (.stopped why', m'') →
        m.core.taken <+: m''.core.taken) := by
  let a := o.fedBy (.ofBytes p)
  let b := o.fedBy (.ofBytes (p ++ more))
  constructor
  · intro hne
    rw [outcome_eq, Prod.mk.injEq] at h
    have hgoes : ∀ fault, (a.machine.runFor (a.setup c) rounds).2 ≠ some (.starved fault) := by
      intro fault hstarved
      have hrun : a.machine.runFor (a.setup c) rounds = (_, some (.starved fault)) :=
        Prod.ext rfl hstarved
      obtain ⟨rfl, -⟩ := Machine.runFor_starved a.machine_dp (o.machine_extended p more) #[] hrun
      have hend := h.1
      rw [Machine.run_of_stopped hrun (Stop.starved_ne_finished none)] at hend
      cases hend
      exact hne rfl
    obtain ⟨input, requests, hrun⟩ :=
      Machine.run_fed a.machine_dp (o.machine_extended p more) #[] hgoes
    refine ⟨input, requests, ?_⟩
    rw [← h.1, ← h.2]
    exact outcome_of_run (o := b) hrun
  · rintro rfl
    obtain ⟨k, m', hsteps, hrun, hcount, hsame, htaken⟩ := outcome_wanting more h
    have hprefix : ∀ n, k ≤ n → m.core.taken <+: b.written c n := by
      intro n hn
      rw [htaken]
      exact (List.prefix_append_right_inj _).2 (Machine.emitted_prefix hn)
    refine ⟨k, m', hsteps, hrun, hcount, hsame, htaken, hprefix, ?_⟩
    intro n why' m'' hcapacity hend
    rw [outcome_eq, Prod.mk.injEq] at hend
    obtain ⟨-, hall⟩ := Machine.run_delivers (b.setup c) n b.machine_kept
    obtain ⟨hwritten, -⟩ := hall why' (Ending.ofStop?_eq_stopped.1 hend.1) (.inr hcapacity)
      (max n k) (Nat.le_max_left n k)
    rw [← hend.2, hwritten]
    exact hprefix _ (Nat.le_max_right n k)

/-- Two bytes are read into two cells: the run on one byte ends at the second `READ`, and the run on
both of them is the same with a third behind them. -/
theorem outcome_causal_reads : ∃ (c : Code) (o : Options Unit) (m m' m₂ : Machine Unit)
    (input : Reader) (requests : Array Nat),
    (o.fedBy (.ofBytes [7])).outcome c 4 = (.stopped .inputEnded, m) ∧ m.steps = 3 ∧
      (o.fedBy (.ofBytes [7, 8])).machine.runFor ((o.fedBy (.ofBytes [7, 8])).setup c) 2 =
        (m', none) ∧
      m.core.Agrees m'.core ∧
      (o.fedBy (.ofBytes [7, 8])).outcome c 4 = (.stopped .finished, m₂) ∧
      m.core.taken <+: m₂.core.taken ∧
      (o.fedBy (.ofBytes [7, 8, 9])).outcome c 4 =
        (.stopped .finished, m₂.withInput input requests) := by
  let c : Code := { instructions := #[.read, .addPointer 1, .read, .finish] }
  let o : Options Unit := { watch := () }
  obtain ⟨m, hone, hsteps⟩ : ∃ m, (o.fedBy (.ofBytes [7])).outcome c 4 =
      (.stopped .inputEnded, m) ∧ m.steps = 3 := ⟨_, rfl, rfl⟩
  obtain ⟨m₂, htwo⟩ : ∃ m, (o.fedBy (.ofBytes [7, 8])).outcome c 4 =
      (.stopped .finished, m) := ⟨_, rfl⟩
  obtain ⟨k, m', hcount, hrun, -, hsame, -, -, hpart⟩ := (outcome_causal [8] hone).2 rfl
  obtain rfl : k = 2 := by omega
  obtain ⟨input, requests, hthree⟩ := (outcome_causal [9] htwo).1 nofun
  exact ⟨c, o, m, m', m₂, input, requests, hone, hsteps, hrun, hsame, htwo,
    hpart 4 _ m₂ rfl htwo, hthree⟩

end Options

end Tapelang
