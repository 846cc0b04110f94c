import Mathlib.Algebra.Order.Floor.Div
import Tapelang.Proofs.Events

/-!
# The calls on the sink

An outlet holds bytes back, so the calls made on its sink follow from the points where it is flushed:
before every `READ` and at the end of a run. The instructions dispatched in a run
(`Machine.dispatched`) are cut at these points, and each stretch has calls of its own (`portions`).

* `Outlet.put_holds`, `Outlet.flush_holds`: what the buffer and the calls are after so many bytes.
* `Core.execute_holds`: the same after one more instruction.
* `Machine.runFor_calls`: the calls of a run.
* `Options.outcome_calls`: the calls of a whole run are those of its stretches, in order.
-/

namespace Tapelang

/-! ## Stretches and portions -/

/-- The sizes of the calls in which `w` bytes are sent: full ones, then one with what remains. -/
def portions (w : Nat) : List Nat :=
  List.replicate (w / bufferSize) bufferSize ++
    if w % bufferSize = 0 then [] else [w % bufferSize]

/-- The number of bytes written in each stretch of `trace` between two `READ`s. -/
def stretches (trace : List Instruction) : List Nat :=
  (trace.splitOnP (·.opcode? = some .read)).map (·.countP (·.opcode? = some .write))

/-- Calls of these sizes send `w` bytes: as few as there can be, and all of them full but the last. -/
structure IsPortioning (w : Nat) (sizes : List Nat) : Prop where
  length : sizes.length = w ⌈/⌉ bufferSize
  sum : sizes.sum = w
  full : ∀ n ∈ sizes.dropLast, n = bufferSize
  last : ∀ n ∈ sizes.getLast?, 1 ≤ n ∧ n ≤ bufferSize

@[simp] theorem portions_zero : portions 0 = [] := rfl

/-- A full last call is one of the full ones. -/
theorem portions_eq {q r : Nat} (hpos : 0 < r) (hle : r ≤ bufferSize) :
    portions (q * bufferSize + r) = List.replicate q bufferSize ++ [r] := by
  unfold portions
  rcases Nat.lt_or_eq_of_le hle with hlt | rfl
  · have hdiv : (q * bufferSize + r) / bufferSize = q := by
      unfold bufferSize at *
      omega
    have hmod : (q * bufferSize + r) % bufferSize = r := by
      unfold bufferSize at *
      omega
    rw [hdiv, hmod, if_neg (by omega)]
  · have hdiv : (q * bufferSize + bufferSize) / bufferSize = q + 1 := by
      unfold bufferSize
      omega
    have hmod : (q * bufferSize + bufferSize) % bufferSize = 0 := by
      unfold bufferSize
      omega
    rw [hdiv, hmod, if_pos rfl, List.append_nil, List.replicate_succ']

example : portions 8192 = [4096, 4096] ∧ portions 8193 = [4096, 4096, 1] := by decide

theorem portions_isPortioning (w : Nat) : IsPortioning w (portions w) := by
  rcases Nat.eq_zero_or_pos w with rfl | hpos
  · exact ⟨by simp, rfl, nofun, nofun⟩
  · obtain ⟨q, r, hr, hle, rfl⟩ :
        ∃ q r, 0 < r ∧ r ≤ bufferSize ∧ w = q * bufferSize + r := by
      refine ⟨(w - 1) / bufferSize, (w - 1) % bufferSize + 1, by omega, ?_, ?_⟩ <;>
        unfold bufferSize <;> omega
    rw [portions_eq hr hle]
    refine ⟨?_, by simp, ?_, ?_⟩
    · rw [Nat.ceilDiv_eq_add_pred_div, List.length_append, List.length_replicate,
        List.length_singleton]
      unfold bufferSize at *
      omega
    · rw [List.dropLast_concat]
      exact fun n hn => List.eq_of_mem_replicate hn
    · intro n hn
      obtain rfl : r = n := by simpa using hn
      exact ⟨hr, hle⟩

/-- The calls on a sink once `trace` has been carried out and the outlet has been flushed, after the
calls `before` and with `w` bytes written since then. -/
def callsAfter (before : List Nat) (w : Nat) (trace : List Instruction) : List Nat :=
  before ++ ((stretches trace).modifyHead (w + ·)).flatMap portions

section

variable {i : Instruction} {before : List Nat} {w : Nat} (rest : List Instruction)

@[simp] theorem callsAfter_nil : callsAfter before w [] = before ++ portions w := by
  simp [callsAfter, stretches]

theorem callsAfter_zero :
    callsAfter before 0 rest = before ++ (stretches rest).flatMap portions := by
  have hsame : (stretches rest).modifyHead (0 + ·) = stretches rest := by
    simp only [Nat.zero_add]
    exact congrFun List.modifyHead_id _
  rw [callsAfter, hsame]

theorem callsAfter_read (h : i.opcode? = some .read) :
    callsAfter before w (i :: rest) = callsAfter (before ++ portions w) 0 rest := by
  have hcut : stretches (i :: rest) = 0 :: stretches rest := by
    simp [stretches, List.splitOnP_cons_eq_if_modifyHead, h]
  rw [callsAfter_zero, callsAfter, hcut, List.modifyHead_cons, List.flatMap_cons,
    Nat.add_zero, List.append_assoc]

theorem callsAfter_cons (hr : i.opcode? ≠ some .read) :
    callsAfter before w (i :: rest) =
      callsAfter before (w + if i.opcode? = some .write then 1 else 0) rest := by
  obtain ⟨first, more, hsplit⟩ := List.exists_cons_of_ne_nil
    (List.splitOnP_ne_nil (fun i : Instruction => decide (i.opcode? = some .read)) rest)
  by_cases hw : i.opcode? = some .write
  · simp [callsAfter, stretches, List.splitOnP_cons_eq_if_modifyHead, hw, hsplit, Nat.add_assoc,
      Nat.add_comm 1]
  · simp [callsAfter, stretches, List.splitOnP_cons_eq_if_modifyHead, hr, hw, hsplit]

end

/-! ## Outlets -/

namespace Outlet

/-- After the calls `before`, `w` bytes have been put into the outlet: full buffers have been sent,
and the rest is held back, which is nothing only if `w` is 0. -/
structure Holds (o : Outlet) (before : List Nat) (w : Nat) : Prop where
  endless : o.IsEndless
  fits : o.buffer.size ≤ bufferSize
  sent : ∃ q, o.sink.calls.toList = before ++ List.replicate q bufferSize ∧
    w = q * bufferSize + o.buffer.size ∧ (o.buffer.size = 0 → q = 0)

variable {o : Outlet} {before : List Nat} {w : Nat}

theorem flush_holds (h : o.Holds before w) :
    ∃ o', o.flush = (o', none) ∧ o'.Holds (before ++ portions w) 0 := by
  obtain ⟨q, hcalls, rfl, hq⟩ := h.sent
  by_cases he : o.buffer.isEmpty = true
  · have hsize : o.buffer.size = 0 := by simpa using he
    rw [flush, if_neg (by simp [h.endless.1]), if_pos he]
    refine ⟨o, rfl, h.endless, h.fits, 0, ?_, ?_, fun _ => rfl⟩
    · rw [hcalls, hq hsize, hsize]
      simp
    · omega
  · have hsize : 0 < o.buffer.size := by
      rw [Array.isEmpty_iff_size_eq_zero] at he
      omega
    rw [flush_send h.endless he]
    refine ⟨_, rfl, h.endless, Nat.zero_le _, 0, ?_, rfl, fun _ => rfl⟩
    rw [portions_eq hsize h.fits]
    simp [hcalls]

/-- A full buffer is sent when the next byte comes, not before. -/
theorem put_holds (h : o.Holds before w) (b : UInt8) :
    ∃ o', o.put b = (o', none) ∧ o'.Holds before (w + 1) := by
  obtain ⟨q, hcalls, rfl, hq⟩ := h.sent
  unfold put
  rw [if_neg (by simp [h.endless.1])]
  split
  · rename_i hroom
    refine ⟨_, rfl, h.endless, ?_, q, hcalls, ?_, ?_⟩
    · rw [Array.size_push]
      exact hroom
    · rw [Array.size_push, Nat.add_assoc]
    · simp
  · rename_i hroom
    have hfull : o.buffer.size = bufferSize := Nat.le_antisymm h.fits (Nat.le_of_not_lt hroom)
    have hne : ¬ o.buffer.isEmpty = true := by
      rw [Array.isEmpty_iff_size_eq_zero, hfull]
      decide
    rw [flush_send h.endless hne]
    refine ⟨_, rfl, h.endless, by simp [bufferSize], q + 1, ?_, ?_, by simp⟩
    · simp [hcalls, hfull, List.replicate_succ']
    · rw [Array.size_push, hfull, Array.size_empty, Nat.succ_mul]

end Outlet

/-! ## Instructions -/

/-- **One more instruction** leaves the calls of a run as they were to be. -/
theorem Core.execute_holds {c : Core} {before : List Nat} {w : Nat} (i : Instruction)
    (hdp : c.dp < tapeSize) (h : c.output.Holds before w) :
    ∃ before' w', (c.execute i).1.output.Holds before' w' ∧
      ∀ rest, callsAfter before w (i :: rest) = callsAfter before' w' rest := by
  by_cases hr : i.opcode? = some .read
  · obtain ⟨o, hflush, hholds⟩ := Outlet.flush_holds h
    have hout : c.read.1.output = o := by
      simp only [read, hflush]
      split
      · rw [if_pos hdp]
        rfl
      · rfl
      · rfl
    refine ⟨before ++ portions w, 0, ?_, fun rest => callsAfter_read rest hr⟩
    rwa [execute_read hr, hout]
  · refine ⟨before, _, ?_, fun rest => callsAfter_cons rest hr⟩
    by_cases hw : i.opcode? = some .write
    · obtain ⟨o, hput, hholds⟩ := Outlet.put_holds h (c.tape.get ⟨c.dp, hdp⟩)
      rw [execute_write hw hdp, write, hput, if_pos hw]
      exact hholds
    · obtain ⟨-, hout, -, -⟩ := execute_quiet (c := c) hw hr
      rwa [hout, if_neg hw]

theorem Core.flushed_calls {before : List Nat} {w : Nat} {c : Core} (h : c.output.Holds before w) :
    c.flushed.output.sink.calls.toList = before ++ portions w := by
  obtain ⟨o, hflush, hholds⟩ := Outlet.flush_holds h
  obtain ⟨q, hcalls, hsize, -⟩ := hholds.sent
  have hq : q = 0 := by
    unfold bufferSize at hsize
    omega
  rw [flushed, hflush, hcalls, hq, List.replicate_zero, List.append_nil]

/-! ## Rounds -/

namespace Machine

variable {σ : Type} {s : Setup σ} {m : Machine σ} {i : Instruction}

/-- The instruction that the round dispatches; none if the round ends the run before. -/
def dispatched? (s : Setup σ) (m : Machine σ) : Option Instruction :=
  match s.code.instructionAt m.core.ip with
  | .error _ => none
  | .ok i =>
    match (m.step s).2 with
    | none => some i
    | some stop => if Core.Refusal i stop then some i else none

theorem Dispatches.step_eq (h : m.Dispatches s i) :
    ∃ m₂ : Machine σ, m₂.core = m.core ∧ m.step s = m₂.dispatch i := by
  obtain ⟨k, m₁, m₂, hr, hf, hc, hl, ho⟩ := h
  exact ⟨m₂, (observed_core hc ho).1, Round.step_eq (.dispatched hr hf hc hl ho)⟩

theorem Dispatches.dispatched?_eq (hdp : m.core.dp < tapeSize) (h : m.Dispatches s i) :
    m.dispatched? s = some i := by
  obtain ⟨m₂, hcore, hstep⟩ := h.step_eq
  obtain ⟨k, -, -, hr, hf, -⟩ := h
  simp only [dispatched?, hr.instructionAt, hstep, dispatch, hcore]
  rcases hex : m.core.execute i with ⟨c', _ | stop⟩
  · rfl
  · obtain ⟨-, hrefusal⟩ := Core.execute_refused hdp hf hex
    exact if_pos hrefusal

theorem dispatched?_of_stop {m' : Machine σ} {stop : Stop} (h : m.step s = (m', some stop))
    (hstop : ∀ i, ¬ Core.Refusal i stop) : m.dispatched? s = none := by
  unfold dispatched?
  split
  · rfl
  · simp [h, hstop]

/-- A round that dispatches no instruction ends the run and leaves the core alone. -/
theorem dispatches_or_ends (s : Setup σ) (hdp : m.core.dp < tapeSize) :
    (∃ i, m.Dispatches s i) ∨
      m.dispatched? s = none ∧ ∃ m' stop, m.step s = (m', some stop) ∧ m'.core = m.core := by
  have hround := m.round s
  generalize hs : m.step s = result at hround
  cases hround with
  | outside | finished => exact .inr ⟨dispatched?_of_stop hs nofun, _, _, rfl, rfl⟩
  | interrupted _ _ hc | limited _ _ hc =>
    exact .inr ⟨dispatched?_of_stop hs nofun, _, _, rfl, (checked_core hc).1⟩
  | observed _ _ hc _ ho =>
    refine .inr ⟨dispatched?_of_stop hs ?_, _, _, rfl, (observed_core hc ho).1⟩
    rcases (observed_exit m.core hdp hc ho).2 with rfl | ⟨value, rfl⟩ <;> nofun
  | dispatched hr hf hc hl ho => exact .inl ⟨_, _, _, _, hr, hf, hc, hl, ho⟩

/-- **The result of a round tells** whether it has come as far as carrying out an instruction. -/
theorem dispatched?_eq_some_iff (hdp : m.core.dp < tapeSize) :
    m.dispatched? s = some i ↔ m.Dispatches s i := by
  refine ⟨?_, Dispatches.dispatched?_eq hdp⟩
  intro h
  rcases dispatches_or_ends s hdp with ⟨j, hj⟩ | ⟨hnone, -⟩
  · rw [hj.dispatched?_eq hdp] at h
    cases h
    exact hj
  · rw [hnone] at h
    cases h

/-! ## Runs -/

/-- The instructions dispatched in the next `rounds` rounds, as far as the run goes on. -/
def dispatched (s : Setup σ) : (rounds : Nat) → Machine σ → List Instruction
  | 0, _ => []
  | rounds + 1, m =>
    (m.dispatched? s).toList ++
      match m.step s with
      | (m', none) => dispatched s rounds m'
      | (_, some _) => []

/-- **The calls of a run**, once its outlet has been flushed. -/
theorem runFor_calls {before : List Nat} {w : Nat} (s : Setup σ) (rounds : Nat)
    (hdp : m.core.dp < tapeSize) (h : m.core.output.Holds before w) :
    (m.runFor s rounds).1.core.flushed.output.sink.calls.toList =
      callsAfter before w (m.dispatched s rounds) := by
  -- the calls so far and the bytes written since the last flush change along the run
  induction rounds generalizing m before w with
  | zero => rw [dispatched, callsAfter_nil, runFor, Core.flushed_calls h]
  | succ rounds ih =>
    have hnext := step_dp s hdp
    rw [runFor, dispatched]
    rcases dispatches_or_ends s hdp with ⟨i, hi⟩ | ⟨hnone, m', stop, hstep, hcore⟩
    · obtain ⟨m₂, hcore, hstep⟩ := hi.step_eq
      obtain ⟨before', w', hholds, hcalls⟩ := Core.execute_holds i hdp h
      rw [hi.dispatched?_eq hdp, Option.toList_some, List.singleton_append, hcalls]
      rw [hstep, dispatch, hcore] at hnext
      rw [hstep, dispatch, hcore]
      rcases hex : m.core.execute i with ⟨c', _ | stop⟩
      · rw [hex] at hnext hholds
        exact ih hnext hholds
      · rw [hex] at hholds
        rw [callsAfter_nil]
        exact Core.flushed_calls hholds
    · rw [hnone, hstep]
      simp only [Option.toList_none, List.append_nil, callsAfter_nil, hcore]
      exact Core.flushed_calls h

end Machine

namespace Options

variable {σ : Type}

/-- The instructions dispatched in the first `rounds` rounds of a run of `c`. -/
def dispatched (o : Options σ) (c : Code) (rounds : Nat) : List Instruction :=
  o.machine.dispatched (o.setup c) rounds

/-- **The calls on a sink that never refuses** follow from the points where the output is flushed. Cut
at every `READ` that is dispatched and at the end of the run, the instructions fall into stretches. The
calls of a run are those of its stretches, in order: as few as there can be for the bytes written in
the stretch, and all of them full but the last. -/
theorem outcome_calls {o : Options σ} {c : Code} {rounds : Nat} {why : Stop} {m : Machine σ}
    (hs : o.sink.capacity = none) (h : o.outcome c rounds = (.stopped why, m)) :
    m.core.output.sink.calls.toList =
        o.sink.calls.toList ++ (stretches (o.dispatched c rounds)).flatMap portions ∧
      portions 0 = [] ∧ (∀ w, IsPortioning w (portions w)) ∧
      ∀ n m', o.machine.runFor (o.setup c) n = (m', none) →
        ∀ i, m'.dispatched? (o.setup c) = some i ↔ m'.Dispatches (o.setup c) i := by
  refine ⟨?_, portions_zero, portions_isPortioning, ?_⟩
  · have hholds : o.machine.core.output.Holds o.sink.calls.toList 0 :=
      ⟨⟨rfl, hs⟩, Nat.zero_le _, 0, by simp [machine], rfl, fun _ => rfl⟩
    have hcalls := Machine.runFor_calls (o.setup c) rounds o.machine_dp hholds
    obtain ⟨m₁, stop, hrun, -, rfl⟩ := outcome_stopped h
    rwa [hrun, callsAfter_zero] at hcalls
  · intro n m' hn i
    exact Machine.dispatched?_eq_some_iff (Machine.runFor_dp o.machine_dp hn)

/-- Two bytes are written, and a `READ` meets the end of the input: they are sent in one call, and the
stretch behind the `READ` is empty. -/
theorem outcome_calls_read : ∃ (c : Code) (o : Options Unit) (m : Machine Unit),
    o.sink.capacity = none ∧ o.outcome c 3 = (.stopped .inputEnded, m) ∧
      stretches (o.dispatched c 3) = [2, 0] ∧ m.core.output.sink.calls.toList = [2] := by
  let c : Code := { instructions := #[.write, .write, .read, .finish] }
  let o : Options Unit := { watch := () }
  have hend : (o.outcome c 3).1 = .stopped .inputEnded ∧ stretches (o.dispatched c 3) = [2, 0] := by
    decide +kernel
  obtain ⟨m, hm⟩ : ∃ m, m = (o.outcome c 3).2 := ⟨_, rfl⟩
  have hout : o.outcome c 3 = (.stopped .inputEnded, m) := Prod.ext hend.1 hm.symm
  obtain ⟨hcalls, -⟩ := outcome_calls (o := o) rfl hout
  refine ⟨c, o, m, rfl, hout, hend.2, ?_⟩
  rw [hcalls, hend.2]
  rfl

end Options

end Tapelang
