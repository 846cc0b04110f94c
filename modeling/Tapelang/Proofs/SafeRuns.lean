import Tapelang.Proofs.Executing
import Tapelang.Proofs.ValidCode

/-!
# Runs of valid code

Valid code bounds every run: a jump leads to the beginning of its loop or behind its end, every
other instruction has a next one, and the `END` is never passed (`Code.IsValid.goesOn`). So the
instruction pointer stays in the code and the data pointer on the tape (`Machine.Inside`), round by
round (`Machine.step_inside`) and for whole runs (`Machine.runFor_inside`), whatever the input, the
sink, the limits, the context and the observer are.
-/

namespace Tapelang

open LoopTree

/-! ## Where instructions lead -/

/-- The instruction at a spot; a jump leads into the code or right behind it. -/
theorem LoopTree.Spot.get {code : List Instruction} {k : Nat} (h : Spot code k)
    (hk : k < code.length) :
    (∃ tree i, instruction? tree = some i ∧ code[k]? = some i) ∨
      ∃ target : Nat, target ≤ code.length ∧
        (code[k]? = some (.jumpIfZero target) ∨ code[k]? = some (.jump target)) := by
  cases h with
  | leaf tree i after hi hcode => exact .inl ⟨tree, i, hi, getElem?_split hcode hk⟩
  | enter body after hcode =>
    have hlen := congrArg List.length hcode
    rw [flatten_loop] at hcode hlen
    simp only [List.length_append, List.length_cons, List.length_take, List.length_nil] at hlen
    rw [List.append_assoc, List.cons_append] at hcode
    exact .inr ⟨_, by omega, .inl (getElem?_split hcode hk)⟩
  | leave start body after hcode hstart hlast =>
    rw [hlast]
    exact .inr ⟨start, hstart, .inr (getElem?_loop_end hcode hstart)⟩

namespace Code

/-- What valid code says about the instruction at `k`. -/
structure GoesOn (c : Code) (k : Nat) (i : Instruction) : Prop where
  next : k + 1 < c.size
  known : ∃ o, i.opcode? = some o ∧ o ≠ .finish
  target : i.kind = .target → ∃ target : Nat, i.operand = target ∧ target < c.size

theorem shownOperand_of_target {i : Instruction} (h : i.kind = .target) :
    i.shown.operand = i.operand := by
  simp [Instruction.shown, Instruction.shownOperand, h]

/-- **Every instruction but `END` leads to another one**, and the `END` is the last. -/
theorem IsValid.goesOn {c : Code} (h : c.IsValid) {k : Nat} {i : Instruction}
    (hi : c.instructions[k]? = some i) :
    (i.code = Opcode.finish.toByte ∧ k + 1 = c.size) ∨
      (i.code ≠ Opcode.finish.toByte ∧ c.GoesOn k i) := by
  obtain ⟨trees, ht⟩ := h.trees
  have hsize : c.size = (flattenAll 0 trees).length + 1 := by
    have := congrArg List.length ht
    simpa [Code.size] using this
  have hget : (flattenAll 0 trees ++ [.finish])[k]? = some i.shown := by
    rw [← ht]
    simp [hi]
  have hlt : k < (flattenAll 0 trees).length + 1 := by
    have := (List.getElem?_eq_some_iff.1 hget).1
    simpa using this
  by_cases hk : k < (flattenAll 0 trees).length
  · rw [List.getElem?_append_left hk] at hget
    refine .inr ?_
    rcases (spot_flattenAll trees hk).get hk with ⟨tree, j, hj, hget'⟩ | ⟨target, hle, hget'⟩
    · rw [hget, Option.some.injEq] at hget'
      subst hget'
      obtain ⟨o, ho, hkind, hf⟩ := opcode?_instruction hj
      rw [Instruction.opcode?_shown] at ho
      refine ⟨Instruction.code_ne_finish ho hf, by omega, ⟨o, ho, hf⟩, fun hkt => ?_⟩
      rw [Instruction.kind_of_opcode? ho] at hkt
      exact absurd hkt hkind
    · -- both jumps have their target as operand
      obtain ⟨o, ho, hf, hop⟩ : ∃ o, i.opcode? = some o ∧ o ≠ .finish ∧
          i.shown.operand = target := by
        rw [hget] at hget'
        rw [← Instruction.opcode?_shown]
        rcases hget' with he | he <;> rw [Option.some.injEq] at he <;> rw [he]
        · exact ⟨.jumpIfZero, Instruction.opcode?_of _ _, by decide, rfl⟩
        · exact ⟨.jump, Instruction.opcode?_of _ _, by decide, rfl⟩
      refine ⟨Instruction.code_ne_finish ho hf, by omega, ⟨o, ho, hf⟩,
        fun hkt => ⟨target, ?_, by omega⟩⟩
      rw [← shownOperand_of_target hkt, hop]
  · obtain rfl : k = (flattenAll 0 trees).length := by omega
    rw [List.getElem?_append_right (Nat.le_refl _), Nat.sub_self] at hget
    have hs : Instruction.finish = i.shown := by simpa using hget
    exact .inl ⟨congrArg Instruction.code hs.symm, hsize.symm⟩

end Code

/-! ## Rounds -/

namespace Machine

variable {σ : Type}

/-- The instruction pointer is in the code and the data pointer on the tape. -/
def Inside (c : Code) (core : Core) : Prop :=
  ∃ k : Nat, core.ip = k ∧ k < c.size ∧ core.dp < tapeSize

/-- The observer breaks down at the instruction that is reached. -/
def BreaksDown (s : Setup σ) (m : Machine σ) (value : Bytes) : Prop :=
  ∃ observer i cell, s.observer = some observer ∧ s.code.instructionAt m.core.ip = .ok i ∧
    m.core.cell = .ok cell ∧
    (observer.notify m.watch
      { ip := m.core.ip, code := i.code, location := s.code.locationAt m.core.ip,
        dp := m.core.dp, cell }).2.verdict = .breakDown value

/-- The ways in which a round of valid code can end a run: `m` is the machine before the round, and
`core` is what the round leaves. -/
inductive SafeStop (s : Setup σ) (m : Machine σ) (core : Core) : Stop → Prop
  | finished : core.ip + 1 = s.code.size → SafeStop s m core .finished
  /-- The program finished and its last output could not be written. -/
  | finalFlush {why : WriteFault} : core.ip + 1 = s.code.size → SafeStop s m core (.output why)
  | refused {i : Instruction} {o : Opcode} {stop : Stop} : i.opcode? = some o →
      Core.Refusal i stop → SafeStop s m core stop
  | stepLimit {limit : Int} : SafeStop s m core (.stepLimit limit)
  | interrupted {why : Interruption} : SafeStop s m core (.interrupted why)
  | halted : SafeStop s m core .halted
  | brokenDown {value : Bytes} : BreaksDown s m value → SafeStop s m core (.brokenDown value)

/-- The observer sees the machine as it is and leaves its core alone. -/
theorem observe_safe {s : Setup σ} {m₀ m m' : Machine σ} {i : Instruction} (core : Core)
    {stop? : Option Stop} (h : m.observe s i = (m', stop?)) (hcore : m.core = m₀.core)
    (hwatch : m.watch = m₀.watch) (hdp : m₀.core.dp < tapeSize)
    (hi : s.code.instructionAt m₀.core.ip = .ok i) :
    m'.core = m₀.core ∧ ∀ stop, stop? = some stop → SafeStop s m₀ core stop := by
  unfold observe at h
  rw [hcore, hwatch] at h
  split at h
  · cases h
    exact ⟨hcore, fun _ h => by cases h⟩
  · rename_i observer ho
    rw [Core.cell_ok hdp] at h
    simp only at h
    split at h <;> cases h
    · exact ⟨rfl, fun _ h => by cases h⟩
    · refine ⟨rfl, fun _ h => ?_⟩
      cases h
      exact .halted
    · rename_i value hv
      refine ⟨rfl, fun _ h => ?_⟩
      cases h
      exact .brokenDown ⟨observer, i, _, ho, hi, Core.cell_ok hdp, hv⟩

/-- An instruction of valid code leads to another one, or is refused where it stands. -/
theorem dispatch_safe {s : Setup σ} {m m₀ : Machine σ} {i : Instruction} {k : Nat}
    (hip : m.core.ip = k) (hdp : m.core.dp < tapeSize) (hgo : s.code.GoesOn k i) :
    Inside s.code (m.dispatch i).1.core ∧
      ∀ stop, (m.dispatch i).2 = some stop → SafeStop s m₀ (m.dispatch i).1.core stop := by
  obtain ⟨o, ho, hf⟩ := hgo.known
  have he := Core.execute_effect (Instruction.code_ne_finish ho hf) hdp
  unfold dispatch
  generalize m.core.execute i = result at he ⊢
  cases he with
  | next hj hnext hdp' =>
    exact ⟨⟨k + 1, by simp [hnext, hip], hgo.next, hdp'⟩, fun _ h => by cases h⟩
  | jumped hj hjump hdp' =>
    have hkind : i.kind = .target := by
      rcases hj with hj | hj <;> rw [Instruction.kind_of_opcode? hj] <;> rfl
    obtain ⟨target, hop, hlt⟩ := hgo.target hkind
    exact ⟨⟨target, by simp [hjump, hop], hlt, hdp'⟩, fun _ h => by cases h⟩
  | refused hr hsame =>
    have := hgo.next
    refine ⟨⟨k, hsame.ip.trans hip, by omega, hsame.dp ▸ hdp⟩, fun _ h => ?_⟩
    cases h
    exact .refused ho hr

/-- **One round of valid code** stays inside, and ends a run in a safe way only. -/
theorem step_inside {s : Setup σ} {m : Machine σ} (hv : s.code.IsValid)
    (h : Inside s.code m.core) :
    Inside s.code (m.step s).1.core ∧
      ∀ stop, (m.step s).2 = some stop → SafeStop s m (m.step s).1.core stop := by
  obtain ⟨k, hip, hk, hdp⟩ := h
  have hstay : ∀ core : Core, core = m.core → Inside s.code core := by
    rintro core rfl
    exact ⟨k, hip, hk, hdp⟩
  have hr := round s m
  generalize m.step s = result at hr ⊢
  cases hr with
  | outside hout => omega
  | finished hat hf =>
    refine ⟨hstay _ rfl, fun _ h => ?_⟩
    cases h
    rcases hv.goesOn hat.2 with ⟨-, hlast⟩ | ⟨hne, -⟩
    · exact .finished (by rw [hat.1]; omega)
    · exact absurd hf hne
  | interrupted hat hf hc =>
    have hcore := (m.checkContext_core s.checkInterval).1
    rw [hc] at hcore
    refine ⟨hstay _ hcore, fun _ h => ?_⟩
    cases h
    exact .interrupted
  | limited hat hf hc =>
    have hcore := (m.checkContext_core s.checkInterval).1
    rw [hc] at hcore
    refine ⟨hstay _ hcore, fun _ h => ?_⟩
    cases h
    exact .stepLimit
  | @observed _ _ m₁ m₂ stop hat hf hc _ ho =>
    obtain ⟨hcore, hwatch⟩ := m.checkContext_core s.checkInterval
    rw [hc] at hcore hwatch
    obtain ⟨hcore₂, hstop⟩ := observe_safe m₂.core ho hcore hwatch hdp hat.instructionAt
    exact ⟨hstay _ hcore₂, hstop⟩
  | @dispatched k' _ m₁ m₂ hat hf hc _ ho =>
    obtain ⟨hcore, hwatch⟩ := m.checkContext_core s.checkInterval
    rw [hc] at hcore hwatch
    obtain ⟨hcore₂, -⟩ := observe_safe m₂.core ho hcore hwatch hdp hat.instructionAt
    rcases hv.goesOn hat.2 with ⟨hfin, -⟩ | ⟨-, hgo⟩
    · exact absurd hfin hf
    · exact dispatch_safe (by rw [hcore₂]; exact hat.1) (by rw [hcore₂]; exact hdp) hgo

/-! ## Runs -/

/-- **Every run of valid code** stays inside, and if it ends, its last round ended it in a safe
way. -/
theorem runFor_inside {s : Setup σ} (hv : s.code.IsValid) (rounds : Nat) {m : Machine σ}
    (h : Inside s.code m.core) :
    Inside s.code (m.runFor s rounds).1.core ∧
      ∀ stop, (m.runFor s rounds).2 = some stop →
        ∃ before m', before < rounds ∧ m.runFor s before = (m', none) ∧
          SafeStop s m' (m.runFor s rounds).1.core stop := by
  induction rounds generalizing m with
  | zero => exact ⟨h, fun _ h => by cases h⟩
  | succ rounds ih =>
    obtain ⟨hin, hsafe⟩ := step_inside hv h
    rcases hs : m.step s with ⟨m₁, stop?⟩
    rw [hs] at hin hsafe
    cases stop? with
    | some stop =>
      have hr : m.runFor s (rounds + 1) = (m₁, some stop) := by rw [runFor, hs]
      rw [hr]
      exact ⟨hin, fun _ h => ⟨0, m, Nat.succ_pos _, rfl, hsafe _ h⟩⟩
    | none =>
      have hr : ∀ n, m.runFor s (n + 1) = m₁.runFor s n := fun n => by rw [runFor, hs]
      rw [hr]
      obtain ⟨hin', hsafe'⟩ := ih hin
      refine ⟨hin', fun stop hstop => ?_⟩
      obtain ⟨before, m', hlt, hbefore, hss⟩ := hsafe' stop hstop
      exact ⟨before + 1, m', Nat.succ_lt_succ hlt, by rw [hr]; exact hbefore, hss⟩

/-- Ending a run keeps the way in which it ended safe. -/
theorem SafeStop.close {s : Setup σ} {m₀ m : Machine σ} {stop : Stop}
    (h : SafeStop s m₀ m.core stop) :
    SafeStop s m₀ (m.close stop).1.core (m.close stop).2 := by
  obtain ⟨hip, -, heq | ⟨rfl, why, heq⟩⟩ := m.close_eq stop
  · rw [heq]
    cases h with
    | finished hlast => exact .finished (by rw [hip]; exact hlast)
    | finalFlush hlast => exact .finalFlush (by rw [hip]; exact hlast)
    | refused ho hr => exact .refused ho hr
    | stepLimit => exact .stepLimit
    | interrupted => exact .interrupted
    | halted => exact .halted
    | brokenDown hb => exact .brokenDown hb
  · rw [heq]
    cases h with
    | finished hlast => exact .finalFlush (by rw [hip]; exact hlast)
    | refused _ hr => cases hr

end Machine

/-! ## What a run returns -/

/-- The code of a failure, if it is a reported one. -/
def Failure.code? (f : Failure) : Option Bytes := f.ownReport?.map Report.code

/-- The code of the failure that a call to run ended with. -/
def Ending.code? (e : Ending) : Option Bytes := e.toFailure?.bind Failure.code?

/-- The stops with the code E3004. -/
theorem Ending.stop_of_E3004 {stop : Stop}
    (h : (Ending.stopped stop).code? = some (utf8 "E3004")) :
    (∃ ip, stop = .instructionPointer ip) ∨ ∃ code, stop = .unknownOpcode code := by
  cases stop with
  | instructionPointer ip => exact .inl ⟨ip, rfl⟩
  | unknownOpcode code => exact .inr ⟨code, rfl⟩
  | finished | interrupted why => cases h
  | _ =>
    have h := Option.some.inj h
    simp only at h
    exact absurd h (by decide)

/-- The stops with the code E3007. -/
theorem Ending.stop_of_E3007 {stop : Stop}
    (h : (Ending.stopped stop).code? = some (utf8 "E3007")) :
    (∃ value, stop = .brokenDown value) ∨ ∃ what, stop = .faulted what := by
  cases stop with
  | brokenDown value => exact .inl ⟨value, rfl⟩
  | faulted what => exact .inr ⟨what, rfl⟩
  | finished | interrupted why => cases h
  | _ =>
    have h := Option.some.inj h
    simp only at h
    exact absurd h (by decide)

/-- The machine before a run is inside valid code. -/
theorem Code.IsValid.inside_machine {σ : Type} {c : Code} (h : c.IsValid) (o : Options σ) :
    Machine.Inside c o.machine.core := by
  obtain ⟨trees, ht⟩ := h.trees
  have hsize := congrArg List.length ht
  simp only [List.length_map, Array.length_toList, List.length_append, List.length_singleton]
    at hsize
  exact ⟨0, rfl, by unfold Code.size; omega, by simp [Options.machine, tapeSize]⟩

/-- **Valid code cannot break the machine**: at every point of every run the instruction pointer is
in the code and the data pointer on the tape; no run ends with E3004, one ends with E3007 only
because the observer broke down, and one that ends without a failure ends at the `END`. -/
theorem Engine.run_valid {σ : Type} {c : Code} (h : c.IsValid) (o : Options σ) (rounds : Nat)
    {ending : Ending} {e : Engine σ} (hr : (Engine.new (some c) o).run rounds = (ending, e)) :
    (0 ≤ e.machine.core.ip ∧ e.machine.core.ip < c.size) ∧ e.machine.core.dp < tapeSize ∧
      ending.code? ≠ some (utf8 "E3004") ∧
      (ending.code? = some (utf8 "E3007") →
        ∃ before m value, before < rounds ∧ o.machine.runFor (o.setup c) before = (m, none) ∧
          m.BreaksDown (o.setup c) value ∧ ending = .stopped (.brokenDown value)) ∧
      (∀ why, ending = .stopped why → why.toFailure? = none →
        e.machine.core.ip = c.size - 1) := by
  obtain ⟨⟨k, hip, hk, hdp⟩, hstop⟩ :=
    Machine.runFor_inside (s := o.setup c) h rounds (h.inside_machine o)
  have hk : k < c.size := hk
  simp only [Engine.run, Engine.new, Option.map_some, Machine.run] at hr
  rcases hf : o.machine.runFor (o.setup c) rounds with ⟨m, stop?⟩
  rw [hf] at hip hdp hstop hr
  cases stop? with
  | none =>
    cases hr
    simp only at hip hdp ⊢
    refine ⟨by omega, hdp, fun he => ?_, fun he => ?_, fun _ he => ?_⟩ <;> cases he
  | some stop =>
    obtain ⟨before, m', hlt, hbefore, hsafe⟩ := hstop stop rfl
    have hsafe := hsafe.close
    obtain ⟨hip', hdp', -⟩ := m.close_eq stop
    simp only at hr hip hdp
    cases hr
    simp only [hip', hdp']
    refine ⟨by omega, hdp, fun he => ?_, fun he => ?_, fun why hw hn => ?_⟩
    · rcases Ending.stop_of_E3004 he with ⟨ip, hx⟩ | ⟨code, hx⟩
      · rw [hx] at hsafe
        cases hsafe with
        | refused _ hr => cases hr
      · rw [hx] at hsafe
        cases hsafe with
        | refused ho hr =>
          cases hr with
          | unknownOpcode hnone => simp [ho] at hnone
    · rcases Ending.stop_of_E3007 he with ⟨value, hx⟩ | ⟨what, hx⟩
      · rw [hx] at hsafe ⊢
        cases hsafe with
        | refused _ hr => cases hr
        | brokenDown hb => exact ⟨before, m', value, hlt, hbefore, hb, rfl⟩
      · rw [hx] at hsafe
        cases hsafe with
        | refused _ hr => cases hr
    · cases hw
      have hx : (m.close stop).2 = .finished := by
        generalize (m.close stop).2 = stop' at hn
        cases stop' <;> first | rfl | cases hn
      rw [hx] at hsafe
      cases hsafe with
      | refused _ hr => cases hr
      | finished hlast =>
        have hlast : (m.close stop).1.core.ip + 1 = c.size := hlast
        omega

/-- A loop that counts the cell down to 0: both jumps are taken, and the run ends at the `END`. -/
theorem Engine.run_valid_loop : ∃ (c : Code) (e : Engine Unit), c.IsValid ∧
    c.instructions[1]? = some (.jumpIfZero 4) ∧ c.instructions[3]? = some (.jump 1) ∧
    (Engine.new (some c) { watch := () }).run 9 = (.stopped .finished, e) ∧
      e.machine.core.dp < tapeSize ∧ e.machine.core.ip = 4 := by
  let c : Code :=
    { instructions := #[.addByte 2, .jumpIfZero 4, .subByte 1, .jump 1, .finish] }
  let start : Engine Unit := .new (some c) { watch := () }
  have hv : c.IsValid := by decide
  have hend : (start.run 9).1 = .stopped .finished := by decide +kernel
  obtain ⟨e, he⟩ : ∃ e, e = (start.run 9).2 := ⟨_, rfl⟩
  have hr : start.run 9 = (.stopped .finished, e) := Prod.ext hend he.symm
  obtain ⟨-, hdp, -, -, hlast⟩ := Engine.run_valid hv { watch := () } 9 hr
  exact ⟨c, e, hv, rfl, rfl, hr, hdp, hlast .finished rfl rfl⟩

end Tapelang
