import Tapelang.Interpreter
import Tapelang.Proofs.LoopNest

/-!
# Runs of the language itself

* `Interpreter.runFor_add`, `Interpreter.runFor_halted`: runs can be cut anywhere, and one that has
  ended stays as it is. So how a program ends does not depend on the bound (`runFor_unique`).
* `Interpreter.runFor_increment` and its kin: what a row of equal commands does.
* `Nested.loopLength?`: to find the end of a loop one may pass over anything whose brackets match,
  in both directions, and what instructions stand for is always such (`nested_flattenAll`). So the
  partner of a bracket is the other end of its loop (`loopExit?_eq`, `loopEntry?_eq`).
-/

namespace Tapelang

namespace Interpreter

variable {program : List Command} {s s' : Interpreter} {n m : Nat}

/-! ## Cutting runs -/

theorem runFor_add (h : s.runFor program n = (s', none)) (m : Nat) :
    s.runFor program (n + m) = s'.runFor program m := by
  induction n generalizing s with
  | zero =>
    cases h
    rw [Nat.zero_add]
  | succ n ih =>
    rw [Nat.succ_add, runFor]
    rw [runFor] at h
    rcases hs : s.step program with ⟨s₁, halt?⟩
    rw [hs] at h
    cases halt? with
    | none => exact ih h
    | some halt => cases h

/-- A run that has ended stays as it is. -/
theorem runFor_halted {halt : Halt} (h : s.runFor program n = (s', some halt)) (hm : n ≤ m) :
    s.runFor program m = (s', some halt) := by
  induction n generalizing s m with
  | zero => cases h
  | succ n ih =>
    obtain ⟨m, rfl⟩ : ∃ k, m = k + 1 := ⟨m - 1, by omega⟩
    rw [runFor] at h ⊢
    rcases hs : s.step program with ⟨s₁, halt?⟩
    rw [hs] at h
    cases halt? with
    | none => exact ih h (by omega)
    | some halt => exact h

/-- How a program ends does not depend on the bound. -/
theorem runFor_unique {s₁ s₂ : Interpreter} {halt₁ halt₂ : Halt}
    (h₁ : s.runFor program n = (s₁, some halt₁)) (h₂ : s.runFor program m = (s₂, some halt₂)) :
    s₁ = s₂ ∧ halt₁ = halt₂ := by
  have h₁' := runFor_halted h₁ (Nat.le_max_left n m)
  have h₂' := runFor_halted h₂ (Nat.le_max_right n m)
  rw [h₁'] at h₂'
  cases h₂'
  exact ⟨rfl, rfl⟩

theorem runFor_one (h : s.step program = (s', none)) : s.runFor program 1 = (s', none) := by
  rw [runFor, h]
  rfl

theorem runFor_halt {halt : Halt} {s₁ : Interpreter} (h : s.runFor program n = (s₁, none))
    (hs : s₁.step program = (s', some halt)) : s.runFor program (n + 1) = (s', some halt) := by
  rw [runFor_add h, runFor, hs]

theorem step_command {c : Command} (h : program[s.pc]? = some c) :
    s.step program = s.carryOut program c := by
  rw [step, h]

/-! ## What a step leaves alone -/

/-- Commands only add to the output. -/
theorem output_step : s.output <+: (s.step program).1.output := by
  unfold step
  split
  · exact List.prefix_rfl
  · rename_i c _
    cases c with
    | increment | decrement => exact List.prefix_rfl
    | output => exact List.prefix_append _ _
    | right | left | input | loopOpen | loopClose =>
      simp only [carryOut]
      repeat' split
      all_goals exact List.prefix_rfl

theorem output_runFor (n : Nat) (s : Interpreter) : s.output <+: (s.runFor program n).1.output := by
  induction n generalizing s with
  | zero => exact List.prefix_rfl
  | succ n ih =>
    have ho : s.output <+: (s.step program).1.output := output_step
    rw [runFor]
    rcases hs : s.step program with ⟨s₁, halt?⟩
    rw [hs] at ho
    cases halt? with
    | none => exact ho.trans (ih s₁)
    | some halt => exact ho

/-- A longer run has at least the output of a shorter one. -/
theorem output_mono (program : List Command) (s : Interpreter) (h : n ≤ m) :
    (s.runFor program n).1.output <+: (s.runFor program m).1.output := by
  rcases hn : s.runFor program n with ⟨s', halt?⟩
  cases halt? with
  | none =>
    obtain ⟨k, rfl⟩ := Nat.exists_eq_add_of_le h
    rw [runFor_add hn]
    exact output_runFor k s'
  | some halt =>
    have hm : (s.runFor program m).1.output = s'.output := by rw [runFor_halted hn h]
    exact ⟨[], by simp [hm]⟩

/-! ## Rows of equal commands -/

/-- The next `n` commands are all `c`. -/
def Row (program : List Command) (pc n : Nat) (c : Command) : Prop :=
  ∀ d < n, program[pc + d]? = some c

theorem Row.head {pc n : Nat} {c : Command} (h : Row program pc (n + 1) c) :
    program[pc]? = some c := h 0 (Nat.succ_pos n)

theorem Row.tail {pc n : Nat} {c : Command} (h : Row program pc (n + 1) c) :
    Row program (pc + 1) n c := by
  intro d hd
  rw [Nat.add_assoc, Nat.add_comm 1 d]
  exact h (d + 1) (Nat.succ_lt_succ hd)

theorem Row.of_le {pc : Nat} {c : Command} (h : Row program pc n c) (hm : m ≤ n) :
    Row program pc m c := fun d hd => h d (Nat.lt_of_lt_of_le hd hm)

theorem row_replicate (before : List Command) (n : Nat) (c : Command) (after : List Command) :
    Row (before ++ (List.replicate n c ++ after)) before.length n c := by
  intro d hd
  rw [List.getElem?_append_right (Nat.le_add_right _ _), Nat.add_sub_cancel_left,
    List.getElem?_append_left (by simpa using hd), List.getElem?_replicate, if_pos hd]

/-- The state with another current cell, `n` commands on. -/
def stored (s : Interpreter) (n : Nat) (value : UInt8) : Interpreter :=
  { s.store value with pc := s.pc + n }

theorem cell_stored (s : Interpreter) (n : Nat) (value : UInt8) :
    (s.stored n value).cell = value := by
  have hg : (s.stored n value).cell = (s.tape.set s.dp value)[s.dp.val] := rfl
  rw [hg, Vector.getElem_set_self]

theorem stored_stored (s : Interpreter) (n m : Nat) (v w : UInt8) :
    (s.stored n v).stored m w = s.stored (n + m) w := by
  simp [stored, store, Nat.add_assoc, Vector.set]

theorem stored_cell (s : Interpreter) : s.stored 0 s.cell = s := by
  simp [stored, store, cell, Vector.get]

theorem runFor_increment (h : Row program s.pc n .increment) :
    s.runFor program n = (s.stored n (s.cell + UInt8.ofNat n), none) := by
  induction n generalizing s with
  | zero =>
    rw [show s.cell + UInt8.ofNat 0 = s.cell by simp, stored_cell]
    rfl
  | succ n ih =>
    have hs : s.step program = (s.stored 1 (s.cell + 1), none) := step_command h.head
    have hi := ih (s := s.stored 1 (s.cell + 1)) h.tail
    rw [cell_stored, stored_stored, UInt8.add_assoc, Nat.add_comm 1 n] at hi
    rw [runFor, hs, UInt8.ofNat_add, UInt8.add_comm (UInt8.ofNat n)]
    exact hi

theorem runFor_decrement (h : Row program s.pc n .decrement) :
    s.runFor program n = (s.stored n (s.cell - UInt8.ofNat n), none) := by
  induction n generalizing s with
  | zero =>
    rw [show s.cell - UInt8.ofNat 0 = s.cell by simp, stored_cell]
    rfl
  | succ n ih =>
    have hs : s.step program = (s.stored 1 (s.cell - 1), none) := step_command h.head
    have hi := ih (s := s.stored 1 (s.cell - 1)) h.tail
    rw [cell_stored, stored_stored, Nat.add_comm 1 n] at hi
    have hc : s.cell - 1 - UInt8.ofNat n = s.cell - (UInt8.ofNat n + UInt8.ofNat 1) := by
      rw [UInt8.sub_eq_add_neg _ (_ + _), UInt8.neg_add, UInt8.sub_eq_add_neg, UInt8.sub_eq_add_neg,
        UInt8.sub_eq_add_neg, UInt8.add_assoc, UInt8.add_comm (-UInt8.ofNat n)]
      rfl
    rw [runFor, hs, UInt8.ofNat_add, ← hc]
    exact hi

/-- The state with the data pointer at `dp`, `n` commands on. -/
def moved (s : Interpreter) (n : Nat) (dp : Fin tapeSize) : Interpreter :=
  { s with dp, pc := s.pc + n }

theorem runFor_right (h : Row program s.pc n .right) (hdp : s.dp.val + n < tapeSize) :
    s.runFor program n = (s.moved n ⟨s.dp.val + n, hdp⟩, none) := by
  induction n generalizing s with
  | zero => rfl
  | succ n ih =>
    have hs : s.step program = (s.moved 1 ⟨s.dp.val + 1, by omega⟩, none) := by
      rw [step_command h.head, carryOut, dif_pos (by omega)]
      rfl
    have hi := ih (s := s.moved 1 ⟨s.dp.val + 1, by omega⟩) h.tail (by simp only [moved]; omega)
    simp only [moved, Nat.add_assoc, Nat.add_comm 1 n] at hi
    rw [runFor, hs]
    exact hi

theorem runFor_left (h : Row program s.pc n .left) (hdp : n ≤ s.dp.val) :
    s.runFor program n = (s.moved n ⟨s.dp.val - n, by omega⟩, none) := by
  induction n generalizing s with
  | zero => rfl
  | succ n ih =>
    have hs : s.step program = (s.moved 1 ⟨s.dp.val - 1, by omega⟩, none) := by
      rw [step_command h.head, carryOut, if_neg (by omega)]
      rfl
    have hi := ih (s := s.moved 1 ⟨s.dp.val - 1, by omega⟩) h.tail (by simp only [moved]; omega)
    simp only [moved, Nat.add_assoc, Nat.add_comm 1 n, Nat.sub_sub] at hi
    rw [runFor, hs]
    exact hi

end Interpreter

/-! ## Brackets that match -/

/-- Commands whose brackets match. -/
inductive Nested : List Command → Prop
  | nil : Nested []
  | plain {c : Command} : c ≠ .loopOpen → c ≠ .loopClose → Nested [c]
  | append {cs ds : List Command} : Nested cs → Nested ds → Nested (cs ++ ds)
  | loop {cs : List Command} : Nested cs → Nested (.loopOpen :: (cs ++ [.loopClose]))

namespace Nested

theorem replicate {c : Command} (ho : c ≠ .loopOpen) (hc : c ≠ .loopClose) (n : Nat) :
    Nested (List.replicate n c) := by
  induction n with
  | zero => exact .nil
  | succ n ih => exact .append (.plain ho hc) ih

/-- Read backwards, with the brackets exchanged, they match as well. -/
theorem reverse {cs : List Command} (h : Nested cs) :
    Nested (cs.reverse.map Command.swapped) := by
  induction h with
  | nil => exact .nil
  | @plain c ho hc =>
    have hs : c.swapped = c := by cases c <;> simp_all [Command.swapped]
    rw [List.reverse_singleton, List.map_singleton, hs]
    exact .plain ho hc
  | append _ _ ihc ihd =>
    rw [List.reverse_append, List.map_append]
    exact .append ihd ihc
  | loop _ ih =>
    rw [List.reverse_cons, List.reverse_append, List.map_append, List.map_append]
    exact .loop ih

/-- **The end of a loop** is looked for behind commands whose brackets match. -/
theorem loopLength? {cs : List Command} (h : Nested cs) (depth : Nat) (rest : List Command) :
    Tapelang.loopLength? depth (cs ++ rest) =
      (Tapelang.loopLength? depth rest).map (· + cs.length) := by
  induction h generalizing depth rest with
  | nil => simp
  | @plain c ho hc => cases c <;> simp_all [Tapelang.loopLength?]
  | append _ _ ihc ihd =>
    rw [List.append_assoc, ihc, ihd, Option.map_map, List.length_append]
    congr 1
    funext n
    simp only [Function.comp_apply]
    omega
  | loop _ ih =>
    rw [List.cons_append, List.append_assoc, Tapelang.loopLength?, ih, List.singleton_append,
      Tapelang.loopLength?, Option.map_map, Option.map_map]
    congr 1
    funext n
    simp only [Function.comp_apply, List.length_cons, List.length_append, List.length_nil]
    omega

end Nested

section

variable {before body after : List Command}

theorem loopExit?_eq (h : Nested body) :
    loopExit? (before ++ .loopOpen :: (body ++ .loopClose :: after)) before.length =
      some (before.length + body.length + 2) := by
  rw [loopExit?, List.drop_append, List.drop_of_length_le (Nat.le_succ _), List.nil_append,
    Nat.add_sub_cancel_left, List.drop_succ_cons, List.drop_zero, h.loopLength?, loopLength?]
  simp only [Option.map_some, Option.some.injEq]
  omega

theorem loopEntry?_eq (h : Nested body) :
    loopEntry? (before ++ .loopOpen :: (body ++ .loopClose :: after))
      (before.length + body.length + 1) = some before.length := by
  have htake : (before ++ .loopOpen :: (body ++ .loopClose :: after)).take
      (before.length + body.length + 1) = before ++ .loopOpen :: body := by
    rw [Nat.add_assoc, List.take_length_add_append, List.take_succ_cons, List.take_left]
  rw [ loopEntry?, htake, List.reverse_append, List.reverse_cons, List.append_assoc,
    List.map_append, h.reverse.loopLength?, List.singleton_append, List.map_cons, Command.swapped,
    loopLength?]
  simp only [Option.map_some, Option.some.injEq, List.length_map, List.length_reverse]
  omega

end

/-! ## What instructions stand for -/

namespace LoopTree

theorem nested_instruction (tree : LoopTree) {i : Instruction} (h : tree.instruction? = some i) :
    Nested i.commands := by
  cases tree <;> cases h
  case write | read => exact .plain (by decide) (by decide)
  all_goals exact .replicate (by decide) (by decide) _

theorem expand_flatten_loop (index : Nat) (body : List LoopTree) :
    expand (flatten index (loop body)) =
      .loopOpen :: (expand (flattenAll (index + 1) body) ++ [.loopClose]) := by
  rw [flatten_loop, expand_cons, expand_append, expand_cons]
  rfl

mutual

theorem nested_flatten : ∀ (tree : LoopTree) (index : Nat), Nested (expand (flatten index tree))
  | loop body, index => by
    rw [expand_flatten_loop]
    exact .loop (nested_flattenAll body (index + 1))
  | addByte n, _ => .append (nested_instruction (addByte n) rfl) .nil
  | subByte n, _ => .append (nested_instruction (subByte n) rfl) .nil
  | addPointer n, _ => .append (nested_instruction (addPointer n) rfl) .nil
  | subPointer n, _ => .append (nested_instruction (subPointer n) rfl) .nil
  | write, _ => .append (nested_instruction write rfl) .nil
  | read, _ => .append (nested_instruction read rfl) .nil

/-- **The commands that loop trees stand for** have brackets that match. -/
theorem nested_flattenAll : ∀ (trees : List LoopTree) (index : Nat),
    Nested (expand (flattenAll index trees))
  | [], _ => .nil
  | tree :: rest, index => by
    rw [flattenAll_cons, expand_append]
    exact .append (nested_flatten tree index) (nested_flattenAll rest _)

end

end LoopTree

end Tapelang
