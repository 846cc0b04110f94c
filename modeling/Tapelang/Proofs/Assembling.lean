import Tapelang.Proofs.Lexing
import Tapelang.Proofs.LoopNest

/-!
# What the compiler builds

An assembly that has taken some commands holds a nest of loops that expands to these commands, with
the open loops pending (`Builds`). Each command keeps that (`Builds.add`): it lengthens the last
run, adds a tree, opens a loop or closes the innermost one. So compiled code is loop trees and an `END`,
its expansion is the commands of the text, and no instruction in it stands for nothing
(`compileBytes_trees`).
-/

namespace Tapelang

open LoopTree

/-! ## Runs of commands -/

/-- The operation of a command that is folded into runs, and the most of them in one instruction. -/
def Command.run? : Command → Option (Opcode × Nat)
  | .increment => some (.addByte, maxRunLength)
  | .decrement => some (.subByte, maxRunLength)
  | .right => some (.addPointer, maxPointerDelta)
  | .left => some (.subPointer, maxPointerDelta)
  | _ => none

theorem Command.capacity?_run {c : Command} {o : Opcode} {most : Nat}
    (h : c.run? = some (o, most)) : o.capacity? = some most ∧ 0 < most := by
  cases c <;> cases h <;> exact ⟨rfl, by decide⟩

theorem Command.commands_run {c : Command} {o : Opcode} {most : Nat}
    (h : c.run? = some (o, most)) (n : Nat) :
    (Instruction.of o n).commands = List.replicate n c := by
  cases c <;> cases h <;> rfl

/-- A command that is folded extends the code. -/
theorem Assembly.add_run (a : Assembly) {c : Command} {o : Opcode} {most : Nat}
    (h : c.run? = some (o, most)) (p : Position) : a.add c p = a.extend o most p := by
  cases c <;> cases h <;> rfl

/-- A tree whose instruction is of a folded operation is a run of it. -/
theorem LoopTree.eq_run {tree : LoopTree} {i : Instruction} {o : Opcode} {most : Nat}
    (h : tree.instruction? = some i) (ho : i.opcode? = some o) (hc : o.capacity? = some most) :
    ∃ n ≤ most, tree = run o n ∧ i = .of o n := by
  cases tree with
  | addByte n | subByte n | addPointer n | subPointer n =>
    cases h
    cases ho
    cases hc
    exact ⟨n.toNat, Nat.le_of_lt_succ n.toNat_lt, by simp [run], rfl⟩
  | write | read =>
    cases h
    cases ho
    cases hc
  | loop body => cases h

/-- If the last instruction of a nest is of a folded operation, the last tree is a run of it. -/
theorem Nest.last_run {n : Nest} {last : Instruction} {o : Opcode} {most : Nat}
    (hl : n.layout.getLast? = some last) (ho : last.opcode? = some o)
    (hc : o.capacity? = some most) :
    ∃ n' count, n = push n' (run o count) ∧ count ≤ most ∧ last = .of o count := by
  rcases n with ⟨level, outer⟩
  have hkind : o.operandKind ≠ .target := by cases o <;> cases hc <;> decide
  rcases List.eq_nil_or_concat level with rfl | ⟨init, tree, rfl⟩
  · -- nothing stands behind the jump of the innermost loop
    cases outer with
    | nil => simp [Nest.layout, Nest.layoutOuter, flattenAll] at hl
    | cons loop outer =>
      obtain ⟨trees, target⟩ := loop
      simp only [Nest.layout, Nest.layoutOuter, flattenAll, List.append_nil,
        List.getLast?_concat, Option.some.injEq] at hl
      subst hl
      cases ho
      exact absurd rfl hkind
  · rw [List.concat_eq_append] at hl ⊢
    have hp : (⟨init ++ [tree], outer⟩ : Nest) = (⟨init, outer⟩ : Nest).push tree := rfl
    rw [hp, Nest.layout_push] at hl
    cases hi : tree.instruction? with
    | some i =>
      rw [flatten_instruction hi, List.getLast?_concat, Option.some.injEq] at hl
      subst hl
      obtain ⟨count, hle, ht, hlast⟩ := eq_run hi ho hc
      exact ⟨⟨init, outer⟩, count, by rw [hp, ht], hle, hlast⟩
    | none =>
      cases tree with
      | loop body =>
        rw [flatten_loop, ← List.cons_append, ← List.append_assoc, List.getLast?_concat,
          Option.some.injEq] at hl
        subst hl
        cases ho
        exact absurd rfl hkind
      | _ => cases hi

/-! ## Commands -/

/-- The assembly has taken `commands`: it holds the instructions of a nest that expand to them, and
the open loops of the nest are pending. -/
structure Builds (a : Assembly) (n : Nest) (commands : List Command) : Prop where
  code : a.instructions.toList = n.layout
  pending : a.pending.map (·.index) = (Nest.openLoops n.outer).map (·.index)
  spelled : expand n.layout = commands
  filled : ∀ i ∈ n.layout, i.capacity?.isSome → 1 ≤ i.operand

theorem Builds.start : Builds {} {} [] :=
  ⟨rfl, rfl, rfl, fun i hi => by simp [Nest.layout, Nest.layoutOuter, flattenAll] at hi⟩

section
variable {a : Assembly} {n : Nest} {commands : List Command}

theorem Builds.size (h : Builds a n commands) : a.instructions.size = n.layout.length := by
  rw [← h.code, Array.length_toList]

/-- An instruction that makes a tree of its own is added. -/
theorem Builds.emit (h : Builds a n commands) (tree : LoopTree) {i : Instruction} {c : Command}
    (hi : tree.instruction? = some i) (hc : i.commands = [c])
    (hf : i.capacity?.isSome → 1 ≤ i.operand) (p : Position) :
    Builds (a.emit i p) (n.push tree) (commands ++ [c]) := by
  have hl : (n.push tree).layout = n.layout ++ [i] := by
    rw [Nest.layout_push, flatten_instruction hi]
  refine ⟨?_, h.pending, ?_, ?_⟩
  · rw [hl, ← h.code]
    exact Array.toList_push
  · rw [hl, expand_append, h.spelled, expand_cons, hc]
    rfl
  · rw [hl]
    intro j hj
    rcases List.mem_append.1 hj with hj | hj
    · exact h.filled j hj
    · rw [List.mem_singleton.1 hj]
      exact hf

/-- The last run is lengthened by one command. -/
theorem Builds.lengthen {count most : Nat} {o : Opcode} {c : Command}
    (h : Builds a (n.push (run o count)) commands) (hc : c.run? = some (o, most))
    (hlt : count < most) :
    Builds { a with instructions := a.instructions.pop.push (.of o (count + 1)) }
      (n.push (run o (count + 1))) (commands ++ [c]) := by
  obtain ⟨hcap, -⟩ := Command.capacity?_run hc
  have hl : ∀ k ≤ most, (n.push (run o k)).layout = n.layout ++ [.of o k] := fun k hk => by
    rw [Nest.layout_push, flatten_instruction (instruction?_run hcap hk)]
  have hold := hl count (Nat.le_of_lt hlt)
  have hnew := hl (count + 1) hlt
  refine ⟨?_, h.pending, ?_, ?_⟩
  · have hcode := h.code
    rw [hold] at hcode
    rw [Array.toList_push, Array.toList_pop, hcode, List.dropLast_concat, hnew]
    rfl
  · rw [← h.spelled, hold, hnew, expand_append, expand_append, List.append_assoc]
    simp only [expand_cons, expand_nil, List.append_nil]
    rw [Command.commands_run hc, Command.commands_run hc, List.replicate_succ']
  · intro j hj
    rw [hnew] at hj
    rcases List.mem_append.1 hj with hj | hj
    · exact h.filled j (by rw [hold]; exact List.mem_append_left _ hj)
    · rw [List.mem_singleton.1 hj]
      intro _
      simp only [Instruction.of]
      omega

/-- A command that is folded lengthens the last run or begins a new one. -/
theorem Builds.extend (h : Builds a n commands) {c : Command} {o : Opcode} {most : Nat}
    (hc : c.run? = some (o, most)) (p : Position) :
    ∃ n', Builds (a.extend o most p) n' (commands ++ [c]) := by
  obtain ⟨hcap, hpos⟩ := Command.capacity?_run hc
  have hnew : Builds (a.emit (.of o 1) p) (n.push (run o 1)) (commands ++ [c]) :=
    h.emit _ (instruction?_run hcap hpos) (Command.commands_run hc 1) (fun _ => Int.le_refl _) p
  unfold Assembly.extend
  split
  · rename_i last hback
    split
    · rename_i hroom
      have hlast : n.layout.getLast? = some last := by
        rw [← h.code, Array.getLast?_toList, hback]
      obtain ⟨n', count, rfl, -, rfl⟩ :=
        Nest.last_run hlast (Instruction.opcode?_of_code hroom.1) hcap
      have hlt : (count : Int) < most := hroom.2
      exact ⟨_, h.lengthen hc (by omega)⟩
    · exact ⟨_, hnew⟩
  · exact ⟨_, hnew⟩

/-- A `[` opens a loop. -/
theorem Builds.openLoop (h : Builds a n commands) (p : Position) :
    Builds (a.openLoop p) (n.enter 0) (commands ++ [.loopOpen]) := by
  refine ⟨?_, ?_, ?_, ?_⟩
  · rw [Nest.layout_enter, ← h.code]
    exact Array.toList_push
  · rw [Nest.openLoops_enter, List.map_cons, ← h.pending, ← h.size]
    rfl
  · rw [Nest.layout_enter, expand_append, h.spelled]
    rfl
  · rw [Nest.layout_enter]
    intro j hj
    rcases List.mem_append.1 hj with hj | hj
    · exact h.filled j hj
    · rw [List.mem_singleton.1 hj]
      intro hcap
      cases hcap

/-- A `]` closes the innermost loop. -/
theorem Builds.closeLoop (h : Builds a n commands) (hp : a.pending ≠ []) (p : Position) :
    ∃ n', Builds (a.closeLoop p) n' (commands ++ [.loopClose]) := by
  rcases a with ⟨instructions, locations, pending⟩
  rcases n with ⟨level, outer⟩
  obtain ⟨hcode, hpending, hspelled, hfilled⟩ := h
  cases pending with
  | nil => exact absurd rfl hp
  | cons loop rest =>
    cases outer with
    | nil => simp [Nest.openLoops] at hpending
    | cons level' outer =>
      obtain ⟨trees, target⟩ := level'
      simp only [Nest.openLoops, List.map_cons, List.cons.injEq] at hpending
      obtain ⟨hstart, hrest⟩ := hpending
      obtain ⟨before, after, hlen, hsplit⟩ := Nest.layout_split level trees outer
      rw [hsplit] at hcode hspelled hfilled
      have hsize : instructions.size = (before ++ .jumpIfZero target :: after).length := by
        rw [← hcode, Array.length_toList]
      -- the jump is patched to lead behind the `]`
      have hlayout : (⟨trees ++ [.loop level], outer⟩ : Nest).layout =
          before ++ .jumpIfZero (instructions.size + 1 : Nat) :: after ++ [.jump loop.index] := by
        rw [Nest.layout_leave (instructions.size + 1 : Nat) (by simp [hsplit, hsize]),
          hsplit, hstart]
      refine ⟨⟨trees ++ [.loop level], outer⟩, ?_, hrest, ?_, ?_⟩
      · rw [hlayout]
        simp only [Assembly.closeLoop, Assembly.emit, Array.toList_push,
          Array.toList_setIfInBounds]
        rw [hcode, hstart, ← hlen, List.set_append_right _ _ (Nat.le_refl _), Nat.sub_self,
          List.set_cons_zero]
      · rw [hlayout, ← hspelled]
        simp [expand_append, expand_cons]
      · rw [hlayout]
        intro j hj hcap
        simp only [List.append_assoc, List.cons_append, List.mem_append, List.mem_cons,
          List.not_mem_nil, or_false] at hj
        rcases hj with hj | rfl | hj | rfl
        · exact hfilled j (List.mem_append_left _ hj) hcap
        · cases hcap
        · exact hfilled j (List.mem_append_right _ (List.mem_cons_of_mem _ hj)) hcap
        · cases hcap

/-- **A command that is not rejected** is added to what the assembly builds. -/
theorem Builds.add (h : Builds a n commands) {c : Command} (hr : a.rejects c = false)
    (p : Position) : ∃ n', Builds (a.add c p) n' (commands ++ [c]) := by
  cases hc : c.run? with
  | some run =>
    obtain ⟨o, most⟩ := run
    rw [a.add_run hc]
    exact h.extend hc p
  | none =>
    cases c with
    | output => exact ⟨_, h.emit .write rfl rfl (fun hcap => by cases hcap) p⟩
    | input => exact ⟨_, h.emit .read rfl rfl (fun hcap => by cases hcap) p⟩
    | loopOpen => exact ⟨_, h.openLoop p⟩
    | loopClose => exact h.closeLoop (by simpa [Assembly.rejects] using hr) p
    | increment | decrement | right | left => cases hc

end

/-! ## Whole texts -/

/-- What a compiled text is: loop trees and an `END`, which expand to `commands`, and no instruction
stands for nothing. -/
structure IsCompiled (code : List Instruction) (commands : List Command) (trees : List LoopTree) :
    Prop where
  code : code = flattenAll 0 trees ++ [.finish]
  spelled : expand (flattenAll 0 trees) = commands
  filled : ∀ i ∈ flattenAll 0 trees, i.capacity?.isSome → 1 ≤ i.operand

/-- Assembling sites adds their commands. -/
theorem Builds.assembleSites {filename text : Bytes} {list : List (Command × Nat)}
    {a a' : Assembly} {n : Nest} {commands : List Command} {p : Position}
    (h : Builds a n commands)
    (hok : Compiler.assembleSites filename text none a list = (a', .ok p)) :
    ∃ trees, IsCompiled a'.instructions.toList (commands ++ list.map (·.1)) trees := by
  induction list generalizing a n commands with
  | nil =>
    simp only [Compiler.assembleSites, Compiler.endAssembly] at hok
    split at hok
    · cases hok
    · rename_i hout
      cases hok
      have hnil : a.pending = [] := by simpa [Assembly.outermost?] using hout
      rcases n with ⟨level, outer⟩
      cases outer with
      | cons loop outer =>
        have := h.pending
        simp [hnil, Nest.openLoops] at this
      | nil =>
        have hl : (⟨level, []⟩ : Nest).layout = flattenAll 0 level := by
          simp [Nest.layout, Nest.layoutOuter]
        obtain ⟨hcode, -, hspelled, hfilled⟩ := h
        rw [hl] at hcode hspelled hfilled
        refine ⟨level, ?_, by simpa using hspelled, hfilled⟩
        rw [← hcode]
        exact Array.toList_push
  | cons site rest ih =>
    obtain ⟨c, k⟩ := site
    rw [Compiler.assembleSites] at hok
    split at hok
    · cases hok
    · rename_i hr
      obtain ⟨n', h'⟩ := h.add (by simpa using hr) (.ofOffset text k)
      simpa using ih h' hok

/-- **Compiled code** is loop trees and an `END`, and it spells out the commands of the text. -/
theorem compileBytes_trees {naming : Naming} {text : Bytes} {code : Code}
    (h : compileBytes naming text = .ok code) :
    ∃ trees, IsCompiled code.instructions.toList (commandsOf text) trees := by
  rw [compileBytes_eq] at h
  rcases hs : Compiler.assembleSites naming.filename text none {} (sites text) with ⟨a, r⟩
  rw [hs] at h
  cases r with
  | error e => cases h
  | ok p =>
    cases h
    have hb := Builds.start.assembleSites hs
    rwa [List.nil_append, map_fst_sites] at hb

end Tapelang
