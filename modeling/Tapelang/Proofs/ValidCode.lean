import Tapelang.Proofs.LoopNest

/-!
# What valid code is

`Code.validate` walks over the instructions with a stack of open loops. Read as a `Nest`, the stack
says that what has been checked is nested loops (`Code.checkFrom_trees`), so valid code is a list of
loop trees and an `END` (`Code.IsValid.trees`), up to operands that mean nothing
(`Instruction.shown`).
-/

namespace Tapelang

namespace Code

/-! ## The checks -/

/-- What passes the check of one instruction: a tree of its own, the `END`, the beginning of a loop
or the end of the innermost one. -/
inductive Checked (i : Instruction) (index : Nat) (isLast : Bool) (loops : List OpenLoop) :
    List OpenLoop → Prop
  | leaf (tree : LoopTree) : tree.instruction? = some i.shown → Checked i index isLast loops loops
  | finish : i.shown = .finish → isLast = true → Checked i index isLast loops loops
  | enter {target : Int} : i.shown = .jumpIfZero target →
      Checked i index isLast loops (⟨index, target⟩ :: loops)
  | leave (start : Nat) {outer : List OpenLoop} : i.shown = .jump start →
      loops = ⟨start, (index + 1 : Nat)⟩ :: outer → Checked i index isLast loops outer

theorem checkWidth_ok {most : Nat} {operand : Int} {d : Defect}
    (h : checkWidth most operand d = .ok ()) : ∃ n : Nat, operand = n ∧ n ≤ most := by
  unfold checkWidth at h
  split at h
  · exact ⟨operand.toNat, by omega, by omega⟩
  · cases h

/-- An operand that fits its width makes a tree. -/
theorem Checked.run {i : Instruction} {index : Nat} {isLast : Bool} {loops loops' : List OpenLoop}
    {o : Opcode} {most : Nat} {d : Defect} (ho : i.opcode? = some o)
    (hc : o.capacity? = some most)
    (h : (do checkWidth most i.operand d; return loops) = Except.ok loops') :
    Checked i index isLast loops loops' := by
  cases hw : checkWidth most i.operand d with
  | error e =>
    rw [hw] at h
    cases h
  | ok u =>
    rw [hw] at h
    cases h
    obtain ⟨n, hn, hle⟩ := checkWidth_ok hw
    have hk : o.operandKind ≠ .none := by cases o <;> cases hc <;> decide
    refine .leaf (.run o n) ?_
    rw [LoopTree.instruction?_run hc hle, Instruction.shown_eq ho, if_neg hk, hn]

/-- **An instruction that passes its check** keeps the code a nest of loops. -/
theorem checkInstruction_ok {i : Instruction} {index : Nat} {isLast : Bool}
    {loops loops' : List OpenLoop} (h : checkInstruction i index isLast loops = .ok loops') :
    Checked i index isLast loops loops' := by
  cases ho : i.opcode? with
  | none => simp [checkInstruction, ho] at h
  | some o =>
    simp only [checkInstruction, ho] at h
    cases o with
    | addByte | subByte | addPointer | subPointer => exact .run ho rfl h
    | write =>
      cases h
      exact .leaf .write (by rw [Instruction.shown_eq ho]; rfl)
    | read =>
      cases h
      exact .leaf .read (by rw [Instruction.shown_eq ho]; rfl)
    | finish =>
      simp only at h
      split at h
      · cases h
        exact .finish (by rw [Instruction.shown_eq ho]; rfl) ‹_›
      · cases h
    | jumpIfZero =>
      cases h
      exact .enter (by rw [Instruction.shown_eq ho]; rfl)
    | jump =>
      cases loops with
      | nil => cases h
      | cons loop outer =>
        simp only at h
        split at h
        · cases h
        · split at h
          · cases h
          · rename_i hs ht
            cases h
            refine .leave loop.index ?_ ?_
            · rw [Instruction.shown_eq ho, if_neg (by decide), Decidable.not_not.1 hs]
              rfl
            · have ht := Decidable.not_not.1 ht
              rcases loop with ⟨start, target⟩
              simp only at ht
              rw [ht]
              rfl

/-- What has been checked is a nest of loops, and stays one to the end. -/
theorem checkFrom_trees {rest : List Instruction} (n : Nest) {last : Instruction}
    (hlast : rest.getLast? = some last) (hf : last.opcode? = some .finish)
    (h : checkFrom n.layout.length (Nest.openLoops n.outer) rest = .ok ()) :
    ∃ trees, n.layout ++ rest.map Instruction.shown = LoopTree.flattenAll 0 trees ++ [.finish] := by
  induction rest generalizing n with
  | nil => simp at hlast
  | cons i rest ih =>
    rw [checkFrom] at h
    obtain ⟨loops, hi, hrest⟩ : ∃ loops, checkInstruction i n.layout.length rest.isEmpty
        (Nest.openLoops n.outer) = .ok loops ∧
        checkFrom (n.layout.length + 1) loops rest = .ok () := by
      cases hi : checkInstruction i n.layout.length rest.isEmpty (Nest.openLoops n.outer) with
      | error e =>
        rw [hi] at h
        cases h
      | ok loops =>
        rw [hi] at h
        exact ⟨loops, rfl, h⟩
    -- every instruction but the last has the rest of the code behind it
    have hmore : ∀ n' : Nest, n'.layout = n.layout ++ [i.shown] →
        loops = Nest.openLoops n'.outer → i.opcode? ≠ some .finish →
        ∃ trees, n.layout ++ (i :: rest).map Instruction.shown =
          LoopTree.flattenAll 0 trees ++ [.finish] := by
      intro n' hn' hloops hne
      have hrest' : rest.getLast? = some last := by
        cases rest with
        | nil =>
          rw [List.getLast?_singleton, Option.some.injEq] at hlast
          exact absurd (hlast ▸ hf) hne
        | cons j more => simpa using hlast
      rw [hloops, show n.layout.length + 1 = n'.layout.length by simp [hn']] at hrest
      obtain ⟨trees, ht⟩ := ih n' hrest' hrest
      exact ⟨trees, by simpa [hn'] using ht⟩
    cases checkInstruction_ok hi with
    | leaf tree ht =>
      refine hmore (n.push tree) ?_ rfl ?_
      · rw [Nest.layout_push, LoopTree.flatten_instruction ht]
      · obtain ⟨o, ho, -, hne⟩ := LoopTree.opcode?_instruction ht
        rw [← Instruction.opcode?_shown, ho]
        simpa using hne
    | finish hs hl =>
      obtain rfl : rest = [] := List.isEmpty_iff.1 hl
      rcases n with ⟨level, outer⟩
      cases outer with
      | nil => exact ⟨level, by simp [Nest.layout, Nest.layoutOuter, hs]⟩
      | cons loop outer => simp [Nest.openLoops, checkFrom] at hrest
    | @enter target hs =>
      refine hmore (n.enter target) ?_ rfl ?_
      · rw [Nest.layout_enter, hs]
      · rw [← Instruction.opcode?_shown, hs]
        simp [Instruction.jumpIfZero]
    | @leave start outer' hs hl =>
      rcases n with ⟨level, outer⟩
      cases outer with
      | nil => cases hl
      | cons loop outer =>
        obtain ⟨trees, target⟩ := loop
        simp only [Nest.openLoops, List.cons.injEq, OpenLoop.mk.injEq] at hl
        obtain ⟨⟨rfl, ht⟩, rfl⟩ := hl
        refine hmore ⟨trees ++ [.loop level], outer⟩ ?_ rfl ?_
        · rw [Nest.layout_leave target ht, hs]
        · rw [← Instruction.opcode?_shown, hs]
          simp [Instruction.jump]

/-- **Valid code is nested loops and an `END`**, up to operands that mean nothing. -/
theorem IsValid.trees {c : Code} (h : c.IsValid) :
    ∃ trees, c.instructions.toList.map Instruction.shown =
      LoopTree.flattenAll 0 trees ++ [.finish] := by
  unfold IsValid validate at h
  split at h
  · cases h
  · rename_i last hback
    split at h
    · cases h
    · rename_i hcode
      split at h
      · cases h
      · have hf := Instruction.opcode?_of_code (Decidable.not_not.1 hcode)
        have hlast : c.instructions.toList.getLast? = some last := by
          rw [← hback, Array.getLast?_toList]
        exact checkFrom_trees {} hlast hf h

end Code

end Tapelang
