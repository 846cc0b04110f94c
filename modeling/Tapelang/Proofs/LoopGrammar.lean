import Tapelang.Proofs.ValidCode

/-!
# Valid code is exactly the flattened loop trees

The check of `Code.validate` and the layout of `LoopTree.flattenAll` describe the same codes.

* `LoopTree.flattenAll_inj`: no two lists of trees have the same instructions. The first jump of a
  loop tells how long the loop is, so the body can be cut out and compared.
* `Code.checkFrom_flattenAll`: the check passes over flattened trees and leaves the stack of open
  loops as it was. With `Code.IsValid.trees`, which reads trees off the stack, this gives both
  directions.
* `Code.isValid_iff_flattens`: validity as a grammar.
-/

namespace Tapelang

/-! ## Operands that mean nothing -/

namespace Instruction

theorem shown_of_plain {i : Instruction} (h : i.kind = .none → i.operand = 0) : i.shown = i := by
  unfold shown shownOperand
  split
  · rename_i hk
    rw [← h hk]
  · rfl

theorem map_shown_of_plain {is : List Instruction}
    (h : ∀ i ∈ is, i.kind = .none → i.operand = 0) : is.map shown = is := by
  rw [List.map_congr_left fun i hi => shown_of_plain (h i hi)]
  exact List.map_id is

end Instruction

namespace LoopTree

/-! ## Flattening loses nothing -/

theorem instruction?_inj {tree tree' : LoopTree} {i : Instruction}
    (h : tree.instruction? = some i) (h' : tree'.instruction? = some i) : tree = tree' := by
  cases tree <;> cases h <;> cases tree' <;>
    simp only [instruction?, Instruction.addByte, Instruction.subByte, Instruction.addPointer,
      Instruction.subPointer, Instruction.write, Instruction.read, Option.some.injEq,
      Instruction.of_inj, reduceCtorEq, false_and, true_and, Int.natCast_inj, UInt8.toNat_inj,
      UInt16.toNat_inj] at h' ⊢
  all_goals rw [h']

theorem flatten_ne_nil (index : Nat) (tree : LoopTree) : flatten index tree ≠ [] := by
  cases tree <;> simp [flatten]

theorem flattenAll_eq_nil {index : Nat} {trees : List LoopTree} :
    flattenAll index trees = [] ↔ trees = [] := by
  cases trees with
  | nil => simp [flattenAll]
  | cons tree rest => simp [flattenAll_cons, flatten_ne_nil]

theorem leaf_append_inj {tree tree' : LoopTree} {i : Instruction} {index : Nat}
    {rest rest' : List Instruction} (hi : tree.instruction? = some i)
    (h : flatten index tree ++ rest = flatten index tree' ++ rest') :
    tree = tree' ∧ rest = rest' := by
  rw [flatten_instruction hi] at h
  cases hi' : tree'.instruction? with
  | some i' =>
    rw [flatten_instruction hi'] at h
    obtain ⟨rfl, rfl⟩ := List.cons.inj h
    exact ⟨instruction?_inj hi hi', rfl⟩
  | none =>
    cases tree' with
    | loop body =>
      -- a loop begins with a jump, and no other tree does
      rw [flatten_loop] at h
      obtain ⟨rfl, -⟩ := List.cons.inj h
      obtain ⟨o, ho, hk, -⟩ := opcode?_instruction hi
      cases ho
      exact absurd rfl hk
    | _ => cases hi'

mutual

theorem flatten_append_inj : ∀ (tree tree' : LoopTree) (index : Nat)
    {rest rest' : List Instruction}, flatten index tree ++ rest = flatten index tree' ++ rest' →
    tree = tree' ∧ rest = rest'
  | loop body, tree', index, rest, rest', h => by
    cases hi : tree'.instruction? with
    | some i =>
      obtain ⟨ht, hr⟩ := leaf_append_inj hi h.symm
      exact ⟨ht.symm, hr.symm⟩
    | none =>
      cases tree' with
      | loop body' =>
        simp only [flatten_loop, List.cons_append, List.append_assoc, List.cons.injEq] at h
        obtain ⟨hjump, h⟩ := h
        have hlen : (flattenAll (index + 1) body).length =
            (flattenAll (index + 1) body').length := by
          have := congrArg Instruction.operand hjump
          simp only [Instruction.jumpIfZero, Instruction.of] at this
          omega
        obtain ⟨hbody, hrest⟩ := List.append_inj h hlen
        rw [flattenAll_inj body body' (index + 1) hbody]
        exact ⟨rfl, (List.cons.inj hrest).2⟩
      | _ => cases hi
  | addByte _, _, _, _, _, h => leaf_append_inj rfl h
  | subByte _, _, _, _, _, h => leaf_append_inj rfl h
  | addPointer _, _, _, _, _, h => leaf_append_inj rfl h
  | subPointer _, _, _, _, _, h => leaf_append_inj rfl h
  | write, _, _, _, _, h => leaf_append_inj rfl h
  | read, _, _, _, _, h => leaf_append_inj rfl h

/-- **Flattened trees** determine the trees. -/
theorem flattenAll_inj : ∀ (trees trees' : List LoopTree) (index : Nat),
    flattenAll index trees = flattenAll index trees' → trees = trees'
  | [], _, _, h => (flattenAll_eq_nil.1 h.symm).symm
  | _ :: _, [], _, h => flattenAll_eq_nil.1 h
  | tree :: rest, tree' :: rest', index, h => by
    rw [flattenAll_cons, flattenAll_cons] at h
    obtain ⟨rfl, h⟩ := flatten_append_inj tree tree' index h
    rw [flattenAll_inj rest rest' _ h]

end

/-! ## Flattened trees have no operands that mean nothing -/

mutual

theorem map_shown_flatten : ∀ (tree : LoopTree) (index : Nat),
    (flatten index tree).map Instruction.shown = flatten index tree
  | loop body, index => by
    rw [flatten_loop, List.map_cons, List.map_append, map_shown_flattenAll body]
    rfl
  | addByte _, _ | subByte _, _ | addPointer _, _ | subPointer _, _ | write, _ | read, _ => rfl

theorem map_shown_flattenAll : ∀ (trees : List LoopTree) (index : Nat),
    (flattenAll index trees).map Instruction.shown = flattenAll index trees
  | [], _ => rfl
  | tree :: rest, index => by
    rw [flattenAll_cons, List.map_append, map_shown_flatten tree, map_shown_flattenAll rest]

end

end LoopTree

namespace Code

open LoopTree

/-! ## The check passes over trees -/

theorem checkFrom_cons {i : Instruction} {index : Nat} {loops loops' : List OpenLoop}
    {rest : List Instruction} (h : checkInstruction i index rest.isEmpty loops = .ok loops') :
    checkFrom index loops (i :: rest) = checkFrom (index + 1) loops' rest := by
  rw [checkFrom, h]
  rfl

theorem checkInstruction_leaf {tree : LoopTree} {i : Instruction} (h : tree.instruction? = some i)
    (index : Nat) (isLast : Bool) (loops : List OpenLoop) :
    checkInstruction i index isLast loops = .ok loops := by
  have hwidth : ∀ (most : Nat) {n : Nat} {d : Defect}, n ≤ most →
      (do checkWidth most n d; return loops) = Except.ok loops := by
    intro most n d hn
    rw [checkWidth, if_pos (by omega)]
    rfl
  cases tree with
  | addByte n | subByte n =>
    cases h
    exact hwidth maxRunLength (Nat.le_of_lt_succ n.toNat_lt)
  | addPointer n | subPointer n =>
    cases h
    exact hwidth maxPointerDelta (Nat.le_of_lt_succ n.toNat_lt)
  | write | read =>
    cases h
    rfl
  | loop body => cases h

theorem checkInstruction_jump {index start : Nat} {isLast : Bool} {loops : List OpenLoop} :
    checkInstruction (.jump start) index isLast (⟨start, (index + 1 : Nat)⟩ :: loops) =
      .ok loops := by
  simp [checkInstruction, Instruction.jump, Instruction.of, Instruction.opcode?, Opcode.ofByte?,
    Opcode.toByte]

theorem checkFrom_leaf {tree : LoopTree} {i : Instruction} (h : tree.instruction? = some i)
    (index : Nat) (loops : List OpenLoop) (rest : List Instruction) :
    checkFrom index loops (flatten index tree ++ rest) =
      checkFrom (index + (flatten index tree).length) loops rest := by
  rw [flatten_instruction h, List.singleton_append, List.length_singleton]
  exact checkFrom_cons (checkInstruction_leaf h _ _ _)

mutual

theorem checkFrom_flatten : ∀ (tree : LoopTree) (index : Nat) (loops : List OpenLoop)
    (rest : List Instruction), checkFrom index loops (flatten index tree ++ rest) =
      checkFrom (index + (flatten index tree).length) loops rest
  | .loop body, index, loops, rest => by
    rw [flatten_loop, List.cons_append, List.append_assoc, checkFrom_cons rfl,
      checkFrom_flattenAll body (index + 1), List.singleton_append]
    -- the jump of the loop leads behind the instruction that is reached now
    have ht : index + (flattenAll (index + 1) body).length + 2 =
        index + 1 + (flattenAll (index + 1) body).length + 1 := by omega
    simp only [Instruction.jumpIfZero, Instruction.of, ht]
    rw [checkFrom_cons checkInstruction_jump]
    simp [Nat.add_assoc, Nat.add_comm 1]
  | .addByte _, index, loops, rest => checkFrom_leaf rfl index loops rest
  | .subByte _, index, loops, rest => checkFrom_leaf rfl index loops rest
  | .addPointer _, index, loops, rest => checkFrom_leaf rfl index loops rest
  | .subPointer _, index, loops, rest => checkFrom_leaf rfl index loops rest
  | .write, index, loops, rest => checkFrom_leaf rfl index loops rest
  | .read, index, loops, rest => checkFrom_leaf rfl index loops rest

/-- **The check passes over flattened trees** and leaves the open loops as they were. -/
theorem checkFrom_flattenAll : ∀ (trees : List LoopTree) (index : Nat) (loops : List OpenLoop)
    (rest : List Instruction), checkFrom index loops (flattenAll index trees ++ rest) =
      checkFrom (index + (flattenAll index trees).length) loops rest
  | [], index, loops, rest => by simp [flattenAll]
  | tree :: trees, index, loops, rest => by
    rw [flattenAll_cons, List.append_assoc, checkFrom_flatten tree index,
      checkFrom_flattenAll trees, List.length_append, Nat.add_assoc]

end

/-! ## Both directions -/

theorem checkInstruction_shown (i : Instruction) (index : Nat) (isLast : Bool)
    (loops : List OpenLoop) :
    checkInstruction i.shown index isLast loops = checkInstruction i index isLast loops := by
  unfold checkInstruction
  rw [Instruction.opcode?_shown]
  cases ho : i.opcode? with
  | none => rfl
  | some o =>
    rw [Instruction.shown_eq ho]
    cases o <;> rfl

theorem checkFrom_shown (is : List Instruction) (index : Nat) (loops : List OpenLoop) :
    checkFrom index loops (is.map Instruction.shown) = checkFrom index loops is := by
  induction is generalizing index loops with
  | nil => rfl
  | cons i rest ih =>
    rw [List.map_cons, checkFrom, checkFrom, checkInstruction_shown, List.isEmpty_map]
    simp only [ih]

theorem IsValid.locations {c : Code} (h : c.IsValid) :
    c.locations.size = 0 ∨ c.locations.size = c.size := by
  unfold IsValid validate at h
  split at h
  · cases h
  · split at h
    · cases h
    · split at h
      · cases h
      · omega

theorem validate_shown (c : Code) :
    ({ c with instructions := c.instructions.map Instruction.shown } : Code).validate =
      c.validate := by
  have hback : (c.instructions.map Instruction.shown).back? =
      c.instructions.back?.map Instruction.shown := by
    rw [← Array.getLast?_toList, ← Array.getLast?_toList, Array.toList_map, List.getLast?_map]
  unfold validate
  rw [hback]
  cases c.instructions.back? with
  | none => rfl
  | some last =>
    simp only [Option.map_some, Array.toList_map, checkFrom_shown, size, Array.size_map]
    rfl

theorem isValid_of_flattens {c : Code} {trees : List LoopTree}
    (hl : c.locations.size = 0 ∨ c.locations.size = c.size)
    (h : c.instructions.toList = flattenAll 0 trees ++ [.finish]) : c.IsValid := by
  have hback : c.instructions.back? = some .finish := by
    rw [← Array.getLast?_toList, h, List.getLast?_concat]
  unfold IsValid validate
  rw [hback]
  simp only
  rw [if_neg (by decide), if_neg (by omega), h, checkFrom_flattenAll]
  rfl

/-- **Validity is a grammar.** Code is valid exactly if its source map has no entries or one for
each instruction and its instructions are those of some loop trees and an `END`, and there is only
one such list of trees. Instructions are compared without operands that mean nothing; if there are
none of these, they are the very instructions of the trees. -/
theorem isValid_iff_flattens (c : Code) :
    (c.IsValid ↔ (c.locations.size = 0 ∨ c.locations.size = c.size) ∧
      ∃ trees, c.instructions.toList.map Instruction.shown =
        flattenAll 0 trees ++ [.finish]) ∧
    (∀ trees trees',
      c.instructions.toList.map Instruction.shown = flattenAll 0 trees ++ [.finish] →
      c.instructions.toList.map Instruction.shown = flattenAll 0 trees' ++ [.finish] →
      trees = trees') ∧
    ((∀ i ∈ c.instructions, i.kind = .none → i.operand = 0) →
      (c.IsValid ↔ (c.locations.size = 0 ∨ c.locations.size = c.size) ∧
        ∃ trees, c.instructions.toList = flattenAll 0 trees ++ [.finish])) := by
  have hiff : c.IsValid ↔ (c.locations.size = 0 ∨ c.locations.size = c.size) ∧
      ∃ trees, c.instructions.toList.map Instruction.shown =
        flattenAll 0 trees ++ [.finish] := by
    constructor
    · intro h
      exact ⟨h.locations, h.trees⟩
    · rintro ⟨hl, trees, ht⟩
      rw [IsValid, ← validate_shown]
      exact isValid_of_flattens (by simpa [size] using hl) (by rw [← ht, Array.toList_map])
  refine ⟨hiff, fun trees trees' h h' => ?_, fun hplain => ?_⟩
  · rw [h] at h'
    exact flattenAll_inj trees trees' 0 (List.append_cancel_right h')
  · rw [hiff, Instruction.map_shown_of_plain fun i hi => hplain i (Array.mem_toList_iff.1 hi)]

end Code

end Tapelang
