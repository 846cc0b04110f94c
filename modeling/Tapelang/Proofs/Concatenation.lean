import Tapelang.Proofs.BracketMatching
import Tapelang.Proofs.Recompiling

/-!
# Texts one after the other

Two texts that compile also compile as one text, and where no run of commands goes on over the seam,
the code is that of the first text and that of the second text moved behind it.

* `IsBalanced.append`: brackets that are balanced in both texts are balanced in their concatenation.
* `LoopTree.flattenAll_relocate`: trees laid out further behind are the same instructions with their
  jumps moved as far.
* `IsFolded.append`: folded instructions stay folded behind others if no run goes on over the seam.
* `compileBytes_append`: both together.
-/

namespace Tapelang

open LoopTree

/-! ## Brackets -/

/-- Balanced texts are balanced one after the other. -/
theorem IsBalanced.append {first rest : Bytes} (hf : IsBalanced first) (hr : IsBalanced rest) :
    IsBalanced (first ++ rest) := by
  have hright : ∀ k, depthAt (first ++ rest) (first.length + k) = depthAt rest k := by
    intro k
    rw [depthAt_append_right, hf.2, Int.zero_add]
  refine ⟨fun k hk => ?_, by rw [List.length_append, hright, hr.2]⟩
  rw [List.length_append] at hk
  rcases Nat.le_total k first.length with hle | hge
  · rw [depthAt_append_left rest hle]
    exact hf.1 k hle
  · obtain ⟨j, rfl⟩ := Nat.exists_eq_add_of_le hge
    rw [hright]
    exact hr.1 j (by omega)

theorem isBalanced_of_compileBytes {naming : Naming} {text : Bytes} {code : Code}
    (h : compileBytes naming text = .ok code) : IsBalanced text := by
  rcases compileBytes_outcome naming text with ⟨_, -, hb⟩ | ⟨k, hc, -⟩ | ⟨k, hc, -⟩
  · exact hb
  · rw [h] at hc
    cases hc
  · rw [h] at hc
    cases hc

theorem IsBalanced.compileBytes {text : Bytes} (h : IsBalanced text) (naming : Naming) :
    ∃ code, compileBytes naming text = .ok code := by
  rcases compileBytes_outcome naming text with ⟨code, hc, -⟩ | ⟨k, -, hk⟩ | ⟨k, -, hpos, hk⟩
  · exact ⟨code, hc⟩
  · obtain ⟨j, hj, hneg⟩ := hk.depth_neg
    have := h.1 j hj
    omega
  · have := hk.1.depth_pos hpos
    rw [h.2] at this
    omega

/-! ## Relocation -/

namespace Instruction

theorem relocate_jumpIfZero (distance target : Int) :
    (jumpIfZero target).relocate distance = jumpIfZero (target + distance) := rfl

theorem relocate_jump (distance target : Int) :
    (jump target).relocate distance = jump (target + distance) := rfl

theorem relocate_of_kind {i : Instruction} (h : i.kind ≠ .target) (distance : Int) :
    i.relocate distance = i := if_neg h

theorem code_relocate (distance : Int) (i : Instruction) : (i.relocate distance).code = i.code := by
  unfold relocate
  split <;> rfl

/-- Counts are not moved. -/
theorem operand_relocate (distance : Int) {i : Instruction} (h : i.capacity?.isSome) :
    (i.relocate distance).operand = i.operand := by
  obtain ⟨most, hmost⟩ := Option.isSome_iff_exists.1 h
  obtain ⟨o, ho, hcap⟩ := Option.bind_eq_some_iff.1 hmost
  have hkind : o.operandKind ≠ .target := by cases o <;> cases hcap <;> decide
  rw [relocate_of_kind (by rw [kind_of_opcode? ho]; exact hkind)]

theorem commands_relocate (distance : Int) (i : Instruction) :
    (i.relocate distance).commands = i.commands := by
  by_cases hk : i.kind = .target
  · -- a jump stands for its bracket, wherever it leads
    have ho : (i.relocate distance).opcode? = i.opcode? := by
      rw [opcode?, opcode?, code_relocate]
    cases hi : i.opcode? with
    | none => simp [commands, ho, hi]
    | some o =>
      rw [kind_of_opcode? hi] at hk
      cases o <;> simp_all [commands, Opcode.operandKind]
  · rw [relocate_of_kind hk]

end Instruction

theorem expand_map_relocate (distance : Int) (is : List Instruction) :
    expand (is.map (Instruction.relocate distance)) = expand is := by
  simp only [expand, List.flatMap_map, Instruction.commands_relocate]

namespace LoopTree

/-- A tree without a loop stands everywhere as the same instruction. -/
theorem flatten_relocate_leaf {tree : LoopTree} {i : Instruction}
    (hi : tree.instruction? = some i) (index distance : Nat) :
    (flatten index tree).map (Instruction.relocate distance) = flatten (index + distance) tree := by
  obtain ⟨o, ho, hk, -⟩ := opcode?_instruction hi
  rw [← Instruction.kind_of_opcode? ho] at hk
  rw [flatten_instruction hi, flatten_instruction hi, List.map_singleton,
    Instruction.relocate_of_kind hk]

mutual

theorem flatten_relocate : ∀ (tree : LoopTree) (index distance : Nat),
    (flatten index tree).map (Instruction.relocate distance) = flatten (index + distance) tree
  | loop body, index, distance => by
    have hbody := flattenAll_relocate body (index + 1) distance
    rw [Nat.add_right_comm] at hbody
    have hlen := congrArg List.length hbody
    rw [List.length_map] at hlen
    rw [flatten_loop, flatten_loop, List.map_cons, List.map_append, List.map_singleton, hbody,
      Instruction.relocate_jumpIfZero, Instruction.relocate_jump, ← Int.natCast_add,
      ← Int.natCast_add, hlen]
    congr 3
    omega
  | addByte _, index, distance => flatten_relocate_leaf rfl index distance
  | subByte _, index, distance => flatten_relocate_leaf rfl index distance
  | addPointer _, index, distance => flatten_relocate_leaf rfl index distance
  | subPointer _, index, distance => flatten_relocate_leaf rfl index distance
  | write, index, distance => flatten_relocate_leaf rfl index distance
  | read, index, distance => flatten_relocate_leaf rfl index distance

/-- **Trees that stand further behind** are the same instructions, with their jumps moved. -/
theorem flattenAll_relocate : ∀ (trees : List LoopTree) (index distance : Nat),
    (flattenAll index trees).map (Instruction.relocate distance) =
      flattenAll (index + distance) trees
  | [], _, _ => rfl
  | tree :: rest, index, distance => by
    have hfirst := flatten_relocate tree index distance
    have hlen := congrArg List.length hfirst
    rw [List.length_map] at hlen
    rw [flattenAll_cons, flattenAll_cons, List.map_append, hfirst,
      flattenAll_relocate rest (index + (flatten index tree).length) distance, ← hlen,
      Nat.add_right_comm]

end

end LoopTree

/-! ## The seam -/

/-- The last command of the first list and the first command of the second are not the same one of
the commands that are folded. -/
def IsSeam (first rest : List Command) : Prop :=
  ∀ c ∈ [Command.increment, .decrement, .right, .left],
    ¬ (first.getLast? = some c ∧ rest.head? = some c)

theorem Command.mem_of_run? {c : Command} {run : Opcode × Nat} (h : c.run? = some run) :
    c ∈ [Command.increment, .decrement, .right, .left] := by
  cases c <;> cases h <;> decide

/-- Instructions on both sides of a seam do not fit into each other. -/
theorem Instruction.closed_of_seam {init tail : List Instruction} {i j : Instruction}
    (hi : i.capacity?.isSome → 1 ≤ i.operand) (hj : j.capacity?.isSome → 1 ≤ j.operand)
    (h : IsSeam (expand (init ++ [i])) (expand (j :: tail))) : i.Closed j := by
  refine closed_of_separate hi hj fun c o most hhead hnext hrun => ?_
  -- a block of a folded command is that command over and over, so its last command is its first
  have hio := opcode?_of_head hhead hrun
  rw [Command.commands_eq hrun hio] at hhead
  have hpos : i.operand.toNat ≠ 0 := by
    intro h0
    rw [h0] at hhead
    cases hhead
  refine absurd ⟨?_, ?_⟩ (h c (Command.mem_of_run? hrun))
  · rw [expand_append, expand_cons, expand_nil, List.append_nil, Command.commands_eq hrun hio,
      List.getLast?_append, List.getLast?_replicate, if_neg hpos, Option.some_or]
  · rw [expand_cons, List.head?_append, hnext, Option.some_or]

/-- Folded instructions behind others are folded if no run goes on over the seam. -/
theorem IsFolded.append {is js : List Instruction} (hi : IsFolded is) (hj : IsFolded js)
    (h : IsSeam (expand is) (expand js)) : IsFolded (is ++ js) := by
  rw [isFolded_iff] at hi hj ⊢
  refine ⟨fun i hmem => ?_, List.isChain_append.2 ⟨hi.2, hj.2, fun i hlast j hfirst => ?_⟩⟩
  · rcases List.mem_append.1 hmem with hmem | hmem
    · exact hi.1 i hmem
    · exact hj.1 i hmem
  · obtain ⟨init, rfl⟩ := List.getLast?_eq_some_iff.1 hlast
    obtain ⟨tail, rfl⟩ := List.head?_eq_some_iff.1 hfirst
    exact Instruction.closed_of_seam (hi.1 i (by simp)) (hj.1 j (by simp)) h

/-! ## Compilation -/

theorem commandsOf_append (first rest : Bytes) :
    commandsOf (first ++ rest) = commandsOf first ++ commandsOf rest :=
  List.filterMap_append

/-- Trees that have been compiled stay folded, and stand for the same commands, further behind. -/
theorem IsCompiled.moved {code : List Instruction} {commands : List Command}
    {trees : List LoopTree} (h : IsCompiled code commands trees) (hf : IsFolded code)
    (distance : Nat) :
    IsFolded (flattenAll distance trees) ∧ expand (flattenAll distance trees) = commands ∧
      flattenAll distance trees ++ [.finish] = code.map (Instruction.relocate distance) := by
  have hmoved : flattenAll distance trees =
      (flattenAll 0 trees).map (Instruction.relocate distance) := by
    rw [flattenAll_relocate, Nat.zero_add]
  rw [h.code] at hf
  rw [hmoved]
  refine ⟨hf.left.map (Instruction.code_relocate distance) fun i => ?_, ?_, ?_⟩
  · exact Instruction.operand_relocate distance
  · rw [expand_map_relocate, h.spelled]
  · rw [h.code, List.map_append]
    rfl

/-- **Compilation is compositional.** Texts that compile also compile one after the other. Unless
the last command of the first text and the first command of the second are the same one of the
commands that are folded, the instructions are those of the first text without its `END`, and then
those of the second text, whose jumps lead further by the number of instructions before them. -/
theorem compileBytes_append {naming₁ naming₂ : Naming} {text₁ text₂ : Bytes} {code₁ code₂ : Code}
    (h₁ : compileBytes naming₁ text₁ = .ok code₁) (h₂ : compileBytes naming₂ text₂ = .ok code₂)
    (naming : Naming) :
    ∃ code, compileBytes naming (text₁ ++ text₂) = .ok code ∧
      (IsSeam (commandsOf text₁) (commandsOf text₂) →
        code.instructions.toList = code₁.instructions.toList.dropLast ++
          code₂.instructions.toList.map (Instruction.relocate (code₁.size - 1 : Int))) := by
  have hbalanced := (isBalanced_of_compileBytes h₁).append (isBalanced_of_compileBytes h₂)
  obtain ⟨code, hcode⟩ := hbalanced.compileBytes naming
  refine ⟨code, hcode, fun hseam => ?_⟩
  obtain ⟨trees₁, hc₁⟩ := compileBytes_trees h₁
  obtain ⟨trees₂, hc₂⟩ := compileBytes_trees h₂
  have hf₁ := compileBytes_isFolded h₁
  rw [hc₁.code] at hf₁
  obtain ⟨hf₂, hspelled₂, hmoved⟩ :=
    hc₂.moved (compileBytes_isFolded h₂) (flattenAll 0 trees₁).length
  -- the trees of both texts, one after the other, are folded and spell both texts
  have hall : flattenAll 0 (trees₁ ++ trees₂) =
      flattenAll 0 trees₁ ++ flattenAll (flattenAll 0 trees₁).length trees₂ := by
    rw [flattenAll_append, Nat.zero_add]
  have hcommands : commandsOf (text₁ ++ text₂) = expand (flattenAll 0 (trees₁ ++ trees₂)) := by
    rw [hall, expand_append, hc₁.spelled, hspelled₂, commandsOf_append]
  have hfolded : IsFolded (flattenAll 0 (trees₁ ++ trees₂)) := by
    rw [hall]
    refine hf₁.left.append hf₂ ?_
    rw [hc₁.spelled, hspelled₂]
    exact hseam
  obtain ⟨code', hcode', hinstructions⟩ := compileBytes_flattenAll naming hcommands hfolded
  rw [hcode] at hcode'
  cases hcode'
  have hsize : (code₁.size - 1 : Int) = (flattenAll 0 trees₁).length := by
    rw [Code.size, ← Array.length_toList, hc₁.code, List.length_append, List.length_singleton]
    omega
  rw [hinstructions, hall, List.append_assoc, hmoved, hsize, hc₁.code, List.dropLast_concat]

/-- A loop behind a loop: its jumps lead further by four. -/
theorem compileBytes_append_loops :
    ∃ code, compileBytes {} (utf8 "+[-]" ++ utf8 "[.]") = .ok code ∧
      code.instructions.toList =
        [.addByte 1, .jumpIfZero 4, .subByte 1, .jump 1, .jumpIfZero 7, .write, .jump 4,
          .finish] := by
  obtain ⟨code₁, h₁, hi₁⟩ : ∃ code, compileBytes {} (utf8 "+[-]") = .ok code ∧
      code.instructions = #[.addByte 1, .jumpIfZero 4, .subByte 1, .jump 1, .finish] := by
    rw [compileBytes_eq]
    exact ⟨_, rfl, by decide⟩
  obtain ⟨code₂, h₂, hi₂⟩ : ∃ code, compileBytes {} (utf8 "[.]") = .ok code ∧
      code.instructions = #[.jumpIfZero 3, .write, .jump 0, .finish] := by
    rw [compileBytes_eq]
    exact ⟨_, rfl, by decide⟩
  obtain ⟨code, hcode, hinstructions⟩ := compileBytes_append h₁ h₂ {}
  refine ⟨code, hcode, (hinstructions (by unfold IsSeam; decide)).trans ?_⟩
  rw [Code.size, hi₁, hi₂]
  decide

end Tapelang
