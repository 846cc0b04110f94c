import Tapelang.Code.LoopTree
import Tapelang.Code.Validation
import Tapelang.Proofs.Instructions

/-!
# Code as nested loops

`LoopTree.flattenAll` lays trees out as instructions. Two facts about that are used everywhere:

* `LoopTree.flattenAll_locate`: every instruction of flattened trees is the first one of a subtree
  or the last one of a loop.
* A `Nest` is the part of trees that has been laid out at some point, with the loops that are still
  open there. Adding a tree (`layout_push`), opening a loop (`layout_enter`) and closing one
  (`layout_leave`) each add instructions at the end, and a nest without open loops is trees again.
-/

namespace Tapelang

namespace LoopTree

/-! ## Flattening -/

theorem flatten_loop (index : Nat) (body : List LoopTree) :
    flatten index (loop body) =
      .jumpIfZero (index + (flattenAll (index + 1) body).length + 2 : Nat) ::
        (flattenAll (index + 1) body ++ [.jump index]) := by
  rw [flatten]
  rfl

theorem flattenAll_cons (index : Nat) (tree : LoopTree) (rest : List LoopTree) :
    flattenAll index (tree :: rest) =
      flatten index tree ++ flattenAll (index + (flatten index tree).length) rest := by
  rw [flattenAll]

theorem flattenAll_append (index : Nat) (trees more : List LoopTree) :
    flattenAll index (trees ++ more) =
      flattenAll index trees ++ flattenAll (index + (flattenAll index trees).length) more := by
  induction trees generalizing index with
  | nil => simp [flattenAll]
  | cons tree rest ih =>
    rw [List.cons_append, flattenAll_cons, flattenAll_cons, ih, List.append_assoc,
      List.length_append, Nat.add_assoc]

theorem flattenAll_singleton (index : Nat) (tree : LoopTree) :
    flattenAll index [tree] = flatten index tree := by
  rw [flattenAll_cons, flattenAll, List.append_nil]

/-- The instruction of a tree that is no loop. -/
def instruction? : LoopTree → Option Instruction
  | addByte n => some (.addByte n)
  | subByte n => some (.subByte n)
  | addPointer n => some (.addPointer n)
  | subPointer n => some (.subPointer n)
  | write => some .write
  | read => some .read
  | loop _ => none

theorem flatten_instruction {tree : LoopTree} {i : Instruction} (h : tree.instruction? = some i)
    (index : Nat) : tree.flatten index = [i] := by
  cases tree <;> cases h <;> rfl

theorem opcode?_instruction {tree : LoopTree} {i : Instruction} (h : tree.instruction? = some i) :
    ∃ o, i.opcode? = some o ∧ o.operandKind ≠ .target ∧ o ≠ .finish := by
  cases tree <;> cases h <;> exact ⟨_, Instruction.opcode?_of _ _, by decide, by decide⟩

/-- The tree of `n` commands of an operation on the cell or on the data pointer. -/
def run : Opcode → Nat → LoopTree
  | .addByte, n => addByte (UInt8.ofNat n)
  | .subByte, n => subByte (UInt8.ofNat n)
  | .addPointer, n => addPointer (UInt16.ofNat n)
  | _, n => subPointer (UInt16.ofNat n)

theorem instruction?_run {o : Opcode} {most n : Nat} (ho : o.capacity? = some most)
    (hn : n ≤ most) : (run o n).instruction? = some (.of o n) := by
  cases o <;> cases ho
  · have : (UInt8.ofNat n).toNat = n := UInt8.toNat_ofNat_of_lt' (Nat.lt_succ_of_le hn)
    simp [run, instruction?, Instruction.addByte, this]
  · have : (UInt8.ofNat n).toNat = n := UInt8.toNat_ofNat_of_lt' (Nat.lt_succ_of_le hn)
    simp [run, instruction?, Instruction.subByte, this]
  · have : (UInt16.ofNat n).toNat = n := UInt16.toNat_ofNat_of_lt' (Nat.lt_succ_of_le hn)
    simp [run, instruction?, Instruction.addPointer, this]
  · have : (UInt16.ofNat n).toNat = n := UInt16.toNat_ofNat_of_lt' (Nat.lt_succ_of_le hn)
    simp [run, instruction?, Instruction.subPointer, this]

/-! ## Locating instructions -/

/-- In `code`, whose first instruction has index `base`, the instructions of `tree` stand at
`offset`. -/
def Holds (base : Nat) (code : List Instruction) (offset : Nat) (tree : LoopTree) : Prop :=
  ∃ before after, code = before ++ tree.flatten (base + offset) ++ after ∧ before.length = offset

theorem Holds.self (base : Nat) (tree : LoopTree) : Holds base (tree.flatten base) 0 tree :=
  ⟨[], [], by simp, rfl⟩

/-- What a part of some code holds, the code holds too. -/
theorem Holds.within {base offset : Nat} {before code : List Instruction} {tree : LoopTree}
    (h : Holds (base + before.length) code offset tree) (after : List Instruction) :
    Holds base (before ++ code ++ after) (before.length + offset) tree := by
  obtain ⟨b, a, rfl, rfl⟩ := h
  exact ⟨before ++ b, a ++ after, by simp [Nat.add_assoc], by simp⟩

/-- The instruction at `k` is the first one of a tree or the last one of a loop. -/
def Located (base : Nat) (code : List Instruction) (k : Nat) : Prop :=
  ∃ offset tree, Holds base code offset tree ∧
    (k = offset ∨ ∃ body, tree = loop body ∧
      k = offset + (flattenAll (base + offset + 1) body).length + 1)

theorem Located.within {base k : Nat} (before : List Instruction) {code : List Instruction}
    (h : Located (base + before.length) code k) (after : List Instruction) :
    Located base (before ++ code ++ after) (before.length + k) := by
  obtain ⟨offset, tree, hh, hk⟩ := h
  refine ⟨before.length + offset, tree, hh.within after, ?_⟩
  rcases hk with rfl | ⟨body, ht, rfl⟩
  · exact .inl rfl
  · exact .inr ⟨body, ht, by simp only [← Nat.add_assoc]⟩

mutual

theorem flatten_locate : ∀ (tree : LoopTree) (base k : Nat),
    k < (flatten base tree).length → Located base (flatten base tree) k
  | loop body, base, k, hk => by
    rw [flatten_loop] at hk
    simp only [List.length_cons, List.length_append, List.length_nil] at hk
    by_cases h0 : k = 0
    · exact ⟨0, loop body, .self base _, .inl h0⟩
    · by_cases hlast : k = (flattenAll (base + 1) body).length + 1
      · exact ⟨0, loop body, .self base _, .inr ⟨body, rfl, by simpa using hlast⟩⟩
      · -- inside the body, behind the jump that opens the loop
        have hin := flattenAll_locate body (base + 1) (k - 1) (by omega)
        have hw := Located.within
          [.jumpIfZero (base + (flattenAll (base + 1) body).length + 2 : Nat)] hin [.jump base]
        rw [List.length_singleton, show 1 + (k - 1) = k by omega] at hw
        rw [flatten_loop]
        exact hw
  | addByte n, base, k, hk => ⟨0, addByte n, .self base _, .inl (by simpa [flatten] using hk)⟩
  | subByte n, base, k, hk => ⟨0, subByte n, .self base _, .inl (by simpa [flatten] using hk)⟩
  | addPointer n, base, k, hk =>
    ⟨0, addPointer n, .self base _, .inl (by simpa [flatten] using hk)⟩
  | subPointer n, base, k, hk =>
    ⟨0, subPointer n, .self base _, .inl (by simpa [flatten] using hk)⟩
  | write, base, k, hk => ⟨0, write, .self base _, .inl (by simpa [flatten] using hk)⟩
  | read, base, k, hk => ⟨0, read, .self base _, .inl (by simpa [flatten] using hk)⟩

/-- **Every instruction of flattened trees** is the first one of a subtree or the last one of a
loop. -/
theorem flattenAll_locate : ∀ (trees : List LoopTree) (base k : Nat),
    k < (flattenAll base trees).length → Located base (flattenAll base trees) k
  | [], base, k, hk => by simp [flattenAll] at hk
  | tree :: rest, base, k, hk => by
    rw [flattenAll_cons, List.length_append] at hk
    rw [flattenAll_cons]
    by_cases h : k < (flatten base tree).length
    · have hw := Located.within [] (flatten_locate tree base k h)
        (flattenAll (base + (flatten base tree).length) rest)
      simpa using hw
    · have hin := flattenAll_locate rest (base + (flatten base tree).length)
        (k - (flatten base tree).length) (by omega)
      have hw := Located.within (flatten base tree) hin []
      rw [List.append_nil, show (flatten base tree).length + (k - (flatten base tree).length) = k
        by omega] at hw
      exact hw

end

theorem getElem?_split {code after : List Instruction} {i : Instruction} {k : Nat}
    (hcode : code = code.take k ++ i :: after) (hk : k < code.length) : code[k]? = some i := by
  have hlen : (code.take k).length = k := List.length_take_of_le (Nat.le_of_lt hk)
  rw [hcode, List.getElem?_append_right (Nat.le_of_eq hlen), hlen, Nat.sub_self]
  rfl

/-- The last instruction of the loop that begins at `start`. -/
theorem getElem?_loop_end {code after : List Instruction} {body : List LoopTree} {start : Nat}
    (hcode : code = code.take start ++ (loop body).flatten start ++ after)
    (hstart : start ≤ code.length) :
    code[start + (flattenAll (start + 1) body).length + 1]? = some (.jump start) := by
  have hlen : (code.take start).length = start := List.length_take_of_le hstart
  rw [flatten_loop] at hcode
  rw [hcode, List.append_assoc, List.getElem?_append_right (by omega), hlen,
    show ∀ a b : Nat, a + b + 1 - a = b + 1 by omega]
  simp

/-- What the instruction at `k` is, and where it leads if it is a jump. -/
inductive Spot (code : List Instruction) (k : Nat) : Prop
  /-- It is an instruction that goes on to the next one. -/
  | leaf (tree : LoopTree) (i : Instruction) (after : List Instruction) :
      tree.instruction? = some i → code = code.take k ++ i :: after → Spot code k
  /-- It begins a loop. -/
  | enter (body : List LoopTree) (after : List Instruction) :
      code = code.take k ++ (loop body).flatten k ++ after → Spot code k
  /-- It ends the loop that begins at `start`. -/
  | leave (start : Nat) (body : List LoopTree) (after : List Instruction) :
      code = code.take start ++ (loop body).flatten start ++ after →
      start ≤ code.length → k = start + (flattenAll (start + 1) body).length + 1 → Spot code k

/-- **Every instruction of flattened trees** goes on to the next one, begins a loop or ends one. -/
theorem spot_flattenAll (trees : List LoopTree) {k : Nat} (hk : k < (flattenAll 0 trees).length) :
    Spot (flattenAll 0 trees) k := by
  obtain ⟨offset, tree, ⟨before, after, hcode, hlen⟩, hpos⟩ := flattenAll_locate trees 0 k hk
  rw [Nat.zero_add] at hcode hpos
  have htake : (flattenAll 0 trees).take offset = before := by
    rw [hcode, ← hlen, List.append_assoc, List.take_left]
  have hle : offset ≤ (flattenAll 0 trees).length := by
    rw [hcode]
    simp only [List.length_append, hlen]
    omega
  rw [← htake] at hcode
  rcases hpos with rfl | ⟨body, rfl, hlast⟩
  · cases hi : tree.instruction? with
    | some i =>
      rw [flatten_instruction hi, List.append_assoc] at hcode
      exact .leaf tree i after hi hcode
    | none =>
      cases tree with
      | loop body => exact .enter body after hcode
      | _ => cases hi
  · exact .leave offset body after hcode hle hlast

end LoopTree

/-! ## Nests -/

/-- Trees that have been laid out up to some point: those of the innermost loop that is open there,
and for each open loop, innermost first, the trees before it and the target of its jump. -/
structure Nest where
  level : List LoopTree := []
  outer : List (List LoopTree × Int) := []

namespace Nest

open LoopTree

/-- The instructions before the innermost open loop's own, its jump included. -/
def layoutOuter : List (List LoopTree × Int) → List Instruction
  | [] => []
  | (trees, target) :: outer =>
    layoutOuter outer ++ flattenAll (layoutOuter outer).length trees ++ [.jumpIfZero target]

/-- The instructions laid out so far. -/
def layout (n : Nest) : List Instruction :=
  layoutOuter n.outer ++ flattenAll (layoutOuter n.outer).length n.level

/-- Where the jumps of the open loops stand and where they lead. -/
def openLoops : List (List LoopTree × Int) → List Code.OpenLoop
  | [] => []
  | (trees, target) :: outer =>
    ⟨(layoutOuter outer ++ flattenAll (layoutOuter outer).length trees).length, target⟩ ::
      openLoops outer

/-- One more tree in the innermost open loop. -/
def push (n : Nest) (tree : LoopTree) : Nest := { n with level := n.level ++ [tree] }

/-- Opens a loop whose jump has the target `target`. -/
def enter (n : Nest) (target : Int) : Nest := ⟨[], (n.level, target) :: n.outer⟩

theorem layout_push (n : Nest) (tree : LoopTree) :
    (n.push tree).layout = n.layout ++ tree.flatten n.layout.length := by
  simp only [layout, push]
  rw [flattenAll_append, flattenAll_singleton, List.length_append, List.append_assoc]

theorem layout_enter (n : Nest) (target : Int) :
    (n.enter target).layout = n.layout ++ [.jumpIfZero target] := by
  simp only [layout, enter, layoutOuter, flattenAll, List.append_nil]

theorem openLoops_enter (n : Nest) (target : Int) :
    openLoops (n.enter target).outer = ⟨n.layout.length, target⟩ :: openLoops n.outer := rfl

/-- The jump of the innermost open loop, whatever its target is. -/
theorem layout_split (level trees : List LoopTree) (outer : List (List LoopTree × Int)) :
    ∃ before after : List Instruction,
      before.length =
        (layoutOuter outer ++ flattenAll (layoutOuter outer).length trees).length ∧
      ∀ target, (⟨level, (trees, target) :: outer⟩ : Nest).layout =
        before ++ .jumpIfZero target :: after := by
  refine ⟨layoutOuter outer ++ flattenAll (layoutOuter outer).length trees,
    flattenAll ((layoutOuter outer).length +
      (flattenAll (layoutOuter outer).length trees).length + 1) level, rfl, fun target => ?_⟩
  simp [layout, layoutOuter, Nat.add_assoc]

/-- Closes the innermost loop, whose jump leads behind the jump that is added. -/
theorem layout_leave {level trees : List LoopTree} {outer : List (List LoopTree × Int)}
    (target : Int)
    (h : target = ((⟨level, (trees, target) :: outer⟩ : Nest).layout.length + 1 : Nat)) :
    (⟨trees ++ [loop level], outer⟩ : Nest).layout =
      (⟨level, (trees, target) :: outer⟩ : Nest).layout ++
        [.jump (layoutOuter outer ++ flattenAll (layoutOuter outer).length trees).length] := by
  have hn : (⟨level, (trees, target) :: outer⟩ : Nest).layout =
      layoutOuter outer ++ flattenAll (layoutOuter outer).length trees ++
      [.jumpIfZero target] ++ flattenAll ((layoutOuter outer).length +
        (flattenAll (layoutOuter outer).length trees).length + 1) level := by
    simp [layout, layoutOuter, Nat.add_assoc]
  have hlen := congrArg List.length hn
  simp only [List.length_append, List.length_singleton] at hlen
  rw [hlen] at h
  rw [hn, h]
  simp only [layout]
  rw [flattenAll_append, flattenAll_singleton, flatten_loop]
  simp only [List.length_append, List.append_assoc, List.cons_append, List.nil_append]
  congr 4
  omega

end Nest

end Tapelang
